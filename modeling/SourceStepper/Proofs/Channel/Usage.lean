import SourceStepper.Proofs.Channel.Commands

namespace SourceStepper.Channel

inductive Use
  | pushed (command : Command)
  | sent (sender : Nat) (command : Command)
  /-- A sender has been made, from another one or by the consumer. -/
  | made (sender : Nat)
  | dropped (sender : Nat)
  /-- The consumer has the oldest envelope, whether it would have waited for one or not. -/
  | took (e : Envelope)
  | foundNone
  | tookFromHost (command : Command)

abbrev Usage := List Use

inductive Used : Channel → Use → Channel → Prop
  | push (c : Channel) (command : Command) : Used c (.pushed command) (c.push command)
  | send {c d : Channel} (sender : Nat) (command : Command) (sent : c.send sender command = .ok d) :
      Used c (.sent sender command) d
  | issue (c : Channel) : Used c (.made c.issue.1) c.issue.2
  | clone {c d : Channel} {id : Nat} (sender : Nat) (cloned : c.clone? sender = some (id, d)) :
      Used c (.made id) d
  | drop {c d : Channel} (sender : Nat) (dropped : c.drop? sender = some d) :
      Used c (.dropped sender) d
  | take {c d : Channel} {e : Envelope} (taken : c.take? = some (e, d)) : Used c (.took e) d
  | tryTake {c : Channel} (none : c.take? = none) : Used c .foundNone c
  | takeFromHost {c d : Channel} {command : Command}
      (taken : c.takeFromHost? = some (command, d)) : Used c (.tookFromHost command) d

/-- A channel that has been opened with one sender, and what has been done with it since. -/
inductive Lived : Channel → Usage → Prop
  | opened : Lived {} []
  | use {c d : Channel} {use : Use} {h : Usage} (lived : Lived c h) (used : c.Used use d) :
      Lived d (use :: h)

namespace Use

def delivered? : Use → Option Command
  | took ⟨command, .host⟩ => some command
  | tookFromHost command => some command
  | _ => none

def made? : Use → Option Nat
  | made sender => some sender
  | _ => none

def dropped? : Use → Option Nat
  | dropped sender => some sender
  | _ => none

end Use

def delivered (h : Usage) : List Command := h.reverse.filterMap Use.delivered?

def made (h : Usage) : List Nat := 0 :: h.reverse.filterMap Use.made?

def dropped (h : Usage) : List Nat := h.filterMap Use.dropped?

/-- The senders that have been made and not been dropped. -/
def held (h : Usage) : List Nat := (made h).filter (· ∉ dropped h)

/-- The commands that hosts have sent, the oldest first. With the last sender that is dropped, a
`stop` is sent. -/
def sent : Usage → List Command
  | [] => []
  | .sent _ command :: h => sent h ++ [command]
  | .dropped sender :: h => sent h ++ if held (.dropped sender :: h) = [] then [.stop] else []
  | _ :: h => sent h

@[simp] theorem delivered_cons (use : Use) (h : Usage) :
    delivered (use :: h) = delivered h ++ use.delivered?.toList := by
  cases fact : use.delivered? <;> simp [delivered, fact]

@[simp] theorem made_cons (use : Use) (h : Usage) :
    made (use :: h) = made h ++ use.made?.toList := by
  cases fact : use.made? <;> simp [made, fact]

@[simp] theorem dropped_cons (use : Use) (h : Usage) :
    dropped (use :: h) = use.dropped?.toList ++ dropped h := by
  cases fact : use.dropped? <;> simp [dropped, fact]

variable {c d : Channel} {h : Usage}

structure Kept (c : Channel) (h : Usage) : Prop where
  isOpen : c.isOpen = true
  senders : c.senders = held h
  unused : ∀ id ∈ made h, id < c.issued
  once : (made h).Nodup
  drops : ∀ id ∈ dropped h, id ∈ made h
  count : c.liveSenders + (dropped h).length = (made h).length

theorem opened_kept : Kept {} [] :=
  ⟨rfl, rfl, by simp [made], by simp [made], by simp [dropped], rfl⟩

theorem issue_kept (kept : c.Kept h) : c.issue.2.Kept (.made c.issue.1 :: h) := by
  -- no number is given twice, so a sender that has just been made cannot have been dropped
  have new : c.issued ∉ made h := fun used => Nat.lt_irrefl _ (kept.unused _ used)
  have undropped : c.issued ∉ dropped h := fun used => new (kept.drops _ used)
  have more : made (.made c.issued :: h) = made h ++ [c.issued] := made_cons _ h
  have same : dropped (.made c.issued :: h) = dropped h := dropped_cons _ h
  constructor
  · exact kept.isOpen
  · simp only [issue, held, more, same, List.filter_append, kept.senders]
    simp [undropped]
  · simp only [issue, more, List.mem_append, List.mem_singleton]
    rintro id (member | rfl)
    · exact Nat.lt_succ_of_lt (kept.unused id member)
    · exact Nat.lt_succ_self _
  · simp only [issue, more, List.nodup_append, List.mem_singleton]
    refine ⟨kept.once, by simp, ?_⟩
    rintro id member _ rfl rfl
    exact new member
  · intro id member
    simp only [issue, more]
    exact List.mem_append_left _ (kept.drops id member)
  · have count := kept.count
    simp only [issue, liveSenders, more, same, List.length_append, List.length_singleton] at count ⊢
    omega

theorem drop?_kept {sender : Nat} (kept : c.Kept h) (drops : c.drop? sender = some d) :
    d.Kept (.dropped sender :: h) := by
  obtain ⟨known, rfl⟩ := drop?_eq_some kept.isOpen drops
  have same : made (.dropped sender :: h) = made h := by simp [Use.made?]
  have more : dropped (.dropped sender :: h) = sender :: dropped h := by simp [Use.dropped?]
  have here : sender ∈ made h := (List.mem_filter.mp (kept.senders ▸ known)).1
  constructor
  · exact kept.isOpen
  · have once : (held h).Nodup := kept.once.filter _
    rw [kept.senders, once.erase_eq_filter, held, held, List.filter_filter, same, more]
    apply List.filter_congr
    intro id _
    by_cases last : id = sender <;> simp [last]
  · rw [same]
    exact kept.unused
  · rw [same]
    exact kept.once
  · rw [same, more]
    simpa using ⟨here, kept.drops⟩
  · have count := kept.count
    have fewer := List.length_erase_of_mem known
    have some := List.length_pos_of_mem known
    simp only [liveSenders, same, more, List.length_cons] at count ⊢
    omega

theorem quiet_kept {use : Use} (kept : c.Kept h) (same : ∃ queue, d = { c with queue })
    (quiet : use.made? = none ∧ use.dropped? = none) : d.Kept (use :: h) := by
  obtain ⟨queue, rfl⟩ := same
  have made : made (use :: h) = made h := by simp [quiet]
  have dropped : dropped (use :: h) = dropped h := by simp [quiet]
  constructor
  · exact kept.isOpen
  · rw [held, made, dropped]
    exact kept.senders
  · rw [made]
    exact kept.unused
  · rw [made]
    exact kept.once
  · rw [made, dropped]
    exact kept.drops
  · rw [made, dropped]
    exact kept.count

theorem used_kept {use : Use} (kept : c.Kept h) (used : c.Used use d) : d.Kept (use :: h) := by
  cases used with
  | push command =>
    rw [push, enqueue_open kept.isOpen]
    exact quiet_kept kept ⟨_, rfl⟩ ⟨rfl, rfl⟩
  | send sender command sends => exact quiet_kept kept ⟨_, (send_eq_ok sends).2⟩ ⟨rfl, rfl⟩
  | issue => exact issue_kept kept
  | clone sender clones =>
    have issued := issue_kept kept
    rwa [(clone?_eq_some clones).2] at issued
  | drop sender drops => exact drop?_kept kept drops
  | take taken => exact quiet_kept kept ⟨_, (take?_eq_some taken).2⟩ ⟨rfl, rfl⟩
  | tryTake => exact quiet_kept kept ⟨_, rfl⟩ ⟨rfl, rfl⟩
  | takeFromHost taken =>
    obtain ⟨_, _, _, same⟩ := takeFromHost?_eq_some taken
    exact quiet_kept kept ⟨_, same⟩ ⟨rfl, rfl⟩

theorem lived_kept (lived : Lived c h) : c.Kept h := by
  induction lived with
  | opened => exact opened_kept
  | use _ used ih => exact used_kept ih used

theorem used_conserves {use : Use} (kept : c.Kept h) (used : c.Used use d)
    (before : delivered h ++ c.commands = sent h) :
    delivered (use :: h) ++ d.commands = sent (use :: h) := by
  have still := (used_kept kept used).senders
  cases used with
  | push command => simpa [Use.delivered?, sent, commands_push] using before
  | send sender command sends =>
    have queued := hostMove_commands kept.isOpen (.send sends)
    simp [Use.delivered?, sent, queued, ← before]
  | issue =>
    have queued := hostMove_commands kept.isOpen (.issue c)
    simpa [Use.delivered?, sent, queued] using before
  | clone sender clones =>
    have queued := hostMove_commands kept.isOpen (.clone clones)
    simpa [Use.delivered?, sent, queued] using before
  | drop sender drops =>
    have queued := hostMove_commands kept.isOpen (.drop drops)
    simp [Use.delivered?, sent, queued, ← before, still]
  | take taken =>
    rename_i e
    have queued := commands_take? taken
    obtain ⟨command, origin⟩ := e
    cases origin <;> simpa [Use.delivered?, sent, queued, Envelope.isHost] using before
  | tryTake => simpa [Use.delivered?, sent] using before
  | takeFromHost taken =>
    have queued := commands_takeFromHost? taken
    simpa [Use.delivered?, sent, queued] using before

theorem lived_conserves (lived : Lived c h) : delivered h ++ c.commands = sent h := by
  induction lived with
  | opened => rfl
  | use lived used ih => exact used_conserves (lived_kept lived) used ih

def LeftBehind (earlier h : Usage) : Prop :=
  ∃ later sender, h = later ++ .dropped sender :: earlier ∧ held (.dropped sender :: earlier) = [] ∧
    ∀ s, .dropped s ∉ later

theorem LeftBehind.cons {use : Use} {earlier : Usage} (left : LeftBehind earlier h)
    (quiet : use.dropped? = none) : LeftBehind earlier (use :: h) := by
  obtain ⟨later, sender, rfl, last, none⟩ := left
  refine ⟨use :: later, sender, rfl, last, ?_⟩
  intro s member
  rcases List.mem_cons.mp member with rfl | member
  · contradiction
  · exact none s member

/-- A channel without senders has been left by the last one of them, and nobody has sent
anything since. -/
theorem exists_leftBehind (lived : Lived c h) (deserted : c.senders = []) :
    ∃ earlier, LeftBehind earlier h ∧ sent h = sent earlier ++ [.stop] := by
  induction lived with
  | opened => contradiction
  | @use c d use h lived used ih =>
    have kept := lived_kept lived
    -- a use that neither makes nor drops a sender leaves the channel as deserted as it was
    have same : use.made? = none → use.dropped? = none → c.senders = [] := by
      intro made dropped
      rw [(used_kept kept used).senders] at deserted
      rw [kept.senders]
      simpa [held, made, dropped] using deserted
    cases used with
    | send sender command sends =>
      have known := (send_eq_ok sends).1
      simp [same rfl rfl] at known
    | issue => simp [issue] at deserted
    | clone sender clones =>
      cases (clone?_eq_some clones).2
      simp at deserted
    | drop sender drops =>
      have last := (drop?_kept kept drops).senders.symm.trans deserted
      exact ⟨h, ⟨[], _, rfl, last, by simp⟩, by simp [sent, last]⟩
    | _ =>
      obtain ⟨earlier, left, stop⟩ := ih (same rfl rfl)
      exact ⟨earlier, left.cons rfl, stop⟩

/-- Whatever senders and consumer do with a channel. What the consumer has got and what is still
queued are together what hosts have sent, in that order. The live senders are those that have been
made and not been dropped. A consumer that waits for a host removes nothing but the controller's own
in front of the command that it gets. The `stop` that the last sender has left behind is the last
command in the queue for as long as there are no senders and it has not been delivered. -/
theorem channel_conserves (lived : Lived c h) :
    delivered h ++ c.commands = sent h ∧
    (c.senders = held h ∧ c.liveSenders + (dropped h).length = (made h).length) ∧
    (∀ command d, c.takeFromHost? = some (command, d) →
      ∃ own, (∀ e ∈ own, e.origin = .harness) ∧ c.queue = own ++ ⟨command, .host⟩ :: d.queue ∧
        d = { c with queue := d.queue }) ∧
    (c.liveSenders = 0 → ∃ earlier, LeftBehind earlier h ∧ sent h = sent earlier ++ [.stop] ∧
      ((delivered h).length ≤ (sent earlier).length →
        ∃ others, c.commands = others ++ [.stop] ∧ delivered h ++ others = sent earlier)) := by
  have conserved := lived_conserves lived
  have kept := lived_kept lived
  refine ⟨conserved, ⟨kept.senders, kept.count⟩, ?_, ?_⟩
  · intro command d taken
    obtain ⟨own, harness, queue, same⟩ := takeFromHost?_eq_some taken
    refine ⟨own, ?_, queue, same⟩
    intro e member
    have notHost := harness e member
    cases origin : e.origin with
    | harness => rfl
    | host => simp [Envelope.isHost, origin] at notHost
  · intro deserted
    obtain ⟨earlier, left, stop⟩ := exists_leftBehind lived (List.length_eq_zero_iff.mp deserted)
    refine ⟨earlier, left, stop, ?_⟩
    intro waiting
    rw [stop] at conserved
    rcases List.append_eq_append_iff.mp conserved with ⟨others, before, rest⟩ | ⟨more, behind, rest⟩
    · exact ⟨others, rest, before.symm⟩
    · rw [behind, List.length_append] at waiting
      have none : more = [] := List.length_eq_zero_iff.mp (by omega)
      subst none
      exact ⟨[], rest.symm, by simpa using behind⟩

/-- Two senders are dropped, a third one is made when nobody is left, and dropped as well. The
consumer has taken all but the second `stop`, in each of its ways. -/
theorem channel_left_twice :
    ∃ c h, Lived c h ∧ sent h = [.stepOver, .stop, .resume, .stop] ∧
      delivered h = [.stepOver, .stop, .resume] ∧ c.commands = [.stop] ∧
      delivered h ++ c.commands = sent h ∧ c.liveSenders = 0 ∧ ∃ earlier, LeftBehind earlier h ∧
        ∃ others, c.commands = others ++ [.stop] ∧ delivered h ++ others = sent earlier := by
  have cloned :=
    ((Lived.opened.use (.send 0 .stepOver rfl)).use (.push _ .execute)).use (.clone 0 rfl)
  have deserted := (cloned.use (.drop 0 rfl)).use (.drop 1 rfl)
  have again := ((deserted.use (.takeFromHost rfl)).use (.issue _)).use (.send 2 .resume rfl)
  have left := (again.use (.push _ .execute)).use (.drop 2 rfl)
  have taken := ((left.use (.take rfl)).use (.take rfl)).use (.takeFromHost rfl)
  obtain ⟨conserved, _, _, behind⟩ := channel_conserves taken
  obtain ⟨earlier, last, stop, waiting⟩ := behind rfl
  have length := congrArg List.length stop
  refine ⟨_, _, taken, rfl, rfl, rfl, conserved, rfl, earlier, last, waiting ?_⟩
  rw [List.length_append] at length
  exact Nat.le_of_eq (Nat.succ.inj length)

end SourceStepper.Channel
