import SourceStepper.Command.Channel

/-! The queue as its hosts see it: the commands of hosts, in the order in which they will be taken.
What the controller puts into the queue itself does not appear there. What hosts do is one relation,
so that a fact about all of it is proved once. -/
namespace SourceStepper

/-- What a controller puts into the queue for every instruction. -/
def pulse : Envelope := ⟨.execute, .harness⟩

namespace Channel

/-- The queued commands of hosts, the oldest first. -/
def commands (c : Channel) : List Command := (c.queue.filter Envelope.isHost).map (·.command)

/-- A channel as a controller keeps it: open, and with nothing but pulses beside the commands
of hosts. -/
structure Tended (c : Channel) : Prop where
  isOpen : c.isOpen = true
  pulses : ∀ e ∈ c.queue, e.isHost = false → e = pulse

/-- What hosts do to a channel, with the commands that enter the queue on the way. The last sender
leaves a `stop` behind. -/
inductive HostMove : Channel → List Command → Channel → Prop
  | send {c d : Channel} {sender : Nat} {command : Command}
      (sent : c.send sender command = .ok d) : HostMove c [command] d
  | issue (c : Channel) : HostMove c [] c.issue.2
  | clone {c d : Channel} {sender id : Nat} (cloned : c.clone? sender = some (id, d)) :
  HostMove c [] d
  | drop {c d : Channel} {sender : Nat} (dropped : c.drop? sender = some d) :
      HostMove c (if d.senders.isEmpty then [.stop] else []) d

theorem mem_commands {c : Channel} {command : Command} :
    command ∈ c.commands ↔ ⟨command, .host⟩ ∈ c.queue := by
  simp only [commands, List.mem_map, List.mem_filter]
  constructor
  · rintro ⟨⟨_, origin⟩, ⟨member, host⟩, rfl⟩
    cases origin with
    | host => exact member
    | harness => contradiction
  · intro member
    exact ⟨_, ⟨member, rfl⟩, rfl⟩

theorem origin_host {e : Envelope} (own : e.isHost = false → e = pulse)
    (other : e.command ≠ .execute) :
    e.origin = .host := by
  cases origin : e.origin with
  | host => rfl
  | harness =>
    exact absurd (congrArg Envelope.command (own (by simp [Envelope.isHost, origin]))) other

theorem enqueue_open {c : Channel} (isOpen : c.isOpen = true) (e : Envelope) :
    c.enqueue e = { c with queue := c.queue ++ [e] } := by
  simp [enqueue, isOpen]

theorem send_eq_ok {c d : Channel} {sender : Nat} {command : Command}
    (sent : c.send sender command = .ok d) :
    sender ∈ c.senders ∧ d = { c with queue := c.queue ++ [⟨command, .host⟩] } := by
  unfold Channel.send at sent
  split at sent
  · contradiction
  · rename_i known
    split at sent
    · contradiction
    · rename_i isOpen
      cases sent
      exact ⟨by simpa using known, enqueue_open (by simpa using isOpen) _⟩

theorem clone?_eq_some {c d : Channel} {sender id : Nat} (cloned : c.clone? sender = some (id, d)) :
    sender ∈ c.senders ∧ c.issue = (id, d) := by
  unfold clone? at cloned
  split at cloned
  · rename_i known
    exact ⟨by simpa using known, Option.some.inj cloned⟩
  · contradiction

theorem drop?_eq_some {c d : Channel} {sender : Nat} (isOpen : c.isOpen = true)
    (dropped : c.drop? sender = some d) :
    sender ∈ c.senders ∧ d = { c with
      senders := c.senders.erase sender
      queue := c.queue ++ if c.senders.erase sender = [] then [⟨.stop, .host⟩] else [] } := by
  unfold drop? at dropped
  split at dropped
  · rename_i known
    refine ⟨by simpa using known, ?_⟩
    dsimp only at dropped
    split at dropped <;> rename_i last <;> cases dropped
    · simp_all [enqueue]
    · simp_all
  · contradiction

theorem hostMove_queue {c d : Channel} {sent : List Command} (isOpen : c.isOpen = true)
    (move : HostMove c sent d) : d.queue = c.queue ++ sent.map (⟨·, .host⟩) ∧ d.isOpen = true := by
  cases move with
  | send h =>
    obtain ⟨_, rfl⟩ := send_eq_ok h
    exact ⟨rfl, isOpen⟩
  | issue => exact ⟨(List.append_nil _).symm, isOpen⟩
  | clone h =>
    cases (clone?_eq_some h).2
    exact ⟨(List.append_nil _).symm, isOpen⟩
  | drop h =>
    obtain ⟨_, rfl⟩ := drop?_eq_some isOpen h
    refine ⟨?_, isOpen⟩
    dsimp only
    split <;> simp_all

theorem commands_of_sent {c d : Channel} {sent : List Command}
    (queue : d.queue = c.queue ++ sent.map (⟨·, .host⟩)) : d.commands = c.commands ++ sent := by
  have all : ∀ l : List Command,
      ((l.map fun command => (⟨command, .host⟩ : Envelope)).filter Envelope.isHost).map
        (·.command) = l := by
    intro l
    induction l with
    | nil => rfl
    | cons command l ih => simpa [Envelope.isHost] using ih
  simp only [commands, queue, List.filter_append, List.map_append, all]

theorem sent_tended {c d : Channel} {sent : List Command} (tended : c.Tended)
    (queue : d.queue = c.queue ++ sent.map (⟨·, .host⟩)) (isOpen : d.isOpen = true) : d.Tended := by
  refine ⟨isOpen, ?_⟩
  intro e member own
  rw [queue] at member
  rcases List.mem_append.mp member with member | member
  · exact tended.pulses e member own
  · obtain ⟨command, _, rfl⟩ := List.mem_map.mp member
    simp [Envelope.isHost] at own

theorem hostMove_commands {c d : Channel} {sent : List Command} (isOpen : c.isOpen = true)
    (move : HostMove c sent d) : d.commands = c.commands ++ sent :=
  commands_of_sent (hostMove_queue isOpen move).1

theorem hostMove_tended {c d : Channel} {sent : List Command} (tended : c.Tended)
    (move : HostMove c sent d) : d.Tended :=
  sent_tended tended (hostMove_queue tended.isOpen move).1 (hostMove_queue tended.isOpen move).2

theorem commands_push (c : Channel) (command : Command) :
    (c.push command).commands = c.commands := by
  unfold push enqueue
  split <;> simp [commands, Envelope.isHost]

theorem push_tended {c : Channel} (tended : c.Tended) : (c.push .execute).Tended := by
  simp only [push, enqueue_open tended.isOpen]
  refine ⟨tended.isOpen, ?_⟩
  intro e member own
  rcases List.mem_append.mp member with member | member
  · exact tended.pulses e member own
  · exact List.mem_singleton.mp member

theorem take?_eq_some {c d : Channel} {e : Envelope} (taken : c.take? = some (e, d)) :
    c.queue = e :: d.queue ∧ d = { c with queue := d.queue } := by
  unfold take? at taken
  split at taken
  · contradiction
  · rename_i h
    cases taken
    exact ⟨h, rfl⟩

theorem commands_take? {c d : Channel} {e : Envelope} (taken : c.take? = some (e, d)) :
    c.commands = if e.isHost then e.command :: d.commands else d.commands := by
  simp only [commands, (take?_eq_some taken).1, List.filter_cons]
  split <;> rfl

theorem take?_tended {c d : Channel} {e : Envelope} (tended : c.Tended)
    (taken : c.take? = some (e, d)) : d.Tended := by
  obtain ⟨queue, same⟩ := take?_eq_some taken
  have isOpen := congrArg Channel.isOpen same
  refine ⟨isOpen.trans tended.isOpen, ?_⟩
  intro x member
  exact tended.pulses x (queue ▸ List.mem_cons_of_mem e member)

/-- A controller that waits for a host drops what stands in front of the host's command, and it is
all its own. -/
theorem takeFromHost?_eq_some {c d : Channel} {command : Command}
    (taken : c.takeFromHost? = some (command, d)) :
    ∃ own, (∀ e ∈ own, e.isHost = false) ∧ c.queue = own ++ ⟨command, .host⟩ :: d.queue ∧
      d = { c with queue := d.queue } := by
  unfold takeFromHost? at taken
  split at taken
  · contradiction
  · rename_i e rest h
    cases taken
    have host : e.isHost = true := by
      have h' := List.head?_dropWhile_not (fun e : Envelope => !e.isHost) c.queue
      rw [h] at h'
      simpa using h'
    have whole : e = ⟨e.command, .host⟩ := by
      have origin : e.origin = .host := of_decide_eq_true host
      cases e
      simp only at origin
      subst origin
      rfl
    refine ⟨c.queue.takeWhile (!·.isHost), ?_, ?_, rfl⟩
    · intro x member
      simpa using List.all_eq_true.mp List.all_takeWhile x member
    · rw [← whole, ← h]
      exact List.takeWhile_append_dropWhile.symm

theorem commands_takeFromHost? {c d : Channel} {command : Command}
    (taken : c.takeFromHost? = some (command, d)) : c.commands = command :: d.commands := by
  obtain ⟨own, notHost, queue, _⟩ := takeFromHost?_eq_some taken
  have none : own.filter Envelope.isHost = [] := by simpa using notHost
  simp only [commands, queue, List.filter_append, none, List.nil_append]
  rfl

theorem takeFromHost?_tended {c d : Channel} {command : Command} (tended : c.Tended)
    (taken : c.takeFromHost? = some (command, d)) : d.Tended := by
  obtain ⟨own, _, queue, same⟩ := takeFromHost?_eq_some taken
  have isOpen := congrArg Channel.isOpen same
  refine ⟨isOpen.trans tended.isOpen, ?_⟩
  intro e member
  exact tended.pulses e (queue ▸ List.mem_append_right own (List.mem_cons_of_mem _ member))

/-- A controller waits exactly as long as no command of a host is queued. -/
theorem takeFromHost?_eq_none (c : Channel) : c.takeFromHost? = none ↔ c.commands = [] := by
  constructor
  · intro waiting
    unfold takeFromHost? at waiting
    split at waiting
    · rename_i h
      have all := List.any_dropWhile (p := fun e : Envelope => !e.isHost) (l := c.queue)
      have own : ∀ e ∈ c.queue, e.isHost = false := by simpa [h] using all
      have none : c.queue.filter Envelope.isHost = [] := by simpa using own
      rw [commands, none]
      rfl
    · contradiction
  · intro empty
    cases h : c.takeFromHost? with
    | none => rfl
    | some taken =>
      rw [commands_takeFromHost? h] at empty
      contradiction

theorem takeFromHost?_head {c : Channel} {command : Command} {rest : List Envelope}
    (queue : c.queue = ⟨command, .host⟩ :: rest) :
    c.takeFromHost? = some (command, { c with queue := rest }) := by
  simp [takeFromHost?, queue, Envelope.isHost]

theorem takeFromHost?_first {c : Channel} {command : Command} {later : List Command}
    (first : c.commands = command :: later) :
    ∃ d, c.takeFromHost? = some (command, d) ∧ d.commands = later := by
  cases taken : c.takeFromHost? with
  | none =>
    rw [(takeFromHost?_eq_none c).mp taken] at first
    contradiction
  | some next =>
    obtain ⟨oldest, d⟩ := next
    have commands := commands_takeFromHost? taken
    rw [first] at commands
    obtain ⟨rfl, rest⟩ := List.cons.inj commands
    exact ⟨d, rfl, rest.symm⟩

theorem pulse_first {c : Channel} (tended : c.Tended) (silent : c.commands = []) :
    ∃ rest, c.queue ++ [pulse] = pulse :: rest ∧ { c with queue := rest }.Tended ∧
      { c with queue := rest }.commands = [] := by
  have queue : (c.push .execute).queue = c.queue ++ [pulse] := by
    rw [push, enqueue_open tended.isOpen]
    rfl
  cases pushed : c.queue ++ [pulse] with
  | nil => simp at pushed
  | cons e rest =>
    have taken : (c.push .execute).take? = some (e, { c.push .execute with queue := rest }) := by
      simp [take?, queue, pushed]
    have same : { c.push .execute with queue := rest } = { c with queue := rest } := by
      rw [push, enqueue_open tended.isOpen]
    rw [same] at taken
    have commands := commands_take? taken
    rw [commands_push, silent] at commands
    cases host : e.isHost with
    | true => simp [host] at commands
    | false =>
      have member : e ∈ (c.push .execute).queue := by simp [queue, pushed]
      cases (push_tended tended).pulses e member host
      refine ⟨rest, rfl, take?_tended (push_tended tended) taken, ?_⟩
      simpa [host] using commands.symm

end Channel

end SourceStepper
