import Mathlib.Data.List.DropRight
import SourceStepper.Proofs.Controller.History

namespace SourceStepper

/-- The frames that hosts have been told of, the oldest first. -/
def framesTold (h : History) : List Frame := ((h.filterMap Event.stop?).map Parked.frame).reverse

theorem framesTold_append {h es : History} {stops : List Parked}
    (told : es.filterMap Event.stop? = stops) :
    framesTold (es ++ h) = framesTold h ++ (stops.map Parked.frame).reverse := by
  simp [framesTold, told]

theorem rtake_record {told : List Frame} {n : Nat} (positive : 1 ≤ n) (frame : Frame) :
    (told.rtake n).drop ((told.rtake n).length + 1 - n) ++ [frame] = (told ++ [frame]).rtake n := by
  have fits : told.length + 1 - n ≤ told.length := by omega
  have same : told.length - n + (told.length - (told.length - n) + 1 - n) =
    told.length + 1 - n := by omega
  rw [List.rtake, List.rtake, List.length_drop, List.drop_drop, same, List.length_append,
    List.length_singleton, List.drop_append_of_le_length fits]

theorem getLast_rtake {told : List Frame} {n : Nat} (positive : 1 ≤ n) :
    (told.rtake n).getLast? = told.getLast? := by
  cases told with
  | nil => rw [List.rtake_nil]
  | cons first rest =>
    rw [List.rtake, List.getLast?_drop, if_neg]
    rw [List.length_cons]
    omega

/-- What a controller that keeps `n` frames has on record, by the history. -/
structure Mirrors (n : Nat) (c : Controller) (h : History) : Prop where
  bound : c.maxFrames = n
  frames : c.history = (framesTold h).rtake n
  line : c.lastSelectedLine = ((framesTold h).getLast?.map Frame.line).getD 0

theorem Mirrors.quiet {n : Nat} {c d : Controller} {h k : History} (mirrors : Mirrors n c h)
    (silent : k.filterMap Event.stop? = [])
    (same : d.maxFrames = c.maxFrames ∧ d.history = c.history ∧
      d.lastSelectedLine = c.lastSelectedLine) :
    Mirrors n d (k ++ h) := by
  obtain ⟨bound, frames, line⟩ := same
  have told : framesTold (k ++ h) = framesTold h :=
    (framesTold_append silent).trans (List.append_nil _)
  refine ⟨bound.trans mirrors.bound, ?_, ?_⟩
  · rw [told, frames, mirrors.frames]
  · rw [told, line, mirrors.line]

theorem Mirrors.stop {n : Nat} {c : Controller} {v : Visit} {h es : History}
    (mirrors : Mirrors n c h) (positive : 1 ≤ n) (told : es.filterMap Event.stop? = [c.park v]) :
    Mirrors n (c.park v).controller (es ++ h) := by
  have frames : framesTold (es ++ h) = framesTold h ++ [(c.park v).frame] := framesTold_append told
  have recorded : (c.park v).controller.history =
      c.history.drop (c.history.length + 1 - c.maxFrames) ++ [(c.park v).frame] := rfl
  refine ⟨mirrors.bound, ?_, ?_⟩
  · rw [recorded, frames, mirrors.bound, mirrors.frames, rtake_record positive]
  · rw [frames, List.getLast?_concat]
    rfl

theorem obeyed_mirrors {n : Nat} {c : Controller} {h : History} (mirrors : Mirrors n c h)
    (positive : 1 ≤ n) (v : Visit) (e : Envelope) (last : Bool) :
    Mirrors n ((c.obey v e.command).thread v last).controller (c.deeds v e ++ h) := by
  have told := stops_of_deeds c v e
  have obeyed : Mirrors n (c.obey v e.command).controller h := by
    obtain ⟨_, _, _, _, _, same⟩ := Controller.obey_changes c v e.command
    rw [same]
    exact mirrors.quiet (k := []) rfl ⟨rfl, rfl, rfl⟩
  generalize c.obey v e.command = o at told obeyed
  cases o with
  | handled d =>
    cases last with
    | true => exact obeyed.quiet told ⟨rfl, rfl, rfl⟩
    | false => exact obeyed.quiet told ⟨rfl, rfl, rfl⟩
  | stops d => exact obeyed.stop positive told
  | ends d => exact obeyed.quiet told ⟨rfl, rfl, rfl⟩

theorem move_mirrors {n : Nat} {t u : Thread} {h es : History} (mirrors : Mirrors n t.controller h)
    (positive : 1 ≤ n) (move : t.Move es u) : Mirrors n u.controller (es ++ h) := by
  cases move with
  | @host _ commands channel moved =>
    have silent : (commands.map Event.sent).reverse.filterMap Event.stop? = [] := by
      simp [List.filterMap_eq_nil_iff, Event.stop?]
    rw [Thread.controller_update]
    exact mirrors.quiet silent ⟨rfl, rfl, rfl⟩
  | edit change =>
    rw [Thread.controller_update]
    exact mirrors.quiet (k := []) rfl ⟨rfl, rfl, rfl⟩
  | @pass _ _ _ step idle passed =>
    obtain ⟨_, rfl, _⟩ := Controller.idle_changes idle passed
    exact mirrors.quiet (k := [.passedOver step]) rfl ⟨rfl, rfl, rfl⟩
  | @observe c files step awake =>
    have same := Controller.approach_changes c files step
    rw [Thread.controller, same]
    exact mirrors.quiet (k := [.observed _]) rfl ⟨rfl, rfl, rfl⟩
  | @dispatch _ c v e last next =>
    obtain ⟨channel, phase, rfl⟩ := Thread.next_changes next
    have taken : Mirrors n { t.controller with channel, phase } h :=
      mirrors.quiet (k := []) rfl ⟨rfl, rfl, rfl⟩
    exact obeyed_mirrors taken positive v e last
  | leaveFrame c => exact mirrors.quiet (k := [.frameLeft]) rfl ⟨rfl, rfl, rfl⟩

theorem run_mirrors {loader : Loader} {registry : Registry} {maxFrames : Nat} {t : Thread}
    {h : History} (run : Run (.fresh loader registry maxFrames) t h) :
    Mirrors (max maxFrames 1) t.controller h := by
  induction run with
  | start => exact ⟨rfl, (List.rtake_nil _).symm, rfl⟩
  | move run move ih => exact move_mirrors ih (Nat.le_max_right ..) move

/-- The only move that tells hosts of a stop is one that parks the thread at it. -/
theorem suspended_parks {t u : Thread} {es : History} {p : Parked} (move : t.Move es u)
    (told : .suspended p ∈ es) :
    u = .parked p ∧ es.filterMap Event.stop? = [p] ∧ ∃ (c : Controller)
    (v : Visit), p = c.park v := by
  cases move with
  | host moved => simp at told
  | edit change => simp at told
  | pass idle passed => simp at told
  | observe files step awake => simp at told
  | leaveFrame c => simp at told
  | @dispatch _ c v e last next =>
    have stops := stops_of_deeds c v e
    cases obeyed : c.obey v e.command with
    | handled d => simp [Controller.deeds, obeyed, Obeyed.outcome] at told
    | ends d => simp [Controller.deeds, obeyed, Obeyed.outcome] at told
    | stops d =>
      have same : p = d.park v := by simpa [Controller.deeds, obeyed, Obeyed.outcome] using told
      subst same
      rw [obeyed] at stops
      exact ⟨rfl, stops, d, v, rfl⟩

/-- In every run of a new controller, the frames on record are the last ones that hosts have been
told of, the oldest first, and the line of the last stop is that of the last of them. When hosts are
told of a stop, its frame is the last one on record already and the controller is suspended. -/
theorem frames_mirror_stops {loader : Loader} {registry : Registry} {maxFrames : Nat} {t : Thread}
    {h : History} (run : Run (.fresh loader registry maxFrames) t h) :
    (t.controller.history = (framesTold h).rtake (max maxFrames 1) ∧
      t.controller.history.length = min (framesTold h).length (max maxFrames 1) ∧
      t.controller.topFrame? = (framesTold h).getLast? ∧
      t.controller.lastSelectedLine = ((framesTold h).getLast?.map Frame.line).getD 0) ∧
    ∀ es u p, t.Move es u → .suspended p ∈ es →
      u = .parked p ∧ p.controller.phase = .suspended ∧ p.line = p.frame.line ∧
        p.controller.lastSelectedLine = p.line ∧
        p.controller.history = (framesTold h ++ [p.frame]).rtake (max maxFrames 1) ∧
        p.controller.topFrame? = some p.frame := by
  have positive : 1 ≤ max maxFrames 1 := Nat.le_max_right ..
  have mirrors := run_mirrors run
  refine ⟨⟨mirrors.frames, ?_, ?_, mirrors.line⟩, fun es u p move suspended => ?_⟩
  · rw [mirrors.frames, List.rtake, List.length_drop]
    omega
  · rw [Controller.topFrame?, mirrors.frames, getLast_rtake positive]
  · have behind := move_mirrors mirrors positive move
    obtain ⟨rfl, told, c, v, rfl⟩ := suspended_parks move suspended
    have frames : (c.park v).controller.history = _ := behind.frames
    rw [framesTold_append told] at frames
    exact ⟨rfl, rfl, rfl, rfl, frames, List.getLast?_concat⟩

theorem third_stop_drops_first :
    ∃ t h es u p, Run (.fresh (.ofProject "." "build") ⟨default, .empty, .empty⟩ 2) t h ∧
      t.Move es u ∧
      .suspended p ∈ es ∧ (framesTold h).map (·.pc) = [0, 0] ∧ p.frame.pc = 1 ∧
      p.controller.history.map (·.pc) = [0, 1] ∧ p.controller.phase = .suspended ∧
      p.controller.history = (framesTold h ++ [p.frame]).rtake 2 := by
  have observed :=
    ((Run.start (s := .fresh (.ofProject "." "build") ⟨default, .empty, .empty⟩ 2)).sent 0
    .suspend rfl).move (.observe {} { pc := 0, opcode := 0x01 } rfl)
  have stopped := (observed.move (.dispatch (.take rfl))).sent 0 .suspend rfl
  have again := (stopped.move (.dispatch (.answer rfl))).sent 0 .resume rfl
  have resumed := (again.move (.dispatch (.answer rfl))).sent 0 .suspend rfl
  have next := resumed.move (.observe {} { pc := 1, opcode := 0x01 } rfl)
  obtain ⟨-, suspended, -, -, frames, -⟩ :=
    (frames_mirror_stops next).2 _ _ _ (.dispatch (.take rfl)) List.mem_cons_self
  exact ⟨_, _, _, _, _, next, .dispatch (.take rfl), List.mem_cons_self, rfl, rfl, rfl,
    suspended, frames⟩

end SourceStepper
