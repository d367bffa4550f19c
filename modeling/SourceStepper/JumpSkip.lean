/-!
Jump skipping: while it is active, instructions are passed over until a number of jump destinations
has been seen. A call that is stepped over has two of them, its entry and its return site; on the
way out of a function there is only the return site.
-/
namespace SourceStepper

inductive SkipKind
  | stepOver
  | stepOut
  deriving DecidableEq, Repr

/-- How many jump destinations are still to be seen; none means that nothing is skipped. -/
structure JumpSkip where
  remaining : Nat := 0
  deriving DecidableEq, Repr

namespace JumpSkip

def isActive (s : JumpSkip) : Bool := 0 < s.remaining

/-- Start to skip the entry and the return site of a call, unless a skip is going on. -/
def stepOver (s : JumpSkip) : JumpSkip := if s.isActive then s else ⟨2⟩

/-- Start to skip a return site, in place of a skip that is going on. -/
def stepOut (_ : JumpSkip) : JumpSkip := ⟨1⟩

def start (s : JumpSkip) : SkipKind → JumpSkip
  | .stepOver => s.stepOver
  | .stepOut => s.stepOut

def cancel (_ : JumpSkip) : JumpSkip := ⟨0⟩

def passJumpdest (s : JumpSkip) : JumpSkip := ⟨s.remaining - 1⟩

end JumpSkip

end SourceStepper
