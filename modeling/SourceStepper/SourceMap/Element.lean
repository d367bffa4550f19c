namespace SourceStepper.SourceMap

inductive Jump
  /-- The instruction jumps into a function. -/
  | into
  /-- The instruction returns from a function. -/
  | out
  /-- An ordinary jump. -/
  | regular
  /-- No marker has been seen yet. -/
  | unspecified
  /-- A marker without a meaning of its own, kept as it was written. -/
  | other (marker : String)
  deriving DecidableEq, Repr

namespace Jump

def ofMarker (marker : String) : Jump :=
  if marker = "i" then .into
  else if marker = "o" then .out
  else if marker = "-" then .regular
  else if marker = "" then .unspecified
  else .other marker

def marker : Jump → String
  | .into => "i"
  | .out => "o"
  | .regular => "-"
  | .unspecified => ""
  | .other marker => marker

theorem marker_ofMarker (marker : String) : (ofMarker marker).marker = marker := by
  unfold ofMarker
  split
  · simp_all [Jump.marker]
  · split
    · simp_all [Jump.marker]
    · split
      · simp_all [Jump.marker]
      · split <;> simp_all [Jump.marker]

end Jump

/-- One element of a source map. It stands for the bytes from `offset` up to `offset + length` of
a source file; code that the compiler made up has no file. -/
structure Element where
  offset : Nat := 0
  length : Nat := 0
  fileIndex : Option Nat := some 0
  jump : Jump := .unspecified
  modifierDepth : Nat := 0
  deriving DecidableEq, Repr

namespace Element

/-- Where the bytes end, not beyond the largest number of 64 bits. -/
def stop (e : Element) : Nat := min (e.offset + e.length) 0xFFFFFFFFFFFFFFFF

def hasSource (e : Element) : Bool := e.fileIndex.isSome

def fileText (e : Element) : String :=
  match e.fileIndex with
  | some index => toString index
  | none => "-1"

def text (e : Element) : String :=
  s!"{e.offset}:{e.length}:{e.fileText}:{e.jump.marker}:{e.modifierDepth}"

end Element

end SourceStepper.SourceMap
