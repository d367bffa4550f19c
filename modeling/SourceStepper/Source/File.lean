import SourceStepper.OrderedMap
import SourceStepper.Text.Split
import SourceStepper.Text.Utf8

namespace SourceStepper.Source

/-- A line of source text without its line end. A selected line overlaps the executing range,
which starts at the byte `offset` of the line. -/
structure Line where
  text : String
  selected : Bool := false
  offset : Nat := 0
  deriving DecidableEq, Repr

/-- Lines by their number; the first line of a file has number one. -/
abbrev Lines := OrderedMap Nat Line

structure File where
  path : String
  lines : Lines
  deriving DecidableEq, Repr

def number (n : Nat) : List (List Char) → List (Nat × Line)
  | [] => []
  | line :: rest => (n, ⟨String.ofList line, false, 0⟩) :: number (n + 1) rest

theorem le_of_mem_number {n : Nat} {lines : List (List Char)} {x : Nat × Line}
    (h : x ∈ number n lines) : n ≤ x.1 := by
  induction lines generalizing n with
  | nil => simp [number] at h
  | cons line rest ih =>
    rcases List.mem_cons.1 h with rfl | h
    · exact Nat.le_refl _
    · exact Nat.le_of_succ_le (ih h)

theorem increasing_number (n : Nat) (lines : List (List Char)) :
    (number n lines).Pairwise fun a b => a.1 < b.1 := by
  induction lines generalizing n with
  | nil => exact .nil
  | cons line rest ih => exact List.pairwise_cons.2 ⟨fun _ h => le_of_mem_number h, ih (n + 1)⟩

namespace File

def ofText (path text : String) : File :=
  ⟨path, number 1 (Text.lines text.toList), increasing_number 1 _⟩

/-- The length of a file in bytes, where every line ends with one byte. -/
def byteLength (file : File) : Nat :=
  file.lines.values.foldr (fun line n => Text.byteLength line.text + 1 + n) 0

end File

end SourceStepper.Source
