import SourceStepper.Text.Blank
import SourceStepper.Text.Split

/-!
The form in which source paths are compared: relative to the source root and without the suffix of
source files, so that the path an editor knows and the path a build artifact lists meet.
-/
namespace SourceStepper

/-- The directory that source paths are relative to, and the suffix that they all have. -/
structure PathNormalizer where
  sourceRoot : List Char
  suffix : List Char
  deriving DecidableEq, Repr

namespace PathNormalizer

def withSlashes (cs : List Char) : List Char := cs.map fun c => if c = '\\' then '/' else c

/-- A path without the `./` in front of it, as often as it stands there. -/
def dropHere : List Char → List Char
  | '.' :: '/' :: rest => dropHere rest
  | cs => cs

/-- The normalizer for a source root, which may start with one `./` and needs no slash at its end,
and a suffix. -/
def ofLayout (sourceRoot suffix : String) : PathNormalizer :=
  let root := withSlashes sourceRoot.toList
  let root := (Text.dropPrefix? ['.', '/'] root).getD root
  let root := if root.isEmpty || root.getLast? = some '/' then root else root ++ ['/']
  ⟨root, suffix.toList⟩

def defaultSourceRoot : String := "src/main/solidity/"

def defaultSuffix : String := ".sol"

instance : Inhabited PathNormalizer := ⟨ofLayout defaultSourceRoot defaultSuffix⟩

/-- A path without the source root, which may have a directory of its own in front of it. Only the
first place where the root occurs counts. -/
def dropRoot (n : PathNormalizer) (path : List Char) : List Char :=
  if n.sourceRoot.isEmpty then path
  else
    match Text.cutAt? n.sourceRoot path with
    | some (front, back) => if front.isEmpty || front.getLast? = some '/' then back else path
    | none => path

def dropSuffix (n : PathNormalizer) (path : List Char) : List Char :=
  (Text.dropSuffix? n.suffix path).getD path

def normalize (n : PathNormalizer) (path : String) : String :=
  String.ofList (n.dropSuffix (n.dropRoot (dropHere (withSlashes (Text.trim path.toList)))))

end PathNormalizer

end SourceStepper
