namespace SourceStepper.Text

/-- The fields of a text between the places where `sep` stands. There is always at least one. -/
def fields (sep : Char) (cs : List Char) : List (List Char) :=
  let (first, rest) := cs.foldr cons ([], [])
  first :: rest
where
  /-- A character in front of a text of which the first field and the other fields are known. -/
  cons (c : Char) : List Char × List (List Char) → List Char × List (List Char)
    | (first, rest) => if c = sep then ([], first :: rest) else (c :: first, rest)

def cutLast? (sep : Char) : List Char → Option (List Char × List Char)
  | [] => none
  | c :: cs =>
    match cutLast? sep cs with
    | some (front, back) => some (c :: front, back)
    | none => if c = sep then some ([], cs) else none

def cutFirst? (sep : Char) : List Char → Option (List Char × List Char)
  | [] => none
  | c :: cs =>
    if c = sep then some ([], cs)
    else (cutFirst? sep cs).map fun (front, back) => (c :: front, back)

def dropPrefix? {α : Type} [BEq α] (front xs : List α) : Option (List α) :=
  if front.isPrefixOf xs then some (xs.drop front.length) else none

def dropSuffix? {α : Type} [BEq α] (back xs : List α) : Option (List α) :=
  if back.isSuffixOf xs then some (xs.take (xs.length - back.length)) else none

/-- What precedes the first place where `part` occurs in a text, and what follows that place. -/
def cutAt? (part : List Char) : List Char → Option (List Char × List Char)
  | [] => if part.isEmpty then some ([], []) else none
  | c :: cs =>
    match dropPrefix? part (c :: cs) with
    | some back => some ([], back)
    | none => (cutAt? part cs).map fun (front, back) => (c :: front, back)

/-- A line without the carriage return that belongs to its line end. -/
def dropReturn (line : List Char) : List Char := (dropSuffix? ['\r'] line).getD line

/-- The lines of a text. A line ends with a line feed, which may have a carriage return in front
of it; neither belongs to the line. A last line without line feed counts if it is not empty, and
keeps what it has. -/
def lines (cs : List Char) : List (List Char) :=
  let parts := fields '\n' cs
  let last := parts.getLastD []
  parts.dropLast.map dropReturn ++ if last.isEmpty then [] else [last]

end SourceStepper.Text
