import SourceStepper.Toml.Scalar

/-!
Values of settings files, and the rules by which the entries of a table come together. No key is
given twice, and a table that one form of writing has completed is not extended by another one.
-/
namespace SourceStepper.Toml

inductive Origin
  /-- It stands between braces. -/
  | braces
  /-- A heading names it. -/
  | heading
  /-- A heading names a table within it. -/
  | outer
  /-- It lies on the way of a dotted key. -/
  | dotted
  deriving DecidableEq, Repr

/-- A value. Floating point numbers, dates and times are known by their text. -/
inductive Value
  | text (s : String)
  | integer (n : Int)
  | float (written : String)
  | bool (b : Bool)
  | dateTime (written : String)
  | array (items : List Value)
  | table (origin : Origin) (entries : List (String × Value))
  /-- Tables of which each has a heading of its own, the last first. -/
  | tables (items : List (List (String × Value)))
  deriving Repr

def Value.ofBare? (cs : List Char) : Option Value :=
  if cs = "true".toList then some (.bool true)
  else if cs = "false".toList then some (.bool false)
  else match readInteger? cs with
    | some n => if isInRange n then some (.integer n) else none
    | none =>
      if isFloat cs then some (.float (String.ofList cs))
      else if isDateTime cs then some (.dateTime (String.ofList cs))
      else none

abbrev Entries := List (String × Value)

namespace Entries

def get? (entries : Entries) (key : String) : Option Value := List.lookup key entries

def change? (f : Option Value → Option Value) (key : String) : Entries → Option Entries
  | [] => (f none).map fun v => [(key, v)]
  | (k, v) :: rest =>
    if k = key then (f (some v)).map fun v => (k, v) :: rest
    else (change? f key rest).map ((k, v) :: ·)

def add? (v : Value) : String → Entries → Option Entries :=
  change? fun old => if old.isSome then none else some v

/-- The entries with a value at the end of a dotted key. Tables on the way are made if they are
missing. `direct` tells whether a key can be added to the entries themselves. -/
def assign? (v : Value) (direct : Bool) : List String → Entries → Option Entries
  | [], _ => none
  | [key], entries => if direct then entries.add? v key else none
  | key :: path, entries =>
    entries.change? (fun
      | none => (assign? v true path []).map (.table .dotted)
      | some (.table .dotted inner) => (assign? v true path inner).map (.table .dotted)
      | some (.table .outer inner) => (assign? v false path inner).map (.table .outer)
      | some (.tables (last :: earlier)) =>
        (assign? v false path last).map fun last => .tables (last :: earlier)
      | some _ => none) key

/-- The entries after a change of those that the path of a heading leads to. Of several tables with
the same heading the last one is meant. -/
def within? (f : Entries → Option Entries) : List String → Entries → Option Entries
  | [], entries => f entries
  | key :: path, entries =>
    entries.change? (fun
      | none => (within? f path []).map (.table .outer)
      | some (.table .braces _) => none
      | some (.table origin inner) => (within? f path inner).map (.table origin)
      | some (.tables (last :: earlier)) =>
        (within? f path last).map fun last => .tables (last :: earlier)
      | some _ => none) key

/-- The entries with the table that a heading names. A heading can name a table that exists only
for what lies within it. -/
def openTable? (path : List String) (entries : Entries) : Option Entries := do
  let key ← path.getLast?
  entries.within? (change? (fun
    | none => some (.table .heading [])
    | some (.table .outer inner) => some (.table .heading inner)
    | some _ => none) key) path.dropLast

def pushTable? (path : List String) (entries : Entries) : Option Entries := do
  let key ← path.getLast?
  entries.within? (change? (fun
    | none => some (.tables [[]])
    | some (.tables items) => some (.tables ([] :: items))
    | some _ => none) key) path.dropLast

end Entries

end SourceStepper.Toml
