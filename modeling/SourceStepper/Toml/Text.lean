import SourceStepper.Text.Hex

/-!
Texts in settings files. There are four forms: between single or double quotes, on one line or on
several; escapes have a meaning between double quotes only. Of the forms that can hold a text, the
plainest is written.
-/
namespace SourceStepper.Toml

def isSpace (c : Char) : Bool := c = ' ' || c = '\t'

def isSpaceOrEnd (c : Char) : Bool := isSpace c || c = '\n' || c = '\r'

/-- A character that may stand in a comment or in a text on one line: no control character but
the tabulator. -/
def isInLine (c : Char) : Bool := c = '\t' || (0x20 ≤ c.toNat && c.toNat ≠ 0x7F)

def isLines : List Char → Bool
  | [] => true
  | '\r' :: '\n' :: rest => isLines rest
  | c :: rest => (c = '\n' || isInLine c) && isLines rest

def dropLineEnd? : List Char → Option (List Char)
  | '\n' :: rest => some rest
  | '\r' :: '\n' :: rest => some rest
  | _ => none

/-- Split behind an opening double quote: what stands up to the closing one, and what follows. -/
def cutBasic? : List Char → Option (List Char × List Char)
  | [] => none
  | '"' :: rest => some ([], rest)
  | '\\' :: c :: rest => (cutBasic? rest).map fun (body, tail) => ('\\' :: c :: body, tail)
  | c :: rest => (cutBasic? rest).map fun (body, tail) => (c :: body, tail)

def cutLiteral? : List Char → Option (List Char × List Char)
  | [] => none
  | '\'' :: rest => some ([], rest)
  | c :: rest => (cutLiteral? rest).map fun (body, tail) => (c :: body, tail)

/-- Split behind three opening quotes. The closing ones are the last three of a run of up
to five. -/
def cutLong? (quote : Char) (escapes : Bool) : List Char → Option (List Char × List Char)
  | [] => none
  | c :: rest =>
    if c = quote && rest.take 2 = [quote, quote] then
      let more := ((rest.drop 2).takeWhile (· = quote)).length
      let inner := min more 2
      some (List.replicate inner quote, rest.drop (2 + inner))
    else if escapes && c = '\\' then
      match rest with
      | d :: rest => (cutLong? quote escapes rest).map fun (body, tail) => (c :: d :: body, tail)
      | [] => none
    else (cutLong? quote escapes rest).map fun (body, tail) => (c :: body, tail)

def ofHex? (digits : List Char) : Option Char := do
  let n ← digits.foldlM (fun n c => do return n * 16 + (← Text.hexValue? c)) 0
  if n < 0xD800 || (0xDFFF < n && n < 0x110000) then some (Char.ofNat n) else none

def escaped? : Char → Option Char
  | 'b' => some '\x08'
  | 't' => some '\t'
  | 'n' => some '\n'
  | 'f' => some '\x0c'
  | 'r' => some '\r'
  | 'e' => some '\x1b'
  | '"' => some '"'
  | '\\' => some '\\'
  | _ => none

/-- The text that stands between double quotes. On several lines, a backslash at the end of a line
joins the lines and drops the blanks between them. -/
def unescape? (long : Bool) (cs : List Char) : Option (List Char) :=
  match cs with
  | [] => some []
  | '\\' :: 'x' :: a :: b :: rest => do return (← ofHex? [a, b]) :: (← unescape? long rest)
  | '\\' :: 'u' :: a :: b :: c :: d :: rest => do
    return (← ofHex? [a, b, c, d]) :: (← unescape? long rest)
  | '\\' :: 'U' :: a :: b :: c :: d :: e :: f :: g :: h :: rest => do
    return (← ofHex? [a, b, c, d, e, f, g, h]) :: (← unescape? long rest)
  | '\\' :: c :: rest =>
    match escaped? c with
    | some d => (unescape? long rest).map (d :: ·)
    | none =>
      let blanks := (c :: rest).takeWhile isSpaceOrEnd
      if long && isSpaceOrEnd c && (dropLineEnd? (blanks.dropWhile isSpace)).isSome then
        unescape? long (rest.dropWhile isSpaceOrEnd)
      else none
  | ['\\'] => none
  | c :: rest => (unescape? long rest).map (c :: ·)
termination_by cs.length
decreasing_by
  all_goals simp only [List.length_cons]
  case _ => omega
  case _ => omega
  case _ => omega
  case _ => omega
  case _ => have := (List.dropWhile_suffix isSpaceOrEnd (l := rest)).length_le; omega
  case _ => omega

def readText? : List Char → Option (String × List Char)
  | '"' :: '"' :: '"' :: rest => do
    let (body, tail) ← cutLong? '"' true ((dropLineEnd? rest).getD rest)
    if isLines body then return (String.ofList (← unescape? true body), tail) else none
  | '\'' :: '\'' :: '\'' :: rest => do
    let (body, tail) ← cutLong? '\'' false ((dropLineEnd? rest).getD rest)
    if isLines body then return (String.ofList body, tail) else none
  | cs => readShort? cs
where
  readShort? : List Char → Option (String × List Char)
    | '"' :: rest => do
      let (body, tail) ← cutBasic? rest
      if body.all isInLine then return (String.ofList (← unescape? false body), tail) else none
    | '\'' :: rest => do
      let (body, tail) ← cutLiteral? rest
      if body.all isInLine then return (String.ofList body, tail) else none
    | _ => none

/-! ### Writing -/

def isControl (c : Char) : Bool := (c.toNat < 0x20 && c ≠ '\t' && c ≠ '\n') || c.toNat = 0x7F

/-- A character in the double quoted forms, apart from quotes. -/
def escape (c : Char) : List Char :=
  if c = '\x08' then ['\\', 'b']
  else if c = '\t' then ['\\', 't']
  else if c = '\x0c' then ['\\', 'f']
  else if c = '\r' then ['\\', 'r']
  else if c = '\\' then ['\\', '\\']
  else if isControl c then
    ['\\', 'u'] ++ Text.padZero 4 ((Text.hexNat c.toNat).map Char.toUpper)
  else [c]

/-- A text on several lines between double quotes: of a run of quotes, every third is escaped. -/
def escapeLong (run : Nat) : List Char → List Char
  | [] => []
  | c :: rest =>
    if c = '"' then
      if run = 2 then '\\' :: '"' :: escapeLong 0 rest else '"' :: escapeLong (run + 1) rest
    else escape c ++ escapeLong 0 rest

def escapeShort : List Char → List Char
  | [] => []
  | c :: rest =>
    (if c = '"' then ['\\', '"'] else if c = '\n' then ['\\', 'n'] else escape c) ++
      escapeShort rest

def hasRun (quote : Char) (cs : List Char) : Bool :=
  (Text.cutAt? (List.replicate 3 quote) cs).isSome

def writeText (s : String) : String :=
  let cs := s.toList
  let line := if cs.contains '\n' then ['\n'] else []
  let controls := cs.any isControl
  let doubles := List.replicate 3 '"'
  let singles := List.replicate 3 '\''
  let backslash := cs.contains '\\'
  String.ofList <|
    if !controls && !backslash && !cs.contains '"' && !cs.contains '\n' then
      ['"'] ++ escapeShort cs ++ ['"']
    else if !controls && !cs.contains '\'' && !cs.contains '\n' then ['\''] ++ cs ++ ['\'']
    else if !controls && !backslash && !hasRun '"' cs then
      doubles ++ line ++ escapeLong 0 cs ++ doubles
    else if !controls && !hasRun '\'' cs then singles ++ line ++ cs ++ singles
    else if cs.contains '\n' then doubles ++ line ++ escapeLong 0 cs ++ doubles
    else ['"'] ++ escapeShort cs ++ ['"']

end SourceStepper.Toml
