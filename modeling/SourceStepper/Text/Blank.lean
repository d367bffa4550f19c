namespace SourceStepper.Text

/-- The characters with the Unicode property White_Space. -/
def isBlank (c : Char) : Bool :=
  let n := c.toNat
  (0x09 ≤ n && n ≤ 0x0D) || n == 0x20 || n == 0x85 || n == 0xA0 || n == 0x1680 ||
    (0x2000 ≤ n && n ≤ 0x200A) || n == 0x2028 || n == 0x2029 || n == 0x202F || n == 0x205F ||
    n == 0x3000

def trimStart (cs : List Char) : List Char := cs.dropWhile isBlank

def trimEnd (cs : List Char) : List Char := (cs.reverse.dropWhile isBlank).reverse

def trim (cs : List Char) : List Char := trimEnd (trimStart cs)

def isBlankText (cs : List Char) : Bool := cs.all isBlank

/-- A character in front of a text of which the first word and the other words are known. -/
def consWord (c : Char) : List Char × List (List Char) → List Char × List (List Char)
  | (word, rest) => if isBlank c then ([], addWord word rest) else (c :: word, rest)
where
  /-- Only words with at least one character count. -/
  addWord (word : List Char) (rest : List (List Char)) : List (List Char) :=
    if word.isEmpty then rest else word :: rest

def words (cs : List Char) : List (List Char) :=
  let (word, rest) := cs.foldr consWord ([], [])
  consWord.addWord word rest

end SourceStepper.Text
