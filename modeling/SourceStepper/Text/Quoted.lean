import SourceStepper.Text.Hex

namespace SourceStepper.Text

/-- Whether a character is written as it is between quotes: it is neither a control or format
character nor a blank other than the space, is assigned, and does not combine with the character in
front of it. -/
def isPlain (c : Char) : Bool :=
  let n := c.toNat
  !(n < 0x20 || (0x7F ≤ n && n ≤ 0xA0) || n = 0xAD || (0x300 ≤ n && n ≤ 0x36F) ||
    (0x483 ≤ n && n ≤ 0x489) || (0x591 ≤ n && n ≤ 0x5BD) || (0x600 ≤ n && n ≤ 0x605) ||
    (0x610 ≤ n && n ≤ 0x61A) || n = 0x61C || (0x64B ≤ n && n ≤ 0x65F) || n = 0x670 || n = 0x6DD ||
    n = 0x70F || n = 0x180E || n = 0x1680 || (0x1AB0 ≤ n && n ≤ 0x1ACE) ||
    (0x1DC0 ≤ n && n ≤ 0x1DFF) || (0x2000 ≤ n && n ≤ 0x200F) || (0x2028 ≤ n && n ≤ 0x202F) ||
    (0x205F ≤ n && n ≤ 0x206F) || (0x20D0 ≤ n && n ≤ 0x20F0) || n = 0x3000 ||
    (0x302A ≤ n && n ≤ 0x302F) || (0x3099 ≤ n && n ≤ 0x309A) || (0xE000 ≤ n && n ≤ 0xF8FF) ||
    (0xFE00 ≤ n && n ≤ 0xFE0F) || (0xFE20 ≤ n && n ≤ 0xFE2F) || n = 0xFEFF ||
    (0xFF9E ≤ n && n ≤ 0xFF9F) || (0xFFF0 ≤ n && n ≤ 0xFFFB) || 0xFFFE ≤ n % 0x10000 ||
    0xE0000 ≤ n)

def escape (quote c : Char) : List Char :=
  if c = '\x00' then ['\\', '0']
  else if c = '\t' then ['\\', 't']
  else if c = '\r' then ['\\', 'r']
  else if c = '\n' then ['\\', 'n']
  else if c = '\\' || c = quote then ['\\', c]
  else if isPlain c then [c]
  else ['\\', 'u', '\x7b'] ++ hexNat c.toNat ++ ['\x7d']

def quoted (s : String) : String :=
  String.ofList ('"' :: s.toList.flatMap (escape '"') ++ ['"'])

def quotedChar (c : Char) : String := String.ofList ('\'' :: escape '\'' c ++ ['\''])

def HexError.message : HexError → String
  | .oddLength => "Odd number of digits"
  | .invalidDigit byte position =>
    s!"Invalid character {quotedChar (Char.ofNat byte.toNat)} at position {position}"

end SourceStepper.Text
