import SourceStepper.Text.Hex

namespace SourceStepper

/-- Bytecode in lowercase digits, without blanks around it and without `0x`. It need not be the text
of whole bytes. -/
structure CodeText where
  digits : String
  deriving DecidableEq, Repr

namespace CodeText

def ofText (text : String) : CodeText := ⟨String.ofList (Text.normalHex text.toList)⟩

def ofBytes (bytes : List UInt8) : CodeText := ⟨Text.hex bytes⟩

def startsWith (code front : CodeText) : Bool := front.digits.toList.isPrefixOf code.digits.toList

end CodeText

end SourceStepper
