/-! # Bytes as text

A sequence of bytes is written as two lower-case hexadecimal digits for each.
-/

namespace Microkernel.Text

def digitsOfByte (byte : UInt8) : List Char :=
  [Nat.digitChar (byte.toNat / 16), Nat.digitChar (byte.toNat % 16)]

def encodeBytes (bytes : List UInt8) : String :=
  String.ofList (bytes.flatMap digitsOfByte)

/-- The number that a digit stands for, in either case. -/
def digitValue (digit : Char) : Nat :=
  if digit.isDigit then digit.toNat - '0'.toNat else digit.toLower.toNat - 'a'.toNat + 10

/-- The bytes that a sequence of digits stands for; an odd digit at the end is dropped. -/
def bytesOfDigits : List Char → List UInt8
  | high :: low :: rest =>
    UInt8.ofNat (16 * digitValue high + digitValue low) :: bytesOfDigits rest
  | _ => []

/-- The bytes that a text of digits stands for. -/
def decodeBytes (text : String) : List UInt8 :=
  bytesOfDigits text.toList

end Microkernel.Text
