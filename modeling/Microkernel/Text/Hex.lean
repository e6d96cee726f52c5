/-! # Hexadecimal text

Sizes are written `0x` and their digits, addresses `0x` and eight digits, table columns eight
bare digits. Nothing is cut: a number with more digits than the width keeps them all.
-/

namespace Microkernel.Text

/-- Lower-case hexadecimal digits, without leading zeros. -/
def hexDigits (n : Nat) : List Char :=
  Nat.toDigits 16 n

/-- The text with `fill` in front until it has `width` characters. -/
def padLeft (width : Nat) (fill : Char) (text : List Char) : List Char :=
  List.replicate (width - text.length) fill ++ text

/-- The text with blanks behind until it has `width` characters. -/
def padRight (width : Nat) (text : List Char) : List Char :=
  text ++ List.replicate (width - text.length) ' '

/-- A size: `0x` and its digits. -/
def hexSize (n : Nat) : String :=
  String.ofList ('0' :: 'x' :: hexDigits n)

/-- A number of `width` digits at least, zeros in front. -/
def hexColumn (width n : Nat) : String :=
  String.ofList (padLeft width '0' (hexDigits n))

/-- The same in upper case. -/
def hexColumnUpper (width n : Nat) : String :=
  String.ofList ((padLeft width '0' (hexDigits n)).map Char.toUpper)

def hexAddress (address : UInt32) : String :=
  "0x" ++ hexColumn 8 address.toNat

def hexByte (byte : UInt8) : String :=
  "0x" ++ hexColumn 2 byte.toNat

/-- A decimal number of `width` characters at least, blanks in front. -/
def decimalColumn (width n : Nat) : String :=
  String.ofList (padLeft width ' ' (Nat.toDigits 10 n))

end Microkernel.Text
