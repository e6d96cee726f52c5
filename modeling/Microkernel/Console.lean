import Microkernel.Log
import Microkernel.Text.Hex

/-! # The operator's console

Text goes out byte by byte with a carriage return before every line feed. The kernel's log is
written to the same wire, one record to a line, as far as its level is enabled.
-/

namespace Microkernel

namespace Console

def carriageReturn : UInt8 := 0x0D

def lineFeed : UInt8 := 0x0A

/-- The bytes that one byte of text puts on the wire. -/
def expand (byte : UInt8) : List UInt8 :=
  if byte = lineFeed then [carriageReturn, byte] else [byte]

/-- The bytes with a carriage return before every line feed. -/
def wireBytes (bytes : List UInt8) : List UInt8 :=
  bytes.flatMap expand

def bytesOf (text : String) : List UInt8 :=
  text.toUTF8.data.toList

end Console

/-- A console: what it puts on its wire for a text. -/
inductive Console where
  | serial
  | silent
  deriving DecidableEq

namespace Console

def puts (console : Console) (text : String) : List UInt8 :=
  match console with
  | .serial => wireBytes (bytesOf text)
  | .silent => []

/-- The wire's bytes for a single byte, which goes out as it is. -/
def putc (console : Console) (byte : UInt8) : List UInt8 :=
  match console with
  | .serial => [byte]
  | .silent => []

/-- The wire's bytes for a text on a line of its own. -/
def putsLine (console : Console) (text : String) : List UInt8 :=
  console.puts (text ++ "\n")

end Console

namespace Log

/-- The least urgent level that is written. -/
def maxLevel : Level :=
  .info

def enabled (level : Level) : Bool :=
  level.verbosity ≤ maxLevel.verbosity

/-- The text of an entry: its level in a column of five characters, a blank, and its text. -/
def Entry.record (entry : Entry) : String :=
  String.ofList (Text.padRight 5 entry.level.name.toList) ++ " " ++ entry.text

/-- The wire's bytes for an entry; a level that is not enabled puts none. -/
def Entry.write (entry : Entry) (console : Console) : List UInt8 :=
  if enabled entry.level then console.putsLine entry.record else []

end Log

end Microkernel
