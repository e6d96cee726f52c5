import Microkernel.Client.Serial

/-! # The line editor

Received bytes become a line: carriage return or line feed ends it, backspace and delete take its
last character away, zero is ignored and every other byte is the character of that number. The
line also ends once it has as many characters as asked for.
-/

namespace Microkernel.Client

/-- What a received byte means to the line editor. -/
inductive Key where
  | finish
  | erase
  | ignored
  | character (c : Char)
  deriving DecidableEq

namespace Key

def backspace : UInt8 := 0x08

def delete : UInt8 := 0x7F

def ofByte (byte : UInt8) : Key :=
  if byte = Console.carriageReturn ∨ byte = Console.lineFeed then .finish
  else if byte = backspace ∨ byte = delete then .erase
  else if byte = 0 then .ignored
  else .character (Char.ofNat byte.toNat)

/-- The bytes that wipe the last character off a screen: left, blank, left. -/
def eraseSequence : List UInt8 :=
  [0x1B, 0x5B, 0x44, 0x20, 0x1B, 0x5B, 0x44]

/-- The bytes that a key shows on the screen of a client that echoes. -/
def echo (line : List Char) (byte : UInt8) : Key → List UInt8
  | .erase => if line.isEmpty then [] else eraseSequence
  | .character _ => [byte]
  | .finish | .ignored => []

/-- The line before a key's echo goes out: a character is already taken away, but not added. -/
def before (line : List Char) : Key → List Char
  | .erase => line.dropLast
  | _ => line

/-- The line after a key. -/
def after (line : List Char) : Key → List Char
  | .erase => line.dropLast
  | .character c => line ++ [c]
  | .finish | .ignored => line

end Key

/-- What reading a line leaves: the characters stored so far and how the reading ended. -/
structure LineRead where
  line : List Char
  count : Except ClientError Nat

/-- Read on from a line that has fewer characters than asked for. A failed call ends the reading
with the characters stored before it. -/
def readOn (patience : Nat) (echoing : Bool) (limit : Nat) :
    (rounds : Nat) → List Char → Program LineRead
  | 0, _ => .stalled
  | rounds + 1, line => do
    match ← getch.attempt with
    | .error error => .done ⟨line, .error error⟩
    | .ok none => readOn patience echoing limit rounds line
    | .ok (some byte) =>
      let key := Key.ofByte byte
      if key = .finish then .done ⟨line, .ok line.length⟩
      else
        let shown := if echoing then key.echo line byte else []
        match ← (putAll patience shown).attempt with
        | .error error => .done ⟨key.before line, .error error⟩
        | .ok () =>
          let line := key.after line
          if line.length = limit then .done ⟨line, .ok line.length⟩
          else readOn patience echoing limit rounds line

/-- Read a line of at most `limit` characters into a buffer, which is emptied first whatever it
holds. -/
def readInto (patience : Nat) (echoing : Bool) (limit : Nat) (_held : List Char) :
    Program LineRead :=
  if limit = 0 then .done ⟨[], .ok 0⟩ else readOn patience echoing limit patience []

/-- Read a line of at most `limit` characters. -/
def readLine (patience : Nat) (echoing : Bool) (limit : Nat) : Program LineRead :=
  readInto patience echoing limit []

end Microkernel.Client
