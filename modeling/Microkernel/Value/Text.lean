import Microkernel.Value.Basic

/-! # The text of a value

A list is written in square brackets and a map in curly ones, every slot included. Texts stand
between double quotes and nothing in them is escaped.
-/

namespace Microkernel.Value

def keyText : Option String → String
  | some key => "\"" ++ key ++ "\""
  | Option.none => "none"

mutual

def toText : Value → String
  | .none => "none"
  | .retVal code => "retval(" ++ toString code.toInt ++ ")"
  | .uint32 n => toString n.toNat
  | .int32 n => toString n.toInt
  | .float32 x => x.toText
  | .str text => "\"" ++ text ++ "\""
  | .list slots => "[" ++ ", ".intercalate (itemTexts slots) ++ "]"
  | .map slots => "\x7b" ++ ", ".intercalate (slotTexts slots) ++ "\x7d"

def itemTexts : List Value → List String
  | [] => []
  | item :: rest => toText item :: itemTexts rest

def slotTexts : List (Option String × Value) → List String
  | [] => []
  | (key, value) :: rest => (keyText key ++ ": " ++ toText value) :: slotTexts rest

end

end Microkernel.Value
