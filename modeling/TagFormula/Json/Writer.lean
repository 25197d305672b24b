import TagFormula.Json.Quoted
import TagFormula.Json.Value
import TagFormula.Number.Style

/-!
Writing JSON text, one item or member a line, two spaces a level. Numbers are in the style of
stored formulas; what is not finite is written as null.
-/
namespace TagFormula.Json

def newLine (level : Nat) : List Char := '\n' :: List.replicate (2 * level) ' '

def writeNumber (v : Float) : List Char :=
  if v.isFinite then (Number.Style.stored.write v).toList else ['n', 'u', 'l', 'l']

mutual

def write (level : Nat) : Json → List Char
  | .null => ['n', 'u', 'l', 'l']
  | .bool true => ['t', 'r', 'u', 'e']
  | .bool false => ['f', 'a', 'l', 's', 'e']
  | .number v => writeNumber v
  | .string text => quote text
  | .array [] => ['[', ']']
  | .array (v :: rest) =>
    '[' :: newLine (level + 1) ++ write (level + 1) v ++ writeItems (level + 1) rest ++
      newLine level ++ [']']
  | .object [] => ['\x7b', '\x7d']
  | .object ((name, v) :: rest) =>
    '\x7b' :: newLine (level + 1) ++ quote name ++ [':', ' '] ++ write (level + 1) v ++
      writeMembers (level + 1) rest ++ newLine level ++ ['\x7d']

def writeItems (level : Nat) : List Json → List Char
  | [] => []
  | v :: rest => ',' :: newLine level ++ write level v ++ writeItems level rest

def writeMembers (level : Nat) : List (String × Json) → List Char
  | [] => []
  | (name, v) :: rest =>
    ',' :: newLine level ++ quote name ++ [':', ' '] ++ write level v ++
      writeMembers level rest

end

end TagFormula.Json
