import TagFormula.Json.Quoted
import TagFormula.Json.Value
import TagFormula.Number.Literal

/-!
Reading JSON text. The grammar is the strict one: four blanks, no leading zeros, nothing
after the value. A number has to be a finite double, and arrays and objects may be nested
127 deep.
-/
namespace TagFormula.Json

open TagFormula.Number (Decimal)
open TagFormula.Number.Literal (isDigit ofDigits takeSign)

def isBlank (c : Char) : Bool := c == ' ' || c == '\t' || c == '\n' || c == '\r'

def skipBlanks (cs : List Char) : List Char := cs.dropWhile isBlank

def takeWhole? : List Char → Option (List Char × List Char)
  | '0' :: rest => some (['0'], rest)
  | cs =>
    let (digits, rest) := cs.span isDigit
    if digits.isEmpty then none else some (digits, rest)

def takeFraction? : List Char → Option (List Char × List Char)
  | '.' :: rest =>
    let (digits, rest) := rest.span isDigit
    if digits.isEmpty then none else some (digits, rest)
  | rest => some ([], rest)

def takePower? : List Char → Option (Int × List Char)
  | c :: rest =>
    if c = 'e' ∨ c = 'E' then
      let (negative, rest) := takeSign rest
      let (digits, rest) := rest.span isDigit
      if digits.isEmpty then none
      else some (if negative then -(ofDigits digits : Int) else ofDigits digits, rest)
    else some (0, c :: rest)
  | [] => some (0, [])

def takeNumber? (cs : List Char) : Option (Decimal × List Char) := do
  let (negative, cs) := match cs with
    | '-' :: rest => (true, rest)
    | cs => (false, cs)
  let (whole, cs) ← takeWhole? cs
  let (fraction, cs) ← takeFraction? cs
  let (power, cs) ← takePower? cs
  some (⟨negative, ofDigits (whole ++ fraction), power - fraction.length⟩, cs)

/-- The items up to the end of an array that has at least one; `fuel` bounds their number. -/
def takeItems? (item : List Char → Option (Json × List Char)) :
    Nat → List Char → Option (List Json × List Char)
  | 0, _ => none
  | fuel + 1, cs =>
    match item cs with
    | none => none
    | some (v, cs) =>
      match skipBlanks cs with
      | ',' :: rest => (takeItems? item fuel rest).map fun (vs, cs) => (v :: vs, cs)
      | ']' :: rest => some ([v], rest)
      | _ => none

def takeMember? (item : List Char → Option (Json × List Char)) (cs : List Char) :
    Option ((String × Json) × List Char) :=
  match skipBlanks cs with
  | '"' :: rest =>
    match unquote? rest with
    | none => none
    | some (name, cs) =>
      match skipBlanks cs with
      | ':' :: rest => (item rest).map fun (v, cs) => ((String.ofList name, v), cs)
      | _ => none
  | _ => none

def takeMembers? (item : List Char → Option (Json × List Char)) :
    Nat → List Char → Option (List (String × Json) × List Char)
  | 0, _ => none
  | fuel + 1, cs =>
    match takeMember? item cs with
    | none => none
    | some (m, cs) =>
      match skipBlanks cs with
      | ',' :: rest => (takeMembers? item fuel rest).map fun (ms, cs) => (m :: ms, cs)
      | '\x7d' :: rest => some ([m], rest)
      | _ => none

/-- The value at the front of the text, with at most `depth` levels of nesting, and what
follows it. -/
def takeValue? : Nat → List Char → Option (Json × List Char)
  | depth, cs =>
    match skipBlanks cs with
    | 'n' :: 'u' :: 'l' :: 'l' :: rest => some (.null, rest)
    | 't' :: 'r' :: 'u' :: 'e' :: rest => some (.bool true, rest)
    | 'f' :: 'a' :: 'l' :: 's' :: 'e' :: rest => some (.bool false, rest)
    | '"' :: rest => (unquote? rest).map fun (text, rest) => (.string (String.ofList text), rest)
    | '[' :: rest =>
      match depth with
      | 0 => none
      | depth + 1 =>
        match skipBlanks rest with
        | ']' :: rest => some (.array [], rest)
        | rest =>
          (takeItems? (takeValue? depth) rest.length rest).map fun (vs, rest) =>
            (.array vs, rest)
    | '\x7b' :: rest =>
      match depth with
      | 0 => none
      | depth + 1 =>
        match skipBlanks rest with
        | '\x7d' :: rest => some (.object [], rest)
        | rest =>
          (takeMembers? (takeValue? depth) rest.length rest).map fun (ms, rest) =>
            (.object ms, rest)
    | cs =>
      match takeNumber? cs with
      | none => none
      | some (d, rest) => d.toFloat?.map fun v => (.number v, rest)

def maxDepth : Nat := 127

def read? (text : String) : Option Json :=
  match takeValue? maxDepth text.toList with
  | some (v, rest) => if (skipBlanks rest).isEmpty then some v else none
  | none => none

end TagFormula.Json
