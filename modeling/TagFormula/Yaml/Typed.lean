import TagFormula.Json.Quoted
import TagFormula.Number.Literal
import TagFormula.Yaml.Node

/-!
Typed values of a YAML document. Only plain scalars can be numbers, truth values or null;
any scalar is a text. What is written as nothing at all counts as an empty collection.
-/
namespace TagFormula.Yaml

def ofRadix? (radix : Nat) (cs : List Char) : Option Nat :=
  if cs.isEmpty then none
  else do
    let digits ← cs.mapM Json.hexValue?
    if digits.all (· < radix) then some (digits.foldl (fun n d => n * radix + d) 0) else none

/-- A natural number, in base ten without leading zeros, or with a mark for another base. A
plus sign may precede it. -/
def natural? (text : String) : Option Nat :=
  let cs := match text.toList with
    | '+' :: rest => rest
    | cs => cs
  match cs with
  | '0' :: 'x' :: rest => ofRadix? 16 rest
  | '0' :: 'o' :: rest => ofRadix? 8 rest
  | '0' :: 'b' :: rest => ofRadix? 2 rest
  | '0' :: _ :: _ => none
  | cs => ofRadix? 10 cs

def double? (text : String) : Option Float :=
  let (hasPlus, body) := match text.toList with
    | '+' :: rest => (true, String.ofList rest)
    | _ => (false, text)
  if [".inf", ".Inf", ".INF"].contains body then some (1 / 0)
  else if ["-.inf", "-.Inf", "-.INF"].contains text then some (-1 / 0)
  else if [".nan", ".NaN", ".NAN"].contains text then some (0 / 0)
  else if hasPlus && (body.startsWith "+" || body.startsWith "-") then none
  else (Number.Literal.decimal? body.toList).bind Number.Decimal.toFloat?

namespace Node

def natural? : Node → Option Nat
  | plain text => Yaml.natural? text
  | _ => none

def double? : Node → Option Float
  | plain text => Yaml.double? text
  | _ => none

def bool? : Node → Option Bool
  | plain text =>
    if ["true", "True", "TRUE"].contains text then some true
    else if ["false", "False", "FALSE"].contains text then some false
    else none
  | _ => none

def text? : Node → Option String
  | plain text | quoted text => some text
  | _ => none

def isNull : Node → Bool
  | plain text => ["", "~", "null", "Null", "NULL"].contains text
  | _ => false

def items? : Node → Option (List Node)
  | sequence items => some items
  | plain text => if text.isEmpty then some [] else none
  | _ => none

def fields? : Node → Option (List (String × Node))
  | mapping pairs => pairs.mapM fun (key, v) => key.text?.map fun name => (name, v)
  | plain text => if text.isEmpty then some [] else none
  | _ => none

def field? (name : String) (fields : List (String × Node)) : Option (Option Node) :=
  match fields.filter (·.1 == name) with
  | [] => some none
  | [(_, v)] => some (some v)
  | _ => none

end Node

end TagFormula.Yaml
