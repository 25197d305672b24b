import TagFormula.Formula
import TagFormula.Json.Reader
import TagFormula.Json.Writer

/-!
The stored form of a formula: a JSON array with a record for each tag. A record is an object
whose member `kind`, anywhere in it, says what the others mean; members it has no use for
are skipped, a repeated one it has use for is refused. The row of its values in their order,
the kind first, is accepted too.

Reading has two passes: the whole text has to be made of records before the symbol of any
operator is looked at, so a fault of form hides every unknown symbol.
-/
namespace TagFormula

inductive Record where
  | number (value : Float)
  | var (id name : String) (value : Float) (category : Option String)
  | operator (symbol : String)
  deriving DecidableEq

namespace Record

def ofToken : Token → Record
  | .number v => number v.val
  | .var id name v category => var id name v.val category
  | .operator op => operator (String.singleton op.symbol)

def toToken : Record → Except StorageFault Token
  | number v => .ok (.ofFloat v)
  | var id name v category => .ok (.var id name (.ofFloat v) category)
  | operator symbol =>
    match Operator.ofText? symbol with
    | some op => .ok (.operator op)
    | none => .error (.unknownOperator symbol)

def toJson : Record → Json
  | number v => .object [("kind", .string "number"), ("value", .number v)]
  | var id name v category =>
    .object ([("kind", .string "variable"), ("id", .string id), ("name", .string name),
      ("value", .number v)] ++
      match category with
      | some c => [("category", .string c)]
      | none => [])
  | operator symbol => .object [("kind", .string "operator"), ("symbol", .string symbol)]

def member? (name : String) (members : List (String × Json)) : Option Json :=
  match members.filter (·.1 == name) with
  | [(_, v)] => some v
  | _ => none

/-- The value of a member that may be missing, but not be there twice. -/
def optional? (name : String) (members : List (String × Json)) : Option (Option Json) :=
  match members.filter (·.1 == name) with
  | [] => some none
  | [(_, v)] => some (some v)
  | _ => none

def asString? : Json → Option String
  | .string s => some s
  | _ => none

def asNumber? : Json → Option Float
  | .number v => some v
  | _ => none

def asCategory? : Json → Option (Option String)
  | .null => some none
  | .string s => some (some s)
  | _ => none

def ofMembers? (kind : String) (members : List (String × Json)) : Option Record :=
  match kind with
  | "number" => do
    let v ← member? "value" members
    some (number (← asNumber? v))
  | "variable" => do
    let id ← member? "id" members
    let name ← member? "name" members
    let v ← member? "value" members
    let category ← optional? "category" members
    some (var (← asString? id) (← asString? name) (← asNumber? v)
      (← (category.map asCategory?).getD (some none)))
  | "operator" => do
    let symbol ← member? "symbol" members
    some (operator (← asString? symbol))
  | _ => none

def ofRow? (kind : String) (values : List Json) : Option Record :=
  match kind, values with
  | "number", [v] => (asNumber? v).map number
  | "variable", [id, name, v] => do
    some (var (← asString? id) (← asString? name) (← asNumber? v) none)
  | "variable", [id, name, v, category] => do
    some (var (← asString? id) (← asString? name) (← asNumber? v) (← asCategory? category))
  | "operator", [symbol] => (asString? symbol).map operator
  | _, _ => none

def ofJson? : Json → Option Record
  | .object members => do
    let kind ← member? "kind" members
    ofMembers? (← asString? kind) members
  | .array (kind :: values) => do ofRow? (← asString? kind) values
  | _ => none

end Record

namespace Formula

def toStored (f : Formula) : String :=
  String.ofList (Json.write 0 (.array (f.map fun t => (Record.ofToken t).toJson)))

def records? (text : String) : Option (List Record) :=
  match Json.read? text with
  | some (.array items) => items.mapM Record.ofJson?
  | _ => none

def ofStored (text : String) : Except StorageFault Formula :=
  match records? text with
  | some records => records.mapM Record.toToken
  | none => .error .malformed

end Formula

end TagFormula
