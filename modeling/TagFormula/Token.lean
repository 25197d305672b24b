import TagFormula.Number.Style

/-!
Tags of a formula: numbers, variables and operators. A tag's value is always finite. Two
tags are alike when they show the same thing; the identifier of a variable and its category
are not part of that, so `alike` is weaker than equality.
-/
namespace TagFormula

/-- The value of a tag: a finite double. -/
structure Amount where
  val : Float
  finite : val.isFinite = true
  deriving DecidableEq

namespace Amount

def zero : Amount := ⟨0, by decide⟩

def ofFloat (v : Float) : Amount := if h : v.isFinite = true then ⟨v, h⟩ else zero

@[simp] theorem ofFloat_val (a : Amount) : ofFloat a.val = a := by
  simp [ofFloat, a.finite]

theorem val_ofFloat_of_isFinite {v : Float} (h : v.isFinite = true) : (ofFloat v).val = v := by
  simp [ofFloat, h]

end Amount

inductive Arithmetic where
  | add
  | subtract
  | multiply
  | divide
  | power
  deriving DecidableEq, Repr

inductive Operator where
  | arithmetic (op : Arithmetic)
  | openParen
  | closeParen
  deriving DecidableEq, Repr

namespace Arithmetic

def symbol : Arithmetic → Char
  | add => '+'
  | subtract => '-'
  | multiply => '*'
  | divide => '/'
  | power => '^'

end Arithmetic

namespace Operator

def all : List Operator :=
  [arithmetic .add, arithmetic .subtract, arithmetic .multiply, arithmetic .divide,
    arithmetic .power, openParen, closeParen]

def symbol : Operator → Char
  | arithmetic op => op.symbol
  | openParen => '('
  | closeParen => ')'

def ofChar? : Char → Option Operator
  | '+' => some (arithmetic .add)
  | '-' => some (arithmetic .subtract)
  | '*' => some (arithmetic .multiply)
  | '/' => some (arithmetic .divide)
  | '^' => some (arithmetic .power)
  | '(' => some openParen
  | ')' => some closeParen
  | _ => none

def ofText? (text : String) : Option Operator :=
  match text.toList with
  | [c] => ofChar? c
  | _ => none

@[simp] theorem ofChar?_symbol (op : Operator) : ofChar? op.symbol = some op := by
  rcases op with (_ | _ | _ | _ | _) | _ | _ <;> rfl

theorem symbol_of_ofChar? {c : Char} {op : Operator} (h : ofChar? c = some op) :
    op.symbol = c := by
  unfold ofChar? at h
  split at h <;> simp_all <;> subst h <;> rfl

theorem ofChar?_eq_some_iff {c : Char} {op : Operator} : ofChar? c = some op ↔ c = op.symbol :=
  ⟨fun h => (symbol_of_ofChar? h).symm, fun h => h ▸ ofChar?_symbol op⟩

theorem ofText?_eq_some_iff {text : String} {op : Operator} :
    ofText? text = some op ↔ text = String.singleton op.symbol := by
  unfold ofText?
  constructor
  · intro h
    split at h
    · next c single =>
      rw [← String.ofList_toList (s := text), single, ofChar?_eq_some_iff.mp h]
      rfl
    · cases h
  · rintro rfl
    rw [String.toList_singleton]
    exact ofChar?_symbol op

end Operator

inductive Token where
  | number (value : Amount)
  /-- `category` is what the catalogue says about a variable; it is only shown. -/
  | var (id name : String) (value : Amount) (category : Option String)
  | operator (op : Operator)
  deriving DecidableEq

namespace Token

def ofFloat (v : Float) : Token := number (Amount.ofFloat v)

def isOperator : Token → Bool
  | operator _ => true
  | _ => false

def value? : Token → Option Float
  | number v => some v.val
  | var _ _ v _ => some v.val
  | operator _ => none

def id? : Token → Option String
  | var id _ _ _ => some id
  | _ => none

/-- The text on the tag, and where a rename starts from. -/
def label : Token → String
  | number v => Number.Style.plain.write v.val
  | var _ name _ _ => name
  | operator op => String.singleton op.symbol

def details : Token → String
  | number v => "nombre : " ++ Number.Style.plain.write v.val
  | var id _ v category =>
    category.getD "variable" ++ " : " ++ Number.Style.plain.write v.val ++ "\nid " ++ id
  | operator op => "opérateur " ++ String.singleton op.symbol

/-- Same kind and same content; doubles are compared as numbers, so both zeros are alike. -/
def alike : Token → Token → Bool
  | number a, number b => a.val == b.val
  | var _ n a _, var _ m b _ => n == m && a.val == b.val
  | operator a, operator b => a == b
  | _, _ => false

def allAlike : List Token → List Token → Bool
  | [], [] => true
  | a :: as, b :: bs => a.alike b && allAlike as bs
  | _, _ => false

end Token

/-- Identifiers of variables: the hexadecimal mark of a session and a number that is never
given twice in it. -/
structure IdSupply where
  session : Nat
  /-- The number of the next one; there are fewer than `2 ^ 64`. -/
  next : Nat
  deriving DecidableEq, Repr

namespace IdSupply

def idAt (session n : Nat) : String :=
  String.ofList (Nat.toDigits 16 session ++ '-' :: Nat.toDigits 10 n)

def id (s : IdSupply) : String := idAt s.session s.next

def advance (s : IdSupply) : IdSupply := { s with next := s.next + 1 }

end IdSupply

end TagFormula
