import TagFormula.Formula

/-!
Formulas in reverse Polish notation. `ofItems` reads operands and operators from left to
right with a stack of operations that still wait for their right operand, and refuses at
the first item that no formula can have at its place. `run` computes the steps on a stack
of doubles.

Powers bind tightest and to the right, then signs, then products, then sums, both to the
left. A sign stands where a value is expected; it waits on top of whatever waits before it.
-/
namespace TagFormula.Rpn

inductive Lexeme where
  | operand (value : Float)
  | operator (op : Operator)
  deriving DecidableEq

structure Item where
  index : Nat
  lexeme : Lexeme
  deriving DecidableEq

inductive Sign where
  | negate
  | keep
  deriving DecidableEq, Repr

inductive Operation where
  | sign (s : Sign)
  | arithmetic (op : Arithmetic)
  deriving DecidableEq, Repr

inductive Instruction where
  | push (value : Float)
  | operate (op : Operation)
  deriving DecidableEq

structure Step where
  index : Nat
  instruction : Instruction
  deriving DecidableEq

def Lexeme.ofToken : Token → Lexeme
  | .number v => operand v.val
  | .var _ _ v _ => operand v.val
  | .operator op => operator op

def items (f : Formula) : List Item := f.mapIdx fun i t => ⟨i, .ofToken t⟩

/-! ## From items to steps -/

def rank : Arithmetic → Nat
  | .add | .subtract => 1
  | .multiply | .divide => 2
  | .power => 4

def Operation.rank : Operation → Nat
  | sign _ => 3
  | arithmetic op => Rpn.rank op

/-- Whether a waiting operation takes its right operand before `next` does: when it binds
tighter, and among equals unless `next` groups to the right. -/
def Operation.precedes (top : Operation) (next : Arithmetic) : Bool :=
  match next with
  | .power => decide (Rpn.rank next < top.rank)
  | _ => decide (Rpn.rank next ≤ top.rank)

def signOf? : Arithmetic → Option Sign
  | .subtract => some .negate
  | .add => some .keep
  | _ => none

inductive Pending where
  | paren (index : Nat)
  | operation (index : Nat) (op : Operation)
  deriving DecidableEq, Repr

/-- The state between two items; the newest step and the innermost pending entry come
first. -/
structure Conversion where
  written : List Step
  pending : List Pending
  wantsValue : Bool
  deriving DecidableEq

def start : Conversion := ⟨[], [], true⟩

def releaseBefore (next : Arithmetic) : List Pending → List Step → List Pending × List Step
  | .operation i op :: rest, written =>
    if op.precedes next then releaseBefore next rest (⟨i, .operate op⟩ :: written)
    else (.operation i op :: rest, written)
  | pending, written => (pending, written)

def releaseParen? : List Pending → List Step → Option (List Pending × List Step)
  | [], _ => none
  | .paren _ :: rest, written => some (rest, written)
  | .operation i op :: rest, written => releaseParen? rest (⟨i, .operate op⟩ :: written)

def releaseAll : List Pending → List Step → Except StructureFault (List Step)
  | [], written => .ok written.reverse
  | .paren i :: _, _ => .error ⟨i, .unclosedParen⟩
  | .operation i op :: rest, written => releaseAll rest (⟨i, .operate op⟩ :: written)

def place (c : Conversion) (item : Item) : Except StructureFault Conversion :=
  let refuse (kind : StructureFault.Kind) : Except StructureFault Conversion :=
    .error ⟨item.index, kind⟩
  match item.lexeme with
  | .operand v =>
    if c.wantsValue then .ok ⟨⟨item.index, .push v⟩ :: c.written, c.pending, false⟩
    else refuse .unexpectedOperand
  | .operator .openParen =>
    if c.wantsValue then .ok ⟨c.written, .paren item.index :: c.pending, true⟩
    else refuse .unexpectedOperand
  | .operator .closeParen =>
    if c.wantsValue then refuse .missingOperand
    else match releaseParen? c.pending c.written with
      | some (pending, written) => .ok ⟨written, pending, false⟩
      | none => refuse .unopenedParen
  | .operator (.arithmetic op) =>
    if c.wantsValue then
      match signOf? op with
      | some s => .ok ⟨c.written, .operation item.index (.sign s) :: c.pending, true⟩
      | none => refuse .missingOperand
    else
      let (pending, written) := releaseBefore op c.pending c.written
      .ok ⟨written, .operation item.index (.arithmetic op) :: pending, true⟩

def finish (items : List Item) (c : Conversion) : Except StructureFault (List Step) :=
  if c.wantsValue then
    match items.getLast? with
    | some last => .error ⟨last.index, .missingOperand⟩
    | none => .ok []
  else releaseAll c.pending c.written

/-- The steps of a row of items, or the first fault in it. No items, no steps. -/
def ofItems (items : List Item) : Except StructureFault (List Step) :=
  match items.foldlM place start with
  | .ok c => finish items c
  | .error fault => .error fault

/-! ## Running the steps -/

def compute : Arithmetic → Float → Float → Float
  | .add, a, b => a + b
  | .subtract, a, b => a - b
  | .multiply, a, b => a * b
  | .divide, a, b => a / b
  | .power, a, b => Float.pow a b

def Sign.apply : Sign → Float → Float
  | negate, a => -a
  | keep, a => a

def Step.run (stack : List Float) (s : Step) : Except StructureFault (List Float) :=
  match s.instruction, stack with
  | .push v, stack => .ok (v :: stack)
  | .operate (.sign sign), a :: rest => .ok (sign.apply a :: rest)
  | .operate (.arithmetic op), b :: a :: rest => .ok (compute op a b :: rest)
  | .operate _, _ => .error ⟨s.index, .missingOperand⟩

def result (steps : List Step) : List Float → Except StructureFault Float
  | [] => .ok 0
  | [v] => .ok v
  | _ => .error ⟨(steps.getLast?.map Step.index).getD 0, .unexpectedOperand⟩

def run (steps : List Step) : Except StructureFault Float :=
  match steps.foldlM Step.run [] with
  | .ok stack => result steps stack
  | .error fault => .error fault

/-! ## Written steps -/

def Operation.word : Operation → String
  | sign .negate => "neg"
  | sign .keep => "pos"
  | arithmetic op => String.singleton op.symbol

def Instruction.word : Instruction → String
  | push v => Number.Style.plain.write v
  | operate op => op.word

def text (steps : List Step) : String :=
  " ".intercalate (steps.map fun s => s.instruction.word)

end TagFormula.Rpn
