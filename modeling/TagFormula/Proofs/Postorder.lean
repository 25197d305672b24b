import TagFormula.Grammar

/-!
Expressions and their steps. The steps of an expression, run on any stack, leave its value on
top; assembled instead of run, they give the expression back, so no two expressions share their
steps.
-/
namespace TagFormula

open Rpn (Item Step Lexeme)

def Rpn.Step.origin (s : Step) : Item :=
  match s.instruction with
  | .push v => ⟨s.index, .operand v⟩
  | .operate (.sign .negate) => ⟨s.index, .operator (.arithmetic .subtract)⟩
  | .operate (.sign .keep) => ⟨s.index, .operator (.arithmetic .add)⟩
  | .operate (.arithmetic op) => ⟨s.index, .operator (.arithmetic op)⟩

def Rpn.Item.isParen (item : Item) : Bool :=
  match item.lexeme with
  | .operator .openParen | .operator .closeParen => true
  | _ => false

namespace Expression

def assemble (stack : List Expression) (s : Step) : Option (List Expression) :=
  match s.instruction, stack with
  | .push v, stack => some (.operand s.index v :: stack)
  | .operate (.sign mark), a :: rest => some (.sign s.index mark a :: rest)
  | .operate (.arithmetic op), b :: a :: rest => some (.binary s.index op a b :: rest)
  | .operate _, _ => none

theorem assemble_steps (e : Expression) (stack : List Expression) :
    e.steps.foldlM assemble stack = some (e :: stack) := by
  induction e generalizing stack with
  | operand i v => rfl
  | sign i s e ih =>
    rw [steps, List.foldlM_append, ih]
    rfl
  | binary i op left right leftIh rightIh =>
    rw [steps, List.foldlM_append, List.foldlM_append, leftIh]
    simp only [Option.bind_eq_bind, Option.bind_some]
    rw [rightIh]
    rfl

theorem steps_injective {e e' : Expression} (same : e.steps = e'.steps) : e = e' := by
  have assembled := assemble_steps e []
  rw [same, assemble_steps e' []] at assembled
  simp only [Option.some.injEq, List.cons.injEq, and_true] at assembled
  exact assembled.symm

theorem run_steps (e : Expression) (stack : List Float) :
    e.steps.foldlM Step.run stack = .ok (e.value :: stack) := by
  induction e generalizing stack with
  | operand i v => rfl
  | sign i s e ih =>
    rw [steps, List.foldlM_append, ih]
    rfl
  | binary i op left right leftIh rightIh =>
    rw [steps, List.foldlM_append, List.foldlM_append, leftIh]
    change (right.steps.foldlM Step.run (left.value :: stack) >>= _) = _
    rw [rightIh]
    rfl

theorem run_eq_value (e : Expression) : Rpn.run e.steps = .ok e.value := by
  simp only [Rpn.run, run_steps, Rpn.result]

end Expression

namespace Grammar

theorem origin_of_sign {i : Nat} {op : Arithmetic} {s : Rpn.Sign}
    (isSign : Rpn.signOf? op = some s) :
    Step.origin ⟨i, .operate (.sign s)⟩ = opItem i op := by
  cases op <;> simp only [Rpn.signOf?, Option.some.injEq, reduceCtorEq] at isSign <;>
    subst s <;> rfl

/-- The steps of a parsed row are its items without the parentheses, put in another order. -/
theorem origins_are_items {level : Level} {xs : List Item} {e : Expression}
    (h : Parses level xs e) :
    (e.steps.map Step.origin).Perm (xs.filter fun item => !item.isParen) := by
  induction h with
  | sumOfProduct _ ih | productOfSigned _ ih | signedOfPower _ ih | powerOfAtom _ ih => exact ih
  | operand i v => exact List.Perm.refl _
  | parens i j _ ih => simpa [Rpn.Item.isParen] using ih
  | signed i isSign _ ih =>
    simp only [Expression.steps, List.map_append, List.map_cons, List.map_nil,
      origin_of_sign isSign]
    exact (List.perm_append_singleton _ _).trans (ih.cons _)
  | sum i _ _ _ leftIh rightIh | product i _ _ _ leftIh rightIh | power i _ _ leftIh rightIh =>
    simp only [Expression.steps, List.map_append, List.map_cons, List.map_nil,
      List.filter_append, List.append_assoc]
    exact leftIh.append ((List.perm_append_singleton _ _).trans (rightIh.cons _))

end Grammar

end TagFormula
