import TagFormula.Editor.Entry
import TagFormula.Editor.Rename

/-!
Actions on an editor. Only a position out of range is refused, and then nothing changes. The
effects of an action end with the warnings that are pending.
-/
namespace TagFormula.Editor

variable {σ : Type}

def deliver (effects : List Effect) (e : Editor σ) : Except Fault (List Effect) × Editor σ :=
  (.ok (effects ++ e.takeWarnings.1.map Effect.warning), e.takeWarnings.2)

def deliverAfter : Except Fault Unit × Editor σ → Except Fault (List Effect) × Editor σ
  | (.ok (), e) => deliver [] e
  | (.error fault, e) => (.error fault, e)

def remove [Store σ] (e : Editor σ) (index : Nat) : Except Fault Unit × Editor σ :=
  ((e.removeAt index).1.map fun _ => (), (e.removeAt index).2)

/-- Backspace removes the last tag, but only from an empty entry field. -/
def erase [Store σ] (e : Editor σ) : Except Fault Unit × Editor σ :=
  if e.session.entry.isEmpty && !e.formula.isEmpty then e.remove (e.formula.length - 1)
  else (.ok (), e)

def carryOut [Store σ] (e : Editor σ) : Action → Except Fault (List Effect) × Editor σ
  | .type text => deliver [] (e.type text)
  | .erase => deliverAfter e.erase
  | .operator c =>
    match Operator.ofChar? c with
    | some op => deliver [] (e.typeOperator op)
    | none => deliver [] e
  | .commit => deliver [] e.commit
  | .acceptFirst => deliver [] e.chooseFirst
  | .choose s => deliver [] (e.choose s)
  | .evaluate => deliver [e.evaluate.1] e.evaluate.2
  | .select index => deliverAfter (e.select index)
  | .replaceWith index s => deliverAfter (e.replaceWith index s)
  | .remove index => deliverAfter (e.remove index)
  | .startRename index =>
    match e.formula[index]? with
    | none => (.error (e.outOfRange index), e)
    | some t =>
      -- an operator has no name; nothing else happens, not even a delivery of warnings
      if t.isOperator then (.ok [], e.note (.renameRefused index))
      else deliverAfter (e.startRename index t.label)
  | .typeRename text => deliver [] (e.typeRename text)
  | .finishRename => deliverAfter e.finishRename
  | .cancelRename => deliver [] e.cancelRename
  | .clickOutside => deliverAfter e.finishRename
  | .clear => deliver [] e.clear

def apply [Store σ] (e : Editor σ) (a : Action) : Except Fault (List Effect) × Editor σ :=
  (e.note (.action a)).carryOut a

end TagFormula.Editor
