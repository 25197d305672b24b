import TagFormula.Rpn

/-!
The value of a formula, with the way to it: the tags and the steps, both as text. The empty
formula has the value zero. Arithmetic never fails: a division by zero gives an infinity or
no number at all.
-/
namespace TagFormula

structure Trace where
  tokens : String
  steps : String
  deriving DecidableEq, Repr

def Trace.empty : Trace := ⟨"", ""⟩

namespace Formula

def text (f : Formula) : String := " ".intercalate (f.map Token.label)

def trace (f : Formula) : Except StructureFault (Float × Trace) :=
  if f.isEmpty then .ok (0, ⟨f.text, ""⟩)
  else
    match Rpn.ofItems (Rpn.items f) with
    | .error fault => .error fault
    | .ok steps => (Rpn.run steps).map fun v => (v, ⟨f.text, Rpn.text steps⟩)

def value (f : Formula) : Except StructureFault Float := f.trace.map (·.1)

end Formula

end TagFormula
