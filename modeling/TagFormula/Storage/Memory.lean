import TagFormula.Storage.Record
import TagFormula.Storage.Store

/-!
A formula stored in memory, in its written form. The store can be out of order, and it counts
how often it was asked to save.
-/
namespace TagFormula

structure Memory where
  content : Option String
  isBroken : Bool
  saves : Nat
  deriving DecidableEq, Repr

namespace Memory

def save (s : Memory) (f : Formula) : Except StorageFault Unit × Memory :=
  let s := { s with saves := s.saves + 1 }
  if s.isBroken then (.error (.reported "disque plein"), s)
  else (.ok (), { s with content := some f.toStored })

def load (s : Memory) : Except StorageFault (Option Formula) :=
  if s.isBroken then .error (.reported "disque illisible")
  else
    match s.content with
    | some text => (Formula.ofStored text).map some
    | none => .ok none

end Memory

instance : Store Memory where
  save := Memory.save
  load := Memory.load
  path? _ := none

end TagFormula
