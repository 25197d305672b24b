import TagFormula.Formula

/-!
Stores of a formula. A store holds at most one formula; saving replaces it.
-/
namespace TagFormula

class Store (σ : Type) where
  save : σ → Formula → Except StorageFault Unit × σ
  /-- `none`: nothing has been stored yet. -/
  load : σ → Except StorageFault (Option Formula)
  /-- The file it is, if it is one. -/
  path? : σ → Option String

end TagFormula
