import Mathlib.Data.List.Basic
import TagFormula.Token

/-!
The text of an identifier tells its session and its number, so a supply gives no identifier twice
and none of another session.
-/
namespace TagFormula.IdSupply

/-! ## Digits -/

theorem toDigits_eq {b : Nat} (base : 1 < b) (n : Nat) :
    Nat.toDigits b n =
      (if n < b then [] else Nat.toDigits b (n / b)) ++ [Nat.digitChar (n % b)] := by
  split
  · next small => rw [Nat.toDigits_of_lt_base small, Nat.mod_eq_of_lt small, List.nil_append]
  · next large => rw [Nat.toDigits_of_base_le base (by omega)]

theorem digitChar_inj {d c : Nat} (hd : d < 16) (hc : c < 16)
    (same : Nat.digitChar d = Nat.digitChar c) : d = c := by
  have all : ∀ d : Fin 16, ∀ c : Fin 16, Nat.digitChar d = Nat.digitChar c → d = c := by decide
  exact congrArg Fin.val (all ⟨d, hd⟩ ⟨c, hc⟩ same)

theorem digitChar_ne_dash {d : Nat} (hd : d < 16) : Nat.digitChar d ≠ '-' := by
  have all : ∀ d : Fin 16, Nat.digitChar d ≠ '-' := by decide
  exact all ⟨d, hd⟩

theorem toDigits_inj {b n m : Nat} (base : 1 < b) (known : b ≤ 16)
    (same : Nat.toDigits b n = Nat.toDigits b m) : n = m := by
  induction n using Nat.strongRecOn generalizing m with
  | ind n ih =>
    rw [toDigits_eq base n, toDigits_eq base m] at same
    obtain ⟨front, last⟩ := List.append_inj' same rfl
    have digit : n % b = m % b := by
      refine digitChar_inj ?_ ?_ (List.cons.inj last).1
      · exact Nat.lt_of_lt_of_le (Nat.mod_lt n (by omega)) known
      · exact Nat.lt_of_lt_of_le (Nat.mod_lt m (by omega)) known
    split at front <;> split at front
    · next small small' => rwa [Nat.mod_eq_of_lt small, Nat.mod_eq_of_lt small'] at digit
    · exact absurd front.symm Nat.toDigits_ne_nil
    · exact absurd front Nat.toDigits_ne_nil
    · next large _ =>
      have smaller : n / b < n := Nat.div_lt_self (by omega) base
      rw [← Nat.div_add_mod n b, ← Nat.div_add_mod m b, ih _ smaller front, digit]

theorem dash_notMem_toDigits {b : Nat} (base : 1 < b) (known : b ≤ 16) (n : Nat) :
    '-' ∉ Nat.toDigits b n := by
  induction n using Nat.strongRecOn with
  | ind n ih =>
    have last := digitChar_ne_dash (Nat.lt_of_lt_of_le (Nat.mod_lt n (by omega)) known)
    rw [toDigits_eq base n, List.mem_append, List.mem_singleton]
    rintro (front | same)
    · split at front
      · cases front
      · exact ih _ (Nat.div_lt_self (by omega) base) front
    · exact last same.symm

/-! ## Identifiers -/

theorem idAt_inj {s t n m : Nat} : idAt s n = idAt t m ↔ s = t ∧ n = m := by
  refine ⟨fun same => ?_, fun ⟨session, number⟩ => session ▸ number ▸ rfl⟩
  have texts := String.ofList_injective same
  obtain ⟨session, _, number⟩ := (List.append_cons_inj_of_notMem
    (dash_notMem_toDigits (by decide) (by decide) s)
    (dash_notMem_toDigits (by decide) (by decide) n)).mp texts
  exact ⟨toDigits_inj (by decide) (by decide) session, toDigits_inj (by decide) (by decide) number⟩

/-- The supply is still to give this identifier. -/
def Yields (s : IdSupply) (id : String) : Prop := ∃ n, s.next ≤ n ∧ id = idAt s.session n

theorem yields_id (s : IdSupply) : s.Yields s.id := ⟨s.next, Nat.le_refl _, rfl⟩

theorem yields_of_advance {s : IdSupply} {id : String} (h : s.advance.Yields id) :
    s.Yields id := by
  obtain ⟨n, later, rfl⟩ := h
  exact ⟨n, Nat.le_of_succ_le later, rfl⟩

theorem not_advance_yields_id (s : IdSupply) : ¬ s.advance.Yields s.id := by
  rintro ⟨n, later, same⟩
  have number : s.next = n := (idAt_inj.mp same).2
  have passed : s.next + 1 ≤ n := later
  omega

theorem not_yields_of_session {s : IdSupply} {session : Nat} (other : session ≠ s.session)
    (n : Nat) : ¬ s.Yields (idAt session n) := by
  rintro ⟨m, _, same⟩
  exact other (idAt_inj.mp same).1

end TagFormula.IdSupply
