/-!
Blank characters: the White_Space property of Unicode.
-/
namespace TagFormula.Text

def isBlank (c : Char) : Bool :=
  let n := c.toNat
  (9 ≤ n && n ≤ 13) || n == 0x20 || n == 0x85 || n == 0xa0 || n == 0x1680 ||
    (0x2000 ≤ n && n ≤ 0x200a) || n == 0x2028 || n == 0x2029 || n == 0x202f ||
    n == 0x205f || n == 0x3000

def trimmed (cs : List Char) : List Char :=
  ((cs.dropWhile isBlank).reverse.dropWhile isBlank).reverse

def trim (text : String) : String := String.ofList (trimmed text.toList)

def isBlankText (text : String) : Bool := text.toList.all isBlank

theorem dropWhile_isBlank_of_head? {cs : List Char} (h : ∀ c ∈ cs.head?, isBlank c = false) :
    cs.dropWhile isBlank = cs := by
  cases cs with
  | nil => rfl
  | cons c rest => simp [h c rfl]

theorem isBlank_head?_dropWhile {cs : List Char} :
    ∀ c ∈ (cs.dropWhile isBlank).head?, isBlank c = false := by
  intro c h
  have kept := List.head?_dropWhile_not isBlank cs
  rw [Option.mem_def.mp h] at kept
  simpa using kept

theorem isBlank_head?_trimmed {cs : List Char} :
    ∀ c ∈ (trimmed cs).head?, isBlank c = false := by
  intro c h
  have part : trimmed cs <+: cs.dropWhile isBlank := by
    have := List.dropWhile_suffix isBlank (l := (cs.dropWhile isBlank).reverse)
    simpa [trimmed] using List.reverse_prefix.mpr this
  obtain ⟨rest, eq⟩ := part
  refine @isBlank_head?_dropWhile cs c ?_
  rw [← eq, List.head?_append, Option.mem_def.mp h]
  rfl

theorem isBlank_getLast?_trimmed {cs : List Char} :
    ∀ c ∈ (trimmed cs).getLast?, isBlank c = false := by
  intro c h
  rw [trimmed, List.getLast?_reverse] at h
  exact isBlank_head?_dropWhile c h

theorem trimmed_trimmed (cs : List Char) : trimmed (trimmed cs) = trimmed cs := by
  have left := dropWhile_isBlank_of_head? (@isBlank_head?_trimmed cs)
  have right := @dropWhile_isBlank_of_head? (trimmed cs).reverse
    (by rw [List.head?_reverse]; exact isBlank_getLast?_trimmed)
  rw [trimmed, left, right, List.reverse_reverse]

theorem trim_trim (text : String) : trim (trim text) = trim text := by
  simp [trim, trimmed_trimmed]

end TagFormula.Text
