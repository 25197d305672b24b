import TagFormula.Proofs.SigmaForm
import TagFormula.Suggestion
import TagFormula.Text.Blank

/-!
What is looked for in names. The blanks around a text play no part in the small letters of the
text itself, so a name that holds a text as it was typed also holds the text without them. What a
source finds for a text is enough to find the best entry among, or what matches a longer text. A
name that contains a text letter for letter matches it, but for capital sigmas that have another
form there.
-/
namespace TagFormula

namespace Text

/-! ## Blanks and small letters -/

def blanks : List Nat :=
  [9, 10, 11, 12, 13, 0x20, 0x85, 0xa0, 0x1680, 0x2000, 0x2001, 0x2002, 0x2003, 0x2004, 0x2005,
    0x2006, 0x2007, 0x2008, 0x2009, 0x200a, 0x2028, 0x2029, 0x202f, 0x205f, 0x3000]

theorem mem_blanks_of_isBlank {c : Char} (blank : isBlank c = true) : c.toNat ∈ blanks := by
  simp only [isBlank, Bool.or_eq_true, Bool.and_eq_true, decide_eq_true_eq, beq_iff_eq] at blank
  simp only [blanks, List.mem_cons, List.not_mem_nil, or_false]
  omega

theorem uncased_of_isBlank {c : Char} (blank : isBlank c = true) :
    isCaseIgnorable c = false ∧ isCased c = false := by
  have table : ∀ n ∈ blanks, inRuns caseIgnorableRuns n = false ∧ inRuns casedRuns n = false := by
    decide +kernel
  exact table c.toNat (mem_blanks_of_isBlank blank)

theorem meetsCased_of_blanks {bs : List Char} (blank : ∀ c ∈ bs, isBlank c = true) :
    meetsCased bs = false := by
  cases bs with
  | nil => rfl
  | cons b bs =>
    obtain ⟨counts, uncased⟩ := uncased_of_isBlank (blank b List.mem_cons_self)
    rw [meetsCased, List.dropWhile_cons_of_neg (by simp [counts])]
    exact uncased

theorem meetsCased_append_blanks (cs : List Char) {bs : List Char}
    (blank : ∀ c ∈ bs, isBlank c = true) : meetsCased (cs ++ bs) = meetsCased cs := by
  by_cases decides : Decides cs
  · exact meetsCased_append_of_decides decides bs
  · rw [meetsCased_append_of_not_decides decides, meetsCased_of_not_decides decides,
      meetsCased_of_blanks blank]

theorem keepsForms_between_blanks (cs : List Char) {as bs : List Char}
    (left : ∀ c ∈ as, isBlank c = true) (right : ∀ c ∈ bs, isBlank c = true) :
    KeepsForms as cs bs := by
  intro p r _
  rw [sigmaForm, sigmaForm,
    meetsCased_append_blanks _ fun c member => left c (List.mem_reverse.mp member),
    meetsCased_append_blanks _ right]

theorem exists_blanks_around (cs : List Char) :
    ∃ as bs, cs = as ++ trimmed cs ++ bs ∧ (∀ c ∈ as, isBlank c = true) ∧
      ∀ c ∈ bs, isBlank c = true := by
  have front := List.takeWhile_append_dropWhile (p := isBlank) (l := cs)
  have back := List.takeWhile_append_dropWhile (p := isBlank)
    (l := (cs.dropWhile isBlank).reverse)
  refine ⟨cs.takeWhile isBlank, ((cs.dropWhile isBlank).reverse.takeWhile isBlank).reverse, ?_, ?_,
    ?_⟩
  · have rest := congrArg List.reverse back
    rw [List.reverse_append, List.reverse_reverse] at rest
    rw [List.append_assoc, trimmed, rest, front]
  · exact fun c member => List.all_eq_true.mp List.all_takeWhile c member
  · exact fun c member => List.all_eq_true.mp List.all_takeWhile c (List.mem_reverse.mp member)

theorem lowerAfter_trimmed_infix (cs : List Char) :
    lowerAfter [] (trimmed cs) <:+: lowerAfter [] cs := by
  obtain ⟨as, bs, around, left, right⟩ := exists_blanks_around cs
  have inside := infix_of_keepsForms (keepsForms_between_blanks (trimmed cs) left right)
  rwa [← around] at inside

theorem lower_trim_infix (text : String) :
    (lower (trim text)).toList <:+: (lower text).toList := by
  rw [lower, lower, trim, String.toList_ofList, String.toList_ofList, String.toList_ofList]
  exact lowerAfter_trimmed_infix text.toList

end Text

namespace Suggestion

theorem nameContains_of_infix {s : Suggestion} {small more : List Char} (inside : small <:+: more)
    (found : s.nameContains more = true) : s.nameContains small = true :=
  Text.occursIn_iff.mpr (inside.trans (Text.occursIn_iff.mp found))

theorem filter_filter_of_infix {text longer : String}
    (inside : (Text.lower text).toList <:+: (Text.lower longer).toList)
    (entries : List Suggestion) : filter longer (filter text entries) = filter longer entries := by
  unfold filter
  rw [List.filter_filter]
  refine List.filter_congr fun s _ => ?_
  have implied := nameContains_of_infix (s := s) inside
  cases matched : s.nameContains (Text.lower longer).toList with
  | false => rfl
  | true => rw [implied matched]; rfl

theorem filter_filter_trim (text : String) (entries : List Suggestion) :
    filter text (filter (Text.trim text) entries) = filter text entries :=
  filter_filter_of_infix (Text.lower_trim_infix text) entries

theorem best?_filter (text : String) (entries : List Suggestion) :
    best? text (filter text entries) = best? text entries := by
  have kept (p : Suggestion → Bool)
      (matched : ∀ s, p s = true → s.nameContains (Text.lower text).toList = true) :
      (filter text entries).find? p = entries.find? p := by
    rw [filter, List.find?_filter]
    refine congrArg (entries.find? ·) (funext fun s => ?_)
    cases found : p s with
    | false => simp
    | true => simp [matched s found]
  have named := kept (fun s => Text.lower s.name == Text.lower text) fun s same => by
    rw [nameContains, beq_iff_eq.mp same]
    exact Text.occursIn_iff.mpr (List.infix_refl _)
  have containing := kept (·.nameContains (Text.lower text).toList) fun _ found => found
  simp only [best?, named, containing]

/-! ## Literal matches -/

open Text (KeepsForms Settled)

theorem lower_infix_of_keepsForms {text name : String} {before after : List Char}
    (keeps : KeepsForms before text.toList after)
    (inside : name.toList = before ++ text.toList ++ after) :
    (Text.lower text).toList <:+: (Text.lower name).toList := by
  rw [Text.lower, Text.lower, String.toList_ofList, String.toList_ofList, inside]
  exact Text.infix_of_keepsForms keeps

theorem lower_infix_of_settled {text name : String} (settled : Settled text.toList)
    (inside : text.toList <:+: name.toList) :
    (Text.lower text).toList <:+: (Text.lower name).toList := by
  obtain ⟨before, after, around⟩ := inside
  exact lower_infix_of_keepsForms (settled.keepsForms before after) around.symm

theorem mem_filter_of_lower_infix {text : String} {entries : List Suggestion} {s : Suggestion}
    (member : s ∈ entries) (inside : (Text.lower text).toList <:+: (Text.lower s.name).toList) :
    s ∈ filter text entries :=
  List.mem_filter.mpr ⟨member, Text.occursIn_iff.mpr inside⟩

def named (name : String) : Suggestion := ⟨"", name, "", 0⟩

/-- A text that some sigma in it does not settle is missed in some name that contains it. -/
theorem exists_missed_of_not_settled {text : String} (loose : ¬ Settled text.toList) :
    ∃ name : String, text.toList <:+: name.toList ∧ filter text [named name] = [] ∧
      filter name [named name] = [named name] := by
  obtain ⟨before, after, lost⟩ := Text.exists_lost_of_not_settled loose
  refine ⟨String.ofList (before ++ text.toList ++ after), ?_, ?_, ?_⟩
  · rw [String.toList_ofList]
    exact ⟨before, after, rfl⟩
  · refine List.filter_eq_nil_iff.mpr fun s member found => lost ?_
    rw [List.mem_singleton.mp member, nameContains, Text.occursIn_iff, named, Text.lower,
      Text.lower, String.toList_ofList, String.toList_ofList, String.toList_ofList] at found
    exact found
  · exact List.filter_eq_self.mpr fun s member => by
      rw [List.mem_singleton.mp member]
      exact Text.occursIn_iff.mpr (List.infix_refl _)

/-- An entry whose name contains the text is kept, and nothing that matches a longer text is lost,
wherever the capital sigmas of the text have the form they have in it alone. That is so in every
name exactly for the texts whose own characters settle this form, in particular for all texts
without a capital sigma. -/
theorem literal_match_kept (text : String) :
    (∀ before after, KeepsForms before text.toList after →
      (∀ entries s, s ∈ entries → s.name.toList = before ++ text.toList ++ after →
        s ∈ filter text entries) ∧
      (∀ longer entries, longer.toList = before ++ text.toList ++ after →
        filter longer (filter text entries) = filter longer entries)) ∧
    ((∀ entries s, s ∈ entries → text.toList <:+: s.name.toList → s ∈ filter text entries) ↔
      Settled text.toList) ∧
    ((∀ longer entries, text.toList <:+: longer.toList →
        filter longer (filter text entries) = filter longer entries) ↔ Settled text.toList) ∧
    ('Σ' ∉ text.toList → Settled text.toList) := by
  refine ⟨?_, ?_, ?_, Text.settled_of_no_sigma⟩
  · intro before after keeps
    constructor
    · intro entries s member inside
      exact mem_filter_of_lower_infix member (lower_infix_of_keepsForms keeps inside)
    · intro longer entries inside
      exact filter_filter_of_infix (lower_infix_of_keepsForms keeps inside) entries
  · constructor
    · intro kept
      by_contra loose
      obtain ⟨name, inside, missed, _⟩ := exists_missed_of_not_settled loose
      have found := kept [named name] (named name) List.mem_cons_self inside
      rw [missed] at found
      cases found
    · intro settled entries s member inside
      exact mem_filter_of_lower_infix member (lower_infix_of_settled settled inside)
  · constructor
    · intro same
      by_contra loose
      obtain ⟨name, inside, missed, itself⟩ := exists_missed_of_not_settled loose
      have lost := same name [named name] inside
      rw [missed, itself] at lost
      cases lost
    · intro settled longer entries inside
      exact filter_filter_of_infix (lower_infix_of_settled settled inside) entries

theorem salary_missed :
    let salary : Suggestion := ⟨"m", "ΜΙΣΘΟΣ", "finance", 1200⟩
    "ΜΙΣ".toList <:+: salary.name.toList ∧ filter "ΜΙΣ" [salary] = [] ∧
      filter "ΜΙΣΘ" [salary] = [salary] ∧ filter "ΜΙΣΘ" (filter "ΜΙΣ" [salary]) = [] := by
  decide +kernel

end Suggestion

end TagFormula
