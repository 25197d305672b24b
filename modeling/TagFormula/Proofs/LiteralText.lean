import TagFormula.Number.Literal
import TagFormula.Proofs.WrittenNumber

/-!
The texts that are literals. Without the sign in front, a literal is a mantissa, digits with a point
or without one, and perhaps a power of ten; of the other characters only the sign of the power is
none of digits, point and `e`. Whatever JSON reads to the end as a number is a literal of the same
number, so every finite number that is written in some style is read back.
-/
namespace TagFormula

namespace Text

theorem trimmed_between {as cs bs : List Char} (left : ∀ c ∈ as, isBlank c = true)
    (inked : ∀ c ∈ cs, isBlank c = false) (right : ∀ c ∈ bs, isBlank c = true) :
    trimmed (as ++ cs ++ bs) = cs := by
  have front : (as ++ cs ++ bs).dropWhile isBlank = (cs ++ bs).dropWhile isBlank := by
    rw [List.append_assoc, List.dropWhile_append_of_pos left]
  cases cs with
  | nil =>
    have nothing := List.dropWhile_eq_nil_iff.mpr right
    rw [trimmed, front, List.nil_append, nothing]
    rfl
  | cons c cs =>
    have stays : (c :: cs ++ bs).dropWhile isBlank = c :: cs ++ bs :=
      dropWhile_isBlank_of_head? fun d first => by
        cases first
        exact inked c List.mem_cons_self
    have ends : (c :: cs).reverse.dropWhile isBlank = (c :: cs).reverse :=
      dropWhile_isBlank_of_head? fun d first =>
        inked d (List.mem_reverse.mp (List.mem_of_mem_head? first))
    rw [trimmed, front, stays, List.reverse_append,
      List.dropWhile_append_of_pos fun d member => right d (List.mem_reverse.mp member), ends,
      List.reverse_reverse]

theorem trimmed_of_inked {cs : List Char} (inked : ∀ c ∈ cs, isBlank c = false) :
    trimmed cs = cs := by
  have between := trimmed_between (List.forall_mem_nil _) inked (List.forall_mem_nil _)
  rwa [List.nil_append, List.append_nil] at between

theorem trim_eq_self {text : String} (inked : ∀ c ∈ text.toList, isBlank c = false) :
    trim text = text := by
  rw [trim, trimmed_of_inked inked, String.ofList_toList]

end Text

namespace Number.Literal

/-! ## The parts of a literal -/

def isSign (c : Char) : Bool := c = '+' ∨ c = '-'

def isPart (c : Char) : Bool := isDigit c || c = '.' || c = 'e' || c = 'E'

inductive Mantissa : List Char → List Char → List Char → Prop
  | plain {ds : List Char} (digits : ∀ c ∈ ds, isDigit c = true) (some : ds ≠ []) :
    Mantissa ds ds []
  | pointed {ds fs : List Char} (digits : ∀ c ∈ ds ++ fs, isDigit c = true) (some : ds ++ fs ≠ []) :
    Mantissa (ds ++ '.' :: fs) ds fs

structure IsPower (letter : Char) (sign ds : List Char) : Prop where
  letter : letter = 'e' ∨ letter = 'E'
  sign : sign = [] ∨ ∃ c, sign = [c] ∧ isSign c = true
  digits : ∀ c ∈ ds, isDigit c = true
  some : ds ≠ []

theorem takeSign_cases (cs : List Char) :
    takeSign cs = (false, cs) ∧ (∀ c ∈ cs.head?, isSign c = false) ∨
      ∃ c rest, cs = c :: rest ∧ isSign c = true ∧ takeSign cs = (decide (c = '-'), rest) := by
  unfold takeSign
  split
  · exact .inr ⟨_, _, rfl, rfl, rfl⟩
  · exact .inr ⟨_, _, rfl, rfl, rfl⟩
  · next minus plus =>
    refine .inl ⟨rfl, fun c first => ?_⟩
    cases cs with
    | nil => cases first
    | cons d rest =>
      cases first
      refine decide_eq_false fun sign => ?_
      rcases sign with rfl | rfl
      · exact plus rest rfl
      · exact minus rest rfl

theorem takeSign_of_unsigned {cs : List Char} (unsigned : ∀ c ∈ cs.head?, isSign c = false) :
    takeSign cs = (false, cs) := by
  rcases takeSign_cases cs with ⟨taken, _⟩ | ⟨c, rest, rfl, sign, _⟩
  · exact taken
  · exact (Bool.false_ne_true ((unsigned c rfl).symm.trans sign)).elim

theorem isSign_of_isPart {c : Char} (part : isPart c = true) : isSign c = false := by
  refine decide_eq_false fun sign => ?_
  rcases sign with rfl | rfl
  · cases part
  · cases part

theorem span_spec (cs : List Char) :
    ∃ ds rest, cs.span isDigit = (ds, rest) ∧ cs = ds ++ rest ∧ (∀ c ∈ ds, isDigit c = true) ∧
      ∀ c ∈ rest.head?, isDigit c = false := by
  refine ⟨cs.takeWhile isDigit, cs.dropWhile isDigit, List.span_eq_takeWhile_dropWhile _ _,
    List.takeWhile_append_dropWhile.symm, fun c member => ?_, fun c first => ?_⟩
  · exact List.all_eq_true.mp List.all_takeWhile c member
  · have kept := List.head?_dropWhile_not isDigit cs
    rw [Option.mem_def.mp first] at kept
    simpa using kept

theorem exponent?_eq_some {cs : List Char} {e : Int} (read : exponent? cs = some e) :
    cs = [] ∨ ∃ c sign ds, cs = c :: (sign ++ ds) ∧ IsPower c sign ds := by
  cases cs with
  | nil => exact .inl rfl
  | cons c rest =>
    refine .inr ?_
    rw [exponent?] at read
    split at read
    · next letter =>
      have shape (digits : List Char) (neg : Bool) (taken : takeSign rest = (neg, digits)) :
          digits ≠ [] ∧ ∀ d ∈ digits, isDigit d = true := by
        rw [taken] at read
        simp only at read
        split at read
        · cases read
        · next full => simpa using full
      rcases takeSign_cases rest with ⟨taken, _⟩ | ⟨s, ds, rfl, sign, taken⟩
      · obtain ⟨some, digits⟩ := shape _ _ taken
        exact ⟨c, [], rest, rfl, letter, .inl rfl, digits, some⟩
      · obtain ⟨some, digits⟩ := shape _ _ taken
        exact ⟨c, [s], ds, rfl, letter, .inr ⟨s, rfl, sign⟩, digits, some⟩
    · cases read

def Stops (cs : List Char) : Prop := ∀ c ∈ cs.head?, isDigit c = false ∧ c ≠ '.'

theorem stops_of_letter {c : Char} (rest : List Char) (letter : c = 'e' ∨ c = 'E') :
    Stops (c :: rest) := by
  intro d first
  cases first
  rcases letter with rfl | rfl
  · decide
  · decide

theorem stops_of_exponent? {cs : List Char} {e : Int} (read : exponent? cs = some e) :
    Stops cs := by
  rcases exponent?_eq_some read with rfl | ⟨c, sign, ds, rfl, power⟩
  · exact fun c first => absurd first (Option.not_mem_none c)
  · exact stops_of_letter _ power.letter

theorem Mantissa.parts {text ds fs : List Char} (h : Mantissa text ds fs) :
    ∀ c ∈ text, isPart c = true := by
  intro c member
  cases h with
  | plain digits some => simp [isPart, digits c member]
  | pointed digits some =>
    rcases List.mem_append.mp member with whole | rest
    · simp [isPart, digits c (List.mem_append_left _ whole)]
    · rcases List.mem_cons.mp rest with rfl | fraction
      · rfl
      · simp [isPart, digits c (List.mem_append_right _ fraction)]

theorem Mantissa.ne_nil {text ds fs : List Char} (h : Mantissa text ds fs) : text ≠ [] := by
  cases h with
  | plain digits some => exact some
  | pointed digits some => simp

theorem Mantissa.unsigned {text ds fs : List Char} (h : Mantissa text ds fs) (rest : List Char) :
    ∀ c ∈ (text ++ rest).head?, isSign c = false := by
  intro c first
  rw [List.head?_append_of_ne_nil _ h.ne_nil] at first
  exact isSign_of_isPart (h.parts c (List.mem_of_mem_head? first))

theorem decimal?_mantissa {text ds fs rest : List Char} (h : Mantissa text ds fs)
    (stops : Stops rest) :
    decimal? (text ++ rest) =
      (exponent? rest).map fun e => ⟨false, ofDigits (ds ++ fs), e - fs.length⟩ := by
  have taken := takeSign_of_unsigned (h.unsigned rest)
  have parts : ∃ after, (text ++ rest).span isDigit = (ds, after) ∧
      takeFraction after = (fs, rest) ∧ ds ++ fs ≠ [] := by
    cases h with
    | plain digits some =>
      refine ⟨rest, span_isDigit digits fun c first => (stops c first).1, ?_, by simpa using some⟩
      cases rest with
      | nil => rfl
      | cons c rest =>
        have noPoint := (stops c rfl).2
        unfold takeFraction
        split
        · next same =>
          cases same
          exact (noPoint rfl).elim
        · rfl
    | pointed digits some =>
      refine ⟨'.' :: (fs ++ rest), ?_, ?_, some⟩
      · rw [List.append_assoc, List.cons_append]
        refine span_isDigit (fun c member => digits c (List.mem_append_left _ member)) ?_
        intro c first
        cases first
        rfl
      · exact span_isDigit (fun c member => digits c (List.mem_append_right _ member))
          fun c first => (stops c first).1
  obtain ⟨after, whole, fraction, some⟩ := parts
  rw [decimal?, taken]
  simp only [whole, fraction]
  rw [if_neg]
  simpa using some

theorem exists_mantissa {cs : List Char} {d : Decimal} (read : decimal? cs = some d) :
    ∃ text ds fs rest e, (takeSign cs).2 = text ++ rest ∧ Mantissa text ds fs ∧
      exponent? rest = some e := by
  unfold decimal? at read
  generalize takeSign cs = signed at read ⊢
  obtain ⟨negative, body⟩ := signed
  obtain ⟨ds, after, whole, rfl, digits, _⟩ := span_spec body
  simp only [whole] at read
  by_cases point : ∃ rest, after = '.' :: rest
  · obtain ⟨rest, rfl⟩ := point
    obtain ⟨fs, rest, fraction, rfl, more, _⟩ := span_spec rest
    simp only [takeFraction, fraction] at read
    split at read
    · cases read
    · next full =>
      obtain ⟨e, power, _⟩ := Option.map_eq_some_iff.mp read
      refine ⟨ds ++ '.' :: fs, ds, fs, rest, e, by simp, .pointed ?_ (by simpa using full), power⟩
      exact fun c member => (List.mem_append.mp member).elim (digits c) (more c)
  · have plain : takeFraction after = ([], after) := by
      unfold takeFraction
      split
      · exact (point ⟨_, rfl⟩).elim
      · rfl
    simp only [plain] at read
    split at read
    · cases read
    · next full =>
      obtain ⟨e, power, _⟩ := Option.map_eq_some_iff.mp read
      exact ⟨ds, ds, [], after, e, rfl, .plain digits (by simpa using full), power⟩

/-! ## Signs -/

/-- After the sign in front a literal has none, or it has one in its power of ten, between two texts
without signs of which the first is no literal. -/
theorem sign_cases {cs : List Char} {d : Decimal} (read : decimal? cs = some d) :
    (∀ c ∈ (takeSign cs).2, isPart c = true) ∨
      ∃ before s after, (takeSign cs).2 = before ++ s :: after ∧ isSign s = true ∧
        (∀ c ∈ before ++ after, isPart c = true) ∧ before ≠ [] ∧ after ≠ [] ∧
        decimal? before = none := by
  obtain ⟨text, ds, fs, rest, e, body, mantissa, power⟩ := exists_mantissa read
  rw [body]
  rcases exponent?_eq_some power with rfl | ⟨c, sign, es, rfl, shape⟩
  · left
    rw [List.append_nil]
    exact mantissa.parts
  · have letter : isPart c = true := by rcases shape.letter with rfl | rfl <;> rfl
    have digit : ∀ b ∈ es, isPart b = true := by
      intro b member
      simp [isPart, shape.digits b member]
    have parts : ∀ b ∈ text ++ [c] ++ es, isPart b = true := by
      intro b member
      rcases List.mem_append.mp member with front | digits
      · rcases List.mem_append.mp front with inside | last
        · exact mantissa.parts b inside
        · exact List.mem_singleton.mp last ▸ letter
      · exact digit b digits
    rcases shape.sign with rfl | ⟨s, rfl, sign⟩
    · left
      rwa [List.append_assoc] at parts
    · refine .inr ⟨text ++ [c], s, es, by simp, sign, parts, by simp, shape.some, ?_⟩
      rw [decimal?_mantissa mantissa (stops_of_letter [] shape.letter), exponent?,
        if_pos shape.letter]
      rfl

theorem isBlank_of_isPart {c : Char} (part : isPart c = true) : Text.isBlank c = false := by
  simp only [isPart, Bool.or_eq_true, decide_eq_true_eq] at part
  rcases part with ((digit | rfl) | rfl) | rfl
  · have bounds : 48 ≤ c.toNat ∧ c.toNat ≤ 57 := of_decide_eq_true digit
    simp only [Text.isBlank, Bool.or_eq_false_iff, Bool.and_eq_false_iff, decide_eq_false_iff_not,
      beq_eq_false_iff_ne]
    omega
  · rfl
  · rfl
  · rfl

theorem isBlank_of_isSign {c : Char} (sign : isSign c = true) : Text.isBlank c = false := by
  rcases of_decide_eq_true sign with rfl | rfl <;> rfl

theorem isBlank_of_literal {cs : List Char} {d : Decimal} (read : decimal? cs = some d) :
    ∀ c ∈ cs, Text.isBlank c = false := by
  have body : ∀ c ∈ (takeSign cs).2, Text.isBlank c = false := by
    rcases sign_cases read with parts | ⟨before, s, after, shape, sign, parts, _⟩
    · exact fun c member => isBlank_of_isPart (parts c member)
    · intro c member
      rw [shape] at member
      rcases List.mem_append.mp member with front | back
      · exact isBlank_of_isPart (parts c (List.mem_append_left _ front))
      · rcases List.mem_cons.mp back with rfl | digits
        · exact isBlank_of_isSign sign
        · exact isBlank_of_isPart (parts c (List.mem_append_right _ digits))
  rcases takeSign_cases cs with ⟨taken, _⟩ | ⟨s, rest, rfl, sign, taken⟩
  · rwa [taken] at body
  · rw [taken] at body
    exact List.forall_mem_cons.mpr ⟨isBlank_of_isSign sign, body⟩

end Number.Literal

/-! ## What JSON reads as a number -/

namespace Json

open Number.Literal

theorem exponent?_of_takePower? {cs : List Char} {p : Int} (read : takePower? cs = some (p, [])) :
    exponent? cs = some p := by
  cases cs with
  | nil =>
    cases read
    rfl
  | cons c rest =>
    rw [takePower?] at read
    rw [exponent?]
    split at read
    · next letter =>
      rw [if_pos letter]
      generalize takeSign rest = signed at read ⊢
      obtain ⟨negative, digits⟩ := signed
      obtain ⟨ds, after, span, rfl, all, _⟩ := span_spec digits
      simp only [span] at read ⊢
      split at read
      · cases read
      · next full =>
        simp only [Option.some.injEq, Prod.mk.injEq] at read
        obtain ⟨rfl, rfl⟩ := read
        have digit : ds.all isDigit = true := List.all_eq_true.mpr all
        simp only [List.append_nil, digit]
        rw [if_neg (by simpa using full)]
    · cases read

theorem takeFraction_of_takeFraction? {cs fs rest : List Char}
    (read : takeFraction? cs = some (fs, rest)) :
    takeFraction cs = (fs, rest) ∧ (Stops rest → ∀ c ∈ cs.head?, isDigit c = false) := by
  unfold takeFraction? at read
  split at read
  · next after =>
    obtain ⟨ds, rest, span, rfl, _⟩ := span_spec after
    simp only [span] at read
    split at read
    · cases read
    · cases read
      refine ⟨span, fun _ c first => ?_⟩
      cases first
      rfl
  · next other =>
    cases read
    constructor
    · unfold takeFraction
      split
      · exact (other _ rfl).elim
      · rfl
    · exact fun stops c first => (stops c first).1

theorem span_of_takeWhole? {cs ds rest : List Char} (read : takeWhole? cs = some (ds, rest))
    (stop : ∀ c ∈ rest.head?, isDigit c = false) : cs.span isDigit = (ds, rest) ∧ ds ≠ [] := by
  unfold takeWhole? at read
  split at read
  · cases read
    exact ⟨span_isDigit isWhole_zero.digits stop, List.cons_ne_nil _ _⟩
  · obtain ⟨ds, rest, span, rfl, _⟩ := span_spec cs
    simp only [span] at read
    split at read
    · cases read
    · next full =>
      cases read
      exact ⟨span, by simpa using full⟩

theorem takeNumber?_parts {cs rest : List Char} {d : Number.Decimal}
    (read : takeNumber? cs = some (d, rest)) :
    ∃ text whole after fraction last power,
      (cs = '-' :: text ∧ d.negative = true ∨
        cs = text ∧ d.negative = false ∧ ∀ c ∈ cs.head?, isSign c = false) ∧
      takeWhole? text = some (whole, after) ∧ takeFraction? after = some (fraction, last) ∧
      takePower? last = some (power, rest) ∧
      d = ⟨d.negative, ofDigits (whole ++ fraction), power - fraction.length⟩ := by
  unfold takeNumber? at read
  split at read
  next negative text shape =>
  simp only [Option.bind_eq_bind, Option.bind_eq_some_iff] at read
  obtain ⟨⟨whole, after⟩, first, ⟨fraction, last⟩, second, ⟨power, _⟩, third, same⟩ := read
  cases same
  refine ⟨text, whole, after, fraction, last, power, ?_, first, second, third, rfl⟩
  split at shape
  · cases shape
    exact .inl ⟨rfl, rfl⟩
  · next minus =>
    cases shape
    refine .inr ⟨rfl, rfl, fun c head => decide_eq_false fun sign => ?_⟩
    obtain ⟨cs, rfl⟩ := List.head?_eq_some_iff.mp head
    rcases sign with rfl | rfl
    · cases first
    · exact minus cs rfl

theorem decimal?_of_takeNumber? {cs : List Char} {d : Number.Decimal}
    (read : takeNumber? cs = some (d, [])) : decimal? cs = some d := by
  obtain ⟨text, whole, after, fraction, last, power, front, first, second, third, value⟩ :=
    takeNumber?_parts read
  have sign : takeSign cs = (d.negative, text) := by
    rcases front with ⟨rfl, negative⟩ | ⟨rfl, positive, unsigned⟩
    · rw [negative]
      rfl
    · rw [positive, takeSign_of_unsigned unsigned]
  have exponent := exponent?_of_takePower? third
  obtain ⟨fractional, stop⟩ := takeFraction_of_takeFraction? second
  obtain ⟨digits, some⟩ := span_of_takeWhole? first (stop (stops_of_exponent? exponent))
  rw [decimal?, sign]
  simp only [digits, fractional, exponent, Option.map_some]
  rw [if_neg (by simp [some]), ← value]

theorem unsigned_of_takeNumber? {cs rest : List Char} {d : Number.Decimal}
    (read : takeNumber? cs = some (d, rest)) (positive : d.negative = false) :
    ∀ c ∈ cs.head?, isSign c = false := by
  obtain ⟨_, _, _, _, _, _, ⟨_, negative⟩ | ⟨_, _, unsigned⟩, _⟩ := takeNumber?_parts read
  · exact (Bool.false_ne_true (positive.symm.trans negative)).elim
  · exact unsigned

end Json

namespace Number

open Literal

theorem read?_of_decimal? {text : String} {d : Decimal} (read : decimal? text.toList = some d) :
    read? text = d.toFloat? := by
  rw [read?, Text.trimmed_of_inked (isBlank_of_literal read), read]
  rfl

theorem exists_literal_write (s : Style) {v : Float} (finite : v.isFinite = true) :
    ∃ d, decimal? (s.write v).toList = some d ∧ d.toFloat? = some v := by
  obtain ⟨d, taken, value⟩ := Json.takeNumber?_write s finite Json.ends_nil
  rw [List.append_nil] at taken
  exact ⟨d, Json.decimal?_of_takeNumber? taken, value⟩

theorem read?_write (s : Style) {v : Float} (finite : v.isFinite = true) :
    read? (s.write v) = some v := by
  obtain ⟨d, literal, value⟩ := exists_literal_write s finite
  rw [read?_of_decimal? literal, value]

theorem unsigned_write (s : Style) {v : Float} (finite : v.isFinite = true)
    (positive : Binary64.isNegative v = false) :
    ∀ c ∈ (s.write v).toList.head?, isSign c = false := by
  obtain ⟨digits, exponent, spells, _⟩ :=
    Json.spells_writeMagnitude s (Binary64.magnitude_lt_infinity finite)
  have read := spells false [] Json.ends_nil
  rw [List.append_nil] at read
  have text : (s.write v).toList = s.writeMagnitude (Binary64.magnitude v) := by
    rw [Style.write, Binary64.isNaN_of_isFinite finite, finite, positive]
    exact String.toList_ofList
  rw [text]
  exact Json.unsigned_of_takeNumber? read rfl

theorem isFinite_of_read? {text : String} {v : Float} (read : read? text = some v) :
    v.isFinite = true := by
  obtain ⟨d, _, value⟩ := Option.bind_eq_some_iff.mp read
  exact ((d.toFloat?_eq_some_iff v).mp value).finite

theorem display_of_ne_zero {v : Float} (finite : v.isFinite = true) (nonzero : (v == 0) = false) :
    display v = Style.result.write v := by
  rw [display, Binary64.isNaN_of_isFinite finite, Binary64.isInf_of_isFinite finite, nonzero]
  rfl

theorem display_of_pos {v : Float} (positive : 0 < v) (finite : v.isFinite = true) :
    display v = Style.result.write v :=
  display_of_ne_zero finite (Binary64.beq_zero_of_pos positive finite)

end Number

end TagFormula
