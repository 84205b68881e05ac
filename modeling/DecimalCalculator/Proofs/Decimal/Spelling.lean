import Mathlib.Data.List.TakeWhile
import DecimalCalculator.Decimal.Literal
import DecimalCalculator.Proofs.Decimal.Integral

/-!
Which texts are decimal literals, and what they denote.

* `digitsValue_eq_spelledNumber`: the number of a text of digits in positional notation.
* `Spelling`: the parts of a literal, with the text that they make, its integer of all digits, and
  its scale. `Spelling.IsGrammatical`, `Spelling.InRange`: what the grammar and the machine integers
  ask of them.
* `Spelling.IsGrammatical.decimal_eq`: **a text spells one decimal** at most, in range or not.
* `Decimal.ofText?_of_grammatical`: what a grammatical text is read as.
* `Decimal.ofText?_eq_some_iff_spelling`: **literals** are exactly the grammatical texts in range,
  and denote what they spell.
-/

namespace DecimalCalculator

/-! ### Digits -/

/-- A text of digits. -/
def AllDigits (t : Text) : Prop := ∀ c ∈ t, c.isDigit = true

/-- Digits of two texts. -/
lemma allDigits_append {a b : Text} (ha : AllDigits a) (hb : AllDigits b) : AllDigits (a ++ b) :=
  fun c hc => (List.mem_append.mp hc).elim (ha c) (hb c)

/-- A digit is no sign and no point. -/
lemma ne_of_isDigit {c d : Char} (hc : c.isDigit = true) (hd : d.isDigit = false) : c ≠ d := by
  rintro rfl
  rw [hc] at hd
  exact absurd hd (by decide)

/-- The digit that a character writes. -/
def digitOf (c : Char) : ℕ := c.toNat - '0'.toNat

/-- The natural number that a text of digits spells, the last digit being the lowest. -/
def spelledNumber (t : Text) : ℕ := Nat.ofDigits 10 (t.reverse.map digitOf)

/-- One more digit at the end. -/
lemma digitsValue_append_one (t : Text) (c : Char) :
    digitsValue (t ++ [c]) = 10 * digitsValue t + digitOf c := by
  rw [digitsValue, List.foldl_append]
  rfl

/-- **The number of a text of digits**, read from the left, is the one in positional notation. -/
theorem digitsValue_eq_spelledNumber (t : Text) : digitsValue t = spelledNumber t := by
  induction t using List.reverseRecOn with
  | nil => rfl
  | append_singleton t c ih =>
    rw [digitsValue_append_one, ih, spelledNumber, spelledNumber, List.reverse_append,
      List.reverse_singleton, List.singleton_append, List.map_cons, Nat.ofDigits_cons, add_comm]

/-! ### Signs -/

/-- A sign, or none. -/
def IsSign (t : Text) : Prop := t = [] ∨ t = ['+'] ∨ t = ['-']

/-- The factor that a sign stands for. -/
def signFactor (sign : Text) : ℤ := if sign = ['-'] then -1 else 1

/-- Digits with a sign in front of them. -/
lemma signedValue_eq (sign digits : Text) :
    signedValue (decide (sign = ['-'])) digits = signFactor sign * spelledNumber digits := by
  rw [signedValue, signFactor, digitsValue_eq_spelledNumber]
  split_ifs with h h' h' <;> simp_all

/-- A text with its sign taken off. -/
lemma splitSign_spec (t : Text) :
    ∃ sign, IsSign sign ∧ t = sign ++ (splitSign t).2 ∧
      (splitSign t).1 = decide (sign = ['-']) := by
  unfold splitSign
  split
  · exact ⟨['-'], Or.inr (Or.inr rfl), rfl, rfl⟩
  · exact ⟨['+'], Or.inr (Or.inl rfl), rfl, rfl⟩
  · exact ⟨[], Or.inl rfl, rfl, rfl⟩

/-- A text without a sign in front is read as it is. -/
lemma splitSign_of_unsigned {t : Text} (hminus : t.head? ≠ some '-') (hplus : t.head? ≠ some '+') :
    splitSign t = (false, t) := by
  unfold splitSign
  split
  · simp at hminus
  · simp at hplus
  · rfl

/-- The sign in front of a text that does not begin with one is the one that is taken off. -/
lemma splitSign_append {sign t : Text} (hsign : IsSign sign) (hminus : t.head? ≠ some '-')
    (hplus : t.head? ≠ some '+') : splitSign (sign ++ t) = (decide (sign = ['-']), t) := by
  rcases hsign with rfl | rfl | rfl
  · rw [List.nil_append, splitSign_of_unsigned hminus hplus]
    rfl
  · rfl
  · rfl

/-- A text is divided in one way only into a sign and what begins with none. -/
lemma signFactor_eq_of_append_eq {sign sign' t t' : Text} (hsign : IsSign sign) (hsign' : IsSign sign')
    (hrest : ∀ c, isNumeral c = false → t.head? ≠ some c)
    (hother : ∀ c, isNumeral c = false → t'.head? ≠ some c) (h : sign ++ t = sign' ++ t') :
    signFactor sign = signFactor sign' ∧ t = t' := by
  have hsplit : splitSign (sign ++ t) = splitSign (sign' ++ t') := congrArg splitSign h
  rw [splitSign_append hsign (hrest '-' (by decide)) (hrest '+' (by decide)),
    splitSign_append hsign' (hother '-' (by decide)) (hother '+' (by decide)), Prod.mk.injEq,
    decide_eq_decide] at hsplit
  rw [signFactor, signFactor]
  simp only [hsplit.1, hsplit.2, and_true]

/-! ### Cuts -/

/-- Where a text is cut. -/
lemma cutAt_cases (p : Char → Bool) (t : Text) :
    cutAt p t = (t, none) ∨
      ∃ a c b, t = a ++ c :: b ∧ p c = true ∧ cutAt p t = (a, some b) := by
  rw [cutAt]
  have hparts := List.takeWhile_append_dropWhile (p := fun c => !p c) (l := t)
  cases hrest : t.dropWhile fun c => !p c with
  | nil =>
    left
    rw [hrest, List.append_nil] at hparts
    rw [hparts]
  | cons c b =>
    right
    have hc : ¬ (!p c) = true := by
      have := List.head_dropWhile_not (fun c => !p c) (l := t) (by simp [hrest])
      simpa [hrest] using this
    rw [hrest] at hparts
    exact ⟨_, c, b, hparts.symm, by simpa using hc, rfl⟩

/-- A text without a character of the property is not cut. -/
lemma cutAt_of_forall_not {p : Char → Bool} {t : Text} (h : ∀ c ∈ t, p c = false) :
    cutAt p t = (t, none) := by
  have hall : ∀ c ∈ t, (!p c) = true := fun c hc => by rw [h c hc]; rfl
  rw [cutAt, List.takeWhile_eq_self_iff.mpr hall, List.dropWhile_eq_nil_iff.mpr hall]

/-- A text is cut at the first character with the property. -/
lemma cutAt_append_cons {p : Char → Bool} {a b : Text} {c : Char} (ha : ∀ d ∈ a, p d = false)
    (hc : p c = true) : cutAt p (a ++ c :: b) = (a, some b) := by
  have hall : ∀ d ∈ a, (!p d) = true := fun d hd => by rw [ha d hd]; rfl
  rw [cutAt, List.takeWhile_append_of_pos hall, List.dropWhile_append_of_pos hall]
  simp [hc]

/-! ### The parts of a literal -/

/-- The exponent of a literal: its mark, its sign and its digits. -/
structure WrittenExponent where
  mark : Char
  sign : Text
  digits : Text

/-- The parts of a literal: a sign, the digits before the point, those behind it if there is a
point, and an exponent if there is one. -/
structure Spelling where
  sign : Text
  whole : Text
  fraction : Option Text
  exponent : Option WrittenExponent

namespace WrittenExponent

/-- The text of an exponent. -/
def text (e : WrittenExponent) : Text := e.mark :: (e.sign ++ e.digits)

/-- The integer that an exponent spells. -/
def value (e : WrittenExponent) : ℤ := signFactor e.sign * spelledNumber e.digits

/-- The grammar of exponents: a letter `e`, a sign or none, and at least one digit. -/
structure IsGrammatical (e : WrittenExponent) : Prop where
  mark : e.mark = 'e' ∨ e.mark = 'E'
  sign : IsSign e.sign
  digits_ne_nil : e.digits ≠ []
  digits : AllDigits e.digits

end WrittenExponent

namespace Spelling

variable (p : Spelling)

/-- The digits behind the point. -/
def places : Text := p.fraction.getD []

/-- The digits on both sides of the point. -/
def digits : Text := p.whole ++ p.places

/-- The digits with the point. -/
def number : Text :=
  match p.fraction with
  | none => p.whole
  | some f => p.whole ++ '.' :: f

/-- The text of the exponent. -/
def exponentText : Text :=
  match p.exponent with
  | none => []
  | some e => e.text

/-- The text of a literal. -/
def text : Text := p.sign ++ (p.number ++ p.exponentText)

/-- The exponent, which is zero if none is written. -/
def exponentValue : ℤ :=
  match p.exponent with
  | none => 0
  | some e => e.value

/-- The integer that all the digits spell, with the sign. -/
def mantissa : ℤ := signFactor p.sign * spelledNumber p.digits

/-- The number of digits behind the point, less the exponent. -/
def scale : ℤ := p.places.length - p.exponentValue

/-- The grammar of literals: `[+-]? (digits [. digits?]? | . digits) ([eE] [+-]? digits)?`. -/
structure IsGrammatical : Prop where
  sign : IsSign p.sign
  whole : AllDigits p.whole
  places : AllDigits p.places
  digits_ne_nil : p.digits ≠ []
  exponent : ∀ e, p.exponent = some e → e.IsGrammatical

/-- What machine integers can hold: the exponent and the scale have 64 bits, and the scale is at
most the largest integer of 32 bits in size. -/
structure InRange : Prop where
  exponent : Decimal.isInt64 p.exponentValue = true
  scale : Decimal.isInt64 p.scale = true
  limit : |p.scale| ≤ 2 ^ 31 - 1

/-- The decimal that the parts spell. -/
def decimal : Decimal := ⟨p.mantissa, p.scale⟩

/-- The number that the parts spell. -/
lemma toRat_decimal :
    p.decimal.toRat =
      signFactor p.sign * spelledNumber p.digits * 10 ^ (p.exponentValue - p.places.length) := by
  rw [Decimal.toRat, decimal, mantissa, scale, neg_sub]
  push_cast
  rfl

end Spelling

/-! ### Reading -/

namespace Decimal

/-- A written exponent of 64 bits is read as the integer that it spells. -/
lemma exponent?_eq_some_iff {t : Text} {n : ℤ} :
    exponent? t = some n ↔
      ∃ sign digits, t = sign ++ digits ∧ IsSign sign ∧ digits ≠ [] ∧ AllDigits digits ∧
        n = signFactor sign * spelledNumber digits ∧ isInt64 n = true := by
  constructor
  · intro h
    obtain ⟨sign, hsign, ht, hnegative⟩ := splitSign_spec t
    unfold exponent? at h
    simp only [hnegative, signedValue_eq] at h
    split at h
    · exact absurd h (by simp)
    · next hdigits =>
      obtain ⟨hne, hall⟩ : (splitSign t).2 ≠ [] ∧ AllDigits (splitSign t).2 := by
        simpa [AllDigits] using hdigits
      split at h
      · next hrange =>
        obtain rfl := Option.some.inj h
        refine ⟨sign, _, ht, hsign, hne, hall, rfl, ?_⟩
        rw [isInt64]
        simpa using hrange
      · exact absurd h (by simp)
  · rintro ⟨sign, digits, rfl, hsign, hne, hall, rfl, hrange⟩
    have hhead : ∀ c : Char, c.isDigit = false → digits.head? ≠ some c := by
      intro c hc hhead
      have := hall c (List.mem_of_mem_head? hhead)
      rw [hc] at this
      exact absurd this (by decide)
    unfold exponent?
    simp only [splitSign_append hsign (hhead '-' (by decide)) (hhead '+' (by decide)),
      signedValue_eq]
    rw [if_neg (by simpa [AllDigits, hne] using hall), if_pos (by simpa [isInt64] using hrange)]

end Decimal

namespace Spelling

variable {p : Spelling}

/-- No character of a grammatical number is the mark of an exponent. -/
lemma IsGrammatical.not_mark (h : p.IsGrammatical) :
    ∀ c ∈ p.number, (decide (c = 'e') || decide (c = 'E')) = false := by
  have hdigit : ∀ c : Char, c.isDigit = true → (decide (c = 'e') || decide (c = 'E')) = false := by
    intro c hc
    have he := ne_of_isDigit hc (show 'e'.isDigit = false by decide)
    have hE := ne_of_isDigit hc (show 'E'.isDigit = false by decide)
    simp [he, hE]
  intro c hc
  have hplaces := h.places
  rw [Spelling.places] at hplaces
  unfold number at hc
  split at hc
  · exact hdigit c (h.whole c hc)
  · next f hf =>
    rw [hf] at hplaces
    rcases List.mem_append.mp hc with hc | hc
    · exact hdigit c (h.whole c hc)
    · rcases List.mem_cons.mp hc with rfl | hc
      · decide
      · exact hdigit c (hplaces c hc)

/-- A grammatical number begins with a digit or the point. -/
lemma IsGrammatical.head?_number (h : p.IsGrammatical) {c : Char} (hc : isNumeral c = false) :
    (p.number ++ p.exponentText).head? ≠ some c := by
  have hnumeral : ∀ d : Char, d.isDigit = true → d ≠ c := by
    rintro d hd rfl
    simp [isNumeral, hd] at hc
  have hpoint : '.' ≠ c := by
    rintro rfl
    exact absurd hc (by decide)
  have hne := h.digits_ne_nil
  rw [Spelling.digits, Spelling.places] at hne
  unfold number
  cases hwhole : p.whole with
  | cons d rest =>
    have hd := hnumeral d (h.whole d (by rw [hwhole]; simp))
    split <;> simpa using hd
  | nil =>
    rw [hwhole, List.nil_append] at hne
    split
    · next hf =>
      rw [hf] at hne
      exact absurd rfl hne
    · simpa using hpoint

/-- Where a grammatical literal is cut at its exponent. -/
lemma IsGrammatical.cutAt_mark (h : p.IsGrammatical) :
    cutAt (fun c => c = 'e' || c = 'E') (p.number ++ p.exponentText) =
      (p.number, p.exponent.map fun e => e.sign ++ e.digits) := by
  unfold exponentText
  cases he : p.exponent with
  | none =>
    rw [List.append_nil]
    exact cutAt_of_forall_not h.not_mark
  | some e =>
    refine cutAt_append_cons h.not_mark ?_
    rcases (h.exponent e he).mark with hmark | hmark <;> simp [hmark]

/-- Where a grammatical number is cut at its point. -/
lemma IsGrammatical.cutAt_point (h : p.IsGrammatical) :
    cutAt (· = '.') p.number = (p.whole, p.fraction) := by
  have hwhole : ∀ c ∈ p.whole, decide (c = '.') = false := fun c hc =>
    decide_eq_false (ne_of_isDigit (h.whole c hc) (by decide))
  unfold number
  cases p.fraction with
  | none => exact cutAt_of_forall_not hwhole
  | some f => exact cutAt_append_cons hwhole rfl

/-- What stands behind the mark of an exponent determines it. -/
lemma exponentValue_eq_of_map_eq {q : Spelling} (hp : p.IsGrammatical) (hq : q.IsGrammatical)
    (h : (p.exponent.map fun e => e.sign ++ e.digits) =
      q.exponent.map fun e => e.sign ++ e.digits) : p.exponentValue = q.exponentValue := by
  have hhead : ∀ {r : Spelling}, r.IsGrammatical → ∀ e, r.exponent = some e →
      ∀ c, isNumeral c = false → e.digits.head? ≠ some c := by
    rintro r hr e he c hc hhead
    have := (hr.exponent e he).digits c (List.mem_of_mem_head? hhead)
    simp [isNumeral, this] at hc
  unfold exponentValue
  cases hep : p.exponent with
  | none =>
    rw [hep] at h
    rw [Option.map_eq_none_iff.mp h.symm]
  | some e =>
    rw [hep] at h
    obtain ⟨e', heq, hsame⟩ := Option.map_eq_some_iff.mp h.symm
    rw [heq]
    obtain ⟨hsign, hdigits⟩ := signFactor_eq_of_append_eq (hp.exponent e hep).sign
      (hq.exponent e' heq).sign (hhead hp e hep) (hhead hq e' heq) hsame.symm
    simp only [WrittenExponent.value, hsign, hdigits]

/-- **A text spells one decimal**: its parts are found by cutting it. -/
theorem IsGrammatical.decimal_eq {q : Spelling} (hp : p.IsGrammatical) (hq : q.IsGrammatical)
    (htext : p.text = q.text) : p.decimal = q.decimal := by
  obtain ⟨hsign, hrest⟩ := signFactor_eq_of_append_eq hp.sign hq.sign (fun _ => hp.head?_number)
    (fun _ => hq.head?_number) htext
  have hmark := hp.cutAt_mark
  rw [hrest, hq.cutAt_mark, Prod.mk.injEq] at hmark
  obtain ⟨hnumber, hexponent⟩ := hmark
  have hpoint := hp.cutAt_point
  rw [← hnumber, hq.cutAt_point, Prod.mk.injEq] at hpoint
  obtain ⟨hwhole, hfraction⟩ := hpoint
  rw [decimal, decimal, mantissa, mantissa, scale, scale, Spelling.digits, Spelling.digits,
    Spelling.places, Spelling.places, hsign, hwhole, hfraction,
    exponentValue_eq_of_map_eq hp hq hexponent.symm]

end Spelling

namespace Decimal

/-- The exponent of a literal, which is zero if none is written. -/
def optionalExponent? : Option Text → Option ℤ
  | none => some 0
  | some written => exponent? written

/-- The reading of a literal, from the two cuts of its text without the sign. -/
lemma ofText?_eq {t unsigned number whole : Text} {negative : Bool}
    {exponent fraction : Option Text}
    (hsign : splitSign t = (negative, unsigned))
    (hmark : cutAt (fun c => c = 'e' || c = 'E') unsigned = (number, exponent))
    (hpoint : cutAt (· = '.') number = (whole, fraction)) :
    ofText? t =
      if (whole.isEmpty && (fraction.getD []).isEmpty) || !whole.all Char.isDigit ||
          !(fraction.getD []).all Char.isDigit then none
      else (optionalExponent? exponent).bind fun e =>
        if scaleLimit < (((fraction.getD []).length - e).natAbs : ℤ) then none
        else some
          ⟨signedValue negative (whole ++ fraction.getD []), (fraction.getD []).length - e⟩ := by
  unfold ofText?
  simp only [hsign, hmark, hpoint]
  split
  · rfl
  · cases exponent <;> rfl

/-- The exponent of a grammatical literal is read if it has 64 bits. -/
lemma optionalExponent?_of_grammatical {p : Spelling} (h : p.IsGrammatical)
    (hrange : isInt64 p.exponentValue = true) :
    optionalExponent? (p.exponent.map fun e => e.sign ++ e.digits) = some p.exponentValue := by
  unfold Spelling.exponentValue at hrange ⊢
  cases he : p.exponent with
  | none => rfl
  | some e =>
    rw [he] at hrange
    have hgrammar := h.exponent e he
    exact exponent?_eq_some_iff.mpr
      ⟨e.sign, e.digits, rfl, hgrammar.sign, hgrammar.digits_ne_nil, hgrammar.digits, rfl, hrange⟩

/-- **A grammatical text in range** is read as what its parts spell. -/
theorem ofText?_of_grammatical {p : Spelling} (h : p.IsGrammatical) (hrange : p.InRange) :
    ofText? p.text = some p.decimal := by
  have hdigits : ¬ ((p.whole.isEmpty && p.places.isEmpty) || !p.whole.all Char.isDigit ||
      !p.places.all Char.isDigit) = true := by
    have hne := h.digits_ne_nil
    have hwhole := h.whole
    have hplaces := h.places
    rw [AllDigits] at hwhole hplaces
    rw [Spelling.digits, ne_eq, List.append_eq_nil_iff] at hne
    simpa using ⟨⟨fun hnil hnil' => hne ⟨hnil, hnil'⟩, hwhole⟩, hplaces⟩
  have hlimit : ¬ scaleLimit < (p.scale.natAbs : ℤ) := by
    have := hrange.limit
    rw [Int.abs_eq_natAbs] at this
    rw [scaleLimit]
    omega
  rw [Spelling.places] at hdigits
  rw [Spelling.scale, Spelling.places] at hlimit
  rw [Spelling.text, ofText?_eq (splitSign_append h.sign (h.head?_number (c := '-') (by decide))
    (h.head?_number (c := '+') (by decide))) h.cutAt_mark h.cutAt_point, if_neg hdigits,
    optionalExponent?_of_grammatical h hrange.exponent, Option.bind_some, if_neg hlimit,
    signedValue_eq]
  rfl

/-- A number is cut into what stands before its point and what stands behind it. -/
lemma exists_point (number : Text) :
    ∃ whole fraction, cutAt (· = '.') number = (whole, fraction) ∧
      number = match fraction with
        | none => whole
        | some f => whole ++ '.' :: f := by
  rcases cutAt_cases (· = '.') number with hcut | ⟨a, c, b, hab, hc, hcut⟩
  · exact ⟨number, none, hcut, rfl⟩
  · obtain rfl : c = '.' := by simpa using hc
    exact ⟨a, some b, hcut, hab⟩

/-- An exponent that is read, or is missing, is grammatical and has 64 bits. -/
lemma exists_written {unsigned : Text} {n : ℤ}
    (h : optionalExponent? (cutAt (fun c => c = 'e' || c = 'E') unsigned).2 = some n) :
    ∃ written : Option WrittenExponent, (∀ e, written = some e → e.IsGrammatical) ∧
      unsigned = (cutAt (fun c => c = 'e' || c = 'E') unsigned).1 ++
        (match written with
        | none => []
        | some e => e.text) ∧
      n = (match written with
        | none => 0
        | some e => e.value) ∧ isInt64 n = true := by
  rcases cutAt_cases (fun c => c = 'e' || c = 'E') unsigned with hcut | ⟨a, m, b, hab, hm, hcut⟩
  · rw [hcut] at h ⊢
    obtain rfl := Option.some.inj h
    exact ⟨none, by simp, by simp, rfl, by decide⟩
  · rw [hcut] at h ⊢
    obtain ⟨sign, digits, rfl, hsign, hne, hall, hvalue, hrange⟩ := exponent?_eq_some_iff.mp h
    refine ⟨some ⟨m, sign, digits⟩, ?_, hab, hvalue, hrange⟩
    rintro e he
    obtain rfl := Option.some.inj he
    exact ⟨by simpa using hm, hsign, hne, hall⟩

/-- **A text that is read** as a decimal is grammatical and in range. -/
theorem exists_spelling {t : Text} {x : Decimal} (h : ofText? t = some x) :
    ∃ p : Spelling, p.IsGrammatical ∧ p.InRange ∧ p.text = t := by
  obtain ⟨sign, hsign, ht, -⟩ := splitSign_spec t
  obtain ⟨whole, fraction, hcut, hnumber⟩ :=
    exists_point (cutAt (fun c => c = 'e' || c = 'E') (splitSign t).2).1
  rw [ofText?_eq Prod.mk.eta.symm Prod.mk.eta.symm hcut] at h
  split at h
  · exact absurd h (by simp)
  · next hdigits =>
    obtain ⟨n, hn, h⟩ := Option.bind_eq_some_iff.mp h
    obtain ⟨written, hwritten, hrest, hvalue, hrange⟩ := exists_written hn
    split at h
    · exact absurd h (by simp)
    · next hlimit =>
      rw [scaleLimit] at hlimit
      simp only [Bool.or_eq_true, Bool.and_eq_true, List.isEmpty_iff, Bool.not_eq_true', not_or,
        Bool.not_eq_false, List.all_eq_true, not_and_or] at hdigits
      obtain ⟨⟨hne, hwhole⟩, hplaces⟩ := hdigits
      refine ⟨⟨sign, whole, fraction, written⟩, ⟨hsign, hwhole, hplaces, ?_, hwritten⟩, ?_, ?_⟩
      · simpa [Spelling.digits, Spelling.places, or_iff_not_imp_left] using hne
      · have hscale : (fraction.getD []).length - n =
            (⟨sign, whole, fraction, written⟩ : Spelling).scale := by
          rw [hvalue]
          rfl
        rw [hscale] at hlimit
        refine ⟨?_, ?_, ?_⟩
        · rw [hvalue] at hrange
          exact hrange
        · rw [isInt64_iff]
          omega
        · rw [Int.abs_eq_natAbs]
          omega
      · conv_rhs => rw [ht, hrest, hnumber]
        rfl

/-- **Literals**: a text is read as a decimal if and only if it is grammatical, its exponent is a
64-bit integer, and its scale, the number of digits behind the point less the exponent, is at most
the largest integer of 32 bits in size, and then the decimal has that scale and the integer that all
the digits spell as its mantissa. So the number is that integer times a power of ten. -/
theorem ofText?_eq_some_iff_spelling (t : Text) (x : Decimal) :
    ofText? t = some x ↔
      ∃ p : Spelling, p.IsGrammatical ∧ p.InRange ∧ p.text = t ∧
        x.scale = p.places.length - p.exponentValue ∧
        x.mantissa = signFactor p.sign * spelledNumber p.digits ∧
        x.toRat = signFactor p.sign * spelledNumber p.digits *
          10 ^ (p.exponentValue - p.places.length) := by
  constructor
  · intro h
    obtain ⟨p, hgrammar, hrange, htext⟩ := exists_spelling h
    have hread := ofText?_of_grammatical hgrammar hrange
    rw [htext, h] at hread
    obtain rfl := Option.some.inj hread
    exact ⟨p, hgrammar, hrange, htext, rfl, rfl, p.toRat_decimal⟩
  · rintro ⟨p, hgrammar, hrange, rfl, hscale, hmantissa, -⟩
    rw [ofText?_of_grammatical hgrammar hrange]
    obtain ⟨m, s⟩ := x
    obtain rfl : s = p.scale := hscale
    obtain rfl : m = p.mantissa := hmantissa
    rfl

end Decimal

end DecimalCalculator
