import DecimalCalculator.Decimal.Rendering
import DecimalCalculator.Proofs.Decimal.Significant
import DecimalCalculator.Proofs.Decimal.Spelling

/-!
The written forms of a decimal, read back as literals.

* `length_digitsOf`, `spelledNumber_digitsOf`: the digits of a natural number, their count and the
  number that they spell.
* `Spelling.Spells`: a text that spells the number of a decimal, whether its scale is in range or not;
  `Spelling.Spells.equiv`: no text spells two numbers.
* `Decimal.trimFraction_spec`: zeros at the end of a fraction do not matter.
* `Decimal.plain_spells`: **the plain form** spells the number at any scale.
* `Decimal.plain_reads`, `Decimal.pointed_reads`: the plain form and **the forms with an exponent**
  are literals of the same number.
* `Decimal.renderings_read_back`: **all four forms** of a decimal are.
-/

namespace DecimalCalculator

/-! ### Digits of numbers -/

/-- The digits of a number are digits. -/
lemma allDigits_digitsOf (n : ℕ) : AllDigits (digitsOf n) := fun _ hc =>
  Nat.isDigit_of_mem_toDigits (by decide) (by decide) hc

/-- A run of zeros consists of digits. -/
lemma allDigits_zeros (n : ℕ) : AllDigits (zeros n) := fun _ hc => by
  rw [(List.mem_replicate.mp hc).2]
  rfl

/-- A number of more than one digit is written as its tenth and one digit more. -/
lemma digitsOf_of_le {n : ℕ} (h : 10 ≤ n) :
    digitsOf n = digitsOf (n / 10) ++ [Nat.digitChar (n % 10)] :=
  Nat.toDigits_of_base_le (by decide) h

/-- A number below ten is written as one digit. -/
lemma digitsOf_of_lt {n : ℕ} (h : n < 10) : digitsOf n = [Nat.digitChar n] :=
  Nat.toDigits_of_lt_base h

/-- The digit that a number below ten is written as. -/
lemma digitOf_digitChar {n : ℕ} (h : n < 10) : digitOf (Nat.digitChar n) = n := by
  rw [digitOf, Nat.toNat_digitChar_of_lt_ten h]
  exact Nat.add_sub_cancel_left 48 n

/-- The number that one digit more spells. -/
lemma spelledNumber_append_one (t : Text) (c : Char) :
    spelledNumber (t ++ [c]) = 10 * spelledNumber t + digitOf c := by
  rw [← digitsValue_eq_spelledNumber, ← digitsValue_eq_spelledNumber, digitsValue_append_one]

/-- **The digits of a number** spell it. -/
theorem spelledNumber_digitsOf (n : ℕ) : spelledNumber (digitsOf n) = n := by
  induction n using Nat.strong_induction_on with
  | _ n ih =>
    rcases lt_or_ge n 10 with h | h
    · rw [digitsOf_of_lt h, ← List.nil_append [_], spelledNumber_append_one, digitOf_digitChar h]
      exact Nat.zero_add n
    · rw [digitsOf_of_le h, spelledNumber_append_one, ih (n / 10) (by omega),
        digitOf_digitChar (Nat.mod_lt n (by norm_num))]
      omega

/-- The number of digits that a number is written with. -/
lemma length_digitsOf (n : ℕ) : (digitsOf n).length = digitCount n := by
  have hle : ∀ k, 0 < k → ((digitsOf n).length ≤ k ↔ digitCount n ≤ k) := fun k hk => by
    rw [digitCount_le_iff hk]
    exact Nat.length_toDigits_le_iff (by decide) hk
  have hlength : 0 < (digitsOf n).length := Nat.length_toDigits_pos
  exact le_antisymm ((hle _ (digitCount_pos n)).mpr le_rfl) ((hle _ hlength).mp le_rfl)

/-- The first digit of a positive number is not zero. -/
lemma exists_digitsOf_eq_cons {n : ℕ} (hn : 0 < n) :
    ∃ d rest, digitsOf n = d :: rest ∧ d.isDigit = true ∧ d ≠ '0' := by
  induction n using Nat.strong_induction_on with
  | _ n ih =>
    rcases lt_or_ge n 10 with h | h
    · refine ⟨Nat.digitChar n, [], digitsOf_of_lt h, by simpa using h, fun hzero => ?_⟩
      rw [Nat.digitChar_eq_zero] at hzero
      omega
    · obtain ⟨d, rest, hrest, hd, hzero⟩ := ih (n / 10) (by omega) (by omega)
      exact ⟨d, rest ++ [Nat.digitChar (n % 10)], by rw [digitsOf_of_le h, hrest]; rfl, hd, hzero⟩

/-- The number that two texts of digits spell together. -/
lemma spelledNumber_append (a b : Text) :
    spelledNumber (a ++ b) = spelledNumber a * 10 ^ b.length + spelledNumber b := by
  rw [spelledNumber, List.reverse_append, List.map_append, Nat.ofDigits_append, List.length_map,
    List.length_reverse, spelledNumber, spelledNumber]
  ring

/-- Zeros spell zero. -/
lemma spelledNumber_zeros (n : ℕ) : spelledNumber (zeros n) = 0 := by
  induction n with
  | zero => rfl
  | succ n ih =>
    rw [zeros, List.replicate_succ', spelledNumber_append_one, ← zeros, ih]
    rfl

/-- An exponent as it is written with its sign. -/
def signedExponent (n : ℤ) : WrittenExponent :=
  ⟨'E', if n < 0 then ['-'] else ['+'], digitsOf n.natAbs⟩

/-- The text of a written exponent. -/
lemma text_signedExponent (n : ℤ) : (signedExponent n).text = 'E' :: signedText n := by
  rw [WrittenExponent.text, signedExponent, signedText]
  split_ifs <;> rfl

/-- A written exponent is grammatical. -/
lemma isGrammatical_signedExponent (n : ℤ) : (signedExponent n).IsGrammatical where
  mark := Or.inr rfl
  sign := by
    rw [signedExponent]
    split_ifs
    · exact Or.inr (Or.inr rfl)
    · exact Or.inr (Or.inl rfl)
  digits_ne_nil := Nat.toDigits_ne_nil
  digits := allDigits_digitsOf _

/-- A written exponent spells the exponent. -/
lemma value_signedExponent (n : ℤ) : (signedExponent n).value = n := by
  rw [WrittenExponent.value, signedExponent, spelledNumber_digitsOf, signFactor]
  split_ifs with hneg hsign hsign
  · omega
  · exact absurd rfl hsign
  · exact absurd (show ['+'] = ['-'] from hsign) (by decide)
  · omega

namespace Spelling

variable {p q : Spelling} {t : Text} {x y : Decimal}

/-- The exponent of a spelling, by cases on whether one is written. -/
lemma exponentValue_eq_elim (p : Spelling) :
    p.exponentValue = p.exponent.elim 0 WrittenExponent.value := by
  rw [exponentValue]
  cases p.exponent <;> rfl

/-- The grammatical parts `p` make up the text `t` and spell the number of `x`. -/
structure Spells (p : Spelling) (t : Text) (x : Decimal) : Prop where
  grammatical : p.IsGrammatical
  text : p.text = t
  value : p.decimal ≈ x

/-- A text that spells the number of a decimal in range is read as a decimal of that number. -/
lemma Spells.reads (h : p.Spells t x) (hexponent : Decimal.isInt64 p.exponentValue = true)
    (hlimit : |p.scale| ≤ 2 ^ 31 - 1) : ∃ y, Decimal.ofText? t = some y ∧ y ≈ x := by
  have hrange : p.InRange :=
    ⟨hexponent, Decimal.isInt64_of_abs_le (hlimit.trans (by norm_num)), hlimit⟩
  refine ⟨p.decimal, ?_, h.value⟩
  rw [← h.text, Decimal.ofText?_of_grammatical h.grammatical hrange]

/-- A text spells one number only. -/
lemma Spells.equiv (h : p.Spells t x) (h' : q.Spells t y) : x ≈ y := by
  have hsame := h.grammatical.decimal_eq h'.grammatical (h.text.trans h'.text.symm)
  rw [Decimal.equiv_iff, ← Decimal.equiv_iff.mp h.value, ← Decimal.equiv_iff.mp h'.value, hsame]

end Spelling

namespace Decimal

variable {x : Decimal}

/-! ### Trimming -/

/-- Zeros that end the fraction do not matter. -/
lemma stripZeros_spec (s : ℕ) (m : ℤ) :
    (stripZeros s m).toRat = (⟨m, s⟩ : Decimal).toRat ∧ 0 ≤ (stripZeros s m).scale ∧
      (stripZeros s m).scale ≤ s := by
  induction s generalizing m with
  | zero => exact ⟨rfl, le_rfl, le_rfl⟩
  | succ s ih =>
    rw [stripZeros]
    split
    · next hzero =>
      obtain ⟨hvalue, hnonneg, hle⟩ := ih (m.tdiv 10)
      refine ⟨hvalue.trans ?_, hnonneg, hle.trans (by push_cast; omega)⟩
      have hm : m = 10 * m.tdiv 10 := by
        have := Int.mul_tdiv_add_tmod m 10
        omega
      conv_rhs => rw [hm]
      rw [toRat, toRat]
      push_cast
      rw [neg_add, zpow_add₀ (by norm_num)]
      norm_num
      ring
    · exact ⟨rfl, by positivity, le_rfl⟩

/-- **Trimming** keeps the number, and does not move the scale away from zero. -/
theorem trimFraction_spec (x : Decimal) :
    x.trimFraction.toRat = x.toRat ∧ |x.trimFraction.scale| ≤ |x.scale| := by
  rw [trimFraction]
  split
  · next hzero =>
    rw [(isZero_iff x).mp hzero, toRat_zero]
    exact ⟨rfl, abs_nonneg x.scale⟩
  · split
    · exact ⟨rfl, le_rfl⟩
    · next hscale =>
      obtain ⟨hvalue, hnonneg, hle⟩ := stripZeros_spec x.scale.toNat x.mantissa
      rw [Int.toNat_of_nonneg (by omega)] at hvalue hle
      refine ⟨hvalue, ?_⟩
      rw [abs_of_nonneg hnonneg, abs_of_nonneg (by omega)]
      exact hle

/-- The first digit stays where it is. -/
lemma magnitude_trimFraction (hx : x.toRat ≠ 0) : x.trimFraction.magnitude = x.magnitude := by
  have hvalue := (trimFraction_spec x).1
  rw [← log_abs_toRat hx, ← log_abs_toRat (by rwa [hvalue]), hvalue]

/-! ### Reading -/

/-- The sign of a decimal as it is written. -/
def signText (x : Decimal) : Text := if x.isNegative then ['-'] else []

lemma isSign_signText (x : Decimal) : IsSign x.signText := by
  rw [signText]
  split_ifs
  · exact Or.inr (Or.inr rfl)
  · exact Or.inl rfl

lemma withSign_eq (x : Decimal) (t : Text) : x.withSign t = x.signText ++ t := by
  rw [withSign, signText]
  split_ifs <;> rfl

/-- The sign and the digits of a decimal spell its mantissa. -/
lemma signFactor_mul_spelledNumber (x : Decimal) :
    signFactor x.signText * spelledNumber x.digits = x.mantissa := by
  rw [digits, spelledNumber_digitsOf, signFactor, signText, isNegative]
  by_cases h : x.mantissa < 0
  · simp only [h, decide_true, if_true]
    omega
  · simp only [h, decide_false, Bool.false_eq_true, if_false, List.nil_eq, reduceCtorEq]
    omega

/-- The digits of a decimal are as many as it holds. -/
lemma length_digits (x : Decimal) : x.digits.length = x.precision := length_digitsOf _

/-- How the digits filled up with zeros, and an exponent, are spelled. -/
lemma filled_spells (n : ℕ) (written : Option WrittenExponent)
    (hgrammar : ∀ e, written = some e → e.IsGrammatical)
    (hscale : -x.scale = n + written.elim 0 WrittenExponent.value) :
    (⟨x.signText, x.digits ++ zeros n, none, written⟩ : Spelling).Spells
      (x.withSign (x.digits ++ zeros n ++ written.elim [] WrittenExponent.text)) x := by
  set p : Spelling := ⟨x.signText, x.digits ++ zeros n, none, written⟩ with hp
  have hpscale : p.scale = -written.elim 0 WrittenExponent.value := by
    rw [Spelling.scale, Spelling.exponentValue_eq_elim]
    exact zero_sub _
  have hne : x.digits ≠ [] := Nat.toDigits_ne_nil
  have hmantissa : p.mantissa = x.mantissa * 10 ^ n := by
    rw [Spelling.mantissa, Spelling.digits, Spelling.places, hp]
    simp only [Option.getD_none, List.append_nil]
    rw [spelledNumber_append, spelledNumber_zeros, zeros, List.length_replicate, add_zero,
      Nat.cast_mul, ← mul_assoc, signFactor_mul_spelledNumber]
    push_cast
    rfl
  refine ⟨⟨isSign_signText x, allDigits_append (allDigits_digitsOf _) (allDigits_zeros _),
    by simp [p, Spelling.places, AllDigits], by simp [p, Spelling.digits, hne], hgrammar⟩, ?_, ?_⟩
  · rw [withSign_eq]
    cases written <;> rfl
  · rw [equiv_iff, Spelling.decimal, hmantissa, hpscale, toRat, neg_neg, toRat, hscale,
      zpow_add₀ (by norm_num), zpow_natCast]
    push_cast
    ring

/-- The digits filled up with zeros, and an exponent. -/
lemma filled_reads (n : ℕ) (written : Option WrittenExponent)
    (hgrammar : ∀ e, written = some e → e.IsGrammatical)
    (hrange : isInt64 (written.elim 0 WrittenExponent.value) = true)
    (hlimit : |written.elim 0 WrittenExponent.value| ≤ 2 ^ 31 - 1)
    (hscale : -x.scale = n + written.elim 0 WrittenExponent.value) :
    ∃ y, ofText? (x.withSign (x.digits ++ zeros n ++ written.elim [] WrittenExponent.text)) = some y ∧
      y ≈ x := by
  refine (filled_spells n written hgrammar hscale).reads ?_ ?_
  · rwa [Spelling.exponentValue_eq_elim]
  · rw [Spelling.scale, Spelling.exponentValue_eq_elim, abs_sub_comm]
    simpa [Spelling.places] using hlimit

/-- How the digits with a point among them, and an exponent, are spelled. -/
lemma split_spells {whole : ℕ} (hwhole : whole ≤ x.digits.length) (written : Option WrittenExponent)
    (hgrammar : ∀ e, written = some e → e.IsGrammatical)
    (hscale : x.scale = x.digits.length - whole - written.elim 0 WrittenExponent.value) :
    ∃ p : Spelling, p.Spells (x.withSign (x.digits.take whole ++ '.' :: x.digits.drop whole ++
      written.elim [] WrittenExponent.text)) x ∧
        p.exponentValue = written.elim 0 WrittenExponent.value ∧ p.scale = x.scale := by
  set p : Spelling := ⟨x.signText, x.digits.take whole, some (x.digits.drop whole), written⟩ with hp
  have hdigits : AllDigits x.digits := allDigits_digitsOf _
  have hexponent : p.exponentValue = written.elim 0 WrittenExponent.value :=
    p.exponentValue_eq_elim
  have hjoin : p.digits = x.digits := List.take_append_drop _ _
  have hne : x.digits ≠ [] := Nat.toDigits_ne_nil
  have hpscale : p.scale = x.scale := by
    rw [Spelling.scale, hexponent, hscale]
    change ((x.digits.drop whole).length : ℤ) - _ = _
    rw [List.length_drop]
    push_cast [hwhole]
    rfl
  refine ⟨p, ⟨⟨isSign_signText x, fun c hc => hdigits c (List.mem_of_mem_take hc), fun c hc =>
    hdigits c (List.mem_of_mem_drop hc), by rwa [hjoin], hgrammar⟩, ?_, ?_⟩, hexponent, hpscale⟩
  · rw [withSign_eq]
    cases written <;> rfl
  · rw [equiv_iff, Spelling.decimal, hpscale, Spelling.mantissa, hjoin,
      signFactor_mul_spelledNumber]

/-- The digits with a point among them, and an exponent. -/
lemma split_reads {whole : ℕ} (hwhole : whole ≤ x.digits.length) (written : Option WrittenExponent)
    (hgrammar : ∀ e, written = some e → e.IsGrammatical)
    (hrange : isInt64 (written.elim 0 WrittenExponent.value) = true)
    (hlimit : |x.scale| ≤ 2 ^ 31 - 1)
    (hscale : x.scale = x.digits.length - whole - written.elim 0 WrittenExponent.value) :
    ∃ y, ofText? (x.withSign (x.digits.take whole ++ '.' :: x.digits.drop whole ++
      written.elim [] WrittenExponent.text)) = some y ∧ y ≈ x := by
  obtain ⟨p, hp, hexponent, hpscale⟩ := split_spells hwhole written hgrammar hscale
  exact hp.reads (by rwa [hexponent]) (by rwa [hpscale])

/-- **Digits with a point** after the first few of them, filled up with zeros, and an exponent. -/
theorem pointed_reads {whole : ℕ} (hwhole : 1 ≤ whole ∧ whole ≤ 3) (hlimit : |x.scale| ≤ 2 ^ 31 - 3)
    (written : Option WrittenExponent) (hgrammar : ∀ e, written = some e → e.IsGrammatical)
    (hrange : isInt64 (written.elim 0 WrittenExponent.value) = true)
    (hplace : written.elim 0 WrittenExponent.value + whole = x.magnitude + 1) :
    ∃ y, ofText? (x.withSign (pointed x.digits whole ++ written.elim [] WrittenExponent.text)) =
      some y ∧ y ≈ x := by
  have hlength := x.length_digits
  have hpos : 0 < x.precision := digitCount_pos _
  rw [magnitude] at hplace
  rw [abs_le] at hlimit
  rw [pointed]
  split
  · next hshort =>
    refine filled_reads _ written hgrammar hrange ?_ ?_
    · rw [abs_le]
      omega
    · push_cast [hshort]
      omega
  · next hlong =>
    refine split_reads (not_le.mp hlong).le written hgrammar hrange ?_ ?_
    · rw [abs_le]
      omega
    · omega

/-- How the plain form is spelled, whatever the scale. -/
lemma plain_spells (x : Decimal) :
    ∃ p : Spelling, p.Spells x.plain x ∧ p.exponentValue = 0 ∧ |p.scale| ≤ |x.scale| := by
  have hlength := x.length_digits
  have hdigits : AllDigits x.digits := allDigits_digitsOf _
  have hne : x.digits ≠ [] := Nat.toDigits_ne_nil
  rw [plain]
  split
  · next hzero =>
    refine ⟨⟨[], ['0'], none, none⟩, ⟨⟨Or.inl rfl, ?_, ?_, ?_, ?_⟩, rfl, ?_⟩, rfl, abs_nonneg _⟩
    · simp [AllDigits]
    · simp [AllDigits, Spelling.places]
    · simp [Spelling.digits]
    · simp
    · rw [equiv_iff, (isZero_iff x).mp hzero, ← toRat_zero]
      rfl
  · simp only
    split
    · next hnonpos =>
      have hspells := filled_spells (x := x) (-x.scale).toNat none (by simp) (by simp [hnonpos])
      exact ⟨_, by simpa using hspells, rfl, abs_nonneg _⟩
    · next hpos =>
      split
      · next hshort =>
        obtain ⟨p, hp, hexponent, hscale⟩ := split_spells
          (Nat.sub_le x.digits.length x.scale.toNat) none (by simp) (by simp; omega)
        exact ⟨p, by simpa using hp, hexponent, hscale ▸ le_rfl⟩
      · next hlong =>
        -- zeros between the point and the first digit
        set p : Spelling :=
          ⟨x.signText, ['0'], some (zeros (x.scale.toNat - x.digits.length) ++ x.digits), none⟩ with hp
        have hpscale : p.scale = x.scale := by
          simp [p, Spelling.scale, Spelling.places, Spelling.exponentValue, zeros]
          omega
        have hmantissa : p.mantissa = x.mantissa := by
          rw [Spelling.mantissa, Spelling.digits, Spelling.places, hp, Option.getD_some,
            ← List.append_assoc, spelledNumber_append,
            show ['0'] ++ zeros (x.scale.toNat - x.digits.length) =
              zeros (x.scale.toNat - x.digits.length + 1) from rfl,
            spelledNumber_zeros, zero_mul, zero_add, signFactor_mul_spelledNumber]
        refine ⟨p, ⟨⟨isSign_signText x, by simp [p, AllDigits], allDigits_append (allDigits_zeros _)
          hdigits, by simp [p, Spelling.digits], by simp [p]⟩, ?_, ?_⟩, rfl, hpscale ▸ le_rfl⟩
        · rw [withSign_eq]
          simp [p, Spelling.text, Spelling.number, Spelling.exponentText]
        · rw [equiv_iff, Spelling.decimal, hmantissa, hpscale]

/-- **The plain form** is a literal of the number. -/
theorem plain_reads (hlimit : |x.scale| ≤ 2 ^ 31 - 1) : ∃ y, ofText? x.plain = some y ∧ y ≈ x := by
  obtain ⟨p, hp, hexponent, hscale⟩ := x.plain_spells
  exact hp.reads (by rw [hexponent]; decide) (hscale.trans hlimit)

/-- A decimal that is written without exponent consists of numerals, with at most a minus sign in
front. -/
lemma plain_cases (x : Decimal) :
    ∃ t : Text, (∀ c ∈ t, isNumeral c = true) ∧ (x.plain = t ∨ x.plain = '-' :: t) := by
  have hnumeral : ∀ t, AllDigits t → ∀ c ∈ t, isNumeral c = true := fun t ht c hc => by
    simp [isNumeral, ht c hc]
  have hzeros := fun n => hnumeral _ (allDigits_zeros n)
  have hdigits := hnumeral x.digits (allDigits_digitsOf _)
  have hsign : ∀ t, x.withSign t = t ∨ x.withSign t = '-' :: t := fun t => by
    rw [withSign]
    split
    · exact Or.inr rfl
    · exact Or.inl rfl
  unfold plain
  split
  · exact ⟨['0'], by simp [isNumeral], Or.inl rfl⟩
  · refine ⟨_, fun c hmem => ?_, hsign _⟩
    split at hmem
    · exact (List.mem_append.mp hmem).elim (hdigits c) (hzeros _ c)
    · split at hmem
      · rcases List.mem_append.mp hmem with hmem | hmem
        · exact hdigits c (List.mem_of_mem_take hmem)
        · rcases List.mem_cons.mp hmem with rfl | hmem
          · rfl
          · exact hdigits c (List.mem_of_mem_drop hmem)
      · simp only [List.mem_cons, List.mem_append] at hmem
        rcases hmem with rfl | rfl | hmem | hmem
        · rfl
        · rfl
        · exact hzeros _ c hmem
        · exact hdigits c hmem

/-- The plain form consists of numerals and a minus sign. -/
lemma mem_plain {c : Char} (h : c ∈ x.plain) : isNumeral c = true ∨ c = '-' := by
  obtain ⟨t, hnumerals, hplain | hplain⟩ := x.plain_cases
  · exact Or.inl (hnumerals c (hplain ▸ h))
  · rcases List.mem_cons.mp (hplain ▸ h) with rfl | hmem
    · exact Or.inr rfl
    · exact Or.inl (hnumerals c hmem)

/-! ### Forms with an exponent -/

/-- Digits with a point between them, or without one if none follow. -/
def withPoint (front rest : Text) : Text := front ++ if rest = [] then [] else '.' :: rest

/-- A sign, digits and a point are no mark of an exponent. -/
lemma exponent_notMem_withPoint {front rest : Text} (hfront : AllDigits front)
    (hrest : AllDigits rest) : 'E' ∉ x.signText ++ withPoint front rest := by
  have hdigit : ∀ t, AllDigits t → 'E' ∉ t := fun t ht h => absurd (ht _ h) (by decide)
  have hsign : 'E' ∉ x.signText := by
    rw [signText]
    split_ifs <;> decide
  rw [withPoint, List.mem_append, List.mem_append]
  rintro (h | h | h)
  · exact hsign h
  · exact hdigit front hfront h
  · split_ifs at h
    · exact absurd h List.not_mem_nil
    · rcases List.mem_cons.mp h with h | h
      · exact absurd h (by decide)
      · exact hdigit rest hrest h

/-- The digits of a positive number, pointed, have as many digits in front of the point as they are
asked for, and the first one is not zero. -/
lemma pointed_form {n whole : ℕ} (hn : 0 < n) (hwhole : 1 ≤ whole) :
    ∃ d front rest, pointed (digitsOf n) whole = withPoint (d :: front) rest ∧
      (d :: front).length = whole ∧ d ≠ '0' ∧ AllDigits (d :: front) ∧ AllDigits rest := by
  have hdigits := allDigits_digitsOf n
  obtain ⟨d, tail, htail, -, hzero⟩ := exists_digitsOf_eq_cons hn
  rw [pointed]
  split
  · next hshort =>
    refine ⟨d, tail ++ zeros (whole - (digitsOf n).length), [], ?_, ?_, hzero, ?_, by simp [AllDigits]⟩
    · simp [withPoint, htail]
    · have hlength : (digitsOf n ++ zeros (whole - (digitsOf n).length)).length = whole := by
        rw [List.length_append, zeros, List.length_replicate]
        omega
      rwa [htail] at hlength ⊢
    · rw [← List.cons_append, ← htail]
      exact allDigits_append hdigits (allDigits_zeros _)
  · next hlong =>
    have hfront : (digitsOf n).take whole = d :: tail.take (whole - 1) := by
      rw [htail, ← Nat.sub_add_cancel hwhole, List.take_succ_cons, Nat.add_sub_cancel]
    have hrest : (digitsOf n).drop whole ≠ [] := by
      rw [ne_eq, List.drop_eq_nil_iff]
      exact hlong
    refine ⟨d, tail.take (whole - 1), (digitsOf n).drop whole, ?_, ?_, hzero, ?_, ?_⟩
    · rw [withPoint, if_neg hrest, hfront]
    · rw [← hfront, List.length_take]
      omega
    · rw [← hfront]
      exact fun c hc => hdigits c (List.mem_of_mem_take hc)
    · exact fun c hc => hdigits c (List.mem_of_mem_drop hc)

/-- A number that is not shown plainly is not zero. -/
lemma toRat_ne_zero_of_not_isModerate (h : ¬ x.trimFraction.isModerate = true) : x.toRat ≠ 0 := by
  intro hzero
  rw [trimFraction, if_pos ((isZero_iff x).mpr hzero)] at h
  exact h (by decide)

/-- The mantissa of such a number has digits. -/
lemma natAbs_mantissa_pos (h : x.toRat ≠ 0) : 0 < x.trimFraction.mantissa.natAbs := by
  refine Int.natAbs_pos.mpr (mantissa_ne_zero ?_)
  rwa [(trimFraction_spec x).1]

/-- A number without the zeros at its end may stand for it. -/
lemma equiv_of_trimFraction (h : y ≈ x.trimFraction) : y ≈ x := by
  rw [equiv_iff] at h ⊢
  rw [h, (trimFraction_spec x).1]

/-- **The canonical form** is a literal of the number. -/
lemma canonical_reads (hlimit : |x.scale| ≤ 2 ^ 31 - 3) :
    ∃ y, ofText? x.canonical = some y ∧ y ≈ x := by
  have hscale := (trimFraction_spec x).2
  obtain ⟨y, hy, hxy⟩ := plain_reads (x := x.trimFraction) (by omega)
  exact ⟨y, hy, equiv_of_trimFraction hxy⟩

/-- **The scientific form** of a number that is not shown plainly: one digit before the point. -/
lemma scientific_reads (hlimit : |x.scale| ≤ 2 ^ 31 - 3) (hrange : isInt64 x.magnitude = true) :
    ∃ y, ofText? x.scientific = some y ∧ y ≈ x := by
  have hscale := (trimFraction_spec x).2
  rw [scientific]
  split
  · exact canonical_reads hlimit
  · next hmoderate =>
    have hmagnitude := magnitude_trimFraction (toRat_ne_zero_of_not_isModerate hmoderate)
    obtain ⟨y, hy, hxy⟩ := pointed_reads (x := x.trimFraction) ⟨le_rfl, by omega⟩ (by omega)
      (some (signedExponent x.magnitude)) (by rintro e ⟨rfl⟩; exact isGrammatical_signedExponent _)
      (by simpa [value_signedExponent] using hrange) (by simp [value_signedExponent, hmagnitude])
    refine ⟨y, ?_, equiv_of_trimFraction hxy⟩
    rw [hmagnitude, ← text_signedExponent]
    exact hy

/-- **The engineering form** of a number that is not shown plainly: one to three digits before the
point. -/
lemma engineering_reads (hlimit : |x.scale| ≤ 2 ^ 31 - 3) (hrange : isInt64 x.magnitude = true) :
    ∃ y, ofText? x.engineering = some y ∧ y ≈ x := by
  have hscale := (trimFraction_spec x).2
  rw [engineering]
  split
  · exact canonical_reads hlimit
  · next hmoderate =>
    have hmagnitude := magnitude_trimFraction (toRat_ne_zero_of_not_isModerate hmoderate)
    have hpos : 0 < x.trimFraction.precision := digitCount_pos _
    have hlow : -(2 ^ 31 - 3) ≤ x.trimFraction.magnitude := by
      have := le_abs_self x.trimFraction.scale
      rw [magnitude]
      omega
    set shift := x.trimFraction.magnitude % 3 with hshift
    have hwhole : 1 ≤ shift.toNat + 1 ∧ shift.toNat + 1 ≤ 3 := by omega
    simp only
    split
    · next hzero =>
      obtain ⟨y, hy, hxy⟩ := pointed_reads (x := x.trimFraction) hwhole (by omega) none (by simp)
        (by decide) (by simp; omega)
      exact ⟨y, by simpa using hy, equiv_of_trimFraction hxy⟩
    · next hpower =>
      obtain ⟨y, hy, hxy⟩ := pointed_reads (x := x.trimFraction) hwhole (by omega)
        (some (signedExponent (x.trimFraction.magnitude - shift)))
        (by rintro e ⟨rfl⟩; exact isGrammatical_signedExponent _)
        (by
          rw [← hmagnitude, isInt64_iff] at hrange
          rw [Option.elim_some, value_signedExponent, isInt64_iff]
          omega)
        (by simp [value_signedExponent]; omega)
      refine ⟨y, ?_, equiv_of_trimFraction hxy⟩
      rw [← text_signedExponent]
      exact hy

/-- No exponent is printed in the plain form. -/
lemma exponent_notMem_plain (x : Decimal) : 'E' ∉ x.plain := by
  intro h
  rcases mem_plain h with h | h
  · exact absurd h (by decide)
  · exact absurd h (by decide)

/-- A printed exponent in scientific form stands behind exactly one digit before the point. -/
lemma scientific_form (h : 'E' ∈ x.scientific) :
    ∃ d rest k, x.scientific = x.trimFraction.signText ++ withPoint [d] rest ++ 'E' :: signedText k ∧
      d ≠ '0' ∧ AllDigits [d] ∧ AllDigits rest := by
  rw [scientific] at h ⊢
  split at h
  · exact absurd h (exponent_notMem_plain _)
  · next hmoderate =>
    rw [if_neg hmoderate]
    obtain ⟨d, front, rest, hform, hlength, hzero, hfront, hrest⟩ := pointed_form
      (natAbs_mantissa_pos (toRat_ne_zero_of_not_isModerate hmoderate)) le_rfl
    obtain rfl : front = [] := by simpa using hlength
    refine ⟨d, rest, x.trimFraction.magnitude, ?_, hzero, hfront, hrest⟩
    rw [withSign_eq, digits, hform, List.append_assoc]

/-- A printed exponent in engineering form is a multiple of three and stands behind one to three
digits before the point. -/
lemma engineering_form (h : 'E' ∈ x.engineering) :
    ∃ d front rest k, x.engineering =
        x.trimFraction.signText ++ withPoint (d :: front) rest ++ 'E' :: signedText k ∧ 3 ∣ k ∧
      (d :: front).length ≤ 3 ∧ d ≠ '0' ∧ AllDigits (d :: front) ∧ AllDigits rest := by
  rw [engineering] at h ⊢
  split at h
  · exact absurd h (exponent_notMem_plain _)
  · next hmoderate =>
    rw [if_neg hmoderate]
    obtain ⟨d, front, rest, hform, hlength, hzero, hfront, hrest⟩ := pointed_form
      (natAbs_mantissa_pos (toRat_ne_zero_of_not_isModerate hmoderate))
      (Nat.le_add_left 1 (x.trimFraction.magnitude % 3).toNat)
    simp only [withSign_eq, digits, hform] at h ⊢
    have hpower : x.trimFraction.magnitude - x.trimFraction.magnitude % 3 ≠ 0 := by
      intro hzero
      rw [if_pos hzero] at h
      exact exponent_notMem_withPoint hfront hrest h
    refine ⟨d, front, rest, x.trimFraction.magnitude - x.trimFraction.magnitude % 3, ?_, ?_, ?_,
      hzero, hfront, hrest⟩
    · rw [if_neg hpower, List.append_assoc]
    · exact Int.dvd_self_sub_emod
    · omega

/-- **Renderings**: all written forms of a decimal are literals of the same number, the forms with an
exponent as long as the exponent of the first digit is a 64-bit integer, which it is for every decimal
that a memory can hold. A printed exponent stands behind exactly one digit before the point in
scientific form. In engineering form it is a multiple of three behind one to three digits before the
point. The first of these digits is not zero. -/
theorem renderings_read_back (x : Decimal) (hlimit : |x.scale| ≤ 2 ^ 31 - 3) :
    (∃ y, ofText? x.plain = some y ∧ y ≈ x) ∧ (∃ y, ofText? x.canonical = some y ∧ y ≈ x) ∧
      (isInt64 x.magnitude = true → (∃ y, ofText? x.scientific = some y ∧ y ≈ x) ∧
        ∃ y, ofText? x.engineering = some y ∧ y ≈ x) ∧
      ('E' ∈ x.scientific → ∃ d rest k,
        x.scientific = x.trimFraction.signText ++ withPoint [d] rest ++ 'E' :: signedText k ∧
          d ≠ '0' ∧ AllDigits [d] ∧ AllDigits rest) ∧
      ('E' ∈ x.engineering → ∃ d front rest k,
        x.engineering =
            x.trimFraction.signText ++ withPoint (d :: front) rest ++ 'E' :: signedText k ∧
          3 ∣ k ∧ (d :: front).length ≤ 3 ∧ d ≠ '0' ∧ AllDigits (d :: front) ∧ AllDigits rest) := by
  refine ⟨plain_reads (by omega), canonical_reads hlimit, fun hrange => ?_, scientific_form,
    engineering_form⟩
  exact ⟨scientific_reads hlimit hrange, engineering_reads hlimit hrange⟩

/-- A large negative number, with its exponents of 31 in scientific and 30 in engineering form. -/
theorem renderings_read_back_large :
    |(⟨-126765, -26⟩ : Decimal).scale| ≤ 2 ^ 31 - 3 ∧
      isInt64 (⟨-126765, -26⟩ : Decimal).magnitude = true ∧
      (∃ y, ofText? ['-', '1', '.', '2', '6', '7', '6', '5', 'E', '+', '3', '1'] = some y ∧
        y ≈ ⟨-126765, -26⟩) ∧
      (∃ y, ofText? ['-', '1', '2', '.', '6', '7', '6', '5', 'E', '+', '3', '0'] = some y ∧
        y ≈ ⟨-126765, -26⟩) ∧
      'E' ∈ (⟨-126765, -26⟩ : Decimal).scientific ∧ 'E' ∈ (⟨-126765, -26⟩ : Decimal).engineering := by
  have hlimit : |(⟨-126765, -26⟩ : Decimal).scale| ≤ 2 ^ 31 - 3 := by decide
  have hrange : isInt64 (⟨-126765, -26⟩ : Decimal).magnitude = true := by decide
  obtain ⟨-, -, hreads, -⟩ := renderings_read_back ⟨-126765, -26⟩ hlimit
  exact ⟨hlimit, hrange, (hreads hrange).1, (hreads hrange).2, by decide, by decide⟩

end Decimal

end DecimalCalculator
