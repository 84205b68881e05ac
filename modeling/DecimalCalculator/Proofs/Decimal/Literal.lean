import Mathlib.Tactic
import DecimalCalculator.Proofs.Decimal.Spelling
import DecimalCalculator.Proofs.Text.ExponentSign

/-!
The grammar of decimal literals, and where the signs of a literal stand.

* `IsLiteralForm`: a sign, digits with at most one point among them, and an exponent.
  `Decimal.isLiteralForm`: every text that is read as a literal has this form.
* `Decimal.ofText?_neg`: a minus sign negates an unsigned literal.
* `betweenIsExponent_of_isLiteral`: **a sign inside a literal belongs to its exponent**, in small
  letters. `last_of_isLiteral`: a literal ends with a numeral.
-/

namespace DecimalCalculator

/-! ### The grammar -/

/-- Digits with at most one point among them, at least one digit. -/
inductive IsNumber : Text → Prop
  | whole {w : Text} : w ≠ [] → AllDigits w → IsNumber w
  | pointed {w f : Text} : w ++ f ≠ [] → AllDigits (w ++ f) → IsNumber (w ++ '.' :: f)

/-- The mark of an exponent, a sign and digits, or nothing at all. -/
inductive IsExponent : Text → Prop
  | none : IsExponent []
  | marked {m : Char} {sign digits : Text} : m = 'e' ∨ m = 'E' → IsSign sign → digits ≠ [] →
      AllDigits digits → IsExponent (m :: (sign ++ digits))

/-- A sign, a number and an exponent. -/
def IsLiteralForm (t : Text) : Prop :=
  ∃ sign number exponent, t = sign ++ (number ++ exponent) ∧ IsSign sign ∧ IsNumber number ∧
    IsExponent exponent

namespace Spelling

variable {p : Spelling}

/-- The number of a grammatical literal. -/
lemma IsGrammatical.isNumber (h : p.IsGrammatical) : IsNumber p.number := by
  have hne := h.digits_ne_nil
  have hall := allDigits_append h.whole h.places
  rw [Spelling.digits, Spelling.places] at hne
  rw [Spelling.places] at hall
  unfold number
  cases hfraction : p.fraction with
  | none =>
    rw [hfraction] at hne
    exact .whole (by simpa using hne) h.whole
  | some f =>
    rw [hfraction] at hne hall
    exact .pointed hne hall

/-- The exponent of a grammatical literal. -/
lemma IsGrammatical.isExponent (h : p.IsGrammatical) : IsExponent p.exponentText := by
  unfold exponentText
  cases hexponent : p.exponent with
  | none => exact .none
  | some e =>
    have hgrammar := h.exponent e hexponent
    exact .marked hgrammar.mark hgrammar.sign hgrammar.digits_ne_nil hgrammar.digits

end Spelling

/-! ### Reading -/

namespace Decimal

/-- Every text that is read as a literal has the form of one. -/
theorem isLiteralForm {t : Text} (h : isLiteral t = true) : IsLiteralForm t := by
  obtain ⟨x, hx⟩ := Option.isSome_iff_exists.mp h
  obtain ⟨p, hgrammar, -, rfl⟩ := exists_spelling hx
  exact ⟨p.sign, p.number, p.exponentText, rfl, hgrammar.sign, hgrammar.isNumber,
    hgrammar.isExponent⟩

/-- What is read as a decimal is a literal. -/
lemma isLiteral_of_ofText? {t : Text} {x : Decimal} (h : ofText? t = some x) :
    isLiteral t = true := by
  rw [isLiteral, h]
  rfl

/-! ### Signs of literals -/

/-- A minus sign in front of an unsigned literal negates it. -/
lemma ofText?_neg {t : Text} (hminus : t.head? ≠ some '-') (hplus : t.head? ≠ some '+') :
    ofText? ('-' :: t) = (ofText? t).map Neg.neg := by
  rw [ofText?, ofText?, splitSign_of_unsigned hminus hplus]
  simp only [splitSign]
  rcases cutAt (fun c => c = 'e' || c = 'E') t with ⟨number, exponent⟩
  simp only
  split
  · rfl
  · cases exponent with
    | none =>
      simp only [Option.bind_eq_bind, Option.bind_some]
      split <;> rfl
    | some written =>
      simp only
      cases exponent? written with
      | none => rfl
      | some e =>
        simp only [Option.bind_eq_bind, Option.bind_some]
        split <;> rfl

end Decimal

/-! ### Characters of literals -/

/-- A number ends with a digit, or with a point after a digit. -/
lemma IsNumber.reverse_cases {t : Text} (h : IsNumber t) :
    (∃ d rest, t.reverse = d :: rest ∧ d.isDigit = true) ∨
      ∃ d rest, t.reverse = '.' :: d :: rest ∧ d.isDigit = true := by
  -- a nonempty text of digits, read backward, begins with a digit
  have hlast : ∀ w : Text, w ≠ [] → AllDigits w →
      ∃ d rest, w.reverse = d :: rest ∧ d.isDigit = true := by
    intro w hne hall
    obtain ⟨d, rest, hrev⟩ := List.exists_cons_of_ne_nil (List.reverse_ne_nil_iff.mpr hne)
    exact ⟨d, rest, hrev, hall d (by rw [← List.mem_reverse, hrev]; simp)⟩
  cases h with
  | whole hne hall => exact Or.inl (hlast _ hne hall)
  | @pointed w f hne hall =>
    rw [List.reverse_append, List.reverse_cons, List.append_assoc]
    by_cases hf : f = []
    · subst hf
      rw [List.append_nil] at hne hall
      obtain ⟨d, rest, hrev, hd⟩ := hlast w hne hall
      exact Or.inr ⟨d, rest, by simp [hrev], hd⟩
    · obtain ⟨d, rest, hrev, hd⟩ := hlast f hf fun c hc => hall c (by simp [hc])
      exact Or.inl ⟨d, rest ++ (['.'] ++ w.reverse), by simp [hrev], hd⟩

/-- A number holds digits and points only. -/
lemma IsNumber.isNumeral {t : Text} (h : IsNumber t) {c : Char} (hc : c ∈ t) :
    isNumeral c = true := by
  cases h with
  | whole _ hall => simp [DecimalCalculator.isNumeral, hall c hc]
  | @pointed w f _ hall =>
    rcases List.mem_append.mp hc with hc | hc
    · simp [DecimalCalculator.isNumeral, hall c (by simp [hc])]
    · rcases List.mem_cons.mp hc with rfl | hc
      · rfl
      · simp [DecimalCalculator.isNumeral, hall c (by simp [hc])]

/-- An `e` after a number is the mark of an exponent, whatever stands before the number. -/
lemma IsNumber.endsInMark {t : Text} (h : IsNumber t) (before : Text) :
    EndsInMark ('e' :: (t.reverse ++ before)) := by
  rcases h.reverse_cases with ⟨d, rest, hrev, hd⟩ | ⟨d, rest, hrev, hd⟩
  · rw [hrev]
    exact .digit hd
  · rw [hrev]
    exact .point hd

/-- A sign is no numeral. -/
lemma not_isNumeral_of_sign {c : Char} (hc : c = '+' ∨ c = '-') : isNumeral c = false := by
  rcases hc with rfl | rfl <;> decide

/-- A sign after the number of a literal stands between its exponent mark and its last digits. -/
lemma IsExponent.sign_split {number exponent a b : Text} {c : Char} (hnumber : IsNumber number)
    (hexponent : IsExponent exponent) (hc : c = '+' ∨ c = '-')
    (hsplit : number ++ exponent = a ++ c :: b) :
    ∃ m, (m = 'e' ∨ m = 'E') ∧ a = number ++ [m] ∧ b ≠ [] ∧ AllDigits b := by
  have hnumeral := not_isNumeral_of_sign hc
  have hdigit : ∀ t, AllDigits t → c ∉ t := fun t ht hmem => by
    simp [isNumeral, ht c hmem] at hnumeral
  -- the sign is behind the number, whose characters are numerals
  obtain ⟨r, rfl, hr⟩ : ∃ r, a = number ++ r ∧ exponent = r ++ c :: b := by
    rcases List.append_eq_append_iff.mp hsplit with h | ⟨r, rfl, hr⟩
    · exact h
    · cases r with
      | nil => exact ⟨[], by simp, by simpa using hr.symm⟩
      | cons d r =>
        obtain ⟨rfl, -⟩ := List.cons_eq_cons.mp hr
        have := hnumber.isNumeral (c := c) (by simp)
        rw [hnumeral] at this
        exact absurd this (by decide)
  cases hexponent with
  | none => simp at hr
  | @marked m sign digits hm hsign hne hall =>
    cases r with
    | nil =>
      obtain ⟨rfl, -⟩ := List.cons_eq_cons.mp hr
      rcases hm with rfl | rfl <;> simp at hc
    | cons d r =>
      obtain ⟨rfl, hrest⟩ := List.cons_eq_cons.mp hr
      -- and it is not among the digits of the exponent
      rcases hsign with rfl | rfl | rfl
      · exact absurd (by simp [show digits = _ from hrest]) (hdigit digits hall)
      all_goals
        cases r with
        | nil =>
          obtain ⟨rfl, rfl⟩ := List.cons_eq_cons.mp hrest
          exact ⟨m, hm, rfl, hne, hall⟩
        | cons d' r =>
          obtain ⟨rfl, hdigits⟩ := List.cons_eq_cons.mp hrest
          exact absurd (by simp [show digits = _ from hdigits]) (hdigit digits hall)

/-- **Signs of literals**: a sign inside a literal in small letters belongs to its exponent. -/
theorem betweenIsExponent_of_isLiteral {a b : Text} {c : Char}
    (h : Decimal.isLiteral (a ++ c :: b) = true) (ha : a ≠ []) (hc : c = '+' ∨ c = '-')
    (hsmall : 'E' ∉ a) : betweenIsExponent a.reverse b = true := by
  obtain ⟨sign, number, exponent, hform, hsign, hnumber, hexponent⟩ := Decimal.isLiteralForm h
  -- the sign in front, if there is one, is not the sign in question
  obtain ⟨r, rfl, hr⟩ : ∃ r, a = sign ++ r ∧ number ++ exponent = r ++ c :: b := by
    rcases hsign with rfl | rfl | rfl
    · exact ⟨a, rfl, hform.symm⟩
    all_goals
      cases a with
      | nil => exact absurd rfl ha
      | cons d a =>
        obtain ⟨rfl, hrest⟩ := List.cons_eq_cons.mp hform
        exact ⟨a, rfl, hrest.symm⟩
  obtain ⟨m, hm, rfl, hne, hall⟩ := hexponent.sign_split hnumber hc hr
  obtain rfl : m = 'e' := by
    rcases hm with rfl | rfl
    · rfl
    · simp at hsmall
  rw [betweenIsExponent_iff]
  obtain ⟨d, rest, rfl⟩ := List.exists_cons_of_ne_nil hne
  refine ⟨?_, d, rest, rfl, hall d (by simp)⟩
  simpa using hnumber.endsInMark sign.reverse

/-- A literal ends with a numeral. -/
lemma last_of_isLiteral {t : Text} (h : Decimal.isLiteral t = true) :
    ∃ c rest, t.reverse = c :: rest ∧ isNumeral c = true := by
  obtain ⟨sign, number, exponent, rfl, hsign, hnumber, hexponent⟩ := Decimal.isLiteralForm h
  cases hexponent with
  | none =>
    rcases hnumber.reverse_cases with ⟨d, rest, hrev, hd⟩ | ⟨d, rest, hrev, hd⟩
    · exact ⟨d, rest ++ sign.reverse, by simp [hrev], by simp [isNumeral, hd]⟩
    · exact ⟨'.', d :: rest ++ sign.reverse, by simp [hrev], rfl⟩
  | @marked m esign digits hm hesign hne hall =>
    obtain ⟨d, rest, hrev⟩ := List.exists_cons_of_ne_nil (List.reverse_ne_nil_iff.mpr hne)
    have hd : d.isDigit = true := hall d (by rw [← List.mem_reverse, hrev]; simp)
    refine ⟨d, rest ++ (esign.reverse ++ m :: (number.reverse ++ sign.reverse)), ?_, ?_⟩
    · simp [hrev]
    · simp [isNumeral, hd]

/-- Every character of a literal is a numeral, a sign or the mark of an exponent. -/
lemma char_of_isLiteral {t : Text} (h : Decimal.isLiteral t = true) {c : Char} (hc : c ∈ t) :
    isNumeral c = true ∨ c = '+' ∨ c = '-' ∨ c = 'e' ∨ c = 'E' := by
  have hsigns : ∀ sign, IsSign sign → c ∈ sign → c = '+' ∨ c = '-' := by
    rintro sign (rfl | rfl | rfl) hmem
    · simp at hmem
    all_goals simp at hmem; simp [hmem]
  obtain ⟨sign, number, exponent, rfl, hsign, hnumber, hexponent⟩ := Decimal.isLiteralForm h
  simp only [List.mem_append] at hc
  rcases hc with hc | hc | hc
  · rcases hsigns sign hsign hc with h | h <;> simp [h]
  · exact Or.inl (hnumber.isNumeral hc)
  · cases hexponent with
    | none => simp at hc
    | @marked m esign digits hm hesign hne hall =>
      rcases List.mem_cons.mp hc with rfl | hc
      · rcases hm with h | h <;> simp [h]
      · rcases List.mem_append.mp hc with hc | hc
        · rcases hsigns esign hesign hc with h | h <;> simp [h]
        · exact Or.inl (by simp [isNumeral, hall c hc])

/-- After an `e` in a literal a sign and digits follow. -/
lemma exponent_of_isLiteral {a b : Text} (h : Decimal.isLiteral (a ++ 'e' :: b) = true) :
    ∃ sign digits, b = sign ++ digits ∧ IsSign sign ∧ digits ≠ [] ∧ AllDigits digits := by
  obtain ⟨sign, number, exponent, hform, hsign, hnumber, hexponent⟩ := Decimal.isLiteralForm h
  have hmark : ∀ u, IsSign u → 'e' ∉ u := by
    rintro u (rfl | rfl | rfl) <;> simp
  have hdigit : ∀ u, AllDigits u → 'e' ∉ u := fun u hu hmem => absurd (hu _ hmem) (by decide)
  -- the letter is behind the number
  have hbehind : ∃ r, a = sign ++ number ++ r ∧ exponent = r ++ 'e' :: b := by
    rw [← List.append_assoc] at hform
    rcases List.append_eq_append_iff.mp hform with ⟨r, hr, hexponent'⟩ | h'
    · cases r with
      | nil => exact ⟨[], by simpa using hr.symm, by simpa using hexponent'.symm⟩
      | cons d r =>
        obtain ⟨rfl, -⟩ := List.cons_eq_cons.mp hexponent'
        have hmem : 'e' ∈ sign ++ number := by simp [hr]
        rcases List.mem_append.mp hmem with hmem | hmem
        · exact absurd hmem (hmark sign hsign)
        · exact absurd (hnumber.isNumeral hmem) (by decide)
    · exact h'
  obtain ⟨r, -, hr⟩ := hbehind
  cases hexponent with
  | none => simp at hr
  | @marked m esign digits hm hesign hne hall =>
    cases r with
    | nil =>
      obtain ⟨-, rfl⟩ := List.cons_eq_cons.mp hr
      exact ⟨esign, digits, rfl, hesign, hne, hall⟩
    | cons d r =>
      -- and it is the only letter of the exponent
      obtain ⟨-, hrest⟩ := List.cons_eq_cons.mp hr
      have hmem : 'e' ∈ esign ++ digits := by simp [hrest]
      rcases List.mem_append.mp hmem with hmem | hmem
      · exact absurd hmem (hmark esign hesign)
      · exact absurd hmem (hdigit digits hall)

/-- A literal is not empty. -/
lemma ne_nil_of_isLiteral {t : Text} (h : Decimal.isLiteral t = true) : t ≠ [] := by
  rintro rfl
  obtain ⟨c, rest, hrev, -⟩ := last_of_isLiteral h
  simp at hrev

end DecimalCalculator
