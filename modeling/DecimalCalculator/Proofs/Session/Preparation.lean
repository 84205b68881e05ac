import DecimalCalculator.Proofs.Expression.ExplicitProduct
import DecimalCalculator.Proofs.Text.AddedProducts
import DecimalCalculator.Session.Evaluation

/-!
What preparation does to the value of a line.

* `Avoids.insertProducts`: preparation brings no name into a text.
* `Session.preprocess_of_compute`: **a text that has a value** stays as it is in preparation.
* `Session.isExponentSign_insertProducts`: **a sign after an `e` that preparation leaves to its
  numeral** is that of an exponent if a digit follows it, and else the text has no value.
* `Session.not_forall_isExponentSign_insertProducts`: preparation does not look at what follows the
  sign.
-/

namespace DecimalCalculator

/-! ### Prepared texts -/

/-- A text avoids after preparation what it avoids before. -/
lemma Avoids.insertProducts {words : List Text} {t : Text} (h : Avoids words t)
    (hwords : ∀ w ∈ words, '*' ∉ w) : Avoids words (DecimalCalculator.insertProducts t) where
  small := by
    refine normalizeCase_eq_self fun c hc => ?_
    rcases (addsProducts_insertProductsAfter none t).mem hc with rfl | hc
    · exact show lowered '*' = ['*'] by decide
    · exact isSmall_of_normalizeCase_eq_self h.small hc
  absent w hw hoccurs := h.absent w hw
    ((addsProducts_insertProductsAfter none t).infix_of_not_mem (hwords w hw) hoccurs)

/-- A text in small letters in which no function register is named. -/
lemma avoids_functionRegisters {t : Text} (hsmall : normalizeCase t = t)
    (hanswer : ¬ ['f', 'a', 'n', 's'] <:+: t) (hmemory : ¬ ['f', 'm', 'e', 'm'] <:+: t) :
    Avoids functionRegisters t := by
  refine ⟨hsmall, fun w hw => ?_⟩
  simp only [functionRegisters, List.mem_cons, List.not_mem_nil, or_false] at hw
  rcases hw with rfl | rfl
  · exact hanswer
  · exact hmemory

namespace Session

variable {s : Session} {draws : Draws} {t : Text} {x : Decimal}

/-! ### Texts with a value -/

/-- **Preparation** leaves a text as it is that has a value already, so that the text has the same
value as a line. -/
theorem preprocess_of_compute (hsmall : normalizeCase t = t)
    (hanswer : ¬ ['f', 'a', 'n', 's'] <:+: t) (hmemory : ¬ ['f', 'm', 'e', 'm'] <:+: t)
    (hvalue : s.compute draws t = .ok x) :
    preprocess t = t ∧ s.evaluateLine draws t = (.ok x, { s with answer := x }) := by
  have hexplicit : IsExplicit t :=
    isExplicit_of_hasValue (avoids_functionRegisters hsmall hanswer hmemory)
      (hasValue_of_compute hvalue)
  have hprepared := preprocess_eq_self hexplicit
  exact ⟨hprepared, by rw [evaluateLine, hprepared, evaluate, hvalue]⟩

/-- A sum over a function of the variable, a constant and a literal with an exponent. -/
theorem preprocess_of_compute_sum :
    preprocess (text "sum(x*x,1,3)-2e+1") = text "sum(x*x,1,3)-2e+1" ∧
      fresh.evaluateLine (Draws.ofSeed 0) (text "sum(x*x,1,3)-2e+1") =
        (.ok ⟨-6, 0⟩, { fresh with answer := ⟨-6, 0⟩ }) := by
  refine preprocess_of_compute (by decide) (by decide) (by decide) ?_
  decide +kernel

/-! ### Signs of exponents -/

/-- A sign between two texts belongs to an exponent if it does so in the text of both. -/
lemma isExponentSign_append (a b : Text) (c : Char) :
    isExponentSign (a ++ c :: b) a.length = betweenIsExponent a.reverse b := by
  simp [isExponentSign]

/-- An `e` after a digit or a point is a mark, unless no digit stands before the point. -/
lemma endsInMark_iff {before : Text} {n : Char} (hn : isNumeral n = true) :
    EndsInMark ('e' :: n :: before) ↔ n.isDigit = true ∨ StartsWithDigit before := by
  constructor
  · intro h
    cases h with
    | digit hd => exact Or.inl hd
    | @point d rest hd => exact Or.inr ⟨d, rest, rfl, hd⟩
  · rintro (hd | ⟨d, rest, rfl, hd⟩)
    · exact .digit hd
    · rw [isNumeral, Bool.or_eq_true, decide_eq_true_eq] at hn
      rcases hn with hn | rfl
      · exact .digit hn
      · exact .point hd

/-- **Signs of exponents**: a sign after an `e` that preparation leaves to its numeral belongs to an
exponent exactly if a digit follows it and the numeral holds a digit next to the `e` or to a point
before it. In every text with a value that names no function register that is so. -/
theorem isExponentSign_insertProducts {a b : Text} {n c : Char}
    (hsplit : insertProducts t = a ++ n :: 'e' :: c :: b) (hn : isNumeral n = true)
    (hc : c = '+' ∨ c = '-') :
    (isExponentSign (insertProducts t) (a.length + 2) = true ↔
        StartsWithDigit b ∧ (n.isDigit = true ∨ StartsWithDigit a.reverse)) ∧
      ∀ (s : Session) (draws : Draws) (x : Decimal), Avoids functionRegisters t →
        s.compute draws (insertProducts t) = .ok x →
          isExponentSign (insertProducts t) (a.length + 2) = true := by
  have hsign : insertProducts t = (a ++ [n, 'e']) ++ c :: b := by simp [hsplit]
  have hbetween : isExponentSign (insertProducts t) (a.length + 2) =
      betweenIsExponent ('e' :: n :: a.reverse) b := by
    have := isExponentSign_append (a ++ [n, 'e']) b c
    rw [← hsign] at this
    simpa using this
  constructor
  · rw [hbetween, betweenIsExponent_iff, endsInMark_iff hn, and_comm]
  · intro s draws x havoids hvalue
    have hexplicit :=
      isExplicit_of_hasValue (havoids.insertProducts (by decide)) (hasValue_of_compute hvalue)
    have hexponent := (hexplicit _ _ _ hsign).exponent hc (by simp [looksMarked, hn])
    rw [hbetween]
    simpa using hexponent

/-- The sign in `2e+3pi` is that of an exponent, and the text has a value. -/
theorem isExponentSign_insertProducts_product :
    isExponentSign (insertProducts (text "2e+3pi")) 2 = true ∧
      (fresh.compute (Draws.ofSeed 0) (insertProducts (text "2e+3pi"))).toBool = true := by
  have hvalue : fresh.compute (Draws.ofSeed 0) (insertProducts (text "2e+3pi")) =
      .ok ⟨62831853071795864769252867665590, 28⟩ := by decide +kernel
  have hsplit : insertProducts (text "2e+3pi") = [] ++ '2' :: 'e' :: '+' :: text "3*pi" := by decide
  refine ⟨(isExponentSign_insertProducts hsplit (by decide) (by decide)).2 fresh (Draws.ofSeed 0) _
    (avoids_functionRegisters (by decide) (by decide) (by decide)) hvalue, ?_⟩
  rw [hvalue]
  rfl

/-- **Preparation looks one character ahead**: in `2e+pi` it leaves the `e` to the numeral, while
the sign is no sign of an exponent. The text has no value then, and the product has one. -/
theorem not_forall_isExponentSign_insertProducts :
    (¬ ∀ (t a b : Text) (n c : Char), normalizeCase t = t →
        insertProducts t = a ++ n :: 'e' :: c :: b → isNumeral n = true → c = '+' ∨ c = '-' →
          isExponentSign (insertProducts t) (a.length + 2) = true) ∧
      (fresh.evaluateLine (Draws.ofSeed 0) (text "2e+pi")).1 = .error .unknownName ∧
      (fresh.evaluateLine (Draws.ofSeed 0) (text "2*e+pi")).1 =
        .ok ⟨8578156310507883709183218325984802884197169399, 45⟩ := by
  refine ⟨fun h => ?_, by decide +kernel, by decide +kernel⟩
  have := h (text "2e+pi") [] (text "pi") '2' '+' (by decide) (by decide) (by decide) (by decide)
  exact absurd this (by decide)

end Session

end DecimalCalculator
