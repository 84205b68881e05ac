import DecimalCalculator.Proofs.Expression.ExplicitProduct
import DecimalCalculator.Proofs.Session.Brackets

/-!
Lines that hold nothing but a literal.

* `isExplicit_of_literal`: literals are explicit, with a small or a capital mark: no literal holds
  both.
* `evaluateWithin_literal`: a literal has the value that it spells, to every depth above zero.
* `Session.evaluateLine_literal`: **a line with a literal**, in any number of brackets, stays as it
  is in preparation, and the answer is the decimal that the literal spells.
* `Session.compute_numeral`: **the numerals** in the slots of a function are worth their numbers.
-/

namespace DecimalCalculator

variable {t : Text}

/-! ### Preparation -/

/-- A literal with a capital mark holds no small one. -/
lemma small_mark_notMem {t : Text} (h : Decimal.isLiteral t = true) (hcapital : 'E' ∈ t) :
    'e' ∉ t := by
  obtain ⟨sign, number, exponent, rfl, hsign, hnumber, hexponent⟩ := Decimal.isLiteralForm h
  -- neither signs nor numerals are letters
  have hsigns : ∀ {c u}, c = 'e' ∨ c = 'E' → IsSign u → c ∉ u := by
    rintro c u (rfl | rfl) (rfl | rfl | rfl) <;> decide
  have hdigits : ∀ {c u}, c = 'e' ∨ c = 'E' → AllDigits u → c ∉ u := by
    rintro c u (rfl | rfl) hu hmem <;> exact absurd (hu _ hmem) (by decide)
  have hletter : ∀ {c}, c = 'e' ∨ c = 'E' → c ∈ sign ++ (number ++ exponent) → c ∈ exponent := by
    intro c hc hmem
    rcases List.mem_append.mp hmem with hmem | hmem
    · exact absurd hmem (hsigns hc hsign)
    · rcases List.mem_append.mp hmem with hmem | hmem
      · have := hnumber.isNumeral hmem
        rcases hc with rfl | rfl <;> exact absurd this (by decide)
      · exact hmem
  intro hsmall
  have hE := hletter (Or.inr rfl) hcapital
  have he := hletter (Or.inl rfl) hsmall
  cases hexponent with
  | none => exact absurd he (by simp)
  | @marked m esign digits hm hesign hne hall =>
    -- so both would be the mark
    have hmark : ∀ {c}, c = 'e' ∨ c = 'E' → c ∈ m :: (esign ++ digits) → c = m := by
      intro c hc hmem
      rcases List.mem_cons.mp hmem with rfl | hmem
      · rfl
      · rcases List.mem_append.mp hmem with hmem | hmem
        · exact absurd hmem (hsigns hc hesign)
        · exact absurd hmem (hdigits hc hall)
    have hsame : 'e' = 'E' := (hmark (Or.inl rfl) he).trans (hmark (Or.inr rfl) hE).symm
    exact absurd hsame (by decide)

/-- No character of a literal with a capital mark begins or ends a factor. -/
lemma isExplicit_of_capital_mark (h : Decimal.isLiteral t = true) (hcapital : 'E' ∈ t) :
    IsExplicit t := by
  have hsmall := small_mark_notMem h hcapital
  rintro a c b rfl
  rw [List.append_nil, List.append_nil]
  have hplain : isBlank c = false ∧ beginsFactor c = false ∧ endsFactor c = false := by
    rcases char_of_isLiteral h (c := c) (by simp) with hnumeral | rfl | rfl | rfl | rfl
    · exact not_beginsFactor_of_isNumeral hnumeral
    · decide
    · decide
    · exact absurd (by simp) hsmall
    · decide
  refine ⟨hplain.1, missesBefore_of_not_beginsFactor hplain.2.1,
    missesAfter_of_not_endsFactor hplain.2.2, fun _ hmark => ?_⟩
  -- what looks like a mark is a small letter
  unfold looksMarked at hmark
  split at hmark
  · next m n rest hrev =>
    have hmem : m ∈ a := by rw [← List.mem_reverse, hrev]; simp
    obtain ⟨rfl, -⟩ : m = 'e' ∧ isNumeral n = true := by simpa using hmark
    exact absurd (by simp [hmem]) hsmall
  · exact absurd hmark (by decide)

/-- **Literals** are explicit. -/
theorem isExplicit_of_literal (h : Decimal.isLiteral t = true) : IsExplicit t := by
  by_cases hcapital : 'E' ∈ t
  · exact isExplicit_of_capital_mark h hcapital
  · exact isExplicit_of_isLiteral h hcapital

/-- Pairs of brackets around an explicit text are explicit. -/
lemma IsExplicit.iterate_wrap (h : IsExplicit t) (k : ℕ) : IsExplicit (wrap^[k] t) := by
  induction k with
  | zero => exact h
  | succ k ih =>
    rw [Function.iterate_succ_apply']
    exact ih.append_close.open_cons

/-! ### Values -/

section Values

variable {s : Session} {draws : Draws} {place : Place} {x : Decimal}

/-- In small letters a literal spells the same decimal. -/
lemma ofText?_normalizeCase (h : Decimal.ofText? t = some x) :
    Decimal.ofText? (normalizeCase t) = some x := by
  rw [Decimal.normalizeCase_eq_map_smallMark fun c hc =>
    char_of_isLiteral (Decimal.isLiteral_of_ofText? h) hc, Decimal.ofText?_map_smallMark, h]

/-- No bracket stands in a literal. -/
lemma not_isBracket_of_isLiteral (h : Decimal.isLiteral t = true) :
    ∀ c ∈ t, isBracket c = false := by
  intro c hc
  rcases char_of_isLiteral h hc with hnumeral | rfl | rfl | rfl | rfl
  · exact (plain_of_isNumeral hnumeral).1
  all_goals decide

/-- A literal keeps its division: it has none. -/
lemma keepsDivision_of_isLiteral (h : Decimal.isLiteral t = true) : KeepsDivision t := by
  obtain ⟨c, rest, rfl⟩ := List.exists_cons_of_ne_nil (ne_nil_of_isLiteral h)
  have hstrip : stripWrapping (c :: rest) = c :: rest :=
    stripWrapping_of_isOutside (isOutside_front (not_isBracket_of_isLiteral h c (by simp)))
  refine .term ?_
  rw [division, hstrip]
  exact loosest?_literal h

/-- **Literals** have the value that they spell, with a small or a capital mark. -/
theorem evaluateWithin_literal (h : Decimal.ofText? t = some x) (depth : ℕ) :
    evaluateWithin s draws (depth + 1) place t = .value x := by
  have hcapital : 'E' ∉ normalizeCase t := by
    intro hmem
    obtain ⟨c, -, hc⟩ := List.mem_flatMap.mp hmem
    exact absurd (isSmall_of_mem_lowered hc) (by decide)
  rw [← evaluateWithin_normalizeCase
    (keepsDivision_of_isLiteral (Decimal.isLiteral_of_ofText? h)) (depth + 1) place]
  exact evaluateStep_literal (ofText?_normalizeCase h) hcapital

namespace Session

/-- **Literals pass through untouched**: preparation leaves a literal as it is, and in every session
the line is worth the very decimal that the literal spells, which becomes the answer. That is so in
any number of brackets, and in none. -/
theorem evaluateLine_literal (s : Session) (draws : Draws) (h : Decimal.ofText? t = some x)
    (k : ℕ) :
    preprocess (wrap^[k] t) = wrap^[k] t ∧
      s.evaluateLine draws (wrap^[k] t) = (.ok x, { s with answer := x }) := by
  have hliteral := Decimal.isLiteral_of_ofText? h
  have hprepared : preprocess (wrap^[k] t) = wrap^[k] t :=
    preprocess_eq_self ((isExplicit_of_literal hliteral).iterate_wrap k)
  have hvalue : s.compute draws (wrap^[k] t) = .ok x := by
    obtain ⟨depth, hdepth⟩ := Nat.exists_eq_add_one_of_ne_zero
      (Nat.ne_of_gt ((Nat.zero_le _).trans_lt (s.marks_lt_allowedDepth (wrap^[k] t))))
    rw [compute, hdepth, evaluateWithin_iterate_wrap
      (bracketsBalanced_of_noBracket (not_isBracket_of_isLiteral hliteral)),
      evaluateWithin_literal h]
    rfl
  refine ⟨hprepared, ?_⟩
  rw [evaluateLine, hprepared, evaluate, hvalue]

/-- A literal with signs, a point at its end and a capital mark, in two pairs of brackets: its zeros
count for the scale. -/
theorem evaluateLine_literal_capital :
    preprocess (text "((-20.E+03))") = text "((-20.E+03))" ∧
      fresh.evaluateLine (Draws.ofSeed 0) (text "((-20.E+03))") =
        (.ok ⟨-20, -3⟩, { fresh with answer := ⟨-20, -3⟩ }) :=
  fresh.evaluateLine_literal (Draws.ofSeed 0) (t := text "-20.E+03") (by decide) 2

/-! ### Numerals in slots -/

/-- **Slots take numerals**: filling the slots of a function puts the number, without exponent and
in brackets, in place of every variable of its text, and leaves the other characters as they are. In
every session such a numeral is worth the number that it stands for, if the scale is in the range of
literals. -/
theorem compute_numeral (s : Session) (draws : Draws) (t : Text) (x : Decimal) :
    (Template.ofText t).render x =
        t.flatMap (fun c => if c = variableLetter then '(' :: (x.plain ++ [')']) else [c]) ∧
      (|x.scale| ≤ 2 ^ 31 - 1 →
        ∃ y, s.compute draws ('(' :: (x.plain ++ [')'])) = .ok y ∧ y ≈ x) := by
  refine ⟨Template.render_ofText t x, fun hscale => ?_⟩
  obtain ⟨y, hy, hequiv⟩ := Decimal.plain_reads hscale
  have hbalanced : bracketsBalanced x.plain = true :=
    bracketsBalanced_of_noBracket (not_isBracket_of_isLiteral (Decimal.isLiteral_of_ofText? hy))
  obtain ⟨depth, hdepth⟩ := Nat.exists_eq_add_one_of_ne_zero
    (Nat.ne_of_gt ((Nat.zero_le _).trans_lt (s.marks_lt_allowedDepth (wrap x.plain))))
  have hvalue : s.compute draws (wrap x.plain) = .ok y := by
    rw [compute, hdepth, evaluateWithin_wrap s draws [] hbalanced, evaluateWithin_literal hy]
    rfl
  exact ⟨y, hvalue, hequiv⟩

/-- The slots of `exp(x)` are two, one of them in the name; a numeral in a slot is worth its
number. -/
theorem compute_numeral_quarter :
    (Template.ofText (text "exp(x)")).render ⟨-25, 2⟩ = text "e(-0.25)p((-0.25))" ∧
      |(⟨-25, 2⟩ : Decimal).scale| ≤ 2 ^ 31 - 1 ∧
        ∃ y, fresh.compute (Draws.ofSeed 0) (text "(-0.25)") = .ok y ∧ y ≈ ⟨-25, 2⟩ := by
  obtain ⟨hrender, hvalue⟩ := fresh.compute_numeral (Draws.ofSeed 0) (text "exp(x)") ⟨-25, 2⟩
  have hscale : |(⟨-25, 2⟩ : Decimal).scale| ≤ 2 ^ 31 - 1 := by decide
  exact ⟨hrender.trans (by decide), hscale, hvalue hscale⟩

end Session

end Values

end DecimalCalculator
