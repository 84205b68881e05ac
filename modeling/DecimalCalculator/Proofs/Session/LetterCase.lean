import DecimalCalculator.Proofs.Expression.BareMark
import DecimalCalculator.Session.Evaluation

/-!
Letter case in the lines of a session.

* `removeBlanks_normalizeCase`, `preprocess_normalizeCase`: blanks go from a line as from its small
  letters, and a line that writes all its product signs is prepared as its small letters are.
* `Session.compute_normalizeCase`: an expression that keeps its division has the value of its small
  letters.
* `Session.evaluateLine_normalizeCase_iff`: **a line is worth what its small letters are** exactly
  if its prepared text keeps its division and differences in the missing product signs do not
  matter, or both fail alike; `Session.evaluateLine_normalizeCase` for lines that write all their
  product signs.
* `Session.not_forall_evaluateLine_normalizeCase`: the letters of other lines matter.
-/

namespace DecimalCalculator

/-! ### Preparation -/

/-- Blanks go from a text as from its small letters. -/
lemma removeBlanks_normalizeCase (t : Text) :
    removeBlanks (normalizeCase t) = normalizeCase (removeBlanks t) := by
  induction t with
  | nil => rfl
  | cons c t ih =>
    have hcons : removeBlanks (c :: t) =
        if !isBlank c then c :: removeBlanks t else removeBlanks t :=
      List.filter_cons
    have happend : removeBlanks (lowered c ++ normalizeCase t) =
        removeBlanks (lowered c) ++ removeBlanks (normalizeCase t) := List.filter_append _ _
    rw [normalizeCase_cons, happend, ih, hcons]
    cases hc : isBlank c with
    | true =>
      have hcaseless : isCaseless c = true := by simp [isCaseless, hc]
      rw [isSmall_of_isCaseless hcaseless]
      simp [removeBlanks, hc]
    | false =>
      have hlowered : removeBlanks (lowered c) = lowered c := by
        refine List.filter_eq_self.mpr fun d hd => ?_
        cases hd' : isBlank d with
        | false => rfl
        | true =>
          have hcaseless : isCaseless d = true := by simp [isCaseless, hd']
          obtain rfl := (mem_lowered_iff_of_isCaseless hcaseless).mp hd
          rw [hc] at hd'
          exact absurd hd' (by decide)
      rw [hlowered, Bool.not_false, if_pos rfl, normalizeCase_cons]

/-- A line that writes all its product signs, in its own and in small letters, is prepared as its
small letters are. -/
lemma preprocess_normalizeCase {line : Text} (h : preprocess line = removeBlanks line)
    (hsmall : preprocess (normalizeCase line) = removeBlanks (normalizeCase line)) :
    preprocess (normalizeCase line) = normalizeCase (preprocess line) := by
  rw [hsmall, h, removeBlanks_normalizeCase]

/-! ### Values of lines -/

namespace Session

variable (s : Session) (draws : Draws)

/-- An expression that keeps its division has the value of its small letters. -/
lemma compute_normalizeCase {t : Text} (h : KeepsDivision t) :
    s.compute draws (normalizeCase t) = s.compute draws t := by
  rw [compute, compute, allowedDepth, normalizeCase_idem, ← allowedDepth,
    evaluateWithin_normalizeCase h]

/-- An expression with a value keeps its division. -/
lemma keepsDivision_of_compute {t : Text} {x : Decimal} (h : s.compute draws t = .ok x) :
    KeepsDivision t :=
  keepsDivision_of_hasValue (hasValue_of_compute h)

/-- **Letter case**: a line that writes all its product signs and holds no capital `E` comes to what
its small letters come to. -/
theorem evaluateLine_normalizeCase {line : Text} (h : preprocess line = removeBlanks line)
    (hsmall : preprocess (normalizeCase line) = removeBlanks (normalizeCase line))
    (hcapital : 'E' ∉ line) :
    s.evaluateLine draws (normalizeCase line) = s.evaluateLine draws line := by
  have hkeeps : KeepsDivision (preprocess line) := by
    rw [h]
    exact keepsDivision_of_not_mem fun hmem => hcapital (List.mem_of_mem_filter hmem)
  rw [evaluateLine, evaluateLine, evaluate, evaluate, preprocess_normalizeCase h hsmall,
    s.compute_normalizeCase draws hkeeps]

/-- **Letter case**: a line comes to what its small letters come to exactly if its prepared text keeps
its division and the product signs that are missing in small letters only, or in the line only, make
no difference, or if both lines fail alike. -/
theorem evaluateLine_normalizeCase_iff (line : Text) :
    s.evaluateLine draws (normalizeCase line) = s.evaluateLine draws line ↔
      (KeepsDivision (preprocess line) ∧ s.compute draws (preprocess (normalizeCase line)) =
          s.compute draws (normalizeCase (preprocess line))) ∨
        ∃ f, s.evaluateLine draws line = (.error f, s) ∧
          s.evaluateLine draws (normalizeCase line) = (.error f, s) := by
  constructor
  · intro hsame
    cases hvalue : s.compute draws (preprocess line) with
    | ok x =>
      have hkeeps := s.keepsDivision_of_compute draws hvalue
      refine Or.inl ⟨hkeeps, ?_⟩
      rw [s.compute_normalizeCase draws hkeeps, hvalue]
      rw [evaluateLine, evaluateLine, evaluate, evaluate, hvalue] at hsame
      -- a line that fails would not come to the value of the other one
      cases hsmall : s.compute draws (preprocess (normalizeCase line)) with
      | ok y =>
        rw [hsmall] at hsame
        exact congrArg Prod.fst hsame
      | error f =>
        rw [hsmall] at hsame
        exact congrArg Prod.fst hsame
    | error f =>
      have hfails : s.evaluateLine draws line = (.error f, s) := by
        rw [evaluateLine, evaluate, hvalue]
      exact Or.inr ⟨f, hfails, hsame.trans hfails⟩
  · rintro (⟨hkeeps, hproducts⟩ | ⟨f, hfails, hsmall⟩)
    · rw [evaluateLine, evaluateLine, evaluate, evaluate, hproducts,
        s.compute_normalizeCase draws hkeeps]
    · rw [hfails, hsmall]

/-- A constant, a register and a function may be written with capitals. -/
theorem evaluateLine_capitals :
    fresh.evaluateLine (Draws.ofSeed 0)
        (normalizeCase ['2', '*', 'P', 'i', '+', 'S', 'i', 'n', '(', 'A', 'N', 'S', ')']) =
      fresh.evaluateLine (Draws.ofSeed 0)
        ['2', '*', 'P', 'i', '+', 'S', 'i', 'n', '(', 'A', 'N', 'S', ')'] := by
  refine (fresh.evaluateLine_normalizeCase_iff (Draws.ofSeed 0) _).mpr (Or.inl ⟨?_, ?_⟩)
  · exact keepsDivision_of_not_mem (by decide)
  · exact congrArg (fresh.compute (Draws.ofSeed 0)) (by decide)

/-- **Capitals matter** in other lines: `2pi` is twice the constant, and `2PI` is no name. -/
theorem not_forall_evaluateLine_normalizeCase :
    ¬ ∀ (s : Session) (draws : Draws) (line : Text),
      s.evaluateLine draws (normalizeCase line) = s.evaluateLine draws line := by
  intro h
  have hsmall : (fresh.evaluateLine (Draws.ofSeed 0) (normalizeCase ['2', 'P', 'I'])).1.toBool =
      true := by decide
  have hcapital : (fresh.evaluateLine (Draws.ofSeed 0) ['2', 'P', 'I']).1.toBool = false := by
    decide
  rw [h, hcapital] at hsmall
  exact absurd hsmall (by decide)

end Session

end DecimalCalculator
