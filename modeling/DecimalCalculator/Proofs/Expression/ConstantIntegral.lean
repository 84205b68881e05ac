import DecimalCalculator.Proofs.Decimal.Nearness
import DecimalCalculator.Proofs.Expression.Aggregate
import DecimalCalculator.Proofs.Expression.SamplePoints
import DecimalCalculator.Proofs.Expression.Words

/-!
Integrals of the constant one.

* `sum_cycleWeight_mul`: **the weights** of a rule go through its cycle turn by turn.
  `QuadratureRule.sum_weight`: they add up to a multiple of its divisions.
* `QuadratureRule.roundedFactor`: the factor of a rule, with all its roundings. Without them it
  would be the width divided by the sum of the weights, and `QuadratureRule.near_factor` says how
  near it is.
* `compute_constantIntegral`: **the integral of one** is the sum of the weights times the factor,
  rounded once more, and when that is the width of the interval.
* `not_forall_constantIntegral_exact`: it is not always.
-/

namespace DecimalCalculator

open Decimal

/-! ### Sums of weights -/

/-- The weights of a cycle add up to its sum. -/
lemma sum_getD (cycle : List ℕ) :
    ∑ r ∈ Finset.range cycle.length, cycle.getD r 1 = cycle.sum := by
  induction cycle with
  | nil => rfl
  | cons w cycle ih =>
    rw [List.length_cons, Finset.sum_range_succ', List.sum_cons, ← ih, add_comm]
    rfl

/-- Some turns of a cycle go one after the other. -/
lemma sum_turns {R : Type*} [AddCommMonoid R] (length n : ℕ) (f : ℕ → R) :
    ∑ i ∈ Finset.range (length * n), f i =
      ∑ j ∈ Finset.range n, ∑ r ∈ Finset.range length, f (length * j + r) := by
  induction n with
  | zero => rfl
  | succ n ih => rw [Nat.mul_succ, Finset.sum_range_add, ih, Finset.sum_range_succ]

/-- **The weights** of some turns of a cycle are those of the cycle, with a one at both ends in
place of the first weight of a turn. -/
theorem sum_cycleWeight_mul {R : Type*} [CommSemiring R] (cycle : List ℕ) {n : ℕ} (hn : 0 < n)
    (hcycle : cycle.head? = some 2) (f : ℕ → R) :
    ∑ i ∈ Finset.range (cycle.length * n + 1), (cycleWeight (cycle.length * n) cycle i : R) * f i +
        f 0 =
      ∑ j ∈ Finset.range n, ∑ r ∈ Finset.range cycle.length,
        (cycle.getD r 1 : R) * f (cycle.length * j + r) + f (cycle.length * n) := by
  obtain ⟨rest, hrest⟩ := List.head?_eq_some_iff.mp hcycle
  have hlength : 0 < cycle.length := by simp [hrest]
  obtain ⟨p, hp⟩ := Nat.exists_eq_succ_of_ne_zero (Nat.mul_pos hlength hn).ne'
  have hinside : ∀ i ∈ Finset.range p,
      (cycleWeight (cycle.length * n) cycle (i + 1) : R) * f (i + 1) =
        cycle.getD ((i + 1) % cycle.length) 1 * f (i + 1) := by
    intro i hi
    have := Finset.mem_range.mp hi
    rw [cycleWeight, if_neg (by omega)]
  have hfirst : cycleWeight (cycle.length * n) cycle 0 = 1 := if_pos (Or.inl rfl)
  have hlast : cycleWeight (cycle.length * n) cycle (p + 1) = 1 := if_pos (Or.inr hp.symm)
  have hturn : cycle.getD (0 % cycle.length) 1 = 2 := by simp [hrest]
  calc _ = ∑ i ∈ Finset.range p, (cycle.getD ((i + 1) % cycle.length) 1 : R) * f (i + 1) + f 0 +
          f (p + 1) + f 0 := by
        rw [hp, Finset.sum_range_succ, Finset.sum_range_succ', ← hp,
          Finset.sum_congr rfl hinside, hfirst, hlast, Nat.cast_one, one_mul, one_mul]
    _ = ∑ i ∈ Finset.range (p + 1), (cycle.getD (i % cycle.length) 1 : R) * f i + f (p + 1) := by
        rw [Finset.sum_range_succ', hturn]
        push_cast
        ring
    _ = _ := by
        rw [← Nat.succ_eq_add_one, ← hp, sum_turns]
        refine congrArg (· + _) (Finset.sum_congr rfl fun j _ =>
          Finset.sum_congr rfl fun r hr => ?_)
        rw [Nat.mul_add_mod, Nat.mod_eq_of_lt (Finset.mem_range.mp hr)]

/-- The weights of some turns of a cycle add up to a multiple of its sum. -/
lemma sum_cycleWeight (cycle : List ℕ) {n : ℕ} (hn : 0 < n) (hcycle : cycle.head? = some 2) :
    ∑ i ∈ Finset.range (cycle.length * n + 1), cycleWeight (cycle.length * n) cycle i =
      n * cycle.sum := by
  have hsum := sum_cycleWeight_mul cycle hn hcycle fun _ => 1
  simp only [Nat.cast_id, mul_one, sum_getD, Finset.sum_const, Finset.card_range,
    smul_eq_mul] at hsum
  exact Nat.add_right_cancel hsum

namespace QuadratureRule

/-- The sum of the weights of a rule. -/
def weightSum (rule : QuadratureRule) (divisions : Divisions) : ℕ :=
  match rule with
  | rectangle | midpoint => divisions.count
  | trapezoid => divisions.count * 2
  | simpson => divisions.count * 6
  | simpson38 => divisions.count * 8

/-- The factor of a rule over an interval of some width, each operation rounded. -/
def roundedFactor (rule : QuadratureRule) (divisions : Divisions) (width : ℚ) : ℚ :=
  let panel := roundedPanel width (rule.panels divisions)
  match rule with
  | rectangle | midpoint => panel
  | trapezoid => roundSignificant workingDigits (panel / 2)
  | simpson => roundSignificant workingDigits (panel / 3)
  | simpson38 =>
    roundSignificant workingDigits (roundSignificant workingDigits (panel * 3) / 8)

variable (rule : QuadratureRule) (divisions : Divisions) (a b : Decimal)

/-- **The weights** of a rule add up to a multiple of its divisions. -/
theorem sum_weight : ∑ i ∈ Finset.range (rule.onInterval divisions a b).points,
    (rule.onInterval divisions a b).weight i = rule.weightSum divisions := by
  have hpos := divisions.count_pos
  have hone : ∀ n : ℕ, ∑ _i ∈ Finset.range n, 1 = n := fun n => by simp
  cases rule with
  | rectangle => exact hone divisions.count
  | midpoint => exact hone divisions.count
  | trapezoid =>
    have h := sum_cycleWeight [2] hpos rfl
    rwa [List.length_singleton, one_mul] at h
  | simpson => exact sum_cycleWeight [2, 4] hpos rfl
  | simpson38 => exact sum_cycleWeight [2, 3, 3] hpos rfl

/-- The weights are small numbers. -/
lemma weight_lt (i : ℕ) : (rule.onInterval divisions a b).weight i < 10 := by
  have hcycle : ∀ (panels : ℕ) (cycle : List ℕ), (∀ w ∈ cycle, w < 10) →
      cycleWeight panels cycle i < 10 := by
    intro panels cycle hcycle
    rw [cycleWeight]
    split
    · norm_num
    · rw [List.getD_eq_getElem?_getD]
      cases hw : cycle[i % cycle.length]? with
      | none => norm_num
      | some w => exact hcycle w (List.mem_of_getElem? hw)
  cases rule with
  | rectangle | midpoint => exact Nat.one_lt_succ_succ 8
  | trapezoid | simpson | simpson38 => exact hcycle _ _ (by decide)

/-- The factor of a rule is that of the width of its interval. -/
lemma toRat_factor : (rule.onInterval divisions a b).factor.toRat =
    rule.roundedFactor divisions (b.toRat - a.toRat) := by
  cases rule <;>
    simp only [onInterval, Quadrature.inPanels, Quadrature.overPanels, roundedFactor, roundedPanel,
      panels, toRat_dividedBy, toRat_mul, toRat_sub, toRat_ofInt, Int.cast_ofNat, Nat.cast_ofNat]

/-- The factor of a rule is the width divided by the sum of the weights, up to three roundings. -/
theorem near_factor (width : ℚ) :
    IsNear ((1 + halfUnit) ^ 3 - 1) (rule.roundedFactor divisions width)
      (width / rule.weightSum divisions) := by
  have hunit : 0 ≤ halfUnit := by norm_num [halfUnit]
  have hone : 1 ≤ 1 + halfUnit := by linarith
  have hpos : (0 : ℝ) < divisions.count := by exact_mod_cast divisions.count_pos
  have hpanel : ∀ p : ℕ, IsNear ((1 + halfUnit) ^ 1 - 1) (roundedPanel width p) (width / p) := by
    intro p
    have h := near_roundSignificant (width / p)
    push_cast at h
    rwa [pow_one, add_sub_cancel_left]
  -- one more operation with an exact operand, and its rounding
  have hnext : ∀ {k : ℕ} {q : ℚ} {exact : ℝ} (q' : ℚ) (c : ℝ), (q' : ℝ) = q * c →
      IsNear ((1 + halfUnit) ^ k - 1) q exact →
      IsNear ((1 + halfUnit) ^ (k + 1) - 1) (roundSignificant workingDigits q') (exact * c) := by
    intro k q exact q' c hq' hq
    have hscaled := (near_roundSignificant q').trans (hq' ▸ hq.mul (IsNear.refl c)) hunit
    refine hscaled.mono (le_of_eq ?_)
    ring
  have hfewer : ∀ {k : ℕ} {x y : ℝ}, k ≤ 3 → IsNear ((1 + halfUnit) ^ k - 1) x y →
      IsNear ((1 + halfUnit) ^ 3 - 1) x y := fun hk h =>
    h.mono (sub_le_sub_right (pow_le_pow_right₀ hone hk) 1)
  cases rule with
  | rectangle | midpoint => exact hfewer (by norm_num) (hpanel divisions.count)
  | trapezoid =>
    have h := hnext (roundedPanel width divisions.count / 2) (1 / 2) (by push_cast; ring)
      (hpanel divisions.count)
    have hexact : (width : ℝ) / divisions.count * (1 / 2) = width / (divisions.count * 2 : ℕ) := by
      push_cast
      field_simp
    exact hfewer (by norm_num) (hexact ▸ h)
  | simpson =>
    have h := hnext (roundedPanel width (2 * divisions.count) / 3) (1 / 3)
      (by push_cast; ring) (hpanel (2 * divisions.count))
    have hexact : (width : ℝ) / (2 * divisions.count : ℕ) * (1 / 3) =
        width / (divisions.count * 6 : ℕ) := by
      push_cast
      field_simp
      ring
    exact hfewer (by norm_num) (hexact ▸ h)
  | simpson38 =>
    have htripled := hnext (roundedPanel width (3 * divisions.count) * 3) 3 (by push_cast; ring)
      (hpanel (3 * divisions.count))
    have h := hnext (roundSignificant workingDigits
      (roundedPanel width (3 * divisions.count) * 3) / 8) (1 / 8) (by push_cast; ring) htripled
    have hexact : (width : ℝ) / (3 * divisions.count : ℕ) * 3 * (1 / 8) =
        width / (divisions.count * 8 : ℕ) := by
      push_cast
      field_simp
    exact hexact ▸ h

end QuadratureRule

/-! ### Sums of ones -/

/-- Samples of one add up to their weights. -/
lemma Quadrature.addSamples_one {q : Quadrature} (sample : Nat → Decimal → Outcome Decimal)
    (hweight : ∀ i, q.weight i < 10) (hsample : ∀ i x, sample i x = .value 1)
    (n i : ℕ) (x sum : Decimal) : ∃ total, q.addSamples sample n i x sum = .value total ∧
      total.toRat = sum.toRat + (∑ j ∈ Finset.range n, q.weight (i + j) : ℕ) := by
  induction n generalizing i x sum with
  | zero => exact ⟨sum, rfl, by simp⟩
  | succ n ih =>
    -- one times a small weight is not rounded
    have hweighted : (if q.weight i = 1 then (1 : Decimal)
        else 1 * ofInt (q.weight i)).toRat = q.weight i := by
      split
      · next hone => rw [hone, toRat_one, Nat.cast_one]
      · have hfits : |(q.weight i : ℤ)| < 10 ^ workingDigits := by
          rw [Nat.abs_cast]
          exact_mod_cast (hweight i).trans (by norm_num [workingDigits])
        rw [toRat_mul, toRat_one, one_mul, toRat_ofInt, roundSignificant_intCast hfits,
          Int.cast_natCast]
    obtain ⟨total, htotal, hsum⟩ := ih (i + 1) (x + q.spacing)
      (sum + if q.weight i = 1 then (1 : Decimal) else 1 * ofInt (q.weight i))
    refine ⟨total, by rw [addSamples, hsample]; exact htotal, ?_⟩
    rw [hsum, toRat_add, hweighted, Finset.sum_range_succ', add_zero]
    push_cast
    simp only [add_assoc, add_comm, add_left_comm]

/-! ### Integers as bounds -/

/-- The plain form of an integer. -/
lemma plain_ofInt (n : ℤ) : (ofInt n).plain = integerText n := by
  rcases eq_or_ne n 0 with rfl | hn
  · rfl
  · have hzero : (ofInt n).isZero = false := decide_eq_false hn
    rw [plain, hzero, integerText]
    by_cases hneg : n < 0 <;> simp [ofInt, withSign, isNegative, digits, zeros, hneg]

/-- An integer is read as itself. -/
lemma ofText?_integerText (n : ℤ) : ∃ x, ofText? (integerText n) = some x ∧ x ≈ ofInt n := by
  rw [← plain_ofInt]
  exact plain_reads (by simp [ofInt])

/-- Every integer is written somehow. -/
lemma integerText_ne_nil (n : ℤ) : integerText n ≠ [] := by
  obtain ⟨x, hx, -⟩ := ofText?_integerText n
  exact ne_nil_of_isLiteral (isLiteral_of_ofText? hx)

/-- An integer is written with digits and a minus sign. -/
lemma mem_integerText {n : ℤ} {c : Char} (h : c ∈ integerText n) : isNumeral c = true ∨ c = '-' := by
  rw [← plain_ofInt] at h
  exact mem_plain h

/-- An integer is an argument, in small letters, and no exponent is marked in it. -/
lemma isArgument_integerText (n : ℤ) : IsArgument (integerText n) ∧
    normalizeCase (integerText n) = integerText n ∧ 'E' ∉ integerText n := by
  have hkind : ∀ c, isNumeral c = true ∨ c = '-' → isBracket c = false ∧ IsSmall c := by
    rintro c (hc | rfl)
    · exact ⟨(plain_of_isNumeral hc).1, (plain_of_isNumeral hc).2.2⟩
    · decide
  refine ⟨.of_noBracket (fun c hc => (hkind c (mem_integerText hc)).1) fun h => ?_,
    normalizeCase_eq_self fun c hc => (hkind c (mem_integerText hc)).2, fun h => ?_⟩
  · rcases mem_integerText h with hc | hc <;> exact absurd hc (by decide)
  · rcases mem_integerText h with hc | hc <;> exact absurd hc (by decide)

/-! ### The integral of one -/

/-- The integral of one between two integers, `integral(1,a,b)`. -/
def constantIntegral (a b : ℤ) : Text :=
  callText Aggregate.integral.name ['1'] (integerText a) (integerText b)

section ConstantIntegral

variable {s : Session} {draws : Draws}

/-- The samples of the constant one. -/
lemma evaluateWithin_one (depth : ℕ) (place : Place) (x : Decimal) :
    evaluateWithin s draws (depth + 1) place ((s.template (wrap ['1'])).render x) = .value 1 := by
  have htemplate : s.template (wrap ['1']) = Template.ofText (wrap ['1']) :=
    Session.template_eq_of_avoids (List.Subset.refl _) ⟨by decide, by decide⟩
  have hrender : (s.template (wrap ['1'])).render x = wrap ['1'] := by
    rw [htemplate, Template.render_ofText]
    rfl
  have hliteral : ofText? ['1'] = some 1 := by decide
  rw [hrender, evaluateWithin_wrap s draws place (by decide)]
  exact evaluateStep_literal hliteral (by decide)

/-- Without roundings the factor of a rule times the sum of its weights is the width. -/
lemma near_area (rule : QuadratureRule) (divisions : Divisions) (width : ℚ) :
    IsNear ((1 + halfUnit) ^ 3 - 1)
      ((rule.weightSum divisions * rule.roundedFactor divisions width : ℚ) : ℝ) width := by
  have hpos : (0 : ℝ) < rule.weightSum divisions := by
    have := divisions.count_pos
    have hweights : 0 < rule.weightSum divisions := by
      cases rule <;> simp only [QuadratureRule.weightSum] <;> omega
    exact_mod_cast hweights
  have h := (IsNear.refl (rule.weightSum divisions : ℝ)).mul (rule.near_factor divisions width)
  rw [mul_div_cancel₀ _ hpos.ne'] at h
  push_cast
  exact h.mono (le_of_eq (by ring))

/-- An integral of one between integers is the area that its rule gives it, two levels deep. -/
lemma evaluateWithin_constantIntegral (s : Session) (draws : Draws) (a b : ℤ) {depth : ℕ}
    (hdepth : 2 ≤ depth) (place : Place) :
    ∃ v, evaluateWithin s draws depth place (constantIntegral a b) = .value v ∧
      v.toRat = roundSignificant workingDigits
        (s.rule.weightSum s.divisions * s.rule.roundedFactor s.divisions (b - a)) := by
  obtain ⟨depth, rfl⟩ : ∃ d, depth = d + 1 + 1 := ⟨depth - 2, by omega⟩
  obtain ⟨x, hx, hxa⟩ := ofText?_integerText a
  obtain ⟨y, hy, hyb⟩ := ofText?_integerText b
  obtain ⟨haArgument, haSmall, haMark⟩ := isArgument_integerText a
  obtain ⟨hbArgument, hbSmall, hbMark⟩ := isArgument_integerText b
  have hone : IsArgument ['1'] := .of_noBracket (by simp [isBracket]) (by simp)
  have hlower : evaluateWithin s draws (depth + 1) (.lower :: place) (integerText a) = .value x :=
    evaluateStep_literal hx haMark
  have hupper : evaluateWithin s draws (depth + 1) (.upper :: place) (integerText b) = .value y :=
    evaluateStep_literal hy hbMark
  have hlength : ¬ (argumentText ['1'] (integerText a) (integerText b)).length < 6 :=
    not_length_argumentText_lt (by simp) (integerText_ne_nil a) (integerText_ne_nil b)
  obtain ⟨total, htotal, hsum⟩ := Quadrature.addSamples_one
    (q := s.rule.onInterval s.divisions x y)
    (fun i z => evaluateWithin s draws (depth + 1) (.sample i :: place)
      ((s.template (wrap ['1'])).render z))
    (s.rule.weight_lt s.divisions x y) (fun i z => evaluateWithin_one depth _ z)
    (s.rule.onInterval s.divisions x y).points 0 (s.rule.onInterval s.divisions x y).first 0
  refine ⟨total * (s.rule.onInterval s.divisions x y).factor, ?_, ?_⟩
  · rw [evaluateWithin, constantIntegral, evaluateStep_callText (a := .integral) (by decide) hone
      haArgument hbArgument, show normalizeCase ['1'] = ['1'] by decide, haSmall, hbSmall,
      evaluateAggregate, if_neg hlength, Arguments.ofCall?_argumentText hone haArgument hbArgument]
    show evaluateIntegral s (evaluateWithin s draws (depth + 1)) place
      ⟨wrap ['1'], integerText a, integerText b⟩ = _
    rw [evaluateIntegral, hlower, Outcome.value_bind, hupper, Outcome.value_bind, Quadrature.total,
      htotal]
    rfl
  · rw [equiv_iff, toRat_ofInt] at hxa hyb
    have hweights := s.rule.sum_weight s.divisions x y
    simp only [zero_add] at hsum
    rw [toRat_mul, hsum, hweights, toRat_zero, zero_add, QuadratureRule.toRat_factor, hxa, hyb]

/-- **The integral of one** between two integers in order has a value, the sum of the weights of the
rule times its factor, rounded. It is the width of the interval up to four roundings, and equal to
the width exactly if that is a multiple of the last place and the nearest one to the product. -/
theorem compute_constantIntegral (s : Session) (draws : Draws) {a b : ℤ} (hlt : a < b) :
    let area : ℚ := s.rule.weightSum s.divisions * s.rule.roundedFactor s.divisions (b - a)
    ∃ v, s.compute draws (constantIntegral a b) = .ok v ∧
      v.toRat = roundSignificant 32 area ∧ |v.toRat - (b - a)| ≤ (b - a) * (21 / 10 ^ 32) ∧
      (v ≈ ofInt (b - a) ↔ (∃ n : ℤ, (b - a : ℚ) = n * lastPlace 32 area) ∧
        b - a - lastPlace 32 area / 2 ≤ area ∧ area < b - a + lastPlace 32 area / 2) := by
  intro area
  have hdepth : 2 ≤ s.allowedDepth (constantIntegral a b) := by
    have hlength : 1 ≤ (normalizeCase (constantIntegral a b)).length := by
      refine List.length_pos_of_ne_nil fun hnil => ?_
      rw [normalizeCase_eq_nil] at hnil
      exact absurd hnil (by simp [constantIntegral, callText])
    rw [Session.allowedDepth]
    omega
  obtain ⟨v, hv, harea⟩ := evaluateWithin_constantIntegral s draws a b hdepth []
  have hwidth : (0 : ℚ) < b - a := by
    have : (a : ℚ) < b := by exact_mod_cast hlt
    linarith
  have hwidth' : (0 : ℝ) < ((b - a : ℚ) : ℝ) := by exact_mod_cast hwidth
  have hnear := near_area s.rule s.divisions (b - a)
  have hareaPos : 0 < area := by
    have hclose := (abs_le.mp hnear).1
    have herror : (1 + halfUnit) ^ 3 - 1 < 1 := by norm_num [halfUnit]
    rw [abs_of_pos hwidth'] at hclose
    have : (0 : ℝ) < (area : ℝ) := by nlinarith
    exact_mod_cast this
  refine ⟨v, ?_, harea, ?_, ?_⟩
  · rw [Session.compute, hv]
    rfl
  · have hrounded : IsNear (21 / 10 ^ 32) (v.toRat : ℝ) ((b - a : ℚ) : ℝ) := by
      rw [harea]
      refine ((near_roundSignificant area).trans hnear (by norm_num [halfUnit])).mono ?_
      norm_num [halfUnit]
    rw [IsNear, abs_of_pos hwidth', mul_comm] at hrounded
    refine (Rat.cast_le (K := ℝ)).mp ?_
    push_cast at hrounded ⊢
    exact hrounded
  · rw [equiv_iff, toRat_ofInt, harea, Int.cast_sub]
    exact roundSignificant_eq_iff hareaPos

/-- Three rectangles between zero and three have the area three. -/
theorem compute_constantIntegral_three :
    ∃ v, Session.threeRectangles.compute (Draws.ofSeed 0) (constantIntegral 0 3) = .ok v ∧
      v.toRat = 3 := by
  obtain ⟨v, hv, harea, -⟩ := compute_constantIntegral Session.threeRectangles (Draws.ofSeed 0)
    (show (0 : ℤ) < 3 by norm_num)
  refine ⟨v, hv, harea.trans ?_⟩
  -- neither the width of a rectangle nor the area needs more digits
  have hpanel : roundSignificant 32 ((((3 : ℤ) : ℚ) - (0 : ℤ)) / (3 : ℕ)) = 1 := by
    have hone : (((3 : ℤ) : ℚ) - (0 : ℤ)) / (3 : ℕ) = (1 : ℤ) := by norm_num
    rw [hone, roundSignificant_intCast (by norm_num), Int.cast_one]
  have hwhole : ((3 : ℕ) : ℚ) * 1 = (3 : ℤ) := by norm_num
  show roundSignificant 32
    ((3 : ℕ) * roundSignificant 32 ((((3 : ℤ) : ℚ) - (0 : ℤ)) / (3 : ℕ))) = 3
  rw [hpanel, hwhole, roundSignificant_intCast (by norm_num), Int.cast_ofNat]

/-- **Not every integral of one** is the width of its interval: three rectangles between zero and
one are too small. -/
theorem not_forall_constantIntegral_exact :
    ¬ ∀ (s : Session) (draws : Draws) (a b : ℤ), a < b →
      ∃ v, s.compute draws (constantIntegral a b) = .ok v ∧ v ≈ ofInt (b - a) := by
  intro h
  obtain ⟨v, hv, hequal⟩ := h Session.threeRectangles (Draws.ofSeed 0) 0 1 (by norm_num)
  have hvalue : Session.threeRectangles.compute (Draws.ofSeed 0) (constantIntegral 0 1) =
      .ok ⟨10 ^ 32 - 1, 32⟩ := by decide +kernel
  obtain rfl := Except.ok.inj (hvalue.symm.trans hv)
  exact absurd hequal (by decide +kernel)

end ConstantIntegral

end DecimalCalculator
