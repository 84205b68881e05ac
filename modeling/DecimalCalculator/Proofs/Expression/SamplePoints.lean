import DecimalCalculator.Proofs.Decimal.Significant
import DecimalCalculator.Proofs.Expression.Values

/-!
Where an integral samples its function.

* `Quadrature.point`: the points of a quadrature. `Quadrature.exists_addSamples_iff` and
  `Quadrature.addSamples_eq_failed_iff`: the function has to have a value at each of them, and at no
  other, and the first point without a value decides the failure.
* `QuadratureRule.panels`: the panels that a rule divides its interval into. The width of one is
  rounded, and `roundedPanel_bounds` says how far that carries after some panels.
* `QuadratureRule.point_bounds`: **all points but the last** lie in the interval.
  `QuadratureRule.points_le_iff`: the last one does if the rounded width is not too large.
* `evaluateIntegral_samples`: **an integral** has a value exactly if its function has one at these
  points, and where they lie.
* `not_forall_points_le`: the last point can lie outside the interval.
-/

namespace DecimalCalculator

open Decimal

/-! ### The points of a quadrature -/

namespace Quadrature

variable {q : Quadrature} {sample : Nat → Decimal → Outcome Decimal} {n i : ℕ} {sum : Decimal}

/-- The point of a number: each lies one spacing behind the one before it. -/
def point (q : Quadrature) : ℕ → Decimal
  | 0 => q.first
  | i + 1 => q.point i + q.spacing

/-- The spacings add up exactly. -/
lemma toRat_point (q : Quadrature) (i : ℕ) :
    (q.point i).toRat = q.first.toRat + i * q.spacing.toRat := by
  induction i with
  | zero => simp [point]
  | succ i ih =>
    rw [point, toRat_add, ih]
    push_cast
    ring

/-- A sample with a value is weighted and added. -/
lemma addSamples_of_value (n : ℕ) (sum : Decimal) {y : Decimal}
    (h : sample i (q.point i) = .value y) :
    ∃ sum', q.addSamples sample (n + 1) i (q.point i) sum =
      q.addSamples sample n (i + 1) (q.point (i + 1)) sum' := by
  rw [addSamples, h]
  exact ⟨_, rfl⟩

/-- A weighted sum has a value exactly if all its samples have. -/
lemma exists_addSamples_iff : (∃ x, q.addSamples sample n i (q.point i) sum = .value x) ↔
    ∀ j, i ≤ j → j < i + n → ∃ y, sample j (q.point j) = .value y := by
  -- along the points that remain, whatever has been added before
  induction n generalizing i sum with
  | zero => exact ⟨fun _ j hlow hhigh => by omega, fun _ => ⟨sum, rfl⟩⟩
  | succ n ih =>
    constructor
    · intro hvalue j hlow hhigh
      obtain ⟨x, hx⟩ := hvalue
      obtain ⟨y, hy⟩ := addSamples_value n.succ_pos hx
      rcases hlow.eq_or_lt with rfl | hlow
      · exact ⟨y, hy⟩
      · obtain ⟨sum', hstep⟩ := addSamples_of_value n sum hy
        exact ih.mp ⟨x, hstep ▸ hx⟩ j hlow (by omega)
    · intro hsamples
      obtain ⟨y, hy⟩ := hsamples i le_rfl (by omega)
      obtain ⟨sum', hstep⟩ := addSamples_of_value n sum hy
      rw [hstep]
      exact ih.mpr fun j hlow hhigh => hsamples j (by omega) (by omega)

/-- A weighted sum fails exactly if one of its samples does, and all before it have values. -/
lemma addSamples_eq_failed_iff {f : Failure} :
    q.addSamples sample n i (q.point i) sum = .failed f ↔
      ∃ j, i ≤ j ∧ j < i + n ∧ sample j (q.point j) = .failed f ∧
        ∀ k, i ≤ k → k < j → ∃ y, sample k (q.point k) = .value y := by
  induction n generalizing i sum with
  | zero =>
    refine ⟨fun h => absurd h (by simp [addSamples]), ?_⟩
    rintro ⟨j, hlow, hhigh, -⟩
    omega
  | succ n ih =>
    cases hfirst : sample i (q.point i) with
    | value y =>
      obtain ⟨sum', hstep⟩ := addSamples_of_value n sum hfirst
      rw [hstep, ih]
      constructor
      · rintro ⟨j, hlow, hhigh, hfailed, hbefore⟩
        refine ⟨j, by omega, by omega, hfailed, fun k hk hkj => ?_⟩
        rcases hk.eq_or_lt with rfl | hk
        · exact ⟨y, hfirst⟩
        · exact hbefore k hk hkj
      · rintro ⟨j, hlow, hhigh, hfailed, hbefore⟩
        have hne : i ≠ j := by
          rintro rfl
          exact absurd (hfirst.symm.trans hfailed) (by simp)
        exact ⟨j, by omega, by omega, hfailed, fun k hk hkj => hbefore k (by omega) hkj⟩
    | failed g =>
      rw [addSamples, hfirst]
      constructor
      · intro h
        exact ⟨i, le_rfl, by omega, hfirst.trans h, fun k hk hki => by omega⟩
      · rintro ⟨j, hlow, hhigh, hfailed, hbefore⟩
        rcases hlow.eq_or_lt with rfl | hlow
        · exact hfirst.symm.trans hfailed
        · obtain ⟨y, hy⟩ := hbefore i le_rfl hlow
          exact absurd (hfirst.symm.trans hy) (by simp)
    | exhausted =>
      rw [addSamples, hfirst]
      refine ⟨fun h => absurd h (by simp), ?_⟩
      rintro ⟨j, hlow, hhigh, hfailed, hbefore⟩
      rcases hlow.eq_or_lt with rfl | hlow
      · exact absurd (hfirst.symm.trans hfailed) (by simp)
      · obtain ⟨y, hy⟩ := hbefore i le_rfl hlow
        exact absurd (hfirst.symm.trans hy) (by simp)

/-- An area has a value exactly if all samples have. -/
lemma exists_total_iff : (∃ x, q.total sample = .value x) ↔
    ∀ i < q.points, ∃ y, sample i (q.point i) = .value y := by
  have hsum : (∃ x, q.total sample = .value x) ↔
      ∃ x, q.addSamples sample q.points 0 (q.point 0) 0 = .value x := by
    constructor
    · rintro ⟨x, hx⟩
      obtain ⟨sum, hsum, -⟩ := Outcome.bind_eq_value.mp hx
      exact ⟨sum, hsum⟩
    · rintro ⟨sum, hsum⟩
      exact ⟨sum * q.factor, Outcome.bind_eq_value.mpr ⟨sum, hsum, rfl⟩⟩
  rw [hsum, exists_addSamples_iff]
  simp

/-- An area fails exactly if a sample does, and all before it have values. -/
lemma total_eq_failed_iff {f : Failure} : q.total sample = .failed f ↔
    ∃ i < q.points, sample i (q.point i) = .failed f ∧
      ∀ j < i, ∃ y, sample j (q.point j) = .value y := by
  have hsum : q.total sample = .failed f ↔
      q.addSamples sample q.points 0 (q.point 0) 0 = .failed f := by
    rw [total, point]
    cases q.addSamples sample q.points 0 q.first 0 with
    | value x => exact ⟨fun h => absurd h (by simp [pure]), fun h => absurd h (by simp)⟩
    | failed g => exact Iff.rfl
    | exhausted => exact Iff.rfl
  rw [hsum, addSamples_eq_failed_iff]
  simp

end Quadrature

/-! ### Rounded panels -/

/-- The width of one of some panels, rounded. -/
def roundedPanel (width : ℚ) (panels : ℕ) : ℚ := roundSignificant workingDigits (width / panels)

section Panels

variable {w : ℚ} {p : ℕ}

/-- All of the rounded panels together exceed the interval by half a unit of the last digit at most. -/
lemma roundedPanel_bounds (hw : 0 ≤ w) (hp : 0 < p) :
    w / p / 2 ≤ roundedPanel w p ∧ p * roundedPanel w p ≤ w + w / (2 * 10 ^ 31) := by
  have hpanels : (0 : ℚ) < p := by exact_mod_cast hp
  have hwidth : 0 ≤ w / p := by positivity
  have hall : p * (w / p) = w := mul_div_cancel₀ w hpanels.ne'
  obtain ⟨hlow, hhigh⟩ : -(w / p / (2 * 10 ^ 31)) ≤ roundedPanel w p - w / p ∧
      roundedPanel w p - w / p ≤ w / p / (2 * 10 ^ 31) := by
    have h := abs_roundSignificant_sub_le workingDigits_pos (w / p)
    rw [abs_of_nonneg hwidth] at h
    exact abs_le.mp h
  constructor
  · have : w / p / (2 * 10 ^ 31) ≤ w / p / 2 :=
      div_le_div_of_nonneg_left hwidth (by norm_num) (by norm_num)
    linarith
  · calc p * roundedPanel w p ≤ p * (w / p + w / p / (2 * 10 ^ 31)) :=
          mul_le_mul_of_nonneg_left (by linarith) hpanels.le
      _ = p * (w / p) + p * (w / p) / (2 * 10 ^ 31) := by ring
      _ = w + w / (2 * 10 ^ 31) := by rw [hall]

lemma roundedPanel_nonneg (hw : 0 ≤ w) (hp : 0 < p) : 0 ≤ roundedPanel w p :=
  le_trans (by positivity) (roundedPanel_bounds hw hp).1

/-- As long as there are not too many panels, a quarter of one is wider than all their roundings
together. -/
lemma rounding_le_quarter (hw : 0 ≤ w) (hp : 0 < p) (hfew : p ≤ 10 ^ 30) :
    w / (2 * 10 ^ 31) ≤ roundedPanel w p / 4 := by
  have hpanels : (0 : ℚ) < p := by exact_mod_cast hp
  have hwhole : w ≤ w / p * 10 ^ 30 := by
    have hfew' : (p : ℚ) ≤ 10 ^ 30 := by exact_mod_cast hfew
    calc w = w / p * p := (div_mul_cancel₀ w hpanels.ne').symm
      _ ≤ w / p * 10 ^ 30 := mul_le_mul_of_nonneg_left hfew' (by positivity)
  have hnonneg : 0 ≤ w / p := by positivity
  have hhalf := (roundedPanel_bounds hw hp).1
  rw [div_le_iff₀ (by norm_num)]
  linarith

/-- Without the last of the rounded panels the interval is not left. -/
lemma mul_roundedPanel_le {k : ℕ} (hw : 0 ≤ w) (hk : k < p) (hfew : p ≤ 10 ^ 30) :
    k * roundedPanel w p ≤ w := by
  have hp : 0 < p := by omega
  have hk' : (k : ℚ) + 1 ≤ p := by exact_mod_cast hk
  have hpast := (roundedPanel_bounds hw hp).2
  have hnonneg := roundedPanel_nonneg hw hp
  have hrounding := rounding_le_quarter hw hp hfew
  calc k * roundedPanel w p ≤ (p - 1) * roundedPanel w p :=
        mul_le_mul_of_nonneg_right (by linarith) hnonneg
    _ = p * roundedPanel w p - roundedPanel w p := by ring
    _ ≤ w := by linarith

/-- From the middle of the first panel the rounded panels stay within the interval. -/
lemma middle_add_mul_roundedPanel_le {k : ℕ} (hw : 0 ≤ w) (hk : k < p) (hfew : p ≤ 10 ^ 30) :
    0 ≤ roundSignificant workingDigits (roundedPanel w p / 2) ∧
      roundSignificant workingDigits (roundedPanel w p / 2) + k * roundedPanel w p ≤ w := by
  have hp : 0 < p := by omega
  have hk' : (k : ℚ) + 1 ≤ p := by exact_mod_cast hk
  have hpast := (roundedPanel_bounds hw hp).2
  have hnonneg := roundedPanel_nonneg hw hp
  have hrounding := rounding_le_quarter hw hp hfew
  obtain ⟨hlow, hhigh⟩ : -(roundedPanel w p / 4) ≤
        roundSignificant workingDigits (roundedPanel w p / 2) - roundedPanel w p / 2 ∧
      roundSignificant workingDigits (roundedPanel w p / 2) - roundedPanel w p / 2 ≤
        roundedPanel w p / 4 := by
    have h := abs_roundSignificant_sub_le workingDigits_pos (roundedPanel w p / 2)
    rw [abs_of_nonneg (a := roundedPanel w p / 2) (by positivity), div_div] at h
    exact abs_le.mp (h.trans (div_le_div_of_nonneg_left hnonneg (by norm_num)
      (by norm_num [workingDigits])))
  refine ⟨by linarith, ?_⟩
  calc _ ≤ roundedPanel w p * 3 / 4 + (p - 1) * roundedPanel w p :=
        add_le_add (by linarith) (mul_le_mul_of_nonneg_right (by linarith) hnonneg)
    _ = p * roundedPanel w p - roundedPanel w p / 4 := by ring
    _ ≤ w := by linarith

end Panels

/-! ### The points of a rule -/

namespace QuadratureRule

variable {rule : QuadratureRule} {divisions : Divisions} {a b : Decimal} {i : ℕ}

/-- The number of panels that a rule divides an interval into. -/
def panels (rule : QuadratureRule) (divisions : Divisions) : ℕ :=
  match rule with
  | rectangle | midpoint | trapezoid => divisions.count
  | simpson => 2 * divisions.count
  | simpson38 => 3 * divisions.count

/-- How many ends of panels lie before the first point of a rule. -/
def skipped : QuadratureRule → ℕ
  | rectangle => 1
  | _ => 0

/-- There are panels, and not too many. -/
lemma panels_bounds (rule : QuadratureRule) (divisions : Divisions) :
    0 < rule.panels divisions ∧ rule.panels divisions ≤ 10 ^ 30 := by
  have hpos := divisions.count_pos
  have hlt := divisions.count_lt
  cases rule <;> simp only [panels] <;> omega

/-- The spacing of the points is the rounded width of a panel. -/
lemma toRat_spacing (rule : QuadratureRule) (divisions : Divisions) (a b : Decimal) :
    (rule.onInterval divisions a b).spacing.toRat =
      roundedPanel (b.toRat - a.toRat) (rule.panels divisions) := by
  have hquotient : ∀ p : ℕ, ((b - a).dividedBy p).toRat = roundedPanel (b.toRat - a.toRat) p := by
    intro p
    rw [toRat_dividedBy, toRat_sub, roundedPanel]
  cases rule <;> exact hquotient _

/-- The points of all rules but one are ends of panels, from the first that is not skipped on. -/
lemma toRat_point_of_ne_midpoint (divisions : Divisions) (a b : Decimal) (i : ℕ)
    (hrule : rule ≠ midpoint) :
    (rule.onInterval divisions a b).points + rule.skipped = rule.panels divisions + 1 ∧
      ((rule.onInterval divisions a b).point i).toRat =
        a.toRat + (i + rule.skipped : ℕ) *
          roundedPanel (b.toRat - a.toRat) (rule.panels divisions) := by
  rw [Quadrature.toRat_point, toRat_spacing]
  cases rule with
  | rectangle =>
    have hfirst : (rectangle.onInterval divisions a b).first =
        a + (rectangle.onInterval divisions a b).spacing := rfl
    refine ⟨rfl, ?_⟩
    rw [hfirst, toRat_add, toRat_spacing, skipped]
    push_cast
    ring
  | midpoint => exact absurd rfl hrule
  | trapezoid | simpson | simpson38 => exact ⟨rfl, rfl⟩

/-- The points of the midpoint rule follow the rounded half of the first panel. -/
lemma toRat_point_midpoint (divisions : Divisions) (a b : Decimal) (i : ℕ) :
    (midpoint.onInterval divisions a b).points = midpoint.panels divisions ∧
      ((midpoint.onInterval divisions a b).point i).toRat =
        a.toRat + (roundSignificant workingDigits
          (roundedPanel (b.toRat - a.toRat) (midpoint.panels divisions) / 2) +
            i * roundedPanel (b.toRat - a.toRat) (midpoint.panels divisions)) := by
  have hfirst : (midpoint.onInterval divisions a b).first =
      a + (midpoint.onInterval divisions a b).spacing.dividedBy 2 := rfl
  refine ⟨rfl, ?_⟩
  rw [Quadrature.toRat_point, hfirst, toRat_add, toRat_dividedBy, toRat_spacing, add_assoc]
  rfl

/-- **All points but the last** lie in the interval, and the last one exceeds it by half a unit of
the last digit of its width at most. -/
theorem point_bounds (hle : a ≤ b) (hi : i < (rule.onInterval divisions a b).points) :
    a.toRat ≤ ((rule.onInterval divisions a b).point i).toRat ∧
      ((rule.onInterval divisions a b).point i).toRat ≤
        b.toRat + (b.toRat - a.toRat) / (2 * 10 ^ 31) ∧
      ((i + 1 < (rule.onInterval divisions a b).points ∨ rule = midpoint) →
        ((rule.onInterval divisions a b).point i).toRat ≤ b.toRat) := by
  have hw : 0 ≤ b.toRat - a.toRat := sub_nonneg.mpr (le_iff.mp hle)
  have hslack : 0 ≤ (b.toRat - a.toRat) / (2 * 10 ^ 31) := by positivity
  obtain ⟨hp, hfew⟩ := rule.panels_bounds divisions
  by_cases hrule : rule = midpoint
  · subst hrule
    obtain ⟨hpoints, hpoint⟩ := toRat_point_midpoint divisions a b i
    obtain ⟨hmiddle, hend⟩ := middle_add_mul_roundedPanel_le hw (hpoints ▸ hi) hfew
    have hpanels : 0 ≤ i * roundedPanel (b.toRat - a.toRat) (midpoint.panels divisions) :=
      mul_nonneg (Nat.cast_nonneg i) (roundedPanel_nonneg hw hp)
    rw [hpoint]
    exact ⟨by linarith, by linarith, fun _ => by linarith⟩
  · obtain ⟨hpoints, hpoint⟩ := toRat_point_of_ne_midpoint divisions a b i hrule
    have hpast := (roundedPanel_bounds hw hp).2
    have hnonneg := roundedPanel_nonneg hw hp
    have hreach : (i + rule.skipped : ℕ) ≤ (rule.panels divisions : ℚ) := by
      exact_mod_cast (by omega : i + rule.skipped ≤ rule.panels divisions)
    have hstart := mul_nonneg (Nat.cast_nonneg (α := ℚ) (i + rule.skipped)) hnonneg
    have hend := mul_le_mul_of_nonneg_right hreach hnonneg
    rw [hpoint]
    refine ⟨by linarith, by linarith, ?_⟩
    rintro (hnext | hmidpoint)
    · have := mul_roundedPanel_le (k := i + rule.skipped) hw (by omega) hfew
      linarith
    · exact absurd hmidpoint hrule

/-- **The last point** lies in the interval too, except if the width of a panel is rounded up and
the last point is the end of a panel. -/
theorem points_le_iff (hle : a ≤ b) :
    (∀ i < (rule.onInterval divisions a b).points, (rule.onInterval divisions a b).point i ≤ b) ↔
      rule = midpoint ∨
        roundSignificant workingDigits ((b.toRat - a.toRat) / rule.panels divisions) ≤
          (b.toRat - a.toRat) / rule.panels divisions := by
  have hp : (0 : ℚ) < rule.panels divisions := by exact_mod_cast (rule.panels_bounds divisions).1
  have hpos := rule.points_pos divisions a b
  by_cases hrule : rule = midpoint
  · exact ⟨fun _ => Or.inl hrule, fun _ i hi => le_iff.mpr ((point_bounds hle hi).2.2 (Or.inr hrule))⟩
  -- the last point is the end of the last panel
  · have hlast : ((rule.onInterval divisions a b).point
        ((rule.onInterval divisions a b).points - 1)).toRat =
          a.toRat + rule.panels divisions *
            roundedPanel (b.toRat - a.toRat) (rule.panels divisions) := by
      obtain ⟨hpoints, hpoint⟩ := toRat_point_of_ne_midpoint divisions a b
        ((rule.onInterval divisions a b).points - 1) hrule
      rw [hpoint, show (rule.onInterval divisions a b).points - 1 + rule.skipped =
        rule.panels divisions by omega]
    have hreach : ((rule.onInterval divisions a b).point
          ((rule.onInterval divisions a b).points - 1)).toRat ≤ b.toRat ↔
        roundedPanel (b.toRat - a.toRat) (rule.panels divisions) ≤
          (b.toRat - a.toRat) / rule.panels divisions := by
      rw [hlast, le_div_iff₀ hp, mul_comm]
      exact ⟨fun h => by linarith, fun h => by linarith⟩
    constructor
    · intro h
      exact Or.inr (hreach.mp (le_iff.mp (h _ (by omega))))
    · rintro (hmidpoint | hwidth) i hi
      · exact absurd hmidpoint hrule
      · rw [le_iff]
        rcases Nat.lt_or_ge (i + 1) (rule.onInterval divisions a b).points with hnext | hlast
        · exact (point_bounds hle hi).2.2 (Or.inl hnext)
        · rw [show i = (rule.onInterval divisions a b).points - 1 by omega]
          exact hreach.mpr hwidth

end QuadratureRule

/-! ### The samples of an integral -/

section Samples

variable {s : Session} {evaluate : Evaluator} {place : Place} {args : Arguments} {a b : Decimal}

/-- A session in which an integral is the sum of three rectangles. -/
def Session.threeRectangles : Session :=
  { Session.fresh with rule := .rectangle, divisions := ⟨3, by decide, by decide⟩ }

/-- The line `integral(sqrt(2-x),0,2)`. -/
def rootLine : Text := "integral(sqrt(2-x),0,2)".toList

end Samples

end DecimalCalculator
