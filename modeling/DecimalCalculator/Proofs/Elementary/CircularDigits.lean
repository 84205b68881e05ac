import DecimalCalculator.Elementary.Circular
import DecimalCalculator.Proofs.Decimal.Significant
import DecimalCalculator.Proofs.Elementary.Logarithm

/-!
The sums of sine and cosine, in digits.

* `nearest`, `isFull`: rounding on natural numbers. `roundSignificant_of_isFull`: **a full mantissa**
  is the one that rounding to 32 digits keeps.
* `Scales`: where the last digits of the quotients and terms of an alternating series stand.
* `sumDigits`: the sum of such a series on natural numbers. `Plan.abs_sum_of_size`: **if all of its
  mantissas are full**, it is the size of the sum.
* `Plan.vanishes`, `Plan.isSettled`: what a plan finds about a sum. `Plan.abs_sum_lt`,
  `Plan.small_of_isSettled`: **sums near zero** are below the threshold, or well above it.
* `halfTurnPlan` and so on: plans for the sums near the zeros of sine and cosine.
-/

namespace DecimalCalculator.Elementary

open Decimal

/-! ### Full mantissas -/

/-- The natural number nearest to `n / d`, the upper one of two. -/
def nearest (n d : ℕ) : ℕ := (2 * n + d) / (2 * d)

/-- Whether a mantissa has 32 digits, and is not the least such number. -/
def isFull (r : ℕ) : Bool := Nat.blt (Nat.pow 10 31) r && Nat.blt r (Nat.pow 10 32)

lemma isFull_iff {r : ℕ} : isFull r = true ↔ 10 ^ 31 < r ∧ r < 10 ^ 32 := by
  simp [isFull, Nat.blt_eq, Nat.pow_eq]

/-- The nearest number is at most one half away. -/
lemma nearest_bounds (n : ℕ) {d : ℕ} (hd : 0 < d) :
    (nearest n d : ℚ) - 1 / 2 ≤ n / d ∧ (n : ℚ) / d < nearest n d + 1 / 2 := by
  have hd' : (0 : ℚ) < d := by exact_mod_cast hd
  have hle : nearest n d * (2 * d) ≤ 2 * n + d := Nat.div_mul_le_self _ _
  have hlt : 2 * n + d < (nearest n d + 1) * (2 * d) := by
    have := Nat.lt_div_mul_add (a := 2 * n + d) (b := 2 * d) (by omega)
    rw [nearest, add_mul, one_mul]
    exact this
  have hle' : (nearest n d : ℚ) * (2 * d) ≤ 2 * n + d := by exact_mod_cast hle
  have hlt' : 2 * (n : ℚ) + d < (nearest n d + 1) * (2 * d) := by exact_mod_cast hlt
  rw [le_div_iff₀ hd', div_lt_iff₀ hd']
  constructor <;> linarith

/-- **A full mantissa** is the one that rounding to 32 digits keeps. -/
theorem roundSignificant_of_isFull {n d : ℕ} (hd : 0 < d) (h : isFull (nearest n d) = true) (e : ℕ) :
    roundSignificant workingDigits ((n : ℚ) / d / 10 ^ e) = nearest n d / 10 ^ e := by
  obtain ⟨hlow, hhigh⟩ := isFull_iff.mp h
  obtain ⟨hbelow, habove⟩ := nearest_bounds n hd
  have hlow' : (10 : ℚ) ^ 31 + 1 ≤ nearest n d := by exact_mod_cast hlow
  have hhigh' : (nearest n d : ℚ) + 1 ≤ 10 ^ 32 := by exact_mod_cast hhigh
  have hlog : Int.log 10 ((n : ℚ) / d) = 31 := by
    have hpowers : (10 : ℚ) ^ (31 : ℤ) = 10 ^ 31 ∧ (10 : ℚ) ^ (31 + 1 : ℤ) = 10 ^ 32 := by norm_num
    refine log_eq_of_bounds ?_ ?_
    · rw [hpowers.1]
      linarith
    · rw [hpowers.2]
      linarith
  have hpos : (0 : ℚ) < n / d := by
    have : (0 : ℚ) < 10 ^ 31 := by positivity
    linarith
  have hplace : lastPlace workingDigits ((n : ℚ) / d) = 1 := by
    rw [lastPlace, abs_of_pos hpos, hlog]
    norm_num [workingDigits]
  have hround : roundSignificant workingDigits ((n : ℚ) / d) = nearest n d := by
    refine (roundSignificant_eq_iff hpos).mpr ⟨⟨nearest n d, by rw [hplace]; simp⟩, ?_⟩
    rw [hplace]
    exact ⟨hbelow, habove⟩
  have hscale : ∀ q : ℚ, q / 10 ^ e = q * 10 ^ (-(e : ℤ)) := fun q => by
    rw [zpow_neg, zpow_natCast, div_eq_mul_inv]
  rw [hscale, roundSignificant_mul_zpow, hround, ← hscale]

/-! ### Sums in digits -/

/-- Where the last digits stand in one step of an alternating series: those of the quotient of the
square, and those of the term. -/
structure StepScales where
  quotient : ℕ
  term : ℕ

/-- Where the last digits of the mantissas stand in all steps, after a term whose own last digit
stands at `scale`: the series ends with the first term that is full below the threshold. -/
def Scales (square : ℕ) : ℕ → List StepScales → Prop
  | _, [] => True
  | scale, step :: rest =>
    (square ≤ step.quotient ∧ step.term ≤ scale + step.quotient ∧ step.term ≤ 100 ∧
      (62 ≤ step.term ↔ rest = [])) ∧ Scales square step.term rest

instance (square : ℕ) : (scale : ℕ) → (steps : List StepScales) → Decidable (Scales square scale steps)
  | _, [] => isTrue trivial
  | _, step :: rest =>
    have := instDecidableScales square step.term rest
    inferInstanceAs (Decidable (_ ∧ _))

/-- The sum of an alternating series on natural numbers, in units of `10 ^ (-100)`: the sums of the
terms that have the sign of the last one, and of the others. The square is a mantissa at its scale,
and so is the last term; the next divisor is `index * (index + 1)`. There is no result if some
mantissa is not full. -/
def sumDigits (square squareScale : ℕ) :
    List StepScales → (index term scale same other : ℕ) → Option (ℕ × ℕ)
  | [], _, _, _, same, other => some (same, other)
  | step :: rest, index, term, scale, same, other =>
    let quotient :=
      nearest (square * Nat.pow 10 (step.quotient - squareScale)) (index * (index + 1))
    let next := nearest (term * quotient) (Nat.pow 10 (scale + step.quotient - step.term))
    if isFull quotient && isFull next then
      sumDigits square squareScale rest (index + 2) next step.term
        (other + next * Nat.pow 10 (100 - step.term)) same
    else none

section Sums

variable {x first : Decimal} {start square squareScale : ℕ}

/-- A natural number may be divided by a power of ten in two steps. -/
lemma div_pow_eq {n a b : ℕ} (d : ℚ) (h : a ≤ b) :
    (n : ℚ) / 10 ^ a / d = (n * 10 ^ (b - a) : ℕ) / d / 10 ^ b := by
  have hsplit : (10 : ℚ) ^ b = 10 ^ (b - a) * 10 ^ a := by rw [← pow_add, Nat.sub_add_cancel h]
  push_cast
  rw [hsplit, div_right_comm, div_div _ d, mul_comm d, div_div, ← mul_assoc, mul_comm, ← div_div,
    mul_comm]
  field_simp

/-- A full quotient of the square is the one that rounding keeps. -/
lemma toRat_quotient (hsquare : (x * x).toRat = square / 10 ^ squareScale) {n q : ℕ} (hn : 0 < n)
    (hle : squareScale ≤ q) (hfull : isFull (nearest (square * 10 ^ (q - squareScale)) n) = true) :
    ((x * x).dividedBy n).toRat = nearest (square * 10 ^ (q - squareScale)) n / 10 ^ q := by
  rw [toRat_dividedBy, hsquare, div_pow_eq _ hle]
  exact roundSignificant_of_isFull hn hfull q

/-- A full product is the one that rounding keeps. -/
lemma toRat_full_mul {f g : Decimal} {σ : ℚ} (hσ : σ = 1 ∨ σ = -1) {m q a b e : ℕ}
    (hf : f.toRat = σ * (m / 10 ^ a)) (hg : g.toRat = q / 10 ^ b) (hle : e ≤ a + b)
    (hfull : isFull (nearest (m * q) (10 ^ (a + b - e))) = true) :
    (f * -g).toRat = -σ * (nearest (m * q) (10 ^ (a + b - e)) / 10 ^ e) := by
  have hproduct : f.toRat * (-g).toRat =
      -σ * ((m * q : ℕ) / (10 ^ (a + b - e) : ℕ) / 10 ^ e) := by
    rw [hf, toRat_neg, hg]
    push_cast
    rw [div_div, ← pow_add, Nat.sub_add_cancel hle, pow_add]
    field_simp
  have hround := roundSignificant_of_isFull (n := m * q) (by positivity) hfull e
  rw [toRat_mul, hproduct]
  rcases hσ with rfl | rfl
  · rw [neg_one_mul, neg_one_mul, roundSignificant_neg, hround]
  · rw [neg_neg, one_mul, one_mul, hround]

/-- A full mantissa is below the threshold if its last digit stands far enough to the right. -/
lemma lt_threshold_of_isFull {y : Decimal} {r e : ℕ} (h : isFull r = true)
    (hy : |y.toRat| = r / 10 ^ e) : y.abs < threshold ↔ 62 ≤ e := by
  obtain ⟨hlow, hhigh⟩ := isFull_iff.mp h
  have hlow' : (10 : ℚ) ^ 31 < r := by exact_mod_cast hlow
  have hhigh' : (r : ℚ) < 10 ^ 32 := by exact_mod_cast hhigh
  rw [lt_iff, toRat_abs, toRat_threshold, hy, div_lt_div_iff₀ (by positivity) (by positivity), one_mul]
  constructor
  · intro hsmall
    by_contra hless
    have hpow : (10 : ℚ) ^ e ≤ 10 ^ 61 := pow_le_pow_right₀ (by norm_num) (by omega)
    have : (10 : ℚ) ^ 31 * 10 ^ 30 < r * 10 ^ 30 := mul_lt_mul_of_pos_right hlow' (by positivity)
    norm_num at this hpow hsmall
    linarith
  · intro hlarge
    have hpow : (10 : ℚ) ^ 62 ≤ 10 ^ e := pow_le_pow_right₀ (by norm_num) hlarge
    have : (r : ℚ) * 10 ^ 30 < 10 ^ 32 * 10 ^ 30 := mul_lt_mul_of_pos_right hhigh' (by positivity)
    norm_num at this hpow ⊢
    linarith

/-- **Steps in digits**: what the natural numbers count is what the steps of the series add up. -/
lemma abs_run_sum (hsquare : (x * x).toRat = square / 10 ^ squareScale) (hstart : 0 < start)
    {steps : List StepScales} {bound k : ℕ} {state : Series.State} {σ : ℚ}
    {term scale same other a b : ℕ} (hbound : steps.length ≤ bound)
    (hscales : Scales squareScale scale steps) (hdone : state.done = true ↔ steps = [])
    (hσ : σ = 1 ∨ σ = -1) (hfactor : state.factor.toRat = σ * (term / 10 ^ scale))
    (hsum : state.sum.toRat = σ * ((same - other) / 10 ^ 100))
    (h : sumDigits square squareScale steps (start + 2 * k) term scale same other = some (a, b)) :
    |((alternatingSeries x first start).run bound k state).sum.toRat| =
      |(a : ℚ) - b| / 10 ^ 100 := by
  induction steps generalizing bound k state σ term scale same other with
  | nil =>
    have hstop : (alternatingSeries x first start).run bound k state = state := by
      cases bound with
      | zero => rfl
      | succ bound => rw [Series.run, if_pos (hdone.mpr rfl)]
    obtain ⟨rfl, rfl⟩ := Prod.mk.inj (Option.some.inj h)
    have hsize : |σ| = 1 := by rcases hσ with rfl | rfl <;> simp
    rw [hstop, hsum, abs_mul, hsize, one_mul, abs_div, abs_of_pos (show (0 : ℚ) < 10 ^ 100 by positivity)]
  | cons step rest ih =>
    obtain ⟨⟨hle, hle', hterm, hend⟩, hrest⟩ := hscales
    obtain ⟨bound, rfl⟩ : ∃ n, bound = n + 1 :=
      ⟨bound - 1, by rw [List.length_cons] at hbound; omega⟩
    rw [sumDigits] at h
    simp only [Nat.pow_eq, Option.ite_none_right_eq_some, Bool.and_eq_true] at h
    obtain ⟨⟨hquotient, hnext⟩, h⟩ := h
    set quotient := nearest (square * 10 ^ (step.quotient - squareScale))
      ((start + 2 * k) * (start + 2 * k + 1)) with hq
    set next := nearest (term * quotient) (10 ^ (scale + step.quotient - step.term)) with hn
    -- the next factor, which is the next term as well
    set factor := (alternatingSeries x first start).advance k state.factor with hadvance
    have hvalue : factor.toRat = -σ * (next / 10 ^ step.term) :=
      toRat_full_mul hσ hfactor
        (toRat_quotient hsquare (by positivity) hle hquotient) hle' hnext
    have hσ' : -σ = 1 ∨ -σ = -1 := by
      rcases hσ with rfl | rfl
      · exact Or.inr rfl
      · exact Or.inl (neg_neg 1)
    have hsize : |factor.toRat| = next / 10 ^ step.term := by
      rw [hvalue, abs_mul, abs_of_nonneg (show (0 : ℚ) ≤ next / 10 ^ step.term by positivity)]
      rcases hσ' with h | h <;> simp [h]
    have hrun : (alternatingSeries x first start).run (bound + 1) k state =
        (alternatingSeries x first start).run bound (k + 1)
          ⟨factor, state.sum + factor, factor.abs < threshold⟩ := by
      have hruns : ¬ state.done = true := fun hd => absurd (hdone.mp hd) (List.cons_ne_nil _ _)
      rw [Series.run, if_neg hruns]
      rfl
    rw [hrun]
    refine ih (by rw [List.length_cons] at hbound; omega) hrest ?_ hσ' hvalue ?_ h
    · rw [decide_eq_true_eq, lt_threshold_of_isFull hnext hsize, hend]
    · have hscale : (next : ℚ) / 10 ^ step.term =
          (next * 10 ^ (100 - step.term) : ℕ) / 10 ^ 100 := by
        have := div_pow_eq (n := next) 1 hterm
        rwa [div_one, div_one] at this
      rw [toRat_add, hsum, hvalue, hscale]
      push_cast
      ring

end Sums

/-! ### Plans -/

/-- Where the last digits stand when the series of the cosine (`p = 0`) or of the sine (`p = 1`) is
summed at an angle of 32 digits, from one to ten. -/
structure Plan (p : ℕ) where
  square : ℕ
  steps : List StepScales
  square_le : square ≤ 62
  steps_ne_nil : steps ≠ []
  length_le : steps.length ≤ Series.stepBound
  scales : Scales square (31 * p) steps

namespace Plan

variable {p : ℕ} (plan : Plan p)

/-- The size of the sum at the angle `n / 10 ^ 31`, in units of `10 ^ (-100)`, if all mantissas are
full. -/
def size (n : ℕ) : Option ℕ :=
  let square := nearest (n * n) (Nat.pow 10 (62 - plan.square))
  if isFull square then
    (sumDigits square plan.square plan.steps (p + 1) (Nat.pow n p) (31 * p)
      (Nat.pow n p * Nat.pow 10 (100 - 31 * p)) 0).map fun sums => max sums.1 sums.2 - min sums.1 sums.2
  else none

variable {plan}

/-- **The size of the sum** of the series, in digits. -/
theorem abs_sum_of_size {x first : Decimal} {n v : ℕ} (hp : p ≤ 1) (hx : x.toRat = n / 10 ^ 31)
    (hfirst : first.toRat = x.toRat ^ p) (h : plan.size n = some v) :
    |(alternatingSeries x first (p + 1)).sum.toRat| = v / 10 ^ 100 := by
  rw [size] at h
  simp only [Nat.pow_eq, Option.ite_none_right_eq_some, Option.map_eq_some_iff] at h
  obtain ⟨hfull, ⟨a, b⟩, hsums, rfl⟩ := h
  set square := nearest (n * n) (10 ^ (62 - plan.square)) with hsquare
  have hvalue : (x * x).toRat = square / 10 ^ plan.square := by
    have hproduct : x.toRat * x.toRat =
        (n * n : ℕ) / (10 ^ (62 - plan.square) : ℕ) / 10 ^ plan.square := by
      rw [hx, div_mul_div_comm, ← pow_add, div_div]
      push_cast
      rw [← pow_add, Nat.sub_add_cancel plan.square_le]
    rw [toRat_mul, hproduct]
    exact roundSignificant_of_isFull (by positivity) hfull plan.square
  have hterm : first.toRat = (n ^ p : ℕ) / 10 ^ (31 * p) := by
    rw [hfirst, hx, div_pow, ← pow_mul]
    push_cast
    rfl
  have hscale : (n ^ p : ℕ) / (10 : ℚ) ^ (31 * p) =
      (n ^ p * 10 ^ (100 - 31 * p) : ℕ) / 10 ^ 100 := by
    have := div_pow_eq (n := n ^ p) 1 (show 31 * p ≤ 100 by omega)
    rwa [div_one, div_one] at this
  have hfactor : (alternatingSeries x first (p + 1)).start.factor.toRat =
      1 * ((n ^ p : ℕ) / 10 ^ (31 * p)) := by
    rw [one_mul]
    exact hterm
  have hstart : (alternatingSeries x first (p + 1)).start.sum.toRat =
      1 * (((n ^ p * 10 ^ (100 - 31 * p) : ℕ) - (0 : ℕ)) / 10 ^ 100) := by
    rw [one_mul, Nat.cast_zero, sub_zero, ← hscale]
    exact hterm
  have hrun : |(alternatingSeries x first (p + 1)).sum.toRat| = |(a : ℚ) - b| / 10 ^ 100 :=
    abs_run_sum (k := 0) hvalue (Nat.succ_pos p) plan.length_le plan.scales
      (iff_of_false (by simp [Series.start]) plan.steps_ne_nil) (Or.inl rfl) hfactor hstart hsums
  rw [hrun]
  congr 1
  -- the distance of two natural numbers
  rcases le_total a b with hle | hle
  · rw [max_eq_right hle, min_eq_left hle, Nat.cast_sub hle, abs_sub_comm, abs_of_nonneg]
    rw [sub_nonneg]
    exact_mod_cast hle
  · rw [max_eq_left hle, min_eq_right hle, Nat.cast_sub hle, abs_of_nonneg]
    rw [sub_nonneg]
    exact_mod_cast hle

/-- A plan that finds a sum below the threshold. -/
def vanishes (plan : Plan p) (n : ℕ) : Bool :=
  match plan.size n with
  | some v => Nat.blt v (Nat.pow 10 70)
  | none => false

/-- A plan that finds a sum below the threshold, at an angle of 31 digits after the point. -/
def vanishesAt (plan : Plan p) (x : Decimal) : Bool :=
  x == ⟨x.mantissa.toNat, 31⟩ && plan.vanishes x.mantissa.toNat

/-- What a plan finds is so for the sum of the series. -/
lemma abs_sum_lt {x first : Decimal} {n : ℕ} (hp : p ≤ 1) (hx : x.toRat = n / 10 ^ 31)
    (hfirst : first.toRat = x.toRat ^ p) (h : plan.vanishes n = true) :
    |(alternatingSeries x first (p + 1)).sum.toRat| < 1 / 10 ^ 30 := by
  rw [vanishes] at h
  split at h
  · next v hv =>
    rw [Nat.blt_eq, Nat.pow_eq] at h
    have hbelow : (v : ℚ) < 10 ^ 70 := by exact_mod_cast h
    rw [abs_sum_of_size hp hx hfirst hv, div_lt_div_iff₀ (by positivity) (by positivity), one_mul]
    calc (v : ℚ) * 10 ^ 30 < 10 ^ 70 * 10 ^ 30 := mul_lt_mul_of_pos_right hbelow (by positivity)
      _ = 10 ^ 100 := by norm_num
  · exact absurd h (by simp)

/-- What a plan finds at an angle is so for the sum of the series. -/
lemma abs_sum_lt_of_vanishesAt {x first : Decimal} (hp : p ≤ 1) (hfirst : first.toRat = x.toRat ^ p)
    (h : plan.vanishesAt x = true) :
    |(alternatingSeries x first (p + 1)).sum.toRat| < 1 / 10 ^ 30 := by
  rw [vanishesAt, Bool.and_eq_true, beq_iff_eq] at h
  generalize x.mantissa.toNat = n at h
  obtain ⟨rfl, hvanishes⟩ := h
  exact abs_sum_lt hp (by simp [toRat, zpow_neg, div_eq_mul_inv]) hfirst hvanishes

/-- Whether the sum at `n / 10 ^ 31` is below the threshold, within twenty units of the center, or well
above the threshold. -/
def isSettled (plan : Plan p) (center n : ℕ) : Bool :=
  match plan.size n with
  | some v =>
    if Nat.blt v (Nat.pow 10 70) then Nat.ble center (n + 20) && Nat.ble n (center + 20)
    else Nat.ble (103 * Nat.pow 10 68) v
  | none => false

/-- What a plan finds is so for the sum of the series. -/
lemma small_of_isSettled {x first : Decimal} {center n : ℕ} (hp : p ≤ 1) (hx : x.toRat = n / 10 ^ 31)
    (hfirst : first.toRat = x.toRat ^ p) (h : plan.isSettled center n = true)
    (hsmall : |(alternatingSeries x first (p + 1)).sum.toRat| < 103 / 10 ^ 32) :
    |(alternatingSeries x first (p + 1)).sum.toRat| < 1 / 10 ^ 30 ∧
      |x.toRat - center / 10 ^ 31| ≤ 20 / 10 ^ 31 := by
  rw [isSettled] at h
  split at h
  · next v hv =>
    split at h
    · next hbelow =>
      rw [Bool.and_eq_true, Nat.ble_eq, Nat.ble_eq] at h
      have hlow : (center : ℚ) ≤ n + 20 := by exact_mod_cast h.1
      have hhigh : (n : ℚ) ≤ center + 20 := by exact_mod_cast h.2
      refine ⟨abs_sum_lt hp hx hfirst (by rw [vanishes, hv]; exact hbelow), ?_⟩
      rw [hx, ← sub_div, abs_div, abs_of_pos (show (0 : ℚ) < 10 ^ 31 by positivity)]
      refine div_le_div_of_nonneg_right ?_ (by positivity)
      rw [abs_le]
      constructor <;> linarith
    · -- a sum that far above the threshold is not small
      rw [abs_sum_of_size hp hx hfirst hv] at hsmall
      rw [Nat.ble_eq, Nat.pow_eq] at h
      have habove : (103 : ℚ) * 10 ^ 68 ≤ v := by exact_mod_cast h
      rw [div_lt_div_iff₀ (by positivity) (by positivity)] at hsmall
      have hscaled := mul_le_mul_of_nonneg_right habove (show (0 : ℚ) ≤ 10 ^ 32 by positivity)
      exact absurd (hscaled.trans_lt hsmall) (by norm_num)
  · exact absurd h (by simp)

end Plan

/-! ### Sums near the zeros -/

/-- The plan near half a turn. -/
def halfTurnPlan : Plan 1 where
  square := 31
  steps :=
    [⟨31, 31⟩, ⟨32, 31⟩, ⟨32, 32⟩, ⟨32, 33⟩, ⟨33, 34⟩, ⟨33, 35⟩, ⟨33, 36⟩, ⟨33, 38⟩, ⟨33, 39⟩,
      ⟨33, 41⟩, ⟨33, 42⟩, ⟨33, 44⟩, ⟨33, 46⟩, ⟨33, 48⟩, ⟨33, 50⟩, ⟨34, 52⟩, ⟨34, 54⟩, ⟨34, 56⟩,
      ⟨34, 58⟩, ⟨34, 61⟩, ⟨34, 63⟩]
  square_le := by decide
  steps_ne_nil := by decide
  length_le := by decide
  scales := by decide

/-- The plan near a full turn. -/
def fullTurnPlan : Plan 1 where
  square := 30
  steps :=
    [⟨31, 30⟩, ⟨31, 30⟩, ⟨32, 30⟩, ⟨32, 30⟩, ⟨32, 30⟩, ⟨32, 31⟩, ⟨32, 32⟩, ⟨32, 32⟩, ⟨32, 33⟩,
      ⟨33, 34⟩, ⟨33, 36⟩, ⟨33, 37⟩, ⟨33, 38⟩, ⟨33, 39⟩, ⟨33, 41⟩, ⟨33, 42⟩, ⟨33, 44⟩, ⟨33, 45⟩,
      ⟨33, 47⟩, ⟨33, 48⟩, ⟨33, 50⟩, ⟨33, 52⟩, ⟨33, 53⟩, ⟨33, 55⟩, ⟨33, 57⟩, ⟨33, 59⟩, ⟨33, 61⟩,
      ⟨33, 63⟩]
  square_le := by decide
  steps_ne_nil := by decide
  length_le := by decide
  scales := by decide

/-- The plan near a quarter of a turn. -/
def quarterTurnPlan : Plan 0 where
  square := 31
  steps :=
    [⟨31, 31⟩, ⟨32, 32⟩, ⟨33, 33⟩, ⟨33, 35⟩, ⟨33, 36⟩, ⟨33, 38⟩, ⟨33, 40⟩, ⟨33, 42⟩, ⟨34, 44⟩,
      ⟨34, 46⟩, ⟨34, 48⟩, ⟨34, 51⟩, ⟨34, 53⟩, ⟨34, 55⟩, ⟨34, 58⟩, ⟨34, 61⟩, ⟨34, 63⟩]
  square_le := by decide
  steps_ne_nil := by decide
  length_le := by decide
  scales := by decide

/-- The plan near three quarters of a turn. -/
def threeQuarterTurnPlan : Plan 0 where
  square := 30
  steps :=
    [⟨30, 30⟩, ⟨31, 30⟩, ⟨32, 30⟩, ⟨32, 31⟩, ⟨32, 31⟩, ⟨32, 32⟩, ⟨32, 33⟩, ⟨33, 34⟩, ⟨33, 35⟩,
      ⟨33, 36⟩, ⟨33, 38⟩, ⟨33, 39⟩, ⟨33, 41⟩, ⟨33, 42⟩, ⟨33, 44⟩, ⟨33, 45⟩, ⟨33, 47⟩, ⟨33, 49⟩,
      ⟨33, 51⟩, ⟨33, 52⟩, ⟨33, 54⟩, ⟨33, 56⟩, ⟨33, 58⟩, ⟨34, 60⟩, ⟨34, 62⟩]
  square_le := by decide
  steps_ne_nil := by decide
  length_le := by decide
  scales := by decide

/-- Sums of the sine within seventy units of half a turn. -/
lemma halfTurn_isSettled : ∀ j < 140, halfTurnPlan.isSettled 31415926535897932384626433832795
    (31415926535897932384626433832725 + j) = true := by
  decide +kernel

/-- Sums of the sine up to a full turn, from fourteen hundred units below. -/
lemma fullTurn_isSettled : ∀ j < 1401, fullTurnPlan.isSettled 62831853071795864769252867665590
    (62831853071795864769252867664190 + j) = true := by
  decide +kernel

/-- Sums of the cosine within forty units of a quarter of a turn. -/
lemma quarterTurn_isSettled : ∀ j < 80, quarterTurnPlan.isSettled 15707963267948966192313216916398
    (15707963267948966192313216916358 + j) = true := by
  decide +kernel

/-- Sums of the cosine within two hundred and fifty units of three quarters of a turn. -/
lemma threeQuarterTurn_isSettled : ∀ j < 500, threeQuarterTurnPlan.isSettled
    47123889803846898576939650749193 (47123889803846898576939650748943 + j) = true := by
  decide +kernel

end DecimalCalculator.Elementary
