import DecimalCalculator.Proofs.Elementary.Flushed

/-!
The loops of the elementary functions end, on arguments in range.

* `Series.EndsWithin`: a series comes to a term below the threshold within some steps, after which
  no larger bound matters. `Series.Follows.endsWithin`: one that follows an exact series does, and
  `Series.endsWithin_of_step`: one whose steps keep what makes the last term small.
* `exp_series_ends`, `circular_series_end`, `arctan_series_ends`: **the series** of the exponential
  function, of sine and cosine, and of the inverse tangent are summed at small arguments, and take
  at most a hundred steps.
* `Reduction.stepWhile_eq_iterate`: what steps come to that are taken while a condition holds, as
  those of a reduction are. `Reduction.EndsWithin`: dividing and multiplying by `e` stop by
  themselves, together within some steps.
* `Reduction.endsWithin`: **the reduction of a logarithm** ends within three steps for each power of
  ten. `ln_series_ends`: what it leaves is in the interval, where the series takes at most a hundred
  steps too.
* `loops_end_in_range`: all of them.
-/

namespace DecimalCalculator.Elementary

open Decimal

variable {x : Decimal}

/-! ### Series -/

namespace Series

variable {s : Series} {n : ℕ}

/-- A term below the threshold comes within so many steps, and ends the series: from there on, no
larger bound changes what a run comes to. -/
structure EndsWithin (s : Series) (n : ℕ) : Prop where
  done : (s.run n 0 s.start).done = true
  run_eq : ∀ bound, n ≤ bound → s.run bound 0 s.start = s.run n 0 s.start

/-- A run that has ended takes no further step. -/
lemma run_of_done {bound k : ℕ} {state : State} (hle : n ≤ bound)
    (hdone : (s.run n k state).done = true) : s.run bound k state = s.run n k state := by
  induction n generalizing bound k state with
  | zero =>
    cases bound with
    | zero => rfl
    | succ bound =>
      change s.run (bound + 1) k state = state
      rw [run, if_pos (show state.done = true from hdone)]
  | succ n ih =>
    obtain ⟨bound, rfl⟩ := Nat.exists_eq_add_one_of_ne_zero (show bound ≠ 0 by omega)
    rw [run] at hdone ⊢
    rw [run]
    split at hdone
    · next h => rw [if_pos h, if_pos h]
    · next h => rw [if_neg h, if_neg h, ih (by omega) hdone]

/-- A series that has ended after so many steps ends within them. -/
lemma EndsWithin.of_done (hdone : (s.run n 0 s.start).done = true) : s.EndsWithin n :=
  ⟨hdone, fun _ hle => run_of_done hle hdone⟩

/-- **A series that follows an exact one** ends within so many steps, if the exact term after them
is small enough. -/
theorem Follows.endsWithin {c : ℕ} {factor term : ℕ → ℝ} (h : s.Follows c factor term)
    (hc : c ≤ 3) (hn : 0 < n) (hbound : n ≤ stepBound) (hlast : |term n| ≤ 1 / 10 ^ 31) :
    s.EndsWithin n := by
  obtain ⟨-, -, -, hdone⟩ := h.ends hc hn hbound hlast
  exact .of_done hdone

/-- **A series whose steps keep a property** ends one step later than the property makes the next
term small, at the latest. -/
theorem endsWithin_of_step {P : ℕ → State → Prop} (hstart : P 0 s.start)
    (hstep : ∀ k state, P k state → P (k + 1) (s.step k state))
    (hlast : ∀ state, P n state → (s.step n state).done = true) : s.EndsWithin (n + 1) := by
  obtain ⟨k, -, ⟨-, hsmall⟩, hend⟩ :=
    run_induction (P := fun k state => P k state ∧ (k = n + 1 → state.done = true))
      (fun k state h => ⟨hstep k state h.1, fun hk => by
        obtain rfl : k = n := by omega
        exact hlast state h.1⟩) (n + 1) 0 s.start ⟨hstart, fun h => absurd h (by omega)⟩
  exact .of_done (hend.elim id fun hk => hsmall (by omega))

end Series

/-! ### The exponential function -/

/-- **The exponential function** is zero or overflows without any series, or its series is summed
between zero and one, where it ends within a hundred steps. -/
theorem exp_series_ends (x : Decimal) :
    (wholeExponent? x.abs = none ∧ exp x = if x.isNegative then .ok 0 else .error .overflow) ∨
      ∃ w p, wholeExponent? x.abs = some w ∧ e.power? w = some p ∧
        exp x = .ok (flush (if x.isNegative then 1 / grown x w p else grown x w p)) ∧
        0 ≤ (x.abs - ofInt w).toRat ∧ (x.abs - ofInt w).toRat ≤ 1 ∧
        (expSeries (x.abs - ofInt w)).EndsWithin 100 := by
  cases hw : wholeExponent? x.abs with
  | none => exact Or.inl ⟨rfl, exp_of_wholeExponent?_eq_none hw⟩
  | some w =>
    obtain ⟨hnonneg, hrange, hlow, hhigh, -⟩ := wholeExponent?_spec (toRat_abs_nonneg x) hw
    obtain ⟨p, hp⟩ := exists_power_e hnonneg hrange
    have hne : (grown x w p).toRat ≠ 0 := (one_pos.trans_le (grown_bounds hw hp).1).ne'
    have hrest : (x.abs - ofInt w).toRat = x.abs.toRat - w := by rw [toRat_sub, toRat_ofInt]
    have hlow' : 0 ≤ (x.abs - ofInt w).toRat := by rw [hrest]; linarith
    have hhigh' : (x.abs - ofInt w).toRat ≤ 1 := by rw [hrest]; linarith
    have hone : (x.abs - ofInt w).toReal ≤ 1 := by
      rw [toReal]
      exact_mod_cast hhigh'
    have hlast : |expTerm (x.abs - ofInt w).toReal 100| ≤ 1 / 10 ^ 31 :=
      abs_expTerm_le (Rat.cast_nonneg.mpr hlow') hone (by norm_num)
    exact Or.inr ⟨w, p, rfl, hp, exp_of_wholeExponent? hw hp hne, hlow', hhigh',
      (expSeries_follows _).endsWithin (by norm_num) (by norm_num) (by norm_num [Series.stepBound])
        hlast⟩

/-! ### Sine and cosine -/

/-- Both alternating series end within a hundred steps at an angle of at most seven. -/
lemma alternatingSeries_endsWithin {first : Decimal} {p : ℕ} (hp : p ≤ 1)
    (hfirst : first.toReal = x.toReal ^ p) (hx : 0 ≤ x.toReal) (hseven : x.toReal ≤ 7) :
    (alternatingSeries x first (p + 1)).EndsWithin 100 := by
  refine (alternatingSeries_follows x first p hfirst hp).endsWithin le_rfl (by norm_num)
    (by norm_num [Series.stepBound]) ?_
  rw [abs_circularTerm hx]
  exact pow_div_factorial_le hx hseven (by omega)

/-- **Sine and cosine**: the series are summed at less than a full turn, where they end within a
hundred steps. -/
theorem circular_series_end (x : Decimal) :
    sin x = (if x.isNegative then
      -flush (alternatingSeries (reduceAngle x.abs) (reduceAngle x.abs) 2).sum
      else flush (alternatingSeries (reduceAngle x.abs) (reduceAngle x.abs) 2).sum) ∧
      cos x = flush (alternatingSeries (reduceAngle x.abs) 1 1).sum ∧
      0 ≤ (reduceAngle x.abs).toRat ∧ (reduceAngle x.abs).toRat < fullTurn.toRat ∧
      (alternatingSeries (reduceAngle x.abs) (reduceAngle x.abs) 2).EndsWithin 100 ∧
      (alternatingSeries (reduceAngle x.abs) 1 1).EndsWithin 100 := by
  have hx : 0 ≤ x.abs.toReal := Rat.cast_nonneg.mpr (toRat_abs_nonneg x)
  obtain ⟨hnonneg, hturn, -⟩ := reduceAngle_spec hx
  have hseven : (reduceAngle x.abs).toReal ≤ 7 := hturn.trans (by norm_num)
  exact ⟨rfl, rfl, Rat.cast_nonneg.mp hnonneg, reduceAngle_lt_fullTurn hx,
    alternatingSeries_endsWithin le_rfl (pow_one _).symm hnonneg hseven,
    alternatingSeries_endsWithin (Nat.zero_le 1) (by simp [toReal]) hnonneg hseven⟩

/-! ### The inverse tangent -/

/-- **The inverse tangent** of a number other than zero: the series is summed at a small number,
where it ends within a hundred steps. -/
theorem arctan_series_ends (x : Decimal) :
    (x.toRat ≠ 0 → arctan x = .ok (turnBack x.isNegative (decide (1 < x.abs))
      (decide (arctanBound < arctanSize x)) (flush (arctanSeries (arctanArgument x)).sum))) ∧
      |(arctanArgument x).toRat| ≤ 268 / 1000 ∧
      (arctanSeries (arctanArgument x)).EndsWithin 100 := by
  have hsmall := abs_arctanArgument_le x
  have hsize : |(arctanArgument x).toRat| ≤ 3 / 10 := hsmall.trans (by norm_num)
  refine ⟨arctan_eq_turnBack, hsmall, ?_⟩
  refine Series.endsWithin_of_step (n := 99) (P := IsArctanState (arctanArgument x))
    (isArctanState_start _) (fun k state h => h.step hsize) fun state h => ?_
  have hterm := h.next_term_le hsize
  have hpower : |(arctanArgument x).toRat| / 5 ^ 100 * (1 / 2) < 1 / 10 ^ 30 := by
    refine lt_of_le_of_lt (mul_le_mul_of_nonneg_right
      (div_le_div_of_nonneg_right hsize (by positivity)) (by norm_num)) ?_
    norm_num
  rw [Series.step, decide_eq_true_eq, lt_iff, toRat_abs, toRat_threshold]
  exact hterm.trans_lt hpower

/-! ### The natural logarithm -/

namespace Reduction

/-- Within so many steps dividing stops because the number is not above the interval, and
multiplying what it leaves stops because that is not below the interval: no larger bounds change
either. Both together have taken no more steps than that. -/
structure EndsWithin (x : Decimal) (n : ℕ) : Prop where
  not_above : ¬ lnUpper < (divide n ⟨x, 0⟩).reduced
  not_below : ¬ (multiply n (divide n ⟨x, 0⟩)).reduced < lnLower
  steps_le : (divide n ⟨x, 0⟩).count +
    ((divide n ⟨x, 0⟩).count - (multiply n (divide n ⟨x, 0⟩)).count) ≤ n
  divide_eq : ∀ bound, n ≤ bound → divide bound ⟨x, 0⟩ = divide n ⟨x, 0⟩
  multiply_eq : ∀ bound, n ≤ bound →
    multiply bound (divide n ⟨x, 0⟩) = multiply n (divide n ⟨x, 0⟩)

/-- Takes steps while a condition holds, at most so many. -/
def stepWhile (p : Reduction → Prop) [DecidablePred p] (step : Reduction → Reduction) :
    ℕ → Reduction → Reduction
  | 0, r => r
  | bound + 1, r => if p r then stepWhile p step bound (step r) else r

section StepWhile

variable {p : Reduction → Prop} [DecidablePred p] {step : Reduction → Reduction} {n : ℕ}
  {r : Reduction}

lemma stepWhile_of_not (h : ¬ p r) (n : ℕ) : stepWhile p step n r = r := by
  cases n with
  | zero => rfl
  | succ n => exact if_neg h

/-- **Steps that have ended by themselves** are so many steps, and any bound that allows for them
comes to the same. -/
theorem stepWhile_eq_iterate (hended : ¬ p (stepWhile p step n r)) :
    ∃ k, stepWhile p step n r = step^[k] r ∧
      ∀ m, k ≤ m → stepWhile p step m r = stepWhile p step n r := by
  induction n generalizing r with
  | zero => exact ⟨0, rfl, fun m _ => stepWhile_of_not hended m⟩
  | succ n ih =>
    by_cases hstep : p r
    · rw [stepWhile, if_pos hstep] at hended ⊢
      obtain ⟨k, hk, hsame⟩ := ih hended
      refine ⟨k + 1, hk, fun m hm => ?_⟩
      obtain ⟨m, rfl⟩ := Nat.exists_eq_add_one_of_ne_zero (show m ≠ 0 by omega)
      rw [stepWhile, if_pos hstep, hsame m (by omega)]
    · rw [stepWhile_of_not hstep]
      exact ⟨0, rfl, fun m _ => stepWhile_of_not hstep m⟩

end StepWhile

/-- One division by `e`. -/
def divideOnce (r : Reduction) : Reduction := ⟨r.reduced / e, r.count + 1⟩

/-- One multiplication by `e`. -/
def multiplyOnce (r : Reduction) : Reduction := ⟨r.reduced * e, r.count - 1⟩

lemma divide_eq_stepWhile (n : ℕ) (r : Reduction) :
    divide n r = stepWhile (fun r => lnUpper < r.reduced) divideOnce n r := by
  induction n generalizing r with
  | zero => rfl
  | succ n ih => rw [divide, stepWhile, ih]; rfl

lemma multiply_eq_stepWhile (n : ℕ) (r : Reduction) :
    multiply n r = stepWhile (fun r => r.reduced < lnLower) multiplyOnce n r := by
  induction n generalizing r with
  | zero => rfl
  | succ n ih => rw [multiply, stepWhile, ih]; rfl

lemma count_iterate_divideOnce (k : ℕ) (r : Reduction) :
    (divideOnce^[k] r).count = r.count + k := by
  induction k with
  | zero => exact (Int.add_zero r.count).symm
  | succ k ih =>
    rw [Function.iterate_succ_apply', divideOnce, ih]
    push_cast
    omega

lemma count_iterate_multiplyOnce (k : ℕ) (r : Reduction) :
    (multiplyOnce^[k] r).count = r.count - k := by
  induction k with
  | zero => exact (Int.sub_zero r.count).symm
  | succ k ih =>
    rw [Function.iterate_succ_apply', multiplyOnce, ih]
    push_cast
    omega

/-- **Dividing** that has ended by itself has counted its steps up, and any bound that allows for
them comes to the same. -/
lemma divide_of_not_above {n : ℕ} {r : Reduction} (hended : ¬ lnUpper < (divide n r).reduced) :
    ∃ k : ℕ, (divide n r).count = r.count + k ∧ ∀ m, k ≤ m → divide m r = divide n r := by
  simp only [divide_eq_stepWhile] at hended ⊢
  obtain ⟨k, hk, hsame⟩ := stepWhile_eq_iterate (p := fun r => lnUpper < r.reduced) hended
  exact ⟨k, by rw [hk, count_iterate_divideOnce], hsame⟩

/-- **Multiplying** that has ended by itself has counted its steps down. -/
lemma multiply_of_not_below {n : ℕ} {r : Reduction}
    (hended : ¬ (multiply n r).reduced < lnLower) :
    ∃ k : ℕ, (multiply n r).count = r.count - k ∧ ∀ m, k ≤ m → multiply m r = multiply n r := by
  simp only [multiply_eq_stepWhile] at hended ⊢
  obtain ⟨k, hk, hsame⟩ := stepWhile_eq_iterate (p := fun r => r.reduced < lnLower) hended
  exact ⟨k, by rw [hk, count_iterate_multiplyOnce], hsame⟩

/-- Multiplying does not lead above the interval: its upper end is the product of the lower one. -/
lemma multiply_le_lnUpper (n : ℕ) {r : Reduction} (h : r.reduced.toRat ≤ lnUpper.toRat) :
    (multiply n r).reduced.toRat ≤ lnUpper.toRat := by
  induction n generalizing r with
  | zero => exact h
  | succ n ih =>
    rw [multiply]
    split
    · next hbelow =>
      refine @ih ⟨r.reduced * e, r.count - 1⟩ ?_
      rw [lnUpper, toRat_mul, toRat_mul]
      refine roundSignificant_mono workingDigits_pos (mul_le_mul_of_nonneg_right ?_ ?_)
      · exact (lt_iff.mp hbelow).le
      · linarith [e_bounds.1]
    · exact h

/-- The logarithm of a number counts less than two and a half for each power of ten. -/
lemma abs_log_le (hpos : 0 < x.toRat) :
    |Real.log x.toReal| ≤ 5 / 2 * (x.magnitude.natAbs + 1) := by
  have hreal : 0 < x.toReal := Rat.cast_pos.mpr hpos
  have hten : 0 < Real.log 10 := Real.log_pos (by norm_num)
  -- the powers of ten around the number
  have hlow : (10 : ℝ) ^ x.magnitude ≤ x.toReal := by
    have := (Rat.cast_le (K := ℝ)).mpr (zpow_magnitude_le hpos.ne')
    rw [abs_of_pos hpos] at this
    push_cast at this
    exact this
  have hhigh : x.toReal ≤ (10 : ℝ) ^ (x.magnitude + 1) := by
    have := (Rat.cast_le (K := ℝ)).mpr (lt_zpow_magnitude x).le
    rw [abs_of_pos hpos] at this
    push_cast at this
    exact this
  have hlow' := Real.log_le_log (by positivity) hlow
  have hhigh' := Real.log_le_log hreal hhigh
  rw [Real.log_zpow] at hlow' hhigh'
  have hsize : |(x.magnitude : ℝ)| = x.magnitude.natAbs := by
    rw [Nat.cast_natAbs, Int.cast_abs]
  have hbound : |Real.log x.toReal| ≤ (|(x.magnitude : ℝ)| + 1) * Real.log 10 := by
    push_cast at hhigh'
    have := neg_abs_le (x.magnitude : ℝ)
    have := le_abs_self (x.magnitude : ℝ)
    rw [abs_le]
    constructor <;> nlinarith
  rw [hsize] at hbound
  have := mul_le_mul_of_nonneg_left log_ten_le (show (0 : ℝ) ≤ x.magnitude.natAbs + 1 by positivity)
  linarith

/-- **The reduction** of a positive number ends within three steps for each power of ten, and a few
more. -/
theorem endsWithin (hpos : 0 < x.toRat) : EndsWithin x (3 * (x.magnitude.natAbs + 2)) := by
  -- how many steps the two loops count
  have hsteps := steps_le hpos
  have hlog := abs_log_le hpos
  generalize x.magnitude.natAbs = k at hlog
  set n := 3 * (k + 2) with hn
  obtain ⟨hends, -⟩ := divide_spec (stepBound x) (r := ⟨x, 0⟩) hpos (le_pow_stepBound hpos)
  have habove : ¬ lnUpper < (divide (stepBound x) ⟨x, 0⟩).reduced := by
    rw [lt_iff, not_lt]
    exact hends
  have hbelow : ¬ (of x).reduced < lnLower := by
    rw [lt_iff, not_lt]
    exact (of_bounds hpos).1
  obtain ⟨ups, hups, hdivide⟩ := divide_of_not_above habove
  obtain ⟨downs, hdowns, hmultiply⟩ :=
    multiply_of_not_below (n := stepBound x) (r := divide (stepBound x) ⟨x, 0⟩) hbelow
  change (of x).count = _ at hdowns
  change ∀ m, downs ≤ m → multiply m _ = of x at hmultiply
  simp only [zero_add] at hups
  set divided := divide (stepBound x) ⟨x, 0⟩ with hdivided
  have htotal : divided.count + (divided.count - (of x).count) ≤ n := by
    have : ((divided.count + (divided.count - (of x).count) : ℤ) : ℝ) ≤ (n : ℤ) := by
      rw [hn]
      push_cast
      have hnonneg : (0 : ℝ) ≤ k := Nat.cast_nonneg _
      linarith
    exact_mod_cast this
  replace hdivide : ∀ bound, n ≤ bound → divide bound ⟨x, 0⟩ = divided :=
    fun bound hle => hdivide bound (by omega)
  replace hmultiply : ∀ bound, n ≤ bound → multiply bound divided = of x :=
    fun bound hle => hmultiply bound (by omega)
  refine ⟨?_, ?_, ?_, fun bound hle => ?_, fun bound hle => ?_⟩
  · rwa [hdivide n le_rfl]
  · rwa [hdivide n le_rfl, hmultiply n le_rfl]
  · rwa [hdivide n le_rfl, hmultiply n le_rfl]
  · rw [hdivide n le_rfl, hdivide bound hle]
  · rw [hdivide n le_rfl, hmultiply n le_rfl, hmultiply bound hle]

end Reduction

/-- **The natural logarithm** of a positive number: what the reduction leaves is in the interval,
and the series ends within a hundred steps there. -/
theorem ln_series_ends (hpos : 0 < x.toRat) :
    (x.toRat ≠ 1 → ln x = .ok (flush ((lnSeries ((Reduction.of x).reduced - 1)).sum +
      ofInt (Reduction.of x).count))) ∧
      lnLower.toRat ≤ (Reduction.of x).reduced.toRat ∧
      (Reduction.of x).reduced.toRat ≤ lnUpper.toRat ∧
      (lnSeries ((Reduction.of x).reduced - 1)).EndsWithin 100 := by
  obtain ⟨hends, -⟩ := Reduction.divide_spec (Reduction.stepBound x) (r := ⟨x, 0⟩) hpos
    (Reduction.le_pow_stepBound hpos)
  refine ⟨ln_of_pos hpos, (Reduction.of_bounds hpos).1, Reduction.multiply_le_lnUpper _ hends, ?_⟩
  exact (lnSeries_follows _).endsWithin (by norm_num) (by norm_num) (by norm_num [Series.stepBound])
    (abs_lnTerm_le (Reduction.abs_reduced_sub_one_le hpos) le_rfl)

end DecimalCalculator.Elementary
