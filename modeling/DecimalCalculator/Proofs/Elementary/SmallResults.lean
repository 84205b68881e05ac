import DecimalCalculator.Proofs.Elementary.HalfLogarithm
import DecimalCalculator.Proofs.Elementary.HyperbolicReciprocals

/-!
Results below the threshold that are not zero.

* `Function.LeavesSmall`: where a function leaves such a result. These are six hyperbolic functions at
  some arguments, and no other function.
* `Function.isFlushed_iff`: **results below the threshold** are left exactly there.
* `Function.not_forall_isFlushed`: so not all results are zero or reach the threshold.
-/

namespace DecimalCalculator.Function

open Elementary Decimal

/-- The arguments for which a function leaves a result below the threshold. -/
def LeavesSmall (f : Function) (x : Decimal) : Prop :=
  match f with
  | sinh | tanh => IsTiny x
  | sech => ∃ c, Elementary.cosh x = .ok c ∧ 10 ^ 30 < |c.toRat|
  | csch => ∃ c, Elementary.sinh x = .ok c ∧ 10 ^ 30 < |c.toRat|
  | arctanh => IsNearlyTwo (2 / (1 - x.toRat))
  | arccoth => IsNearlyTwo (2 / (1 - (1 / x).toRat))
  | _ => False

/-- **Results below the threshold.** All functions but the size give zero or a number that reaches the
threshold, except for six hyperbolic functions at some arguments: sine and tangent at very small ones,
secant and cosecant where cosine and sine are large, which is nowhere up to 69 and everywhere from 70
on, and inverse tangent and cotangent where a quotient is nearly two. -/
theorem isFlushed_iff {f : Function} {x v : Decimal} (hf : f ≠ .abs) (h : f.inRadians x = .ok v) :
    (IsFlushed v ↔ ¬ f.LeavesSmall x) ∧
      (f = .sech ∨ f = .csch →
        (x.toRat ≤ 69 → IsFlushed v) ∧ (70 ≤ x.toRat → ¬ IsFlushed v)) := by
  constructor
  · cases f with
    | abs => exact absurd rfl hf
    | sinh => exact sinh_isFlushed_iff h
    | tanh => exact tanh_isFlushed_iff h
    | sech => exact sech_isFlushed_iff h
    | csch => exact csch_isFlushed_iff h
    | arctanh => exact arctanh_isFlushed_iff h
    | arccoth => exact arccoth_isFlushed_iff h
    | sin => exact iff_of_true (Except.ok.inj h ▸ isFlushed_sin x) not_false
    | cos => exact iff_of_true (Except.ok.inj h ▸ isFlushed_cos x) not_false
    | tan => exact iff_of_true (tan_isFlushed x v h) not_false
    | sec => exact iff_of_true (sec_isFlushed x v h) not_false
    | csc => exact iff_of_true (csc_isFlushed x v h) not_false
    | cot => exact iff_of_true (cot_isFlushed x v h) not_false
    | exp => exact iff_of_true (exp_isFlushed x v h) not_false
    | ln => exact iff_of_true (ln_isFlushed x v h) not_false
    | sqrt => exact iff_of_true (sqrt_isFlushed x v h) not_false
    | arcsin => exact iff_of_true (arcsin_isArc x v h).isFlushed not_false
    | arccos => exact iff_of_true (arccos_isFlushed x v h) not_false
    | arctan => exact iff_of_true (arctan_isArc x v h).isFlushed not_false
    | arcsec => exact iff_of_true (arcsec_isFlushed x v h) not_false
    | arccsc => exact iff_of_true (arccsc_isFlushed x v h) not_false
    | arccot => exact iff_of_true (arccot_isFlushed x v h) not_false
    | cosh => exact iff_of_true (cosh_isFlushed x v h) not_false
    | coth => exact iff_of_true (coth_isFlushed x v h) not_false
    | arcsinh => exact iff_of_true (arcsinh_isFlushed x v h) not_false
    | arccosh => exact iff_of_true (arccosh_isFlushed x v h) not_false
    | arcsech => exact iff_of_true (arcsech_isFlushed x v h) not_false
    | arccsch => exact iff_of_true (arccsch_isFlushed x v h) not_false
  · rintro (rfl | rfl)
    · exact sech_isFlushed_of_range h
    · exact csch_isFlushed_of_range h

/-- The hyperbolic sine of two tenths of the threshold is found as such. -/
lemma sinh_below_threshold : sinh.inRadians ⟨2, 31⟩ = .ok ⟨2 * 10 ^ 31, 62⟩ := by
  decide

/-- The hyperbolic secant of 69 is flushed, that of 70 is not, nor is the hyperbolic sine of two tenths
of the threshold. -/
theorem isFlushed_iff_samples :
    (sech.inRadians (ofInt 69) = .ok ⟨21612785554145569890732992324946, 61⟩ ∧
        IsFlushed ⟨21612785554145569890732992324946, 61⟩) ∧
      (sech.inRadians (ofInt 70) = .ok ⟨79508994718172936155781995075894, 62⟩ ∧
        ¬ IsFlushed ⟨79508994718172936155781995075894, 62⟩) ∧
      (sinh.inRadians ⟨2, 31⟩ = .ok ⟨2 * 10 ^ 31, 62⟩ ∧ ¬ IsFlushed ⟨2 * 10 ^ 31, 62⟩) := by
  have hlow : sech.inRadians (ofInt 69) = .ok ⟨21612785554145569890732992324946, 61⟩ := by
    decide +kernel
  have hhigh : sech.inRadians (ofInt 70) = .ok ⟨79508994718172936155781995075894, 62⟩ := by
    decide +kernel
  have htiny : sinh.LeavesSmall ⟨2, 31⟩ := by
    have hround : (⟨2, 31⟩ : Decimal).round workingDigits = ⟨2, 31⟩ := by decide
    rw [LeavesSmall, IsTiny, hround]
    norm_num [toRat, zpow_neg]
  refine ⟨⟨hlow, ((isFlushed_iff (by decide) hlow).2 (Or.inl rfl)).1 (by norm_num)⟩,
    ⟨hhigh, ((isFlushed_iff (by decide) hhigh).2 (Or.inl rfl)).2 (by norm_num)⟩,
    sinh_below_threshold, fun h => ?_⟩
  exact (isFlushed_iff (by decide) sinh_below_threshold).1.mp h htiny

/-- **Not all results are flushed**: the hyperbolic sine of a small number is not. -/
theorem not_forall_isFlushed :
    ¬ ∀ (f : Function) (x v : Decimal), f ≠ .abs → f.inRadians x = .ok v → IsFlushed v := by
  intro h
  have hflushed := h sinh _ _ (by decide) sinh_below_threshold
  norm_num [IsFlushed, toRat, zpow_neg, abs_of_pos] at hflushed

end DecimalCalculator.Function
