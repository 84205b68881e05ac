import DecimalCalculator.Proofs.Decimal.WholeNumber
import DecimalCalculator.Proofs.Expression.Chain
import DecimalCalculator.Proofs.Expression.ConstantIntegral
import DecimalCalculator.Proofs.Expression.Depth
import DecimalCalculator.Proofs.Expression.Draws

/-!
Sums over ranges of integers.

* `foldRange_add`: **a range is gone through in two parts**, of which the second goes on from the
  total of the first.
* `sumOver`: the samples of a range, added to zero. `sumOver_add`: **sums of parts** of a range add
  up, mantissa and scale being the same, since sums of decimals may be grouped in any way.
* `Session.render_template_wrap`: a function in brackets has its samples in brackets.
* `evaluateStep_rangeSum`: **one step** on a sum adds its samples, in brackets.
* `Session.compute_rangeSum_add`: **a sum is cut in two** at any integer of its range.
-/

namespace DecimalCalculator

open Decimal

/-! ### Ranges in two parts -/

/-- **A range** is gone through in two parts, of which the second goes on from the total of the
first. -/
lemma foldRange_add (combine : Decimal → Decimal → Except Failure Decimal)
    (sample : ℤ → Outcome Decimal) (m n : ℕ) (k : ℤ) (total : Decimal) :
    foldRange combine sample (m + n) k total =
      foldRange combine sample m k total >>= foldRange combine sample n (k + m) := by
  induction m generalizing k total with
  | zero => rw [Nat.zero_add, Nat.cast_zero, add_zero]; rfl
  | succ m ih =>
    have hnext : k + 1 + (m : ℤ) = k + (m + 1 : ℕ) := by push_cast; ring
    simp only [Nat.succ_add, foldRange_succ, ih, hnext, bind_assoc]

/-- The samples at the integers from `a` to `b`, added to zero one by one. -/
def sumOver (sample : ℤ → Outcome Decimal) (a b : ℤ) : Outcome Decimal :=
  foldRange (fun x y => .ok (x + y)) sample (b - a + 1).toNat a 0

section SumOver

variable {sample : ℤ → Outcome Decimal} {a b c : ℤ}

/-- What samples are added to may also be added to their sum. -/
lemma foldRange_plus (sample : ℤ → Outcome Decimal) (n : ℕ) (k : ℤ) (x y : Decimal) :
    foldRange (fun x y => .ok (x + y)) sample n k (x + y) =
      foldRange (fun x y => .ok (x + y)) sample n k y >>= fun z => .value (x + z) := by
  induction n generalizing k y with
  | zero => rfl
  | succ n ih =>
    simp only [foldRange_succ, Outcome.ofExcept, Outcome.value_bind, plus_assoc, ih, bind_assoc]

/-- A sum that begins with zero has no negative scale, so that zero makes no difference to it. -/
lemma add_zero_of_sumOver {x : Decimal} (h : sumOver sample a b = .value x) : x + 0 = x := by
  have hzero := foldRange_plus sample (b - a + 1).toNat a 0 0
  rw [show (0 : Decimal) + 0 = 0 from rfl, ← sumOver, h, Outcome.value_bind] at hzero
  have hscale : x.scale = max 0 x.scale := congrArg Decimal.scale (Outcome.value.inj hzero)
  exact eq_of_toRat_eq (by rw [toRat_add, toRat_zero, add_zero])
    (by rw [scale_add, max_comm, hscale]; exact max_eq_right (le_max_left _ _))

/-- **Sums of parts** of a range add up to that of the range. The first failure is reported. -/
theorem sumOver_add (hab : a ≤ b + 1) (hbc : b ≤ c) :
    sumOver sample a c = (do
      let x ← sumOver sample a b
      let y ← sumOver sample (b + 1) c
      pure (x + y)) := by
  obtain ⟨m, hm⟩ := Int.eq_ofNat_of_zero_le (show 0 ≤ b + 1 - a by omega)
  obtain ⟨n, hn⟩ := Int.eq_ofNat_of_zero_le (show 0 ≤ c - b by omega)
  have hwhole : (c - a + 1).toNat = m + n := by omega
  have hfirst : (b - a + 1).toNat = m := by omega
  have hsecond : (c - (b + 1) + 1).toNat = n := by omega
  have hcut : a + (m : ℤ) = b + 1 := by omega
  rw [sumOver, hwhole, foldRange_add, hcut]
  cases hx : foldRange (fun x y => .ok (x + y)) sample m a 0 with
  | value x =>
    have hsum : sumOver sample a b = .value x := by rw [sumOver, hfirst, hx]
    have hrest := foldRange_plus sample n (b + 1) x 0
    rw [add_zero_of_sumOver hsum] at hrest
    rw [hsum, Outcome.value_bind, Outcome.value_bind, sumOver, hsecond, hrest]
    rfl
  | failed failure =>
    rw [sumOver, hfirst, hx]
    rfl
  | exhausted =>
    rw [sumOver, hfirst, hx]
    rfl

/-- The sum over one integer. -/
lemma sumOver_self (k : ℤ) : sumOver sample k k = sample k >>= fun v => .value (0 + v) := by
  rw [sumOver, sub_self, zero_add, Int.toNat_one, foldRange_succ]
  rfl

/-- A sum whose first sample fails. -/
lemma sumOver_failed {failure : Failure} (hab : a ≤ b) (h : sample a = .failed failure) :
    sumOver sample a b = .failed failure := by
  obtain ⟨n, hn⟩ : ∃ n, (b - a + 1).toNat = n + 1 := ⟨(b - a).toNat, by omega⟩
  rw [sumOver, hn, foldRange_succ, h]
  rfl

end SumOver

/-! ### Samples in brackets -/

namespace Session

/-- A closing bracket behind a text is no part of the name of a register. -/
lemma fillRegisters_append_close (s : Session) (t : Text) :
    s.fillRegisters (t ++ [')']) = s.fillRegisters t ++ [')'] := by
  fun_induction s.fillRegisters t with
  | case1 rest ih => rw [List.append_assoc, ← ih]; rfl
  | case2 rest ih => rw [List.append_assoc, ← ih]; rfl
  | case3 c rest hanswer hmemory ih =>
    -- what begins the longer text and does not end in the bracket begins the text
    have hbegins : ∀ {w : Text}, w.getLast? ≠ some ')' → w <+: rest ++ [')'] → w <+: rest :=
      fun hlast hprefix => (List.prefix_concat_iff.mp hprefix).resolve_left fun hwhole =>
        hlast (by rw [hwhole, List.getLast?_concat])
    rw [List.cons_append, fillRegisters, ih, List.cons_append]
    · intro r hc hsplit
      obtain ⟨r', hr'⟩ := hbegins (w := ['a', 'n', 's']) (by decide) ⟨r, hsplit.symm⟩
      exact hanswer r' hc hr'.symm
    · intro r hc hsplit
      obtain ⟨r', hr'⟩ := hbegins (w := ['m', 'e', 'm']) (by decide) ⟨r, hsplit.symm⟩
      exact hmemory r' hc hr'.symm
  | case4 => rfl

/-- **A function in brackets** has its samples in brackets. -/
lemma render_template_wrap (s : Session) (t : Text) (x : Decimal) :
    (s.template (wrap (normalizeCase t))).render x = wrap ((s.template t).render x) := by
  have hexpand : s.expand (wrap (normalizeCase t)) = wrap (s.expand t) := by
    have hfill : s.fillRegisters (wrap (normalizeCase t)) =
        wrap (s.fillRegisters (normalizeCase t)) := by
      rw [wrap, wrap, ← fillRegisters_append_close]
      rfl
    rw [expand, normalizeCase_wrap, normalizeCase_idem, hfill, normalizeCase_wrap, expand]
  rw [template, hexpand, template, Template.render_ofText, Template.render_ofText, wrap, wrap,
    List.flatMap_cons, List.flatMap_append]
  rfl

end Session

/-! ### Sums -/

variable {s : Session} {draws draws₁ draws₂ : Draws} {evaluate : Evaluator} {place : Place}
  {spelling f : Text} {a b c : ℤ}

/-- The sum of a function from one integer to another, such as `sum(f,a,b)`. -/
def rangeSum (spelling f : Text) (a b : ℤ) : Text :=
  callText spelling f (integerText a) (integerText b)

/-- The call of such a sum is too short only without a function. -/
lemma eq_nil_of_length_lt
    (h : (argumentText (normalizeCase f) (integerText a) (integerText b)).length < 6) : f = [] := by
  by_contra hne
  exact not_length_argumentText_lt (by simpa using hne) (integerText_ne_nil a)
    (integerText_ne_nil b) h

/-- The bounds of such a sum are the integers. -/
lemma integerBounds_integerText {args : Arguments} (hlower : args.lower = integerText a)
    (hupper : args.upper = integerText b) (ha : isInt64 a = true) (hb : isInt64 b = true)
    (hab : a ≤ b) (invalid : Failure) :
    integerBounds (evaluateStep s draws evaluate) place args invalid = .value (a, b) := by
  have hbound : ∀ n, isInt64 n = true → ∃ x, x.roundedInt64? = some n ∧
      ∀ place, evaluateStep s draws evaluate place (integerText n) = .value x := by
    intro n hn
    obtain ⟨x, hx, hequal⟩ := ofText?_integerText n
    exact ⟨x, roundedInt64?_of_integer ((equiv_iff.mp hequal).trans (toRat_ofInt n)) hn,
      fun _ => evaluateStep_literal hx (isArgument_integerText n).2.2⟩
  obtain ⟨x, hx, hlowerValue⟩ := hbound a ha
  obtain ⟨y, hy, hupperValue⟩ := hbound b hb
  rw [integerBounds, hlower, hupper, hlowerValue, hupperValue]
  simp only [Outcome.value_bind, hx, hy, Outcome.ofOption, hab.not_gt, if_false]
  rfl

section Sums

variable (hspelling : spelling ∈ Aggregate.sum.spellings) (hf : IsArgument f)
  (ha : isInt64 a = true) (hb : isInt64 b = true) (hab : a ≤ b)

include hspelling hf ha hb hab

/-- **One step** on the sum of a function over a range adds the samples there, in brackets. A sum
without a function is too short a call for small integers, and has empty samples for others. -/
theorem evaluateStep_rangeSum :
    evaluateStep s draws (evaluateStep s draws evaluate) place (rangeSum spelling f a b) =
      sumOver (fun k => evaluateStep s draws evaluate (.sample k :: place)
        (wrap ((s.template f).render (ofInt k)))) a b := by
  obtain ⟨haArgument, haSmall, -⟩ := isArgument_integerText a
  obtain ⟨hbArgument, hbSmall, -⟩ := isArgument_integerText b
  rw [rangeSum, evaluateStep_callText hspelling hf haArgument hbArgument, haSmall, hbSmall,
    evaluateAggregate]
  split
  · next hshort =>
    obtain rfl := eq_nil_of_length_lt hshort
    exact (sumOver_failed hab rfl).symm
  · rw [Arguments.ofCall?_argumentText hf.normalizeCase haArgument hbArgument]
    simp only [Outcome.ofOption, Outcome.value_bind, evaluateRange]
    rw [integerBounds_integerText rfl rfl ha hb hab]
    simp only [Outcome.value_bind, s.render_template_wrap]
    rfl

/-- The sum adds the samples that are found one level deeper. -/
lemma evaluateWithin_rangeSum {depth : ℕ} (hdepth : 0 < depth) :
    evaluateWithin s draws (depth + 1) place (rangeSum spelling f a b) =
      sumOver (fun k => evaluateWithin s draws depth (.sample k :: place)
        (wrap ((s.template f).render (ofInt k)))) a b := by
  obtain ⟨depth, rfl⟩ := Nat.exists_eq_add_one_of_ne_zero hdepth.ne'
  exact evaluateStep_rangeSum hspelling hf ha hb hab

/-- The sum adds what the samples come to. -/
theorem evaluation_rangeSum :
    evaluation s draws place (rangeSum spelling f a b) =
      sumOver (fun k => evaluation s draws (.sample k :: place)
        (wrap ((s.template f).render (ofInt k)))) a b := by
  have hstep : evaluateStep s draws (evaluation s draws) = evaluation s draws :=
    funext₂ fun place t => (evaluation_eq_evaluateStep s draws place t).symm
  calc evaluation s draws place (rangeSum spelling f a b) =
        evaluateStep s draws (evaluateStep s draws (evaluation s draws)) place
          (rangeSum spelling f a b) := by rw [hstep, hstep]
    _ = _ := by rw [evaluateStep_rangeSum hspelling hf ha hb hab, hstep]

end Sums

namespace Session

section Cut

variable (hspelling : spelling ∈ Aggregate.sum.spellings) (hf : IsArgument f)
  (ha : isInt64 a = true) (hc : isInt64 c = true) (hab : a ≤ b) (hbc : b < c)
  (hdraws : draws₁ = draws ∧ draws₂ = draws ∨
    ∀ k, NeverDraws s (wrap ((s.template f).render (ofInt k))))

include ha hc hab hbc hdraws

/-- Sums that are found from samples are cut in two where the samples are the same for the numbers
that are drawn in them. -/
lemma rangeSum_add (whole sample : Draws → Evaluator)
    (hsum : ∀ draws {a b}, isInt64 a = true → isInt64 b = true → a ≤ b →
      whole draws [] (rangeSum spelling f a b) =
        sumOver (fun k => sample draws [.sample k] (wrap ((s.template f).render (ofInt k)))) a b)
    (hsample : ∀ {t}, NeverDraws s t → ∀ draws draws' place,
      sample draws place t = sample draws' place t) :
    whole draws [] (rangeSum spelling f a c) = (do
      let x ← whole draws₁ [] (rangeSum spelling f a b)
      let y ← whole draws₂ [] (rangeSum spelling f (b + 1) c)
      pure (x + y)) := by
  have hinside : isInt64 b = true ∧ isInt64 (b + 1) = true := by
    simp only [isInt64, Bool.and_eq_true, decide_eq_true_eq] at ha hc ⊢
    omega
  have hsame : ∀ {draws'}, draws' = draws ∨
        (∀ k, NeverDraws s (wrap ((s.template f).render (ofInt k)))) →
      (fun k => sample draws' [.sample k] (wrap ((s.template f).render (ofInt k)))) =
        fun k => sample draws [.sample k] (wrap ((s.template f).render (ofInt k))) := by
    rintro draws' (rfl | hnever)
    · rfl
    · exact funext fun k => hsample (hnever k) _ _ _
  rw [hsum draws ha hc (by omega), hsum draws₁ ha hinside.1 hab, hsum draws₂ hinside.2 hc hbc,
    hsame (hdraws.imp_left And.left), hsame (hdraws.imp_left And.right)]
  exact sumOver_add (by omega) hbc.le

include hspelling hf

/-- A sum is cut in two to any depth that leaves a level to the samples. -/
lemma evaluateWithin_rangeSum_add {depth : ℕ} (hdepth : 0 < depth) :
    evaluateWithin s draws (depth + 1) [] (rangeSum spelling f a c) = (do
      let x ← evaluateWithin s draws₁ (depth + 1) [] (rangeSum spelling f a b)
      let y ← evaluateWithin s draws₂ (depth + 1) [] (rangeSum spelling f (b + 1) c)
      pure (x + y)) :=
  rangeSum_add ha hc hab hbc hdraws (fun draws => evaluateWithin s draws (depth + 1))
    (fun draws => evaluateWithin s draws depth)
    (fun _ _ _ ha hb hab => evaluateWithin_rangeSum hspelling hf ha hb hab hdepth)
    fun h _ _ _ => h.evaluateWithin_eq depth

/-- A sum is cut in two if no depth is too deep. -/
theorem evaluation_rangeSum_add :
    evaluation s draws [] (rangeSum spelling f a c) = (do
      let x ← evaluation s draws₁ [] (rangeSum spelling f a b)
      let y ← evaluation s draws₂ [] (rangeSum spelling f (b + 1) c)
      pure (x + y)) :=
  rangeSum_add ha hc hab hbc hdraws (evaluation s) (evaluation s)
    (fun _ _ _ ha hb hab => evaluation_rangeSum hspelling hf ha hb hab)
    fun h _ _ _ => h.evaluation_eq

/-- Within the allowed depths a sum is cut in two if these suffice for the whole sum and the first
part, and, if that has a value, for the second part. -/
lemma compute_rangeSum_add_of_allowsDepth
    (hwhole : s.AllowsDepth draws (rangeSum spelling f a c))
    (hfirst : s.AllowsDepth draws₁ (rangeSum spelling f a b))
    (hsecond : ∀ x, evaluation s draws₁ [] (rangeSum spelling f a b) = .value x →
      s.AllowsDepth draws₂ (rangeSum spelling f (b + 1) c)) :
    s.compute draws (rangeSum spelling f a c) = (do
      let x ← s.compute draws₁ (rangeSum spelling f a b)
      let y ← s.compute draws₂ (rangeSum spelling f (b + 1) c)
      pure (x + y)) := by
  rw [compute, hwhole, evaluation_rangeSum_add hspelling hf ha hc hab hbc hdraws, compute, hfirst]
  cases hx : evaluation s draws₁ [] (rangeSum spelling f a b) with
  | value x =>
    rw [compute, hsecond x hx, Outcome.value_bind, Outcome.toExcept_bind]
    rfl
  | failed failure => rfl
  | exhausted => rfl

end Cut

/-- **A sum is cut in two** at any integer of its range: it has a value if both parts have one, and
then the sum of these, with the same mantissa and scale, or else it fails as the first part that
fails. The numbers drawn at random have to be the same, unless there are none. In a session the
results could differ only where function registers nest the evaluation deeper than any memory
holds. -/
theorem compute_rangeSum_add (s : Session) (draws draws₁ draws₂ : Draws)
    (hspelling : spelling ∈ Aggregate.sum.spellings) (hf : IsArgument f) (ha : isInt64 a = true)
    (hc : isInt64 c = true) (hab : a ≤ b) (hbc : b < c)
    (hdraws : draws₁ = draws ∧ draws₂ = draws ∨
      ∀ k, NeverDraws s (wrap ((s.template f).render (ofInt k)))) :
    evaluation s draws [] (rangeSum spelling f a c) = (do
        let x ← evaluation s draws₁ [] (rangeSum spelling f a b)
        let y ← evaluation s draws₂ [] (rangeSum spelling f (b + 1) c)
        pure (x + y)) ∧
      (s.compute draws (rangeSum spelling f a c) = (do
          let x ← s.compute draws₁ (rangeSum spelling f a b)
          let y ← s.compute draws₂ (rangeSum spelling f (b + 1) c)
          pure (x + y)) ∨
        ¬ (s.functionAnswer = [] ∧ s.functionMemory = []) ∧
          evaluateWithin s draws registerNesting [] (rangeSum spelling f a c) = .exhausted) := by
  refine ⟨evaluation_rangeSum_add hspelling hf ha hc hab hbc hdraws, ?_⟩
  by_cases hregisters : s.functionAnswer = [] ∧ s.functionMemory = []
  · have hsuffices : ∀ draws t, s.AllowsDepth draws t := fun _ _ => s.allowsDepth (.inl hregisters)
    exact .inl (compute_rangeSum_add_of_allowsDepth hspelling hf ha hc hab hbc hdraws
      (hsuffices _ _) (hsuffices _ _) fun _ _ => hsuffices _ _)
  by_cases hends : evaluateWithin s draws registerNesting [] (rangeSum spelling f a c) = .exhausted
  · exact .inr ⟨hregisters, hends⟩
  -- what ends as a whole ends in its parts, as far as it comes to them
  have hsuffices : ∀ {draws t}, evaluateWithin s draws registerNesting [] t ≠ .exhausted →
      s.AllowsDepth draws t :=
    allowsDepth_of_ne_exhausted (s.registerNesting_lt_allowedDepth hregisters _).le
  have hparts := evaluateWithin_rangeSum_add hspelling hf ha hc hab hbc hdraws
    (show 0 < registerNesting - 1 by norm_num [registerNesting])
  rw [show registerNesting - 1 + 1 = registerNesting from rfl] at hparts
  have hfirst : evaluateWithin s draws₁ registerNesting [] (rangeSum spelling f a b) ≠ .exhausted :=
    fun hfirst => hends (by rw [hparts, hfirst]; rfl)
  refine .inl (compute_rangeSum_add_of_allowsDepth hspelling hf ha hc hab hbc hdraws
    (hsuffices hends) (hsuffices hfirst) fun x hx => hsuffices fun hsecond => hends ?_)
  rw [hparts, ← evaluation_extends s draws₁ _ [] _ hfirst, hx, hsecond]
  rfl

/-- A square in the memory for functions, and one half more. -/
theorem compute_rangeSum_add_square :
    let s : Session := { fresh with functionMemory := text "x^2" }
    s.compute (Draws.ofSeed 0) (text "sum(fmem+0.50,-1,3)") = (do
      let x ← s.compute (Draws.ofSeed 1) (text "sum(fmem+0.50,-1,1)")
      let y ← s.compute (Draws.ofSeed 2) (text "sum(fmem+0.50,2,3)")
      pure (x + y)) := by
  intro s
  have hf : IsArgument (text "fmem+0.50") := .of_notMem (by decide) (by decide)
  have hnever : ∀ k, NeverDraws s (wrap ((s.template (text "fmem+0.50")).render (ofInt k))) := by
    intro k
    have hexpand : s.template (text "fmem+0.50") = Template.ofText (text "x^2+0.50") := by decide
    have havoids : Avoids drawingWords (text "x^2+0.50") := ⟨by decide, by decide⟩
    rw [hexpand]
    have hwords : ∀ w ∈ drawingWords, IsPlainWord w := fun _ => isPlainWord_of_mem_drawingWords
    exact neverDraws_of_avoids ((havoids.render hwords _).wrap hwords)
  have hcut := (s.compute_rangeSum_add (Draws.ofSeed 0) (Draws.ofSeed 1) (Draws.ofSeed 2)
    (show text "sum" ∈ Aggregate.sum.spellings by decide) hf (a := -1) (b := 1) (c := 3)
    (by decide) (by decide) (by decide) (by decide) (.inr hnever)).2
  refine hcut.resolve_right fun hends => ?_
  -- a few levels are enough for the whole sum
  have hvalue : evaluateWithin s (Draws.ofSeed 0) 6 [] (text "sum(fmem+0.50,-1,3)") =
      .value ⟨1750, 2⟩ := by decide +kernel
  have hdeeper := evaluateWithin_extends s (Draws.ofSeed 0) (m := 6) (n := registerNesting)
    (by norm_num [registerNesting]) [] _ (by rw [hvalue]; simp)
  rw [hvalue] at hdeeper
  exact absurd (hdeeper.symm.trans hends.2) (by simp)

end Session

end DecimalCalculator
