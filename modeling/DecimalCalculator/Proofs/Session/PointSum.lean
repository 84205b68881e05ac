import DecimalCalculator.Proofs.Elementary.Equality
import DecimalCalculator.Proofs.Session.Brackets
import DecimalCalculator.Proofs.Session.RangeSum

/-!
Functions at one point, and sums over one point.

* `Session.bracketsBalanced_render`: **the text of a sample** is balanced if the function and the
  function registers are.
* `evaluateWithin_pointSum`, `evaluation_pointSum`: **a sum from an integer to itself** comes to its
  sample there, one level deeper.
* `Session.sampleAt_eq_pointSum`: **sampling a function** at an integer and summing it over that
  integer have the same result.
-/

namespace DecimalCalculator

open Decimal Elementary

variable {s : Session} {draws draws' : Draws} {place : Place} {f t u : Text} {k : ℤ}

/-! ### Balanced samples -/

/-- A balanced text in front makes no difference to the brackets behind it. -/
lemma closesFrom_append_iff (hu : bracketsBalanced u = true) (depth : ℤ) :
    ClosesFrom depth (u ++ t) ↔ ClosesFrom depth t := by
  obtain ⟨hbeginnings, hwhole⟩ := (bracketsBalanced_iff u).mp hu
  rw [zero_add] at hwhole
  constructor
  · rintro ⟨hpre, hend⟩
    rw [rise_append, hwhole, zero_add] at hend
    refine ⟨fun a b hab => ?_, hend⟩
    have hrise := hpre (u ++ a) b (by rw [hab, List.append_assoc])
    rwa [rise_append, hwhole, zero_add] at hrise
  · intro h
    refine ⟨fun a b hab => ?_, by rw [rise_append, hwhole, zero_add]; exact h.2⟩
    rcases List.append_eq_append_iff.mp hab with ⟨a', rfl, ht⟩ | ⟨b', rfl, -⟩
    · rw [rise_append, hwhole, zero_add]
      exact h.1 a' b ht
    · have hnonneg := h.nonneg
      have hrise := hbeginnings a b' rfl
      omega

/-- Numerals are balanced. -/
lemma bracketsBalanced_numeral (x : Decimal) : bracketsBalanced (Template.numeral x) = true := by
  refine bracketsBalanced_wrap (bracketsBalanced_of_noBracket fun c hc => ?_)
  rcases mem_plain hc with hnumeral | rfl
  · exact (plain_of_isNumeral hnumeral).1
  · rfl

/-- **Filling the slots** of a function keeps its balance, and its imbalance. -/
lemma bracketsBalanced_render_ofText (t : Text) (x : Decimal) :
    bracketsBalanced ((Template.ofText t).render x) = bracketsBalanced t := by
  have hcloses : ∀ depth, ClosesFrom depth ((Template.ofText t).render x) ↔ ClosesFrom depth t := by
    intro depth
    rw [Template.render_ofText]
    induction t generalizing depth with
    | nil => rfl
    | cons c t ih =>
      rw [List.flatMap_cons]
      by_cases hc : c = variableLetter
      · rw [if_pos hc, closesFrom_append_iff (bracketsBalanced_numeral x), ih, ← List.singleton_append,
          closesFrom_append_iff (by rw [hc]; rfl)]
      · rw [if_neg hc, List.singleton_append, closesFrom_cons, closesFrom_cons, ih]
  rw [Bool.eq_iff_iff, bracketsBalanced_iff, bracketsBalanced_iff, hcloses]

namespace Session

/-- **Putting in balanced registers** keeps the balance of a text, and its imbalance. -/
lemma closesFrom_fillRegisters (hanswer : bracketsBalanced s.functionAnswer = true)
    (hmemory : bracketsBalanced s.functionMemory = true) (t : Text) (depth : ℤ) :
    ClosesFrom depth (s.fillRegisters t) ↔ ClosesFrom depth t := by
  fun_induction s.fillRegisters t generalizing depth with
  | case1 rest ih =>
    rw [closesFrom_append_iff hanswer, ih]
    exact (closesFrom_append_iff (u := ['f', 'a', 'n', 's']) (by decide) depth).symm
  | case2 rest ih =>
    rw [closesFrom_append_iff hmemory, ih]
    exact (closesFrom_append_iff (u := ['f', 'm', 'e', 'm']) (by decide) depth).symm
  | case3 c rest _ _ ih => rw [closesFrom_cons, closesFrom_cons, ih]
  | case4 => rfl

/-- **The text of a sample** is balanced if the function and the function registers are. -/
theorem bracketsBalanced_render (hanswer : bracketsBalanced s.functionAnswer = true)
    (hmemory : bracketsBalanced s.functionMemory = true) (ht : bracketsBalanced t = true)
    (x : Decimal) : bracketsBalanced ((s.template t).render x) = true := by
  rw [template, bracketsBalanced_render_ofText, expand, bracketsBalanced_normalizeCase,
    bracketsBalanced_iff, closesFrom_fillRegisters hanswer hmemory, ← bracketsBalanced_iff,
    bracketsBalanced_normalizeCase, ht]

end Session

/-! ### Sums over one point -/

/-- The sum of a function from an integer to itself, `sum(f,k,k)`. -/
def pointSum (f : Text) (k : ℤ) : Text :=
  callText Aggregate.sum.name f (integerText k) (integerText k)

section Sessions

variable (hanswer : bracketsBalanced s.functionAnswer = true)
  (hmemory : bracketsBalanced s.functionMemory = true) (hf : IsArgument f)
  (hk : isInt64 k = true)

include hanswer hmemory hf hk

/-- The sum comes to the sample, one level deeper. -/
lemma evaluateWithin_pointSum {depth : ℕ} (hdepth : 0 < depth) :
    evaluateWithin s draws (depth + 1) place (pointSum f k) =
      evaluateWithin s draws depth (.sample k :: place) ((s.template f).render (ofInt k)) >>=
        fun v => .value (0 + v) := by
  have hsample := s.bracketsBalanced_render hanswer hmemory hf.balanced (ofInt k)
  rw [pointSum, ← rangeSum, evaluateWithin_rangeSum (by decide) hf hk hk le_rfl hdepth,
    sumOver_self]
  obtain ⟨depth, rfl⟩ := Nat.exists_eq_add_one_of_ne_zero hdepth.ne'
  rw [evaluateWithin_wrap s draws _ hsample]

/-- The sum comes to the sample, if that comes to anything. -/
theorem evaluation_pointSum :
    evaluation s draws place (pointSum f k) =
      evaluation s draws (.sample k :: place) ((s.template f).render (ofInt k)) >>=
        fun v => .value (0 + v) := by
  have hsample := s.bracketsBalanced_render hanswer hmemory hf.balanced (ofInt k)
  have hwrap : evaluation s draws (.sample k :: place) (wrap ((s.template f).render (ofInt k))) =
      evaluation s draws (.sample k :: place) ((s.template f).render (ofInt k)) :=
    evaluation_iterate_wrap hsample 1
  rw [pointSum, ← rangeSum, evaluation_rangeSum (by decide) hf hk hk le_rfl, sumOver_self, hwrap]

end Sessions

namespace Session

/-- **Sampling a function at an integer** and summing it from that integer to itself have the same
result, a value or a failure, in every session whose function registers are balanced: the sum comes
to zero plus the sample. The numbers drawn at random have to be the same, unless there are none. In
a session the results could differ only where function registers nest the evaluation deeper than any
memory holds. -/
theorem sampleAt_eq_pointSum (s : Session) (hanswer : bracketsBalanced s.functionAnswer = true)
    (hmemory : bracketsBalanced s.functionMemory = true) (hf : IsArgument f)
    (hk : isInt64 k = true)
    (hdraws : draws' = draws.below [.sample k] ∨ NeverDraws s ((s.template f).render (ofInt k))) :
    evaluation s draws [] (pointSum f k) =
        (evaluation s draws' [] ((s.template f).render (ofInt k)) >>= fun v => .value (0 + v)) ∧
      (SameResult (s.sampleAt draws' f (ofInt k)) (s.compute draws (pointSum f k)) ∨
        ¬ (s.functionAnswer = [] ∧ s.functionMemory = []) ∧
          evaluateWithin s draws' registerNesting [] ((s.template f).render (ofInt k)) =
            .exhausted) := by
  set sample := (s.template f).render (ofInt k) with hsample
  have hwithin : ∀ depth, evaluateWithin s draws depth [.sample k] sample =
      evaluateWithin s draws' depth [] sample := by
    intro depth
    rcases hdraws with rfl | hnever
    · exact evaluateWithin_below depth []
    · exact hnever.evaluateWithin_eq depth
  have hsum : evaluation s draws [] (pointSum f k) =
      evaluation s draws' [] sample >>= fun v => .value (0 + v) := by
    rw [evaluation_pointSum hanswer hmemory hf hk, ← hsample,
      evaluation_eq_of_evaluateWithin_eq hwithin]
  -- both depths suffice, so that both results are those of the evaluations
  have hresults : s.AllowsDepth draws (pointSum f k) → s.AllowsDepth draws' sample →
      SameResult (s.sampleAt draws' f (ofInt k)) (s.compute draws (pointSum f k)) := by
    intro hcall hpoint
    rw [sampleAt, compute, compute, ← hsample, hcall, hpoint, hsum]
    cases evaluation s draws' [] sample with
    | value v => exact .ok (equiv_iff.mpr (by rw [toRat_add, toRat_zero, zero_add]))
    | failed failure => exact .error failure
    | exhausted => exact .error .overflow
  refine ⟨hsum, ?_⟩
  by_cases hregisters : s.functionAnswer = [] ∧ s.functionMemory = []
  · exact .inl (hresults (s.allowsDepth (.inl hregisters)) (s.allowsDepth (.inl hregisters)))
  · by_cases hends : evaluateWithin s draws' registerNesting [] sample = .exhausted
    · exact .inr ⟨hregisters, hends⟩
    · have hroom := s.registerNesting_lt_allowedDepth hregisters
      refine .inl (hresults (allowsDepth_of_ne_exhausted (hroom _) ?_)
        (allowsDepth_of_ne_exhausted (hroom _).le hends))
      rw [evaluateWithin_pointSum hanswer hmemory hf hk (by norm_num [registerNesting]), ← hsample,
        hwithin]
      generalize evaluateWithin s draws' registerNesting [] sample = o at hends
      cases o with
      | value v => simp
      | failed failure => simp
      | exhausted => exact absurd rfl hends

/-- A square in the memory for functions, and one more. -/
theorem sampleAt_eq_pointSum_square :
    let s : Session := { fresh with functionMemory := text "x^2" }
    SameResult (s.sampleAt (Draws.ofSeed 0) (text "fmem+1") (ofInt 3))
      (s.compute (Draws.ofSeed 1) (text "sum(fmem+1,3,3)")) := by
  intro s
  have hf : IsArgument (text "fmem+1") := .of_notMem (by decide) (by decide)
  have hsample : (s.template (text "fmem+1")).render (ofInt 3) = text "(3)^2+1" := by decide
  have havoids : Avoids drawingWords (text "(3)^2+1") := ⟨by decide, by decide⟩
  have hdraws : Draws.ofSeed 0 = (Draws.ofSeed 1).below [.sample 3] ∨
      NeverDraws s ((s.template (text "fmem+1")).render (ofInt 3)) :=
    .inr (hsample ▸ neverDraws_of_avoids havoids)
  have hagree := (s.sampleAt_eq_pointSum (by decide) (by decide) hf (by decide) hdraws).2
  refine hagree.resolve_right fun hends => ?_
  rw [hsample] at hends
  have hmarks : marks (text "(3)^2+1") < registerNesting := by decide
  exact havoids.evaluateWithin_ne_exhausted (fun _ => isPlainWord_of_mem_drawingWords)
    (List.subset_cons_self _ _) hmarks [] hends.2

end Session

end DecimalCalculator
