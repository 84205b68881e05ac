import DecimalCalculator.Proofs.Expression.Parts
import DecimalCalculator.Proofs.Expression.TreeValue

/-!
When an evaluation comes to an end.

* `Terminates`: some depth suffices for a value or a failure.
* `evaluation`: what an evaluation comes to at every depth that suffices.
  `evaluation_eq_evaluateStep`: it is found in one step from the evaluations of the parts.
* `Awaits`: an evaluation that comes to nothing as long as that of another text does.
* `terminates_iff`: **an evaluation terminates** unless it leads to an endless chain of evaluations,
  each of which awaits the next, that passes again and again through samples into which a register
  has brought commas.
* `terminates_of_commas_eq_zero`: with registers that hold no commas every evaluation terminates.
* `not_forall_terminates`: a register may name itself.
-/

namespace DecimalCalculator

variable (s : Session) (draws : Draws)

/-! ### Depth -/

/-- An evaluation that comes to a value or a failure at some depth. -/
def Terminates (place : Place) (t : Text) : Prop :=
  ∃ depth, evaluateWithin s draws depth place t ≠ .exhausted

/-- A larger depth finds all that a smaller one finds. -/
lemma evaluateWithin_extends {m n : Nat} (h : m ≤ n) :
    IsSequential.Extends (evaluateWithin s draws m) (evaluateWithin s draws n) := by
  induction m generalizing n with
  | zero => exact fun place t hfinished => absurd rfl hfinished
  | succ m ih =>
    obtain ⟨n, rfl⟩ : ∃ k, n = k + 1 := ⟨n - 1, by omega⟩
    intro place t hfinished
    exact (isSequential_evaluateStep s draws place t).mono (ih (by omega)) hfinished

open Classical in
/-- What an evaluation comes to at every depth that suffices. -/
noncomputable def evaluation : Evaluator := fun place t =>
  if h : Terminates s draws place t then evaluateWithin s draws h.choose place t else .exhausted

/-- An evaluation has come to its end at every depth at which it has come to anything. -/
lemma evaluation_extends (depth : Nat) :
    IsSequential.Extends (evaluateWithin s draws depth) (evaluation s draws) := by
  intro place t hfinished
  have hterminates : Terminates s draws place t := ⟨depth, hfinished⟩
  rw [evaluation, dif_pos hterminates]
  rcases Nat.le_total depth hterminates.choose with hle | hle
  · exact evaluateWithin_extends s draws hle place t hfinished
  · exact (evaluateWithin_extends s draws hle place t hterminates.choose_spec).symm

/-- An evaluation that comes to something does so at some depth. -/
lemma exists_depth {place : Place} {t : Text} (h : evaluation s draws place t ≠ .exhausted) :
    ∃ depth, evaluateWithin s draws depth place t = evaluation s draws place t := by
  rw [evaluation] at h ⊢
  split at h
  · next hterminates =>
    rw [dif_pos hterminates]
    exact ⟨_, rfl⟩
  · exact absurd rfl h

/-- A depth that suffices for an evaluation, if any does, is one from which on nothing changes. -/
lemma evaluateWithin_eq_evaluation {place : Place} {t : Text} {m n : ℕ}
    (h : evaluateWithin s draws m place t = evaluation s draws place t) (hle : m ≤ n) :
    evaluateWithin s draws n place t = evaluation s draws place t := by
  by_cases hfinished : evaluateWithin s draws n place t = .exhausted
  · by_cases hm : evaluateWithin s draws m place t = .exhausted
    · rw [hfinished, ← h, hm]
    · rw [evaluateWithin_extends s draws hle place t hm] at hfinished
      exact absurd hfinished hm
  · exact (evaluation_extends s draws n place t hfinished).symm

variable {s draws} in
/-- Evaluations that are the same to every depth come to the same. -/
lemma evaluation_eq_of_evaluateWithin_eq {draws' : Draws} {place place' : Place} {t u : Text}
    (h : ∀ depth, evaluateWithin s draws depth place t = evaluateWithin s draws' depth place' u) :
    evaluation s draws place t = evaluation s draws' place' u := by
  by_cases hfinished : evaluation s draws' place' u = .exhausted
  · by_contra hne
    rw [hfinished] at hne
    obtain ⟨depth, hdepth⟩ := exists_depth s draws hne
    rw [h] at hdepth
    have hvalue := evaluation_extends s draws' depth place' u (by rw [hdepth]; exact hne)
    rw [hfinished, hdepth] at hvalue
    exact hne hvalue.symm
  · obtain ⟨depth, hdepth⟩ := exists_depth s draws' hfinished
    rw [← hdepth] at hfinished ⊢
    rw [← h]
    exact evaluation_extends s draws depth place t (by rw [h]; exact hfinished)

/-- What an evaluation comes to is found in one step from what those of the parts come to. -/
theorem evaluation_eq_evaluateStep (place : Place) (t : Text) :
    evaluation s draws place t = evaluateStep s draws (evaluation s draws) place t := by
  have hstep := isSequential_evaluateStep s draws place t
  by_cases hfinished : evaluateStep s draws (evaluation s draws) place t = .exhausted
  · by_contra hne
    rw [hfinished] at hne
    obtain ⟨depth, hdepth⟩ := exists_depth s draws hne
    cases depth with
    | zero => exact hne hdepth.symm
    | succ depth =>
      -- one step at that depth would be found from the evaluations of the parts
      rw [evaluateWithin] at hdepth
      have := hstep.mono (evaluation_extends s draws depth) (by rw [hdepth]; exact hne)
      rw [this, hdepth] at hfinished
      exact hne hfinished
  · obtain ⟨depth, hdepth⟩ := hstep.exists_limit
      (fun _ _ hle => evaluateWithin_extends s draws hle)
      (fun _ _ hne => exists_depth s draws hne) hfinished
    rw [← hdepth] at hfinished ⊢
    exact evaluation_extends s draws (depth + 1) place t hfinished

/-! ### Awaiting -/

/-- The evaluation of a text at a place awaits another one: whatever is found for the texts whose
evaluation terminates, it comes to nothing as long as the other one does. -/
def Awaits (call other : Place × Text) : Prop :=
  ∀ evaluate : Evaluator,
    (∀ place t depth, (place, t) ≠ other → evaluateWithin s draws depth place t ≠ .exhausted →
      evaluate place t = evaluateWithin s draws depth place t) →
    evaluate other.1 other.2 = .exhausted →
    evaluateStep s draws evaluate call.1 call.2 = .exhausted

/-- An evaluation that does not terminate awaits that of a part which does not terminate either. -/
lemma exists_awaits {call : Place × Text} (h : ¬ Terminates s draws call.1 call.2) :
    ∃ other, Awaits s draws call other ∧ IsPart s call.2 other.2 ∧
      ¬ Terminates s draws other.1 other.2 := by
  have hstep := isSequential_evaluateStep s draws call.1 call.2
  have hunfinished : evaluateStep s draws (evaluation s draws) call.1 call.2 = .exhausted := by
    rw [← evaluation_eq_evaluateStep, evaluation, dif_neg h]
  obtain ⟨place, t, hpart, hmissing, hawaits⟩ := hstep.exists_awaited hunfinished
  refine ⟨(place, t), fun evaluate hagrees hstill => ?_, hpart, fun hterminates => ?_⟩
  · refine hawaits evaluate (fun place' t' hfinished => ?_) hstill
    obtain ⟨depth, hdepth⟩ := exists_depth s draws hfinished
    have hother : (place', t') ≠ (place, t) := fun heq => by
      obtain ⟨rfl, rfl⟩ := Prod.mk.inj heq
      exact hfinished hmissing
    rw [← hdepth] at hfinished ⊢
    exact hagrees place' t' depth hother hfinished
  · obtain ⟨depth, hfinished⟩ := hterminates
    rw [evaluation_extends s draws depth place t hfinished] at hmissing
    exact hfinished hmissing

/-- An evaluation at the head of an endless chain, each of which awaits the next, does not come to
anything at any depth. -/
lemma exhausted_of_chain (depth : Nat) {chain : ℕ → Place × Text}
    (hchain : ∀ n, Awaits s draws (chain n) (chain (n + 1))) :
    evaluateWithin s draws depth (chain 0).1 (chain 0).2 = .exhausted := by
  classical
  induction depth generalizing chain with
  | zero => rfl
  | succ depth ih =>
    have hnext := @ih (fun n => chain (n + 1)) fun n => hchain (n + 1)
    -- all that is ever found, except for the next evaluation
    let found : Evaluator := fun place t =>
      if (place, t) = chain 1 then .exhausted else evaluation s draws place t
    have hfound : evaluateStep s draws found (chain 0).1 (chain 0).2 = .exhausted := by
      refine hchain 0 found (fun place t depth' hother hfinished => ?_) (if_pos rfl)
      rw [show found place t = evaluation s draws place t from if_neg hother]
      exact evaluation_extends s draws depth' place t hfinished
    by_contra hfinished
    refine hfinished ?_
    rw [evaluateWithin] at hfinished ⊢
    rw [← hfound]
    refine ((isSequential_evaluateStep s draws _ _).mono (fun place t hne => ?_) hfinished).symm
    have hother : (place, t) ≠ chain 1 := fun heq => by
      obtain rfl : place = (chain 1).1 := congrArg Prod.fst heq
      obtain rfl : t = (chain 1).2 := congrArg Prod.snd heq
      exact hne hnext
    rw [show found place t = evaluation s draws place t from if_neg hother]
    exact evaluation_extends s draws depth place t hne

/-! ### Termination -/

/-- An evaluation that does not terminate leads to an endless chain of evaluations, each of which
awaits the next, and passes again and again through samples into which a register has brought
commas. -/
lemma exists_chain (call : Place × Text) (h : ¬ Terminates s draws call.1 call.2) :
    ∃ chain : ℕ → Place × Text, chain 0 = call ∧
      (∀ n, Awaits s draws (chain n) (chain (n + 1))) ∧
      ∀ n, ∃ m ≥ n, IsLoadedSample s (chain m).2 (chain (m + 1)).2 := by
  choose next hnext using fun c : {c : Place × Text // ¬ Terminates s draws c.1 c.2} =>
    exists_awaits s draws c.2
  let step : {c : Place × Text // ¬ Terminates s draws c.1 c.2} →
      {c : Place × Text // ¬ Terminates s draws c.1 c.2} := fun c => ⟨next c, (hnext c).2.2⟩
  let chain : ℕ → Place × Text := fun n => (step^[n] ⟨call, h⟩).1
  have hchain : ∀ n, Awaits s draws (chain n) (chain (n + 1)) ∧
      IsPart s (chain n).2 (chain (n + 1)).2 := fun n => by
    simp only [chain, Function.iterate_succ_apply']
    exact ⟨(hnext _).1, (hnext _).2.1⟩
  refine ⟨chain, rfl, fun n => (hchain n).1, fun n => ?_⟩
  -- otherwise the weights of the texts would fall from `n` on without end
  by_contra hfew
  push Not at hfew
  obtain ⟨k, hk⟩ := WellFounded.not_rel_apply_succ (r := (· < ·)) fun k => weight (chain (n + k)).2
  rcases (hchain (n + k)).2.weight_lt with hlt | hloaded
  · exact hk hlt
  · exact hfew (n + k) (by omega) hloaded

/-- **Termination**: an evaluation terminates unless it leads to an endless chain of evaluations,
each of which awaits the next, that passes again and again through samples into which a register has
brought commas. -/
theorem terminates_iff (place : Place) (t : Text) :
    Terminates s draws place t ↔
      ¬ ∃ chain : ℕ → Place × Text, chain 0 = (place, t) ∧
        (∀ n, Awaits s draws (chain n) (chain (n + 1))) ∧
        ∀ n, ∃ m ≥ n, IsLoadedSample s (chain m).2 (chain (m + 1)).2 := by
  constructor
  · rintro ⟨depth, hfinished⟩ ⟨chain, hstart, hchain, -⟩
    refine hfinished ?_
    have := exhausted_of_chain s draws depth hchain
    rwa [hstart] at this
  · intro hnone
    by_contra hdiverges
    exact hnone (exists_chain s draws (place, t) hdiverges)

/-- Registers without commas bring none into a text. -/
lemma commas_fillRegisters (hanswer : commas s.functionAnswer = 0)
    (hmemory : commas s.functionMemory = 0) (t : Text) :
    commas (s.fillRegisters t) ≤ commas t := by
  fun_induction s.fillRegisters t with
  | case1 rest ih => simp [commas_cons, hanswer]; omega
  | case2 rest ih => simp [commas_cons, hmemory]; omega
  | case3 c rest _ _ ih => simp [commas_cons]; omega
  | case4 => rfl

/-- With registers that hold no commas every evaluation terminates. -/
theorem terminates_of_commas_eq_zero (hanswer : commas s.functionAnswer = 0)
    (hmemory : commas s.functionMemory = 0) (place : Place) (t : Text) :
    Terminates s draws place t := by
  by_contra hdiverges
  obtain ⟨chain, -, -, hloaded⟩ := exists_chain s draws (place, t) hdiverges
  obtain ⟨m, -, args, x, -, -, hmore⟩ := hloaded 0
  have hexpand : commas (s.expand args.function) ≤ commas args.function := by
    rw [Session.expand, commas_normalizeCase, ← commas_normalizeCase args.function]
    exact commas_fillRegisters s hanswer hmemory _
  omega

/-! ### A register that names itself -/

/-- A sum whose function is the register `fmem`. -/
def sumOfRegister : Text := ['s', 'u', 'm', '(', 'f', 'm', 'e', 'm', ',', '1', ',', '1', ')']

/-- A session in which that register holds the sum itself. -/
def selfSummed : Session := { Session.fresh with functionMemory := sumOfRegister }

variable {draws}

/-- In such a session one step on the sum leads back to it. -/
lemma evaluateStep_sumOfRegister {evaluate : Evaluator} {place : Place}
    (hsample : evaluate (.sample 1 :: place) (wrap sumOfRegister) = .exhausted)
    (hbound : ∀ b, evaluate (b :: place) ['1'] = .value 1 ∨
      evaluate (b :: place) ['1'] = .exhausted) :
    evaluateStep selfSummed draws evaluate place sumOfRegister = .exhausted := by
  have hcall : call? (normalizeCase sumOfRegister) =
      some (.aggregate .sum, ['f', 'm', 'e', 'm', ',', '1', ',', '1', ')']) := by decide
  have hargs : Arguments.ofCall? ['f', 'm', 'e', 'm', ',', '1', ',', '1', ')'] =
      some ⟨wrap ['f', 'm', 'e', 'm'], ['1'], ['1']⟩ := by decide
  have htemplate : (selfSummed.template (wrap ['f', 'm', 'e', 'm'])).render (Decimal.ofInt 1) =
      wrap sumOfRegister := by decide
  have hout : IsOutside sumOfRegister [] 's'
      ['u', 'm', '(', 'f', 'm', 'e', 'm', ',', '1', ',', '1', ')'] := ⟨rfl, rfl, rfl⟩
  rw [evaluateStep_term hout (by decide) (by decide), evaluateTerm]
  simp only [hcall, evaluateAggregate, hargs]
  change evaluateRange selfSummed evaluate place _ _ _ _ = .exhausted
  have hone : (1 : Decimal).roundedInt64? = some 1 := by decide
  rcases hbound .lower with hlower | hlower
  · rcases hbound .upper with hupper | hupper
    · -- both bounds are found, and the only sample is missing
      have hcount : ((1 : Int) - 1 + 1).toNat = 0 + 1 := rfl
      simp only [evaluateRange, integerBounds, hlower, hupper, Outcome.value_bind, hone,
        Outcome.ofOption, lt_irrefl, if_false, Outcome.pure_bind, hcount, foldRange, htemplate,
        hsample]
    · simp only [evaluateRange, integerBounds, hlower, hupper, Outcome.value_bind,
        Outcome.exhausted_bind]
  · simp only [evaluateRange, integerBounds, hlower, Outcome.exhausted_bind]

/-- **A register may name itself**: then no depth suffices. -/
theorem not_forall_terminates :
    ¬ ∀ (s : Session) (draws : Draws) (place : Place) (t : Text), Terminates s draws place t := by
  intro h
  obtain ⟨depth, hfinished⟩ := h selfSummed (Draws.ofSeed 0) [] sumOfRegister
  refine hfinished ?_
  suffices ∀ depth place, evaluateWithin selfSummed (Draws.ofSeed 0) depth place sumOfRegister =
      .exhausted from this depth []
  intro depth
  induction depth with
  | zero => exact fun _ => rfl
  | succ depth ih =>
    intro place
    refine evaluateStep_sumOfRegister ?_ fun b => ?_
    · rw [evaluateWithin_wrap _ _ _ (by decide)]
      exact ih _
    · cases depth with
      | zero => exact Or.inr rfl
      | succ depth => exact Or.inl (evaluateStep_literal (by decide) (by decide))

end DecimalCalculator
