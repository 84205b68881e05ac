import DecimalCalculator.Proofs.Elementary.Failures
import DecimalCalculator.Proofs.Expression.Depth
import DecimalCalculator.Proofs.Expression.Values

/-!
Brackets around expressions, and brackets that do not match.

* `evaluateWithin_iterate_wrap`: pairs of brackets around a balanced text make no difference.
  `Session.compute_iterate_wrap`: **outer brackets are transparent** in every session.
* `Asks`: the value of a text rests on that of another. `IsPlainBalanced.asked`: **the parts of a
  balanced text are balanced**, if it names no aggregate.
* `not_isMismatched`: so no part of it reports a bracket that does not match.
  `Session.compute_eq_bracketMismatch_iff`: **unbalanced texts**, and no others, do.
-/

namespace DecimalCalculator

variable {s : Session} {draws : Draws} {evaluate evaluate' : Evaluator} {place : Place}
  {t u : Text}

/-! ### Pairs of brackets -/

/-- Pairs of brackets keep the balance of a text. -/
lemma bracketsBalanced_iterate_wrap (h : bracketsBalanced t = true) (k : ℕ) :
    bracketsBalanced (wrap^[k] t) = true := by
  induction k with
  | zero => exact h
  | succ k ih =>
    rw [Function.iterate_succ_apply']
    exact bracketsBalanced_wrap ih

/-- Pairs of brackets make a text longer. -/
lemma length_normalizeCase_iterate_wrap (t : Text) (k : ℕ) :
    (normalizeCase (wrap^[k] t)).length = (normalizeCase t).length + 2 * k := by
  induction k with
  | zero => rfl
  | succ k ih =>
    rw [Function.iterate_succ_apply', normalizeCase_wrap]
    simp only [wrap, List.length_cons, List.length_append, List.length_nil, ih]
    omega

/-- **Pairs of brackets around a balanced text** make no difference to its value, to any depth. -/
theorem evaluateWithin_iterate_wrap (h : bracketsBalanced t = true) (k depth : ℕ) :
    evaluateWithin s draws depth place (wrap^[k] t) = evaluateWithin s draws depth place t := by
  induction k with
  | zero => rfl
  | succ k ih =>
    rw [Function.iterate_succ_apply',
      evaluateWithin_wrap s draws place (bracketsBalanced_iterate_wrap h k), ih]

/-- Nor do they make a difference to what the evaluation comes to in the end. -/
theorem evaluation_iterate_wrap (h : bracketsBalanced t = true) (k : ℕ) :
    evaluation s draws place (wrap^[k] t) = evaluation s draws place t :=
  evaluation_eq_of_evaluateWithin_eq (evaluateWithin_iterate_wrap h k)

namespace Session

/-- Where the allowed depth suffices for a text, it does so within pairs of brackets. -/
lemma compute_iterate_wrap_of_allowsDepth (h : bracketsBalanced t = true)
    (hdepth : s.AllowsDepth draws t) (k : ℕ) :
    s.compute draws (wrap^[k] t) = s.compute draws t := by
  have hle : s.allowedDepth t ≤ s.allowedDepth (wrap^[k] t) := by
    rw [allowedDepth, allowedDepth, length_normalizeCase_iterate_wrap]
    omega
  rw [compute, compute, evaluateWithin_iterate_wrap h,
    evaluateWithin_eq_evaluation s draws hdepth hle, hdepth]

/-- **Outer brackets are transparent**: pairs of brackets around a balanced text change neither its
value nor its failure, to every depth of the evaluation, and in a session. Within a session that
could fail only where function registers nest the evaluation deeper than any memory holds. -/
theorem compute_iterate_wrap (s : Session) (draws : Draws) (k : ℕ)
    (h : bracketsBalanced t = true) :
    (∀ depth place, evaluateWithin s draws depth place (wrap^[k] t) =
      evaluateWithin s draws depth place t) ∧
    evaluation s draws [] (wrap^[k] t) = evaluation s draws [] t ∧
    (s.compute draws (wrap^[k] t) = s.compute draws t ∨
      ¬ (s.functionAnswer = [] ∧ s.functionMemory = []) ∧ ¬ Avoids functionRegisters t ∧
        evaluateWithin s draws registerNesting [] t = .exhausted) := by
  refine ⟨fun depth place => evaluateWithin_iterate_wrap h k depth, evaluation_iterate_wrap h k, ?_⟩
  by_cases hsuffices : s.AllowsDepth draws t
  · exact Or.inl (compute_iterate_wrap_of_allowsDepth h hsuffices k)
  · have hregisters := not_or.mp fun hor => hsuffices (s.allowsDepth hor)
    refine Or.inr ⟨hregisters.1, hregisters.2, ?_⟩
    -- what is found at a smaller depth would be found at the allowed one
    by_contra hfinished
    refine hsuffices (evaluateWithin_eq_evaluation s draws
      (evaluation_extends s draws registerNesting [] t hfinished).symm ?_)
    rw [allowedDepth, if_neg]
    · omega
    · simpa using hregisters.1

/-- The two ends of a text that do not match each other stay in place. -/
theorem compute_iterate_wrap_sum :
    fresh.compute (Draws.ofSeed 0) (wrap^[3] (text "(1)+(2)")) =
      fresh.compute (Draws.ofSeed 0) (text "(1)+(2)") :=
  (fresh.compute_iterate_wrap (Draws.ofSeed 0) 3 (by decide)).2.2.resolve_right fun h =>
    h.1 ⟨rfl, rfl⟩

end Session

/-! ### Parts of balanced texts -/

/-- One step on `t` asks for the value of `u`: what it comes to depends on that value. -/
def Asks (s : Session) (draws : Draws) (t u : Text) : Prop :=
  ∃ (place : Place) (evaluate evaluate' : Evaluator),
    (∀ place' v, v ≠ u → evaluate place' v = evaluate' place' v) ∧
      evaluateStep s draws evaluate place t ≠ evaluateStep s draws evaluate' place t

/-- In small letters the text names no aggregate: it holds none of the spellings that begin a call of
one. -/
def NamesNoAggregate (t : Text) : Prop :=
  ∀ entry ∈ operations, ∀ a, entry.2 = .aggregate a → ¬ entry.1 <:+: normalizeCase t

/-- A balanced text that names no aggregate. -/
structure IsPlainBalanced (t : Text) : Prop where
  balanced : bracketsBalanced t = true
  plain : NamesNoAggregate t

/-- A piece of the text in small letters names no aggregate if the text names none. -/
lemma NamesNoAggregate.of_infix (h : NamesNoAggregate t)
    (hu : normalizeCase u <:+: normalizeCase t) : NamesNoAggregate u :=
  fun entry hmem a ha hoccurs => h entry hmem a ha (hoccurs.trans hu)

/-- A text that names no aggregate calls none. -/
lemma NamesNoAggregate.not_call (h : NamesNoAggregate t) {a : Aggregate} {rest : Text} :
    call? (normalizeCase (stripWrapping t)) ≠ some (.aggregate a, rest) := by
  intro hcall
  obtain ⟨spelling, hmem, happend⟩ := append_of_call? hcall
  refine h _ hmem a rfl (List.IsInfix.trans ?_ (normalizeCase_isInfix (stripWrapping_isInfix t)))
  exact happend ▸ (List.prefix_append spelling rest).isInfix

/-- Where a balanced text divides, an operator stands outside all brackets. -/
lemma isOutside_of_division {op : Operator} {left right : Text} (ht : bracketsBalanced t = true)
    (h : division t = some (op, left, right)) :
    IsOutside (stripWrapping t) left op.sign right := by
  have hrise := rise_of_balanced (bracketsBalanced_stripWrapping ht)
  have hsplit := split?_of_loosest? h
  rw [Operator.split?] at hsplit
  split at hsplit
  · obtain ⟨c, hout, hstop, -⟩ := splitFirst_sound hsplit
    rwa [← ((op.isAt_iff _ _ _).mp hstop).1]
  · obtain ⟨c, hout, hstop, -⟩ := splitLast_sound hrise hsplit
    rwa [← ((op.isAt_iff _ _ _).mp hstop).1]

/-- A call begins with a name, which holds no bracket, and an opening bracket. -/
lemma append_open_of_call? {operation : Operation} {rest : Text}
    (hcall : call? t = some (operation, rest)) :
    ∃ name, t = name ++ '(' :: rest ∧ name ≠ [] ∧ ∀ c ∈ name, isBracket c = false := by
  obtain ⟨spelling, hmem, happend⟩ := append_of_call? hcall
  obtain ⟨hlast, hne, hchars⟩ := mem_operations hmem
  refine ⟨spelling.dropLast, ?_, hne, fun c hc => (plain_of_nameChar (hchars c hc)).1⟩
  rw [happend, ← List.singleton_append, ← List.append_assoc, List.dropLast_append_getLast? _ hlast]

namespace IsPlainBalanced

/-- The operands of a balanced text are balanced. -/
lemma operands (h : IsPlainBalanced t) {op : Operator} {left right : Text}
    (hdivide : division t = some (op, left, right)) :
    IsPlainBalanced left ∧ IsPlainBalanced right := by
  have hout := isOutside_of_division h.balanced hdivide
  obtain ⟨hleft, hright⟩ := hout.balanced (bracketsBalanced_stripWrapping h.balanced)
  have hpiece : ∀ u, u <:+: stripWrapping t → NamesNoAggregate u := fun u hu =>
    h.plain.of_infix (normalizeCase_isInfix (hu.trans (stripWrapping_isInfix t)))
  refine ⟨⟨hleft, hpiece left ?_⟩, hright, hpiece right ?_⟩
  · exact hout.split ▸ (List.prefix_append left _).isInfix
  · exact hout.split ▸ ⟨left ++ [op.sign], [], by simp⟩

/-- The argument of a call in a balanced text is balanced. -/
lemma argument (h : IsPlainBalanced t) {operation : Operation} {rest : Text}
    (hcall : call? (normalizeCase (stripWrapping t)) = some (operation, rest)) :
    IsPlainBalanced ('(' :: rest) := by
  obtain ⟨name, happend, hne, hname⟩ := append_open_of_call? hcall
  constructor
  · have hinner := bracketsBalanced_stripWrapping h.balanced
    rw [← bracketsBalanced_normalizeCase, happend, bracketsBalanced_iff,
      closesFrom_append_of_noBracket hname hne] at hinner
    rw [bracketsBalanced_iff]
    exact hinner.2
  · have hsmall : normalizeCase ('(' :: rest) = '(' :: rest :=
      normalizeCase_eq_self_of_append (w := []) (by rw [List.append_nil]; exact happend)
    refine h.plain.of_infix ?_
    rw [hsmall]
    refine List.IsInfix.trans ?_ (normalizeCase_isInfix (stripWrapping_isInfix t))
    exact happend ▸ (List.suffix_append name _).isInfix

/-- One step on a balanced text asks for balanced texts only. -/
theorem isSequential_evaluateStep (h : IsPlainBalanced t) :
    IsSequential IsPlainBalanced fun evaluate => evaluateStep s draws evaluate place t := by
  refine isSequential_evaluateStep_of (fun op left right hdivide => h.operands hdivide)
    (fun operation rest hcall => h.argument hcall) fun args hcalls => ?_
  obtain ⟨a, rest, hcall, -⟩ := hcalls
  exact absurd hcall h.plain.not_call

/-- **Parts of a balanced text** are balanced. -/
theorem asked (h : IsPlainBalanced t) (hasks : Asks s draws t u) : IsPlainBalanced u := by
  obtain ⟨place, evaluate, evaluate', hagree, hne⟩ := hasks
  by_contra hu
  refine hne (IsSequential.congr h.isSequential_evaluateStep fun place' v hv => ?_)
  exact hagree place' v fun heq => hu (heq ▸ hv)

end IsPlainBalanced

/-! ### Brackets that do not match -/

/-- A text for which an evaluator reports at some place that brackets do not match. -/
def IsMismatched (evaluate : Evaluator) (t : Text) : Prop :=
  ∃ place, evaluate place t = .failed .bracketMismatch

/-- Values lead to no brackets that do not match. -/
lemma FailsByValue.ofExcept_ne {r : Except Failure Decimal} (hr : FailsByValue r) :
    Outcome.ofExcept r ≠ .failed .bracketMismatch := by
  intro h
  cases r with
  | ok a => exact absurd h (by simp [Outcome.ofExcept])
  | error f =>
    refine hr.ne_error (f := .bracketMismatch) rfl ?_
    rw [show f = .bracketMismatch by simpa [Outcome.ofExcept] using h]

/-- Operands report what their operator reports. -/
lemma evaluateOperator_mismatched {op : Operator} {left right : Text}
    (h : evaluateOperator evaluate place op left right = .failed .bracketMismatch) :
    IsMismatched evaluate left ∨ IsMismatched evaluate right := by
  -- what is found from both values reports nothing of that kind
  have hboth : ∀ {p q : Place} {t u : Text} {combine : Decimal → Decimal → Outcome Decimal},
      (∀ x y, combine x y ≠ .failed .bracketMismatch) →
      (evaluate p t >>= fun x => evaluate q u >>= fun y => combine x y) =
        .failed .bracketMismatch → IsMismatched evaluate t ∨ IsMismatched evaluate u := by
    intro p q t u combine hcombine h
    rcases Outcome.bind_eq_failed.mp h with ht | ⟨x, -, h⟩
    · exact Or.inl ⟨p, ht⟩
    · rcases Outcome.bind_eq_failed.mp h with hu | ⟨y, -, h⟩
      · exact Or.inr ⟨q, hu⟩
      · exact absurd h (hcombine x y)
  have hdivisor : ∀ {p q : Place} {combine : Decimal → Decimal → Outcome Decimal},
      (∀ x y, combine x y ≠ .failed .bracketMismatch) →
      (evaluate q right >>= fun y => if y.isZero then Outcome.failed .divisionByZero
        else evaluate p left >>= fun x => combine x y) = .failed .bracketMismatch →
      IsMismatched evaluate left ∨ IsMismatched evaluate right := by
    intro p q combine hcombine h
    rcases Outcome.bind_eq_failed.mp h with hright | ⟨y, -, h⟩
    · exact Or.inr ⟨q, hright⟩
    · split at h
      · exact absurd h (by simp)
      · rcases Outcome.bind_eq_failed.mp h with hleft | ⟨x, -, h⟩
        · exact Or.inl ⟨p, hleft⟩
        · exact absurd h (hcombine x y)
  cases op with
  | plus | minus => exact hboth (fun x y => by simp [pure]) h
  | times => exact hboth (fun x y => (productOf_failsByValue x y).ofExcept_ne) h
  | power => exact hboth (fun x y => (raise_failsByValue x y).ofExcept_ne) h
  | divide => exact hdivisor (fun x y => (quotientOf_failsByValue x y).ofExcept_ne) h
  | modulo =>
    refine hdivisor (fun x y => ?_) h
    cases x.remainder? y <;> simp [Outcome.ofOption]

/-- Two parts around an operator report what one of them reports. -/
lemma evaluateParts_mismatched {op : Operator} {left right : Text}
    (h : evaluateParts evaluate place op left right = .failed .bracketMismatch) :
    IsMismatched evaluate left ∨ IsMismatched evaluate right := by
  unfold evaluateParts at h
  split at h
  · exact absurd h (by simp)
  · split at h
    · split at h
      · rcases Outcome.bind_eq_failed.mp h with hright | ⟨x, -, h⟩
        · exact Or.inr ⟨_, hright⟩
        · exact absurd h (by simp [pure])
      · exact absurd h (by simp)
    · exact evaluateOperator_mismatched h

/-- A random number reports what its bound reports. -/
lemma evaluateRand_mismatched {rest : Text}
    (h : evaluateRand draws evaluate place rest = .failed .bracketMismatch) :
    IsMismatched evaluate ('(' :: rest) := by
  unfold evaluateRand at h
  split at h
  · exact absurd h (by simp)
  · split at h
    · exact absurd h (by simp [pure])
    · exact absurd h (by simp)
  · rcases Outcome.bind_eq_failed.mp h with hargument | ⟨x, -, h⟩
    · exact ⟨_, hargument⟩
    · dsimp only at h
      split at h
      · exact absurd h (by simp)
      · split at h
        · split at h
          · exact absurd h (by simp [pure])
          · exact absurd h (by simp)
        · exact absurd h (by simp)

/-- Names and literals report nothing about brackets. -/
lemma evaluateName_ne_bracketMismatch (s : Session) (t : Text) :
    Outcome.ofExcept (evaluateName s t) ≠ .failed .bracketMismatch := by
  unfold evaluateName
  split
  iterate 4 simp [Outcome.ofExcept]
  split
  · simp [Outcome.ofExcept]
  · split <;> simp [Outcome.ofExcept]

/-- **One step** on a balanced text that names no aggregate reports what a part reports. -/
lemma IsPlainBalanced.exists_mismatched (h : IsPlainBalanced t)
    (hstep : evaluateStep s draws evaluate place t = .failed .bracketMismatch) :
    ∃ u, IsPlainBalanced u ∧ IsMismatched evaluate u := by
  cases stepCases t with
  | incomplete hrefused =>
    rw [hrefused] at hstep
    exact absurd hstep (by simp)
  | unbalanced hbal => exact absurd h.balanced (by simp [hbal])
  | divided op left right _ hdivide hparts =>
    rw [hparts] at hstep
    obtain ⟨hleft, hright⟩ := h.operands hdivide
    rcases evaluateParts_mismatched hstep with hpart | hpart
    · exact ⟨left, hleft, hpart⟩
    · exact ⟨right, hright, hpart⟩
  | applied f rest _ _ hcall _ happly =>
    rw [happly] at hstep
    rcases Outcome.bind_eq_failed.mp hstep with hargument | ⟨x, -, hstep⟩
    · exact ⟨_, h.argument hcall, _, hargument⟩
    · exact absurd hstep (f.apply_failsByValue s.angleMode x).ofExcept_ne
  | aggregated a rest _ _ hcall => exact absurd hcall h.plain.not_call
  | drawn rest _ _ hcall hdraw =>
    rw [hdraw] at hstep
    exact ⟨_, h.argument hcall, evaluateRand_mismatched hstep⟩
  | named _ _ _ hname =>
    rw [hname] at hstep
    exact absurd hstep (evaluateName_ne_bracketMismatch s _)

/-- **Balanced texts** that name no aggregate report no brackets that do not match, at any depth:
none of their parts does. -/
theorem not_isMismatched (h : IsPlainBalanced t) (depth : ℕ) :
    ¬ IsMismatched (evaluateWithin s draws depth) t := by
  induction depth generalizing t with
  | zero => exact fun ⟨place, hfailed⟩ => absurd hfailed (by simp [evaluateWithin])
  | succ depth ih =>
    rintro ⟨place, hfailed⟩
    obtain ⟨u, hu, hmismatched⟩ := h.exists_mismatched hfailed
    exact ih hu hmismatched

/-- What is reported within the allowed depth is what a session reports. -/
lemma Session.compute_eq_error_iff {f : Failure} (hf : f ≠ .overflow) :
    s.compute draws t = .error f ↔ evaluateWithin s draws (s.allowedDepth t) [] t = .failed f := by
  rw [compute]
  cases evaluateWithin s draws (s.allowedDepth t) [] t with
  | value x => simp [Outcome.toExcept]
  | failed g => simp [Outcome.toExcept]
  | exhausted => simpa [Outcome.toExcept] using hf.symm

/-- **Brackets that do not match** are reported for exactly those texts that hold something else than
brackets and are not balanced, if the text names no aggregate; and no evaluation of a part of a
balanced text, or of a part of a part, ever reports them. -/
theorem Session.compute_eq_bracketMismatch_iff (s : Session) (draws : Draws)
    (hplain : NamesNoAggregate t) :
    (s.compute draws t = .error .bracketMismatch ↔
      (∃ c ∈ t, isBracket c = false) ∧ bracketsBalanced t = false) ∧
    (bracketsBalanced t = true → ∀ u, Relation.ReflTransGen (Asks s draws) t u →
      bracketsBalanced u = true ∧
        ∀ depth place, evaluateWithin s draws depth place u ≠ .failed .bracketMismatch) := by
  constructor
  · rw [compute_eq_error_iff (by simp)]
    have hbrackets : (∃ c ∈ t, isBracket c = false) ↔ isAllBrackets t = false := by
      simp [isAllBrackets]
    rw [hbrackets]
    by_cases hbal : bracketsBalanced t = true
    · -- a balanced text reports nothing of that kind
      simp only [hbal, Bool.true_eq_false, and_false, iff_false]
      exact fun hfailed => not_isMismatched ⟨hbal, hplain⟩ _ ⟨[], hfailed⟩
    · obtain ⟨depth, hdepth⟩ : ∃ n, s.allowedDepth t = n + 1 :=
        ⟨s.allowedDepth t - 1, by rw [allowedDepth]; omega⟩
      rw [hdepth, evaluateWithin, evaluateStep_eq]
      rw [Bool.not_eq_true] at hbal
      cases isAllBrackets t <;> simp [hbal]
  · intro hbal u hreach
    have hu : IsPlainBalanced u := by
      induction hreach with
      | refl => exact ⟨hbal, hplain⟩
      | tail _ hasks ih => exact ih.asked hasks
    exact ⟨hu.balanced, fun depth place hfailed => not_isMismatched hu depth ⟨place, hfailed⟩⟩

/-- A call with an open bracket. -/
theorem Session.compute_open_call :
    NamesNoAggregate (text "2*sin((1)") ∧
      fresh.compute (Draws.ofSeed 0) (text "2*sin((1)") = .error .bracketMismatch := by
  have hplain : NamesNoAggregate (text "2*sin((1)") := by
    have hsine : ∀ entry ∈ operations, entry.1 <:+: normalizeCase (text "2*sin((1)") →
        entry.2 = .unary .sin := by decide
    intro entry hmem a ha hoccurs
    rw [hsine entry hmem hoccurs] at ha
    exact absurd ha (by simp)
  exact ⟨hplain, (fresh.compute_eq_bracketMismatch_iff (Draws.ofSeed 0) hplain).1.mpr
    ⟨⟨'2', by decide⟩, by decide⟩⟩

end DecimalCalculator
