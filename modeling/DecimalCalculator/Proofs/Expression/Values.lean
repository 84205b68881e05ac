import DecimalCalculator.Proofs.Expression.Division
import DecimalCalculator.Proofs.Expression.Parts
import DecimalCalculator.Session.Evaluation

/-!
What the value of a text rests on.

* `HasValue`: an evaluator finds a value for the text.
* `RestsOn`: the parts of a text, one kind of text after the other, that must have values before it
  can have one.
* `restsOn_of_evaluateStep`: **one step finds no value** unless the parts of its text have values.
* `Session.hasValue_of_compute`: an expression with a value in a session has it at some depth.
* `Arguments.append_of_balanced`: the last character of an aggregate, which is left out of its upper
  bound, is its closing bracket, if that bound is balanced.
-/

namespace DecimalCalculator

/-- A text for which an evaluator finds a value at some place. -/
def HasValue (evaluate : Evaluator) (t : Text) : Prop := ∃ place x, evaluate place t = .value x

/-- What a text with a value consists of, `valued` being the texts that have values: an operator
and its operands, a call and its arguments, or a name or literal. -/
inductive RestsOn (s : Session) (valued : Text → Prop) (t : Text) : Prop
  | opposite {right : Text} : division t = some (.minus, [], right) → right ≠ [] → valued right →
      RestsOn s valued t
  | operands {op : Operator} {left right : Text} : division t = some (op, left, right) →
      right ≠ [] → valued left → valued right → RestsOn s valued t
  | argument {operation : Operation} {rest : Text} : division t = none →
      call? (normalizeCase (stripWrapping t)) = some (operation, rest) → rest ≠ [] →
      valued ('(' :: rest) → RestsOn s valued t
  | aggregate {args : Arguments} (x : Decimal) : division t = none → CallsAggregate t args →
      valued args.lower → valued args.upper → valued ((s.template args.function).render x) →
      RestsOn s valued t
  | draw : division t = none → call? (normalizeCase (stripWrapping t)) = some (.rand, [')']) →
      RestsOn s valued t
  | name {x : Decimal} : division t = none →
      evaluateName s (normalizeCase (stripWrapping t)) = .ok x → RestsOn s valued t

/-! ### Folds over samples -/

/-- A sum or product with a value has one for its first sample. -/
lemma foldRange_value {combine : Decimal → Decimal → Except Failure Decimal}
    {sample : Int → Outcome Decimal} {n : Nat} {k : Int} {total x : Decimal} (hn : 0 < n)
    (h : foldRange combine sample n k total = .value x) : ∃ y, sample k = .value y := by
  obtain ⟨n, rfl⟩ := Nat.exists_eq_succ_of_ne_zero hn.ne'
  rw [foldRange] at h
  split at h
  · next y hy => exact ⟨y, hy⟩
  · exact absurd h (by simp)
  · exact absurd h (by simp)

/-- A weighted sum with a value has one for its first sample. -/
lemma Quadrature.addSamples_value {q : Quadrature} {sample : Nat → Decimal → Outcome Decimal}
    {n i : Nat} {point sum x : Decimal} (hn : 0 < n)
    (h : q.addSamples sample n i point sum = .value x) : ∃ y, sample i point = .value y := by
  obtain ⟨n, rfl⟩ := Nat.exists_eq_succ_of_ne_zero hn.ne'
  rw [addSamples] at h
  split at h
  · next y hy => exact ⟨y, hy⟩
  · exact absurd h (by simp)
  · exact absurd h (by simp)

/-- Every rule samples at one point at least. -/
lemma QuadratureRule.points_pos (rule : QuadratureRule) (divisions : Divisions)
    (lower upper : Decimal) : 0 < (rule.onInterval divisions lower upper).points := by
  have := divisions.count_pos
  cases rule <;> simp only [onInterval, Quadrature.inPanels, Quadrature.overPanels] <;> omega

/-! ### Steps -/

section Steps

variable {s : Session} {draws : Draws} {evaluate : Evaluator} {place : Place} {x : Decimal}

/-- If two parts around an operator have a value, then the right one has, and so has the left one,
unless it is missing before a minus sign. -/
lemma evaluateParts_value {op : Operator} {left right : Text}
    (h : evaluateParts evaluate place op left right = .value x) :
    right ≠ [] ∧ HasValue evaluate right ∧
      (left = [] ∧ op = .minus ∨ HasValue evaluate left) := by
  unfold evaluateParts at h
  split at h
  · exact absurd h (by simp)
  · next hright =>
    refine ⟨by simpa using hright, ?_⟩
    split at h
    · next hleft =>
      split at h
      · obtain ⟨y, hy, -⟩ := Outcome.bind_eq_value.mp h
        exact ⟨⟨_, y, hy⟩, Or.inl ⟨by simpa using hleft, rfl⟩⟩
      · exact absurd h (by simp)
    · cases op with
      | plus | minus | times | power =>
        obtain ⟨y, hy, h⟩ := Outcome.bind_eq_value.mp h
        obtain ⟨z, hz, -⟩ := Outcome.bind_eq_value.mp h
        exact ⟨⟨_, z, hz⟩, Or.inr ⟨_, y, hy⟩⟩
      | divide | modulo =>
        obtain ⟨z, hz, h⟩ := Outcome.bind_eq_value.mp h
        split at h
        · exact absurd h (by simp)
        · obtain ⟨y, hy, -⟩ := Outcome.bind_eq_value.mp h
          exact ⟨⟨_, z, hz⟩, Or.inr ⟨_, y, hy⟩⟩

/-- If a sum or product over a range has a value, then so have its bounds and a sample. -/
lemma evaluateRange_value {args : Arguments} {invalid : Failure}
    {combine : Decimal → Decimal → Except Failure Decimal} {start : Decimal}
    (h : evaluateRange s evaluate place args invalid combine start = .value x) :
    HasValue evaluate args.lower ∧ HasValue evaluate args.upper ∧
      ∃ point, HasValue evaluate ((s.template args.function).render point) := by
  obtain ⟨⟨a, b⟩, hbounds, h⟩ := Outcome.bind_eq_value.mp h
  obtain ⟨lower, hlower, hbounds⟩ := Outcome.bind_eq_value.mp hbounds
  obtain ⟨upper, hupper, hbounds⟩ := Outcome.bind_eq_value.mp hbounds
  obtain ⟨a', -, hbounds⟩ := Outcome.bind_eq_value.mp hbounds
  obtain ⟨b', -, hbounds⟩ := Outcome.bind_eq_value.mp hbounds
  have horder : a ≤ b := by
    split at hbounds
    · exact absurd hbounds (by simp)
    · next hle =>
      obtain ⟨rfl, rfl⟩ : a' = a ∧ b' = b := by simpa [pure] using hbounds
      omega
  obtain ⟨y, hy⟩ := foldRange_value (by omega) h
  exact ⟨⟨_, lower, hlower⟩, ⟨_, upper, hupper⟩, _, _, y, hy⟩

/-- If an integral has a value, then so have its bounds and a sample. -/
lemma evaluateIntegral_value {args : Arguments}
    (h : evaluateIntegral s evaluate place args = .value x) :
    HasValue evaluate args.lower ∧ HasValue evaluate args.upper ∧
      ∃ point, HasValue evaluate ((s.template args.function).render point) := by
  obtain ⟨lower, hlower, h⟩ := Outcome.bind_eq_value.mp h
  obtain ⟨upper, hupper, h⟩ := Outcome.bind_eq_value.mp h
  obtain ⟨sum, hsum, -⟩ := Outcome.bind_eq_value.mp h
  obtain ⟨y, hy⟩ := Quadrature.addSamples_value (s.rule.points_pos s.divisions lower upper) hsum
  exact ⟨⟨_, lower, hlower⟩, ⟨_, upper, hupper⟩, _, _, y, hy⟩

/-- If an aggregate has a value, then so have its bounds and a sample of its function. -/
lemma evaluateAggregate_value {a : Aggregate} {rest : Text}
    (h : evaluateAggregate s evaluate place a rest = .value x) :
    ∃ args, Arguments.ofCall? rest = some args ∧ HasValue evaluate args.lower ∧
      HasValue evaluate args.upper ∧
      ∃ point, HasValue evaluate ((s.template args.function).render point) := by
  rw [evaluateAggregate] at h
  split at h
  · exact absurd h (by simp)
  · obtain ⟨args, hargs, h⟩ := Outcome.bind_eq_value.mp h
    refine ⟨args, Outcome.ofOption_eq_value.mp hargs, ?_⟩
    cases a with
    | integral => exact evaluateIntegral_value h
    | sum => exact evaluateRange_value h
    | product => exact evaluateRange_value h

/-- If a random number has a value, then it has no bound, or its bound has a value. -/
lemma evaluateRand_value {rest : Text} (h : evaluateRand draws evaluate place rest = .value x) :
    rest = [')'] ∨ rest ≠ [] ∧ HasValue evaluate ('(' :: rest) := by
  unfold evaluateRand at h
  split at h
  · exact absurd h (by simp)
  · split at h
    · next hclose => exact Or.inl (by rw [hclose])
    · exact absurd h (by simp)
  · next hne _ =>
    obtain ⟨y, hy, -⟩ := Outcome.bind_eq_value.mp h
    exact Or.inr ⟨hne, _, y, hy⟩

/-- **One step** finds a value for balanced texts only, and rests on those of the parts. -/
theorem restsOn_of_evaluateStep {t : Text} (h : evaluateStep s draws evaluate place t = .value x) :
    bracketsBalanced t = true ∧ RestsOn s (HasValue evaluate) t := by
  cases stepCases t with
  | incomplete hstep | unbalanced _ hstep =>
    rw [hstep] at h
    exact absurd h (by simp)
  | divided op left right hbal hdivide hstep =>
    rw [hstep] at h
    obtain ⟨hne, hright, ⟨rfl, rfl⟩ | hleft⟩ := evaluateParts_value h
    · exact ⟨hbal, .opposite hdivide hne hright⟩
    · exact ⟨hbal, .operands hdivide hne hleft hright⟩
  | applied f rest hbal hdivide hcall hlength hstep =>
    rw [hstep] at h
    obtain ⟨y, hy, -⟩ := Outcome.bind_eq_value.mp h
    have hne : rest ≠ [] := List.ne_nil_of_length_pos (by omega)
    exact ⟨hbal, .argument hdivide hcall hne ⟨_, y, hy⟩⟩
  | aggregated a rest hbal hdivide hcall hstep =>
    rw [hstep] at h
    obtain ⟨args, hargs, hlower, hupper, point, hsample⟩ := evaluateAggregate_value h
    exact ⟨hbal, .aggregate point hdivide ⟨a, rest, hcall, hargs⟩ hlower hupper hsample⟩
  | drawn rest hbal hdivide hcall hstep =>
    rw [hstep] at h
    rcases evaluateRand_value h with rfl | ⟨hne, hargument⟩
    · exact ⟨hbal, .draw hdivide hcall⟩
    · exact ⟨hbal, .argument hdivide hcall hne hargument⟩
  | named hbal hdivide hcall hstep =>
    rw [hstep] at h
    exact ⟨hbal, .name hdivide (Outcome.ofExcept_eq_value.mp h)⟩

/-- A text with a value is balanced, and rests on texts that have values one level deeper. -/
lemma restsOn_of_hasValue {depth : Nat} {t : Text}
    (h : HasValue (evaluateWithin s draws (depth + 1)) t) :
    bracketsBalanced t = true ∧ RestsOn s (HasValue (evaluateWithin s draws depth)) t := by
  obtain ⟨place, x, hvalue⟩ := h
  exact restsOn_of_evaluateStep hvalue

/-- Without any depth no text has a value. -/
lemma not_hasValue_zero {t : Text} : ¬ HasValue (evaluateWithin s draws 0) t := by
  rintro ⟨place, x, hvalue⟩
  exact absurd hvalue (by simp [evaluateWithin])

/-- A text with a value is balanced. -/
lemma bracketsBalanced_of_hasValue {depth : Nat} {t : Text}
    (h : HasValue (evaluateWithin s draws depth) t) : bracketsBalanced t = true := by
  cases depth with
  | zero => exact absurd h not_hasValue_zero
  | succ depth => exact (restsOn_of_hasValue h).1

/-- An expression with a value has it within the allowed depth. -/
lemma Session.hasValue_of_compute {t : Text} (h : s.compute draws t = .ok x) :
    HasValue (evaluateWithin s draws (s.allowedDepth t)) t :=
  ⟨[], x, Outcome.toExcept_eq_ok.mp h⟩

end Steps

/-! ### Closing brackets of calls -/

/-- The spelling of a call is one bracket deep. -/
lemma rise_spelling {entry : Text × Operation} (h : entry ∈ operations) : rise entry.1 = 1 := by
  obtain ⟨hlast, -, hchars⟩ := mem_operations h
  rw [← List.dropLast_append_getLast? _ hlast, rise_append,
    rise_eq_zero fun c hc => (plain_of_nameChar (hchars c hc)).1]
  rfl

/-- Only the closing bracket leads one level up. -/
lemma eq_close_of_turn {c : Char} (h : turn c = -1) : c = ')' := by
  by_contra hne
  rw [turn, if_neg hne] at h
  split at h
  · exact absurd h (by decide)
  · exact absurd h (by decide)

/-- The upper bound of an aggregate leaves out the last character of its call. That is the closing
bracket, if the bound is balanced. -/
lemma Arguments.append_of_balanced {t rest : Text} {a : Aggregate} {args : Arguments}
    (hcall : call? (normalizeCase t) = some (.aggregate a, rest))
    (hargs : Arguments.ofCall? rest = some args) (hbal : bracketsBalanced t = true)
    (hupper : bracketsBalanced args.upper = true) :
    ∃ function, args.function = wrap function ∧
      rest = function ++ ',' :: (args.lower ++ ',' :: (args.upper ++ [')'])) := by
  obtain ⟨spelling, hmem, happend⟩ := append_of_call? hcall
  obtain ⟨function, upper, rfl, hfunction, hinit, hne, hlevel, hlower⟩ :=
    Arguments.append_of_ofCall? hargs
  obtain ⟨start, c, rfl⟩ := (List.eq_nil_or_concat upper).resolve_left hne
  obtain rfl : args.upper = start := by simpa using hinit
  have hturn : turn c = -1 := by
    have htext := rise_of_balanced hbal
    rw [← rise_normalizeCase, happend] at htext
    simp only [rise_append, rise_cons, rise_spelling hmem, hlevel, hlower, List.concat_eq_append,
      rise_of_balanced hupper, rise_nil, show turn ',' = 0 from rfl] at htext
    omega
  obtain rfl := eq_close_of_turn hturn
  exact ⟨function, hfunction, by rw [List.concat_eq_append]⟩

end DecimalCalculator
