import DecimalCalculator.Proofs.Elementary.Equality
import DecimalCalculator.Proofs.Expression.Parts

/-!
Expressions whose parts come to equal numbers.

* `Outcome.Agree`: related values, or the same failure, unless one of the two breaks off because a
  scale leaves 64 bits. It is closed under `bind`.
* `productOf_agree`, `quotientOf_agree`: **products and quotients** of equal numbers agree; nothing
  else in an expression looks at the scales.
* `evaluateStep_agree`: **one step** agrees if the registers hold equal numbers and the parts agree,
  unless it draws random numbers or integrates.
-/

namespace DecimalCalculator

open Decimal Elementary

/-! ### Outcomes -/

/-- The failures of products and quotients whose scales do not fit in 64 bits. -/
inductive Failure.LeavesScales : Failure → Prop
  | sum : LeavesScales .scaleSum
  | difference : LeavesScales .scaleDifference

namespace Outcome

/-- Two outcomes agree if they are related values, or the same failure. They also do so if one of
them breaks off because a scale leaves 64 bits. -/
inductive Agree {α : Type} (r : α → α → Prop) : Outcome α → Outcome α → Prop
  | value {a b : α} : r a b → Agree r (.value a) (.value b)
  | failed (f : Failure) : Agree r (.failed f) (.failed f)
  | left {f : Failure} (o : Outcome α) : f.LeavesScales → Agree r (.failed f) o
  | right {f : Failure} (o : Outcome α) : f.LeavesScales → Agree r o (.failed f)

/-- Two outcomes agree on a number. -/
abbrev AgreeOnNumber : Outcome Decimal → Outcome Decimal → Prop := Agree fun x y => x ≈ y

variable {α β : Type} {r : α → α → Prop} {q : β → β → Prop}

/-- Going on from outcomes that agree with steps that agree. -/
lemma Agree.bind {o o' : Outcome α} (h : Agree r o o') {next next' : α → Outcome β}
    (hnext : ∀ {a b : α}, r a b → Agree q (next a) (next' b)) :
    Agree q (o >>= next) (o' >>= next') := by
  cases h with
  | value hvalue => exact hnext hvalue
  | failed f => exact .failed f
  | left o' hf => exact .left _ hf
  | right o hf => exact .right _ hf

/-- Cases that are decided alike. -/
lemma Agree.ite {p p' : Prop} [Decidable p] [Decidable p'] {a a' b b' : Outcome α} (hcond : p ↔ p')
    (hthen : Agree r a a') (helse : Agree r b b') :
    Agree r (if p then a else b) (if p' then a' else b') := by
  by_cases hp : p
  · rwa [if_pos hp, if_pos (hcond.mp hp)]
  · rwa [if_neg hp, if_neg fun hp' => hp (hcond.mpr hp')]

/-- Computations with the same result agree. -/
lemma agree_ofExcept {a b : Except Failure Decimal} (h : SameResult a b) :
    AgreeOnNumber (ofExcept a) (ofExcept b) := by
  cases h with
  | ok hvalue => exact .value hvalue
  | error f => exact .failed f

/-- Options that are equal numbers, or none, agree. -/
lemma agree_ofOption (f : Failure) {a b : Option Decimal} (h : Option.Rel (· ≈ ·) a b) :
    AgreeOnNumber (ofOption f a) (ofOption f b) := by
  cases h with
  | some hvalue => exact .value hvalue
  | none => exact .failed f

/-- The same option agrees with itself. -/
lemma agree_ofOption_self (f : Failure) (a : Option α) : Agree Eq (ofOption f a) (ofOption f a) := by
  cases a with
  | some a => exact .value rfl
  | none => exact .failed f

end Outcome

open Outcome

variable {x x' y y' : Decimal}

/-! ### Operators -/

lemma smallExponent?_congr (h : x ≈ x') : smallExponent? x = smallExponent? x' := by
  rw [smallExponent?, smallExponent?, toInt64?_congr h, isInteger_congr h]

theorem raise_congr (hx : x ≈ x') (hy : y ≈ y') : SameResult (raise x y) (raise x' y') := by
  rw [raise, raise, isZero_congr hx, isNegative_congr hx, isNegative_congr hy, hasFraction_congr hy,
    smallExponent?_congr hy]
  refine .ite Iff.rfl (.error _) (.ite Iff.rfl (.error _) ?_)
  cases smallExponent? y' with
  | none => exact pow_congr hx hy
  | some n =>
    have hpower := power?_congr hx n
    simp only [Option.bind_some]
    generalize x.power? n = q at hpower
    generalize x'.power? n = q' at hpower
    cases hpower with
    | some hvalue => exact .ok hvalue
    | none => exact pow_congr hx hy

/-- A scale is checked, or leaves 64 bits. -/
lemma checkScale_cases (f : Failure) (scale : ℤ) :
    checkScale f scale = .ok () ∨ checkScale f scale = .error f := by
  rw [checkScale]
  split
  · exact Or.inl rfl
  · exact Or.inr rfl

/-- A product is the rounded product, unless a scale leaves 64 bits. -/
lemma productOf_cases (x y : Decimal) :
    productOf x y = .ok (x * y) ∨ ∃ f, f.LeavesScales ∧ productOf x y = .error f := by
  simp only [productOf]
  rcases checkScale_cases .scaleSum (x.scale + y.scale) with h | h <;> rw [h]
  · rcases checkScale_cases .scaleDifference (x * y).scale with h | h <;> rw [h]
    · exact Or.inl rfl
    · exact Or.inr ⟨_, .difference, rfl⟩
  · exact Or.inr ⟨_, .sum, rfl⟩

/-- A quotient is the rounded quotient, unless a scale leaves 64 bits. -/
lemma quotientOf_cases (x y : Decimal) :
    quotientOf x y = .ok (x / y) ∨ ∃ f, f.LeavesScales ∧ quotientOf x y = .error f := by
  simp only [quotientOf]
  split
  · exact Or.inl rfl
  · rcases checkScale_cases .scaleDifference (x.scale - y.scale) with h | h <;> rw [h]
    · rcases checkScale_cases .scaleSum (x.scale - y.scale + x.quotientShift y) with h | h <;> rw [h]
      · rcases checkScale_cases .scaleDifference (x / y).scale with h | h <;> rw [h]
        · exact Or.inl rfl
        · exact Or.inr ⟨_, .difference, rfl⟩
      · exact Or.inr ⟨_, .sum, rfl⟩
    · exact Or.inr ⟨_, .difference, rfl⟩

/-- Computations of equal numbers agree, if each comes to its number or breaks off for a scale. -/
lemma agree_of_cases {r r' : Except Failure Decimal} (hvalue : x ≈ x')
    (h : r = .ok x ∨ ∃ f, f.LeavesScales ∧ r = .error f)
    (h' : r' = .ok x' ∨ ∃ f, f.LeavesScales ∧ r' = .error f) :
    AgreeOnNumber (.ofExcept r) (.ofExcept r') := by
  rcases h with rfl | ⟨f, hf, rfl⟩
  · rcases h' with rfl | ⟨f, hf, rfl⟩
    · exact .value hvalue
    · exact .right _ hf
  · exact .left _ hf

/-- **Products** of equal numbers agree. -/
theorem productOf_agree (hx : x ≈ x') (hy : y ≈ y') :
    AgreeOnNumber (.ofExcept (productOf x y)) (.ofExcept (productOf x' y')) :=
  agree_of_cases (mul_congr hx hy) (productOf_cases x y) (productOf_cases x' y')

/-- **Quotients** of equal numbers agree. -/
theorem quotientOf_agree (hx : x ≈ x') (hy : y ≈ y') :
    AgreeOnNumber (.ofExcept (quotientOf x y)) (.ofExcept (quotientOf x' y')) :=
  agree_of_cases (div_congr hx hy) (quotientOf_cases x y) (quotientOf_cases x' y')

/-- Two sessions of one angle mode in which both registers hold equal numbers. -/
structure Session.EqualRegisters (s s' : Session) : Prop where
  angleMode : s.angleMode = s'.angleMode
  answer : s.answer ≈ s'.answer
  memory : s.memory ≈ s'.memory

section Steps

variable {s s' : Session} {draws draws' : Draws} {evaluate evaluate' : Evaluator} {place : Place}

/-- Two evaluators agree on a text at the places below one. -/
abbrev AgreeOnPart (evaluate evaluate' : Evaluator) (place : Place) (t : Text) : Prop :=
  ∀ b : Branch, AgreeOnNumber (evaluate (b :: place) t) (evaluate' (b :: place) t)

/-- **Operators** agree if their operands do. -/
theorem evaluateOperator_agree (op : Operator) {left right : Text}
    (hleft : AgreeOnPart evaluate evaluate' place left)
    (hright : AgreeOnPart evaluate evaluate' place right) :
    AgreeOnNumber (evaluateOperator evaluate place op left right)
      (evaluateOperator evaluate' place op left right) := by
  cases op with
  | plus =>
    exact (hleft _).bind fun hx => (hright _).bind fun hy => .value (add_congr hx hy)
  | minus =>
    exact (hleft _).bind fun hx => (hright _).bind fun hy => .value (sub_congr hx hy)
  | times =>
    exact (hleft _).bind fun hx => (hright _).bind fun hy => productOf_agree hx hy
  | divide =>
    refine (hright _).bind fun hy => .ite (isZero_iff_congr hy) (.failed _) ?_
    exact (hleft _).bind fun hx => quotientOf_agree hx hy
  | power =>
    exact (hleft _).bind fun hx => (hright _).bind fun hy => agree_ofExcept (raise_congr hx hy)
  | modulo =>
    refine (hright _).bind fun hy => .ite (isZero_iff_congr hy) (.failed _) ?_
    exact (hleft _).bind fun hx => agree_ofOption _ (remainder?_congr hx hy)

lemma evaluateParts_agree (op : Operator) {left right : Text}
    (hleft : AgreeOnPart evaluate evaluate' place left)
    (hright : AgreeOnPart evaluate evaluate' place right) :
    AgreeOnNumber (evaluateParts evaluate place op left right)
      (evaluateParts evaluate' place op left right) := by
  refine .ite Iff.rfl (.failed _) (.ite Iff.rfl ?_ (evaluateOperator_agree op hleft hright))
  cases op with
  | minus => exact (hright _).bind fun hx => .value (neg_congr hx)
  | plus | times | divide | power | modulo => exact .failed _

/-! ### Calls -/

/-- The bounds of a range are the same integers, if the bounds agree as numbers. -/
lemma integerBounds_agree {args : Arguments} (hlower : AgreeOnPart evaluate evaluate' place args.lower)
    (hupper : AgreeOnPart evaluate evaluate' place args.upper) (invalid : Failure) :
    Agree Eq (integerBounds evaluate place args invalid)
      (integerBounds evaluate' place args invalid) := by
  refine (hlower _).bind fun hx => (hupper _).bind fun hy => ?_
  rw [roundedInt64?_congr hx, roundedInt64?_congr hy]
  refine (agree_ofOption_self invalid _).bind ?_
  rintro a _ rfl
  refine (agree_ofOption_self invalid _).bind ?_
  rintro b _ rfl
  exact .ite Iff.rfl (.failed _) (.value rfl)

/-- **Sums and products** over a range agree if their samples do. -/
theorem foldRange_agree {combine : Decimal → Decimal → Except Failure Decimal}
    (hcombine : ∀ {x x' y y' : Decimal}, x ≈ x' → y ≈ y' →
      AgreeOnNumber (.ofExcept (combine x y)) (.ofExcept (combine x' y')))
    {sample sample' : ℤ → Outcome Decimal} (hsample : ∀ k, AgreeOnNumber (sample k) (sample' k))
    (n : ℕ) (k : ℤ) {total total' : Decimal} (htotal : total ≈ total') :
    AgreeOnNumber (foldRange combine sample n k total) (foldRange combine sample' n k total') := by
  induction n generalizing k total total' with
  | zero => exact .value htotal
  | succ n ih =>
    rw [foldRange_succ, foldRange_succ]
    exact (hsample k).bind fun hy => (hcombine htotal hy).bind fun htotal => ih (k + 1) htotal

/-- An aggregate over a range agrees if its bounds and its samples do. -/
lemma evaluateRange_agree {args : Arguments} (hlower : AgreeOnPart evaluate evaluate' place args.lower)
    (hupper : AgreeOnPart evaluate evaluate' place args.upper)
    (hfunction : s.template args.function = s'.template args.function)
    (hsample : ∀ x, AgreeOnPart evaluate evaluate' place ((s.template args.function).render x))
    (invalid : Failure) {combine : Decimal → Decimal → Except Failure Decimal}
    (hcombine : ∀ {x x' y y' : Decimal}, x ≈ x' → y ≈ y' →
      AgreeOnNumber (.ofExcept (combine x y)) (.ofExcept (combine x' y'))) (start : Decimal) :
    AgreeOnNumber (evaluateRange s evaluate place args invalid combine start)
      (evaluateRange s' evaluate' place args invalid combine start) := by
  refine (integerBounds_agree hlower hupper invalid).bind ?_
  rintro ⟨a, b⟩ _ rfl
  rw [← hfunction]
  exact foldRange_agree hcombine (fun k => hsample _ _) _ _ (equiv_refl start)

/-! ### Steps -/

/-- Registers, constants and literals are equal numbers, if the registers are. -/
lemma evaluateName_congr (h : s.EqualRegisters s') (lowered : Text) :
    SameResult (evaluateName s lowered) (evaluateName s' lowered) := by
  unfold evaluateName
  split
  · exact .ok h.answer
  · exact .ok h.memory
  · exact .ok (equiv_refl e)
  · exact .ok (equiv_refl pi)
  · refine .ite Iff.rfl (.ok (equiv_refl pi)) ?_
    cases Decimal.ofText? lowered with
    | some x => exact .ok (equiv_refl x)
    | none => exact .error _

/-- Whether a text begins a call whose value depends on more than the values of its parts: a random
number, or an integral, which goes through the points between its bounds. -/
def IsMoving (t : Text) : Prop :=
  ∃ rest, call? (normalizeCase (stripWrapping t)) = some (.rand, rest) ∨
    call? (normalizeCase (stripWrapping t)) = some (.aggregate .integral, rest)

/-- **One step** agrees in two sessions whose registers hold equal numbers, if the parts of the text
agree, unless it draws random numbers or integrates. -/
theorem evaluateStep_agree {t : Text} (h : s.EqualRegisters s')
    (hparts : ∀ u, IsPart s t u → AgreeOnPart evaluate evaluate' place u)
    (hfunction : ∀ args, CallsAggregate t args →
      s.template args.function = s'.template args.function) (hstill : ¬ IsMoving t) :
    AgreeOnNumber (evaluateStep s draws evaluate place t) (evaluateStep s' draws' evaluate' place t) := by
  cases stepCases t with
  | incomplete hstep =>
    simp only [hstep]
    exact .failed _
  | unbalanced _ hstep =>
    simp only [hstep]
    exact .failed _
  | divided op left right _ hdivide hstep =>
    have hsplit := (loosest?_sound hdivide).1
    simp only [hstep]
    exact evaluateParts_agree op (hparts left (.left hsplit)) (hparts right (.right hsplit))
  | applied f rest _ _ hcall _ hstep =>
    simp only [hstep, h.angleMode]
    exact (hparts _ (.argument hcall) _).bind fun hx =>
      agree_ofExcept (f.apply_congr s'.angleMode hx)
  | drawn rest _ _ hcall => exact absurd ⟨rest, Or.inl hcall⟩ hstill
  | named _ _ _ hstep =>
    simp only [hstep]
    exact agree_ofExcept (evaluateName_congr h _)
  | aggregated a rest _ _ hcall hstep =>
    simp only [hstep]
    refine .ite Iff.rfl (.failed _) ?_
    cases hargs : Arguments.ofCall? rest with
    | none => exact .failed _
    | some args =>
      have hcalls : CallsAggregate t args := ⟨a, rest, hcall, hargs⟩
      cases a with
      | integral => exact absurd ⟨rest, Or.inr hcall⟩ hstill
      | sum =>
        refine evaluateRange_agree (hparts _ (.lower hcalls)) (hparts _ (.upper hcalls))
          (hfunction args hcalls) (fun x => hparts _ (.sample x hcalls)) _ ?_ 0
        exact fun hx hy => .value (add_congr hx hy)
      | product =>
        exact evaluateRange_agree (hparts _ (.lower hcalls)) (hparts _ (.upper hcalls))
          (hfunction args hcalls) (fun x => hparts _ (.sample x hcalls)) _ productOf_agree 1

end Steps

end DecimalCalculator
