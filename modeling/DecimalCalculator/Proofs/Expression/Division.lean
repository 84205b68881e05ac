import DecimalCalculator.Expression.Evaluate
import DecimalCalculator.Proofs.Decimal.Literal
import DecimalCalculator.Proofs.Expression.Scan
import DecimalCalculator.Proofs.Text.SmallLetters

/-!
Where a text and its small letters divide.

* `Decimal.isLiteral_normalizeCase`: a text is a literal if it is one in small letters.
* `division`: the operator and the parts at which the evaluator divides a text.
  `division_normalizeCase`: small letters divide in the same parts, unless the sign becomes that of
  an exponent there; `division_normalizeCase_of_eq_none`: they divide only if the text does.
* `StepCases`, `stepCases`: **what one step of the evaluator can do** with a text.
* `KeepsDivision`: no sign at which the text or a part of it divides becomes that of an exponent.
  `evaluateWithin_normalizeCase`: **such a text has the value of its small letters**.
  `keepsDivision_of_not_mem`: all texts without the capital `E` are among them.
-/

namespace DecimalCalculator

/-! ### Literals -/

/-- The mark of an exponent in small letters. -/
def smallMark (c : Char) : Char := if c = 'E' then 'e' else c

/-- Where a text is cut does not depend on how its characters are written. -/
lemma cutAt_map {p : Char → Bool} {f : Char → Char} (hp : ∀ c, p (f c) = p c) (t : Text) :
    cutAt p (t.map f) = ((cutAt p t).1.map f, (cutAt p t).2.map (List.map f)) := by
  have hcomp : (fun c => !p c) ∘ f = fun c => !p c := funext fun c => by simp [hp]
  rw [cutAt, cutAt, List.takeWhile_map, List.dropWhile_map, hcomp]
  cases t.dropWhile fun c => !p c <;> rfl

/-- Only the capital `E` is written in another way. -/
lemma map_smallMark_eq_self {t : Text} (h : 'E' ∉ t) : t.map smallMark = t := by
  refine (List.map_congr_left fun c hc => ?_).trans (List.map_id t)
  have hne : c ≠ 'E' := fun heq => h (heq ▸ hc)
  rw [smallMark, if_neg hne, id]

/-- The mark of an exponent is no digit, whatever its letter. -/
lemma isDigit_smallMark (c : Char) : (smallMark c).isDigit = c.isDigit := by
  rw [smallMark]
  split
  · next h => rw [h]; rfl
  · rfl

/-- The sign of a text is the same with small marks. -/
lemma splitSign_map_smallMark (t : Text) :
    splitSign (t.map smallMark) = ((splitSign t).1, (splitSign t).2.map smallMark) := by
  cases t with
  | nil => rfl
  | cons c t =>
    by_cases hminus : c = '-'
    · subst hminus; rfl
    · by_cases hplus : c = '+'
      · subst hplus; rfl
      · have hhead : ∀ d, d = '-' ∨ d = '+' → smallMark c ≠ d := by
          intro d hd
          by_cases hc : c = 'E'
          · subst hc
            rcases hd with rfl | rfl <;> decide
          · rw [smallMark, if_neg hc]
            rcases hd with rfl | rfl <;> assumption
        rw [splitSign_of_unsigned (t := c :: t) (by simpa using hminus)
          (by simpa using hplus)]
        refine splitSign_of_unsigned ?_ ?_
        · simpa using hhead '-' (Or.inl rfl)
        · simpa using hhead '+' (Or.inr rfl)

namespace Decimal

/-- The exponent of a literal holds no further mark. -/
lemma exponent?_map_smallMark (t : Text) : exponent? (t.map smallMark) = exponent? t := by
  have hall : ∀ u : Text, (u.map smallMark).all Char.isDigit = u.all Char.isDigit := by
    intro u
    rw [List.all_map]
    congr 1
    exact funext isDigit_smallMark
  rw [exponent?, exponent?, splitSign_map_smallMark]
  generalize splitSign t = parts
  obtain ⟨negative, digits⟩ := parts
  simp only [List.isEmpty_map, hall]
  split
  · rfl
  · next hdigits =>
    -- digits are written in one way only
    have hmark : 'E' ∉ digits := by
      intro hmem
      simp only [Bool.or_eq_true, Bool.not_eq_true', not_or, Bool.not_eq_false] at hdigits
      exact absurd (List.all_eq_true.mp hdigits.2 _ hmem) (by decide)
    rw [map_smallMark_eq_self hmark]

/-- A literal spells the same decimal with a small mark. -/
lemma ofText?_map_smallMark (t : Text) : ofText? (t.map smallMark) = ofText? t := by
  have hmark : ∀ c, ((smallMark c = 'e') || (smallMark c = 'E')) = ((c = 'e') || (c = 'E')) := by
    intro c
    rw [smallMark]
    split
    · next h => subst h; rfl
    · rfl
  rw [ofText?, ofText?, splitSign_map_smallMark]
  generalize splitSign t = parts
  obtain ⟨negative, unsigned⟩ := parts
  simp only [cutAt_map (p := fun c => (c = 'e') || (c = 'E')) (by simpa using hmark)]
  have hnumber : 'E' ∉ (cutAt (fun c => (c = 'e') || (c = 'E')) unsigned).1 := by
    intro hmem
    exact absurd (List.all_eq_true.mp List.all_takeWhile _ hmem) (by decide)
  rw [map_smallMark_eq_self hnumber]
  cases (cutAt (fun c => (c = 'e') || (c = 'E')) unsigned).2 with
  | none => rfl
  | some written => simp only [Option.map_some, exponent?_map_smallMark]

/-- Characters of literals in small letters. -/
lemma normalizeCase_eq_map_smallMark {t : Text}
    (h : ∀ c ∈ t, isNumeral c = true ∨ c = '+' ∨ c = '-' ∨ c = 'e' ∨ c = 'E') :
    normalizeCase t = t.map smallMark := by
  induction t with
  | nil => rfl
  | cons c t ih =>
    have hc : lowered c = [smallMark c] := by
      rcases h c (by simp) with hnumeral | rfl | rfl | rfl | rfl
      · have hne : c ≠ 'E' := by
          rintro rfl
          exact absurd hnumeral (by decide)
        rw [smallMark, if_neg hne]
        exact isSmall_of_isCaseless (isCaseless_of_isNumeral hnumeral)
      all_goals decide
    rw [normalizeCase_cons, hc, ih fun d hd => h d (by simp [hd])]
    rfl

/-- **Literals** are those of the texts that are literals in small letters. -/
@[simp] theorem isLiteral_normalizeCase (t : Text) :
    isLiteral (normalizeCase t) = isLiteral t := by
  have written : (∀ c ∈ t, isNumeral c = true ∨ c = '+' ∨ c = '-' ∨ c = 'e' ∨ c = 'E') →
      isLiteral (normalizeCase t) = isLiteral t := by
    intro h
    rw [isLiteral, isLiteral, normalizeCase_eq_map_smallMark h, ofText?_map_smallMark]
  by_cases h : isLiteral t = true
  · exact written fun c hc => char_of_isLiteral h hc
  · by_cases hsmall : isLiteral (normalizeCase t) = true
    · -- a small letter of a literal is that of a character of literals
      refine written fun c hc => ?_
      obtain ⟨d, rest, hd⟩ := List.exists_cons_of_ne_nil (lowered_ne_nil c)
      have hmem : d ∈ lowered c := by simp [hd]
      have htext : d ∈ normalizeCase t := List.mem_flatMap.mpr ⟨c, hc, hmem⟩
      rcases char_of_isLiteral hsmall htext with hnumeral | rfl | rfl | rfl | rfl
      · obtain rfl := (mem_lowered_iff_of_isCaseless (isCaseless_of_isNumeral hnumeral)).mp hmem
        exact Or.inl hnumeral
      · simp [(mem_lowered_iff_of_isCaseless (by decide)).mp hmem]
      · simp [(mem_lowered_iff_of_isCaseless (by decide)).mp hmem]
      · rcases eq_of_mark_mem_lowered hmem with rfl | rfl <;> simp
      · exact absurd (isSmall_of_mem_lowered hmem) (by decide)
    · rw [Bool.not_eq_true] at h hsmall
      rw [h, hsmall]

end Decimal

/-! ### Division -/

namespace Operator

variable {op : Operator} {t a b : Text} {c : Char}

/-- The sign of an operator has no case. -/
lemma isCaseless_sign (op : Operator) : isCaseless op.sign = true := by
  cases op <;> decide

/-- What is an operator in small letters is one in the text. -/
lemma isAt_of_normalizeCase (h : op.isAt (normalizeCase a).reverse c (normalizeCase b) = true) :
    op.isAt a.reverse c b = true := by
  rw [isAt_iff] at h ⊢
  exact ⟨h.1, fun hsign => h.2 ⟨hsign.1, betweenIsExponent_normalizeCase hsign.2⟩⟩

/-- A text that does not divide at an operator does not do so in small letters. -/
lemma split?_normalizeCase_eq_none (ht : rise t = 0) (h : op.split? t = none) :
    op.split? (normalizeCase t) = none := by
  refine split?_eq_none (by rw [rise_normalizeCase, ht]) fun a c b hout => ?_
  rw [← Bool.not_eq_true]
  intro hat
  obtain rfl := ((op.isAt_iff _ _ _).mp hat).1
  obtain ⟨x, y, hout', rfl, rfl⟩ := hout.of_normalizeCase op.isCaseless_sign
  have hnone : op.isAt x.reverse op.sign y = false := by
    rw [split?] at h
    split at h
    · exact not_stops_of_splitFirst_eq_none h hout'
    · exact not_stops_of_splitLast_eq_none ht h hout'
  rw [isAt_of_normalizeCase hat] at hnone
  exact absurd hnone (by decide)

/-- A text divides at an operator where it does so in small letters, if the operator stays one. -/
lemma split?_normalizeCase (ht : rise t = 0) (h : op.split? t = some (a, b))
    (hat : op.isAt (normalizeCase a).reverse op.sign (normalizeCase b) = true) :
    op.split? (normalizeCase t) = some (normalizeCase a, normalizeCase b) := by
  have hcons : ∀ u : Text, normalizeCase (op.sign :: u) = op.sign :: normalizeCase u :=
    normalizeCase_cons_of_isSmall (isSmall_of_isCaseless op.isCaseless_sign)
  rw [split?] at h ⊢
  split at h
  · next hright =>
    rw [if_pos hright]
    obtain ⟨c, hout, hstop, hfirst⟩ := splitFirst_sound h
    obtain rfl := ((op.isAt_iff _ _ _).mp hstop).1
    refine splitFirst_eq_some (hout.normalizeCase op.isCaseless_sign) hat fun a' d b' hout' => ?_
    -- an earlier occurrence in small letters is one in the text
    rw [← Bool.not_eq_true]
    intro hearlier
    obtain rfl := ((op.isAt_iff _ _ _).mp hearlier).1
    obtain ⟨x, y, hout'', rfl, rfl⟩ := hout'.of_normalizeCase op.isCaseless_sign
    rw [← hcons, ← normalizeCase_append] at hearlier
    have := hfirst x _ y hout''
    rw [isAt_of_normalizeCase hearlier] at this
    exact absurd this (by decide)
  · next hleft =>
    rw [if_neg hleft]
    obtain ⟨c, hout, hstop, hlast⟩ := splitLast_sound ht h
    obtain rfl := ((op.isAt_iff _ _ _).mp hstop).1
    refine splitLast_eq_some (by rw [rise_normalizeCase, ht])
      (hout.normalizeCase op.isCaseless_sign) hat fun a' d b' hout' => ?_
    rw [← Bool.not_eq_true]
    intro hlater
    obtain rfl := ((op.isAt_iff _ _ _).mp hlater).1
    obtain ⟨x, y, hout'', rfl, rfl⟩ := hout'.of_normalizeCase op.isCaseless_sign
    have hbefore : (normalizeCase x).reverse ++ op.sign :: (normalizeCase a).reverse =
        (normalizeCase (a ++ op.sign :: x)).reverse := by
      rw [normalizeCase_append, hcons]
      simp
    rw [hbefore] at hlater
    have := hlast x _ y hout''
    rw [show x.reverse ++ op.sign :: a.reverse = (a ++ op.sign :: x).reverse by simp,
      isAt_of_normalizeCase hlater] at this
    exact absurd this (by decide)

end Operator

/-- The operator at which the evaluator divides a text, and the two parts around it. -/
def division (t : Text) : Option (Operator × Text × Text) :=
  loosest? (Decimal.isLiteral (stripWrapping t)) (stripWrapping t)

section Division

variable {op : Operator} {t left right : Text}

/-- A balanced text that does not divide does not do so in small letters. -/
theorem division_normalizeCase_of_eq_none (hbal : bracketsBalanced t = true)
    (h : division t = none) : division (normalizeCase t) = none := by
  have hrise := rise_of_balanced (bracketsBalanced_stripWrapping hbal)
  rw [division, loosest?, List.findSome?_eq_none_iff] at h
  rw [division, stripWrapping_normalizeCase, Decimal.isLiteral_normalizeCase]
  refine loosest?_eq_none fun op => ?_
  have hop := h op (by cases op <;> decide)
  split at hop
  · next hflag => exact Or.inl hflag
  · exact Or.inr (Operator.split?_normalizeCase_eq_none hrise (Option.map_eq_none_iff.mp hop))

/-- **Division in small letters**: a balanced text divides as its small letters do, if the sign at
which it divides stays an operator in small letters. -/
theorem division_normalizeCase (hbal : bracketsBalanced t = true)
    (h : division t = some (op, left, right))
    (hat : op.isAt (normalizeCase left).reverse op.sign (normalizeCase right) = true) :
    division (normalizeCase t) = some (op, normalizeCase left, normalizeCase right) := by
  have hrise := rise_of_balanced (bracketsBalanced_stripWrapping hbal)
  rw [division, loosest?, List.findSome?_eq_some_iff] at h
  obtain ⟨looser, op', tighter, horder, hop, hlooser⟩ := h
  rw [division, stripWrapping_normalizeCase, Decimal.isLiteral_normalizeCase, loosest?,
    List.findSome?_eq_some_iff]
  refine ⟨looser, op', tighter, horder, ?_, fun op'' hmem => ?_⟩
  · split at hop
    · exact absurd hop (by simp)
    · next hflag =>
      rw [Option.map_eq_some_iff] at hop
      obtain ⟨parts, hsplit, hparts⟩ := hop
      obtain ⟨rfl, rfl⟩ := Prod.mk.inj hparts
      rw [if_neg hflag, Operator.split?_normalizeCase hrise hsplit hat]
      rfl
  · have hnone := hlooser op'' hmem
    split at hnone
    · next hflag => rw [if_pos hflag]
    · next hflag =>
      rw [if_neg hflag, Operator.split?_normalizeCase_eq_none hrise
        (Option.map_eq_none_iff.mp hnone)]
      rfl

/-- Where a text divides, the sign is no sign of an exponent, and the parts are shorter. -/
lemma division_sound (h : division t = some (op, left, right)) :
    op.isAt left.reverse op.sign right = true ∧ (left ++ op.sign :: right).Sublist t := by
  obtain ⟨hsplit, hat⟩ := loosest?_sound h
  exact ⟨hat, hsplit ▸ stripWrapping_sublist t⟩

end Division

/-! ### Values -/

/-- No sign at which the text or a part of it divides becomes that of an exponent in small letters,
as the plus sign of `2E+3*x` does. -/
inductive KeepsDivision : Text → Prop
  | term {t : Text} : division t = none → KeepsDivision t
  | parts {t left right : Text} {op : Operator} : division t = some (op, left, right) →
      op.isAt (normalizeCase left).reverse op.sign (normalizeCase right) = true →
      KeepsDivision left → KeepsDivision right → KeepsDivision t

section Values

variable {s : Session} {draws : Draws} {evaluate : Evaluator} {place : Place}

/-- One step of the evaluator in terms of the division. -/
lemma evaluateStep_eq (t : Text) :
    evaluateStep s draws evaluate place t =
      if isAllBrackets t then .failed .missingArgument
      else if !bracketsBalanced t then .failed .bracketMismatch
      else
        match division t with
        | some (op, left, right) => evaluateParts evaluate place op left right
        | none => evaluateTerm s draws evaluate place (stripWrapping t) :=
  rfl

/-- What one step does with a text, whatever the session, the draws, the evaluator and the place: it
refuses the text for its brackets or for an argument that is missing, divides it, applies a
function, goes through a range, draws a number or looks up a name. -/
inductive StepCases (t : Text) : Prop
  | incomplete : (∀ s draws evaluate place,
      evaluateStep s draws evaluate place t = .failed .missingArgument) → StepCases t
  | unbalanced : bracketsBalanced t = false → (∀ s draws evaluate place,
      evaluateStep s draws evaluate place t = .failed .bracketMismatch) → StepCases t
  | divided (op : Operator) (left right : Text) : bracketsBalanced t = true →
      division t = some (op, left, right) → (∀ s draws evaluate place,
        evaluateStep s draws evaluate place t = evaluateParts evaluate place op left right) →
      StepCases t
  | applied (f : Function) (rest : Text) : bracketsBalanced t = true → division t = none →
      call? (normalizeCase (stripWrapping t)) = some (.unary f, rest) → 2 ≤ rest.length →
      (∀ s draws evaluate place, evaluateStep s draws evaluate place t =
        evaluate (.argument :: place) ('(' :: rest) >>= fun x =>
          .ofExcept (f.apply s.angleMode x)) →
      StepCases t
  | aggregated (a : Aggregate) (rest : Text) : bracketsBalanced t = true → division t = none →
      call? (normalizeCase (stripWrapping t)) = some (.aggregate a, rest) →
      (∀ s draws evaluate place,
        evaluateStep s draws evaluate place t = evaluateAggregate s evaluate place a rest) →
      StepCases t
  | drawn (rest : Text) : bracketsBalanced t = true → division t = none →
      call? (normalizeCase (stripWrapping t)) = some (.rand, rest) → (∀ s draws evaluate place,
        evaluateStep s draws evaluate place t = evaluateRand draws evaluate place rest) →
      StepCases t
  | named : bracketsBalanced t = true → division t = none →
      call? (normalizeCase (stripWrapping t)) = none → (∀ s draws evaluate place,
        evaluateStep s draws evaluate place t =
          .ofExcept (evaluateName s (normalizeCase (stripWrapping t)))) →
      StepCases t

/-- **The cases of a step** are all there are. -/
theorem stepCases (t : Text) : StepCases t := by
  by_cases hall : isAllBrackets t = true
  · exact .incomplete fun s draws evaluate place => by rw [evaluateStep_eq, if_pos hall]
  cases hbal : bracketsBalanced t with
  | false =>
    exact .unbalanced hbal fun s draws evaluate place => by simp [evaluateStep_eq, hall, hbal]
  | true =>
    -- what is left of a step once the brackets are in order
    have hstep : ∀ s draws evaluate place, evaluateStep s draws evaluate place t =
        match division t with
        | some (op, left, right) => evaluateParts evaluate place op left right
        | none => evaluateTerm s draws evaluate place (stripWrapping t) :=
      fun s draws evaluate place => by simp [evaluateStep_eq, hall, hbal]
    cases hdivide : division t with
    | some parts =>
      obtain ⟨op, left, right⟩ := parts
      exact .divided op left right hbal hdivide fun s draws evaluate place => by rw [hstep, hdivide]
    | none =>
      simp only [hdivide, evaluateTerm] at hstep
      cases hcall : call? (normalizeCase (stripWrapping t)) with
      | none => exact .named hbal hdivide hcall fun s draws evaluate place => by rw [hstep, hcall]
      | some call =>
        obtain ⟨operation, rest⟩ := call
        simp only [hcall] at hstep
        cases operation with
        | unary f =>
          by_cases hlength : rest.length < 2
          · exact .incomplete fun s draws evaluate place =>
              (hstep s draws evaluate place).trans (if_pos hlength)
          · exact .applied f rest hbal hdivide hcall (by omega) fun s draws evaluate place =>
              (hstep s draws evaluate place).trans (if_neg hlength)
        | aggregate a => exact .aggregated a rest hbal hdivide hcall hstep
        | rand => exact .drawn rest hbal hdivide hcall hstep

/-- A term is read in small letters. -/
lemma evaluateTerm_normalizeCase (t : Text) :
    evaluateTerm s draws evaluate place (normalizeCase t) =
      evaluateTerm s draws evaluate place t := by
  simp only [evaluateTerm, normalizeCase_idem]

/-- Two parts have the value of any two others with the same values, if the same ones are empty. -/
lemma evaluateParts_congr {op : Operator} {evaluate' : Evaluator} {place' : Place}
    {left right left' right' : Text}
    (hleft : ∀ b, evaluate' (b :: place') left' = evaluate (b :: place) left)
    (hright : ∀ b, evaluate' (b :: place') right' = evaluate (b :: place) right)
    (hleftEmpty : left'.isEmpty = left.isEmpty) (hrightEmpty : right'.isEmpty = right.isEmpty) :
    evaluateParts evaluate' place' op left' right' =
      evaluateParts evaluate place op left right := by
  have hoperator : evaluateOperator evaluate' place' op left' right' =
      evaluateOperator evaluate place op left right := by
    cases op <;> simp only [evaluateOperator, hleft, hright]
  simp only [evaluateParts, hoperator, hright, hleftEmpty, hrightEmpty]

/-- **Values in small letters**: a text that keeps its division has the value of its small
letters. -/
theorem evaluateWithin_normalizeCase {t : Text} (h : KeepsDivision t) (depth : Nat)
    (place : Place) :
    evaluateWithin s draws depth place (normalizeCase t) =
      evaluateWithin s draws depth place t := by
  induction h generalizing depth place with
  | term hnone =>
    cases depth with
    | zero => rfl
    | succ depth =>
      simp only [evaluateWithin, evaluateStep_eq, isAllBrackets_normalizeCase,
        bracketsBalanced_normalizeCase]
      split
      · rfl
      · split
        · rfl
        · next hbal =>
          rw [division_normalizeCase_of_eq_none (by simpa using hbal) hnone, hnone]
          simp only [stripWrapping_normalizeCase, evaluateTerm_normalizeCase]
  | @parts t left right op hdivide hat _ _ ihleft ihright =>
    cases depth with
    | zero => rfl
    | succ depth =>
      simp only [evaluateWithin, evaluateStep_eq, isAllBrackets_normalizeCase,
        bracketsBalanced_normalizeCase]
      split
      · rfl
      · split
        · rfl
        · next hbal =>
          rw [division_normalizeCase (by simpa using hbal) hdivide hat, hdivide]
          exact evaluateParts_congr (fun b => ihleft depth (b :: place))
            (fun b => ihright depth (b :: place)) (isEmpty_normalizeCase left)
            (isEmpty_normalizeCase right)

end Values

/-- **Only the capital `E`** can make a sign that of an exponent. -/
theorem keepsDivision_of_not_mem {t : Text} (h : 'E' ∉ t) : KeepsDivision t := by
  induction hlength : t.length using Nat.strong_induction_on generalizing t with
  | _ n ih =>
    cases hdivide : division t with
    | none => exact .term hdivide
    | some parts =>
      obtain ⟨op, left, right⟩ := parts
      obtain ⟨hat, hsub⟩ := division_sound hdivide
      have hshort : left.length + (right.length + 1) ≤ t.length := by
        simpa using hsub.length_le
      have hleft : 'E' ∉ left := fun hmem => h (hsub.subset (by simp [hmem]))
      have hright : 'E' ∉ right := fun hmem => h (hsub.subset (by simp [hmem]))
      refine .parts hdivide ?_ (ih _ (by omega) hleft rfl) (ih _ (by omega) hright rfl)
      rw [Operator.isAt_iff] at hat ⊢
      refine ⟨rfl, fun hsmall => hat.2 ⟨hsmall.1, ?_⟩⟩
      have hexponent := hsmall.2
      rw [betweenIsExponent_iff] at hexponent ⊢
      exact ⟨hexponent.1.of_normalizeCase hleft, startsWithDigit_normalizeCase.mp hexponent.2⟩

end DecimalCalculator
