import DecimalCalculator.Proofs.Expression.Division
import DecimalCalculator.Proofs.Expression.Termination
import DecimalCalculator.Proofs.Expression.Words

/-!
Evaluations without random numbers.

* `NeverDraws`: neither a text nor a part of it, nor a part of a part, begins a call of `rand`.
  `neverDraws_of_avoids`: texts in which `rand` and the function registers are not named.
* `evaluateStep_congr`: **one step** comes to the same if the parts do, and what it draws.
* `evaluateWithin_below`: a text **below a place** is one on its own, with the draws below that place.
* `NeverDraws.evaluateWithin_eq`, `NeverDraws.evaluation_eq`: **a text that never draws** comes to
  the same at every place.
-/

namespace DecimalCalculator

variable {s : Session} {draws draws' : Draws} {evaluate evaluate' : Evaluator}
  {place place' : Place} {t u : Text}

/-! ### Steps -/

/-- An aggregate comes to the same if the values of its bounds and its samples do. -/
lemma evaluateAggregate_congr {a : Aggregate} {rest : Text}
    (hlower : ∀ args, Arguments.ofCall? rest = some args →
      ∀ b, evaluate (b :: place) args.lower = evaluate' (b :: place') args.lower)
    (hupper : ∀ args, Arguments.ofCall? rest = some args →
      ∀ b, evaluate (b :: place) args.upper = evaluate' (b :: place') args.upper)
    (hsample : ∀ args, Arguments.ofCall? rest = some args →
      ∀ b x, evaluate (b :: place) ((s.template args.function).render x) =
        evaluate' (b :: place') ((s.template args.function).render x)) :
    evaluateAggregate s evaluate place a rest = evaluateAggregate s evaluate' place' a rest := by
  unfold evaluateAggregate
  split
  · rfl
  · cases hargs : Arguments.ofCall? rest with
    | none => rfl
    | some args =>
      have range : ∀ invalid combine start,
          evaluateRange s evaluate place args invalid combine start =
            evaluateRange s evaluate' place' args invalid combine start := by
        intro invalid combine start
        simp only [evaluateRange, integerBounds, hlower args hargs, hupper args hargs,
          hsample args hargs]
      cases a with
      | integral =>
        show evaluateIntegral s evaluate place args = evaluateIntegral s evaluate' place' args
        simp only [evaluateIntegral, hlower args hargs, hupper args hargs, hsample args hargs]
      | sum => exact range _ _ _
      | product => exact range _ _ _

/-- **One step** comes to the same for two evaluators and two places if the parts do so, and the same
number is drawn there or the text begins no call of `rand`. -/
theorem evaluateStep_congr
    (hparts : ∀ u, IsPart s t u → ∀ b, evaluate (b :: place) u = evaluate' (b :: place') u)
    (hrand : draws place = draws' place' ∨
      ∀ rest, call? (normalizeCase (stripWrapping t)) ≠ some (.rand, rest)) :
    evaluateStep s draws evaluate place t = evaluateStep s draws' evaluate' place' t := by
  cases stepCases t with
  | incomplete hstep | unbalanced _ hstep | named _ _ _ hstep => simp only [hstep]
  | divided op left right _ hdivide hstep =>
    have hsplit := (loosest?_sound hdivide).1
    simp only [hstep]
    exact evaluateParts_congr (hparts left (.left hsplit)) (hparts right (.right hsplit)) rfl rfl
  | applied f rest _ _ hcall _ hstep => simp only [hstep, hparts _ (.argument hcall)]
  | aggregated a rest _ _ hcall hstep =>
    simp only [hstep]
    exact evaluateAggregate_congr (fun args h => hparts _ (.lower ⟨a, rest, hcall, h⟩))
      (fun args h => hparts _ (.upper ⟨a, rest, hcall, h⟩))
      fun args h b x => hparts _ (.sample x ⟨a, rest, hcall, h⟩) b
  | drawn rest _ _ hcall hstep =>
    rcases hrand with hsame | hnone
    · simp only [hstep, evaluateRand, hparts _ (.argument hcall), hsame]
    · exact absurd hcall (hnone rest)

/-! ### Places -/

/-- The numbers that an evaluation draws below a place. -/
def Draws.below (draws : Draws) (place : Place) : Draws := fun steps => draws (steps ++ place)

/-- **Below a place** a text comes to what it would come to as a whole line that draws the numbers
below the place. -/
theorem evaluateWithin_below (depth : Nat) (steps : Place) :
    evaluateWithin s draws depth (steps ++ place) t =
      evaluateWithin s (draws.below place) depth steps t := by
  induction depth generalizing steps t with
  | zero => rfl
  | succ depth ih => exact evaluateStep_congr (fun u hpart b => ih (b :: steps)) (.inl rfl)

/-! ### Texts that never draw -/

/-- Neither the text nor a part of it, nor a part of a part, begins a call of `rand`. -/
def NeverDraws (s : Session) (t : Text) : Prop :=
  ∀ u, Relation.ReflTransGen (IsPart s) t u →
    ∀ rest, call? (normalizeCase (stripWrapping u)) ≠ some (.rand, rest)

namespace NeverDraws

/-- The parts of a text that never draws never draw. -/
lemma part (h : NeverDraws s t) (hpart : IsPart s t u) : NeverDraws s u :=
  fun v hreach => h v (hreach.head hpart)

/-- **A text that never draws** comes to the same at every place, whatever is drawn. -/
theorem evaluateWithin_eq (h : NeverDraws s t) (depth : Nat) :
    evaluateWithin s draws depth place t = evaluateWithin s draws' depth place' t := by
  induction depth generalizing place place' t with
  | zero => rfl
  | succ depth ih =>
    exact evaluateStep_congr (fun u hpart b => ih (h.part hpart)) (.inr (h t .refl))

/-- A text that never draws comes to the same at every place at every depth that suffices. -/
theorem evaluation_eq (h : NeverDraws s t) :
    evaluation s draws place t = evaluation s draws' place' t :=
  evaluation_eq_of_evaluateWithin_eq h.evaluateWithin_eq

end NeverDraws

/-- A text in which neither `rand` nor a function register is named never draws. -/
theorem neverDraws_of_avoids (h : Avoids drawingWords t) : NeverDraws s t := by
  intro u hreach
  have hreached : Avoids drawingWords u := by
    induction hreach with
    | refl => exact h
    | tail _ hpart ih =>
      exact ih.part (fun _ => isPlainWord_of_mem_drawingWords) (List.subset_cons_self _ _) hpart
  intro rest hcall
  have hinner := hreached.of_infix (stripWrapping_isInfix u)
  obtain ⟨spelling, hmem, happend⟩ := append_of_call? hcall
  rw [hinner.small] at happend
  -- the only spelling of the call holds the name
  obtain rfl : spelling = ['r', 'a', 'n', 'd', '('] := by
    have hall : ∀ entry ∈ operations, entry.2 = .rand → entry.1 = ['r', 'a', 'n', 'd', '('] := by
      decide
    exact hall _ hmem rfl
  exact hinner.absent ['r', 'a', 'n', 'd'] List.mem_cons_self ⟨[], '(' :: rest, by simp [happend]⟩

end DecimalCalculator
