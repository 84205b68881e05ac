import DecimalCalculator.Proofs.Expression.Aggregate

/-!
The arguments that the calls of aggregates take.

* `isArgument_iff`: the texts that can be arguments are decided by dividing them.
* `commaPieces_argumentsText`: a call is divided into as many pieces as it has arguments, however
  deep these nest calls with commas of their own.
* `Arguments.ofCall?_argumentsText_eq_none`: so only three arguments are taken.
* `Aggregate.reads_callWith`: **the arguments of a call** are those that it is written with, or the
  failure is the aggregate's own.
-/

namespace DecimalCalculator

variable {args : List Text} {spelling first function lower upper : Text}

/-! ### Reading -/

/-- A comma outside the brackets divides a text. -/
lemma commaPieces_ne_nil {depth : Int} {t a b : Text} (hsplit : t = a ++ ',' :: b)
    (hlevel : depth + rise a = 0) : (commaPieces depth t).2 ≠ [] := by
  subst hsplit
  induction a generalizing depth with
  | nil =>
    rw [rise_nil, add_zero] at hlevel
    rw [List.nil_append, commaPieces, if_pos ⟨rfl, hlevel⟩]
    exact List.cons_ne_nil _ _
  | cons c a ih =>
    rw [rise_cons, ← add_assoc] at hlevel
    rw [List.cons_append, commaPieces, depth_eq_add_turn]
    split
    · exact List.cons_ne_nil _ _
    · exact ih hlevel

/-- **Arguments** are the balanced texts that are not divided. -/
lemma isArgument_iff {t : Text} :
    IsArgument t ↔ bracketsBalanced t = true ∧ (commaPieces 0 t).2 = [] := by
  constructor
  · intro h
    refine ⟨h.balanced, ?_⟩
    have hundivided : ∀ a b, t = a ++ ',' :: b → (0 : Int) + rise a ≠ 0 := fun a b hsplit hlevel =>
      h.undivided a b ⟨hsplit, by decide, by omega⟩
    have hpieces := commaPieces_append hundivided []
    rw [List.append_nil] at hpieces
    rw [hpieces]
    rfl
  · rintro ⟨hbal, hpieces⟩
    refine ⟨hbal, fun a b hout => commaPieces_ne_nil hout.split ?_ hpieces⟩
    rw [hout.level, add_zero]

instance (t : Text) : Decidable (IsArgument t) := decidable_of_iff _ isArgument_iff.symm

/-- **A call is divided** behind each of its arguments but the last. -/
theorem commaPieces_argumentsText (h : ∀ t ∈ first :: args, IsArgument t) :
    (commaPieces 0 (argumentsText (first :: args))).2.length = args.length := by
  induction args generalizing first with
  | nil => rw [argumentsText_singleton, (h first (by simp)).commaPieces_close]
  | cons second args ih =>
    rw [argumentsText_cons_cons, (h first (by simp)).commaPieces_cons, List.length_cons,
      List.length_cons, ih fun t ht => h t (List.mem_cons_of_mem _ ht)]

/-- Only three arguments are taken. -/
theorem Arguments.ofCall?_argumentsText_eq_none (h : ∀ t ∈ args, IsArgument t)
    (hlength : args.length ≠ 3) : ofCall? (argumentsText args) = none := by
  cases args with
  | nil => rfl
  | cons first args =>
    have hpieces := commaPieces_argumentsText h
    unfold ofCall?
    split
    · next hthree =>
      rw [hthree] at hpieces
      exact absurd (congrArg (· + 1) hpieces.symm) hlength
    · rfl

/-- **The arguments of a call** are those that it is written with, for every spelling of an
aggregate: a call with three arguments, balanced texts without commas outside their brackets, has
the first one in brackets as its function, and the others as its bounds. With fewer arguments or
more the call fails as the aggregate does for arguments that it does not take, and so does its
evaluation, unless the call is too short for any. -/
theorem Aggregate.reads_callWith {a : Aggregate} (hspelling : spelling ∈ a.spellings)
    (hargs : ∀ t ∈ args, IsArgument t) :
    call? (callWith spelling args) = some (.aggregate a, argumentsText args) ∧
      (∀ function lower upper, args = [function, lower, upper] →
        Outcome.ofOption a.invalidArguments (Arguments.ofCall? (argumentsText args)) =
          .value ⟨'(' :: (function ++ [')']), lower, upper⟩) ∧
      (args.length ≠ 3 →
        Outcome.ofOption a.invalidArguments (Arguments.ofCall? (argumentsText args)) =
            .failed a.invalidArguments ∧
          ∀ (s : Session) (draws : Draws) (evaluate : Evaluator) (place : Place),
            evaluateStep s draws evaluate place (callWith spelling args) =
              .failed (if (argumentsText (args.map normalizeCase)).length < 6 then .missingArgument
                else a.invalidArguments)) := by
  refine ⟨?_, ?_, fun hlength => ⟨?_, fun s draws evaluate place => ?_⟩⟩
  · have hcall := call?_eq_some (mem_operations hspelling).1 (argumentsText args)
    rwa [List.append_assoc] at hcall
  · rintro function lower upper rfl
    rw [argumentsText_three, Arguments.ofCall?_argumentText (hargs function (by simp))
      (hargs lower (by simp)) (hargs upper (by simp))]
    rfl
  · rw [Arguments.ofCall?_argumentsText_eq_none hargs hlength]
    rfl
  · have hsmall : ∀ t ∈ args.map normalizeCase, IsArgument t := by
      intro t ht
      obtain ⟨u, hu, rfl⟩ := List.mem_map.mp ht
      exact (hargs u hu).normalizeCase
    have hnone := Arguments.ofCall?_argumentsText_eq_none hsmall (by rwa [List.length_map])
    rw [evaluateStep_callWith hspelling hargs, evaluateAggregate, hnone]
    split
    · rfl
    · rfl

/-- A sum over a sum, and a product over a product with one argument too few. -/
theorem Aggregate.reads_callWith_nested :
    Outcome.ofOption .sumArguments (Arguments.ofCall?
        (argumentsText [text "sum(x,1,x)", text "(1)", text "abs(sum(x,1,9))"])) =
      .value ⟨text "(sum(x,1,x))", text "(1)", text "abs(sum(x,1,9))"⟩ ∧
    Outcome.ofOption .productArguments
        (Arguments.ofCall? (argumentsText [text "product(x,1,2)", text "3"])) =
      .failed .productArguments ∧
    evaluateStep Session.fresh (Draws.ofSeed 0) (fun _ _ => .exhausted) []
        (text "product(product(x,1,2),3)") = .failed .productArguments := by
  have hsum := reads_callWith (show text "sum" ∈ Aggregate.sum.spellings by decide)
    (show ∀ t ∈ [text "sum(x,1,x)", text "(1)", text "abs(sum(x,1,9))"], IsArgument t by decide)
  have hproduct := reads_callWith (show text "product" ∈ Aggregate.product.spellings by decide)
    (show ∀ t ∈ [text "product(x,1,2)", text "3"], IsArgument t by decide)
  refine ⟨hsum.2.1 _ _ _ rfl, (hproduct.2.2 (by decide)).1, ?_⟩
  exact (hproduct.2.2 (by decide)).2 Session.fresh (Draws.ofSeed 0) (fun _ _ => .exhausted) []

end DecimalCalculator
