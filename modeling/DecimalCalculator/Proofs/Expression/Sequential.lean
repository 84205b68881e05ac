import Mathlib.Tactic
import DecimalCalculator.Expression.Evaluate

/-!
Computations that ask an evaluator for one value after the other.

* `IsSequential`: such a computation, with a bound on the texts it may ask for. It is closed under
  `bind`, and under the folds over samples.
* `IsSequential.mono`: more defined answers leave a finished computation as it is.
* `IsSequential.exists_limit`: **a finished computation has asked finitely often**, so that what it
  finds in the limit of a growing chain of evaluators it finds in one of them.
* `IsSequential.exists_awaited`: **an unfinished computation awaits one value**, and stays
  unfinished as long as that value is missing.
-/

namespace DecimalCalculator

/-! ### Outcomes -/

namespace Outcome

variable {α β : Type} (next : α → Outcome β)

@[simp] lemma value_bind (a : α) : (value a >>= next) = next a := rfl

@[simp] lemma pure_bind (a : α) : ((pure a : Outcome α) >>= next) = next a := rfl

@[simp] lemma failed_bind (f : Failure) : (failed f >>= next) = failed f := rfl

@[simp] lemma exhausted_bind : (exhausted >>= next) = exhausted := rfl

instance : LawfulMonad Outcome := LawfulMonad.mk' Outcome
  (fun o => by cases o <;> rfl)
  (fun _ _ => rfl)
  (fun o _ _ => by cases o <;> rfl)

/-- A value comes from a value. -/
lemma bind_eq_value {o : Outcome α} {next : α → Outcome β} {b : β} :
    (o >>= next) = value b ↔ ∃ a, o = value a ∧ next a = value b := by
  cases o with
  | value a => simp
  | failed f => simp
  | exhausted => simp

/-- A failure comes from a failure, or from the computation that goes on with the value. -/
lemma bind_eq_failed {o : Outcome α} {next : α → Outcome β} {f : Failure} :
    (o >>= next) = failed f ↔ o = failed f ∨ ∃ a, o = value a ∧ next a = failed f := by
  cases o with
  | value a => simp
  | failed f => simp
  | exhausted => simp

/-- An option has the value that it holds. -/
lemma ofOption_eq_value {f : Failure} {o : Option α} {a : α} :
    ofOption f o = value a ↔ o = some a := by
  cases o with
  | none => simp [ofOption]
  | some a' => simp [ofOption]

/-- A computation has the value that it returns. -/
lemma ofExcept_eq_value {r : Except Failure α} {a : α} : ofExcept r = value a ↔ r = .ok a := by
  cases r with
  | error f => simp [ofExcept]
  | ok a' => simp [ofExcept]

@[simp] lemma toExcept_ofExcept (r : Except Failure α) : (ofExcept r).toExcept = r := by
  cases r <;> rfl

/-- Only a value is reported as one. -/
lemma toExcept_eq_ok {o : Outcome α} {a : α} : o.toExcept = .ok a ↔ o = value a := by
  cases o with
  | value a' => simp [toExcept]
  | failed f => simp [toExcept]
  | exhausted => simp [toExcept]

end Outcome

/-- A sum or product over a range goes on from its first sample. -/
lemma foldRange_succ (combine : Decimal → Decimal → Except Failure Decimal)
    (sample : Int → Outcome Decimal) (n : Nat) (k : Int) (total : Decimal) :
    foldRange combine sample (n + 1) k total =
      sample k >>= fun y => Outcome.ofExcept (combine total y) >>=
        fun total => foldRange combine sample n (k + 1) total := by
  rw [foldRange]
  cases sample k with
  | value y => cases hcombine : combine total y <;> simp only [Outcome.value_bind, hcombine] <;> rfl
  | failed f => rfl
  | exhausted => rfl

/-! ### Sequential computations -/

/-- A computation that comes to a value or a failure, or asks for the value of a text that the
predicate allows, and goes on with that value. -/
inductive IsSequential (allowed : Text → Prop) {α : Type} : (Evaluator → Outcome α) → Prop
  | settled (r : Except Failure α) : IsSequential allowed fun _ => .ofExcept r
  | ask (place : Place) {t : Text} {next : Decimal → Evaluator → Outcome α} : allowed t →
      (∀ x, IsSequential allowed (next x)) →
      IsSequential allowed fun evaluate => (evaluate place t).bind fun x => next x evaluate

namespace IsSequential

variable {allowed : Text → Prop} {α β : Type}

/-- A value is found without asking. -/
lemma pure (a : α) : IsSequential allowed fun _ => (.value a : Outcome α) := settled (.ok a)

/-- A failure is found without asking. -/
lemma failed (f : Failure) : IsSequential allowed fun _ => (.failed f : Outcome α) :=
  settled (.error f)

/-- The value of an option is found without asking. -/
lemma ofOption (f : Failure) (o : Option α) :
    IsSequential allowed fun _ => Outcome.ofOption f o := by
  cases o with
  | none => exact failed f
  | some a => exact pure a

/-- Asking once and no more. -/
lemma part (place : Place) {t : Text} (h : allowed t) :
    IsSequential allowed fun evaluate => evaluate place t := by
  have hask : IsSequential allowed fun evaluate => (evaluate place t).bind fun x => .value x :=
    ask place h fun x => pure x
  have hsame : (fun evaluate : Evaluator => (evaluate place t).bind fun x => .value x) =
      fun evaluate => evaluate place t := by
    funext evaluate
    cases evaluate place t <;> rfl
  rwa [hsame] at hask

/-- One computation after another. -/
lemma bind {f : Evaluator → Outcome α} {g : α → Evaluator → Outcome β}
    (hf : IsSequential allowed f) (hg : ∀ a, IsSequential allowed (g a)) :
    IsSequential allowed fun evaluate => (f evaluate).bind fun a => g a evaluate := by
  induction hf with
  | settled r =>
    cases r with
    | ok a => exact hg a
    | error e => exact failed e
  | @ask place t next hallowed _ ih =>
    have hask := ask place hallowed ih
    have hassoc : (fun evaluate : Evaluator => ((evaluate place t).bind fun x =>
          next x evaluate).bind fun a => g a evaluate) =
        fun evaluate => (evaluate place t).bind fun x =>
          (next x evaluate).bind fun a => g a evaluate := by
      funext evaluate
      cases evaluate place t <;> rfl
    rwa [hassoc]

/-- A sum or product over a range asks for its samples in order. -/
lemma foldRange {sample : Evaluator → Int → Outcome Decimal}
    (hsample : ∀ k, IsSequential allowed fun evaluate => sample evaluate k)
    (combine : Decimal → Decimal → Except Failure Decimal) (n : Nat) (k : Int) (total : Decimal) :
    IsSequential allowed fun evaluate =>
      DecimalCalculator.foldRange combine (sample evaluate) n k total := by
  induction n generalizing k total with
  | zero => exact pure total
  | succ n ih =>
    have hbind := (hsample k).bind fun y =>
      (settled (combine total y)).bind fun total => ih (k + 1) total
    have hsame : (fun evaluate => (sample evaluate k).bind fun y =>
          (Outcome.ofExcept (combine total y)).bind fun total =>
            DecimalCalculator.foldRange combine (sample evaluate) n (k + 1) total) =
        fun evaluate => DecimalCalculator.foldRange combine (sample evaluate) (n + 1) k total :=
      funext fun evaluate => (foldRange_succ combine (sample evaluate) n k total).symm
    rwa [hsame] at hbind

/-- A weighted sum over points asks for its samples in order. -/
lemma addSamples (q : Quadrature) {sample : Evaluator → Nat → Decimal → Outcome Decimal}
    (hsample : ∀ i x, IsSequential allowed fun evaluate => sample evaluate i x)
    (n i : Nat) (x sum : Decimal) :
    IsSequential allowed fun evaluate => q.addSamples (sample evaluate) n i x sum := by
  induction n generalizing i x sum with
  | zero => exact pure sum
  | succ n ih =>
    have hbind := (hsample i x).bind fun y => ih (i + 1) (x + q.spacing)
      (sum + if q.weight i = 1 then y else y * Decimal.ofInt (q.weight i))
    have hsame : (fun evaluate => (sample evaluate i x).bind fun y =>
          q.addSamples (sample evaluate) n (i + 1) (x + q.spacing)
            (sum + if q.weight i = 1 then y else y * Decimal.ofInt (q.weight i))) =
        fun evaluate => q.addSamples (sample evaluate) (n + 1) i x sum := by
      funext evaluate
      rw [Quadrature.addSamples]
      cases sample evaluate i x <;> rfl
    rwa [hsame] at hbind

/-! ### Evaluators that know more -/

/-- An evaluator that finds all that another one finds. -/
def Extends (less more : Evaluator) : Prop :=
  ∀ place t, less place t ≠ .exhausted → more place t = less place t

variable {f : Evaluator → Outcome α}

/-- A computation comes to the same for two evaluators that agree on all texts it may ask for. -/
lemma congr (hf : IsSequential allowed f) {evaluate evaluate' : Evaluator}
    (h : ∀ place t, allowed t → evaluate place t = evaluate' place t) :
    f evaluate = f evaluate' := by
  induction hf with
  | settled r => rfl
  | ask place hallowed _ ih => simp only [h place _ hallowed, ih]

/-- More defined answers leave a finished computation as it is. -/
theorem mono (hf : IsSequential allowed f) {less more : Evaluator} (h : Extends less more)
    (hfinished : f less ≠ .exhausted) : f more = f less := by
  induction hf with
  | settled r => rfl
  | @ask place t next _ _ ih =>
    have hasked : less place t ≠ .exhausted := fun hnone => by
      simp only [hnone] at hfinished
      exact hfinished rfl
    simp only [h place t hasked] at hfinished ⊢
    cases hanswer : less place t with
    | value x =>
      rw [hanswer] at hfinished
      exact ih x hfinished
    | failed e => rfl
    | exhausted => exact absurd hanswer hasked

/-- **Limits**: what a computation finds in the limit of a growing chain of evaluators, it finds in
one of them. -/
theorem exists_limit (hf : IsSequential allowed f) {chain : Nat → Evaluator} {limit : Evaluator}
    (hgrow : ∀ m n, m ≤ n → Extends (chain m) (chain n))
    (hlimit : ∀ place t, limit place t ≠ .exhausted → ∃ n, chain n place t = limit place t)
    (hfinished : f limit ≠ .exhausted) : ∃ n, f (chain n) = f limit := by
  induction hf with
  | settled r => exact ⟨0, rfl⟩
  | @ask place t next hallowed hnext ih =>
    have hasked : limit place t ≠ .exhausted := fun hnone => by
      simp only [hnone] at hfinished
      exact hfinished rfl
    obtain ⟨n, hn⟩ := hlimit place t hasked
    cases hanswer : limit place t with
    | value x =>
      simp only [hanswer] at hfinished
      obtain ⟨m, hm⟩ := ih x hfinished
      -- a link of the chain that has both the answer and the rest
      refine ⟨max m n, ?_⟩
      have hchain : chain (max m n) place t = .value x := by
        rw [hgrow n _ (le_max_right m n) place t (by rw [hn]; exact hasked), hn, hanswer]
      have hrest : next x (chain (max m n)) = next x (chain m) :=
        (hnext x).mono (hgrow m _ (le_max_left m n)) (by rw [hm]; exact hfinished)
      simp only [hchain, hanswer]
      exact hrest.trans hm
    | failed e =>
      refine ⟨n, ?_⟩
      simp only [hn, hanswer]
      rfl
    | exhausted => exact absurd hanswer hasked

/-- **Awaited values**: an unfinished computation has asked for a value that is missing, and no
further answers finish it as long as that one is missing. -/
theorem exists_awaited (hf : IsSequential allowed f) {evaluate : Evaluator}
    (hunfinished : f evaluate = .exhausted) :
    ∃ place t, allowed t ∧ evaluate place t = .exhausted ∧
      ∀ more, Extends evaluate more → more place t = .exhausted → f more = .exhausted := by
  induction hf with
  | settled r => cases r <;> exact absurd hunfinished (by simp [Outcome.ofExcept])
  | @ask place t next hallowed _ ih =>
    cases hanswer : evaluate place t with
    | value x =>
      simp only [hanswer] at hunfinished
      obtain ⟨place', t', hallowed', hmissing, hawaits⟩ := ih x hunfinished
      refine ⟨place', t', hallowed', hmissing, fun more hmore hstill => ?_⟩
      have hsame : more place t = .value x := by
        rw [hmore place t (by rw [hanswer]; simp), hanswer]
      simp only [hsame]
      exact hawaits more hmore hstill
    | failed e =>
      simp only [hanswer] at hunfinished
      exact absurd hunfinished (by simp [Outcome.bind])
    | exhausted =>
      refine ⟨place, t, hallowed, hanswer, fun more _ hstill => ?_⟩
      simp only [hstill]
      rfl

end IsSequential

end DecimalCalculator
