import DecimalCalculator.Proofs.Session.Brackets

/-!
How deep the calls of an evaluation nest.

* `Asks.isPart`: a text asks for its parts, and for no other text.
* `Asks.marks_lt`: **each call takes a mark**, if the function registers are empty: a numeral in
  the place of a variable has at most the mark that the variable has.
* `length_le_marks`: so calls within calls are no more than the marks of the outermost text.
  `Session.nesting_le`: **without function registers** evaluations nest no deeper than the input is
  long.
-/

namespace DecimalCalculator

variable {s : Session} {draws : Draws} {t u : Text} {calls : List Text}

/-- A text asks for its parts, and for no other text. -/
lemma Asks.isPart (h : Asks s draws t u) : IsPart s t u := by
  obtain ⟨place, evaluate, evaluate', hagree, hne⟩ := h
  by_contra hu
  refine hne ((isSequential_evaluateStep s draws place t).congr fun place' v hv => ?_)
  exact hagree place' v fun heq => hu (heq ▸ hv)

/-- **Each call takes a mark** without function registers. -/
theorem Asks.marks_lt (hanswer : s.functionAnswer = []) (hmemory : s.functionMemory = [])
    (h : Asks s draws t u) : marks u < marks t :=
  h.isPart.marks_lt fun args _ => s.marks_expand_le hanswer hmemory args.function

/-- Calls within calls are no more than the marks of the outermost text: each has fewer marks than
the one around it. -/
lemma length_le_marks (hanswer : s.functionAnswer = []) (hmemory : s.functionMemory = [])
    (hcalls : (t :: calls).IsChain (Asks s draws)) : calls.length ≤ marks t := by
  induction calls generalizing t with
  | nil => exact Nat.zero_le _
  | cons u calls ih =>
    obtain ⟨hasks, hrest⟩ := List.isChain_cons_cons.mp hcalls
    calc calls.length + 1 ≤ marks u + 1 := Nat.succ_le_succ (ih hrest)
      _ ≤ marks t := hasks.marks_lt hanswer hmemory

/-- **Without function registers** an evaluation nests no deeper than its input is long in small
letters: below the call for the input itself, no more calls stand within each other than the input
has characters, and it comes to its end at every depth above their number. -/
theorem Session.nesting_le (s : Session) (draws : Draws) (t : Text)
    (hanswer : s.functionAnswer = []) (hmemory : s.functionMemory = []) :
    (∀ calls, (t :: calls).IsChain (Asks s draws) → calls.length ≤ (normalizeCase t).length) ∧
    ∀ depth place, (normalizeCase t).length < depth →
      evaluateWithin s draws depth place t ≠ .exhausted ∧
        evaluateWithin s draws depth place t = evaluation s draws place t := by
  refine ⟨fun calls hcalls => ?_, fun depth place hdepth => ?_⟩
  · exact (length_le_marks hanswer hmemory hcalls).trans (marks_le_length t)
  · have hfinished : evaluateWithin s draws depth place t ≠ .exhausted :=
      evaluateWithin_ne_exhausted (P := fun _ => True) (fun _ _ _ _ => trivial)
        (fun _ args _ _ => s.marks_expand_le hanswer hmemory args.function) trivial
        ((marks_le_length t).trans_lt hdepth) place
    exact ⟨hfinished, (evaluation_extends s draws depth place t hfinished).symm⟩

/-- A range with many samples, whose numerals are longer than its function, nests no deeper. -/
theorem Session.nesting_sum_of_squares :
    evaluateWithin fresh (Draws.ofSeed 0) 24 [] (text "SUM(x^2,1,999999999999)") ≠ .exhausted :=
  ((fresh.nesting_le (Draws.ofSeed 0) _ rfl rfl).2 _ [] (by decide)).1

end DecimalCalculator
