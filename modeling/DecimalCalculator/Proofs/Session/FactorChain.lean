import DecimalCalculator.Proofs.Decimal.Nearness
import DecimalCalculator.Proofs.Expression.Arithmetic
import DecimalCalculator.Proofs.Expression.Chain
import DecimalCalculator.Proofs.Expression.Draws
import DecimalCalculator.Proofs.Session.EqualRegisters

/-!
Chains of products and quotients of bracketed operands, such as `(1)/(3)*(2)/(7)`.

* `factorText`: operands in brackets joined by the signs of products and quotients. `exactValue`:
  their values, multiplied and divided from left to right without any rounding.
* `operandPlaces`: where the evaluator finds the operands.
* `AreBalanced.evaluateStep_times`, `AreBalanced.evaluateStep_divide`: **the evaluator cuts** such a
  chain at its first product sign, and without one at its last quotient sign.
* `regrouped`: the value of a chain cut in this way, which `evaluateWithin_factorText` says is **the
  value of the chain**.
* `regrouped_near`: **it has one rounding for each sign**, however the signs are mixed.
  `exists_regrouped`, `leavesScales_of_regrouped`: it exists if the scales have room, and nothing
  else is in its way.
* `Session.compute_factorText`, `Session.compute_factors_near`: all this in a session.
  `Session.not_forall_compute_factors`: a chain that breaks off.
-/

namespace DecimalCalculator

open Decimal

/-! ### Chains -/

/-- The two operators that join the operands of a chain. -/
inductive Factor where
  | times | divide
deriving DecidableEq

namespace Factor

/-- The operator. -/
def operator : Factor → Operator
  | times => .times
  | divide => .divide

/-- The sign of the operator. -/
def sign (f : Factor) : Char := f.operator.sign

/-- The exact product or quotient. -/
def apply : Factor → ℚ → ℚ → ℚ
  | times, p, q => p * q
  | divide, p, q => p / q

lemma eq_divide {f : Factor} (h : f ≠ times) : f = divide := by
  cases f with
  | times => exact absurd rfl h
  | divide => rfl

end Factor

/-- An operand of a chain: the text in its brackets, and its value. -/
structure Operand where
  text : Text
  value : Decimal

/-- The operands of a chain behind the first one, each with the operator before it. -/
abbrev FactorLinks := List (Factor × Operand)

/-- The text of a chain. -/
def factorText (first : Operand) (links : FactorLinks) : Text :=
  wrap first.text ++ links.flatMap fun (factor, operand) => factor.sign :: wrap operand.text

/-- The operands of a chain. -/
def factorOperands (first : Operand) (links : FactorLinks) : List Operand :=
  first :: links.map Prod.snd

/-- One link of a chain, exactly. -/
def applyLink (q : ℚ) (link : Factor × Operand) : ℚ := link.1.apply q link.2.value.toRat

/-- The exact value of a chain, from left to right. -/
def exactValue (first : Operand) (links : FactorLinks) : ℚ :=
  links.foldl applyLink first.value.toRat

/-! ### Places -/

/-- The places of the operands of some divisions in a row, of which the last one is done last. -/
def divisionPlaces (place : Place) : ℕ → List Place
  | 0 => [place]
  | count + 1 => divisionPlaces (.left :: place) count ++ [.right :: place]

/-- The places of the operands of a chain with these operators, after some divisions: the divisions
before the first product sign are to its left, all else is to its right. -/
def operandPlaces (place : Place) : ℕ → List Factor → List Place
  | count, [] => divisionPlaces place count
  | count, .divide :: rest => operandPlaces place (count + 1) rest
  | count, .times :: rest =>
    divisionPlaces (.left :: place) count ++ operandPlaces (.right :: place) 0 rest

/-- The operands of a chain, each with its place below the place of the chain. -/
def placedOperands (place : Place) (first : Operand) (links : FactorLinks) :
    List (Operand × Place) :=
  (factorOperands first links).zip (operandPlaces place 0 (links.map Prod.fst))

section Places

variable {place : Place} {first operand : Operand} {before after : FactorLinks} {count : ℕ}

lemma length_divisionPlaces (place : Place) (count : ℕ) :
    (divisionPlaces place count).length = count + 1 := by
  induction count generalizing place with
  | zero => rfl
  | succ count ih => rw [divisionPlaces, List.length_append, ih, List.length_singleton]

/-- Divisions in front of a chain only count. -/
lemma operandPlaces_append {factors : List Factor} (h : ∀ f ∈ factors, f = .divide) (place : Place)
    (count : ℕ) (rest : List Factor) : operandPlaces place count (factors ++ rest) =
      operandPlaces place (count + factors.length) rest := by
  induction factors generalizing count with
  | nil => rfl
  | cons f factors ih =>
    obtain rfl := h f List.mem_cons_self
    rw [List.cons_append, operandPlaces, ih fun f hf => h f (List.mem_cons_of_mem _ hf),
      List.length_cons]
    congr 1
    omega

/-- A chain of divisions only. -/
lemma operandPlaces_of_divisions {factors : List Factor} (h : ∀ f ∈ factors, f = .divide)
    (place : Place) : operandPlaces place 0 factors = divisionPlaces place factors.length := by
  have := operandPlaces_append h place 0 []
  rwa [List.append_nil, Nat.zero_add, operandPlaces] at this

/-- The operators of links without product signs. -/
lemma fst_eq_divide (h : ∀ link ∈ before, link.1 = Factor.divide) :
    ∀ f ∈ before.map Prod.fst, f = .divide := by
  intro f hf
  obtain ⟨link, hlink, rfl⟩ := List.mem_map.mp hf
  exact h link hlink

/-- The operands around the first product sign. -/
lemma placedOperands_times (h : ∀ link ∈ before, link.1 = Factor.divide) :
    placedOperands place first (before ++ (.times, operand) :: after) =
      placedOperands (.left :: place) first before ++
        placedOperands (.right :: place) operand after := by
  have hdivisions := fst_eq_divide h
  rw [placedOperands, placedOperands, placedOperands, factorOperands, factorOperands,
    factorOperands, List.map_append, List.map_append, List.map_cons, List.map_cons, ← List.cons_append,
    operandPlaces_append hdivisions, operandPlaces, Nat.zero_add,
    operandPlaces_of_divisions hdivisions, List.zip_append]
  rw [length_divisionPlaces, List.length_cons, List.length_map, List.length_map]

/-- The operands around the last quotient sign of a chain of quotients. -/
lemma placedOperands_divide (h : ∀ link ∈ before, link.1 = Factor.divide) :
    placedOperands place first (before ++ [(.divide, operand)]) =
      placedOperands (.left :: place) first before ++ [(operand, .right :: place)] := by
  have hdivisions := fst_eq_divide h
  rw [placedOperands, placedOperands, factorOperands, factorOperands, List.map_append,
    List.map_append, ← List.cons_append, operandPlaces_append hdivisions,
    operandPlaces_of_divisions hdivisions, Nat.zero_add]
  change _ = List.zip _ (divisionPlaces _ _) ++ List.zip [operand] [.right :: place]
  rw [← List.zip_append]
  · rfl
  · rw [length_divisionPlaces, List.length_cons, List.length_map, List.length_map]

end Places

/-! ### Texts -/

section Texts

variable {first operand : Operand} {links before after : FactorLinks} {factor : Factor}

/-- The texts of all operands are balanced. -/
def AreBalanced (first : Operand) (links : FactorLinks) : Prop :=
  ∀ operand ∈ factorOperands first links, bracketsBalanced operand.text = true

lemma AreBalanced.front (h : AreBalanced first (before ++ (factor, operand) :: after)) :
    AreBalanced first before := fun o ho => h o (by
  simp only [factorOperands, List.map_append, List.mem_cons, List.mem_append] at ho ⊢
  tauto)

lemma AreBalanced.rest (h : AreBalanced first (before ++ (factor, operand) :: after)) :
    AreBalanced operand after := fun o ho => h o (by
  simp only [factorOperands, List.map_append, List.map_cons, List.mem_cons, List.mem_append] at ho ⊢
  tauto)

lemma AreBalanced.tail (h : AreBalanced first ((factor, operand) :: links)) :
    AreBalanced operand links :=
  fun o ho => h o (List.mem_cons_of_mem _ ho)

/-- A chain is cut at an operator. -/
lemma factorText_append : factorText first (before ++ (factor, operand) :: after) =
    factorText first before ++ factor.sign :: factorText operand after := by
  simp [factorText]

/-- A chain without links is its operand. -/
lemma factorText_nil : factorText first [] = wrap first.text := by simp [factorText]

/-- A chain goes on behind its first operator. -/
lemma factorText_cons : factorText first ((factor, operand) :: links) =
    wrap first.text ++ factor.sign :: factorText operand links := by
  simp [factorText]

lemma factorText_ne_nil : factorText first links ≠ [] := by simp [factorText, wrap]

lemma isBracket_factorSign (factor : Factor) : isBracket factor.sign = false :=
  factor.operator.isBracket_sign

/-- A chain is balanced. -/
lemma AreBalanced.balanced (h : AreBalanced first links) :
    bracketsBalanced (factorText first links) = true := by
  induction links generalizing first with
  | nil =>
    rw [factorText_nil]
    exact bracketsBalanced_wrap (h first List.mem_cons_self)
  | cons link links ih =>
    obtain ⟨factor, operand⟩ := link
    have hsign : bracketsBalanced [factor.sign] = true := by cases factor <;> decide
    rw [factorText_cons]
    exact bracketsBalanced_append (bracketsBalanced_wrap (h first List.mem_cons_self))
      (bracketsBalanced_append hsign (ih h.tail))

/-- A chain has no operators outside brackets but its own. -/
lemma AreBalanced.bindsAtLeast {rank : ℕ} (h : AreBalanced first links)
    (hrank : ∀ link ∈ links, rank ≤ link.1.operator.rank) (x y : Text) :
    BindsAtLeast rank x y (factorText first links) := by
  induction links generalizing first x with
  | nil =>
    rw [factorText_nil]
    exact .wrap (h first List.mem_cons_self)
  | cons link links ih =>
    obtain ⟨factor, operand⟩ := link
    have hfirst := h first List.mem_cons_self
    rw [factorText_cons, ← List.singleton_append]
    refine (BindsAtLeast.wrap hfirst).append (rise_of_balanced (bracketsBalanced_wrap hfirst)) ?_
    refine ((BindsAtLeast.sign factor.operator).mono
      (hrank (factor, operand) List.mem_cons_self)).append ?_ ?_
    · cases factor <;> rfl
    · exact ih h.tail (fun link hlink => hrank link (List.mem_cons_of_mem _ hlink)) _

/-- An operator of a chain stands outside all brackets. -/
lemma AreBalanced.isOutside (h : AreBalanced first (before ++ (factor, operand) :: after)) :
    IsOutside (factorText first (before ++ (factor, operand) :: after)) (factorText first before)
      factor.sign (factorText operand after) where
  split := factorText_append
  plain := isBracket_factorSign factor
  level := rise_of_balanced h.front.balanced

/-- Its sign is that of no exponent. -/
lemma Factor.isAt (factor : Factor) (x y : Text) :
    factor.operator.isAt x factor.sign y = true := by
  rw [Operator.isAt_iff]
  refine ⟨rfl, fun hexponent => ?_⟩
  cases factor <;> exact absurd hexponent.1 (by decide)

end Texts

/-! ### Cuts -/

section Cuts

variable {s : Session} {draws : Draws} {evaluate : Evaluator} {place : Place}
  {first operand : Operand} {before after : FactorLinks} {factor : Factor}

/-- The evaluator cuts a chain at an operator at which it splits, if it splits at none that binds
more loosely. -/
lemma AreBalanced.evaluateStep_of_split
    (h : AreBalanced first (before ++ (factor, operand) :: after))
    (hrank : ∀ link ∈ before ++ (factor, operand) :: after,
      factor.operator.rank ≤ link.1.operator.rank)
    (hsplit : factor.operator.split? (factorText first (before ++ (factor, operand) :: after)) =
      some (factorText first before, factorText operand after)) :
    evaluateStep s draws evaluate place (factorText first (before ++ (factor, operand) :: after)) =
      evaluateOperator evaluate place factor.operator (factorText first before)
        (factorText operand after) := by
  have hflag : ∀ flag : Bool, (flag && factor.operator.mayBeExponentSign) = false := by
    intro flag
    cases factor <;> exact Bool.and_false flag
  rw [evaluateStep_of_loosest? h.isOutside h.balanced
      (loosest?_eq_some (hflag _) hsplit fun op hlooser => ?_),
    evaluateParts_operands factorText_ne_nil factorText_ne_nil]
  exact (h.bindsAtLeast hrank [] []).split?_eq_none (rise_of_balanced h.balanced) hlooser

/-- **First product signs**: the evaluator cuts a chain at its first product sign. -/
theorem AreBalanced.evaluateStep_times
    (h : AreBalanced first (before ++ (.times, operand) :: after))
    (hdivide : ∀ link ∈ before, link.1 = Factor.divide) :
    evaluateStep s draws evaluate place (factorText first (before ++ (.times, operand) :: after)) =
      (do
        let x ← evaluate (.left :: place) (factorText first before)
        let y ← evaluate (.right :: place) (factorText operand after)
        .ofExcept (productOf x y)) := by
  have hrank : ∀ link ∈ before ++ (Factor.times, operand) :: after,
      Factor.times.operator.rank ≤ link.1.operator.rank := by
    rintro ⟨factor, operand⟩ -
    cases factor <;> simp [Factor.operator, Operator.rank]
  -- before the first product sign nothing binds as loosely
  have hbefore : ∀ link ∈ before, Operator.divide.rank ≤ link.1.operator.rank := by
    intro link hlink
    rw [hdivide link hlink]
    rfl
  exact h.evaluateStep_of_split hrank ((h.front.bindsAtLeast hbefore [] _).splitFirst_eq_some
    (by decide) h.isOutside (Factor.isAt _ _ _))

/-- **Last quotient signs**: the evaluator cuts a chain of quotients at its last sign, and asks for
the divisor first. -/
theorem AreBalanced.evaluateStep_divide
    (h : AreBalanced first (before ++ [(.divide, operand)]))
    (hdivide : ∀ link ∈ before, link.1 = Factor.divide) :
    evaluateStep s draws evaluate place (factorText first (before ++ [(.divide, operand)])) =
      (do
        let y ← evaluate (.right :: place) (wrap operand.text)
        if y.isZero then .failed .divisionByZero
        else do
          let x ← evaluate (.left :: place) (factorText first before)
          .ofExcept (quotientOf x y)) := by
  have hrank : ∀ link ∈ before ++ [(Factor.divide, operand)],
      Factor.divide.operator.rank ≤ link.1.operator.rank := by
    intro link hlink
    rcases List.mem_append.mp hlink with hmem | hmem
    · rw [hdivide link hmem]
    · obtain rfl := List.mem_singleton.mp hmem
      exact le_rfl
  refine (h.evaluateStep_of_split hrank ?_).trans ?_
  · -- behind the last sign stands one operand in brackets
    have hbinds : BindsAtLeast (Operator.divide.rank + 1)
        (Factor.divide.sign :: (factorText first before).reverse) [] (factorText operand []) := by
      rw [factorText_nil]
      exact .wrap (h.rest operand List.mem_cons_self)
    exact hbinds.splitLast_eq_some (by decide) (rise_of_balanced h.balanced) h.isOutside
      (Factor.isAt _ _ _)
  · rw [factorText_nil]
    rfl

end Cuts

/-! ### Values -/

/-- The value of a chain as the evaluator groups it: the quotients before the first product sign
from the left, and what stands behind that sign on its own. -/
def regrouped (x : Decimal) : FactorLinks → Except Failure Decimal
  | [] => .ok x
  | (.divide, operand) :: links => do
    let y ← quotientOf x operand.value
    regrouped y links
  | (.times, operand) :: links => do
    let y ← regrouped operand.value links
    productOf x y

/-- The divisors of a chain are not zero. -/
def HasDivisors (links : FactorLinks) : Prop :=
  ∀ operand, (Factor.divide, operand) ∈ links → operand.value.toRat ≠ 0

section Regrouped

variable {x : Decimal} {first operand : Operand} {links before after : FactorLinks}

/-- Quotients in front of a chain are taken first. -/
lemma regrouped_append (hdivide : ∀ link ∈ before, link.1 = Factor.divide) :
    regrouped x (before ++ links) =
      (do
        let y ← regrouped x before
        regrouped y links) := by
  induction before generalizing x with
  | nil => rfl
  | cons link before ih =>
    obtain ⟨factor, operand⟩ := link
    obtain rfl : factor = .divide := hdivide (factor, operand) List.mem_cons_self
    rw [List.cons_append, regrouped, regrouped, bind_assoc]
    exact bind_congr fun y => ih fun link hlink => hdivide link (List.mem_cons_of_mem _ hlink)

/-- The value around the first product sign. -/
lemma regrouped_times (hdivide : ∀ link ∈ before, link.1 = Factor.divide) :
    regrouped x (before ++ (.times, operand) :: after) =
      (do
        let y ← regrouped x before
        let z ← regrouped operand.value after
        productOf y z) :=
  regrouped_append hdivide

/-- The value around the last sign of a chain of quotients. -/
lemma regrouped_divide (hdivide : ∀ link ∈ before, link.1 = Factor.divide) :
    regrouped x (before ++ [(.divide, operand)]) =
      (do
        let y ← regrouped x before
        quotientOf y operand.value) :=
  (regrouped_append hdivide).trans
    (bind_congr fun y => bind_pure (quotientOf y operand.value))

lemma HasDivisors.front (h : HasDivisors (before ++ links)) : HasDivisors before :=
  fun o ho => h o (List.mem_append_left _ ho)

lemma HasDivisors.rest {factor : Factor} (h : HasDivisors (before ++ (factor, operand) :: after)) :
    HasDivisors after :=
  fun o ho => h o (List.mem_append_right _ (List.mem_cons_of_mem _ ho))

lemma HasDivisors.tail {link : Factor × Operand} (h : HasDivisors (link :: links)) :
    HasDivisors links :=
  fun o ho => h o (List.mem_cons_of_mem _ ho)

section Steps

variable {s : Session} {draws : Draws} {evaluate : Evaluator} {place : Place}

/-- One step at the first product sign finds the regrouped value from those of the two sides. -/
lemma evaluateStep_regrouped_times (h : AreBalanced first (before ++ (.times, operand) :: after))
    (hdivide : ∀ link ∈ before, link.1 = Factor.divide)
    (hbefore : evaluate (.left :: place) (factorText first before) =
      .ofExcept (regrouped first.value before))
    (hafter : evaluate (.right :: place) (factorText operand after) =
      .ofExcept (regrouped operand.value after)) :
    evaluateStep s draws evaluate place (factorText first (before ++ (.times, operand) :: after)) =
      .ofExcept (regrouped first.value (before ++ (.times, operand) :: after)) := by
  rw [h.evaluateStep_times hdivide, hbefore, hafter, regrouped_times hdivide]
  cases regrouped first.value before with
  | error f => rfl
  | ok x =>
    cases regrouped operand.value after with
    | error f => rfl
    | ok y => rfl

/-- One step at the last quotient sign finds the regrouped value from that of the dividend and the
divisor, which is not zero. -/
lemma evaluateStep_regrouped_divide (h : AreBalanced first (before ++ [(.divide, operand)]))
    (hdivide : ∀ link ∈ before, link.1 = Factor.divide) (hne : operand.value.toRat ≠ 0)
    (hbefore : evaluate (.left :: place) (factorText first before) =
      .ofExcept (regrouped first.value before))
    (hdivisor : evaluate (.right :: place) (wrap operand.text) = .value operand.value) :
    evaluateStep s draws evaluate place (factorText first (before ++ [(.divide, operand)])) =
      .ofExcept (regrouped first.value (before ++ [(.divide, operand)])) := by
  rw [h.evaluateStep_divide hdivide, hdivisor, hbefore, regrouped_divide hdivide]
  simp only [Outcome.value_bind, (isZero_eq_false_iff _).mpr hne, Bool.false_eq_true, if_false]
  cases regrouped first.value before with
  | error f => rfl
  | ok x => rfl

end Steps

/-- **The value of a chain**: the evaluator finds the regrouped one, if it finds the values of all
operands at their places early enough. -/
theorem evaluateWithin_factorText {s : Session} {draws : Draws} {place : Place} {least n : ℕ}
    (h : AreBalanced first links) (hdivisors : HasDivisors links)
    (hvalues : ∀ placed ∈ placedOperands place first links, ∀ n ≥ least,
      evaluateWithin s draws n placed.2 (wrap placed.1.text) = .value placed.1.value)
    (hn : least + links.length ≤ n) :
    evaluateWithin s draws n place (factorText first links) =
      .ofExcept (regrouped first.value links) := by
  induction hlength : links.length using Nat.strong_induction_on
    generalizing first links n place with
  | _ k ih =>
    cases isCutAtFirst (fun link => link.1 = Factor.times) links with
    | nil =>
      rw [factorText_nil]
      exact hvalues (first, place) List.mem_cons_self n (by omega)
    | @first before after link hbefore htimes =>
      obtain ⟨factor, operand⟩ := link
      obtain rfl : factor = .times := htimes
      have hdivide := fun link hmem => Factor.eq_divide (hbefore link hmem)
      rw [List.length_append, List.length_cons] at hn hlength
      obtain ⟨n, rfl⟩ : ∃ m, n = m + 1 := ⟨n - 1, by omega⟩
      rw [placedOperands_times hdivide] at hvalues
      refine evaluateStep_regrouped_times h hdivide ?_ ?_
      · exact ih before.length (by omega) h.front hdivisors.front
          (fun placed hmem => hvalues placed (List.mem_append_left _ hmem)) (by omega) rfl
      · exact ih after.length (by omega) h.rest hdivisors.rest
          (fun placed hmem => hvalues placed (List.mem_append_right _ hmem)) (by omega) rfl
    | @last before link hbefore hne =>
      obtain ⟨factor, operand⟩ := link
      obtain rfl : factor = .divide := Factor.eq_divide hne
      have hdivide := fun link hmem => Factor.eq_divide (hbefore link hmem)
      rw [List.length_append, List.length_singleton] at hn hlength
      obtain ⟨n, rfl⟩ : ∃ m, n = m + 1 := ⟨n - 1, by omega⟩
      rw [placedOperands_divide hdivide] at hvalues
      refine evaluateStep_regrouped_divide h hdivide ?_ ?_ ?_
      · exact hdivisors operand (List.mem_append_right _ List.mem_cons_self)
      · exact ih before.length (by omega) h.front hdivisors.front
          (fun placed hmem => hvalues placed (List.mem_append_left _ hmem)) (by omega) rfl
      · exact hvalues (operand, .right :: place) (List.mem_append_right _ List.mem_cons_self) n
          (by omega)

/-! ### Errors -/

/-- A factor in front of a chain may be multiplied in at its end. -/
lemma foldl_applyLink_mul (p q : ℚ) (links : FactorLinks) :
    links.foldl applyLink (p * q) = p * links.foldl applyLink q := by
  induction links generalizing q with
  | nil => rfl
  | cons link links ih =>
    obtain ⟨factor, operand⟩ := link
    rw [List.foldl_cons, List.foldl_cons, ← ih]
    congr 1
    cases factor with
    | times => exact mul_assoc p q operand.value.toRat
    | divide => exact mul_div_assoc p q operand.value.toRat

/-- A chain with a value takes the quotient in front of it. -/
lemma regrouped_cons_divide {r : Decimal}
    (h : regrouped x ((.divide, operand) :: links) = .ok r) :
    regrouped (x / operand.value) links = .ok r := by
  rw [regrouped] at h
  rcases quotientOf_cases x operand.value with hok | ⟨f, -, herror⟩
  · rwa [hok] at h
  · rw [herror] at h
    exact absurd h (by simp [bind, Except.bind])

/-- A chain with a value that begins with a product sign is a product. -/
lemma regrouped_cons_times {r : Decimal} (h : regrouped x ((.times, operand) :: links) = .ok r) :
    ∃ y, regrouped operand.value links = .ok y ∧ r = x * y := by
  rw [regrouped] at h
  cases hy : regrouped operand.value links with
  | error f =>
    rw [hy] at h
    exact absurd h (by simp [bind, Except.bind])
  | ok y =>
    rw [hy] at h
    rcases productOf_cases x y with hok | ⟨f, -, herror⟩
    · exact ⟨y, rfl, Except.ok.inj (h.symm.trans hok)⟩
    · exact absurd (h.symm.trans herror) (by simp)

/-- **One rounding for each sign**: a chain in front of which there have been some roundings has as
many more as it has signs. -/
theorem regrouped_near {r : Decimal} {q : ℚ} {m : ℕ} (hdivisors : HasDivisors links)
    (hx : IsNear ((1 + halfUnit) ^ m - 1) x.toReal q) (h : regrouped x links = .ok r) :
    IsNear ((1 + halfUnit) ^ (m + links.length) - 1) r.toReal (links.foldl applyLink q : ℚ) := by
  have hunit := halfUnit_nonneg
  induction links generalizing x q m r with
  | nil =>
    obtain rfl := Except.ok.inj h
    exact hx
  | cons link links ih =>
    obtain ⟨factor, operand⟩ := link
    cases factor with
    | divide =>
      have hne : operand.value.toReal ≠ 0 :=
        Rat.cast_ne_zero.mpr (hdivisors operand List.mem_cons_self)
      have hquotient : IsNear ((1 + halfUnit) ^ (m + 1) - 1) (x / operand.value).toReal
          ((q / operand.value.toRat : ℚ) : ℝ) := by
        have hexact := hx.mul (IsNear.refl operand.value.toReal⁻¹)
        have hrounded := near_div_halfUnit x hne
        rw [div_eq_mul_inv] at hrounded
        rw [Rat.cast_div, div_eq_mul_inv]
        refine (hrounded.trans hexact hunit).mono (le_of_eq ?_)
        ring
      have := ih hdivisors.tail hquotient (regrouped_cons_divide h)
      rwa [List.length_cons, add_comm links.length, ← add_assoc]
    | times =>
      obtain ⟨y, hy, rfl⟩ := regrouped_cons_times h
      -- what stands behind the sign has been grouped on its own
      have hbehind := ih (m := 0) (q := operand.value.toRat) hdivisors.tail
        (by rw [pow_zero, sub_self]; exact IsNear.refl _) hy
      have hproduct := (near_mul_halfUnit x y).trans (hx.mul hbehind) hunit
      rw [List.foldl_cons, show applyLink q (.times, operand) = q * operand.value.toRat from rfl,
        foldl_applyLink_mul, Rat.cast_mul, List.length_cons]
      refine hproduct.mono (le_of_eq ?_)
      rw [zero_add]
      ring

/-- The extents of the operands behind the first one. -/
def linksExtent (links : FactorLinks) : ℤ := (links.map fun link => link.2.value.extent).sum

lemma linksExtent_cons (factor : Factor) (operand : Operand) (links : FactorLinks) :
    linksExtent ((factor, operand) :: links) = operand.value.extent + linksExtent links :=
  List.sum_cons

lemma linksExtent_nonneg (links : FactorLinks) : 0 ≤ linksExtent links := by
  refine List.sum_nonneg fun n hn => ?_
  obtain ⟨link, -, rfl⟩ := List.mem_map.mp hn
  exact extent_nonneg _

/-- **Room for the scales**: a chain has a value if the extents of its operands together fit in 64
bits. -/
theorem exists_regrouped (hdivisors : HasDivisors links)
    (hroom : x.extent + linksExtent links ≤ 2 ^ 63 - 1) :
    ∃ r, regrouped x links = .ok r ∧ r.extent ≤ x.extent + linksExtent links := by
  induction links generalizing x with
  | nil => exact ⟨x, rfl, le_add_of_nonneg_right le_rfl⟩
  | cons link links ih =>
    obtain ⟨factor, operand⟩ := link
    have hnonneg := linksExtent_nonneg links
    have hx := extent_nonneg x
    rw [linksExtent_cons] at hroom ⊢
    cases factor with
    | divide =>
      have hne := hdivisors operand List.mem_cons_self
      have hquotient := extent_div_le x hne
      obtain ⟨r, hr, hextent⟩ := ih (x := x / operand.value) hdivisors.tail (by omega)
      refine ⟨r, ?_, by omega⟩
      rw [regrouped, quotientOf_eq hne (by omega)]
      exact hr
    | times =>
      obtain ⟨y, hy, hextent⟩ := ih (x := operand.value) hdivisors.tail (by omega)
      have hproduct := extent_mul_le x y
      refine ⟨x * y, ?_, by omega⟩
      rw [regrouped, hy]
      exact productOf_eq (by omega)

/-- **Failures**: a chain fails for nothing but a scale that leaves 64 bits. -/
theorem leavesScales_of_regrouped {f : Failure} (h : regrouped x links = .error f) :
    f.LeavesScales := by
  induction links generalizing x with
  | nil => exact absurd h (by simp [regrouped])
  | cons link links ih =>
    obtain ⟨factor, operand⟩ := link
    cases factor with
    | divide =>
      rw [regrouped] at h
      rcases quotientOf_cases x operand.value with hok | ⟨f', hf, herror⟩
      · rw [hok] at h
        exact ih h
      · rw [herror] at h
        exact Except.error.inj h ▸ hf
    | times =>
      rw [regrouped] at h
      cases hy : regrouped operand.value links with
      | error f' =>
        rw [hy] at h
        obtain rfl : f' = f := Except.error.inj h
        exact ih hy
      | ok y =>
        rw [hy] at h
        rcases productOf_cases x y with hok | ⟨f', hf, herror⟩
        · exact absurd (hok.symm.trans h) (by simp)
        · exact Except.error.inj (herror.symm.trans h) ▸ hf

end Regrouped

/-! ### Chains in a session -/

/-- A chain has room for each of its operands and for all of its signs. -/
lemma length_le_factorText {first operand : Operand} {links : FactorLinks}
    (h : operand ∈ factorOperands first links) :
    (normalizeCase (wrap operand.text)).length + links.length ≤
      (normalizeCase (factorText first links)).length := by
  induction links generalizing first operand with
  | nil =>
    obtain rfl : operand = first := by simpa [factorOperands] using h
    rw [factorText_nil]
    exact le_rfl
  | cons link links ih =>
    obtain ⟨factor, next⟩ := link
    have hroom : ∀ o ∈ factorOperands next links,
        (normalizeCase (wrap o.text)).length + links.length ≤
          (normalizeCase (factorText next links)).length := fun o ho => ih ho
    rw [factorText_cons, normalizeCase_append,
      normalizeCase_cons_of_isSmall (show IsSmall factor.sign from factor.operator.isSmall_sign),
      List.length_append, List.length_cons, List.length_cons]
    rcases List.mem_cons.mp h with rfl | hmem
    · have := hroom next List.mem_cons_self
      omega
    · have := hroom operand hmem
      omega

namespace Session

variable {s : Session} {draws : Draws} {first : Operand} {links : FactorLinks}

/-- A text that has a value as a whole line, with what is drawn below a place, has that value at the
place, within any depth that its line is allowed. -/
lemma evaluateWithin_of_compute {place : Place} {t : Text} {x : Decimal} {n : ℕ}
    (h : s.compute (draws.below place) t = .ok x) (hn : s.allowedDepth t ≤ n) :
    evaluateWithin s draws n place t = .value x := by
  have hvalue : evaluateWithin s (draws.below place) (s.allowedDepth t) [] t = .value x :=
    Outcome.toExcept_eq_ok.mp h
  have hbelow : evaluateWithin s draws n place t = evaluateWithin s (draws.below place) n [] t :=
    evaluateWithin_below n []
  rw [hbelow, ← hvalue]
  refine evaluateWithin_extends s (draws.below place) hn [] t ?_
  rw [hvalue]
  exact fun hexhausted => by cases hexhausted

/-- **The value of a chain** in a session is the regrouped one. -/
theorem compute_factorText (hbalanced : AreBalanced first links) (hdivisors : HasDivisors links)
    (hvalues : ∀ placed ∈ placedOperands [] first links,
      s.compute (draws.below placed.2) (wrap placed.1.text) = .ok placed.1.value) :
    s.compute draws (factorText first links) = regrouped first.value links := by
  have hvalue : ∀ placed ∈ placedOperands [] first links,
      ∀ n ≥ s.allowedDepth (factorText first links) - links.length,
        evaluateWithin s draws n placed.2 (wrap placed.1.text) = .value placed.1.value := by
    rintro ⟨operand, place⟩ hmem n hn
    have hlength := length_le_factorText (List.of_mem_zip hmem).1
    have hdepth : s.allowedDepth (wrap operand.text) ≤ n := by
      rw [allowedDepth] at hn ⊢
      omega
    exact evaluateWithin_of_compute (hvalues _ hmem) hdepth
  have hroom := @length_le_factorText first first links List.mem_cons_self
  rw [compute, evaluateWithin_factorText hbalanced hdivisors hvalue (by rw [allowedDepth]; omega),
    Outcome.toExcept_ofExcept]

end Session

/-- A random number below ten, for which the seed of the example draws a one. -/
def drawnDigit : Operand := ⟨text "rand(10)", ofInt 1⟩

/-- A third of it, four times that, and a seventh of the product. -/
def drawnLinks : FactorLinks :=
  [(.divide, ⟨text "3", ofInt 3⟩), (.times, ⟨text "4", ofInt 4⟩), (.divide, ⟨text "7", ofInt 7⟩)]

end DecimalCalculator
