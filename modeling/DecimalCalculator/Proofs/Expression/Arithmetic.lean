import DecimalCalculator.Proofs.Decimal.Spelling
import DecimalCalculator.Proofs.Elementary.PowerExtent
import DecimalCalculator.Proofs.Expression.Division
import DecimalCalculator.Proofs.Expression.Operation
import DecimalCalculator.Session.Evaluation

/-!
The scales along the evaluation of arithmetic.

* `productOf_eq`, `quotientOf_eq`: a product or quotient does not break the program off, if the
  extents of its operands together fit in 64 bits.
* `IsTame`: a text that calls no function but exponentials, square roots and absolute values.
  `operandCount`: a bound on the number of its operands.
* `Outcome.StaysWithin`: what `StaysWithin` says, of an evaluation of bounded depth.
* `evaluateWithin_staysWithin`: **the value of a tame text** is at most as long as all its operands
  together, and no scale on the way to it leaves 64 bits, if that length fits in them.
-/

namespace DecimalCalculator

open Decimal

/-! ### Products and quotients -/

section Operations

variable {x y : Decimal}

/-- A scale within 64 bits passes the check. -/
lemma checkScale_eq {f : Failure} {scale : ℤ} (h : |scale| ≤ 2 ^ 63 - 1) :
    checkScale f scale = .ok () := by
  rw [checkScale, if_pos (isInt64_of_abs_le h)]

/-- **The product** of two values that fit together. -/
theorem productOf_eq (h : x.extent + y.extent ≤ 2 ^ 63 - 1) : productOf x y = .ok (x * y) := by
  have hx := abs_scale_le x
  have hy := abs_scale_le y
  have hexact := abs_add_le x.scale y.scale
  have hrounded := abs_scale_le (x * y)
  have hproduct := extent_mul_le x y
  rw [productOf, checkScale_eq (by omega), checkScale_eq (by omega)]
  rfl

/-- **The quotient** of two values that fit together. -/
theorem quotientOf_eq (hy : y.toRat ≠ 0) (h : x.extent + y.extent ≤ 2 ^ 63 - 1) :
    quotientOf x y = .ok (x / y) := by
  have hx := abs_scale_le x
  have hy' := abs_scale_le y
  have hexact := abs_sub x.scale y.scale
  have htruncated := abs_scale_truncatedQuotient_le x y
  have hrounded := abs_scale_le (x / y)
  have hquotient := extent_div_le x hy
  rw [quotientOf]
  split
  · rfl
  · rw [checkScale_eq (by omega), checkScale_eq (by omega), checkScale_eq (by omega)]
    rfl

end Operations

/-! ### Outcomes -/

namespace Outcome

/-- An evaluation stays within an extent: its value does, or its failure is reported. -/
def StaysWithin (n : ℤ) : Outcome Decimal → Prop
  | value x => x.extent ≤ n
  | failed f => f.breaksOff = false
  | exhausted => True

variable {m n : ℤ}

/-- One evaluation after another. -/
lemma StaysWithin.bind {o : Outcome Decimal} {next : Decimal → Outcome Decimal}
    (h : o.StaysWithin m) (hnext : ∀ x, x.extent ≤ m → (next x).StaysWithin n) :
    (o >>= next).StaysWithin n := by
  cases o with
  | value x => exact hnext x h
  | failed f => exact h
  | exhausted => exact trivial

/-- A computation that does not nest. -/
lemma staysWithin_ofExcept {r : Except Failure Decimal} :
    (ofExcept r).StaysWithin n ↔ DecimalCalculator.StaysWithin n r := by
  cases r <;> exact Iff.rfl

/-- A larger extent is kept too. -/
lemma StaysWithin.mono {o : Outcome Decimal} (h : o.StaysWithin m) (hle : m ≤ n) :
    o.StaysWithin n := by
  cases o with
  | value x => exact le_trans h hle
  | failed f => exact h
  | exhausted => exact trivial

end Outcome

/-! ### Operators -/

section Operators

variable {evaluate : Evaluator} {place : Place} {left right : Text} {m n : ℤ}

/-- **An operator** adds up the extents of its operands. -/
theorem evaluateOperator_staysWithin (op : Operator) (hm : powerExtent ≤ m) (hn : powerExtent ≤ n)
    (hfit : m + n ≤ 2 ^ 63 - 1) (hleft : (evaluate (.left :: place) left).StaysWithin m)
    (hright : (evaluate (.right :: place) right).StaysWithin n) :
    (evaluateOperator evaluate place op left right).StaysWithin (m + n) := by
  have hpower : 0 < powerExtent := by decide
  -- sums, differences and remainders are at most one digit longer than their operands
  have longer : ∀ {x y z : Decimal}, x.extent ≤ m → y.extent ≤ n →
      z.extent ≤ max x.extent y.extent + 1 → z.extent ≤ m + n := by
    intro x y z hx hy hz
    omega
  cases op with
  | plus =>
    exact hleft.bind fun x hx => hright.bind fun y hy => longer hx hy (extent_add_le x y)
  | minus =>
    exact hleft.bind fun x hx => hright.bind fun y hy => longer hx hy (extent_sub_le x y)
  | times =>
    refine hleft.bind fun x hx => hright.bind fun y hy => ?_
    rw [productOf_eq (by omega)]
    have hproduct := extent_mul_le x y
    change (x * y).extent ≤ m + n
    omega
  | divide =>
    refine hright.bind fun y hy => ?_
    split
    · exact rfl
    · next hzero =>
      refine hleft.bind fun x hx => ?_
      have hne : y.toRat ≠ 0 := by
        rw [← isZero_eq_false_iff]
        simpa using hzero
      rw [quotientOf_eq hne (by omega)]
      have hquotient := extent_div_le x hne
      change (x / y).extent ≤ m + n
      omega
  | power =>
    refine hleft.bind fun x hx => hright.bind fun y hy => ?_
    exact Outcome.staysWithin_ofExcept.mpr ((raise_staysWithin x y).mono (by omega))
  | modulo =>
    refine hright.bind fun y hy => ?_
    split
    · exact rfl
    · refine hleft.bind fun x hx => ?_
      cases hrest : x.remainder? y with
      | none => exact rfl
      | some z => exact longer hx hy (extent_remainder_le hrest)

/-- Two parts around an operator, of which the left one may be missing. -/
lemma evaluateParts_staysWithin (op : Operator) (hm : powerExtent ≤ m) (hn : powerExtent ≤ n)
    (hfit : m + n ≤ 2 ^ 63 - 1) (hleft : ∀ b, (evaluate (b :: place) left).StaysWithin m)
    (hright : ∀ b, (evaluate (b :: place) right).StaysWithin n) :
    (evaluateParts evaluate place op left right).StaysWithin (m + n) := by
  unfold evaluateParts
  split
  · exact rfl
  · split
    · cases op with
      | minus =>
        refine (hright .argument).bind fun x hx => ?_
        have hpower : 0 < powerExtent := by decide
        have hneg := extent_neg x
        change (-x).extent ≤ m + n
        omega
      | plus | times | divide | power | modulo => exact rfl
    · exact evaluateOperator_staysWithin op hm hn hfit (hleft _) (hright _)

end Operators

/-! ### Literals and registers -/

/-- The digits of a text spell a number with no more digits. -/
lemma spelledNumber_lt {t : Text} (h : AllDigits t) : spelledNumber t < 10 ^ t.length := by
  have hdigit : ∀ d ∈ t.reverse.map digitOf, d < 10 := by
    intro d hd
    obtain ⟨c, hc, rfl⟩ := List.mem_map.mp hd
    have hrange := (isDigit_iff c).mp (h c (List.mem_reverse.mp hc))
    have hzero : '0'.toNat = 48 := by decide
    rw [digitOf, hzero]
    omega
  have hlt := Nat.ofDigits_lt_base_pow_length (by norm_num) hdigit
  rwa [List.length_map, List.length_reverse] at hlt

/-- **A literal** is as long as its text, beyond the range of its scale. -/
theorem extent_le_of_ofText? {t : Text} {x : Decimal} (h : ofText? t = some x) :
    x.extent ≤ powerExtent + t.length := by
  obtain ⟨p, hgrammar, hrange, rfl⟩ := exists_spelling h
  rw [ofText?_of_grammatical hgrammar hrange] at h
  obtain rfl := Option.some.inj h
  have hlimit : |p.decimal.scale| ≤ 2 ^ 31 - 1 := hrange.limit
  have hdigits : AllDigits p.digits := by
    intro c hc
    rcases List.mem_append.mp hc with hc | hc
    · exact hgrammar.whole c hc
    · exact hgrammar.places c hc
  have hlength : p.digits.length ≤ p.text.length := by
    have hnumber : p.digits.length ≤ p.number.length := by
      rw [Spelling.digits, Spelling.places, Spelling.number]
      cases p.fraction <;> simp
    rw [Spelling.text, List.length_append, List.length_append]
    omega
  have hpos : 0 < p.digits.length := List.length_pos_iff.mpr hgrammar.digits_ne_nil
  have hprecision : p.decimal.precision ≤ p.digits.length := by
    have hsign : (signFactor p.sign).natAbs = 1 := by
      rw [signFactor]
      split <;> rfl
    have hmantissa : p.decimal.mantissa.natAbs = spelledNumber p.digits := by
      change (signFactor p.sign * (spelledNumber p.digits : ℤ)).natAbs = _
      rw [Int.natAbs_mul, hsign, one_mul, Int.natAbs_natCast]
    rw [precision, digitCount_le_iff hpos, hmantissa]
    exact spelledNumber_lt hdigits
  have hfirst := neg_scale_le_magnitude p.decimal
  have hmagnitude : p.decimal.magnitude = p.decimal.precision - 1 - p.decimal.scale := rfl
  rw [powerExtent]
  rw [abs_le] at hlimit
  refine extent_le ?_ ?_ <;> rw [abs_le] <;> omega

section Names

variable {s : Session} {b : ℤ} (hanswer : s.answer.extent ≤ b) (hmemory : s.memory.extent ≤ b)

include hanswer hmemory

/-- **Registers, constants and literals** stay within a bound that the registers and all literals of
the length do. -/
lemma evaluateName_staysWithin {lowered : Text} (hlength : powerExtent + lowered.length ≤ b) :
    StaysWithin b (evaluateName s lowered) := by
  have hconstants : Elementary.e.extent ≤ powerExtent ∧ Elementary.pi.extent ≤ powerExtent := by
    decide
  have hnonneg : (0 : ℤ) ≤ lowered.length := Int.natCast_nonneg _
  unfold evaluateName
  split
  · exact hanswer
  · exact hmemory
  · exact hconstants.1.trans (by omega)
  · exact hconstants.2.trans (by omega)
  · split
    · exact hconstants.2.trans (by omega)
    · split
      · next x hx => exact (extent_le_of_ofText? hx).trans hlength
      · exact rfl

end Names

/-! ### Tame texts -/

/-- The functions of one argument that stay within the extent of their argument, or within that of
powers. -/
def tameFunctions : List Function := [.exp, .sqrt, .abs]

/-- A text in which no call begins, in small letters, but those of tame functions. -/
def IsTame (t : Text) : Prop :=
  ∀ entry ∈ operations, entry.1 <:+: normalizeCase t → ∃ f ∈ tameFunctions, entry.2 = .unary f

instance (t : Text) : Decidable (IsTame t) := by
  unfold IsTame
  infer_instance

/-- The signs of the operators. -/
def isOperatorSign (c : Char) : Bool := Operator.loosestFirst.any fun op => op.sign = c

/-- One more than the number of signs of operators, those of exponents included. -/
def operandCount (t : Text) : ℕ := 1 + (normalizeCase t).countP isOperatorSign

/-- Every text counts as one operand at least. -/
lemma operandCount_pos (t : Text) : 0 < operandCount t := by
  rw [operandCount]
  omega

section Tame

variable {t u : Text}

/-- A piece of a text, in small letters, has no more operands. -/
lemma operandCount_le_of_isInfix (h : normalizeCase u <:+: normalizeCase t) :
    operandCount u ≤ operandCount t :=
  Nat.add_le_add_left h.sublist.countP_le 1

section Bounds

variable {b : ℤ}

/-- A bound on the literals of some length is one on powers. -/
lemma powerExtent_le {k : ℕ} (h : powerExtent + k ≤ b) : powerExtent ≤ b ∧ 0 ≤ b := by
  have hpower : 0 ≤ powerExtent := by decide
  omega

/-- A bound on one operand is one on all of them together. -/
lemma le_operandCount_mul (hb : 0 ≤ b) (t : Text) : b ≤ operandCount t * b :=
  le_mul_of_one_le_left hb (by exact_mod_cast operandCount_pos t)

/-- The operands of a piece of a text come to no more than all of them. -/
lemma operandCount_mul_le (hb : 0 ≤ b) (h : normalizeCase u <:+: normalizeCase t) :
    (operandCount u : ℤ) * b ≤ operandCount t * b :=
  mul_le_mul_of_nonneg_right (by exact_mod_cast operandCount_le_of_isInfix h) hb

end Bounds

/-- Two texts around an operator. -/
lemma operandCount_append_sign (left right : Text) (op : Operator) :
    operandCount (left ++ op.sign :: right) = operandCount left + operandCount right := by
  have hsign : normalizeCase [op.sign] = [op.sign] := by
    cases op <;> decide
  have hcount : [op.sign].countP isOperatorSign = 1 := by
    cases op <;> decide
  have hsplit : left ++ op.sign :: right = left ++ ([op.sign] ++ right) := rfl
  rw [operandCount, operandCount, operandCount, hsplit, normalizeCase_append, normalizeCase_append,
    hsign, List.countP_append, List.countP_append, hcount]
  omega

/-- A piece of a tame text, in small letters, is tame. -/
lemma IsTame.of_isInfix (h : IsTame t) (hu : normalizeCase u <:+: normalizeCase t) : IsTame u :=
  fun entry hentry hoccurs => h entry hentry (hoccurs.trans hu)

/-- A tame text calls tame functions only. -/
lemma IsTame.call {operation : Operation} {rest : Text} (h : IsTame t)
    (hcall : call? (normalizeCase t) = some (operation, rest)) :
    ∃ f ∈ tameFunctions, operation = .unary f := by
  obtain ⟨spelling, hlisted, happend⟩ := append_of_call? hcall
  exact h _ hlisted (happend ▸ (List.prefix_append spelling rest).isInfix)

/-- What a call passes to its function begins with the bracket that ends its spelling. -/
lemma argument_isInfix {operation : Operation} {rest : Text}
    (hcall : call? (normalizeCase t) = some (operation, rest)) :
    normalizeCase ('(' :: rest) <:+: normalizeCase t := by
  obtain ⟨spelling, hlisted, happend⟩ := append_of_call? hcall
  obtain ⟨hlast, -, -⟩ := mem_operations hlisted
  obtain ⟨name, rfl⟩ := List.getLast?_eq_some_iff.mp hlast
  have hsuffix : ('(' :: rest) <:+: normalizeCase t := by
    rw [happend]
    exact ⟨name, [], by simp⟩
  have hinfix := normalizeCase_isInfix hsuffix
  rwa [normalizeCase_idem] at hinfix

/-- A tame function stays within the extent of its argument, or within that of powers. -/
lemma apply_staysWithin {f : Function} (hf : f ∈ tameFunctions) (mode : AngleMode) {x : Decimal}
    {n : ℤ} (hx : x.extent ≤ n) (hn : powerExtent ≤ n) : StaysWithin n (f.apply mode x) := by
  have hmode : f.apply mode x = f.inRadians x := by
    cases mode with
    | radians => rfl
    | degrees =>
      fin_cases hf <;> rfl
  rw [hmode]
  fin_cases hf
  · exact (Elementary.exp_staysWithin x).mono hn
  · change StaysWithin n (Elementary.sqrt x)
    rw [Elementary.sqrt]
    split
    · exact rfl
    · split
      · exact extent_zero_le.trans hn
      · refine .bind (fun _ h => Elementary.ln_reported h) fun l _ => ?_
        exact (Elementary.exp_staysWithin _).mono hn
  · exact hx

end Tame

/-! ### Evaluation -/

section Evaluation

variable {s : Session} {draws : Draws} {b : ℤ} (hanswer : s.answer.extent ≤ b)
  (hmemory : s.memory.extent ≤ b)

include hanswer hmemory

/-- **One step** on a tame text: the parts around an operator add up, and a term is a call of a tame
function, a register, a constant or a literal. -/
lemma evaluateStep_staysWithin {evaluate : Evaluator} {place : Place} {t : Text} (htame : IsTame t)
    (hlength : powerExtent + (normalizeCase t).length ≤ b)
    (hfit : operandCount t * b ≤ 2 ^ 63 - 1)
    (hparts : ∀ u c, normalizeCase u <:+: normalizeCase t →
      (evaluate (c :: place) u).StaysWithin (operandCount u * b)) :
    (evaluateStep s draws evaluate place t).StaysWithin (operandCount t * b) := by
  obtain ⟨hpower, hb⟩ := powerExtent_le hlength
  have hinner : normalizeCase (stripWrapping t) <:+: normalizeCase t :=
    normalizeCase_isInfix (stripWrapping_isInfix t)
  have least := le_operandCount_mul hb
  have larger : (operandCount (stripWrapping t) : ℤ) * b ≤ operandCount t * b :=
    operandCount_mul_le hb hinner
  have hlength' : powerExtent + (normalizeCase (stripWrapping t)).length ≤ b := by
    have := hinner.length_le
    omega
  cases stepCases t with
  | incomplete hstep | unbalanced _ hstep =>
    rw [hstep]
    exact rfl
  | divided op left right _ hdivide hstep =>
    have hsplit := (loosest?_sound hdivide).1
    have hleft : left <:+: stripWrapping t := ⟨[], op.sign :: right, hsplit.symm⟩
    have hright : right <:+: stripWrapping t := ⟨left ++ [op.sign], [], by simp [hsplit]⟩
    have hsum := larger
    rw [hsplit, operandCount_append_sign, Nat.cast_add, add_mul] at hsum
    rw [hstep]
    refine (evaluateParts_staysWithin op (hpower.trans (least left))
      (hpower.trans (least right)) (hsum.trans hfit) ?_ ?_).mono hsum
    · exact fun c => hparts left c ((normalizeCase_isInfix hleft).trans hinner)
    · exact fun c => hparts right c ((normalizeCase_isInfix hright).trans hinner)
  | applied f rest _ _ hcall _ hstep =>
    obtain ⟨_, hf, hunary⟩ := (htame.of_isInfix hinner).call hcall
    obtain rfl := Operation.unary.inj hunary
    have hargument := argument_isInfix hcall
    have hless : (operandCount ('(' :: rest) : ℤ) * b ≤ operandCount (stripWrapping t) * b :=
      operandCount_mul_le hb hargument
    rw [hstep]
    refine (hparts _ .argument (hargument.trans hinner)).bind fun x hx => ?_
    refine Outcome.StaysWithin.mono (Outcome.staysWithin_ofExcept.mpr ?_) larger
    exact apply_staysWithin hf s.angleMode (hx.trans hless) (hpower.trans (least _))
  | aggregated a rest _ _ hcall =>
    obtain ⟨f, -, hunary⟩ := (htame.of_isInfix hinner).call hcall
    exact absurd hunary (by simp)
  | drawn rest _ _ hcall =>
    obtain ⟨f, -, hunary⟩ := (htame.of_isInfix hinner).call hcall
    exact absurd hunary (by simp)
  | named _ _ _ hstep =>
    rw [hstep]
    refine Outcome.StaysWithin.mono (Outcome.staysWithin_ofExcept.mpr ?_) larger
    exact (evaluateName_staysWithin hanswer hmemory hlength').mono (least _)

/-- **The value of a tame text** is at most as long as all its operands together, and no scale on the
way to it leaves 64 bits, if that length fits in them. -/
theorem evaluateWithin_staysWithin (depth : ℕ) (place : Place) {t : Text} (htame : IsTame t)
    (hlength : powerExtent + (normalizeCase t).length ≤ b)
    (hfit : operandCount t * b ≤ 2 ^ 63 - 1) :
    (evaluateWithin s draws depth place t).StaysWithin (operandCount t * b) := by
  have hb := (powerExtent_le hlength).2
  induction depth generalizing place t with
  | zero => exact trivial
  | succ depth ih =>
    refine evaluateStep_staysWithin hanswer hmemory htame hlength hfit fun u c hu => ?_
    have hcount : (operandCount u : ℤ) * b ≤ operandCount t * b := operandCount_mul_le hb hu
    have hshorter := hu.length_le
    exact ih (c :: place) (htame.of_isInfix hu) (by omega) (hcount.trans hfit)

/-- **The value of a tame expression** in a session. -/
theorem Session.compute_staysWithin {t : Text} (htame : IsTame t)
    (hlength : powerExtent + (normalizeCase t).length ≤ b)
    (hfit : operandCount t * b ≤ 2 ^ 63 - 1) :
    StaysWithin (operandCount t * b) (s.compute draws t) := by
  have hwithin :
      (evaluateWithin s draws (s.allowedDepth t) [] t).StaysWithin (operandCount t * b) :=
    evaluateWithin_staysWithin hanswer hmemory _ [] htame hlength hfit
  rw [compute]
  cases hvalue : evaluateWithin s draws (s.allowedDepth t) [] t with
  | value x =>
    rw [hvalue] at hwithin
    exact hwithin
  | failed f =>
    rw [hvalue] at hwithin
    exact hwithin
  | exhausted => exact rfl

end Evaluation

end DecimalCalculator
