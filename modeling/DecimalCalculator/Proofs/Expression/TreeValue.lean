import DecimalCalculator.Proofs.Expression.Printed
import DecimalCalculator.Proofs.Expression.Sequential
import DecimalCalculator.Session.Evaluation

/-!
The evaluator, which divides texts, gives a printed tree the value of the tree.

* `evaluateWithin_wrap`: brackets around a balanced text make no difference.
* `evaluateStep_of_loosest?`, `evaluateStep_term`, `evaluateStep_literal`: one step on a text that
  divides, on one that does not, and on a literal. `Expression.evaluateStep_name`,
  `Expression.evaluateStep_call`, `Expression.evaluateStep_negate`,
  `Expression.evaluateStep_binary`: one step on each kind of printed tree.
* `Expression.evaluateWithin_print`: **the value of a printed tree**, to every depth above the
  length of the text, and `Expression.compute_print` in a session.
-/

namespace DecimalCalculator

variable (s : Session) (draws : Draws) (evaluate : Evaluator) (place : Place)

/-! ### Steps -/

/-- Nothing but brackets is in a wrapped text if that is so inside. -/
lemma isAllBrackets_wrap (t : Text) : isAllBrackets (wrap t) = isAllBrackets t := by
  simp [isAllBrackets, wrap, isBracket]

/-- One step takes a wrapped balanced text as it takes the text. -/
lemma evaluateStep_wrap {t : Text} (h : bracketsBalanced t = true) :
    evaluateStep s draws evaluate place (wrap t) = evaluateStep s draws evaluate place t := by
  simp only [evaluateStep, isAllBrackets_wrap, stripWrapping_wrap h, bracketsBalanced_wrap h, h]

/-- **Brackets around a balanced text** make no difference to its value. -/
theorem evaluateWithin_wrap {t : Text} (h : bracketsBalanced t = true) (depth : Nat) :
    evaluateWithin s draws depth place (wrap t) = evaluateWithin s draws depth place t := by
  cases depth with
  | zero => rfl
  | succ depth => exact evaluateStep_wrap s draws _ place h

variable {s draws evaluate place} {t a b : Text} {c : Char}

/-- One step on a text that is not stripped and divides at an operator. -/
lemma evaluateStep_of_loosest? {op : Operator} {left right : Text} (hout : IsOutside t a c b)
    (hbal : bracketsBalanced t = true)
    (hdivide : loosest? (Decimal.isLiteral t) t = some (op, left, right)) :
    evaluateStep s draws evaluate place t = evaluateParts evaluate place op left right := by
  simp only [evaluateStep, hout.not_isAllBrackets, hbal, stripWrapping_of_isOutside hout, hdivide]
  rfl

/-- One step on a text that is not stripped and does not divide. -/
lemma evaluateStep_term (hout : IsOutside t a c b) (hbal : bracketsBalanced t = true)
    (hdivide : loosest? (Decimal.isLiteral t) t = none) :
    evaluateStep s draws evaluate place t = evaluateTerm s draws evaluate place t := by
  simp only [evaluateStep, hout.not_isAllBrackets, hbal, stripWrapping_of_isOutside hout, hdivide]
  rfl

/-- Two parts that are not empty are operands. -/
lemma evaluateParts_operands {op : Operator} {left right : Text} (hleft : left ≠ [])
    (hright : right ≠ []) :
    evaluateParts evaluate place op left right = evaluateOperator evaluate place op left right := by
  unfold evaluateParts
  rw [if_neg (by simpa using hright), if_neg (by simpa using hleft)]

/-- A minus sign with a right part only negates. -/
lemma evaluateParts_negate {right : Text} (hright : right ≠ []) :
    evaluateParts evaluate place .minus [] right =
      (evaluate (.argument :: place) right).bind fun x => .value (-x) := by
  unfold evaluateParts
  rw [if_neg (by simpa using hright)]
  rfl

/-- A character at the front of a text stands outside its brackets, if it is none. -/
lemma isOutside_front {rest : Text} (hc : isBracket c = false) :
    IsOutside (c :: rest) [] c rest :=
  ⟨rfl, hc, rfl⟩

/-! ### Literals and names -/

/-- A literal has the value that it spells. -/
lemma evaluateName_literal {x : Decimal} (h : Decimal.ofText? t = some x) :
    evaluateName s t = .ok x := by
  have hliteral := Decimal.isLiteral_of_ofText? h
  unfold evaluateName
  split
  -- none of the names is a literal
  · exact absurd hliteral (by decide)
  · exact absurd hliteral (by decide)
  · exact absurd hliteral (by decide)
  · exact absurd hliteral (by decide)
  · split
    · next hpi =>
      subst hpi
      exact absurd hliteral (by decide)
    · rw [h]

/-- A name has the value that it stands for. -/
lemma evaluateName_name (n : Name) : evaluateName s n.text = .ok (n.value s) := by
  cases n <;> rfl

/-- A literal does not divide at any operator. -/
lemma loosest?_literal (h : Decimal.isLiteral t = true) :
    loosest? (Decimal.isLiteral t) t = none := by
  have hsign : ∀ op : Operator, op.mayBeExponentSign = false → op.sign ∉ t := by
    intro op hop hmem
    have := char_of_isLiteral h hmem
    rw [op.isNumeral_sign] at this
    revert hop this
    cases op <;> decide
  have hrise : rise t = 0 := rise_eq_zero fun c hc => by
    rcases char_of_isLiteral h hc with hn | rfl | rfl | rfl | rfl
    · exact (plain_of_isNumeral hn).1
    all_goals rfl
  refine loosest?_eq_none fun op => ?_
  cases hmay : op.mayBeExponentSign with
  | false =>
    refine Or.inr (op.split?_eq_none hrise fun a c b hout => ?_)
    rw [← Bool.not_eq_true, op.isAt_iff]
    rintro ⟨rfl, -⟩
    exact hsign op hmay (by simp [hout.split])
  | true => exact Or.inl (by simp [h])

/-- **Literals**: a literal in small letters has the value that it spells, also if it has a sign. -/
theorem evaluateStep_literal {x : Decimal} (h : Decimal.ofText? t = some x) (hsmall : 'E' ∉ t) :
    evaluateStep s draws evaluate place t = .value x := by
  have hliteral := Decimal.isLiteral_of_ofText? h
  have hplain : ∀ c ∈ t, isBracket c = false ∧ IsSmall c := by
    intro c hc
    rcases char_of_isLiteral hliteral hc with hn | rfl | rfl | rfl | rfl
    · exact ⟨(plain_of_isNumeral hn).1, (plain_of_isNumeral hn).2.2⟩
    · decide
    · decide
    · decide
    · exact absurd hc hsmall
  obtain ⟨c, rest, rfl⟩ := List.exists_cons_of_ne_nil (ne_nil_of_isLiteral hliteral)
  have hopen : '(' ∉ c :: rest := fun hmem => absurd (hplain _ hmem).1 (by decide)
  rw [evaluateStep_term (isOutside_front (hplain c (by simp)).1)
    (bracketsBalanced_of_noBracket fun c hc => (hplain c hc).1) (loosest?_literal hliteral)]
  rw [evaluateTerm, normalizeCase_eq_self fun c hc => (hplain c hc).2, call?_eq_none hopen]
  simp only [evaluateName_literal h]
  rfl

/-! ### Trees -/

section Trees

variable (s draws) (depth : Nat)

/-- What an operator comes to, once its operands have come to values or failures. -/
lemma evaluateOperator_eq_combine {op : Operator} {left right : Text}
    {x y : Except Failure Decimal} (hleft : evaluate (.left :: place) left = .ofExcept x)
    (hright : evaluate (.right :: place) right = .ofExcept y) :
    evaluateOperator evaluate place op left right = .ofExcept (op.combine x y) := by
  cases op with
  | plus | minus | times | power =>
    simp only [evaluateOperator, hleft, hright]
    cases x with
    | error f => rfl
    | ok x => cases y <;> rfl
  | divide =>
    simp only [evaluateOperator, hleft, hright, Operator.combine]
    cases y with
    | error f => rfl
    | ok y =>
      by_cases hzero : y.isZero = true
      · simp only [Outcome.ofExcept, bind, Outcome.bind, Except.bind, hzero, if_true]
      · simp only [Outcome.ofExcept, bind, Outcome.bind, Except.bind, hzero]
        cases x <;> rfl
  | modulo =>
    simp only [evaluateOperator, hleft, hright, Operator.combine]
    cases y with
    | error f => rfl
    | ok y =>
      by_cases hzero : y.isZero = true
      · simp only [Outcome.ofExcept, bind, Outcome.bind, Except.bind, hzero, if_true]
      · simp only [Outcome.ofExcept, bind, Outcome.bind, Except.bind, hzero]
        cases x with
        | error f => rfl
        | ok x => cases hrest : x.remainder? y <;> simp [hrest, Outcome.ofOption]

namespace Expression

/-- The text of an operand has the value of the printed tree. -/
lemma evaluateWithin_inPlace (n : Nat) (e : Expression) (place : Place) :
    evaluateWithin s draws depth place (e.inPlace n e.print) =
      evaluateWithin s draws depth place e.print :=
  inPlace_of (P := fun t => evaluateWithin s draws depth place t = _)
    (evaluateWithin_wrap s draws place e.balanced_print depth) fun _ => rfl

/-- An operand is at least as long as the printed tree. -/
lemma length_le_inPlace (n : Nat) (e : Expression) :
    e.print.length ≤ (e.inPlace n e.print).length :=
  inPlace_of (P := fun t => e.print.length ≤ t.length) (by simp [wrap]; omega) fun _ => le_rfl

/-- The sign of a printed operator stands outside all brackets. -/
lemma isOutside_binary (op : Operator) (x y : Expression) :
    IsOutside (binary op x y).print (x.inPlace op.leftRank x.print) op.sign
      (y.inPlace op.rightRank y.print) :=
  ⟨rfl, op.isBracket_sign, rise_of_balanced (x.balanced_inPlace _)⟩

/-- The printed operator is the one at which its text can be split: the leftmost one if it groups to
the right, else the rightmost one. -/
lemma split?_binary (op : Operator) (x y : Expression) :
    op.split? (binary op x y).print =
      some (x.inPlace op.leftRank x.print, y.inPlace op.rightRank y.print) := by
  have hmark := x.not_endsInMark_inPlace op.leftRank noNumeralBefore_nil
  rw [List.append_nil] at hmark
  have hstop : op.isAt (x.inPlace op.leftRank x.print).reverse op.sign
      (y.inPlace op.rightRank y.print) = true := by
    rw [op.isAt_iff, betweenIsExponent_iff]
    exact ⟨rfl, fun h => hmark h.2.1⟩
  rw [Operator.split?]
  split
  · next hgroups =>
    have hrank : op.rank < op.leftRank := by
      rw [Operator.leftRank, if_pos hgroups]
      exact Nat.lt_succ_self op.rank
    exact (x.bindsAtLeast_inPlace op.leftRank _ noNumeralBefore_nil).splitFirst_eq_some hrank
      (isOutside_binary op x y) hstop
  · next hgroups =>
    have hrank : op.rank < op.rightRank := by
      rw [Operator.rightRank, if_neg hgroups]
      exact Nat.lt_succ_self op.rank
    exact (y.bindsAtLeast_inPlace op.rightRank [] (noNumeralBefore_sign op _)).splitLast_eq_some
      hrank (rise_of_balanced (binary op x y).balanced_print) (isOutside_binary op x y) hstop

/-- An operator that binds more loosely than the tree does not divide its printed text. -/
lemma split?_eq_none_of_rank {op : Operator} {e : Expression} (h : op.rank < e.rank) :
    op.split? e.print = none :=
  (e.bindsAtLeast_print [] noNumeralBefore_nil).split?_eq_none (rise_of_balanced e.balanced_print) h

/-- A printed operator divides the text around its sign. -/
lemma loosest?_binary (op : Operator) (x y : Expression) :
    loosest? (Decimal.isLiteral (binary op x y).print) (binary op x y).print =
      some (op, x.inPlace op.leftRank x.print, y.inPlace op.rightRank y.print) := by
  refine loosest?_eq_some ?_ (split?_binary op x y) fun op' hrank =>
    split?_eq_none_of_rank hrank
  -- a literal has no sign that is not that of its exponent
  rw [← Bool.not_eq_true, Bool.and_eq_true]
  rintro ⟨hliteral, hmay⟩
  have hsign : op.sign = '+' ∨ op.sign = '-' := by
    revert hmay
    cases op <;> decide
  have hcapital : 'E' ∉ x.inPlace op.leftRank x.print := fun h =>
    (binary op x y).capital_not_mem_print (by simp [print, h])
  have hexponent :=
    betweenIsExponent_of_isLiteral hliteral (x.inPlace_ne_nil op.leftRank) hsign hcapital
  rw [betweenIsExponent_iff] at hexponent
  refine x.not_endsInMark_inPlace op.leftRank noNumeralBefore_nil ?_
  rw [List.append_nil]
  exact hexponent.1

/-- The sign of a printed negation stands outside all brackets. -/
lemma isOutside_negate (x : Expression) :
    IsOutside (negate x).print [] '-' (x.inPlace Operator.minus.rightRank x.print) :=
  ⟨rfl, rfl, rfl⟩

/-- A printed negation that is no literal divides behind its sign. -/
lemma loosest?_negate (x : Expression) (hliteral : Decimal.isLiteral (negate x).print = false) :
    loosest? (Decimal.isLiteral (negate x).print) (negate x).print =
      some (.minus, [], x.inPlace Operator.minus.rightRank x.print) := by
  refine loosest?_eq_some (by rw [hliteral]; rfl) ?_ fun op' hrank =>
    split?_eq_none_of_rank hrank
  exact (x.bindsAtLeast_inPlace Operator.minus.rightRank []
    (noNumeralBefore_sign .minus [])).splitLast_eq_some (by decide)
    (rise_of_balanced (negate x).balanced_print) (isOutside_negate x) rfl

/-- A printed tree without an operator outside brackets does not divide. -/
lemma loosest?_atom {e : Expression} (h : e.rank = 6) :
    loosest? (Decimal.isLiteral e.print) e.print = none := by
  refine loosest?_eq_none fun op => Or.inr (split?_eq_none_of_rank ?_)
  rw [h]
  cases op <;> decide

/-- A negation that prints as a literal prints the sign of a literal, and negates its value. -/
lemma value_negate_literal {x : Expression} {v : Decimal}
    (h : Decimal.ofText? (negate x).print = some v) :
    ∃ y, Decimal.ofText? (x.inPlace Operator.minus.rightRank x.print) = some y ∧ v = -y := by
  have hliteral := Decimal.isLiteral_of_ofText? h
  -- a second sign would have to belong to an exponent
  have hunsigned : ∀ c, c = '+' ∨ c = '-' →
      (x.inPlace Operator.minus.rightRank x.print).head? ≠ some c := by
    intro c hc hhead
    obtain ⟨rest, hrest⟩ := List.head?_eq_some_iff.mp hhead
    rw [print, hrest] at hliteral
    have := betweenIsExponent_of_isLiteral (a := ['-']) hliteral (by simp) hc (by decide)
    rw [betweenIsExponent_iff] at this
    exact absurd this.1.head_eq (by decide)
  rw [print, Decimal.ofText?_neg (hunsigned '-' (Or.inr rfl)) (hunsigned '+' (Or.inl rfl)),
    Option.map_eq_some_iff] at h
  obtain ⟨y, hy, rfl⟩ := h
  exact ⟨y, hy, rfl⟩

/-- One step on a printed name looks up its value. -/
lemma evaluateStep_name (n : Name) :
    evaluateStep s draws evaluate place (name n).print = .ofExcept ((name n).value s) := by
  have hplain : ∀ c ∈ n.text, isBracket c = false := fun c hc =>
    (plain_of_nameChar (Or.inl (n.isLower hc))).1
  obtain ⟨c, rest, hfront⟩ := List.exists_cons_of_ne_nil n.text_ne_nil
  have hout : IsOutside (name n).print [] c rest :=
    ⟨hfront, hplain c (by simp [hfront]), rfl⟩
  have hopen : '(' ∉ n.text := fun hmem => absurd (hplain _ hmem) (by decide)
  rw [evaluateStep_term hout (name n).balanced_print (loosest?_atom rfl), evaluateTerm,
    normalizeCase_eq_self fun c hc => (name n).isSmall_of_mem_print hc]
  simp only [print, call?_eq_none hopen, evaluateName_name, value]

/-- One step on a printed call applies the function to the value of the argument in brackets. -/
lemma evaluateStep_call {f : SpelledFunction} {x : Expression}
    (hargument : evaluate (.argument :: place) (wrap x.print) = .ofExcept (x.value s)) :
    evaluateStep s draws evaluate place (call f x).print = .ofExcept ((call f x).value s) := by
  obtain ⟨c, rest, hfront⟩ := List.exists_cons_of_ne_nil f.spelling_ne_nil
  have hout : IsOutside (call f x).print [] c (rest ++ wrap x.print) :=
    ⟨by simp [print, hfront], f.isBracket_eq_false (by simp [hfront]), rfl⟩
  -- the spelling and its bracket begin the text, and the argument with its bracket is the rest
  have hcall : call? (call f x).print = some (.unary f.function, x.print ++ [')']) := by
    have := call?_eq_some f.listed (x.print ++ [')'])
    rwa [List.append_assoc] at this
  have hlong : ¬ (x.print ++ [')']).length < 2 := by
    have := List.length_pos_of_ne_nil x.print_ne_nil
    rw [List.length_append, List.length_singleton]
    omega
  rw [evaluateStep_term hout (call f x).balanced_print (loosest?_atom rfl), evaluateTerm,
    normalizeCase_eq_self fun c hc => (call f x).isSmall_of_mem_print hc]
  simp only [hcall, if_neg hlong, value]
  rw [show '(' :: (x.print ++ [')']) = wrap x.print from rfl, hargument]
  cases x.value s <;> rfl

/-- One step on a printed negation takes the opposite value of the operand, also if the sign and the
operand together are a literal, which is then read at once. -/
lemma evaluateStep_negate {x : Expression}
    (hoperand : evaluate (.argument :: place) (x.inPlace Operator.minus.rightRank x.print) =
      .ofExcept (x.value s))
    (hread : ∀ y, Decimal.ofText? (x.inPlace Operator.minus.rightRank x.print) = some y →
      x.value s = .ok y) :
    evaluateStep s draws evaluate place (negate x).print = .ofExcept ((negate x).value s) := by
  cases hv : Decimal.ofText? (negate x).print with
  | none =>
    have hliteral : Decimal.isLiteral (negate x).print = false := by
      rw [Decimal.isLiteral, hv]
      rfl
    rw [evaluateStep_of_loosest? (isOutside_negate x) (negate x).balanced_print
      (loosest?_negate x hliteral), evaluateParts_negate (x.inPlace_ne_nil _), hoperand, value]
    cases x.value s <;> rfl
  | some v =>
    obtain ⟨y, hy, rfl⟩ := value_negate_literal hv
    rw [evaluateStep_literal hv (negate x).capital_not_mem_print, value, hread y hy]
    rfl

/-- One step on a printed operator combines the values of the operands. -/
lemma evaluateStep_binary {op : Operator} {x y : Expression}
    (hleft : evaluate (.left :: place) (x.inPlace op.leftRank x.print) = .ofExcept (x.value s))
    (hright : evaluate (.right :: place) (y.inPlace op.rightRank y.print) =
      .ofExcept (y.value s)) :
    evaluateStep s draws evaluate place (binary op x y).print =
      .ofExcept ((binary op x y).value s) := by
  rw [evaluateStep_of_loosest? (isOutside_binary op x y) (binary op x y).balanced_print
    (loosest?_binary op x y), evaluateParts_operands (x.inPlace_ne_nil _) (y.inPlace_ne_nil _)]
  exact evaluateOperator_eq_combine hleft hright

/-- **Values of printed trees**: to a depth above the length of the text, the evaluator gives the
printed tree its value. -/
theorem evaluateWithin_print (e : Expression) (place : Place) (hdepth : e.print.length < depth) :
    evaluateWithin s draws depth place e.print = .ofExcept (e.value s) := by
  induction e generalizing depth place with
  | literal l =>
    obtain ⟨depth, rfl⟩ : ∃ d, depth = d + 1 := ⟨depth - 1, by omega⟩
    exact evaluateStep_literal l.spells l.small
  | name n =>
    obtain ⟨depth, rfl⟩ : ∃ d, depth = d + 1 := ⟨depth - 1, by omega⟩
    exact evaluateStep_name s draws n
  | call f x ih =>
    obtain ⟨depth, rfl⟩ : ∃ d, depth = d + 1 := ⟨depth - 1, by omega⟩
    refine evaluateStep_call s draws ?_
    rw [evaluateWithin_wrap s draws _ x.balanced_print]
    exact ih depth _ (by simp [print, wrap] at hdepth; omega)
  | negate x ih =>
    obtain ⟨depth, rfl⟩ : ∃ d, depth = d + 1 := ⟨depth - 1, by omega⟩
    have hoperand : ∀ (depth : Nat) (place : Place), x.print.length < depth →
        evaluateWithin s draws depth place (x.inPlace Operator.minus.rightRank x.print) =
          .ofExcept (x.value s) := fun depth place h => by
      rw [evaluateWithin_inPlace]
      exact ih depth place h
    have hle := x.length_le_inPlace Operator.minus.rightRank
    have hshort : x.print.length < depth := by
      simp [print] at hdepth
      omega
    refine evaluateStep_negate s draws (hoperand depth _ hshort) fun y hy => ?_
    -- an operand that is a literal is read in one step, and so is the tree
    have hcapital : 'E' ∉ x.inPlace Operator.minus.rightRank x.print := fun h =>
      (negate x).capital_not_mem_print (by simp [print, h])
    have hvalue := hoperand (x.print.length + 1) place (by omega)
    rw [evaluateWithin, evaluateStep_literal hy hcapital] at hvalue
    exact Outcome.ofExcept_eq_value.mp hvalue.symm
  | binary op x y ihx ihy =>
    obtain ⟨depth, rfl⟩ : ∃ d, depth = d + 1 := ⟨depth - 1, by omega⟩
    have hx := x.length_le_inPlace op.leftRank
    have hy := y.length_le_inPlace op.rightRank
    simp only [print, List.length_append, List.length_cons] at hdepth
    refine evaluateStep_binary s draws ?_ ?_
    · rw [evaluateWithin_inPlace]
      exact ihx depth _ (by omega)
    · rw [evaluateWithin_inPlace]
      exact ihy depth _ (by omega)
  | grouped x ih =>
    rw [print, evaluateWithin_wrap s draws place x.balanced_print]
    exact ih depth place (by simp [print, wrap] at hdepth; omega)

/-- **The evaluator computes trees**: a session gives the text of a tree the value of the tree. -/
theorem compute_print (e : Expression) : s.compute draws e.print = e.value s := by
  have hdepth : e.print.length < s.allowedDepth e.print := by
    rw [Session.allowedDepth, normalizeCase_eq_self fun c hc => e.isSmall_of_mem_print hc]
    omega
  rw [Session.compute, e.evaluateWithin_print s draws _ [] hdepth]
  cases e.value s <;> rfl

end Expression

end Trees

end DecimalCalculator
