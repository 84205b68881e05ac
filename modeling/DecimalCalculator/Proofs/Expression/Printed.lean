import DecimalCalculator.Proofs.Expression.Operation
import DecimalCalculator.Proofs.Expression.Tree

/-!
What the printed text of a tree looks like from outside.

* `Expression.balanced_print`, `Expression.isSmall_of_mem_print`: it is balanced and in small
  letters.
* `Expression.not_endsInMark_print`: **no exponent mark at its end**, behind an operator or a
  bracket, so that a sign after it is an operator.
* `Expression.bindsAtLeast_print`: **no looser operator outside brackets** than the rank of the
  tree.
-/

namespace DecimalCalculator

/-! ### Characters -/

/-- The sign of an operator is no numeral. -/
@[simp] lemma Operator.isNumeral_sign (op : Operator) : isNumeral op.sign = false := by
  cases op <;> decide

/-- The sign of an operator is small. -/
lemma Operator.isSmall_sign (op : Operator) : IsSmall op.sign := by
  cases op <;> decide

/-- A numeral is no bracket, no sign of an operator and small. -/
lemma plain_of_isNumeral {c : Char} (h : isNumeral c = true) :
    isBracket c = false ∧ (∀ op : Operator, c ≠ op.sign) ∧ IsSmall c := by
  simp only [isNumeral, Bool.or_eq_true, decide_eq_true_eq] at h
  refine ⟨?_, fun op => ?_, ?_⟩
  · rcases h with h | rfl
    · exact isBracket_eq_false (ne_of_isDigit h (by decide)) (ne_of_isDigit h (by decide))
    · rfl
  · rcases h with h | rfl
    · exact ne_of_isDigit h (by cases op <;> decide)
    · cases op <;> decide
  · rcases h with h | rfl
    · exact isSmall_of_isDigit h
    · decide

/-! ### Leaves -/

namespace SpelledFunction

variable (f : SpelledFunction)

/-- The characters of a spelling are letters and symbols. -/
lemma nameChar {c : Char} (hc : c ∈ f.spelling) : c.isLower = true ∨ isLeadingSymbol c = true := by
  have := (mem_operations f.listed).2.2 c
  rw [List.dropLast_concat] at this
  exact this hc

/-- A spelling is not empty. -/
lemma spelling_ne_nil : f.spelling ≠ [] := by
  have := (mem_operations f.listed).2.1
  rwa [List.dropLast_concat] at this

/-- A spelling is in small letters. -/
lemma isSmall {c : Char} (hc : c ∈ f.spelling) : IsSmall c :=
  (f.nameChar hc).elim isSmall_of_isLower isSmall_of_isLeadingSymbol

/-- A spelling has no brackets. -/
lemma isBracket_eq_false {c : Char} (hc : c ∈ f.spelling) : isBracket c = false :=
  (plain_of_nameChar (f.nameChar hc)).1

end SpelledFunction

namespace UnsignedLiteral

variable (l : UnsignedLiteral)

/-- The text is a literal. -/
lemma isLiteral : Decimal.isLiteral l.text = true := Decimal.isLiteral_of_ofText? l.spells

/-- What stands in the text: numerals, signs and the mark of an exponent. -/
lemma char {c : Char} (hc : c ∈ l.text) :
    isNumeral c = true ∨ c = '+' ∨ c = '-' ∨ c = 'e' := by
  have hE : c ≠ 'E' := by
    rintro rfl
    exact l.small hc
  simpa [hE] using char_of_isLiteral l.isLiteral hc

/-- The text has no brackets. -/
lemma isBracket_eq_false {c : Char} (hc : c ∈ l.text) : isBracket c = false := by
  rcases l.char hc with h | rfl | rfl | rfl
  · exact (plain_of_isNumeral h).1
  all_goals rfl

/-- The text is in small letters. -/
lemma isSmall {c : Char} (hc : c ∈ l.text) : IsSmall c := by
  rcases l.char hc with h | rfl | rfl | rfl
  · exact (plain_of_isNumeral h).2.2
  all_goals decide

/-- The signs in the text are all exponent signs, wherever it stands. -/
lemma bindsAtLeast (rank : Nat) (before after : Text) : BindsAtLeast rank before after l.text := by
  intro a c b hout op hop
  exfalso
  obtain ⟨rfl, hexp⟩ := (op.isAt_iff _ _ _).mp hop
  have hmem : op.sign ∈ l.text := by simp [hout.split]
  have hsign : op.sign = '+' ∨ op.sign = '-' := by
    rcases l.char hmem with h | h | h | h
    · simp at h
    · exact Or.inl h
    · exact Or.inr h
    · revert h
      cases op <;> decide
  have hmay : op.mayBeExponentSign = true := by
    revert hsign
    cases op <;> decide
  -- without a sign in front, the sign is inside the literal
  have ha : a ≠ [] := by
    rintro rfl
    have := l.unsigned
    rw [hout.split] at this
    rcases hsign with h | h <;> simp [h] at this
  have hliteral := l.isLiteral
  rw [hout.split] at hliteral
  refine hexp ⟨hmay, betweenIsExponent_append ?_ before after⟩
  refine betweenIsExponent_of_isLiteral hliteral ha hsign fun hE => l.small ?_
  simp [hout.split, hE]

end UnsignedLiteral

namespace Name

/-- A name consists of small ASCII letters. -/
lemma isLower (n : Name) {c : Char} (hc : c ∈ n.text) : c.isLower = true := by
  have hall : n.text.all Char.isLower = true := by cases n <;> decide
  exact List.all_eq_true.mp hall c hc

/-- A name is not empty. -/
lemma text_ne_nil (n : Name) : n.text ≠ [] := by
  cases n <;> decide

end Name

/-! ### Places -/

/-- What stands before an operand, read backward: nothing that an `e` could be an exponent of. -/
def NoNumeralBefore (before : Text) : Prop := ∀ c ∈ before.head?, isNumeral c = false

/-- Nothing stands before the whole. -/
lemma noNumeralBefore_nil : NoNumeralBefore [] := by
  simp [NoNumeralBefore]

/-- An operator stands before an operand. -/
lemma noNumeralBefore_sign (op : Operator) (before : Text) :
    NoNumeralBefore (op.sign :: before) := by
  simp [NoNumeralBefore]

/-- A bracket stands at the end of a wrapped text. -/
lemma not_endsInMark_wrap (t before : Text) : ¬ EndsInMark ((wrap t).reverse ++ before) := by
  intro h
  have := h.head_eq
  simp [wrap] at this

namespace Expression

/-! ### Printed texts -/

/-- What holds of a printed text with and without brackets holds of it in every place. -/
lemma inPlace_of {P : Text → Prop} {e : Expression} {n : Nat} (hwrap : P (wrap e.print))
    (hprint : n ≤ e.rank → P e.print) : P (e.inPlace n e.print) := by
  rw [inPlace]
  split
  · exact hwrap
  · next h => exact hprint (not_lt.mp h)

/-- The brackets of a printed text are balanced. -/
lemma balanced_print (e : Expression) : bracketsBalanced e.print = true := by
  induction e with
  | literal l => exact bracketsBalanced_of_noBracket fun c hc => l.isBracket_eq_false hc
  | name n =>
    exact bracketsBalanced_of_noBracket fun c hc => (plain_of_nameChar (Or.inl (n.isLower hc))).1
  | call f x ih =>
    exact bracketsBalanced_append
      (bracketsBalanced_of_noBracket fun c hc => f.isBracket_eq_false hc) (bracketsBalanced_wrap ih)
  | negate x ih =>
    have hx := inPlace_of (P := fun t => bracketsBalanced t = true)
      (n := Operator.minus.rightRank) (bracketsBalanced_wrap ih) fun _ => ih
    exact bracketsBalanced_append (u := ['-']) rfl hx
  | binary op x y ihx ihy =>
    have hx := inPlace_of (P := fun t => bracketsBalanced t = true) (n := op.leftRank)
      (bracketsBalanced_wrap ihx) fun _ => ihx
    have hy := inPlace_of (P := fun t => bracketsBalanced t = true) (n := op.rightRank)
      (bracketsBalanced_wrap ihy) fun _ => ihy
    have hsign : bracketsBalanced [op.sign] = true :=
      bracketsBalanced_of_noBracket fun c hc => by
        rw [List.mem_singleton.mp hc, op.isBracket_sign]
    exact bracketsBalanced_append hx (bracketsBalanced_append (u := [op.sign]) hsign hy)
  | grouped x ih => exact bracketsBalanced_wrap ih

/-- The brackets of an operand are balanced. -/
lemma balanced_inPlace (n : Nat) (e : Expression) :
    bracketsBalanced (e.inPlace n e.print) = true :=
  inPlace_of (P := fun t => bracketsBalanced t = true) (bracketsBalanced_wrap e.balanced_print)
    fun _ => e.balanced_print

/-- The characters of a wrapped text are brackets and those of the text. -/
lemma mem_wrap {c : Char} {t : Text} (h : c ∈ wrap t) : c = '(' ∨ c = ')' ∨ c ∈ t := by
  simp only [wrap, List.mem_cons, List.mem_append, List.not_mem_nil, or_false] at h
  tauto

/-- Every character of a printed text is small. -/
lemma isSmall_of_mem_print (e : Expression) {c : Char} (hc : c ∈ e.print) : IsSmall c := by
  have hwrap : ∀ t : Text, (c ∈ t → IsSmall c) → c ∈ wrap t → IsSmall c := by
    intro t ht hmem
    rcases mem_wrap hmem with rfl | rfl | h
    · decide
    · decide
    · exact ht h
  induction e with
  | literal l => exact l.isSmall hc
  | name n => exact isSmall_of_isLower (n.isLower hc)
  | call f x ih =>
    rcases List.mem_append.mp hc with hc | hc
    · exact f.isSmall hc
    · exact hwrap _ ih hc
  | negate x ih =>
    rcases List.mem_cons.mp hc with rfl | hc
    · decide
    · exact inPlace_of (P := fun t => c ∈ t → IsSmall c) (hwrap _ ih) (fun _ => ih) hc
  | binary op x y ihx ihy =>
    rcases List.mem_append.mp hc with hc | hc
    · exact inPlace_of (P := fun t => c ∈ t → IsSmall c) (hwrap _ ihx) (fun _ => ihx) hc
    · rcases List.mem_cons.mp hc with rfl | hc
      · exact op.isSmall_sign
      · exact inPlace_of (P := fun t => c ∈ t → IsSmall c) (hwrap _ ihy) (fun _ => ihy) hc
  | grouped x ih => exact hwrap _ ih hc

/-- A printed text has no capital mark of an exponent. -/
lemma capital_not_mem_print (e : Expression) : 'E' ∉ e.print := fun h =>
  absurd (e.isSmall_of_mem_print h) (by decide)

/-- A printed text is not empty. -/
lemma print_ne_nil (e : Expression) : e.print ≠ [] := by
  cases e with
  | literal l => exact ne_nil_of_isLiteral l.isLiteral
  | name n => exact n.text_ne_nil
  | _ => simp [print, wrap]

/-- An operand is not empty. -/
lemma inPlace_ne_nil (n : Nat) (e : Expression) : e.inPlace n e.print ≠ [] :=
  inPlace_of (P := fun t => t ≠ []) (by simp [wrap]) fun _ => e.print_ne_nil

/-- **No mark at the end**: a sign after a printed text is no exponent sign, unless the text itself
stands behind a numeral. -/
theorem not_endsInMark_print (e : Expression) {before : Text} (hbefore : NoNumeralBefore before) :
    ¬ EndsInMark (e.print.reverse ++ before) := by
  induction e generalizing before with
  | literal l =>
    obtain ⟨c, rest, hrev, hc⟩ := last_of_isLiteral l.isLiteral
    intro h
    have := h.head_eq
    rw [print, hrev] at this
    simp only [List.cons_append, List.head?_cons, Option.some.injEq] at this
    subst this
    exact absurd hc (by decide)
  | name n =>
    intro h
    cases n with
    | e =>
      -- the constant could only be taken for a mark behind a numeral
      cases h with
      | digit hd =>
        have := hbefore _ rfl
        simp [isNumeral, hd] at this
      | point hd => exact absurd (hbefore _ rfl) (by decide)
    | _ =>
      have := h.head_eq
      simp [print, Name.text] at this
  | call f x ih =>
    rw [print, List.reverse_append, List.append_assoc]
    exact not_endsInMark_wrap _ _
  | negate x ih =>
    have hx := inPlace_of (P := fun t => ¬ EndsInMark (t.reverse ++ '-' :: before))
      (n := Operator.minus.rightRank) (not_endsInMark_wrap _ _) fun _ =>
        ih (noNumeralBefore_sign .minus before)
    simpa [print] using hx
  | binary op x y ihx ihy =>
    have hy := inPlace_of (n := op.rightRank)
      (P := fun t => ¬ EndsInMark
        (t.reverse ++ op.sign :: ((x.inPlace op.leftRank x.print).reverse ++ before)))
      (not_endsInMark_wrap _ _) fun _ => ihy (noNumeralBefore_sign op _)
    simpa [print] using hy
  | grouped x ih => exact not_endsInMark_wrap _ _

/-- No mark at the end of an operand. -/
lemma not_endsInMark_inPlace (n : Nat) (e : Expression) {before : Text}
    (hbefore : NoNumeralBefore before) :
    ¬ EndsInMark ((e.inPlace n e.print).reverse ++ before) :=
  inPlace_of (P := fun t => ¬ EndsInMark (t.reverse ++ before)) (not_endsInMark_wrap _ _)
    fun _ => e.not_endsInMark_print hbefore

/-- The operands of an operator bind at least as tightly as it does. -/
lemma rank_le_operandRank (op : Operator) : op.rank ≤ op.leftRank ∧ op.rank ≤ op.rightRank := by
  cases op <;> decide

/-- **Ranks**: outside its brackets a printed text has no operator that binds more loosely than the
tree. -/
theorem bindsAtLeast_print (e : Expression) {before : Text} (after : Text)
    (hbefore : NoNumeralBefore before) : BindsAtLeast e.rank before after e.print := by
  induction e generalizing before after with
  | literal l => exact l.bindsAtLeast _ _ _
  | name n => exact .of_noSign fun c hc => (plain_of_nameChar (Or.inl (n.isLower hc))).2
  | call f x ih =>
    refine .append (rise_eq_zero fun c hc => f.isBracket_eq_false hc) ?_ (.wrap x.balanced_print)
    exact .of_noSign fun c hc => (plain_of_nameChar (f.nameChar hc)).2
  | negate x ih =>
    refine .append (u := ['-']) rfl (.sign .minus) ?_
    refine .mono ?_ (rank_le_operandRank .minus).2
    exact inPlace_of (.wrap x.balanced_print) fun hle =>
      (ih _ (noNumeralBefore_sign .minus before)).mono hle
  | binary op x y ihx ihy =>
    obtain ⟨hleft, hright⟩ := rank_le_operandRank op
    refine .append (rise_of_balanced (x.balanced_inPlace _)) (.mono ?_ hleft) ?_
    · exact inPlace_of (.wrap x.balanced_print) fun hle => (ihx _ hbefore).mono hle
    · refine .append (u := [op.sign]) (by simp [turn_of_not_isBracket]) (.sign op) (.mono ?_ hright)
      exact inPlace_of (.wrap y.balanced_print) fun hle =>
        (ihy _ (noNumeralBefore_sign op _)).mono hle
  | grouped x ih => exact .wrap x.balanced_print

/-- An operand binds as tightly as its place demands. -/
lemma bindsAtLeast_inPlace (n : Nat) (e : Expression) {before : Text} (after : Text)
    (hbefore : NoNumeralBefore before) :
    BindsAtLeast n before after (e.inPlace n e.print) :=
  inPlace_of (.wrap e.balanced_print) fun hle => (e.bindsAtLeast_print after hbefore).mono hle

end Expression

end DecimalCalculator
