import DecimalCalculator.Proofs.Expression.Values

/-!
A numeral with the mark of an exponent behind it, and nothing more, has no value.

* `not_ok_of_endsInMark`: no name or literal ends in a mark.
* `not_hasValue_of_endsInMark`: **no text that ends in a mark, small or capital, has a value.**
* `keepsDivision_of_hasValue`: **a text with a value keeps its division** in small letters.
-/

namespace DecimalCalculator

/-- No name or literal ends in a mark. -/
lemma not_ok_of_endsInMark {s : Session} {t : Text} {x : Decimal} (h : EndsInMark t.reverse) :
    evaluateName s t ≠ .ok x := by
  intro hvalue
  unfold evaluateName at hvalue
  split at hvalue
  · cases h
  · cases h
  · cases h
  · cases h
  · split at hvalue
    · next hpi =>
      subst hpi
      cases h
    · split at hvalue
      · next y hy =>
        obtain ⟨c, rest, hrev, hc⟩ := last_of_isLiteral (Decimal.isLiteral_of_ofText? hy)
        have := h.head_eq
        rw [hrev, List.head?_cons, Option.some.injEq] at this
        subst this
        exact absurd hc (by decide)
      · exact absurd hvalue (by simp)

/-! ### Bare marks -/

section BareMark

variable {s : Session} {draws : Draws} {t : Text}

/-- The argument of a call ends in a mark if the call does. -/
lemma endsInMark_argument {operation : Operation} {rest : Text}
    (hcall : call? (normalizeCase t) = some (operation, rest)) (hrest : rest ≠ [])
    (h : EndsInMark (normalizeCase t).reverse) :
    EndsInMark (normalizeCase ('(' :: rest)).reverse := by
  obtain ⟨spelling, hmem, happend⟩ := append_of_call? hcall
  have hsmall : normalizeCase rest = rest :=
    normalizeCase_eq_self_of_append (w := []) (by rw [List.append_nil]; exact happend)
  have hopen : IsSmall '(' := by decide
  have hspelling : spelling.dropLast ++ ['('] = spelling :=
    List.dropLast_append_getLast? _ (mem_operations hmem).1
  have hmark : EndsInMark rest.reverse := by
    refine EndsInMark.of_append (c := '(') (v := spelling.dropLast.reverse) ?_
      (by simpa using hrest)
      (by decide)
    rw [happend, ← hspelling] at h
    simpa using h
  rw [normalizeCase_cons_of_isSmall hopen, hsmall, List.reverse_cons]
  exact hmark.append _

/-- No value of an aggregate ends in a mark: its last character is its closing bracket. -/
lemma CallsAggregate.not_endsInMark {args : Arguments} (h : CallsAggregate t args)
    (hbal : bracketsBalanced (stripWrapping t) = true)
    (hupper : bracketsBalanced args.upper = true) :
    ¬ EndsInMark (normalizeCase (stripWrapping t)).reverse := by
  obtain ⟨a, rest, hcall, hargs⟩ := h
  obtain ⟨function, -, hrest⟩ := Arguments.append_of_balanced hcall hargs hbal hupper
  obtain ⟨spelling, -, happend⟩ := append_of_call? hcall
  intro hmark
  have := hmark.head_eq
  rw [happend, hrest] at this
  simp at this

/-- **Bare marks**: a text that ends in the mark of an exponent, in small letters, has no value. -/
theorem not_hasValue_of_endsInMark (depth : Nat) (h : EndsInMark (normalizeCase t).reverse) :
    ¬ HasValue (evaluateWithin s draws depth) t := by
  induction depth generalizing t with
  | zero => exact not_hasValue_zero
  | succ depth ih =>
    intro hvalue
    obtain ⟨hbal, hrests⟩ := restsOn_of_hasValue hvalue
    -- behind a mark there is no closing bracket, so that nothing is stripped
    have hstrip : stripWrapping t = t := by
      refine stripWrapping_of_unwrap?_eq_none (Option.eq_none_iff_forall_ne_some.mpr fun u hu => ?_)
      have := h.head_eq
      rw [unwrap?_eq_some_iff.mp hu, normalizeCase_wrap] at this
      simp [wrap] at this
    -- the right part ends in the mark as well
    have hparts : ∀ {op : Operator} {left right : Text}, division t = some (op, left, right) →
        right ≠ [] → EndsInMark (normalizeCase right).reverse := by
      intro op left right hdivide hne
      have hsplit := (loosest?_sound hdivide).1
      have hsign : IsSmall op.sign := isSmall_of_isCaseless op.isCaseless_sign
      rw [hstrip] at hsplit
      rw [hsplit, normalizeCase_append, normalizeCase_cons_of_isSmall hsign] at h
      refine EndsInMark.of_append (c := op.sign) (v := (normalizeCase left).reverse)
        (by simpa using h)
        (by simpa using hne) ?_
      cases op <;> decide
    cases hrests with
    | opposite hdivide hne hright => exact ih (hparts hdivide hne) hright
    | operands hdivide hne _ hright => exact ih (hparts hdivide hne) hright
    | argument _ hcall hne hargument =>
      rw [hstrip] at hcall
      exact ih (endsInMark_argument hcall hne h) hargument
    | aggregate x _ hcalls _ hupper _ =>
      refine hcalls.not_endsInMark (bracketsBalanced_stripWrapping hbal)
        (bracketsBalanced_of_hasValue hupper) ?_
      rwa [hstrip]
    | draw _ hcall =>
      -- a call without a bound ends in a bracket
      rw [hstrip] at hcall
      obtain ⟨spelling, -, happend⟩ := append_of_call? hcall
      have := h.head_eq
      rw [happend] at this
      simp at this
    | name _ hname =>
      rw [hstrip] at hname
      exact not_ok_of_endsInMark h hname

/-- **A text with a value keeps its division** in small letters: where a sign would become that of
an exponent, the part before it ends in a bare mark. -/
theorem keepsDivision_of_hasValue {depth : Nat} (h : HasValue (evaluateWithin s draws depth) t) :
    KeepsDivision t := by
  induction depth generalizing t with
  | zero => exact absurd h not_hasValue_zero
  | succ depth ih =>
    cases (restsOn_of_hasValue h).2 with
    | opposite hdivide _ hright =>
      refine .parts hdivide ?_ (keepsDivision_of_not_mem (by simp)) (ih hright)
      rw [Operator.isAt_iff]
      refine ⟨rfl, fun hat => ?_⟩
      cases ((betweenIsExponent_iff _ _).mp hat.2).1
    | operands hdivide _ hleft hright =>
      refine .parts hdivide ?_ (ih hleft) (ih hright)
      rw [Operator.isAt_iff]
      refine ⟨rfl, fun hat => ?_⟩
      exact not_hasValue_of_endsInMark depth ((betweenIsExponent_iff _ _).mp hat.2).1 hleft
    | argument hdivide => exact .term hdivide
    | aggregate _ hdivide => exact .term hdivide
    | draw hdivide => exact .term hdivide
    | name hdivide => exact .term hdivide

end BareMark

end DecimalCalculator
