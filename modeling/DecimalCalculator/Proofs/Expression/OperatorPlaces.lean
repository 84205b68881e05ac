import DecimalCalculator.Proofs.Expression.Scan

/-!
The places at which operators stand, by their index in the text.

* `Operator.StandsAt`: the index of an operator outside all brackets. `Operator.StandsAt.isOutside`,
  `Operator.standsAt_of_isOutside` lead from indices to the parts around them and back.
* `Operator.StandsAt.isExponentSign_take`, `Operator.StandsAt.isExponentSign_drop`: **signs keep
  their meaning** where a text is cut at an operator.
* `Operator.isLeast_of_splitFirst`, `Operator.isGreatest_of_splitLast`: the places at which the
  scans divide a text.
* `Operator.splits_at_places`: **the scans** find the leftmost and the rightmost place, and the
  parts on either side are balanced texts with the same exponents as the whole.
-/

namespace DecimalCalculator

/-! ### Indices -/

section Indices

variable {t a b : Text} {c : Char} {i : ℕ}

/-- A text around one of its characters. -/
lemma take_append_cons_drop (h : t[i]? = some c) : t.take i ++ c :: t.drop (i + 1) = t := by
  obtain ⟨hi, hc⟩ := List.getElem?_eq_some_iff.mp h
  rw [← hc, List.getElem_cons_drop, List.take_append_drop]

/-- What stands at the index of a character. -/
lemma IsOutside.index (h : IsOutside t a c b) :
    t[a.length]? = some c ∧ t.take a.length = a ∧ t.drop (a.length + 1) = b := by
  rw [h.split]
  refine ⟨by simp, List.take_left' rfl, ?_⟩
  rw [← List.drop_drop, List.drop_left, List.drop_one, List.tail_cons]

/-- Of two characters outside all brackets the first one stands in front of the second. -/
lemma IsOutside.in_front {x y : Text} {d : Char} (h : IsOutside t a c b) (h' : IsOutside t x d y)
    (hlt : x.length < a.length) : ∃ y', y = y' ++ c :: b ∧ IsOutside a x d y' := by
  rw [h.split] at h'
  rcases h'.append_cases h.level with hfront | ⟨a', rfl, -⟩
  · exact hfront
  · rw [List.length_append] at hlt
    omega

/-- Of two characters outside all brackets the second one stands behind the first. -/
lemma IsOutside.behind {x y : Text} {d : Char} (h : IsOutside t a c b) (h' : IsOutside t x d y)
    (hlt : a.length < x.length) : ∃ x', x = a ++ c :: x' ∧ IsOutside b x' d y := by
  have hlevel : rise (a ++ [c]) = 0 := by
    rw [rise_append, h.level, rise_cons, turn_of_not_isBracket h.plain]
    rfl
  rw [h.split, List.append_cons] at h'
  rcases h'.append_cases hlevel with ⟨y', -, hfront⟩ | ⟨x', rfl, hbehind⟩
  · have := congrArg List.length hfront.split
    simp only [List.length_append, List.length_cons, List.length_nil] at this
    omega
  · exact ⟨x', by simp, hbehind⟩

/-- **The depth** at an index is the same from either side of a text whose brackets match: as many
are open in front of it as close behind it. -/
lemma rise_take (ht : rise t = 0) (i : ℕ) : rise (t.take i) = -rise (t.drop i) := by
  rw [← List.take_append_drop i t, rise_append] at ht
  omega

end Indices

namespace Operator

variable {op : Operator} {skips : Bool} {t a b : Text} {c : Char} {i j : ℕ}

/-! ### Places -/

/-- Whether the character `c` between `before`, read backward, and `after` is the sign of the
operator. If `skips`, then signs of exponents are passed over. -/
def isFoundAt (op : Operator) (skips : Bool) (before : Text) (c : Char) (after : Text) : Bool :=
  c = op.sign && !(skips && betweenIsExponent before after)

/-- The sign of the operator stands at the index, outside all brackets, and is not passed over. -/
structure StandsAt (op : Operator) (skips : Bool) (t : Text) (i : ℕ) : Prop where
  sign : t[i]? = some op.sign
  level : rise (t.take i) = 0
  notSkipped : (skips && isExponentSign t i) = false

/-- An operator stands between the parts of the text. -/
lemma StandsAt.isOutside (h : op.StandsAt skips t i) :
    IsOutside t (t.take i) op.sign (t.drop (i + 1)) :=
  ⟨(take_append_cons_drop h.sign).symm, op.isBracket_sign, h.level⟩

/-- As many characters stand in front of an operator as its index says. -/
lemma StandsAt.length_take (h : op.StandsAt skips t i) : (t.take i).length = i := by
  rw [List.length_take, min_eq_left (List.getElem?_eq_some_iff.mp h.sign).1.le]

/-- A scan stops at an operator. -/
lemma StandsAt.isFoundAt (h : op.StandsAt skips t i) :
    op.isFoundAt skips (t.take i).reverse op.sign (t.drop (i + 1)) = true := by
  have hskip := h.notSkipped
  rw [isExponentSign] at hskip
  simp [Operator.isFoundAt, hskip]

/-- A scan stops outside brackets only where an operator stands. -/
lemma standsAt_of_isOutside (hout : IsOutside t a c b)
    (hfound : op.isFoundAt skips a.reverse c b = true) : op.StandsAt skips t a.length := by
  obtain ⟨hsign, htake, hdrop⟩ := hout.index
  rw [isFoundAt, Bool.and_eq_true, decide_eq_true_eq, Bool.not_eq_true'] at hfound
  refine ⟨hfound.1 ▸ hsign, by rw [htake, hout.level], ?_⟩
  rw [isExponentSign, htake, hdrop]
  exact hfound.2

/-! ### Cutting -/

/-- No sign of an operator is a numeral or the mark of an exponent. -/
lemma plain_sign (op : Operator) :
    isNumeral op.sign = false ∧ op.sign.isDigit = false ∧ op.sign ≠ 'e' := by
  cases op <;> decide

/-- **In front of an operator** a sign belongs to an exponent whether or not the text is cut. -/
lemma StandsAt.isExponentSign_take (h : op.StandsAt skips t i) (hj : j < i) :
    isExponentSign (t.take i) j = isExponentSign t j := by
  have hafter : t.drop (j + 1) = (t.take i).drop (j + 1) ++ op.sign :: t.drop (i + 1) := by
    conv_lhs => rw [← take_append_cons_drop h.sign]
    rw [List.drop_append_of_le_length (by rw [h.length_take]; omega)]
  have hbefore : (t.take i).take j = t.take j := by
    rw [List.take_take, min_eq_left hj.le]
  rw [isExponentSign, isExponentSign, hafter, hbefore, betweenIsExponent_ahead op.plain_sign.2.1]

/-- **Behind an operator** a sign belongs to an exponent whether or not the text is cut. -/
lemma StandsAt.isExponentSign_drop (h : op.StandsAt skips t i) (j : ℕ) :
    isExponentSign (t.drop (i + 1)) j = isExponentSign t (i + 1 + j) := by
  have hbefore : t.take (i + 1 + j) = t.take i ++ op.sign :: (t.drop (i + 1)).take j := by
    rw [List.take_add, List.take_add_one, h.sign, Option.toList_some, List.append_assoc,
      List.singleton_append]
  have hafter : (t.drop (i + 1)).drop (j + 1) = t.drop (i + 1 + j + 1) := by
    rw [List.drop_drop]
    rfl
  rw [isExponentSign, isExponentSign, hafter, hbefore, List.reverse_append, List.reverse_cons,
    List.append_assoc, List.singleton_append,
    betweenIsExponent_behind op.plain_sign.1 op.plain_sign.2.2]

/-! ### Scanning -/

/-- **A scan from the left** divides a text at the leftmost place of the operator. -/
lemma isLeast_of_splitFirst (h : splitFirst (op.isFoundAt skips) t = some (a, b)) :
    IsLeast {i | op.StandsAt skips t i} a.length ∧
      (a, b) = (t.take a.length, t.drop (a.length + 1)) := by
  obtain ⟨c, hout, hfound, hfirst⟩ := splitFirst_sound h
  obtain ⟨-, htake, hdrop⟩ := hout.index
  refine ⟨⟨standsAt_of_isOutside hout hfound, fun j hj => ?_⟩, by rw [htake, hdrop]⟩
  by_contra hlt
  -- an operator further left would stand where the scan has passed
  obtain ⟨y, hbehind, hfront⟩ := hout.in_front hj.isOutside (by rw [hj.length_take]; omega)
  have hstop := hj.isFoundAt
  rw [hbehind, hfirst _ _ _ hfront] at hstop
  exact absurd hstop (by decide)

/-- **A scan from the right** divides a balanced text at the rightmost place of the operator. -/
lemma isGreatest_of_splitLast (ht : rise t = 0)
    (h : splitLast (op.isFoundAt skips) t = some (a, b)) :
    IsGreatest {i | op.StandsAt skips t i} a.length ∧
      (a, b) = (t.take a.length, t.drop (a.length + 1)) := by
  obtain ⟨c, hout, hfound, hlast⟩ := splitLast_sound ht h
  obtain ⟨-, htake, hdrop⟩ := hout.index
  refine ⟨⟨standsAt_of_isOutside hout hfound, fun j hj => ?_⟩, by rw [htake, hdrop]⟩
  by_contra hlt
  obtain ⟨x, hfront, hbehind⟩ := hout.behind hj.isOutside (by rw [hj.length_take]; omega)
  have hstop := hj.isFoundAt
  have hreverse : (t.take j).reverse = x.reverse ++ c :: a.reverse := by rw [hfront]; simp
  rw [hreverse, hlast _ _ _ hbehind] at hstop
  exact absurd hstop (by decide)

/-- A scan from the left divides a text unless no operator stands in it. -/
lemma splitFirst_eq_none_iff :
    splitFirst (op.isFoundAt skips) t = none ↔ ∀ i, ¬ op.StandsAt skips t i := by
  constructor
  · intro h i hi
    have hstop := hi.isFoundAt
    rw [not_stops_of_splitFirst_eq_none h hi.isOutside] at hstop
    exact absurd hstop (by decide)
  · intro h
    rw [Option.eq_none_iff_forall_ne_some]
    rintro ⟨a, b⟩ hsplit
    exact h a.length (isLeast_of_splitFirst hsplit).1.1

/-- A scan from the right divides a balanced text unless no operator stands in it. -/
lemma splitLast_eq_none_iff (ht : rise t = 0) :
    splitLast (op.isFoundAt skips) t = none ↔ ∀ i, ¬ op.StandsAt skips t i := by
  constructor
  · intro h i hi
    have hstop := hi.isFoundAt
    rw [not_stops_of_splitLast_eq_none ht h hi.isOutside] at hstop
    exact absurd hstop (by decide)
  · intro h
    rw [Option.eq_none_iff_forall_ne_some]
    rintro ⟨a, b⟩ hsplit
    exact h a.length (isGreatest_of_splitLast ht hsplit).1.1

/-- A scan from the left returns the parts around the leftmost place. -/
lemma splitFirst_eq_some_iff {parts : Text × Text} :
    splitFirst (op.isFoundAt skips) t = some parts ↔
      ∃ i, IsLeast {i | op.StandsAt skips t i} i ∧ parts = (t.take i, t.drop (i + 1)) := by
  constructor
  · intro h
    exact ⟨_, isLeast_of_splitFirst h⟩
  · rintro ⟨i, hleast, rfl⟩
    cases hsplit : splitFirst (op.isFoundAt skips) t with
    | none => exact absurd hleast.1 (splitFirst_eq_none_iff.mp hsplit i)
    | some parts =>
      obtain ⟨hleast', hparts⟩ := isLeast_of_splitFirst hsplit
      rw [hleast.unique hleast']
      exact congrArg some hparts

/-- A scan from the right returns the parts around the rightmost place of a balanced text. -/
lemma splitLast_eq_some_iff (ht : rise t = 0) {parts : Text × Text} :
    splitLast (op.isFoundAt skips) t = some parts ↔
      ∃ i, IsGreatest {i | op.StandsAt skips t i} i ∧ parts = (t.take i, t.drop (i + 1)) := by
  constructor
  · intro h
    exact ⟨_, isGreatest_of_splitLast ht h⟩
  · rintro ⟨i, hgreatest, rfl⟩
    cases hsplit : splitLast (op.isFoundAt skips) t with
    | none => exact absurd hgreatest.1 ((splitLast_eq_none_iff ht).mp hsplit i)
    | some parts =>
      obtain ⟨hgreatest', hparts⟩ := isGreatest_of_splitLast ht hsplit
      rw [hgreatest.unique hgreatest']
      exact congrArg some hparts

/-- **Scans find the places of operators**: from the left the first one outside all brackets, from
the right the last one, and nothing only if there is none; the depths that they count agree. If the
text is cut there, the parts are balanced, and the exponents in them are those of the whole. An
expression divides at one of these places. -/
theorem splits_at_places (ht : bracketsBalanced t = true) (op : Operator) (skips : Bool) :
    (∀ i, rise (t.take i) = -rise (t.drop i)) ∧
    (∀ parts, splitFirst (op.isFoundAt skips) t = some parts ↔
      ∃ i, IsLeast {i | op.StandsAt skips t i} i ∧ parts = (t.take i, t.drop (i + 1))) ∧
    (∀ parts, splitLast (op.isFoundAt skips) t = some parts ↔
      ∃ i, IsGreatest {i | op.StandsAt skips t i} i ∧ parts = (t.take i, t.drop (i + 1))) ∧
    (splitFirst (op.isFoundAt skips) t = none ↔ ∀ i, ¬ op.StandsAt skips t i) ∧
    (splitLast (op.isFoundAt skips) t = none ↔ ∀ i, ¬ op.StandsAt skips t i) ∧
    (∀ i, op.StandsAt skips t i →
      bracketsBalanced (t.take i) = true ∧ bracketsBalanced (t.drop (i + 1)) = true ∧
        (∀ j < i, isExponentSign (t.take i) j = isExponentSign t j) ∧
        ∀ j, isExponentSign (t.drop (i + 1)) j = isExponentSign t (i + 1 + j)) ∧
    op.split? t = if op.groupsRight then splitFirst (op.isFoundAt op.mayBeExponentSign) t
      else splitLast (op.isFoundAt op.mayBeExponentSign) t := by
  have hrise := rise_of_balanced ht
  refine ⟨rise_take hrise, fun _ => splitFirst_eq_some_iff, fun _ => splitLast_eq_some_iff hrise,
    splitFirst_eq_none_iff, splitLast_eq_none_iff hrise, fun i hi => ?_, rfl⟩
  obtain ⟨hleft, hright⟩ := hi.isOutside.balanced ht
  exact ⟨hleft, hright, fun j hj => hi.isExponentSign_take hj, hi.isExponentSign_drop⟩

/-- The first and the last difference outside brackets; the sign between them is that of an
exponent. -/
theorem splits_at_places_minus :
    bracketsBalanced (text "(1-2)-3e-4-5") = true ∧
      (∃ i, IsLeast {i | minus.StandsAt true (text "(1-2)-3e-4-5") i} i ∧
        (text "(1-2)", text "3e-4-5") =
          ((text "(1-2)-3e-4-5").take i, (text "(1-2)-3e-4-5").drop (i + 1))) ∧
      ∃ i, IsGreatest {i | minus.StandsAt true (text "(1-2)-3e-4-5") i} i ∧
        (text "(1-2)-3e-4", text "5") =
          ((text "(1-2)-3e-4-5").take i, (text "(1-2)-3e-4-5").drop (i + 1)) := by
  have hbalanced : bracketsBalanced (text "(1-2)-3e-4-5") = true := by decide
  obtain ⟨-, hfirst, hlast, -⟩ := splits_at_places hbalanced minus true
  exact ⟨hbalanced, (hfirst _).mp (by decide), (hlast _).mp (by decide)⟩

end Operator

end DecimalCalculator
