import DecimalCalculator.Proofs.Text.Brackets
import DecimalCalculator.Proofs.Text.ExponentSign
import DecimalCalculator.Proofs.Text.LowerCase

/-!
What small letters leave as it is: the places of caseless characters, and with them brackets and
the signs of exponents.

* `append_of_normalizeCase`: **a caseless character** stands in a text where it stands in its small
  letters.
* `rise_normalizeCase`, `bracketsBalanced_normalizeCase`, `stripWrapping_normalizeCase`: brackets
  are the same in small letters.
* `betweenIsExponent_normalizeCase`: the sign of an exponent is one in small letters too, by
  `startsWithDigit_normalizeCase` and `EndsInMark.normalizeCase`.
-/

namespace DecimalCalculator

/-! ### Places -/

/-- Only the empty text has no small letters. -/
@[simp] lemma normalizeCase_eq_nil {t : Text} : normalizeCase t = [] ↔ t = [] := by
  cases t with
  | nil => simp
  | cons c t =>
    have hc : lowered c ≠ [] := lowered_ne_nil c
    simp [hc]

/-- A text is empty if it is so in small letters. -/
@[simp] lemma isEmpty_normalizeCase (t : Text) : (normalizeCase t).isEmpty = t.isEmpty := by
  rw [Bool.eq_iff_iff, List.isEmpty_iff, List.isEmpty_iff, normalizeCase_eq_nil]

/-- Small letters of a piece of a text are a piece of its small letters. -/
lemma normalizeCase_isInfix {u t : Text} (h : u <:+: t) : normalizeCase u <:+: normalizeCase t := by
  obtain ⟨a, b, rfl⟩ := h
  exact ⟨normalizeCase a, normalizeCase b, by rw [normalizeCase_append, normalizeCase_append]⟩

/-- A small character is its own small letter at every place. -/
lemma normalizeCase_cons_of_isSmall {c : Char} (h : IsSmall c) (t : Text) :
    normalizeCase (c :: t) = c :: normalizeCase t := by
  rw [normalizeCase_cons, show lowered c = [c] from h]
  rfl

/-- **A caseless character** stands in a text where it stands in its small letters. -/
theorem append_of_normalizeCase {t a b : Text} {c : Char} (hc : isCaseless c = true)
    (h : normalizeCase t = a ++ c :: b) :
    ∃ a' b', t = a' ++ c :: b' ∧ normalizeCase a' = a ∧ normalizeCase b' = b := by
  induction t generalizing a with
  | nil => simp at h
  | cons d t ih =>
    have behind : ∀ r, a = lowered d ++ r → normalizeCase t = r ++ c :: b →
        ∃ a' b', d :: t = a' ++ c :: b' ∧ normalizeCase a' = a ∧ normalizeCase b' = b := by
      rintro r rfl ht
      obtain ⟨a', b', rfl, rfl, hb⟩ := ih ht
      exact ⟨d :: a', b', rfl, rfl, hb⟩
    rw [normalizeCase_cons] at h
    rcases List.append_eq_append_iff.mp h with ⟨r, ha, ht⟩ | ⟨r, hd, ht⟩
    · exact behind r ha ht
    · cases r with
      | nil => exact behind [] (by simpa using hd.symm) (by simpa using ht.symm)
      | cons e r =>
        -- the character is a small letter of `d`, hence `d` itself
        obtain ⟨rfl, ht⟩ := List.cons_eq_cons.mp ht
        have hmem : c ∈ lowered d := by simp [hd]
        obtain rfl := (mem_lowered_iff_of_isCaseless hc).mp hmem
        rw [isSmall_of_isCaseless hc, List.singleton_eq_append_iff] at hd
        obtain ⟨rfl, hr⟩ : a = [] ∧ r = [] := by simpa using hd
        subst hr
        exact ⟨[], t, rfl, rfl, by simpa using ht.symm⟩

/-! ### Brackets -/

/-- A bracket has no case. -/
lemma isCaseless_of_isBracket {c : Char} (h : isBracket c = true) : isCaseless c = true := by
  simp only [isBracket, Bool.or_eq_true, decide_eq_true_eq] at h
  rcases h with rfl | rfl <;> decide

/-- The small letter of what is no bracket holds none. -/
lemma isBracket_of_mem_lowered {c d : Char} (hc : isBracket c = false) (hd : d ∈ lowered c) :
    isBracket d = false := by
  cases hbracket : isBracket d with
  | false => rfl
  | true =>
    obtain rfl := (mem_lowered_iff_of_isCaseless (isCaseless_of_isBracket hbracket)).mp hd
    rw [hc] at hbracket
    exact absurd hbracket (by decide)

/-- A small letter changes the depth as its character does. -/
lemma rise_lowered (c : Char) : rise (lowered c) = turn c := by
  cases hc : isBracket c with
  | true =>
    rw [isSmall_of_isCaseless (isCaseless_of_isBracket hc)]
    simp
  | false =>
    rw [turn_of_not_isBracket hc]
    exact rise_eq_zero fun d hd => isBracket_of_mem_lowered hc hd

/-- A text rises as it does in small letters. -/
@[simp] lemma rise_normalizeCase (t : Text) : rise (normalizeCase t) = rise t := by
  induction t with
  | nil => rfl
  | cons c t ih => rw [normalizeCase_cons, rise_append, rise_lowered, ih, rise_cons]

/-- Text without brackets keeps the depth at which what follows closes. -/
lemma closesFrom_append_of_noBracket {depth : Int} {u v : Text} (hu : ∀ c ∈ u, isBracket c = false)
    (hne : u ≠ []) : ClosesFrom depth (u ++ v) ↔ 0 ≤ depth ∧ ClosesFrom depth v := by
  induction u with
  | nil => exact absurd rfl hne
  | cons c u ih =>
    have hc : turn c = 0 := turn_of_not_isBracket (hu c (by simp))
    rw [List.cons_append, closesFrom_cons, hc, add_zero]
    cases u with
    | nil => rfl
    | cons d u =>
      rw [ih (fun e he => hu e (by simp [he])) (by simp)]
      exact and_congr_right fun hdepth => and_iff_right hdepth

/-- A text closes as it does in small letters. -/
lemma closesFrom_normalizeCase {depth : Int} {t : Text} :
    ClosesFrom depth (normalizeCase t) ↔ ClosesFrom depth t := by
  induction t generalizing depth with
  | nil => rfl
  | cons c t ih =>
    rw [normalizeCase_cons, closesFrom_cons]
    cases hc : isBracket c with
    | true =>
      rw [isSmall_of_isCaseless (isCaseless_of_isBracket hc), List.singleton_append,
        closesFrom_cons, ih]
    | false =>
      rw [closesFrom_append_of_noBracket (fun d hd => isBracket_of_mem_lowered hc hd)
        (lowered_ne_nil c), turn_of_not_isBracket hc, add_zero, ih]

/-- A text is balanced if it is so in small letters. -/
@[simp] theorem bracketsBalanced_normalizeCase (t : Text) :
    bracketsBalanced (normalizeCase t) = bracketsBalanced t := by
  rw [Bool.eq_iff_iff, bracketsBalanced_iff, bracketsBalanced_iff, closesFrom_normalizeCase]

/-- A text holds nothing but brackets if that is so in small letters. -/
@[simp] lemma isAllBrackets_normalizeCase (t : Text) :
    isAllBrackets (normalizeCase t) = isAllBrackets t := by
  induction t with
  | nil => rfl
  | cons c t ih =>
    have hcons : isAllBrackets (c :: t) = (isBracket c && isAllBrackets t) := List.all_cons
    have happend : isAllBrackets (lowered c ++ normalizeCase t) =
        ((lowered c).all isBracket && isAllBrackets (normalizeCase t)) := List.all_append
    rw [normalizeCase_cons, happend, ih, hcons]
    congr 1
    cases hc : isBracket c with
    | true =>
      rw [isSmall_of_isCaseless (isCaseless_of_isBracket hc)]
      simp [hc]
    | false =>
      obtain ⟨d, rest, hd⟩ := List.exists_cons_of_ne_nil (lowered_ne_nil c)
      have : isBracket d = false := isBracket_of_mem_lowered hc (by simp [hd])
      rw [hd, List.all_cons, this, Bool.false_and]

/-- Small letters in brackets are those of the text in brackets. -/
lemma normalizeCase_wrap (t : Text) : normalizeCase (wrap t) = wrap (normalizeCase t) := by
  have hopen : IsSmall '(' := by decide
  have hclose : normalizeCase [')'] = [')'] := by decide
  rw [wrap, normalizeCase_cons_of_isSmall hopen, normalizeCase_append, hclose, wrap]

/-- A text is wrapped if it is so in small letters. -/
lemma unwrap?_normalizeCase (t : Text) :
    unwrap? (normalizeCase t) = (unwrap? t).map normalizeCase := by
  cases hunwrap : unwrap? t with
  | some u =>
    rw [unwrap?_eq_some_iff.mp hunwrap, normalizeCase_wrap]
    exact unwrap?_eq_some_iff.mpr rfl
  | none =>
    rw [Option.map_none, Option.eq_none_iff_forall_ne_some]
    intro v hv
    have hv := unwrap?_eq_some_iff.mp hv
    -- both brackets stand in the text itself
    obtain ⟨a, b, rfl, ha, hb⟩ := append_of_normalizeCase (a := []) (by decide) hv
    obtain ⟨v', rest, rfl, -, hrest⟩ := append_of_normalizeCase (by decide) hb
    rw [normalizeCase_eq_nil] at ha hrest
    subst ha hrest
    rw [List.nil_append, ← wrap, unwrap?_eq_some_iff.mpr rfl] at hunwrap
    exact absurd hunwrap (by simp)

/-- **Stripping** a text strips its small letters. -/
@[simp] theorem stripWrapping_normalizeCase (t : Text) :
    stripWrapping (normalizeCase t) = normalizeCase (stripWrapping t) := by
  -- a bound that suffices for both texts
  obtain ⟨n, hn, hsmall⟩ : ∃ n, t.length ≤ n ∧ (normalizeCase t).length ≤ n :=
    ⟨_, le_max_left .., le_max_right ..⟩
  rw [stripWrapping, stripWrapping, stripWrappingWithin_eq le_rfl hsmall,
    stripWrappingWithin_eq le_rfl hn]
  clear hn hsmall
  induction n generalizing t with
  | zero => rfl
  | succ n ih =>
    rw [stripWrappingWithin, stripWrappingWithin, unwrap?_normalizeCase]
    cases unwrap? t with
    | none => rfl
    | some u =>
      simp only [Option.map_some, bracketsBalanced_normalizeCase]
      split
      · exact ih u
      · rfl

/-- A caseless character outside the brackets of small letters is one outside those of the
text. -/
lemma IsOutside.of_normalizeCase {t a b : Text} {c : Char} (hc : isCaseless c = true)
    (h : IsOutside (normalizeCase t) a c b) :
    ∃ a' b', IsOutside t a' c b' ∧ normalizeCase a' = a ∧ normalizeCase b' = b := by
  obtain ⟨a', b', ht, rfl, rfl⟩ := append_of_normalizeCase hc h.split
  refine ⟨a', b', ⟨ht, h.plain, ?_⟩, rfl, rfl⟩
  rw [← rise_normalizeCase]
  exact h.level

/-- A caseless character outside the brackets of a text is outside those of its small letters. -/
lemma IsOutside.normalizeCase {t a b : Text} {c : Char} (hc : isCaseless c = true)
    (h : IsOutside t a c b) :
    IsOutside (normalizeCase t) (normalizeCase a) c (normalizeCase b) := by
  refine ⟨?_, h.plain, by rw [rise_normalizeCase, h.level]⟩
  rw [h.split, normalizeCase_append, normalizeCase_cons_of_isSmall (isSmall_of_isCaseless hc)]

/-! ### Exponents -/

/-- A digit has no case. -/
lemma isCaseless_of_isDigit {c : Char} (h : c.isDigit = true) : isCaseless c = true := by
  have hrange := (isDigit_iff c).mp h
  have hlower : c.isLower = false := by
    rw [← Bool.not_eq_true, isLower_iff]
    omega
  have hupper : c.isUpper = false := by
    rw [← Bool.not_eq_true, isUpper_iff]
    omega
  have hascii : c.toNat < 0x80 := by omega
  simp [isCaseless, Char.isAlpha, hlower, hupper, hascii]

/-- A digit or a point has no case. -/
lemma isCaseless_of_isNumeral {c : Char} (h : isNumeral c = true) : isCaseless c = true := by
  rw [isNumeral, Bool.or_eq_true, decide_eq_true_eq] at h
  rcases h with h | rfl
  · exact isCaseless_of_isDigit h
  · decide

/-- A text begins with a digit if it does so in small letters. -/
lemma startsWithDigit_normalizeCase {t : Text} :
    StartsWithDigit (normalizeCase t) ↔ StartsWithDigit t := by
  constructor
  · rintro ⟨d, rest, ht, hd⟩
    obtain ⟨a, b, rfl, ha, -⟩ := append_of_normalizeCase (a := []) (isCaseless_of_isDigit hd) ht
    rw [normalizeCase_eq_nil] at ha
    exact ⟨d, b, by rw [ha]; rfl, hd⟩
  · rintro ⟨d, rest, rfl, hd⟩
    exact ⟨d, _, normalizeCase_cons_of_isSmall (isSmall_of_isDigit hd) rest, hd⟩

/-- Read backward, small letters begin with the last small characters of the text. -/
lemma reverse_normalizeCase_of_isSmall {t rest : Text} {w : Text} (hw : ∀ c ∈ w, IsSmall c)
    (h : t.reverse = w ++ rest) :
    (normalizeCase t).reverse = w ++ (normalizeCase rest.reverse).reverse := by
  have ht : t = rest.reverse ++ w.reverse := by
    have := congrArg List.reverse h
    simpa using this
  have hsmall : normalizeCase w.reverse = w.reverse :=
    normalizeCase_eq_self fun c hc => hw c (by simpa using hc)
  rw [ht, normalizeCase_append, hsmall]
  simp

/-- A text that ends in a mark does so in small letters. -/
lemma EndsInMark.normalizeCase {t : Text} (h : EndsInMark t.reverse) :
    EndsInMark (normalizeCase t).reverse := by
  generalize ht : t.reverse = u at h
  cases h with
  | @digit d rest hd =>
    rw [reverse_normalizeCase_of_isSmall (w := ['e', d]) ?_ ht]
    · exact .digit hd
    · simp [isSmall_of_isDigit hd, show IsSmall 'e' by decide]
  | @point d rest hd =>
    rw [reverse_normalizeCase_of_isSmall (w := ['e', '.', d]) ?_ ht]
    · exact .point hd
    · simp [isSmall_of_isDigit hd, show IsSmall 'e' by decide, show IsSmall '.' by decide]

/-- A caseless character at the end of small letters is at the end of the text. -/
lemma append_of_reverse_normalizeCase {t rest : Text} {c : Char} (hc : isCaseless c = true)
    (h : (normalizeCase t).reverse = c :: rest) :
    ∃ t', t = t' ++ [c] ∧ (normalizeCase t').reverse = rest := by
  have hsplit : normalizeCase t = rest.reverse ++ c :: [] := by
    have := congrArg List.reverse h
    simpa using this
  obtain ⟨t', b, rfl, ht', hb⟩ := append_of_normalizeCase hc hsplit
  rw [normalizeCase_eq_nil] at hb
  exact ⟨t', by rw [hb], by rw [ht', List.reverse_reverse]⟩

/-- Without the capital `E`, a text that ends in a mark in small letters ends in one. -/
lemma EndsInMark.of_normalizeCase {t : Text}
    (h : EndsInMark (DecimalCalculator.normalizeCase t).reverse)
    (hmark : 'E' ∉ t) : EndsInMark t.reverse := by
  rcases List.eq_nil_or_concat t with rfl | ⟨t, c, rfl⟩
  · cases h
  · obtain ⟨d, more, hd⟩ := List.exists_cons_of_ne_nil
      (List.reverse_ne_nil_iff.mpr (lowered_ne_nil c))
    have hmem : d ∈ lowered c := by rw [← List.mem_reverse, hd]; simp
    have hsplit : (DecimalCalculator.normalizeCase (t.concat c)).reverse =
        d :: (more ++ (DecimalCalculator.normalizeCase t).reverse) := by
      rw [List.concat_eq_append, normalizeCase_append, List.reverse_append]
      simp [hd]
    -- the last character is the small mark
    obtain rfl : d = 'e' := by
      have := h.head_eq
      rw [hsplit] at this
      simpa using this
    obtain rfl : c = 'e' := (eq_of_mark_mem_lowered hmem).resolve_right fun heq =>
      hmark (by simp [heq])
    have hsmall : lowered 'e' = ['e'] := by decide
    obtain rfl : more = [] := by
      rw [hsmall] at hd
      simpa using hd.symm
    rw [hsplit, List.nil_append] at h
    rw [List.concat_eq_append, List.reverse_append]
    -- the numerals before it have no case
    generalize hrest : (DecimalCalculator.normalizeCase t).reverse = rest at h
    cases h with
    | digit hdigit =>
      obtain ⟨a, rfl, -⟩ := append_of_reverse_normalizeCase (isCaseless_of_isDigit hdigit) hrest
      rw [List.reverse_append]
      exact .digit hdigit
    | point hdigit =>
      obtain ⟨a, rfl, ha⟩ := append_of_reverse_normalizeCase (by decide) hrest
      obtain ⟨b, rfl, -⟩ := append_of_reverse_normalizeCase (isCaseless_of_isDigit hdigit) ha
      rw [List.reverse_append, List.reverse_append]
      exact .point hdigit

/-- The sign of an exponent is one in small letters. -/
lemma betweenIsExponent_normalizeCase {a b : Text} (h : betweenIsExponent a.reverse b = true) :
    betweenIsExponent (normalizeCase a).reverse (normalizeCase b) = true := by
  rw [betweenIsExponent_iff] at h ⊢
  exact ⟨h.1.normalizeCase, startsWithDigit_normalizeCase.mpr h.2⟩

end DecimalCalculator
