import DecimalCalculator.Proofs.Text.AddedProducts
import DecimalCalculator.Proofs.Text.Brackets

/-!
Preparation and the characters between arguments.

* `IsSeparator`: a comma or a closing bracket.
* `insertProductsAfter_separator`: **products do not reach over separators**: what stands before one
  is prepared without what stands behind it.
* `insertProductsAfter_some`: what stands behind an opening bracket or a comma is prepared as if
  nothing stood before it.
* `skeleton`: the brackets and commas of a text, which preparation keeps: `skeleton_preprocess`.
-/

namespace DecimalCalculator

/-! ### Separators -/

/-- A comma or a closing bracket. -/
def IsSeparator (d : Char) : Prop := d = ',' ∨ d = ')'

variable {d c : Char} {prev : Option Char} {t : Text}

/-- A separator neither begins a factor nor ends or continues one, and is no part of a mark. -/
lemma IsSeparator.plain (h : IsSeparator d) : beginsFactor d = false ∧ endsFactor d = false ∧
    continuesProduct d = false ∧ isNumeral d = false ∧ d ≠ '+' ∧ d ≠ '-' := by
  rcases h with rfl | rfl <;> decide

/-- A name `exp(` in front of a separator ends there. -/
lemma isInsideExp_separator (h : IsSeparator d) (more : Text) :
    isInsideExp prev c (t ++ d :: more) = isInsideExp prev c t := by
  have hword : ∀ w : Text, d ∉ w → w.isPrefixOf (t ++ d :: more) = w.isPrefixOf t := by
    intro w hw
    rw [Bool.eq_iff_iff]
    refine ⟨isPrefixOf_of_append hw, fun hprefix => ?_⟩
    rw [List.isPrefixOf_iff_prefix] at hprefix ⊢
    exact hprefix.trans (List.prefix_append t (d :: more))
  have hd : d ∉ ['x', 'p', '('] ∧ d ∉ ['p', '('] := by rcases h with rfl | rfl <;> decide
  rw [isInsideExp, isInsideExp, hword _ hd.1, hword _ hd.2]

/-- Whether a product sign is missing before a character does not depend on what stands behind the
next separator. -/
lemma missesBefore_separator (h : IsSeparator d) (more : Text) :
    missesBefore prev c (t ++ d :: more) = missesBefore prev c t := by
  cases prev with
  | none => rfl
  | some p =>
    have hmark : isExponentMark p (t ++ d :: more) = isExponentMark p t := by
      cases t with
      | nil =>
        obtain ⟨-, -, -, hnumeral, hplus, hminus⟩ := h.plain
        simp [isExponentMark, hnumeral, hplus, hminus]
      | cons e t => rfl
    rw [missesBefore, missesBefore, hmark]

/-- Whether a product sign is missing after a character does not depend on what stands behind the
next separator. -/
lemma missesAfter_separator (h : IsSeparator d) (more : Text) :
    missesAfter prev c (t ++ d :: more) = missesAfter prev c t := by
  cases t with
  | nil => exact missesAfter_of_head fun e he => Option.some.inj he ▸ h.plain.2.2.1
  | cons e t =>
    have hinside : isInsideExp prev c (e :: t ++ d :: more) = isInsideExp prev c (e :: t) :=
      isInsideExp_separator h more
    rw [List.cons_append] at hinside ⊢
    rw [missesAfter, missesAfter, hinside]

/-- **Products do not reach over separators**: the text before one is prepared by itself, and so is
the text behind it. -/
theorem insertProductsAfter_separator (h : IsSeparator d) (prev : Option Char) (t more : Text) :
    insertProductsAfter prev (t ++ d :: more) =
      insertProductsAfter prev t ++ d :: insertProductsAfter (some d) more := by
  induction t generalizing prev with
  | nil =>
    obtain ⟨hbegins, hends, -⟩ := h.plain
    show insertProductsAfter prev (d :: more) = d :: insertProductsAfter (some d) more
    rw [insertProductsAfter, missesBefore_of_not_beginsFactor hbegins, if_neg (by decide),
      missesAfter_of_not_endsFactor hends]
    rfl
  | cons c t ih =>
    rw [List.cons_append, insertProductsAfter, insertProductsAfter, missesBefore_separator h,
      missesAfter_separator h, ih, ih]
    split_ifs <;> simp

/-- Behind an opening bracket or a comma a text is prepared as at its beginning. -/
lemma insertProductsAfter_some {p : Char} (hp : p = '(' ∨ p = ',') (t : Text) :
    insertProductsAfter (some p) t = insertProductsAfter none t := by
  have hplain : ∀ q ∈ some p, q ≠ ')' ∧ isNumeral q = false := by
    rintro q ⟨⟩
    rcases hp with rfl | rfl <;> decide
  cases t with
  | nil => rfl
  | cons c t =>
    have hafter : missesAfter (some p) c t = missesAfter none c t := by
      cases t with
      | nil => rfl
      | cons e t =>
        have hmark : p ≠ 'e' := by rcases hp with rfl | rfl <;> decide
        simp [missesAfter, isInsideExp, hmark]
    rw [insertProductsAfter, insertProductsAfter, missesBefore_of_prev hplain]
    simp [missesBefore, hafter]

/-- A word in which no product is missing is kept in front of an opening bracket. -/
lemma insertProductsAfter_word {w : Text} (hword : ∀ c ∈ w, c ≠ ')' ∧ isNumeral c = false)
    (hjoins : (w ++ ['(']).IsChain fun c d => (endsFactor c && continuesProduct d) = false)
    (hprev : ∀ p ∈ prev, p ≠ ')' ∧ isNumeral p = false) :
    insertProductsAfter prev (w ++ '(' :: t) = w ++ '(' :: insertProductsAfter (some '(') t := by
  induction w generalizing prev with
  | nil =>
    show insertProductsAfter prev ('(' :: t) = '(' :: insertProductsAfter (some '(') t
    rw [insertProductsAfter, missesBefore_of_prev hprev, if_neg (by decide),
      missesAfter_of_not_endsFactor (by decide)]
    rfl
  | cons c w ih =>
    have hafter : ∀ p, missesAfter p c (w ++ '(' :: t) = false := by
      intro p
      obtain ⟨d, rest, hnext⟩ := List.exists_cons_of_ne_nil
        (show w ++ ['('] ≠ [] from List.append_ne_nil_of_right_ne_nil _ (by simp))
      rw [List.cons_append, hnext] at hjoins
      have hjoin := (List.isChain_cons_cons.mp hjoins).1
      have hhead : w ++ '(' :: t = d :: (rest ++ t) := by
        rw [← List.cons_append, ← hnext, List.append_assoc]
        rfl
      rw [hhead, missesAfter, hjoin, Bool.false_and]
    have hrest : insertProductsAfter (some c) (w ++ '(' :: t) =
        w ++ '(' :: insertProductsAfter (some '(') t := by
      refine ih (fun e he => hword e (by simp [he])) ?_ ?_
      · exact hjoins.tail
      · rintro q ⟨⟩
        exact hword c (by simp)
    rw [List.cons_append, insertProductsAfter, missesBefore_of_prev hprev, if_neg (by decide),
      hafter, hrest]
    rfl

/-! ### Brackets and commas -/

/-- The brackets and commas of a text. -/
def skeleton (t : Text) : Text := t.filter fun c => isBracket c || c = ','

/-- A text rises as its brackets do. -/
lemma rise_skeleton (t : Text) : rise (skeleton t) = rise t := by
  induction t with
  | nil => rfl
  | cons c t ih =>
    rw [skeleton, List.filter_cons]
    split
    · rw [rise_cons, rise_cons, ← ih, skeleton]
    · next hc =>
      have hbracket : isBracket c = false := by
        by_contra hne
        exact hc (by simp [Bool.not_eq_false _ ▸ hne])
      rw [rise_cons, turn_of_not_isBracket hbracket, zero_add, ← ih, skeleton]

/-- Blanks are neither brackets nor commas. -/
lemma skeleton_removeBlanks (t : Text) : skeleton (removeBlanks t) = skeleton t := by
  rw [skeleton, removeBlanks, List.filter_filter]
  refine List.filter_congr fun c _ => ?_
  cases hc : isBracket c || decide (c = ',') with
  | false => rfl
  | true =>
    simp only [isBracket, Bool.or_eq_true, decide_eq_true_eq] at hc
    rcases hc with (rfl | rfl) | rfl <;> rfl

/-- Product signs are neither brackets nor commas. -/
lemma skeleton_insertProductsAfter (prev : Option Char) (t : Text) :
    skeleton (insertProductsAfter prev t) = skeleton t :=
  (addsProducts_insertProductsAfter prev t).filter_eq (by decide)

/-- **Preparation** keeps the brackets and commas of a text. -/
theorem skeleton_preprocess (t : Text) : skeleton (preprocess t) = skeleton t :=
  (skeleton_insertProductsAfter none _).trans (skeleton_removeBlanks t)

end DecimalCalculator
