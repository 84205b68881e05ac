import Mathlib.Tactic
import DecimalCalculator.Proofs.Text.ExponentSign
import DecimalCalculator.Text.ImplicitProduct

/-!
Texts to which preparation adds nothing.

* `IsExplicitAt`: at a character no product sign is missing, and a sign after what looks like the
  mark of an exponent is the sign of one.
* `IsExplicit`: that holds all over a text. `IsExplicitBetween`: it holds where the text stands.
* `IsExplicitAt.append_right`, `IsExplicitAt.append_left`: further text on either side changes
  nothing, as long as its nearest character separates.
* `IsExplicit.join`, `IsExplicit.wrap`: **explicit texts** around an operator or a comma, or in
  brackets, are explicit.
* `preprocess_eq_self`: **preparation** leaves an explicit text as it is.
-/

namespace DecimalCalculator

variable {before after more : Text} {c d : Char} {prev : Option Char}

/-! ### Characters in their places -/

/-- Whether a text, read backward, begins with an `e` after a digit or a point. -/
def looksMarked : Text → Bool
  | m :: n :: _ => m = 'e' && isNumeral n
  | _ => false

/-- The character `c`, between `before`, read backward, and `after`, is no blank, misses no product
sign on either side, and if it is a sign after what looks like the mark of an exponent, then it
belongs to an exponent. -/
structure IsExplicitAt (before : Text) (c : Char) (after : Text) : Prop where
  notBlank : isBlank c = false
  nothingBefore : missesBefore before.head? c after = false
  nothingAfter : missesAfter before.head? c after = false
  exponent : c = '+' ∨ c = '-' → looksMarked before = true → betweenIsExponent before after = true

instance (before : Text) (c : Char) (after : Text) : Decidable (IsExplicitAt before c after) :=
  decidable_of_iff
    (isBlank c = false ∧ missesBefore before.head? c after = false ∧
      missesAfter before.head? c after = false ∧
      (c = '+' ∨ c = '-' → looksMarked before = true → betweenIsExponent before after = true))
    ⟨fun h => ⟨h.1, h.2.1, h.2.2.1, h.2.2.2⟩, fun h => ⟨h.1, h.2, h.3, h.4⟩⟩

/-- No product sign is missing before what begins no factor. -/
lemma missesBefore_of_not_beginsFactor (h : beginsFactor c = false) :
    missesBefore prev c after = false := by
  cases prev with
  | none => rfl
  | some p => simp [missesBefore, h]

/-- No product sign is missing behind what ends no factor. -/
lemma missesBefore_of_prev (h : ∀ p ∈ prev, p ≠ ')' ∧ isNumeral p = false) :
    missesBefore prev c after = false := by
  cases prev with
  | none => rfl
  | some p => simp [missesBefore, h p rfl]

/-- No product sign is missing after what ends no factor. -/
lemma missesAfter_of_not_endsFactor (h : endsFactor c = false) :
    missesAfter prev c after = false := by
  cases after with
  | nil => rfl
  | cons d after => simp [missesAfter, h]

/-- No product sign is missing before what continues no product. -/
lemma missesAfter_of_head (h : ∀ d ∈ after.head?, continuesProduct d = false) :
    missesAfter prev c after = false := by
  cases after with
  | nil => rfl
  | cons d after => simp [missesAfter, h d rfl]

/-- What continues a product begins a factor. -/
lemma beginsFactor_of_continuesProduct (h : continuesProduct c = true) :
    beginsFactor c = true := by
  simp only [continuesProduct, Bool.or_eq_true, decide_eq_true_eq] at h
  rcases h with ((((rfl | rfl) | rfl) | rfl) | rfl) | hsymbol
  · rfl
  · rfl
  · rfl
  · rfl
  · rfl
  · simp [beginsFactor, hsymbol]

/-- A name `exp(` stays one if text follows it. -/
lemma isInsideExp_append (h : isInsideExp prev c after = true) :
    isInsideExp prev c (after ++ more) = true := by
  have hgrow : ∀ w : Text, w.isPrefixOf after = true → w.isPrefixOf (after ++ more) = true := by
    intro w hw
    rw [List.isPrefixOf_iff_prefix] at hw ⊢
    exact hw.trans (List.prefix_append after more)
  simp only [isInsideExp, Bool.or_eq_true, Bool.and_eq_true] at h ⊢
  exact h.imp (fun h => ⟨h.1, hgrow _ h.2⟩) fun h => ⟨h.1, hgrow _ h.2⟩

/-- A word that ends before a character stands before it, if the character is none of its own. -/
lemma isPrefixOf_of_append {w : Text} (hw : d ∉ w)
    (h : w.isPrefixOf (after ++ d :: more) = true) : w.isPrefixOf after = true := by
  rw [List.isPrefixOf_iff_prefix] at h ⊢
  rcases List.prefix_or_prefix_of_prefix h (List.prefix_append after (d :: more)) with h' | ⟨r, rfl⟩
  · exact h'
  · cases r with
    | nil => simp
    | cons e r =>
      rw [List.prefix_append_right_inj] at h
      obtain ⟨rfl, -⟩ := List.cons_prefix_cons.mp h
      simp at hw

/-- What looks like a mark does so without further text in front of it, unless that ends in a
numeral or in the letter of the mark. -/
lemma looksMarked_of_append (h : looksMarked (before ++ more) = true)
    (hmore : ∀ p ∈ more.head?, p ≠ 'e' ∧ isNumeral p = false) : looksMarked before = true := by
  match before, more with
  | [], [] => exact h
  | [], [p] => exact h
  | [], p :: q :: more =>
    simp only [List.nil_append, looksMarked, Bool.and_eq_true, decide_eq_true_eq] at h
    exact absurd h.1 (hmore p rfl).1
  | [m], [] => exact h
  | [m], p :: more =>
    simp only [List.cons_append, List.nil_append, looksMarked, Bool.and_eq_true] at h
    rw [(hmore p rfl).2] at h
    exact absurd h.2 (by decide)
  | m :: n :: before, more => exact h

namespace IsExplicitAt

/-- **Further text behind** a character changes nothing, unless it continues a product right after
it. -/
lemma append_right (h : IsExplicitAt before c after)
    (hmore : after = [] → ∀ d ∈ more.head?, continuesProduct d = false) :
    IsExplicitAt before c (after ++ more) where
  notBlank := h.notBlank
  nothingBefore := by
    have hbefore := h.nothingBefore
    cases after with
    | nil =>
      -- without text behind it the character is no mark of an exponent
      cases hprev : before.head? with
      | none => rfl
      | some p =>
        rw [hprev] at hbefore
        simp only [missesBefore, isExponentMark, Bool.and_false, Bool.not_false,
          Bool.and_true] at hbefore
        simp [missesBefore, hbefore]
    | cons d after => exact hbefore
  nothingAfter := by
    have hafter := h.nothingAfter
    cases after with
    | nil => exact missesAfter_of_head (hmore rfl)
    | cons d after =>
      rw [missesAfter, Bool.and_eq_false_iff] at hafter
      rw [List.cons_append, missesAfter, Bool.and_eq_false_iff]
      refine hafter.imp_right fun hinside => ?_
      rw [Bool.not_eq_false'] at hinside ⊢
      exact isInsideExp_append hinside
  exponent hc hmark := by
    have := betweenIsExponent_append (h.exponent hc hmark) [] more
    rwa [List.append_nil] at this

/-- A closing bracket behind a character may be left out. -/
lemma of_append_close (h : IsExplicitAt before c (after ++ ')' :: more)) :
    IsExplicitAt before c after where
  notBlank := h.notBlank
  nothingBefore := by
    have hbefore := h.nothingBefore
    cases after with
    | nil => simpa [missesBefore, isExponentMark, show isNumeral ')' = false from rfl] using hbefore
    | cons d after => exact hbefore
  nothingAfter := by
    have hafter := h.nothingAfter
    cases after with
    | nil => rfl
    | cons d after =>
      rw [List.cons_append, missesAfter, Bool.and_eq_false_iff] at hafter
      rw [missesAfter, Bool.and_eq_false_iff]
      refine hafter.imp_right fun hinside => ?_
      rw [Bool.not_eq_false'] at hinside ⊢
      simp only [isInsideExp, Bool.or_eq_true, Bool.and_eq_true] at hinside ⊢
      rw [← List.cons_append] at hinside
      exact hinside.imp (fun h => ⟨h.1, isPrefixOf_of_append (by decide) h.2⟩)
        fun h => ⟨h.1, isPrefixOf_of_append (by decide) h.2⟩
  exponent hc hmark := by
    have hexponent := h.exponent hc hmark
    rw [betweenIsExponent_iff] at hexponent ⊢
    obtain ⟨hmarked, d, rest, hsplit, hd⟩ := hexponent
    refine ⟨hmarked, ?_⟩
    cases after with
    | nil =>
      obtain ⟨rfl, -⟩ := List.cons_eq_cons.mp hsplit
      exact absurd hd (by decide)
    | cons e after =>
      obtain ⟨rfl, -⟩ := List.cons_eq_cons.mp hsplit
      exact ⟨e, after, rfl, hd⟩

/-- **Further text in front** of a character changes nothing, unless it ends in a factor or in the
letter of a mark. -/
lemma append_left (h : IsExplicitAt before c after)
    (hmore : ∀ p ∈ more.head?, p ≠ ')' ∧ p ≠ 'e' ∧ isNumeral p = false) :
    IsExplicitAt (before ++ more) c after where
  notBlank := h.notBlank
  nothingBefore := by
    cases before with
    | nil => exact missesBefore_of_prev fun p hp => ⟨(hmore p hp).1, (hmore p hp).2.2⟩
    | cons d before => exact h.nothingBefore
  nothingAfter := by
    have hafter := h.nothingAfter
    cases before with
    | nil =>
      cases after with
      | nil => rfl
      | cons e after =>
        rw [missesAfter, Bool.and_eq_false_iff] at hafter ⊢
        refine hafter.imp_right fun hinside => ?_
        rw [Bool.not_eq_false'] at hinside ⊢
        simp only [isInsideExp, List.head?_nil, reduceCtorEq, decide_false, Bool.and_false,
          Bool.false_and, Bool.or_false] at hinside
        simp [isInsideExp, hinside]
    | cons d before => exact hafter
  exponent hc hmark := by
    have hlooks := looksMarked_of_append hmark fun p hp => (hmore p hp).2
    have := betweenIsExponent_append (h.exponent hc hlooks) more []
    rwa [List.append_nil] at this

end IsExplicitAt

/-! ### Texts in their places -/

/-- All over the text, which stands between `before`, read backward, and `after`, the products
are explicit. -/
def IsExplicitBetween (before after t : Text) : Prop :=
  ∀ a c b, t = a ++ c :: b → IsExplicitAt (a.reverse ++ before) c (b ++ after)

/-- All over the text the products are explicit. -/
def IsExplicit (t : Text) : Prop := IsExplicitBetween [] [] t

variable {t u v : Text}

@[simp] lemma isExplicitBetween_nil : IsExplicitBetween before after [] := by
  intro a c b hsplit
  simp at hsplit

/-- Where a text is explicit, character by character. -/
lemma isExplicitBetween_cons : IsExplicitBetween before after (c :: t) ↔
    IsExplicitAt before c (t ++ after) ∧ IsExplicitBetween (c :: before) after t := by
  constructor
  · intro h
    refine ⟨h [] c t rfl, fun a d b hsplit => ?_⟩
    have := h (c :: a) d b (by rw [hsplit]; rfl)
    simpa using this
  · rintro ⟨hfirst, hrest⟩ a d b hsplit
    cases a with
    | nil =>
      obtain ⟨rfl, rfl⟩ := List.cons_eq_cons.mp hsplit
      exact hfirst
    | cons e a =>
      obtain ⟨rfl, rfl⟩ := List.cons_eq_cons.mp hsplit
      simpa using hrest a d b rfl

/-- Two texts in a row are explicit where each of them is. -/
lemma isExplicitBetween_append : IsExplicitBetween before after (u ++ v) ↔
    IsExplicitBetween before (v ++ after) u ∧ IsExplicitBetween (u.reverse ++ before) after v := by
  induction u generalizing before with
  | nil => simp
  | cons c u ih =>
    rw [List.cons_append, isExplicitBetween_cons, isExplicitBetween_cons, ih, List.append_assoc,
      and_assoc]
    simp

/-- Whether a text is explicit where it stands can be computed. -/
instance decidableIsExplicitBetween : (before after t : Text) →
    Decidable (IsExplicitBetween before after t)
  | _, _, [] => isTrue isExplicitBetween_nil
  | before, after, c :: t =>
    have := decidableIsExplicitBetween (c :: before) after t
    decidable_of_iff _ isExplicitBetween_cons.symm

instance (t : Text) : Decidable (IsExplicit t) :=
  inferInstanceAs (Decidable (IsExplicitBetween [] [] t))

/-- An explicit text does not end in what looks like a mark. -/
lemma IsExplicit.not_looksMarked (h : IsExplicit t) : looksMarked t.reverse = false := by
  rw [← Bool.not_eq_true]
  intro hmark
  unfold looksMarked at hmark
  split at hmark
  · next m n rest hrev =>
    obtain ⟨rfl, hn⟩ : m = 'e' ∧ isNumeral n = true := by simpa using hmark
    have ht : t = (rest.reverse ++ [n]) ++ 'e' :: [] := by
      have := congrArg List.reverse hrev
      simpa using this
    -- nothing follows the letter, so that it is no mark but a factor
    have := (h _ _ _ ht).nothingBefore
    simp [missesBefore, isExponentMark, hn, show beginsFactor 'e' = true from rfl] at this
  · exact absurd hmark (by decide)

/-! ### Separators -/

/-- A character on both sides of which a factor may end and begin: it has no part in a product
itself. -/
structure Separates (c : Char) : Prop where
  notBlank : isBlank c = false
  beginsNoFactor : beginsFactor c = false
  endsNoFactor : endsFactor c = false
  notNumeral : isNumeral c = false
  notClosing : c ≠ ')'

namespace Separates

/-- A separator does not continue a product. -/
lemma continuesNoProduct (h : Separates c) : continuesProduct c = false := by
  rw [← Bool.not_eq_true]
  intro hcontinues
  have := h.beginsNoFactor
  rw [beginsFactor_of_continuesProduct hcontinues] at this
  exact absurd this (by decide)

/-- A separator is no letter of a mark. -/
lemma ne_mark (h : Separates c) : c ≠ 'e' := by
  rintro rfl
  exact absurd h.beginsNoFactor (by decide)

/-- A separator is explicit, unless it is a sign after what looks like a mark. -/
lemma isExplicitAt (h : Separates c) (hbefore : looksMarked before = false) :
    IsExplicitAt before c after where
  notBlank := h.notBlank
  nothingBefore := missesBefore_of_not_beginsFactor h.beginsNoFactor
  nothingAfter := missesAfter_of_not_endsFactor h.endsNoFactor
  exponent _ hmark := by
    rw [hbefore] at hmark
    exact absurd hmark (by decide)

end Separates

namespace IsExplicitBetween

/-- Further text may follow an explicit text, unless it continues a product right after it. -/
lemma append_right (h : IsExplicitBetween before after t)
    (hmore : after = [] → ∀ d ∈ more.head?, continuesProduct d = false) :
    IsExplicitBetween before (after ++ more) t := by
  intro a c b hsplit
  rw [← List.append_assoc]
  exact (h a c b hsplit).append_right fun hempty => hmore (List.append_eq_nil_iff.mp hempty).2

/-- Further text may stand before an explicit text, unless it ends in a factor or in the letter of
a mark. -/
lemma append_left (h : IsExplicitBetween before after t)
    (hmore : ∀ p ∈ more.head?, p ≠ ')' ∧ p ≠ 'e' ∧ isNumeral p = false) :
    IsExplicitBetween (before ++ more) after t := by
  intro a c b hsplit
  rw [← List.append_assoc]
  exact (h a c b hsplit).append_left hmore

/-- A closing bracket behind an explicit text may be left out. -/
lemma of_append_close (h : IsExplicitBetween before (after ++ ')' :: more) t) :
    IsExplicitBetween before after t := by
  intro a c b hsplit
  have := h a c b hsplit
  rw [← List.append_assoc] at this
  exact this.of_append_close

end IsExplicitBetween

namespace IsExplicit

/-- Behind an explicit text may follow what does not continue a product. -/
lemma append_right (h : IsExplicit t) (hmore : ∀ d ∈ more.head?, continuesProduct d = false) :
    IsExplicitBetween [] more t :=
  IsExplicitBetween.append_right (show IsExplicitBetween [] [] t from h) fun _ => hmore

/-- Before an explicit text may stand what ends neither in a factor nor in the letter of a mark. -/
lemma append_left (h : IsExplicit t)
    (hmore : ∀ p ∈ more.head?, p ≠ ')' ∧ p ≠ 'e' ∧ isNumeral p = false) :
    IsExplicitBetween more [] t :=
  IsExplicitBetween.append_left (show IsExplicitBetween [] [] t from h) hmore

/-- **Explicit texts around a separator** are explicit. -/
theorem join (hu : IsExplicit u) (hc : Separates c) (hv : IsExplicit v) :
    IsExplicit (u ++ c :: v) := by
  rw [IsExplicit, isExplicitBetween_append, isExplicitBetween_cons]
  refine ⟨?_, hc.isExplicitAt ?_, ?_⟩
  · refine hu.append_right fun d hd => ?_
    obtain rfl : c = d := by simpa using hd
    exact hc.continuesNoProduct
  · rw [List.append_nil]
    exact hu.not_looksMarked
  · refine hv.append_left fun p hp => ?_
    obtain rfl : c = p := by simpa using hp
    exact ⟨hc.notClosing, hc.ne_mark, hc.notNumeral⟩

/-- An opening bracket in front keeps a text explicit. -/
lemma open_cons (h : IsExplicit t) : IsExplicit ('(' :: t) := by
  rw [IsExplicit, isExplicitBetween_cons]
  refine ⟨⟨by decide, rfl, missesAfter_of_not_endsFactor (by decide), by simp⟩, ?_⟩
  refine h.append_left fun p hp => ?_
  obtain rfl : '(' = p := by simpa using hp
  decide

/-- A closing bracket at the end keeps a text explicit. -/
lemma append_close (h : IsExplicit t) : IsExplicit (t ++ [')']) := by
  rw [IsExplicit, isExplicitBetween_append, isExplicitBetween_cons]
  refine ⟨?_, ⟨by decide, ?_, ?_, by simp⟩, isExplicitBetween_nil⟩
  · refine h.append_right fun d hd => ?_
    obtain rfl : ')' = d := by simpa using hd
    decide
  · exact missesBefore_of_not_beginsFactor (by decide)
  · exact missesAfter_of_not_endsFactor (by decide)

/-- The text before a closing bracket at the end is explicit. -/
lemma of_append_close (h : IsExplicit (t ++ [')'])) : IsExplicit t := by
  rw [IsExplicit, isExplicitBetween_append] at h
  exact IsExplicitBetween.of_append_close (show IsExplicitBetween [] ([] ++ ')' :: []) t from h.1)

end IsExplicit

/-! ### Preparation -/

/-- Nothing is written into an explicit text. -/
lemma insertProductsAfter_eq_self (h : IsExplicitBetween before [] t) :
    insertProductsAfter before.head? t = t := by
  induction t generalizing before with
  | nil => rfl
  | cons c t ih =>
    obtain ⟨hc, ht⟩ := isExplicitBetween_cons.mp h
    rw [List.append_nil] at hc
    have hrest : insertProductsAfter (some c) t = t := ih ht
    simp [insertProductsAfter, hc.nothingBefore, hc.nothingAfter, hrest]

/-- No blanks are taken out of an explicit text. -/
lemma removeBlanks_eq_self (h : IsExplicitBetween before after t) : removeBlanks t = t := by
  refine List.filter_eq_self.mpr fun c hc => ?_
  obtain ⟨a, b, hsplit⟩ := List.append_of_mem hc
  simp [(h a c b hsplit).notBlank]

/-- **Preparation** leaves an explicit text as it is. -/
theorem preprocess_eq_self (h : IsExplicit t) : preprocess t = t := by
  rw [preprocess, removeBlanks_eq_self h]
  exact insertProductsAfter_eq_self h

end DecimalCalculator
