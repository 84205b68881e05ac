import DecimalCalculator.Proofs.Text.ImplicitProduct

/-!
What preparation writes into a text, and what it does a second time.

* `writtenFrom`: what is written from a character on, apart from the product sign in front of it.
* `AddsProducts`: a text with further product signs. `AddsProducts.infix_of_not_mem`: a word without
  product signs that stands in such a text stands in the text itself. `AddsProducts.filter_eq`: all
  other characters are those of the text, in their order.
* `insertProductsAfter_idem`: where a product sign is written none is missing any more, and where none
  is missing, none is missing after the others are written.
* `preprocess_idempotent`: **preparation** adds product signs only, and all of them at once.
-/

namespace DecimalCalculator

variable {prev : Option Char} {c : Char}

/-! ### One character -/

section

variable {t : Text}

/-- A character and what follows it, as they are written behind `prev` if no product sign is missing
between them. -/
def writtenFrom (prev : Option Char) (c : Char) (t : Text) : Text :=
  if missesAfter prev c t then c :: '*' :: insertProductsAfter (some '*') t
  else c :: insertProductsAfter (some c) t

/-- What is written where a product sign is missing in front. -/
lemma insertProductsAfter_of_missesBefore (h : missesBefore prev c t = true) :
    insertProductsAfter prev (c :: t) = '*' :: writtenFrom (some '*') c t := by
  simp only [insertProductsAfter, h, if_true, writtenFrom]

/-- What is written where no product sign is missing in front. -/
lemma insertProductsAfter_of_not_missesBefore (h : missesBefore prev c t = false) :
    insertProductsAfter prev (c :: t) = writtenFrom prev c t := by
  simp only [insertProductsAfter, h, Bool.false_eq_true, if_false, writtenFrom]

end

/-! ### Further product signs -/

/-- The second text is the first one with further product signs. -/
inductive AddsProducts : Text → Text → Prop
  | nil : AddsProducts [] []
  | keep {t u : Text} (c : Char) : AddsProducts t u → AddsProducts (c :: t) (c :: u)
  | write {t u : Text} : AddsProducts t u → AddsProducts t ('*' :: u)

/-- Preparation adds product signs. -/
lemma addsProducts_insertProductsAfter (prev : Option Char) (t : Text) :
    AddsProducts t (insertProductsAfter prev t) := by
  induction t generalizing prev with
  | nil => exact .nil
  | cons c t ih =>
    have hwritten : ∀ p, AddsProducts (c :: t) (writtenFrom p c t) := by
      intro p
      rw [writtenFrom]
      split
      · exact .keep c (.write (ih _))
      · exact .keep c (ih _)
    cases hbefore : missesBefore prev c t with
    | true =>
      rw [insertProductsAfter_of_missesBefore hbefore]
      exact .write (hwritten _)
    | false =>
      rw [insertProductsAfter_of_not_missesBefore hbefore]
      exact hwritten _

namespace AddsProducts

variable {t u w : Text}

/-- Every further character is a product sign. -/
lemma mem {c : Char} (h : AddsProducts t u) (hc : c ∈ u) : c = '*' ∨ c ∈ t := by
  induction h with
  | nil => exact Or.inr hc
  | keep d _ ih =>
    rcases List.mem_cons.mp hc with rfl | hc
    · exact Or.inr (by simp)
    · exact (ih hc).imp_right fun ht => by simp [ht]
  | write _ ih =>
    rcases List.mem_cons.mp hc with rfl | hc
    · exact Or.inl rfl
    · exact ih hc

/-- A text begins with a word without product signs if it does so with further product signs. -/
lemma prefix_of_not_mem (h : AddsProducts t u) (hw : '*' ∉ w) (hstarts : w <+: u) : w <+: t := by
  induction h generalizing w with
  | nil => exact hstarts
  | keep c _ ih =>
    cases w with
    | nil => exact List.nil_prefix
    | cons d w =>
      obtain ⟨rfl, hrest⟩ := List.cons_prefix_cons.mp hstarts
      exact List.cons_prefix_cons.mpr ⟨rfl, ih (fun hmem => hw (by simp [hmem])) hrest⟩
  | write _ _ =>
    cases w with
    | nil => exact List.nil_prefix
    | cons d w =>
      obtain ⟨rfl, -⟩ := List.cons_prefix_cons.mp hstarts
      simp at hw

/-- **A word without product signs** stands in a text if it does so with further product signs. -/
theorem infix_of_not_mem (h : AddsProducts t u) (hw : '*' ∉ w) (hoccurs : w <:+: u) :
    w <:+: t := by
  induction h with
  | nil => exact hoccurs
  | keep c h ih =>
    rcases List.infix_cons_iff.mp hoccurs with hstarts | hoccurs
    · exact ((h.keep c).prefix_of_not_mem hw hstarts).isInfix
    · exact List.infix_cons (ih hoccurs)
  | write h ih =>
    rcases List.infix_cons_iff.mp hoccurs with hstarts | hoccurs
    · exact (h.write.prefix_of_not_mem hw hstarts).isInfix
    · exact ih hoccurs

/-- **The other characters** of a text stay as they are. -/
theorem filter_eq (h : AddsProducts t u) {p : Char → Bool} (hp : p '*' = false) :
    u.filter p = t.filter p := by
  induction h with
  | nil => rfl
  | keep c _ ih => rw [List.filter_cons, List.filter_cons, ih]
  | write _ ih => rw [List.filter_cons_of_neg (by simp [hp]), ih]

end AddsProducts

/-! ### Preparing twice -/

variable {t u : Text}

/-- Nothing is written around a product sign. -/
lemma insertProductsAfter_star (prev : Option Char) (t : Text) :
    insertProductsAfter prev ('*' :: t) = '*' :: insertProductsAfter (some '*') t := by
  rw [insertProductsAfter_of_not_missesBefore (missesBefore_of_not_beginsFactor (by decide)),
    writtenFrom, missesAfter_of_not_endsFactor (by decide), if_neg (by decide)]

/-- Behind what ends no factor, a prepared text begins as the text does. -/
lemma head?_insertProductsAfter (hprev : ∀ p ∈ prev, p ≠ ')' ∧ isNumeral p = false) (t : Text) :
    (insertProductsAfter prev t).head? = t.head? := by
  cases t with
  | nil => rfl
  | cons c t =>
    rw [insertProductsAfter_of_not_missesBefore (missesBefore_of_prev hprev), writtenFrom]
    split <;> rfl

/-- A letter that ends a factor is neither a closing bracket nor a numeral. -/
lemma ne_close_of_endsFactor (h : endsFactor c = true) :
    ∀ p ∈ some c, p ≠ ')' ∧ isNumeral p = false := by
  rintro p ⟨⟩
  simp only [endsFactor, Bool.or_eq_true, decide_eq_true_eq] at h
  rcases h with ((rfl | rfl) | rfl) | rfl <;> decide

/-- Whether an `e` is the mark of an exponent depends on the next character only. -/
lemma isExponentMark_congr (h : t.head? = u.head?) (p : Char) :
    isExponentMark p t = isExponentMark p u := by
  cases t <;> cases u <;> simp_all [isExponentMark]

/-- Behind the mark of an exponent no product continues. -/
lemma missesAfter_of_isExponentMark {p : Char} (h : isExponentMark p t = true) :
    missesAfter prev c t = false := by
  refine missesAfter_of_head fun d hd => ?_
  obtain ⟨rest, rfl⟩ : ∃ rest, t = d :: rest := List.head?_eq_some_iff.mp hd
  have hnext : (decide (d = '+') || decide (d = '-') || isNumeral d) = true :=
    (Bool.and_eq_true_iff.mp h).2
  by_contra hcontinues
  simp only [Bool.not_eq_false, continuesProduct, isLeadingSymbol, Bool.or_eq_true,
    decide_eq_true_eq] at hcontinues
  rcases hcontinues with ((((rfl | rfl) | rfl) | rfl) | rfl) | (((rfl | rfl) | rfl) | rfl) | rfl <;>
    exact absurd hnext (by decide)

/-- A product sign that is missing in front of a character is missing whatever follows, unless the
character is the mark of an exponent. -/
lemma missesBefore_of_marks (h : missesBefore prev c t = false)
    (hmark : c = 'e' → ∀ p, isExponentMark p t = true → isExponentMark p u = true) :
    missesBefore prev c u = false := by
  cases prev with
  | none => rfl
  | some p =>
    rw [missesBefore, Bool.and_eq_false_iff] at h ⊢
    refine h.imp_right fun h => ?_
    simp only [Bool.not_eq_false', Bool.and_eq_true, decide_eq_true_eq] at h ⊢
    exact ⟨h.1, hmark h.1 p h.2⟩

/-- No product sign is missing inside the name `exp(`. -/
lemma missesAfter_of_isInsideExp (h : isInsideExp prev c t = true) :
    missesAfter prev c t = false := by
  cases t with
  | nil => rfl
  | cons d t => simp [missesAfter, h]

/-- The name `exp(` stays one. -/
lemma isInsideExp_insertProductsAfter (h : isInsideExp prev c t = true) :
    isInsideExp prev c (insertProductsAfter (some c) t) = true := by
  -- behind the `x` the name goes on without a product sign
  have hrest : ∀ r, insertProductsAfter (some 'x') ('p' :: '(' :: r) =
      'p' :: '(' :: insertProductsAfter (some '(') r := by
    intro r
    cases r <;> rfl
  rw [isInsideExp, Bool.or_eq_true, Bool.and_eq_true, Bool.and_eq_true, Bool.and_eq_true,
    List.isPrefixOf_iff_prefix, List.isPrefixOf_iff_prefix, decide_eq_true_eq, decide_eq_true_eq,
    decide_eq_true_eq] at h
  rcases h with ⟨rfl, r, rfl⟩ | ⟨⟨rfl, rfl⟩, r, rfl⟩
  · have hx : insertProductsAfter (some 'e') ('x' :: 'p' :: '(' :: r) =
        'x' :: insertProductsAfter (some 'x') ('p' :: '(' :: r) := rfl
    simp only [List.cons_append, List.nil_append]
    rw [hx, hrest]
    simp [isInsideExp]
  · simp only [List.cons_append, List.nil_append]
    rw [hrest]
    simp [isInsideExp]

/-- Where no product sign is missing behind a character, none is missing after the others are
written. -/
lemma missesAfter_insertProductsAfter (h : missesAfter prev c t = false) :
    missesAfter prev c (insertProductsAfter (some c) t) = false := by
  cases hends : endsFactor c with
  | false => exact missesAfter_of_not_endsFactor hends
  | true =>
    have hhead := head?_insertProductsAfter (ne_close_of_endsFactor hends) t
    cases t with
    | nil => rfl
    | cons d t =>
      rw [missesAfter, hends, Bool.true_and, Bool.and_eq_false_iff] at h
      rcases h with hcontinues | hinside
      · refine missesAfter_of_head fun e he => ?_
        rw [hhead] at he
        obtain rfl : d = e := Option.some.inj he
        exact hcontinues
      · rw [Bool.not_eq_false'] at hinside
        exact missesAfter_of_isInsideExp (isInsideExp_insertProductsAfter hinside)

/-- A character and what is written behind it stay as they are, if the rest is prepared in one go and
no product sign is missing in front. -/
lemma insertProductsAfter_writtenFrom (h : missesBefore prev c t = false)
    (hrest : ∀ q, insertProductsAfter q (insertProductsAfter q t) = insertProductsAfter q t) :
    insertProductsAfter prev (writtenFrom prev c t) = writtenFrom prev c t := by
  rw [writtenFrom]
  split
  · next hafter =>
    -- the character is no mark of an exponent, behind which no product sign is missing
    have hbefore : missesBefore prev c ('*' :: insertProductsAfter (some '*') t) = false := by
      refine missesBefore_of_marks h fun _ p hmark => ?_
      rw [missesAfter_of_isExponentMark hmark] at hafter
      exact absurd hafter (by decide)
    rw [insertProductsAfter_of_not_missesBefore hbefore, writtenFrom,
      missesAfter_of_head (by rintro d ⟨⟩; decide), if_neg (by decide),
      insertProductsAfter_star, hrest]
  · next hafter =>
    rw [Bool.not_eq_true] at hafter
    have hbefore : missesBefore prev c (insertProductsAfter (some c) t) = false := by
      refine missesBefore_of_marks h fun hc p hmark => ?_
      subst hc
      rwa [isExponentMark_congr (head?_insertProductsAfter
        (ne_close_of_endsFactor (by decide)) t)]
    rw [insertProductsAfter_of_not_missesBefore hbefore, writtenFrom,
      missesAfter_insertProductsAfter hafter, if_neg (by decide), hrest]

/-- **Where the product signs are written**, none is missing any more. -/
theorem insertProductsAfter_idem (prev : Option Char) (t : Text) :
    insertProductsAfter prev (insertProductsAfter prev t) = insertProductsAfter prev t := by
  induction t generalizing prev with
  | nil => rfl
  | cons c t ih =>
    cases hbefore : missesBefore prev c t with
    | true =>
      have hsign : missesBefore (some '*') c t = false :=
        missesBefore_of_prev (by rintro p ⟨⟩; decide)
      rw [insertProductsAfter_of_missesBefore hbefore, insertProductsAfter_star,
        insertProductsAfter_writtenFrom hsign ih]
    | false =>
      rw [insertProductsAfter_of_not_missesBefore hbefore,
        insertProductsAfter_writtenFrom hbefore ih]

/-- **Preparation** takes the blanks out of a text and adds product signs, and nothing else: the other
characters stay as they are, in their order. A text that is prepared already stays as it is. -/
theorem preprocess_idempotent (t : Text) : preprocess (preprocess t) = preprocess t ∧
    AddsProducts (removeBlanks t) (preprocess t) ∧
    (preprocess t).filter (fun c => c ≠ '*') = t.filter fun c => c ≠ '*' && !isBlank c := by
  have hadds : AddsProducts (removeBlanks t) (preprocess t) :=
    addsProducts_insertProductsAfter none (removeBlanks t)
  have hblanks : removeBlanks (preprocess t) = preprocess t := by
    refine List.filter_eq_self.mpr fun c hc => ?_
    rcases hadds.mem hc with rfl | hc
    · rfl
    · exact (List.mem_filter.mp hc).2
  refine ⟨?_, hadds, ?_⟩
  · rw [preprocess, hblanks]
    exact insertProductsAfter_idem none (removeBlanks t)
  · rw [hadds.filter_eq (by decide), removeBlanks, List.filter_filter]

end DecimalCalculator
