import DecimalCalculator.Proofs.Expression.Parts
import DecimalCalculator.Proofs.Text.SmallLetters

/-!
Words that the evaluation of a text does not come across.

* `IsPlainWord`: characters that neither are the variable nor stand in numerals.
  `Template.infix_of_render`: numerals in the slots of a function bring no such word into it.
* `Avoids`: a text in small letters in which none of some words occurs.
* `Session.template_eq_of_avoids`: where the names of the function registers are avoided, a function
  is the text as it stands.
* `Avoids.part`: **the parts of a text avoid what the text avoids**. `Avoids.part_normalizeCase`: the
  small letters of the parts do so, whatever letters the text is written in.
-/

namespace DecimalCalculator

/-! ### Words -/

/-- A character that neither is the variable nor stands in the bracketed numerals that take its
place. -/
def isForeign (c : Char) : Bool :=
  !(c = variableLetter || isNumeral c || isBracket c || c = '-')

/-- A word of such characters, at least one. -/
def IsPlainWord (w : Text) : Prop := w ≠ [] ∧ ∀ c ∈ w, isForeign c = true

lemma isPlainWord_of_mem_functionRegisters {w : Text} (hw : w ∈ functionRegisters) :
    IsPlainWord w := by
  simp only [functionRegisters, List.mem_cons, List.not_mem_nil, or_false] at hw
  rcases hw with rfl | rfl <;> exact ⟨by simp, List.all_eq_true.mp (by decide)⟩

/-- The names that lead out of a text: those of the function registers, and of random numbers. -/
def drawingWords : List Text := ['r', 'a', 'n', 'd'] :: functionRegisters

lemma isPlainWord_of_mem_drawingWords {w : Text} (hw : w ∈ drawingWords) : IsPlainWord w := by
  rcases List.mem_cons.mp hw with rfl | hw
  · exact ⟨by simp, List.all_eq_true.mp (by decide)⟩
  · exact isPlainWord_of_mem_functionRegisters hw

/-- A word that occurs in a text behind characters of other kinds occurs behind them. -/
lemma infix_of_append {w u v : Text} (hw : w ≠ []) (hu : ∀ c ∈ w, c ∉ u) (h : w <:+: u ++ v) :
    w <:+: v := by
  induction u with
  | nil => exact h
  | cons d u ih =>
    refine ih (fun c hc hmem => hu c hc (by simp [hmem])) ?_
    rcases List.infix_cons_iff.mp h with hstarts | hoccurs
    · obtain ⟨c, w, rfl⟩ := List.exists_cons_of_ne_nil hw
      obtain ⟨rfl, -⟩ := List.cons_prefix_cons.mp hstarts
      exact absurd (by simp) (hu c (by simp))
    · exact hoccurs

namespace Template

variable {w t : Text} {x : Decimal}

/-- No character of a numeral is foreign to it. -/
lemma isForeign_of_mem_numeral {c : Char} (h : c ∈ numeral x) : isForeign c = false := by
  simp only [numeral, List.mem_cons, List.mem_append, List.not_mem_nil, or_false] at h
  rcases h with rfl | h | rfl
  · rfl
  · rcases Decimal.mem_plain h with h | rfl
    · simp [isForeign, h]
    · rfl
  · rfl

/-- A function with filled slots begins with foreign characters only if it does so without. -/
lemma prefix_of_render (hw : ∀ c ∈ w, isForeign c = true)
    (h : w <+: (ofText t).render x) : w <+: t := by
  rw [render_ofText] at h
  induction t generalizing w with
  | nil => exact h
  | cons d t ih =>
    cases w with
    | nil => exact List.nil_prefix
    | cons c w =>
      rw [List.flatMap_cons] at h
      by_cases hd : d = variableLetter
      · -- a numeral begins with a bracket
        rw [if_pos hd] at h
        obtain ⟨rfl, -⟩ := List.cons_prefix_cons.mp h
        exact absurd (hw '(' (by simp)) (by decide)
      · rw [if_neg hd, List.singleton_append] at h
        obtain ⟨rfl, hrest⟩ := List.cons_prefix_cons.mp h
        exact List.cons_prefix_cons.mpr ⟨rfl, ih (fun e he => hw e (by simp [he])) hrest⟩

/-- **Filling the slots** of a function brings no plain word into it. -/
theorem infix_of_render (hw : IsPlainWord w) (h : w <:+: (ofText t).render x) : w <:+: t := by
  rw [render_ofText] at h
  induction t with
  | nil => exact h
  | cons d t ih =>
    rw [List.flatMap_cons] at h
    by_cases hd : d = variableLetter
    · rw [if_pos hd] at h
      have hforeign : ∀ c ∈ w, c ∉ numeral x := fun c hc hmem => by
        have hc' := hw.2 c hc
        rw [isForeign_of_mem_numeral hmem] at hc'
        exact absurd hc' (by decide)
      exact (ih (infix_of_append hw.1 hforeign h)).trans (List.infix_cons (List.infix_refl t))
    · rw [if_neg hd, List.singleton_append] at h
      rcases List.infix_cons_iff.mp h with hstarts | hoccurs
      · refine (prefix_of_render (x := x) hw.2 ?_).isInfix
        rw [render_ofText, List.flatMap_cons, if_neg hd]
        exact hstarts
      · exact List.infix_cons (ih hoccurs)

end Template

/-! ### Texts without some words -/

/-- A text in small letters in which none of some words occurs. -/
structure Avoids (words : List Text) (t : Text) : Prop where
  small : normalizeCase t = t
  absent : ∀ w ∈ words, ¬ w <:+: t

section Avoids

variable {words : List Text} {s : Session} {t u : Text}

/-- The characters of small letters are small. -/
lemma isSmall_of_normalizeCase_eq_self (h : normalizeCase t = t) {c : Char} (hc : c ∈ t) :
    IsSmall c := by
  rw [← h] at hc
  obtain ⟨d, -, hd⟩ := List.mem_flatMap.mp hc
  exact isSmall_of_mem_lowered hd

/-- A piece of the text avoids what the text avoids. -/
lemma Avoids.of_infix (h : Avoids words t) (hu : u <:+: t) : Avoids words u where
  small := normalizeCase_eq_self fun _ hc => isSmall_of_normalizeCase_eq_self h.small (hu.subset hc)
  absent w hw hoccurs := h.absent w hw (hoccurs.trans hu)

variable (hwords : ∀ w ∈ words, IsPlainWord w)

include hwords

/-- A bracket in front of a text makes no plain word. -/
lemma Avoids.open_cons (h : Avoids words t) : Avoids words ('(' :: t) where
  small := by
    rw [normalizeCase_cons_of_isSmall (show IsSmall '(' by decide), h.small]
  absent w hw hoccurs := by
    refine h.absent w hw
      (infix_of_append (u := ['(']) (hwords w hw).1 (fun c hc hmem => ?_) hoccurs)
    rw [List.mem_singleton.mp hmem] at hc
    exact absurd ((hwords w hw).2 _ hc) (by decide)

/-- Brackets around a text make no plain word. -/
lemma Avoids.wrap (h : Avoids words t) : Avoids words (DecimalCalculator.wrap t) := by
  have hclosed : Avoids words (t ++ [')']) := by
    refine ⟨by rw [normalizeCase_append, h.small]; rfl, fun w hw hoccurs => ?_⟩
    -- read backward, the closing bracket stands in front
    refine h.absent w hw (List.reverse_infix.mp (infix_of_append (u := [')']) ?_ ?_ ?_))
    · simpa using (hwords w hw).1
    · intro c hc hmem
      rw [List.mem_singleton.mp hmem, List.mem_reverse] at hc
      exact absurd ((hwords w hw).2 _ hc) (by decide)
    · simpa using List.reverse_infix.mpr hoccurs
  exact hclosed.open_cons hwords

/-- Numerals in the slots of a function make no plain word. -/
lemma Avoids.render (h : Avoids words t) (x : Decimal) :
    Avoids words ((Template.ofText t).render x) where
  small := by
    refine normalizeCase_eq_self fun c hc => ?_
    rw [Template.render_ofText] at hc
    obtain ⟨d, hd, hc⟩ := List.mem_flatMap.mp hc
    split at hc
    · simp only [Template.numeral, List.mem_cons, List.mem_append, List.not_mem_nil,
        or_false] at hc
      rcases hc with rfl | hc | rfl
      · decide
      · rcases Decimal.mem_plain hc with hc | rfl
        · exact isSmall_of_isCaseless (isCaseless_of_isNumeral hc)
        · decide
      · decide
    · rw [List.mem_singleton.mp hc]
      exact isSmall_of_normalizeCase_eq_self h.small hd
  absent w hw hoccurs := h.absent w hw (Template.infix_of_render (hwords w hw) hoccurs)

end Avoids

/-! ### Parts -/

namespace Session

variable {s : Session} {t : Text}

/-- A text that names no register stays as it is when the registers are put in. -/
lemma expand_eq_of_avoids {words : List Text} (hregisters : functionRegisters ⊆ words)
    (h : Avoids words t) : s.expand t = t := by
  have hfill : s.fillRegisters t = t := fillRegisters_eq_self fun w hw => h.absent w (hregisters hw)
  rw [expand, h.small, hfill, h.small]

/-- A function that names no register is the text as it stands. -/
lemma template_eq_of_avoids {words : List Text} (hregisters : functionRegisters ⊆ words)
    (h : Avoids words t) : s.template t = Template.ofText t := by
  rw [template, expand_eq_of_avoids hregisters h]

end Session

section Parts

variable {words : List Text} {s : Session} {t u : Text}

/-- What follows the spelling of a call avoids what the call avoids. -/
lemma Avoids.rest {operation : Operation} {rest : Text} (h : Avoids words t)
    (hcall : call? (normalizeCase (stripWrapping t)) = some (operation, rest)) :
    Avoids words rest := by
  have hinner : Avoids words (stripWrapping t) := h.of_infix (stripWrapping_isInfix t)
  obtain ⟨spelling, -, happend⟩ := append_of_call? hcall
  rw [hinner.small] at happend
  exact hinner.of_infix (happend ▸ (List.suffix_append spelling rest).isInfix)

/-- A text calls in small letters the aggregates that it calls. -/
protected lemma CallsAggregate.normalizeCase {args : Arguments} (h : CallsAggregate t args) :
    CallsAggregate (DecimalCalculator.normalizeCase t) args := by
  obtain ⟨a, rest, hcall, hargs⟩ := h
  exact ⟨a, rest, by rwa [stripWrapping_normalizeCase, normalizeCase_idem], hargs⟩

variable (hwords : ∀ w ∈ words, IsPlainWord w)

include hwords

/-- The arguments of an aggregate avoid what its call avoids. -/
lemma Avoids.arguments {args : Arguments} (h : Avoids words t) (hcalls : CallsAggregate t args) :
    Avoids words args.function ∧ Avoids words args.lower ∧ Avoids words args.upper := by
  obtain ⟨a, rest, hcall, hargs⟩ := hcalls
  obtain ⟨function, upper, happend, hfunction, hupper, -⟩ := Arguments.append_of_ofCall? hargs
  have hcalled := h.rest hcall
  rw [happend] at hcalled
  refine ⟨?_, ?_, ?_⟩
  · rw [hfunction]
    exact (hcalled.of_infix (List.prefix_append _ _).isInfix).wrap hwords
  · exact hcalled.of_infix ⟨function ++ [','], ',' :: upper, by simp⟩
  · rw [hupper]
    refine hcalled.of_infix ((List.dropLast_prefix upper).isInfix.trans ?_)
    exact ⟨function ++ ',' :: (args.lower ++ [',']), [], by simp⟩

/-- **Parts** of a text avoid what the text avoids, among that the names of the function
registers. -/
theorem Avoids.part (h : Avoids words t) (hregisters : functionRegisters ⊆ words)
    (hpart : IsPart s t u) : Avoids words u := by
  have hinner : Avoids words (stripWrapping t) := h.of_infix (stripWrapping_isInfix t)
  cases hpart with
  | left hsplit => exact hinner.of_infix (hsplit ▸ (List.prefix_append _ _).isInfix)
  | @right op a b hsplit => exact hinner.of_infix (hsplit ▸ ⟨a ++ [op.sign], [], by simp⟩)
  | argument hcall => exact (h.rest hcall).open_cons hwords
  | lower hcalls => exact (h.arguments hwords hcalls).2.1
  | upper hcalls => exact (h.arguments hwords hcalls).2.2
  | sample x hcalls =>
    have hfunction := (h.arguments hwords hcalls).1
    rw [Session.template_eq_of_avoids hregisters hfunction]
    exact hfunction.render hwords x

/-- **Parts** of a text in whatever letters avoid, in small letters, what the text avoids in small
letters. -/
theorem Avoids.part_normalizeCase (h : Avoids words (normalizeCase t))
    (hregisters : functionRegisters ⊆ words) (hpart : IsPart s t u) :
    Avoids words (normalizeCase u) := by
  have hpiece : u <:+: stripWrapping t → Avoids words (normalizeCase u) := fun hu =>
    h.of_infix (normalizeCase_isInfix (hu.trans (stripWrapping_isInfix t)))
  -- the other parts are those of the text in small letters
  have hsmall : IsPart s (normalizeCase t) u → Avoids words (normalizeCase u) := fun hu => by
    have := h.part hwords hregisters hu
    rwa [this.small]
  cases hpart with
  | left hsplit => exact hpiece (hsplit ▸ (List.prefix_append _ _).isInfix)
  | @right op a b hsplit => exact hpiece (hsplit ▸ ⟨a ++ [op.sign], [], by simp⟩)
  | @argument operation rest hcall =>
    refine hsmall (@IsPart.argument _ _ operation rest ?_)
    rwa [stripWrapping_normalizeCase, normalizeCase_idem]
  | lower hcalls => exact hsmall (.lower hcalls.normalizeCase)
  | upper hcalls => exact hsmall (.upper hcalls.normalizeCase)
  | sample x hcalls => exact hsmall (.sample x hcalls.normalizeCase)

end Parts

end DecimalCalculator
