import DecimalCalculator.Proofs.Expression.Termination
import DecimalCalculator.Proofs.Expression.Words

/-!
How deep evaluations without function registers nest.

* `marks`: the characters of a text, in small letters, that are neither numerals nor brackets.
  `marks_render_le`: numerals in the slots of a function bring no mark into it.
* `IsPart.marks_lt`: **each level takes a mark**, an operator, a name or a comma, unless a register
  has brought marks into the function of an aggregate.
* `Session.AllowsDepth`: the allowed depth suffices for a text. `Session.allowsDepth`: **without
  function registers** it does so for every text, and in every session for those that name none.
-/

namespace DecimalCalculator

/-! ### Marks -/

/-- The characters of a text in small letters, other than numerals and brackets. -/
def marks (t : Text) : ℕ := (normalizeCase t).countP fun c => !isNumeral c && !isBracket c

section Marks

variable {t u : Text}

@[simp] lemma marks_append (u v : Text) : marks (u ++ v) = marks u + marks v := by
  simp [marks]

/-- The marks of a text are those of its characters. -/
lemma marks_cons (c : Char) (t : Text) : marks (c :: t) = marks [c] + marks t :=
  marks_append [c] t

@[simp] lemma marks_normalizeCase (t : Text) : marks (normalizeCase t) = marks t := by
  rw [marks, normalizeCase_idem, marks]

/-- A text has no more marks than characters. -/
lemma marks_le_length (t : Text) : marks t ≤ (normalizeCase t).length := List.countP_le_length

/-- A piece of a text has no more marks than the text. -/
lemma marks_le_of_isInfix (h : u <:+: t) : marks u ≤ marks t := by
  obtain ⟨a, b, rfl⟩ := h
  simp only [marks_append]
  omega

/-- Operators are marks. -/
@[simp] lemma marks_sign (op : Operator) : marks [op.sign] = 1 := by
  cases op <;> decide

/-- Numerals and brackets are no marks. -/
lemma marks_eq_zero (h : ∀ c ∈ t, isNumeral c = true ∨ isBracket c = true) : marks t = 0 := by
  have hsmall : normalizeCase t = t := by
    refine normalizeCase_eq_self fun c hc => ?_
    rcases h c hc with hnumeral | hbracket
    · exact isSmall_of_isCaseless (isCaseless_of_isNumeral hnumeral)
    · exact isSmall_of_isCaseless (isCaseless_of_isBracket hbracket)
  rw [marks, hsmall, List.countP_eq_zero]
  intro c hc
  rcases h c hc with hnumeral | hbracket
  · simp [hnumeral]
  · simp [hbracket]

@[simp] lemma marks_wrap (t : Text) : marks (wrap t) = marks t := by
  have hopen : marks ['('] = 0 := marks_eq_zero (by simp [isBracket])
  have hclose : marks [')'] = 0 := marks_eq_zero (by simp [isBracket])
  rw [wrap, marks_cons, marks_append, hopen, hclose, Nat.zero_add, Nat.add_zero]

/-- The spelling of a call has a mark. -/
lemma marks_spelling_pos {entry : Text × Operation} (h : entry ∈ operations) :
    0 < marks entry.1 := by
  have hall : (operations.all fun entry => decide (0 < marks entry.1)) = true := by decide +kernel
  exact of_decide_eq_true (List.all_eq_true.mp hall entry h)

/-- A numeral has at most one mark, a minus sign. -/
lemma marks_numeral_le (x : Decimal) : marks (Template.numeral x) ≤ 1 := by
  have hwrap : marks (Template.numeral x) = marks x.plain := marks_wrap x.plain
  obtain ⟨t, hnumerals, hplain | hplain⟩ := x.plain_cases
  · rw [hwrap, hplain, marks_eq_zero fun c hc => Or.inl (hnumerals c hc)]
    exact Nat.zero_le 1
  · have hminus : marks ['-'] = 1 := marks_sign .minus
    rw [hwrap, hplain, marks_cons, hminus, marks_eq_zero fun c hc => Or.inl (hnumerals c hc)]

/-- **Filling the slots** of a function brings no mark into it. -/
theorem marks_render_le (t : Text) (x : Decimal) :
    marks ((Template.ofText t).render x) ≤ marks t := by
  rw [Template.render_ofText]
  induction t with
  | nil => exact le_rfl
  | cons c t ih =>
    rw [List.flatMap_cons, marks_append, marks_cons c t]
    by_cases hc : c = variableLetter
    · have hvariable : marks [c] = 1 := by rw [hc]; decide
      have := marks_numeral_le x
      rw [if_pos hc]
      omega
    · rw [if_neg hc]
      omega

end Marks

/-! ### Parts -/

variable {s : Session} {t u : Text}

/-- The arguments of an aggregate have fewer marks than its call. -/
lemma CallsAggregate.marks_lt {args : Arguments} (h : CallsAggregate t args) :
    marks args.function < marks t ∧ marks args.lower < marks t ∧ marks args.upper < marks t := by
  obtain ⟨a, rest, hcall, hargs⟩ := h
  obtain ⟨spelling, -, happend⟩ := append_of_call? hcall
  obtain ⟨function, upper, hrest, hfunction, hupper, -⟩ := Arguments.append_of_ofCall? hargs
  have hcomma : marks [','] = 1 := by decide
  have htext : marks (stripWrapping t) =
      marks spelling + (marks function + (1 + (marks args.lower + (1 + marks upper)))) := by
    rw [← marks_normalizeCase, happend, hrest, marks_append, marks_append, marks_cons, marks_append,
      marks_cons ',' upper, hcomma]
  have hwhole := marks_le_of_isInfix (stripWrapping_isInfix t)
  have hlast := marks_le_of_isInfix (List.dropLast_prefix upper).isInfix
  rw [hfunction, hupper, marks_wrap]
  omega

/-- **Each level takes a mark**, unless a register has brought marks into the function of an
aggregate. -/
theorem IsPart.marks_lt (h : IsPart s t u)
    (hexpand : ∀ args, CallsAggregate t args →
      marks (s.expand args.function) ≤ marks args.function) : marks u < marks t := by
  have hwhole := marks_le_of_isInfix (stripWrapping_isInfix t)
  cases h with
  | @left op a b hsplit =>
    rw [hsplit, marks_append, marks_cons, marks_sign] at hwhole
    omega
  | @right op a b hsplit =>
    rw [hsplit, marks_append, marks_cons, marks_sign] at hwhole
    omega
  | @argument operation rest hcall =>
    obtain ⟨spelling, hmem, happend⟩ := append_of_call? hcall
    have hspelling : 0 < marks spelling := marks_spelling_pos hmem
    have hopen : marks ['('] = 0 := marks_eq_zero (by simp [isBracket])
    rw [← marks_normalizeCase, happend, marks_append] at hwhole
    rw [marks_cons, hopen]
    omega
  | lower hcalls => exact hcalls.marks_lt.2.1
  | upper hcalls => exact hcalls.marks_lt.2.2
  | @sample args x hcalls =>
    calc marks ((s.template args.function).render x) ≤ marks (s.expand args.function) :=
          marks_render_le _ x
      _ ≤ marks args.function := hexpand args hcalls
      _ < marks t := hcalls.marks_lt.1

/-! ### Depth -/

variable {draws : Draws}

/-- An evaluation comes to its end at a depth above the number of its marks, if it leads only to
texts into which no register brings marks. -/
lemma evaluateWithin_ne_exhausted {P : Text → Prop} (hparts : ∀ t u, P t → IsPart s t u → P u)
    (hexpand : ∀ t args, P t → CallsAggregate t args →
      marks (s.expand args.function) ≤ marks args.function)
    (ht : P t) {depth : ℕ} (hdepth : marks t < depth) (place : Place) :
    evaluateWithin s draws depth place t ≠ .exhausted := by
  induction depth generalizing t place with
  | zero => exact absurd hdepth (Nat.not_lt_zero _)
  | succ depth ih =>
    -- an evaluation that comes to nothing awaits that of a part, which has fewer marks
    intro hunfinished
    obtain ⟨place', u, hpart, hmissing, -⟩ :=
      (isSequential_evaluateStep s draws place t).exists_awaited hunfinished
    have hfewer := hpart.marks_lt fun args => hexpand t args ht
    exact ih (hparts t u ht hpart) (by omega) place' hmissing

/-- A text that names no function register comes to its end at a depth above the number of its
marks. -/
lemma Avoids.evaluateWithin_ne_exhausted {words : List Text} (hwords : ∀ w ∈ words, IsPlainWord w)
    (hregisters : functionRegisters ⊆ words) (h : Avoids words t) {depth : ℕ}
    (hdepth : marks t < depth) (place : Place) :
    evaluateWithin s draws depth place t ≠ .exhausted := by
  refine DecimalCalculator.evaluateWithin_ne_exhausted (P := Avoids words)
    (fun _ _ ht hpart => ht.part hwords hregisters hpart) (fun _ args ht hcalls => ?_) h hdepth place
  rw [Session.expand_eq_of_avoids hregisters (ht.arguments hwords hcalls).1]

namespace Session

/-- The allowed depth of a text is above the number of its marks. -/
lemma marks_lt_allowedDepth (s : Session) (t : Text) : marks t < s.allowedDepth t := by
  have := marks_le_length t
  rw [allowedDepth]
  omega

/-- Registers without text bring no marks into a text. -/
lemma marks_fillRegisters_le (hanswer : s.functionAnswer = []) (hmemory : s.functionMemory = [])
    (t : Text) : marks (s.fillRegisters t) ≤ marks t := by
  fun_induction s.fillRegisters t with
  | case1 rest ih =>
    rw [hanswer, List.nil_append]
    exact ih.trans (marks_le_of_isInfix (List.suffix_append ['f', 'a', 'n', 's'] rest).isInfix)
  | case2 rest ih =>
    rw [hmemory, List.nil_append]
    exact ih.trans (marks_le_of_isInfix (List.suffix_append ['f', 'm', 'e', 'm'] rest).isInfix)
  | case3 c rest _ _ ih =>
    rw [marks_cons c rest, marks_cons c]
    omega
  | case4 => exact le_rfl

/-- Nor do they bring marks into the function of an aggregate. -/
lemma marks_expand_le (hanswer : s.functionAnswer = []) (hmemory : s.functionMemory = [])
    (t : Text) : marks (s.expand t) ≤ marks t := by
  rw [expand, marks_normalizeCase]
  exact (marks_fillRegisters_le hanswer hmemory _).trans_eq (marks_normalizeCase t)

variable (draws) in
/-- The allowed depth suffices for a text, if any depth does so. -/
def AllowsDepth (s : Session) (t : Text) : Prop :=
  evaluateWithin s draws (s.allowedDepth t) [] t = evaluation s draws [] t

/-- **Without function registers** the allowed depth suffices for every text, and in every session
for those that name no function register. -/
theorem allowsDepth
    (h : s.functionAnswer = [] ∧ s.functionMemory = [] ∨ Avoids functionRegisters t) :
    s.AllowsDepth draws t := by
  refine (evaluation_extends s draws _ [] t ?_).symm
  rcases h with ⟨hanswer, hmemory⟩ | havoids
  · exact evaluateWithin_ne_exhausted (P := fun _ => True) (fun _ _ _ _ => trivial)
      (fun _ args _ _ => marks_expand_le hanswer hmemory args.function) trivial
      (s.marks_lt_allowedDepth t) []
  · exact havoids.evaluateWithin_ne_exhausted (fun _ => isPlainWord_of_mem_functionRegisters)
      (List.Subset.refl _) (s.marks_lt_allowedDepth t) []

/-- Function registers leave room for the nesting that they may add. -/
lemma registerNesting_lt_allowedDepth (h : ¬ (s.functionAnswer = [] ∧ s.functionMemory = []))
    (t : Text) : registerNesting < s.allowedDepth t := by
  rw [allowedDepth, if_neg (by simpa using h)]
  omega

/-- The allowed depth suffices for a text that comes to its end at a smaller one. -/
lemma allowsDepth_of_ne_exhausted {n : ℕ} (hn : n ≤ s.allowedDepth t)
    (h : evaluateWithin s draws n [] t ≠ .exhausted) : s.AllowsDepth draws t :=
  evaluateWithin_eq_evaluation s draws (evaluation_extends s draws n [] t h).symm hn

end Session

end DecimalCalculator
