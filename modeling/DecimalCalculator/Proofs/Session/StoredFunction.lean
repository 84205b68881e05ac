import DecimalCalculator.Console.Command
import DecimalCalculator.Proofs.Expression.Aggregate
import DecimalCalculator.Proofs.Expression.Depth
import DecimalCalculator.Proofs.Expression.Draws
import DecimalCalculator.Proofs.Session.Preparation

/-!
Functions that are stored in a register.

* `IsPlainArgument`: a text that a call can hold as an argument, and that names neither a function
  register nor random numbers. `IsPlainArgument.prepared`: preparation and small letters keep that.
* `Avoids.evaluateWithin_eq`: such a text comes to the same at every depth above its marks.
* `FunctionRegister`: the two registers that hold functions. `FunctionRegister.template_name`: **the
  name of a register** stands for its content as a function.
* `Session.compute_callText_congr`: calls with the same functions and bounds have the same value.
* `Console.reply_storedFunction`: **a stored function** behaves like the same text written in its
  place.
-/

namespace DecimalCalculator

/-! ### Arguments -/

/-- No such name holds a product sign. -/
lemma star_notMem_of_mem_drawingWords {w : Text} (hw : w ∈ drawingWords) : '*' ∉ w := by
  simp only [drawingWords, functionRegisters, List.mem_cons, List.not_mem_nil, or_false] at hw
  rcases hw with rfl | rfl | rfl <;> decide

/-- A text that is balanced, not blank and without commas outside its brackets, and in which
neither random numbers nor function registers are named, blanks and case aside. -/
structure IsPlainArgument (t : Text) : Prop where
  isArgument : IsArgument t
  notBlank : ∃ c ∈ t, isBlank c = false
  absent : ∀ w ∈ drawingWords, ¬ w <:+: normalizeCase (removeBlanks t)

/-- Further product signs stay so in small letters. -/
lemma AddsProducts.normalizeCase {t u : Text} (h : AddsProducts t u) :
    AddsProducts (DecimalCalculator.normalizeCase t) (DecimalCalculator.normalizeCase u) := by
  have hkeep : ∀ (w : Text) {t u : Text}, AddsProducts t u → AddsProducts (w ++ t) (w ++ u) := by
    intro w t u h
    induction w with
    | nil => exact h
    | cons c w ih => exact .keep c ih
  induction h with
  | nil => exact .nil
  | keep c _ ih => exact hkeep (lowered c) ih
  | write _ ih =>
    rw [normalizeCase_cons_of_isSmall (show IsSmall '*' by decide)]
    exact .write ih

/-- What preparation makes of a plain argument. -/
structure IsPrepared (t : Text) : Prop where
  isArgument : IsArgument t
  ne_nil : t ≠ []
  avoids : Avoids drawingWords (normalizeCase t)

/-- **Preparation** keeps what makes a text a plain argument. -/
theorem IsPlainArgument.prepared {t : Text} (h : IsPlainArgument t) : IsPrepared (preprocess t) where
  isArgument := h.isArgument.of_skeleton (skeleton_preprocess t)
  ne_nil hnil := by
    obtain ⟨c, hc, hblank⟩ := h.notBlank
    have hkept : c ∈ removeBlanks t := List.mem_filter.mpr ⟨hc, by simp [hblank]⟩
    have hadds := addsProducts_insertProductsAfter none (removeBlanks t)
    rw [show insertProductsAfter none (removeBlanks t) = [] from hnil] at hadds
    cases hrest : removeBlanks t with
    | nil => simp [hrest] at hkept
    | cons d rest =>
      rw [hrest] at hadds
      cases hadds
  avoids := by
    refine ⟨normalizeCase_idem _, fun w hw hoccurs => h.absent w hw ?_⟩
    have hadds := (addsProducts_insertProductsAfter none (removeBlanks t)).normalizeCase
    refine hadds.infix_of_not_mem (fun hstar => ?_) hoccurs
    exact absurd hstar (star_notMem_of_mem_drawingWords hw)

/-! ### Depth -/

/-- **A text that names neither registers nor random numbers** comes to the same at every place and
at every depth above the number of its marks, whatever is drawn. -/
theorem Avoids.evaluateWithin_eq {s : Session} {draws draws' : Draws} {t : Text}
    (h : Avoids drawingWords t) {m n : ℕ} (hm : marks t < m) (hn : marks t < n)
    (place place' : Place) :
    evaluateWithin s draws m place t = evaluateWithin s draws' n place' t := by
  have hfinished : ∀ k, marks t < k → evaluateWithin s draws' k place' t ≠ .exhausted := fun k hk =>
    h.evaluateWithin_ne_exhausted (fun _ => isPlainWord_of_mem_drawingWords)
      (List.subset_cons_self _ _) hk place'
  have hsame : evaluateWithin s draws m place t = evaluateWithin s draws' m place' t :=
    (neverDraws_of_avoids h).evaluateWithin_eq m
  rw [hsame]
  rcases Nat.le_total m n with hle | hle
  · exact (evaluateWithin_extends s draws' hle place' t (hfinished m hm)).symm
  · exact evaluateWithin_extends s draws' hle place' t (hfinished n hn)

/-! ### Registers -/

/-- The registers that hold functions. -/
inductive FunctionRegister where
  | answer | memory

namespace FunctionRegister

variable {s : Session}

/-- The name of the register in the function of an aggregate. -/
def name : FunctionRegister → Text
  | answer => ['f', 'a', 'n', 's']
  | memory => ['f', 'm', 'e', 'm']

/-- The command that stores a function in the register. -/
def command : FunctionRegister → Command
  | answer => .answerFunction
  | memory => .storeFunction

/-- What the register holds in a session. -/
def content (s : Session) : FunctionRegister → Text
  | answer => s.functionAnswer
  | memory => s.functionMemory

/-- A session with another function in the register. -/
def store (s : Session) (t : Text) : FunctionRegister → Session
  | answer => { s with functionAnswer := t }
  | memory => { s with functionMemory := t }

/-- The line that stores a function. -/
def storeLine (r : FunctionRegister) (function : Text) : Text :=
  ':' :: (text r.command.name ++ ' ' :: function)

@[simp] lemma content_store (r : FunctionRegister) (s : Session) (t : Text) :
    r.content (r.store s t) = t := by
  cases r <;> rfl

/-- The name of a register is an argument, and stays as it is in preparation. -/
lemma name_spec (r : FunctionRegister) : IsArgument r.name ∧ r.name ≠ [] ∧
    normalizeCase r.name = r.name ∧ preprocess r.name = r.name := by
  have hargument : IsArgument r.name := by
    cases r <;> exact .of_noBracket (by simp [name, isBracket]) (by simp [name])
  refine ⟨hargument, ?_, ?_, ?_⟩ <;> cases r <;> decide

/-- **The name of a register** stands for its content as a function. -/
theorem template_name (r : FunctionRegister) (s : Session) :
    s.template (wrap r.name) = Template.ofText (wrap (normalizeCase (r.content s))) := by
  have hfill : s.fillRegisters (wrap r.name) = wrap (r.content s) := by cases r <;> rfl
  rw [Session.template, Session.expand, normalizeCase_wrap, r.name_spec.2.2.1, hfill,
    normalizeCase_wrap]

/-- What a register holds nests less deep than any expression may. -/
lemma marks_content_lt (r : FunctionRegister) (h : r.content s ≠ []) (t : Text) :
    marks (r.content s) + 1 < s.allowedDepth t := by
  have hlength := marks_le_length (r.content s)
  have hnesting : 1 < Session.registerNesting := by decide
  rw [Session.allowedDepth, if_neg]
  · cases r <;> simp only [content] at hlength ⊢ <;> omega
  · cases r <;> simp only [content] at h <;> simp [h]

end FunctionRegister

/-! ### Calls with stored functions -/

section Calls

variable {s : Session} {draws draws' : Draws} {a : Aggregate} {spelling : Text}

/-- An aggregate depends on its function only through what stands for it. -/
lemma evaluateAggregate_argumentText_congr {evaluate : Evaluator} {place : Place}
    {f g lower upper : Text} (hf : IsArgument f) (hg : IsArgument g) (hlower : IsArgument lower)
    (hupper : IsArgument upper) (hfunction : s.template (wrap f) = s.template (wrap g))
    (hlength : (argumentText f lower upper).length < 6 ↔ (argumentText g lower upper).length < 6) :
    evaluateAggregate s evaluate place a (argumentText f lower upper) =
      evaluateAggregate s evaluate place a (argumentText g lower upper) := by
  unfold evaluateAggregate
  rw [Arguments.ofCall?_argumentText hf hlower hupper, Arguments.ofCall?_argumentText hg hlower hupper]
  simp only [hlength]
  split
  · rfl
  · cases a <;>
      simp only [Outcome.ofOption, Outcome.value_bind, evaluateIntegral, evaluateRange,
        integerBounds, hfunction]

/-- The commas of a call are marks beside those of its arguments. -/
lemma marks_add_two_le (spelling function lower upper : Text) :
    marks function + 2 ≤ marks (callText spelling function lower upper) ∧
      marks lower + 2 ≤ marks (callText spelling function lower upper) ∧
      marks upper + 2 ≤ marks (callText spelling function lower upper) := by
  have hcomma : marks [','] = 1 := by decide
  have hpieces : callText spelling function lower upper =
      spelling ++ (['('] ++ (function ++ ([','] ++ (lower ++ ([','] ++ (upper ++ [')'])))))) := rfl
  rw [hpieces]
  simp only [marks_append, hcomma]
  omega

/-- **Calls** with the same function and the same bounds have the same value, if these name neither
registers nor random numbers. -/
theorem Session.compute_callText_congr (hspelling : spelling ∈ a.spellings)
    {f g lower upper function : Text} (hf : IsArgument f) (hg : IsArgument g)
    (hlower : IsPrepared lower) (hupper : IsPrepared upper) (hfne : f ≠ []) (hgne : g ≠ [])
    (hfunction : Avoids drawingWords function)
    (hft : s.template (wrap (normalizeCase f)) = Template.ofText function)
    (hgt : s.template (wrap (normalizeCase g)) = Template.ofText function)
    (hfm : marks function + 1 < s.allowedDepth (callText spelling f lower upper))
    (hgm : marks function + 1 < s.allowedDepth (callText spelling g lower upper)) :
    s.compute draws (callText spelling f lower upper) =
      s.compute draws' (callText spelling g lower upper) := by
  have hfMarks := marks_add_two_le spelling f lower upper
  have hgMarks := marks_add_two_le spelling g lower upper
  have hfDepth := s.marks_lt_allowedDepth (callText spelling f lower upper)
  have hgDepth := s.marks_lt_allowedDepth (callText spelling g lower upper)
  obtain ⟨m, hm⟩ := Nat.exists_eq_succ_of_ne_zero
    (show s.allowedDepth (callText spelling f lower upper) ≠ 0 by omega)
  obtain ⟨n, hn⟩ := Nat.exists_eq_succ_of_ne_zero
    (show s.allowedDepth (callText spelling g lower upper) ≠ 0 by omega)
  rw [hm] at hfDepth hfm
  rw [hn] at hgDepth hgm
  -- both calls ask for the same parts one level deeper
  have hpart : ∀ {t : Text}, Avoids drawingWords t → marks t < m → marks t < n →
      ∀ b : Branch, evaluateWithin s draws m [b] t = evaluateWithin s draws' n [b] t :=
    fun ht htm htn b => ht.evaluateWithin_eq htm htn [b] [b]
  have hf' := hf.normalizeCase
  have hg' := hg.normalizeCase
  have hlower' := hlower.isArgument.normalizeCase
  have hupper' := hupper.isArgument.normalizeCase
  have hlength : ∀ t : Text, t ≠ [] → ¬ (argumentText (normalizeCase t) (normalizeCase lower)
      (normalizeCase upper)).length < 6 := fun t ht =>
    not_length_argumentText_lt (by simpa using ht) (by simpa using hlower.ne_nil)
      (by simpa using hupper.ne_nil)
  have hargs := Arguments.ofCall?_argumentText hg' hlower' hupper'
  rw [compute, compute, hm, hn, Nat.succ_eq_add_one, Nat.succ_eq_add_one, evaluateWithin,
    evaluateWithin, evaluateStep_callText hspelling hf hlower.isArgument hupper.isArgument,
    evaluateStep_callText hspelling hg hlower.isArgument hupper.isArgument,
    evaluateAggregate_argumentText_congr hf' hg' hlower' hupper' (hft.trans hgt.symm)
      (iff_of_false (hlength f hfne) (hlength g hgne))]
  congr 1
  refine evaluateAggregate_congr ?_ ?_ ?_
  · intro args h
    obtain rfl := Option.some.inj (hargs.symm.trans h)
    exact hpart hlower.avoids (by rw [marks_normalizeCase]; omega) (by rw [marks_normalizeCase]; omega)
  · intro args h
    obtain rfl := Option.some.inj (hargs.symm.trans h)
    exact hpart hupper.avoids (by rw [marks_normalizeCase]; omega) (by rw [marks_normalizeCase]; omega)
  · intro args h b x
    obtain rfl := Option.some.inj (hargs.symm.trans h)
    have hmarks := marks_render_le function x
    simp only [hgt]
    exact hpart (hfunction.render (fun _ => isPlainWord_of_mem_drawingWords) x) (by omega) (by omega) b

end Calls

/-! ### Lines -/

/-- Trimming at both ends, the front first. -/
lemma trim_eq (t : Text) : trim t = (t.dropWhile isBlank).rdropWhile isBlank := rfl

/-- Blanks that are taken off the front would be removed anyway. -/
lemma removeBlanks_dropWhile (t : Text) : removeBlanks (t.dropWhile isBlank) = removeBlanks t := by
  induction t with
  | nil => rfl
  | cons c t ih =>
    rw [List.dropWhile_cons]
    split
    · next hc => rw [ih, removeBlanks, removeBlanks, List.filter_cons_of_neg (by simp [hc])]
    · rfl

/-- Blanks that are taken off the end would be removed anyway. -/
lemma removeBlanks_rdropWhile (t : Text) : removeBlanks (t.rdropWhile isBlank) = removeBlanks t := by
  have hreverse : ∀ u : Text, removeBlanks u.reverse = (removeBlanks u).reverse :=
    fun u => List.filter_reverse
  rw [List.rdropWhile, hreverse, removeBlanks_dropWhile, hreverse, List.reverse_reverse]

/-- A text that is not blank is trimmed at its end only behind what is no blank. -/
lemma rdropWhile_append_of_notBlank {t : Text} (h : ∃ c ∈ t, isBlank c = false) (u : Text) :
    (u ++ t).rdropWhile isBlank = u ++ t.rdropWhile isBlank := by
  obtain ⟨c, hc, hblank⟩ := h
  have hkept : t.reverse.dropWhile isBlank ≠ [] := by
    intro hnil
    have hall := List.dropWhile_eq_nil_iff.mp hnil c (by simpa using hc)
    rw [hblank] at hall
    exact absurd hall (by decide)
  rw [List.rdropWhile, List.reverse_append, List.dropWhile_append, if_neg (by simpa using hkept),
    List.reverse_append, List.reverse_reverse]
  rfl

namespace Console

variable {c : Console} {draws : Draws}

/-- **A line that stores** a function changes nothing but the register. -/
theorem reply_storeLine (r : FunctionRegister) {function : Text}
    (h : ∃ ch ∈ function, isBlank ch = false) :
    (c.reply draws (r.storeLine function)).2 =
      { c with session := r.store c.session (preprocess function) } := by
  set kept := function.rdropWhile isBlank with hkept
  set argument := trim (' ' :: kept) with hargument
  have htrim : trim (r.storeLine function) = ':' :: (text r.command.name ++ ' ' :: kept) := by
    have hsplit : r.storeLine function = ':' :: (text r.command.name ++ [' ']) ++ function := by
      simp [FunctionRegister.storeLine]
    have hfront : (r.storeLine function).dropWhile isBlank = r.storeLine function := rfl
    rw [trim_eq, hfront, hsplit, rdropWhile_append_of_notBlank h]
    simp [hkept]
  have hblanks : removeBlanks argument = removeBlanks function := by
    have hspace : removeBlanks (' ' :: kept) = removeBlanks kept := rfl
    rw [hargument, trim_eq, removeBlanks_rdropWhile, removeBlanks_dropWhile, hspace, hkept,
      removeBlanks_rdropWhile]
  have hne : argument ≠ [] := by
    obtain ⟨ch, hch, hblank⟩ := h
    have hmem : ch ∈ removeBlanks argument := by
      rw [hblanks]
      exact List.mem_filter.mpr ⟨hch, by simp [hblank]⟩
    exact List.ne_nil_of_mem (List.mem_of_mem_filter hmem)
  have hname : ∀ ch ∈ text r.command.name, (!isBlank ch) = true :=
    List.all_eq_true.mp (by cases r <;> decide)
  have hfound : Command.ofName? (text r.command.name) = some r.command := by cases r <;> decide
  have hrun : c.runCommand (text r.command.name ++ ' ' :: kept) = c.command r.command argument := by
    have htake : (' ' :: kept).takeWhile (fun ch => !isBlank ch) = [] := rfl
    have hdrop : (' ' :: kept).dropWhile (fun ch => !isBlank ch) = ' ' :: kept := rfl
    rw [runCommand, List.takeWhile_append_of_pos hname, List.dropWhile_append_of_pos hname, htake,
      hdrop, List.append_nil, hfound]
  have hprepared : preprocess argument = preprocess function := by
    rw [preprocess, hblanks, ← preprocess]
  have hcommand : ∃ shown, c.command r.command argument =
      .ok ({ c with session := r.store c.session (preprocess function) }, shown) := by
    have hfull : argument.isEmpty = false := by simpa using hne
    cases r <;>
      simp [FunctionRegister.command, command, hfull, hprepared, FunctionRegister.store]
  obtain ⟨shown, hstored⟩ := hcommand
  rw [reply, htrim]
  simp only [hrun, hstored]

/-- A call is neither trimmed nor taken for a command. -/
lemma reply_callText {a : Aggregate} {spelling : Text} (hspelling : spelling ∈ a.spellings)
    (function lower upper : Text) :
    c.reply draws (callText spelling function lower upper) =
      match c.session.evaluateLine draws (callText spelling function lower upper) with
      | (.ok x, session) => (.value x, { c with session := session })
      | (.error f, _) => (.failed f, c) := by
  obtain ⟨-, hne, hchars⟩ := Aggregate.mem_operations hspelling
  obtain ⟨ch, rest, rfl⟩ := List.exists_cons_of_ne_nil hne
  have hblank : isBlank ch = false := ((a.explicit_spelling hspelling).1 ch (by simp)).1
  have hcolon : ch ≠ ':' := by
    rintro rfl
    rcases hchars ':' (by simp) with h | h <;> exact absurd h (by decide)
  have hclose : callText (ch :: rest) function lower upper =
      ((ch :: rest) ++ '(' :: (function ++ ',' :: (lower ++ ',' :: upper))) ++ [')'] := by
    simp [callText, argumentText]
  have htrim : trim (callText (ch :: rest) function lower upper) =
      callText (ch :: rest) function lower upper := by
    have hfront : (callText (ch :: rest) function lower upper).dropWhile isBlank =
        callText (ch :: rest) function lower upper := List.dropWhile_cons_of_neg (by simp [hblank])
    rw [trim_eq, hfront, hclose]
    exact List.rdropWhile_concat_neg _ _ _ (by decide)
  rw [reply, htrim]
  split
  · next h => simp [callText] at h
  · next h => exact absurd (List.cons_eq_cons.mp h).1 hcolon
  · rfl

/-- **Stored functions**: after a line that stores a function, a call of an aggregate that names the
register has the reply of the call in which the function is written out, and leaves the same
console behind. -/
theorem reply_storedFunction (c : Console) (draws draws' draws'' : Draws) (r : FunctionRegister)
    {a : Aggregate} {spelling function lower upper : Text} (hspelling : spelling ∈ a.spellings)
    (hfunction : IsPlainArgument function) (hlower : IsPlainArgument lower)
    (hupper : IsPlainArgument upper) :
    let stored := (c.reply draws (r.storeLine function)).2
    stored.reply draws' (callText spelling r.name lower upper) =
      stored.reply draws'' (callText spelling function lower upper) := by
  intro stored
  set s := stored.session with hs
  have hcontent : r.content s = preprocess function := by
    rw [hs, show stored = _ from reply_storeLine r hfunction.notBlank]
    exact r.content_store c.session (preprocess function)
  obtain ⟨hname, hnameNe, hnameSmall, hnamePrepared⟩ := r.name_spec
  have hwritten := hfunction.prepared
  have havoids : Avoids drawingWords (wrap (normalizeCase (preprocess function))) :=
    hwritten.avoids.wrap fun _ => isPlainWord_of_mem_drawingWords
  have hcompute : s.compute draws' (callText spelling r.name (preprocess lower) (preprocess upper)) =
      s.compute draws'' (callText spelling (preprocess function) (preprocess lower)
        (preprocess upper)) := by
    refine Session.compute_callText_congr hspelling hname hwritten.isArgument hlower.prepared
      hupper.prepared hnameNe hwritten.ne_nil havoids ?_ ?_ ?_ ?_
    · rw [hnameSmall, r.template_name, hcontent]
    · exact Session.template_eq_of_avoids (List.subset_cons_self _ _) havoids
    · have hregister := r.marks_content_lt (hcontent.symm ▸ hwritten.ne_nil)
        (callText spelling r.name (preprocess lower) (preprocess upper))
      rwa [marks_wrap, marks_normalizeCase, ← hcontent]
    · have hcall := (marks_add_two_le spelling (preprocess function) (preprocess lower)
        (preprocess upper)).1
      have hdepth := s.marks_lt_allowedDepth
        (callText spelling (preprocess function) (preprocess lower) (preprocess upper))
      rw [marks_wrap, marks_normalizeCase]
      omega
  rw [reply_callText hspelling, reply_callText hspelling, Session.evaluateLine,
    Session.evaluateLine, preprocess_callText hspelling, preprocess_callText hspelling,
    hnamePrepared, Session.evaluate, Session.evaluate, ← hs, hcompute]

/-- A polynomial that is stored, and summed over three integers. -/
theorem reply_storedFunction_polynomial :
    let c := ofConfiguration .standard false
    let stored := (c.reply (Draws.ofSeed 0) (text ":fsto 2x(x + 1)")).2
    stored.reply (Draws.ofSeed 1) (text "sum(fmem,1, 3)") =
      stored.reply (Draws.ofSeed 2) (text "sum(2x(x + 1),1, 3)") := by
  have hone : IsPlainArgument (text "1") :=
    ⟨.of_notMem (by decide) (by decide), ⟨'1', by decide, by decide⟩, by decide⟩
  have hthree : IsPlainArgument (text " 3") :=
    ⟨.of_notMem (by decide) (by decide), ⟨'3', by decide, by decide⟩, by decide⟩
  have hfunction : IsPlainArgument (text "2x(x + 1)") :=
    ⟨.of_notMem (by decide) (by decide), ⟨'2', by decide, by decide⟩, by decide⟩
  have hspelling : Aggregate.sum.name ∈ Aggregate.sum.spellings := by decide
  exact reply_storedFunction (ofConfiguration .standard false) (Draws.ofSeed 0) (Draws.ofSeed 1)
    (Draws.ofSeed 2) .memory hspelling hfunction hone hthree

end Console

end DecimalCalculator
