import DecimalCalculator.Proofs.Expression.Values
import DecimalCalculator.Proofs.Expression.Words
import DecimalCalculator.Proofs.Text.ImplicitProduct

/-!
Texts with a value are explicit.

* `isExplicit_of_isLiteral`, `isExplicit_of_evaluateName`: literals and names are explicit.
* `isExplicit_call`: a call is explicit if its argument in brackets is.
* `Template.isExplicit_of_render`: **a function of the variable** is explicit if it is so with
  numerals in its slots.
* `isExplicit_of_hasValue`: **every text with a value is explicit**, if it is written in small
  letters and names no function register.
-/

namespace DecimalCalculator

/-! ### Literals and names -/

/-- A digit or a point has no part in a product. -/
lemma not_beginsFactor_of_isNumeral {c : Char} (h : isNumeral c = true) :
    isBlank c = false ∧ beginsFactor c = false ∧ endsFactor c = false := by
  rw [isNumeral, Bool.or_eq_true, decide_eq_true_eq] at h
  rcases h with hdigit | rfl
  · have hne : ∀ d : Char, d.isDigit = false → c ≠ d := fun d => ne_of_isDigit hdigit
    have hrange := (isDigit_iff c).mp hdigit
    have hletter : isLetter c = false := by
      rw [isLetter, ← Bool.not_eq_true, isLower_iff]
      omega
    refine ⟨?_, ?_, ?_⟩
    · simp only [isBlank, Bool.or_eq_false_iff, Bool.and_eq_false_iff, decide_eq_false_iff_not]
      omega
    · simp [beginsFactor, isLeadingSymbol, hletter, hne '(' rfl, hne sumSymbol rfl,
        hne piSymbol rfl, hne productSymbol rfl, hne integralSymbol rfl, hne rootSymbol rfl]
    · simp [endsFactor, hne variableLetter rfl, hne 'i' rfl, hne 'e' rfl, hne piSymbol rfl]
  · exact ⟨by decide, by decide, by decide⟩

/-- The mark of an exponent in a literal misses no product sign. -/
lemma isExplicitAt_mark {a b : Text} (h : Decimal.isLiteral (a ++ 'e' :: b) = true) :
    IsExplicitAt a.reverse 'e' b := by
  obtain ⟨sign, digits, rfl, hsign, hne, hdigits⟩ := exponent_of_isLiteral h
  -- a sign or a digit follows
  obtain ⟨d, rest, hrest, hd⟩ : ∃ d rest, sign ++ digits = d :: rest ∧
      (d = '+' ∨ d = '-' ∨ isNumeral d = true) := by
    obtain ⟨d, rest, rfl⟩ := List.exists_cons_of_ne_nil hne
    rcases hsign with rfl | rfl | rfl
    · exact ⟨d, rest, rfl, Or.inr (Or.inr (by simp [isNumeral, hdigits d (by simp)]))⟩
    · exact ⟨'+', d :: rest, rfl, Or.inl rfl⟩
    · exact ⟨'-', d :: rest, rfl, Or.inr (Or.inl rfl)⟩
  rw [hrest]
  refine ⟨by decide, ?_, ?_, by simp⟩
  · cases hprev : a.reverse.head? with
    | none => rfl
    | some p =>
      have hp : p ≠ ')' := by
        rintro rfl
        have hmem : ')' ∈ a := by simpa using List.mem_of_head? hprev
        have := char_of_isLiteral h (c := ')') (by simp [hmem])
        revert this
        decide
      have hmark : isExponentMark p (d :: rest) = isNumeral p := by
        rcases hd with rfl | rfl | hd <;> simp [isExponentMark, *]
      simp [missesBefore, hmark, hp]
  · refine missesAfter_of_head fun e he => ?_
    obtain rfl : d = e := by simpa using he
    rw [← Bool.not_eq_true]
    intro hcontinues
    have hbegins := beginsFactor_of_continuesProduct hcontinues
    rcases hd with rfl | rfl | hd
    · exact absurd hbegins (by decide)
    · exact absurd hbegins (by decide)
    · rw [(not_beginsFactor_of_isNumeral hd).2.1] at hbegins
      exact absurd hbegins (by decide)

/-- **Literals** in small letters are explicit. -/
theorem isExplicit_of_isLiteral {t : Text} (h : Decimal.isLiteral t = true) (hsmall : 'E' ∉ t) :
    IsExplicit t := by
  rintro a c b rfl
  rw [List.append_nil, List.append_nil]
  rcases char_of_isLiteral h (c := c) (by simp) with hnumeral | hc
  · obtain ⟨hblank, hbegins, hends⟩ := not_beginsFactor_of_isNumeral hnumeral
    refine ⟨hblank, missesBefore_of_not_beginsFactor hbegins, missesAfter_of_not_endsFactor hends,
      fun hsign => ?_⟩
    rw [not_isNumeral_of_sign hsign] at hnumeral
    exact absurd hnumeral (by decide)
  · have hsign : c = '+' ∨ c = '-' → IsExplicitAt a.reverse c b := by
      intro hsign
      refine ⟨?_, missesBefore_of_not_beginsFactor ?_, missesAfter_of_not_endsFactor ?_,
        fun _ hmark =>
          betweenIsExponent_of_isLiteral h ?_ hsign fun hmem => hsmall (by simp [hmem])⟩
      · rcases hsign with rfl | rfl <;> decide
      · rcases hsign with rfl | rfl <;> decide
      · rcases hsign with rfl | rfl <;> decide
      · rintro rfl
        exact absurd hmark (by decide)
    rcases hc with hc | hc | rfl | rfl
    · exact hsign (Or.inl hc)
    · exact hsign (Or.inr hc)
    · exact isExplicitAt_mark h
    · exact absurd (by simp) hsmall

/-- Registers, constants and literals are explicit. -/
lemma isExplicit_of_evaluateName {s : Session} {t : Text} {x : Decimal}
    (h : evaluateName s t = .ok x) (hsmall : 'E' ∉ t) : IsExplicit t := by
  unfold evaluateName at h
  split at h
  · decide
  · decide
  · decide
  · decide
  · split at h
    · next hpi =>
      subst hpi
      decide
    · split at h
      · next y hy => exact isExplicit_of_isLiteral (Decimal.isLiteral_of_ofText? hy) hsmall
      · exact absurd h (by simp)

/-! ### Calls -/

/-- The name of an operation is explicit in front of its bracket. -/
lemma isExplicit_name {entry : Text × Operation} (h : entry ∈ operations) :
    IsExplicitBetween [] ['('] entry.1.dropLast := by
  have hall : (operations.all fun entry =>
      decide (IsExplicitBetween [] ['('] entry.1.dropLast)) = true := by decide +kernel
  exact of_decide_eq_true (List.all_eq_true.mp hall entry h)

/-- After the name of an operation a factor may begin. -/
lemma last_of_name {entry : Text × Operation} (h : entry ∈ operations) {p : Char}
    (hp : p ∈ entry.1.dropLast.reverse.head?) : p ≠ ')' ∧ p ≠ 'e' ∧ isNumeral p = false := by
  have hall : (operations.all fun entry =>
      entry.1.dropLast.reverse.head?.all fun p => p ≠ ')' && p ≠ 'e' && !isNumeral p) = true := by
    decide +kernel
  have hlast := List.all_eq_true.mp hall entry h
  rw [Option.mem_def.mp hp, Option.all_some] at hlast
  simpa [and_assoc] using hlast

/-- **Calls** are explicit if their arguments in brackets are. -/
theorem isExplicit_call {spelling rest : Text} {operation : Operation}
    (hmem : (spelling, operation) ∈ operations) (h : IsExplicit ('(' :: rest)) :
    IsExplicit (spelling ++ rest) := by
  have hname := isExplicit_name hmem
  have hspelling : spelling = spelling.dropLast ++ ['('] :=
    (List.dropLast_append_getLast? _ (mem_operations hmem).1).symm
  rw [hspelling, List.append_assoc, List.singleton_append, IsExplicit, isExplicitBetween_append]
  refine ⟨?_, ?_⟩
  · rw [List.append_nil]
    exact hname.append_right fun hempty => absurd hempty (by simp)
  · rw [List.append_nil]
    exact h.append_left fun p hp => last_of_name hmem hp

/-! ### Functions of the variable -/

namespace Template

variable {x : Decimal} {before t : Text} {c : Char}

/-- A text with numerals in place of the variable. -/
def fill (x : Decimal) (t : Text) : Text :=
  t.flatMap fun c => if c = variableLetter then numeral x else [c]

/-- A text that is read backward, with numerals in place of the variable. -/
def fillBackward (x : Decimal) (t : Text) : Text :=
  t.flatMap fun c => if c = variableLetter then (numeral x).reverse else [c]

/-- A text with numerals begins as it does without, or with a bracket in place of the variable. -/
lemma head?_fill (t : Text) :
    (fill x t).head? = t.head?.map fun c => if c = variableLetter then '(' else c := by
  cases t with
  | nil => rfl
  | cons c t =>
    rw [fill, List.flatMap_cons]
    split
    · next h => simp [numeral, h]
    · next h => simp [h]

/-- A text with numerals ends as it does without, or with a bracket in place of the variable. -/
lemma head?_fillBackward (t : Text) :
    (fillBackward x t).head? = t.head?.map fun c => if c = variableLetter then ')' else c := by
  cases t with
  | nil => rfl
  | cons c t =>
    rw [fillBackward, List.flatMap_cons]
    split
    · next h => simp [numeral, h]
    · next h => simp [h]

/-- No variable is left where numerals are. -/
lemma not_isPrefixOf_fill {w : Text} : (variableLetter :: w).isPrefixOf (fill x t) = false := by
  rw [← Bool.not_eq_true, List.isPrefixOf_iff_prefix]
  rintro ⟨rest, hrest⟩
  have hhead := head?_fill (x := x) t
  rw [← hrest] at hhead
  cases t with
  | nil => simp at hhead
  | cons c t =>
    have heq : variableLetter = if c = variableLetter then '(' else c := by simpa using hhead
    split at heq
    · exact absurd heq (by decide)
    · next hne => exact hne heq.symm

/-- A text begins with a digit if it does so with numerals. -/
lemma startsWithDigit_of_fill (h : StartsWithDigit (fill x t)) : StartsWithDigit t := by
  obtain ⟨d, rest, hfill, hd⟩ := h
  have hhead := head?_fill (x := x) t
  rw [hfill] at hhead
  cases t with
  | nil => simp at hhead
  | cons c t =>
    have heq : d = if c = variableLetter then '(' else c := by simpa using hhead
    split at heq
    · exact absurd (heq ▸ hd) (by decide)
    · exact ⟨c, t, rfl, heq ▸ hd⟩

/-- What looks like a mark does so with numerals, and is one if it is so with numerals. -/
lemma endsInMark_of_fillBackward (hmark : looksMarked before = true) :
    looksMarked (fillBackward x before) = true ∧
      (EndsInMark (fillBackward x before) → EndsInMark before) := by
  unfold looksMarked at hmark
  split at hmark
  · next m n rest =>
    obtain ⟨rfl, hn⟩ : m = 'e' ∧ isNumeral n = true := by simpa using hmark
    have hne : n ≠ variableLetter := by
      rintro rfl
      exact absurd hn (by decide)
    have hfill : fillBackward x ('e' :: n :: rest) = 'e' :: n :: fillBackward x rest := by
      simp [fillBackward, hne, show 'e' ≠ variableLetter by decide]
    rw [hfill]
    refine ⟨by simp [looksMarked, hn], fun h => ?_⟩
    by_cases hdigit : n.isDigit = true
    · exact .digit hdigit
    · -- a point, and the digit before it is no bracket
      generalize hrest : fillBackward x rest = filled at h
      cases h with
      | digit hd => exact absurd hd hdigit
      | @point d more hd =>
        have hhead := head?_fillBackward (x := x) rest
        rw [hrest] at hhead
        cases rest with
        | nil => simp at hhead
        | cons c rest =>
          have heq : d = if c = variableLetter then ')' else c := by simpa using hhead
          split at heq
          · exact absurd (heq ▸ hd) (by decide)
          · exact .point (heq ▸ hd)
  · exact absurd hmark (by decide)

/-- A character other than the variable is explicit if it is so among numerals. -/
lemma isExplicitAt_of_fill (hc : c ≠ variableLetter)
    (h : IsExplicitAt (fillBackward x before) c (fill x t)) : IsExplicitAt before c t where
  notBlank := h.notBlank
  nothingBefore := by
    cases before with
    | nil => rfl
    | cons p before =>
      by_cases hp : p = variableLetter
      · subst hp
        exact missesBefore_of_prev (by simp; decide)
      · have hbefore := h.nothingBefore
        rw [head?_fillBackward, List.head?_cons, Option.map_some, if_neg hp] at hbefore
        have hmark : isExponentMark p (fill x t) = isExponentMark p t := by
          cases t with
          | nil => rfl
          | cons d t =>
            rw [fill, List.flatMap_cons]
            split
            · next hd => subst hd; rfl
            · rfl
        simpa [missesBefore, hmark] using hbefore
  nothingAfter := by
    cases t with
    | nil => rfl
    | cons d t =>
      obtain ⟨d', rest, hfill⟩ : ∃ d' rest, fill x (d :: t) = d' :: rest := by
        rw [fill, List.flatMap_cons]
        split
        · exact ⟨_, _, rfl⟩
        · exact ⟨_, _, rfl⟩
      have hhead := head?_fill (x := x) (d :: t)
      have hexp : ['x', 'p', '('].isPrefixOf (fill x (d :: t)) = false := not_isPrefixOf_fill
      have hletter : c ≠ 'x' := hc
      have hinside : isInsideExp (fillBackward x before).head? c (fill x (d :: t)) = false := by
        simp [isInsideExp, hexp, hletter]
      have hafter := h.nothingAfter
      rw [hfill] at hinside hafter hhead
      simp only [missesAfter, hinside, Bool.not_false, Bool.and_true] at hafter
      have hcontinues : continuesProduct d = true → continuesProduct d' = true := by
        intro hd
        have heq : d' = if d = variableLetter then '(' else d := by simpa using hhead
        rw [heq]
        split
        · rfl
        · exact hd
      simp only [missesAfter, Bool.and_eq_false_iff] at hafter ⊢
      left
      refine hafter.imp_right fun hfalse => ?_
      rw [← Bool.not_eq_true] at hfalse ⊢
      exact fun hd => hfalse (hcontinues hd)
  exponent hsign hmark := by
    obtain ⟨hmark', hends⟩ := endsInMark_of_fillBackward (x := x) hmark
    have hexponent := h.exponent hsign hmark'
    rw [betweenIsExponent_iff] at hexponent ⊢
    exact ⟨hends hexponent.1, startsWithDigit_of_fill hexponent.2⟩

/-- The variable is explicit if its numeral is: no numeral or bracket stands before it, and no
factor begins behind it. -/
lemma isExplicitAt_variable {after : Text}
    (hopen : IsExplicitAt (fillBackward x before) '(' after)
    (hnext : ∀ d rest, fill x t = d :: rest → beginsFactor d = false) :
    IsExplicitAt before variableLetter t where
  notBlank := by decide
  nothingBefore := by
    refine missesBefore_of_prev fun p hp => ?_
    by_cases hvariable : p = variableLetter
    · subst hvariable
      decide
    · have hbefore := hopen.nothingBefore
      rw [head?_fillBackward, Option.mem_def.mp hp, Option.map_some, if_neg hvariable] at hbefore
      simpa [missesBefore, show beginsFactor '(' = true from rfl] using hbefore
  nothingAfter := by
    refine missesAfter_of_head fun d hd => ?_
    obtain ⟨t, rfl⟩ := List.head?_eq_some_iff.mp hd
    rw [← Bool.not_eq_true]
    intro hcontinues
    by_cases hvariable : d = variableLetter
    · have := hnext '(' (x.plain ++ [')'] ++ fill x t) (by simp [fill, numeral, hvariable])
      exact absurd this (by decide)
    · have := hnext d (fill x t) (by simp [fill, hvariable])
      rw [beginsFactor_of_continuesProduct hcontinues] at this
      exact absurd this (by decide)
  exponent hsign := absurd hsign (by decide)

/-- A text is explicit where it stands if it is so with numerals. -/
lemma isExplicitBetween_of_fill
    (h : IsExplicitBetween (fillBackward x before) [] (fill x t)) :
    IsExplicitBetween before [] t := by
  induction t generalizing before with
  | nil => exact isExplicitBetween_nil
  | cons c t ih =>
    rw [isExplicitBetween_cons, List.append_nil]
    by_cases hc : c = variableLetter
    · have hfill : fill x (c :: t) = numeral x ++ fill x t := by simp [fill, hc]
      have hback : (numeral x).reverse ++ fillBackward x before = fillBackward x (c :: before) := by
        simp [fillBackward, hc]
      rw [hfill, isExplicitBetween_append, hback] at h
      refine ⟨?_, ih h.2⟩
      rw [hc]
      refine isExplicitAt_variable (isExplicitBetween_cons.mp h.1).1 fun d rest hrest => ?_
      -- behind the closing bracket of the numeral no factor begins
      rw [hrest, isExplicitBetween_cons] at h
      have hbefore := h.2.1.nothingBefore
      rw [head?_fillBackward, List.head?_cons, Option.map_some, if_pos hc] at hbefore
      simpa [missesBefore, isExponentMark, show isNumeral ')' = false from rfl] using hbefore
    · have hfill : fill x (c :: t) = c :: fill x t := by simp [fill, hc]
      have hback : c :: fillBackward x before = fillBackward x (c :: before) := by
        simp [fillBackward, hc]
      rw [hfill, isExplicitBetween_cons, hback, List.append_nil] at h
      exact ⟨isExplicitAt_of_fill hc h.1, ih h.2⟩

/-- **Functions of the variable** are explicit if they are so with numerals in their slots. -/
theorem isExplicit_of_render (h : IsExplicit ((ofText t).render x)) : IsExplicit t := by
  rw [render_ofText] at h
  exact isExplicitBetween_of_fill (show IsExplicitBetween (fillBackward x []) [] (fill x t) from h)

end Template

/-! ### Values -/

/-- A text is explicit if it is so without its outer brackets. -/
lemma isExplicit_of_stripWrapping {t : Text} (h : IsExplicit (stripWrapping t)) :
    IsExplicit t := by
  rw [stripWrapping] at h
  generalize t.length = n at h
  induction n generalizing t with
  | zero => exact h
  | succ n ih =>
    rw [stripWrappingWithin] at h
    split at h
    · next u hu =>
      split at h
      · rw [unwrap?_eq_some_iff.mp hu]
        exact (ih h).append_close.open_cons
      · exact h
    · exact h

/-- Signs of operators separate. -/
lemma Operator.separates_sign (op : Operator) : Separates op.sign := by
  cases op <;> exact ⟨by decide, by decide, by decide, by decide, by decide⟩

/-- Commas separate. -/
lemma separates_comma : Separates ',' := ⟨by decide, by decide, by decide, by decide, by decide⟩

variable {s : Session} {draws : Draws} {t : Text}

/-- An aggregate is explicit if its bounds and a sample of its function are. -/
lemma isExplicit_aggregate {args : Arguments} {x : Decimal} (havoid : Avoids functionRegisters t)
    (hbal : bracketsBalanced (stripWrapping t) = true) (hcalls : CallsAggregate t args)
    (hbalanced : bracketsBalanced args.upper = true) (hlower : IsExplicit args.lower)
    (hupper : IsExplicit args.upper)
    (hsample : IsExplicit ((s.template args.function).render x)) :
    IsExplicit (normalizeCase (stripWrapping t)) := by
  have hfunction := (havoid.arguments (fun _ => isPlainWord_of_mem_functionRegisters) hcalls).1
  rw [Session.template_eq_of_avoids (List.Subset.refl _) hfunction] at hsample
  have hplain := Template.isExplicit_of_render hsample
  obtain ⟨a, rest, hcall, hargs⟩ := hcalls
  obtain ⟨function, hwrap, hrest⟩ := Arguments.append_of_balanced hcall hargs hbal hbalanced
  obtain ⟨spelling, hmem, happend⟩ := append_of_call? hcall
  have hopened : IsExplicit ('(' :: function) := by
    rw [hwrap] at hplain
    exact IsExplicit.of_append_close hplain
  rw [happend]
  refine isExplicit_call hmem ?_
  have hjoined := ((hopened.join separates_comma hlower).join separates_comma hupper).append_close
  rw [hrest]
  simpa using hjoined

/-- **Values**: every text with a value is explicit, if it is written in small letters and names no
function register. -/
theorem isExplicit_of_hasValue {depth : Nat} (havoid : Avoids functionRegisters t)
    (h : HasValue (evaluateWithin s draws depth) t) : IsExplicit t := by
  induction depth generalizing t with
  | zero => exact absurd h not_hasValue_zero
  | succ depth ih =>
    obtain ⟨hbal, hrests⟩ := restsOn_of_hasValue h
    have hsmall : normalizeCase (stripWrapping t) = stripWrapping t :=
      (havoid.of_infix (stripWrapping_isInfix t)).small
    have hpart : ∀ {u}, IsPart s t u → HasValue (evaluateWithin s draws depth) u → IsExplicit u :=
      fun hpart => ih (havoid.part (fun _ => isPlainWord_of_mem_functionRegisters)
        (List.Subset.refl _) hpart)
    refine isExplicit_of_stripWrapping ?_
    cases hrests with
    | @opposite right hdivide _ hright =>
      have hsplit := (loosest?_sound hdivide).1
      rw [hsplit]
      exact IsExplicit.join isExplicitBetween_nil (Operator.separates_sign _)
        (hpart (.right hsplit) hright)
    | @operands op left right hdivide _ hleft hright =>
      have hsplit := (loosest?_sound hdivide).1
      rw [hsplit]
      exact (hpart (.left hsplit) hleft).join op.separates_sign (hpart (.right hsplit) hright)
    | argument _ hcall _ hargument =>
      obtain ⟨spelling, hmem, happend⟩ := append_of_call? hcall
      rw [← hsmall, happend]
      exact isExplicit_call hmem (hpart (.argument hcall) hargument)
    | aggregate x _ hcalls hlower hupper hsample =>
      rw [← hsmall]
      exact isExplicit_aggregate havoid (bracketsBalanced_stripWrapping hbal) hcalls
        (bracketsBalanced_of_hasValue hupper) (hpart (.lower hcalls) hlower)
        (hpart (.upper hcalls) hupper) (hpart (.sample x hcalls) hsample)
    | draw _ hcall =>
      obtain ⟨spelling, hmem, happend⟩ := append_of_call? hcall
      rw [← hsmall, happend]
      exact isExplicit_call hmem (by decide)
    | name _ hname =>
      rw [hsmall] at hname
      refine isExplicit_of_evaluateName hname fun hmem => ?_
      rw [← hsmall] at hmem
      obtain ⟨c, -, hc⟩ := List.mem_flatMap.mp hmem
      exact absurd (isSmall_of_mem_lowered hc) (by decide)

end DecimalCalculator
