import DecimalCalculator.Expression.Scan
import DecimalCalculator.Proofs.Text.Brackets
import DecimalCalculator.Proofs.Text.ExponentSign

/-!
What the scans for operators find.

* `scan_cons`: one character of a scan. `scan_append`: it passes over text in which nothing stops it.
* `splitFirst_eq_some`, `splitLast_eq_some`: **the leftmost and rightmost stop** outside brackets
  is the one at which a text is divided; `splitFirst_eq_none`, `splitLast_eq_none` if there is no
  stop. `splitFirst_sound`, `splitLast_sound`: nothing else is divided.
* `Operator.rank`: how tightly an operator binds. `BindsAtLeast`: no operator outside brackets of
  a text, in the place it stands, binds more loosely than some rank. `BindsAtLeast.splitFirst_eq_some`,
  `BindsAtLeast.splitLast_eq_some`: **the leftmost and rightmost operator** is one around which
  the text binds more tightly.
* `loosest?_eq_some`, `loosest?_eq_none`, `split?_of_loosest?`, `loosest?_sound`: at which operator
  a text divides.
-/

namespace DecimalCalculator

/-! ### Scanning -/

section Scanning

variable {opening closing : Char} {σ : Char → Int}
  (hσ : ∀ c, σ c = if c = opening then 1 else if c = closing then -1 else 0)
  (stops : Text → Char → Text → Bool)

include hσ

/-- One character of a scan. -/
lemma scan_cons (c : Char) (t passed : Text) (depth : Int) :
    scan opening closing stops passed depth (c :: t) =
      if c ≠ opening ∧ c ≠ closing ∧ depth = 0 ∧ stops passed c t = true then some (passed, t)
      else scan opening closing stops (c :: passed) (depth + σ c) t := by
  rw [scan, hσ]
  by_cases hopen : c = opening
  · rw [if_pos hopen, if_pos hopen, if_neg fun h => h.1 hopen]
  · rw [if_neg hopen, if_neg hopen]
    by_cases hclose : c = closing
    · rw [if_pos hclose, if_pos hclose, if_neg fun h => h.2.1 hclose, sub_eq_add_neg]
    · simp [hopen, hclose]

/-- A scan passes over text in which nothing at depth zero stops it. -/
lemma scan_append (t rest passed : Text) (depth : Int)
    (hclear : ∀ a c b, t = a ++ c :: b → c ≠ opening → c ≠ closing → depth + (a.map σ).sum = 0 →
      stops (a.reverse ++ passed) c (b ++ rest) = false) :
    scan opening closing stops passed depth (t ++ rest) =
      scan opening closing stops (t.reverse ++ passed) (depth + (t.map σ).sum) rest := by
  induction t generalizing passed depth with
  | nil => simp
  | cons c t ih =>
    have hpass : ¬ (c ≠ opening ∧ c ≠ closing ∧ depth = 0 ∧ stops passed c (t ++ rest) = true) := by
      rintro ⟨hopen, hclose, hdepth, hstop⟩
      have := hclear [] c t rfl hopen hclose (by simpa using hdepth)
      rw [List.reverse_nil, List.nil_append, hstop] at this
      exact absurd this (by decide)
    rw [List.cons_append, scan_cons hσ, if_neg hpass,
      ih (c :: passed) (depth + σ c) fun a d b hab hopen hclose hdepth => ?_]
    · simp [add_assoc]
    · -- the rest of the text, behind `c`, is clear as well
      have := hclear (c :: a) d b (by rw [hab, List.cons_append]) hopen hclose
        (by simp only [List.map_cons, List.sum_cons]; omega)
      simpa using this

/-- A scan stops behind text in which nothing at depth zero stops it. -/
lemma scan_eq_some {t rest : Text} {c : Char}
    (hclear : ∀ a d b, t = a ++ d :: b → d ≠ opening → d ≠ closing → (a.map σ).sum = 0 →
      stops a.reverse d (b ++ c :: rest) = false)
    (hlevel : (t.map σ).sum = 0) (hopen : c ≠ opening) (hclose : c ≠ closing)
    (hstop : stops t.reverse c rest = true) :
    scan opening closing stops [] 0 (t ++ c :: rest) = some (t.reverse, rest) := by
  rw [scan_append hσ stops t (c :: rest) [] 0, scan, if_neg hopen, if_neg hclose]
  · simp [hlevel, hstop]
  · intro a d b hab hdopen hdclose hdepth
    simpa using hclear a d b hab hdopen hdclose (by simpa using hdepth)

/-- A scan ends without a stop if nothing at depth zero stops it. -/
lemma scan_eq_none {t : Text}
    (hclear : ∀ a d b, t = a ++ d :: b → d ≠ opening → d ≠ closing → (a.map σ).sum = 0 →
      stops a.reverse d b = false) :
    scan opening closing stops [] 0 t = none := by
  have h := scan_append hσ stops t [] [] 0 fun a d b hab hdopen hdclose hdepth => by
    simpa using hclear a d b hab hdopen hdclose (by simpa using hdepth)
  rw [List.append_nil] at h
  rw [h, scan]

/-- **What a scan returns** is the first stop at depth zero. -/
lemma scan_sound {t passed before after : Text} {depth : Int}
    (h : scan opening closing stops passed depth t = some (before, after)) :
    ∃ a c, t = a ++ c :: after ∧ before = a.reverse ++ passed ∧ c ≠ opening ∧ c ≠ closing ∧
      depth + (a.map σ).sum = 0 ∧ stops before c after = true ∧
      ∀ a' d b', a = a' ++ d :: b' → d ≠ opening → d ≠ closing → depth + (a'.map σ).sum = 0 →
        stops (a'.reverse ++ passed) d (b' ++ c :: after) = false := by
  induction t generalizing passed depth with
  | nil => simp [scan] at h
  | cons c t ih =>
    rw [scan_cons hσ] at h
    split at h
    · next hstop =>
      obtain ⟨hopen, hclose, hdepth, hstop⟩ := hstop
      obtain ⟨rfl, rfl⟩ := Prod.mk.inj (Option.some.inj h)
      refine ⟨[], c, rfl, rfl, hopen, hclose, by simpa using hdepth, hstop, ?_⟩
      intro a' d b' hsplit
      simp at hsplit
    · next hpass =>
      -- the stop lies behind `c`, which is none itself
      obtain ⟨a, d, rfl, hbefore, hopen, hclose, hlevel, hstop, hfirst⟩ := ih h
      refine ⟨c :: a, d, rfl, by simpa using hbefore, hopen, hclose, ?_, hstop, ?_⟩
      · rw [List.map_cons, List.sum_cons]
        omega
      · intro a' e b' hsplit heopen heclose helevel
        cases a' with
        | nil =>
          obtain ⟨rfl, rfl⟩ := List.cons_eq_cons.mp hsplit
          rw [← Bool.not_eq_true]
          exact fun htrue => hpass ⟨heopen, heclose, by simpa using helevel, htrue⟩
        | cons e' a' =>
          obtain ⟨rfl, hrest⟩ := List.cons_eq_cons.mp hsplit
          rw [List.map_cons, List.sum_cons] at helevel
          have := hfirst a' e b' hrest heopen heclose (by omega)
          simpa using this

/-- A scan that returns nothing has met no stop at depth zero. -/
lemma not_stops_of_scan_eq_none {t passed : Text} {depth : Int}
    (h : scan opening closing stops passed depth t = none) {a b : Text} {d : Char}
    (hsplit : t = a ++ d :: b) (hopen : d ≠ opening) (hclose : d ≠ closing)
    (hlevel : depth + (a.map σ).sum = 0) : stops (a.reverse ++ passed) d b = false := by
  induction t generalizing passed depth a with
  | nil => simp at hsplit
  | cons c t ih =>
    rw [scan_cons hσ] at h
    split at h
    · exact absurd h (by simp)
    · next hpass =>
      cases a with
      | nil =>
        obtain ⟨rfl, rfl⟩ := List.cons_eq_cons.mp hsplit
        rw [← Bool.not_eq_true]
        exact fun htrue => hpass ⟨hopen, hclose, by simpa using hlevel, htrue⟩
      | cons e a =>
        obtain ⟨rfl, hrest⟩ := List.cons_eq_cons.mp hsplit
        rw [List.map_cons, List.sum_cons] at hlevel
        have := ih h hrest (by omega)
        simpa using this

end Scanning

/-! ### Splits -/

/-- The depth as a scan from left to right counts it. -/
lemma turn_eq (c : Char) : turn c = if c = '(' then 1 else if c = ')' then -1 else 0 := rfl

/-- The depth as a scan from right to left counts it. -/
lemma neg_turn_eq (c : Char) : -turn c = if c = ')' then 1 else if c = '(' then -1 else 0 := by
  by_cases hopen : c = '('
  · subst hopen; rfl
  · by_cases hclose : c = ')'
    · subst hclose; rfl
    · simp [turn, hopen, hclose]

/-- Read backward, a text has the opposite rise. -/
lemma sum_neg_turn_reverse (t : Text) : (t.reverse.map fun c => -turn c).sum = -rise t := by
  rw [List.map_reverse, List.sum_reverse]
  induction t with
  | nil => rfl
  | cons c t ih =>
    simp only [List.map_cons, List.sum_cons, rise_cons]
    omega

/-- A character is no bracket if it is neither of the two. -/
lemma isBracket_eq_false {c : Char} (hopen : c ≠ '(') (hclose : c ≠ ')') : isBracket c = false := by
  simp [isBracket, hopen, hclose]

/-- What is no bracket is neither of the two. -/
lemma ne_of_isBracket {c : Char} (h : isBracket c = false) : c ≠ '(' ∧ c ≠ ')' := by
  simpa [isBracket] using h

section Splits

variable {stops : Text → Char → Text → Bool} {t a b : Text} {c : Char}

/-- **Leftmost stop**: a text is divided at a stop before which there is none. -/
theorem splitFirst_eq_some (h : IsOutside t a c b) (hstop : stops a.reverse c b = true)
    (hfirst : ∀ a' d b', IsOutside a a' d b' → stops a'.reverse d (b' ++ c :: b) = false) :
    splitFirst stops t = some (a, b) := by
  obtain ⟨hopen, hclose⟩ := ne_of_isBracket h.plain
  rw [splitFirst, h.split, scan_eq_some turn_eq stops _ h.level hopen hclose hstop]
  · simp
  · intro a' d b' hab hdopen hdclose hlevel
    exact hfirst a' d b' ⟨hab, isBracket_eq_false hdopen hdclose, hlevel⟩

/-- A text without a stop is not divided. -/
theorem splitFirst_eq_none (hnone : ∀ a c b, IsOutside t a c b → stops a.reverse c b = false) :
    splitFirst stops t = none := by
  rw [splitFirst, scan_eq_none turn_eq stops]
  · rfl
  · intro a d b hab hdopen hdclose hlevel
    exact hnone a d b ⟨hab, isBracket_eq_false hdopen hdclose, hlevel⟩

/-- A place in a text that is read backward is the mirrored place of the text. -/
lemma IsOutside.of_reverse {x y : Text} {d : Char} (ht : rise t = 0)
    (hsplit : t.reverse = x ++ d :: y)
    (hopen : d ≠ ')') (hclose : d ≠ '(') (hlevel : (x.map fun c => -turn c).sum = 0) :
    IsOutside t y.reverse d x.reverse := by
  have hplain := isBracket_eq_false hclose hopen
  have hmirror : t = y.reverse ++ d :: x.reverse := by
    have := congrArg List.reverse hsplit
    simpa using this
  refine ⟨hmirror, hplain, ?_⟩
  have hx : rise x.reverse = 0 := by
    have := sum_neg_turn_reverse x.reverse
    rw [List.reverse_reverse, hlevel] at this
    omega
  rw [hmirror, rise_append, rise_cons, turn_of_not_isBracket hplain, hx] at ht
  omega

/-- The stop at which a text is divided is the leftmost one. -/
theorem splitFirst_sound (h : splitFirst stops t = some (a, b)) :
    ∃ c, IsOutside t a c b ∧ stops a.reverse c b = true ∧
      ∀ a' d b', IsOutside a a' d b' → stops a'.reverse d (b' ++ c :: b) = false := by
  rw [splitFirst, Option.map_eq_some_iff] at h
  obtain ⟨⟨before, after⟩, hscan, hparts⟩ := h
  obtain ⟨rfl, rfl⟩ := Prod.mk.inj hparts
  obtain ⟨a, c, hsplit, rfl, hopen, hclose, hlevel, hstop, hfirst⟩ := scan_sound turn_eq stops hscan
  rw [List.append_nil] at hstop ⊢
  rw [List.reverse_reverse]
  refine ⟨c, ⟨hsplit, isBracket_eq_false hopen hclose, by simpa [rise] using hlevel⟩, hstop, ?_⟩
  intro a' d b' hout
  obtain ⟨hdopen, hdclose⟩ := ne_of_isBracket hout.plain
  have := hfirst a' d b' hout.split hdopen hdclose (by simpa [rise] using hout.level)
  simpa using this

/-- A text that is not divided has no stop. -/
theorem not_stops_of_splitFirst_eq_none (h : splitFirst stops t = none) (hout : IsOutside t a c b) :
    stops a.reverse c b = false := by
  rw [splitFirst, Option.map_eq_none_iff] at h
  obtain ⟨hopen, hclose⟩ := ne_of_isBracket hout.plain
  have := not_stops_of_scan_eq_none turn_eq stops h hout.split hopen hclose
    (by simpa [rise] using hout.level)
  simpa using this

/-- **Rightmost stop**: a text is divided at a stop behind which there is none. -/
theorem splitLast_eq_some (ht : rise t = 0) (h : IsOutside t a c b)
    (hstop : stops a.reverse c b = true)
    (hlast : ∀ a' d b', IsOutside b a' d b' → stops (a'.reverse ++ c :: a.reverse) d b' = false) :
    splitLast stops t = some (a, b) := by
  obtain ⟨hopen, hclose⟩ := ne_of_isBracket h.plain
  have hb : rise b = 0 := by
    have := ht
    rw [h.split, rise_append, rise_cons, turn_of_not_isBracket h.plain, h.level] at this
    omega
  have hmirror : t.reverse = b.reverse ++ c :: a.reverse := by rw [h.split]; simp
  rw [splitLast, hmirror,
    scan_eq_some neg_turn_eq (fun passed c ahead => stops ahead c passed) _ _ hclose hopen]
  · simp
  · rw [List.reverse_reverse]
    exact hstop
  · intro x d y hxy hdopen hdclose hlevel
    have := hlast _ d _ (IsOutside.of_reverse hb hxy hdopen hdclose hlevel)
    rwa [List.reverse_reverse] at this
  · rw [sum_neg_turn_reverse, hb]
    rfl

/-- A text without a stop is not divided from the right either. -/
theorem splitLast_eq_none (ht : rise t = 0)
    (hnone : ∀ a c b, IsOutside t a c b → stops a.reverse c b = false) :
    splitLast stops t = none := by
  rw [splitLast, scan_eq_none neg_turn_eq]
  · rfl
  · intro x d y hxy hdopen hdclose hlevel
    have := hnone _ d _ (IsOutside.of_reverse ht hxy hdopen hdclose hlevel)
    rwa [List.reverse_reverse] at this

/-- A place of a text is the mirrored place of the text read backward. -/
lemma IsOutside.reverse {x y : Text} {d : Char} (ht : rise t = 0) (hout : IsOutside t x d y) :
    t.reverse = y.reverse ++ d :: x.reverse ∧ d ≠ ')' ∧ d ≠ '(' ∧
      (y.reverse.map fun c => -turn c).sum = 0 := by
  obtain ⟨hopen, hclose⟩ := ne_of_isBracket hout.plain
  refine ⟨by rw [hout.split]; simp, hclose, hopen, ?_⟩
  rw [hout.split, rise_append, rise_cons, turn_of_not_isBracket hout.plain, hout.level] at ht
  rw [sum_neg_turn_reverse]
  omega

/-- The stop at which a text is divided from the right is the rightmost one. -/
theorem splitLast_sound (ht : rise t = 0) (h : splitLast stops t = some (a, b)) :
    ∃ c, IsOutside t a c b ∧ stops a.reverse c b = true ∧
      ∀ a' d b', IsOutside b a' d b' → stops (a'.reverse ++ c :: a.reverse) d b' = false := by
  rw [splitLast, Option.map_eq_some_iff] at h
  obtain ⟨⟨before, after⟩, hscan, hparts⟩ := h
  obtain ⟨rfl, rfl⟩ := Prod.mk.inj hparts
  obtain ⟨x, c, hsplit, rfl, hopen, hclose, hlevel, hstop, hfirst⟩ :=
    scan_sound neg_turn_eq _ hscan
  rw [List.append_nil] at hstop ⊢
  have hout := IsOutside.of_reverse ht hsplit hopen hclose (by simpa using hlevel)
  refine ⟨c, hout, by rwa [List.reverse_reverse], ?_⟩
  intro a' d b' hout'
  have hx : rise x.reverse = 0 := by
    have := ht
    rw [hout.split, rise_append, rise_cons, turn_of_not_isBracket hout.plain, hout.level] at this
    omega
  obtain ⟨hmirror, hdclose, hdopen, hdlevel⟩ := hout'.reverse hx
  rw [List.reverse_reverse] at hmirror
  have := hfirst _ d _ hmirror hdclose hdopen (by simpa using hdlevel)
  simpa using this

/-- A text that is not divided from the right has no stop. -/
theorem not_stops_of_splitLast_eq_none (ht : rise t = 0) (h : splitLast stops t = none)
    (hout : IsOutside t a c b) : stops a.reverse c b = false := by
  rw [splitLast, Option.map_eq_none_iff] at h
  obtain ⟨hmirror, hclose, hopen, hlevel⟩ := hout.reverse ht
  have := not_stops_of_scan_eq_none neg_turn_eq _ h hmirror hclose hopen (by simpa using hlevel)
  simpa using this

end Splits

/-! ### Operators -/

namespace Operator

/-- How tightly an operator binds: its number among the operators, the loosest first. -/
def rank : Operator → Nat
  | plus => 0
  | minus => 1
  | times => 2
  | divide => 3
  | power => 4
  | modulo => 5

/-- The sign of an operator is no bracket. -/
@[simp] lemma isBracket_sign (op : Operator) : isBracket op.sign = false := by
  cases op <;> rfl

/-- Different operators have different signs. -/
lemma sign_injective {op op' : Operator} (h : op.sign = op'.sign) : op = op' := by
  revert h
  cases op <;> cases op' <;> decide

/-- An operator stands where its sign stands and is not that of an exponent. -/
lemma isAt_iff (op : Operator) (before : Text) (c : Char) (after : Text) :
    op.isAt before c after = true ↔
      c = op.sign ∧ ¬ (op.mayBeExponentSign = true ∧ betweenIsExponent before after = true) := by
  rw [isAt, Bool.and_eq_true, decide_eq_true_eq, Bool.not_eq_true', ← Bool.not_eq_true,
    Bool.and_eq_true]

/-- A text without the operator outside brackets does not divide there. -/
lemma split?_eq_none {op : Operator} {t : Text} (ht : rise t = 0)
    (hnone : ∀ a c b, IsOutside t a c b → op.isAt a.reverse c b = false) : op.split? t = none := by
  rw [split?]
  split
  · exact splitFirst_eq_none hnone
  · exact splitLast_eq_none ht hnone

end Operator

/-- The parts of a text surround an occurrence of the operator at which it divides. -/
lemma Operator.split?_sound {op : Operator} {t left right : Text}
    (h : op.split? t = some (left, right)) :
    t = left ++ op.sign :: right ∧ op.isAt left.reverse op.sign right = true := by
  rw [split?] at h
  split at h
  · obtain ⟨c, hout, hstop, -⟩ := splitFirst_sound h
    obtain rfl := ((op.isAt_iff _ _ _).mp hstop).1
    exact ⟨hout.split, hstop⟩
  · -- the scan from the right counts brackets backward, whether or not they are balanced
    rw [splitLast, Option.map_eq_some_iff] at h
    obtain ⟨⟨before, after⟩, hscan, hparts⟩ := h
    obtain ⟨rfl, rfl⟩ := Prod.mk.inj hparts
    obtain ⟨x, c, hsplit, rfl, -, -, -, hstop, -⟩ := scan_sound neg_turn_eq _ hscan
    obtain rfl := ((op.isAt_iff _ _ _).mp hstop).1
    have hmirror := congrArg List.reverse hsplit
    exact ⟨by simpa using hmirror, by simpa using hstop⟩

/-- A text divides where it can be split at the operator. -/
lemma split?_of_loosest? {flag : Bool} {t left right : Text} {op : Operator}
    (h : loosest? flag t = some (op, left, right)) : op.split? t = some (left, right) := by
  obtain ⟨op', -, hop⟩ := List.exists_of_findSome?_eq_some h
  split at hop
  · exact absurd hop (by simp)
  · rw [Option.map_eq_some_iff] at hop
    obtain ⟨parts, hsplit, hparts⟩ := hop
    obtain ⟨rfl, rfl⟩ := Prod.mk.inj hparts
    exact hsplit

/-- Where a text divides, its parts surround an occurrence of the operator. -/
lemma loosest?_sound {flag : Bool} {t left right : Text} {op : Operator}
    (h : loosest? flag t = some (op, left, right)) :
    t = left ++ op.sign :: right ∧ op.isAt left.reverse op.sign right = true :=
  Operator.split?_sound (split?_of_loosest? h)

/-! ### Ranks of texts -/

/-- No operator outside brackets of `t`, which stands between `before`, read backward, and
`after`, binds more loosely than the rank. -/
def BindsAtLeast (rank : Nat) (before after t : Text) : Prop :=
  ∀ a c b, IsOutside t a c b → ∀ op : Operator,
    op.isAt (a.reverse ++ before) c (b ++ after) = true → rank ≤ op.rank

namespace BindsAtLeast

variable {rank : Nat} {before after : Text}

/-- What binds tightly enough for a rank does for a lower one. -/
lemma mono {rank' : Nat} {t : Text} (h : BindsAtLeast rank before after t) (hle : rank' ≤ rank) :
    BindsAtLeast rank' before after t :=
  fun a c b hout op hop => le_trans hle (h a c b hout op hop)

/-- Two texts in a row bind as tightly as both do where they stand. -/
lemma append {u v : Text} (hrise : rise u = 0) (hu : BindsAtLeast rank before (v ++ after) u)
    (hv : BindsAtLeast rank (u.reverse ++ before) after v) :
    BindsAtLeast rank before after (u ++ v) := by
  intro a c b hout op hop
  rcases hout.append_cases hrise with ⟨b', rfl, hout'⟩ | ⟨a', rfl, hout'⟩
  · exact hu a c b' hout' op (by simpa using hop)
  · exact hv a' c b hout' op (by simpa using hop)

/-- Further text on either side makes no sign an operator. -/
lemma extend {t : Text} (h : BindsAtLeast rank before after t) (more less : Text) :
    BindsAtLeast rank (before ++ more) (after ++ less) t := by
  intro a c b hout op hop
  refine h a c b hout op ?_
  rw [Operator.isAt_iff] at hop ⊢
  refine ⟨hop.1, fun hsign => hop.2 ⟨hsign.1, ?_⟩⟩
  have := betweenIsExponent_append hsign.2 more less
  rwa [List.append_assoc, List.append_assoc] at this

/-- A text in brackets binds as tightly as can be. -/
lemma wrap {t : Text} (h : bracketsBalanced t = true) :
    BindsAtLeast rank before after (DecimalCalculator.wrap t) :=
  fun _ _ _ hout => absurd hout (not_isOutside_wrap h)

/-- A text without signs of operators binds as tightly as can be. -/
lemma of_noSign {t : Text} (h : ∀ c ∈ t, ∀ op : Operator, c ≠ op.sign) :
    BindsAtLeast rank before after t := by
  intro a c b hout op hop
  have hsign := ((op.isAt_iff _ _ _).mp hop).1
  exact absurd hsign (h c (by simp [hout.split]) op)

/-- A sign of an operator binds as its operator does. -/
lemma sign (op : Operator) : BindsAtLeast op.rank before after [op.sign] := by
  intro a c b hout op' hop
  obtain ⟨hsign, -⟩ := (op'.isAt_iff _ _ _).mp hop
  cases a with
  | nil =>
    obtain ⟨rfl, -⟩ := List.cons_eq_cons.mp hout.split
    rw [Operator.sign_injective hsign]
  | cons d a =>
    have := hout.split
    simp at this

section Splits

variable {op : Operator} {t a b : Text} {c : Char}

/-- An operator that binds more loosely is not there. -/
lemma isAt_eq_false (h : BindsAtLeast rank before after t) (hop : op.rank < rank)
    (hout : IsOutside t a c b) : op.isAt (a.reverse ++ before) c (b ++ after) = false := by
  rw [← Bool.not_eq_true]
  intro hat
  have := h a c b hout op hat
  omega

/-- A text does not divide at an operator that binds more loosely. -/
protected lemma split?_eq_none (h : BindsAtLeast rank [] [] t) (ht : rise t = 0)
    (hop : op.rank < rank) : op.split? t = none :=
  op.split?_eq_none ht fun a c b hout => by simpa using h.isAt_eq_false hop hout

/-- An operator is the leftmost one if what stands before it binds more tightly. -/
protected lemma splitFirst_eq_some (h : BindsAtLeast rank [] (op.sign :: b) a)
    (hop : op.rank < rank) (hout : IsOutside t a op.sign b)
    (hat : op.isAt a.reverse op.sign b = true) : splitFirst op.isAt t = some (a, b) :=
  splitFirst_eq_some hout hat fun a' d b' hout' => by simpa using h.isAt_eq_false hop hout'

/-- An operator is the rightmost one if what stands behind it binds more tightly. -/
protected lemma splitLast_eq_some (h : BindsAtLeast rank (op.sign :: a.reverse) [] b)
    (hop : op.rank < rank) (ht : rise t = 0) (hout : IsOutside t a op.sign b)
    (hat : op.isAt a.reverse op.sign b = true) : splitLast op.isAt t = some (a, b) :=
  splitLast_eq_some ht hout hat fun a' d b' hout' => by simpa using h.isAt_eq_false hop hout'

end Splits

end BindsAtLeast

/-! ### Where a text divides -/

/-- The operators that are tried before an operator bind more loosely. -/
lemma Operator.loosestFirst_split (op : Operator) :
    ∃ looser tighter, loosestFirst = looser ++ op :: tighter ∧
      ∀ op' ∈ looser, op'.rank < op.rank := by
  refine ⟨loosestFirst.take op.rank, loosestFirst.drop (op.rank + 1), ?_, ?_⟩
  · cases op <;> rfl
  · cases op <;> decide

/-- A text divides at the loosest operator at which it can be split. -/
lemma loosest?_eq_some {op : Operator} {flag : Bool} {t : Text} {parts : Text × Text}
    (hflag : (flag && op.mayBeExponentSign) = false) (hsplit : op.split? t = some parts)
    (hlooser : ∀ op' : Operator, op'.rank < op.rank → op'.split? t = none) :
    loosest? flag t = some (op, parts) := by
  obtain ⟨looser, tighter, horder, hrank⟩ := op.loosestFirst_split
  rw [loosest?, List.findSome?_eq_some_iff]
  refine ⟨looser, op, tighter, horder, ?_, fun op' hmem => ?_⟩
  · rw [hflag, hsplit]
    rfl
  · rw [hlooser op' (hrank op' hmem)]
    split <;> rfl

/-- A text without operators outside brackets does not divide. -/
lemma loosest?_eq_none {flag : Bool} {t : Text} (hnone : ∀ op : Operator,
    (flag && op.mayBeExponentSign) = true ∨ op.split? t = none) : loosest? flag t = none := by
  rw [loosest?, List.findSome?_eq_none_iff]
  intro op _
  rcases hnone op with hflag | hsplit
  · rw [if_pos hflag]
  · rw [hsplit]
    split <;> rfl

end DecimalCalculator
