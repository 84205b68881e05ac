import Mathlib.Tactic
import DecimalCalculator.Text.Brackets

/-!
Bracket depth, counted with sign, and what stands outside all brackets of a text.

* `rise`: opening brackets less closing ones. `bracketsBalanced_iff`: a text is balanced if no
  part that it begins with has a negative rise, and the whole has none.
* `IsOutside`: an occurrence of a character at depth zero. `IsOutside.append_cases` cuts it along
  two texts, `IsOutside.balanced` cuts a balanced text at it, `not_isOutside_wrap` says that wrapped
  text has none.
* `stripWrapping_wrap`, `stripWrapping_of_isOutside`: **stripping** takes off a pair around
  balanced text, and stops where a character stands outside all brackets.
-/

namespace DecimalCalculator

/-! ### Rise -/

/-- How a character changes the number of open brackets. -/
def turn (c : Char) : Int := if c = '(' then 1 else if c = ')' then -1 else 0

/-- The opening brackets of a text less the closing ones. -/
def rise (t : Text) : Int := (t.map turn).sum

@[simp] lemma rise_nil : rise [] = 0 := rfl

@[simp] lemma rise_cons (c : Char) (t : Text) : rise (c :: t) = turn c + rise t := by
  simp [rise]

@[simp] lemma rise_append (u v : Text) : rise (u ++ v) = rise u + rise v := by
  simp [rise]

@[simp] lemma turn_open : turn '(' = 1 := rfl

@[simp] lemma turn_close : turn ')' = -1 := rfl

/-- Only brackets change the depth. -/
lemma turn_of_not_isBracket {c : Char} (h : isBracket c = false) : turn c = 0 := by
  simp only [isBracket, Bool.or_eq_false_iff, decide_eq_false_iff_not] at h
  simp [turn, h.1, h.2]

/-- A text without brackets has no rise. -/
lemma rise_eq_zero {t : Text} (h : ∀ c ∈ t, isBracket c = false) : rise t = 0 := by
  induction t with
  | nil => rfl
  | cons c t ih =>
    have hc : turn c = 0 := turn_of_not_isBracket (h c (by simp))
    have ht : rise t = 0 := ih fun d hd => h d (by simp [hd])
    simp [hc, ht]

/-! ### Balance -/

/-- After `depth` open brackets a text closes all of them, and none too early. -/
def ClosesFrom (depth : Int) (t : Text) : Prop :=
  (∀ a b, t = a ++ b → 0 ≤ depth + rise a) ∧ depth + rise t = 0

/-- The empty text closes no bracket. -/
lemma closesFrom_nil (depth : Int) : ClosesFrom depth [] ↔ depth = 0 := by
  constructor
  · intro h
    simpa using h.2
  · rintro rfl
    refine ⟨fun a b hab => ?_, by simp⟩
    obtain ⟨rfl, rfl⟩ := List.nil_eq_append_iff.mp hab
    simp

/-- A text closes as its tail does, at the depth that the first character leads to. -/
lemma closesFrom_cons (depth : Int) (c : Char) (t : Text) :
    ClosesFrom depth (c :: t) ↔ 0 ≤ depth ∧ ClosesFrom (depth + turn c) t := by
  constructor
  · rintro ⟨hpre, hend⟩
    refine ⟨by simpa using hpre [] (c :: t) rfl, fun a b hab => ?_, ?_⟩
    · have := hpre (c :: a) b (by rw [hab, List.cons_append])
      rw [rise_cons] at this
      omega
    · rw [rise_cons] at hend
      omega
  · rintro ⟨hdepth, hpre, hend⟩
    refine ⟨fun a b hab => ?_, by rw [rise_cons]; omega⟩
    cases a with
    | nil => simpa using hdepth
    | cons d a =>
      obtain ⟨rfl, rfl⟩ := List.cons_eq_cons.mp hab
      have := hpre a b rfl
      rw [rise_cons]
      omega

/-- The depth at which a text closes is not negative. -/
lemma ClosesFrom.nonneg {depth : Int} {t : Text} (h : ClosesFrom depth t) : 0 ≤ depth := by
  simpa using h.1 [] t rfl

/-- `closes` reads a text bracket by bracket, and finds whether it closes. -/
lemma closes_iff (depth : Nat) (t : Text) : closes depth t = true ↔ ClosesFrom depth t := by
  fun_induction closes depth t with
  | case1 depth => simp [closesFrom_nil]
  | case2 depth rest ih => simp [closesFrom_cons, ih]
  | case3 rest =>
    -- a closing bracket with none open leads below zero
    simp only [closesFrom_cons, turn_close, Bool.false_eq_true, false_iff, not_and]
    intro _ h
    exact absurd h.nonneg (by norm_num)
  | case4 depth rest ih =>
    rw [closesFrom_cons, ih]
    have hdepth : ((depth + 1 : Nat) : Int) + turn ')' = depth := by simp
    rw [hdepth]
    simp; omega
  | case5 depth c rest hopen hzero hclose ih =>
    have hc : turn c = 0 := by
      have hclosing : c ≠ ')' := by
        rintro rfl
        cases depth with
        | zero => exact hzero rfl rfl
        | succ n => exact hclose n rfl rfl
      apply turn_of_not_isBracket
      simpa [isBracket, hclosing] using hopen
    rw [closesFrom_cons, hc, ih]
    simp

/-- **Balance**: the rise of no beginning of the text is negative, and that of the text is zero. -/
theorem bracketsBalanced_iff (t : Text) : bracketsBalanced t = true ↔ ClosesFrom 0 t :=
  closes_iff 0 t

/-- A balanced text has no rise. -/
lemma rise_of_balanced {t : Text} (h : bracketsBalanced t = true) : rise t = 0 := by
  simpa using ((bracketsBalanced_iff t).mp h).2

/-- No beginning of a balanced text has a negative rise. -/
lemma rise_nonneg_of_balanced {a b : Text} (h : bracketsBalanced (a ++ b) = true) : 0 ≤ rise a := by
  simpa using ((bracketsBalanced_iff _).mp h).1 a b rfl

/-- Two balanced texts in a row are balanced. -/
lemma ClosesFrom.append {depth : Int} {u v : Text} (hu : ClosesFrom depth u)
    (hv : ClosesFrom 0 v) : ClosesFrom depth (u ++ v) := by
  induction u generalizing depth with
  | nil =>
    rw [(closesFrom_nil depth).mp hu]
    exact hv
  | cons c u ih =>
    obtain ⟨hdepth, hrest⟩ := (closesFrom_cons depth c u).mp hu
    exact (closesFrom_cons depth c _).mpr ⟨hdepth, ih hrest⟩

/-- Balanced texts in a row are balanced. -/
lemma bracketsBalanced_append {u v : Text} (hu : bracketsBalanced u = true)
    (hv : bracketsBalanced v = true) : bracketsBalanced (u ++ v) = true := by
  rw [bracketsBalanced_iff] at hu hv ⊢
  exact hu.append hv

/-- A text without brackets is balanced. -/
lemma bracketsBalanced_of_noBracket {t : Text} (h : ∀ c ∈ t, isBracket c = false) :
    bracketsBalanced t = true := by
  rw [bracketsBalanced_iff]
  refine ⟨fun a b hab => ?_, by rw [rise_eq_zero h]; rfl⟩
  have ha : rise a = 0 := rise_eq_zero fun c hc => h c (by simp [hab, hc])
  omega

/-- A text in brackets. -/
def wrap (t : Text) : Text := '(' :: (t ++ [')'])

/-- A pair of brackets keeps the balance of a text, and its imbalance. -/
lemma bracketsBalanced_wrap {t : Text} (h : bracketsBalanced t = true) :
    bracketsBalanced (wrap t) = true := by
  have hdeep : ClosesFrom 1 (t ++ [')']) := by
    obtain ⟨hpre, hend⟩ := (bracketsBalanced_iff t).mp h
    refine ⟨fun a b hab => ?_, by simp at hend ⊢; omega⟩
    rcases List.append_eq_append_iff.mp hab with ⟨r, rfl, hr⟩ | ⟨r, rfl, -⟩
    · -- the beginning reaches beyond `t`: at most over the closing bracket
      have hle : rise r = 0 ∨ rise r = -1 := by
        cases r with
        | nil => exact Or.inl rfl
        | cons d r =>
          obtain ⟨rfl, hrest⟩ := List.cons_eq_cons.mp hr
          obtain ⟨rfl, -⟩ := List.nil_eq_append_iff.mp hrest
          exact Or.inr rfl
      simp at hend ⊢
      omega
    · have := hpre a r rfl
      omega
  rw [bracketsBalanced_iff, wrap, closesFrom_cons]
  exact ⟨le_refl 0, hdeep⟩

/-! ### Outside all brackets -/

/-- The character `c` stands at depth zero of the text `t`, between `before` and `after`. -/
structure IsOutside (t before : Text) (c : Char) (after : Text) : Prop where
  split : t = before ++ c :: after
  plain : isBracket c = false
  level : rise before = 0

/-- Outside the brackets of two texts in a row is outside those of either. -/
lemma IsOutside.append_cases {u v a b : Text} {c : Char} (hu : rise u = 0)
    (h : IsOutside (u ++ v) a c b) :
    (∃ b', b = b' ++ v ∧ IsOutside u a c b') ∨ ∃ a', a = u ++ a' ∧ IsOutside v a' c b := by
  obtain ⟨hsplit, hplain, hlevel⟩ := h
  have right : ∀ a', a = u ++ a' → v = a' ++ c :: b →
      ∃ a', a = u ++ a' ∧ IsOutside v a' c b := by
    rintro a' rfl hv
    refine ⟨a', rfl, hv, hplain, ?_⟩
    rw [rise_append, hu] at hlevel
    omega
  rcases List.append_eq_append_iff.mp hsplit with ⟨a', ha, hv⟩ | ⟨r, hr, hv⟩
  · exact Or.inr (right a' ha hv)
  · cases r with
    | nil => exact Or.inr (right [] (by simpa using hr.symm) (by simpa using hv.symm))
    | cons d r =>
      obtain ⟨rfl, rfl⟩ := List.cons_eq_cons.mp hv
      exact Or.inl ⟨r, rfl, hr, hplain, hlevel⟩

/-- What stands on either side of a character outside all brackets of a balanced text is
balanced. -/
lemma IsOutside.balanced {t a b : Text} {c : Char} (h : IsOutside t a c b)
    (ht : bracketsBalanced t = true) : bracketsBalanced a = true ∧ bracketsBalanced b = true := by
  obtain ⟨hsplit, hplain, hlevel⟩ := h
  have hturn := turn_of_not_isBracket hplain
  rw [bracketsBalanced_iff] at ht
  obtain ⟨hpre, hend⟩ := ht
  rw [bracketsBalanced_iff, bracketsBalanced_iff]
  refine ⟨⟨fun x y hxy => ?_, by omega⟩, fun x y hxy => ?_, ?_⟩
  · exact hpre x (y ++ c :: b) (by rw [hsplit, hxy, List.append_assoc])
  · have := hpre (a ++ c :: x) y (by rw [hsplit, hxy]; simp)
    simp only [rise_append, rise_cons] at this
    omega
  · simp only [hsplit, rise_append, rise_cons] at hend
    omega

/-- Nothing stands outside the brackets of a wrapped text. -/
lemma not_isOutside_wrap {t a b : Text} {c : Char} (h : bracketsBalanced t = true) :
    ¬ IsOutside (wrap t) a c b := by
  rintro ⟨hsplit, hplain, hlevel⟩
  cases a with
  | nil =>
    obtain ⟨rfl, -⟩ := List.cons_eq_cons.mp hsplit
    exact absurd hplain (by decide)
  | cons d a =>
    obtain ⟨rfl, hrest⟩ := List.cons_eq_cons.mp hsplit
    rw [rise_cons, turn_open] at hlevel
    rcases List.append_eq_append_iff.mp hrest with ⟨r, rfl, hr⟩ | ⟨r, rfl, -⟩
    · -- past the wrapped text there is only the closing bracket
      cases r with
      | nil =>
        obtain ⟨rfl, -⟩ := List.cons_eq_cons.mp hr
        exact absurd hplain (by decide)
      | cons e r => simp at hr
    · have := rise_nonneg_of_balanced h
      omega

/-- A text with a character outside brackets holds more than brackets. -/
lemma IsOutside.not_isAllBrackets {t a b : Text} {c : Char} (h : IsOutside t a c b) :
    isAllBrackets t = false := by
  rw [isAllBrackets, List.all_eq_false]
  exact ⟨c, by simp [h.split], by simp [h.plain]⟩

/-! ### Stripping -/

/-- Unwrapping undoes wrapping. -/
lemma unwrap?_eq_some_iff {t u : Text} : unwrap? t = some u ↔ t = wrap u := by
  constructor
  · intro h
    unfold unwrap? at h
    split at h
    · next rest =>
      split at h
      · next hlast =>
        obtain rfl : rest.dropLast = u := by simpa using h
        rw [wrap, List.dropLast_append_getLast? _ hlast]
      · exact absurd h (by simp)
    · exact absurd h (by simp)
  · rintro rfl
    simp [unwrap?, wrap]

/-- Once the bound reaches the length of the text, it does not matter. -/
lemma stripWrappingWithin_eq {m n : Nat} {t : Text} (hm : t.length ≤ m) (hn : t.length ≤ n) :
    stripWrappingWithin m t = stripWrappingWithin n t := by
  induction m generalizing n t with
  | zero =>
    obtain rfl : t = [] := by simpa using hm
    cases n <;> rfl
  | succ m ih =>
    cases n with
    | zero =>
      obtain rfl : t = [] := by simpa using hn
      rfl
    | succ n =>
      rw [stripWrappingWithin, stripWrappingWithin]
      split
      · next u hu =>
        have hlength : t.length = u.length + 2 := by
          rw [unwrap?_eq_some_iff.mp hu]
          simp [wrap]
        split
        · exact ih (by omega) (by omega)
        · rfl
      · rfl

/-- Stripping takes one pair of brackets off balanced text, and goes on. -/
lemma stripWrapping_wrap {t : Text} (h : bracketsBalanced t = true) :
    stripWrapping (wrap t) = stripWrapping t := by
  have hlength : (wrap t).length = t.length + 1 + 1 := by simp [wrap]
  rw [stripWrapping, hlength, stripWrappingWithin, unwrap?_eq_some_iff.mpr rfl]
  simp only [h, if_true]
  exact stripWrappingWithin_eq (by omega) le_rfl

/-- A text with a character outside brackets is not stripped. -/
lemma stripWrapping_of_isOutside {t a b : Text} {c : Char} (h : IsOutside t a c b) :
    stripWrapping t = t := by
  rw [stripWrapping]
  cases hlength : t.length with
  | zero => rfl
  | succ n =>
    rw [stripWrappingWithin]
    split
    · next u hu =>
      rw [unwrap?_eq_some_iff.mp hu] at h
      have hu' : ¬ bracketsBalanced u = true := fun hbal => not_isOutside_wrap hbal h
      rw [if_neg hu']
    · rfl

/-- What is left of a balanced text is balanced. -/
lemma bracketsBalanced_stripWrapping {t : Text} (h : bracketsBalanced t = true) :
    bracketsBalanced (stripWrapping t) = true := by
  suffices ∀ n, bracketsBalanced (stripWrappingWithin n t) = true from this _
  intro n
  induction n generalizing t with
  | zero => exact h
  | succ n ih =>
    rw [stripWrappingWithin]
    split
    · split
      · next hinner => exact ih hinner
      · exact h
    · exact h

/-- A text that is not wrapped is not stripped. -/
lemma stripWrapping_of_unwrap?_eq_none {t : Text} (h : unwrap? t = none) : stripWrapping t = t := by
  rw [stripWrapping]
  cases t.length with
  | zero => rfl
  | succ n => rw [stripWrappingWithin, h]

/-- Stripping leaves a part of the text in one piece. -/
lemma stripWrapping_isInfix (t : Text) : stripWrapping t <:+: t := by
  suffices ∀ n, stripWrappingWithin n t <:+: t from this _
  intro n
  induction n generalizing t with
  | zero => exact List.infix_refl t
  | succ n ih =>
    rw [stripWrappingWithin]
    split
    · next u hu =>
      split
      · rw [unwrap?_eq_some_iff.mp hu]
        exact (ih u).trans ⟨['('], [')'], rfl⟩
      · exact List.infix_refl t
    · exact List.infix_refl t

/-- Stripping takes characters away only. -/
lemma stripWrapping_sublist (t : Text) : (stripWrapping t).Sublist t :=
  (stripWrapping_isInfix t).sublist

end DecimalCalculator
