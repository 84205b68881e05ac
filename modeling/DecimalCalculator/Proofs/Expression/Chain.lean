import DecimalCalculator.Proofs.Decimal.Value
import DecimalCalculator.Proofs.Expression.Depth
import DecimalCalculator.Proofs.Expression.Draws

/-!
Chains of sums and differences, such as `1-2+3`.

* `chainText`: terms joined by plus and minus signs. `chainValue`: their values, added and
  subtracted from left to right, up to the first term that fails.
* `IsChain`: the terms are balanced and have no such signs of their own outside brackets, except
  for those of exponents and one in front, and no joining sign is that of an exponent.
* `chainValue_plus`, `chainValue_minus`: a chain may be cut at any plus sign, and at the last sign.
* `Links.IsCut`: the first plus sign, or the last minus sign where there is none.
* `IsChain.evaluateStep_plus`, `IsChain.evaluateStep_minus`: **the evaluator cuts** a chain at its
  first plus sign, and without one at its last minus sign.
* `IsChain.evaluate_eq`: **the value of a chain** is found from left to right.
-/

namespace DecimalCalculator

/-! ### Chains -/

/-- The two operators that join the terms of a chain. -/
inductive Joint where
  | plus | minus
deriving DecidableEq

namespace Joint

/-- The operator of the joint. -/
def operator : Joint → Operator
  | plus => .plus
  | minus => .minus

/-- The sign of the joint. -/
def sign (joint : Joint) : Char := joint.operator.sign

/-- The sum or the difference. -/
def combine : Joint → Decimal → Decimal → Decimal
  | plus, x, y => x + y
  | minus, x, y => x - y

lemma sign_cases (joint : Joint) : joint.sign = '+' ∨ joint.sign = '-' := by
  cases joint
  · exact Or.inl rfl
  · exact Or.inr rfl

end Joint

/-- The terms of a chain behind the first one, each with the sign before it. -/
abbrev Links := List (Joint × Text)

/-- The text of a chain. -/
def chainText (first : Text) (links : Links) : Text :=
  first ++ links.flatMap fun (joint, term) => joint.sign :: term

/-- The terms of a chain. -/
def chainTerms (first : Text) (links : Links) : List Text := first :: links.map Prod.snd

/-- Adds the value of a term to what stands before it, or subtracts it. -/
def addTerm {m : Type → Type} [Monad m] (value : Text → m Decimal) (x : Decimal)
    (link : Joint × Text) : m Decimal := do
  let y ← value link.2
  pure (link.1.combine x y)

/-- The value of a chain: that of its first term, and each further one added or subtracted, from
left to right up to the first failure. -/
def chainValue {m : Type → Type} [Monad m] (value : Text → m Decimal) (first : Text)
    (links : Links) : m Decimal := do
  let x ← value first
  links.foldlM (addTerm value) x

/-- A list divided at the first of its elements with a property, and without one at the last of its
elements. -/
inductive IsCutAtFirst {α : Type} (p : α → Prop) : List α → Prop
  | nil : IsCutAtFirst p []
  | first {before after : List α} {x : α} : (∀ y ∈ before, ¬ p y) → p x →
      IsCutAtFirst p (before ++ x :: after)
  | last {before : List α} {x : α} : (∀ y ∈ before, ¬ p y) → ¬ p x → IsCutAtFirst p (before ++ [x])

/-- All lists are divided in one of these ways. -/
lemma isCutAtFirst {α : Type} (p : α → Prop) (l : List α) : IsCutAtFirst p l := by
  induction l with
  | nil => exact .nil
  | cons x l ih =>
    by_cases hx : p x
    · exact @IsCutAtFirst.first α p [] l x (by simp) hx
    · cases ih with
      | nil => exact @IsCutAtFirst.last α p [] x (by simp) hx
      | @first before after y hbefore hy =>
        exact @IsCutAtFirst.first α p (x :: before) after y (by simpa [hx] using hbefore) hy
      | @last before y hbefore hy =>
        exact @IsCutAtFirst.last α p (x :: before) y (by simpa [hx] using hbefore) hy

/-- Links divided as the evaluator cuts their chain: at the first plus sign, and without one at the
last minus sign. -/
inductive Links.IsCut : Links → Prop
  | single : IsCut []
  | firstPlus {before after : Links} {term : Text} : (∀ link ∈ before, link.1 = .minus) →
      IsCut (before ++ (.plus, term) :: after)
  | lastMinus {before : Links} {term : Text} : (∀ link ∈ before, link.1 = .minus) →
      IsCut (before ++ [(.minus, term)])

/-- All links are divided in one of these ways. -/
lemma Links.isCut (links : Links) : links.IsCut := by
  have hminus : ∀ {link : Joint × Text}, link.1 ≠ .plus → link.1 = .minus := by
    rintro ⟨_ | _, term⟩ hne
    · exact absurd rfl hne
    · rfl
  cases isCutAtFirst (fun link => link.1 = Joint.plus) links with
  | nil => exact .single
  | @first before after link hbefore hplus =>
    obtain ⟨joint, term⟩ := link
    obtain rfl : joint = .plus := hplus
    exact .firstPlus fun link hmem => hminus (hbefore link hmem)
  | @last before link hbefore hne =>
    obtain ⟨joint, term⟩ := link
    obtain rfl : joint = .minus := hminus hne
    exact .lastMinus fun link hmem => hminus (hbefore link hmem)

section Text

variable {first term : Text} {links before after : Links} {joint : Joint}

@[simp] lemma chainText_nil : chainText first [] = first := by
  simp [chainText]

/-- A chain is cut at a joint. -/
lemma chainText_append : chainText first (before ++ (joint, term) :: after) =
    chainText first before ++ joint.sign :: chainText term after := by
  simp [chainText]

/-- A chain goes on behind its first joint. -/
lemma chainText_cons : chainText first ((joint, term) :: links) =
    first ++ joint.sign :: chainText term links := by
  simp [chainText]

/-- The terms before a joint are terms of the chain. -/
lemma chainTerms_front_subset :
    chainTerms first before ⊆ chainTerms first (before ++ (joint, term) :: after) := by
  simp [chainTerms]

/-- The terms behind a joint are terms of the chain. -/
lemma chainTerms_rest_subset :
    chainTerms term after ⊆ chainTerms first (before ++ (joint, term) :: after) := by
  intro t ht
  simp only [chainTerms, List.map_append, List.map_cons, List.mem_cons, List.mem_append] at ht ⊢
  tauto

/-- A chain has room for each of its terms and all of its signs. -/
lemma length_le_chainText {t : Text} (h : t ∈ chainTerms first links) :
    t.length + links.length ≤ (chainText first links).length := by
  induction links generalizing first t with
  | nil =>
    obtain rfl : t = first := by simpa [chainTerms] using h
    simp
  | cons link links ih =>
    obtain ⟨joint, term⟩ := link
    have hterm : term.length + links.length ≤ (chainText term links).length :=
      ih (List.mem_cons_self ..)
    simp only [chainText_cons, List.length_append, List.length_cons]
    rcases List.mem_cons.mp h with rfl | hmem
    · omega
    · have : t.length + links.length ≤ (chainText term links).length := ih hmem
      omega

end Text

/-! ### Values of chains -/

section Values

variable {m : Type → Type} [Monad m] [LawfulMonad m] (value : Text → m Decimal)

/-- What stands before a term may be added afterwards. -/
lemma addTerm_plus (x y : Decimal) (link : Joint × Text) :
    addTerm value (x + y) link =
      (do
        let z ← addTerm value y link
        pure (x + z)) := by
  obtain ⟨joint, term⟩ := link
  simp only [addTerm, bind_assoc, pure_bind]
  refine bind_congr fun z => ?_
  cases joint with
  | plus => rw [Joint.combine, Joint.combine, Decimal.plus_assoc]
  | minus => rw [Joint.combine, Joint.combine, Decimal.plus_minus_assoc]

/-- What stands before some terms may be added after all of them. -/
lemma foldlM_addTerm_plus (links : Links) (x y : Decimal) :
    links.foldlM (addTerm value) (x + y) =
      (do
        let z ← links.foldlM (addTerm value) y
        pure (x + z)) := by
  induction links generalizing y with
  | nil => simp
  | cons link links ih => simp only [List.foldlM_cons, addTerm_plus, bind_assoc, pure_bind, ih]

/-- **Plus signs**: a chain has the sum of the values of the two chains around a plus sign. -/
theorem chainValue_plus (first term : Text) (before after : Links) :
    chainValue value first (before ++ (.plus, term) :: after) =
      (do
        let x ← chainValue value first before
        let y ← chainValue value term after
        pure (x + y)) := by
  have hplus : ∀ x, addTerm value x (.plus, term) = (do let y ← value term; pure (x + y)) :=
    fun x => rfl
  simp only [chainValue, List.foldlM_append, List.foldlM_cons, hplus, foldlM_addTerm_plus,
    bind_assoc, pure_bind]

/-- **Last signs**: a chain has the difference of the values before and after its last minus
sign. -/
theorem chainValue_minus (first term : Text) (before : Links) :
    chainValue value first (before ++ [(.minus, term)]) =
      (do
        let x ← chainValue value first before
        let y ← value term
        pure (x - y)) := by
  have hminus : ∀ x, addTerm value x (.minus, term) = (do let y ← value term; pure (x - y)) :=
    fun x => rfl
  simp only [chainValue, List.foldlM_append, List.foldlM_cons, List.foldlM_nil, hminus, bind_assoc,
    bind_pure]

/-- A chain of one term has its value. -/
lemma chainValue_nil (first : Text) : chainValue value first [] = value first := by
  simp [chainValue]

end Values

/-! ### Terms -/

/-- A balanced text in small letters whose plus and minus signs outside brackets belong to
exponents. -/
structure IsTight (t : Text) : Prop where
  small : normalizeCase t = t
  balanced : bracketsBalanced t = true
  exponents : ∀ a c b, IsOutside t a c b → c = '+' ∨ c = '-' → betweenIsExponent a.reverse b = true

/-- A term of a chain is such a text, and not empty. -/
structure IsTerm (t : Text) : Prop extends IsTight t where
  ne_nil : t ≠ []

/-- The first term of a chain may have a minus sign in front. -/
inductive IsFirstTerm : Text → Prop
  | plain {t : Text} : IsTerm t → IsFirstTerm t
  | opposite {t : Text} : IsTight t → IsFirstTerm ('-' :: t)

/-- Terms joined by signs that belong to no exponent. -/
structure IsChain (first : Text) (links : Links) : Prop where
  start : IsFirstTerm first
  terms : ∀ link ∈ links, IsTerm link.2
  joints : ∀ before joint term after, links = before ++ (joint, term) :: after →
    betweenIsExponent (chainText first before).reverse (chainText term after) = false

/-- A text that the evaluator cuts at no plus and no minus sign. -/
lemma IsTight.of_split?_eq_none {t : Text} (hsmall : normalizeCase t = t)
    (hbal : bracketsBalanced t = true) (hplus : Operator.plus.split? t = none)
    (hminus : Operator.minus.split? t = none) : IsTight t where
  small := hsmall
  balanced := hbal
  exponents a c b hout hc := by
    have hnone : ∀ op : Operator, op.mayBeExponentSign = true → c = op.sign →
        op.isAt a.reverse c b = false → betweenIsExponent a.reverse b = true := by
      intro op hmay hsign hat
      rw [← Bool.not_eq_true, op.isAt_iff] at hat
      by_contra hexponent
      exact hat ⟨hsign, fun h => hexponent h.2⟩
    rcases hc with rfl | rfl
    · exact hnone .plus rfl rfl (not_stops_of_splitFirst_eq_none hplus hout)
    · exact hnone .minus rfl rfl
        (not_stops_of_splitLast_eq_none (rise_of_balanced hbal) hminus hout)

/-- Such a text binds more tightly than sums and differences. -/
lemma IsTight.bindsAtLeast {t : Text} (h : IsTight t) (before after : Text) :
    BindsAtLeast Operator.times.rank before after t := by
  have hinner : BindsAtLeast Operator.times.rank [] [] t := by
    intro a c b hout op hop
    rw [List.append_nil, List.append_nil, Operator.isAt_iff] at hop
    obtain ⟨rfl, hexponent⟩ := hop
    cases op with
    | plus => exact absurd ⟨rfl, h.exponents a _ b hout (Or.inl rfl)⟩ hexponent
    | minus => exact absurd ⟨rfl, h.exponents a _ b hout (Or.inr rfl)⟩ hexponent
    | times | divide | power | modulo => decide
  exact hinner.extend before after

namespace IsFirstTerm

variable {t : Text}

lemma ne_nil (h : IsFirstTerm t) : t ≠ [] := by
  cases h with
  | plain h => exact h.ne_nil
  | opposite _ => simp

lemma small (h : IsFirstTerm t) : normalizeCase t = t := by
  cases h with
  | plain h => exact h.small
  | opposite h => rw [normalizeCase_cons_of_isSmall (show IsSmall '-' by decide), h.small]

lemma balanced (h : IsFirstTerm t) : bracketsBalanced t = true := by
  cases h with
  | plain h => exact h.balanced
  | @opposite t h =>
    exact bracketsBalanced_append (u := ['-']) (bracketsBalanced_of_noBracket (by simp [isBracket]))
      h.balanced

/-- The first term binds at least as tightly as differences. -/
lemma bindsAtLeast (h : IsFirstTerm t) (before after : Text) :
    BindsAtLeast Operator.minus.rank before after t := by
  cases h with
  | plain h => exact (h.bindsAtLeast before after).mono (by decide)
  | @opposite t h =>
    exact BindsAtLeast.append (u := ['-']) rfl (.sign .minus)
      ((h.bindsAtLeast _ after).mono (by decide))

end IsFirstTerm

namespace IsChain

variable {first term : Text} {links before after : Links} {joint : Joint}

/-- A chain without links is its first term. -/
lemma of_first (h : IsFirstTerm first) : IsChain first [] where
  start := h
  terms := by simp
  joints := by simp

/-- The part of a chain before a joint is a chain. -/
lemma front (h : IsChain first (before ++ (joint, term) :: after)) : IsChain first before where
  start := h.start
  terms link hmem := h.terms link (by simp [hmem])
  joints a joint' term' b hsplit := by
    subst hsplit
    have := h.joints a joint' term' (b ++ (joint, term) :: after) (by simp)
    rw [chainText_append, ← Bool.not_eq_true] at this
    rw [← Bool.not_eq_true]
    intro hexponent
    have := betweenIsExponent_append hexponent [] (joint.sign :: chainText term after)
    rw [List.append_nil] at this
    contradiction

/-- The part of a chain after a joint is a chain. -/
lemma rest (h : IsChain first (before ++ (joint, term) :: after)) : IsChain term after where
  start := .plain (h.terms (joint, term) (by simp))
  terms link hmem := h.terms link (by simp [hmem])
  joints a joint' term' b hsplit := by
    subst hsplit
    have := h.joints (before ++ (joint, term) :: a) joint' term' b (by simp)
    rw [chainText_append, ← Bool.not_eq_true] at this
    rw [← Bool.not_eq_true]
    intro hexponent
    have := betweenIsExponent_append hexponent (joint.sign :: (chainText first before).reverse) []
    rw [List.append_nil] at this
    simp only [List.reverse_append, List.reverse_cons, List.append_assoc,
      List.singleton_append] at *
    contradiction

/-- A chain without its first term is a chain. -/
lemma tail (h : IsChain first ((joint, term) :: links)) : IsChain term links :=
  rest (show IsChain first ([] ++ (joint, term) :: links) from h)

/-- A property of texts that sums and differences of texts have, and terms, chains have. -/
lemma induction_on {P : Text → Prop} (hfirst : ∀ t, IsFirstTerm t → P t)
    (hjoin : ∀ u v (joint : Joint), P u → P v → P (u ++ joint.sign :: v))
    (h : IsChain first links) : P (chainText first links) := by
  induction links generalizing first with
  | nil => simpa using hfirst first h.start
  | cons link links ih =>
    obtain ⟨joint, term⟩ := link
    rw [chainText_cons]
    exact hjoin _ _ joint (hfirst first h.start) (ih h.tail)

/-- A chain is not empty. -/
lemma ne_nil (h : IsChain first links) : chainText first links ≠ [] :=
  h.induction_on (fun _ => IsFirstTerm.ne_nil) (by simp)

/-- A chain with one more term in front is a chain, if its first joint is no sign of an exponent. -/
lemma cons (hfirst : IsFirstTerm first) (hterm : IsTerm term) (h : IsChain term links)
    (hjoint : betweenIsExponent first.reverse (chainText term links) = false) :
    IsChain first ((joint, term) :: links) where
  start := hfirst
  terms link hmem := by
    rcases List.mem_cons.mp hmem with rfl | hmem
    · exact hterm
    · exact h.terms link hmem
  joints before joint' term' after hsplit := by
    cases before with
    | nil =>
      obtain ⟨hlink, rfl⟩ := List.cons_eq_cons.mp hsplit
      obtain ⟨-, rfl⟩ := Prod.mk.inj hlink
      simpa using hjoint
    | cons link before =>
      obtain ⟨rfl, rfl⟩ := List.cons_eq_cons.mp hsplit
      have hlater := h.joints before joint' term' after rfl
      rw [← Bool.not_eq_true, betweenIsExponent_iff] at hlater ⊢
      rintro ⟨hmark, hdigit⟩
      -- the first joint is no part of a mark
      refine hlater ⟨EndsInMark.of_append (c := joint.sign) (v := first.reverse) ?_ ?_ ?_, hdigit⟩
      · simpa [chainText_cons] using hmark
      · simpa using h.front.ne_nil
      · cases joint <;> decide

/-- A chain is in small letters. -/
lemma small (h : IsChain first links) :
    normalizeCase (chainText first links) = chainText first links := by
  refine h.induction_on (P := fun t => normalizeCase t = t) (fun _ => IsFirstTerm.small) ?_
  intro u v joint hu hv
  have hsign : IsSmall joint.sign := joint.operator.isSmall_sign
  rw [normalizeCase_append, normalizeCase_cons_of_isSmall hsign, hu, hv]

/-- The terms of a chain are in small letters. -/
lemma small_of_mem (h : IsChain first links) {t : Text} (ht : t ∈ chainTerms first links) :
    normalizeCase t = t := by
  rcases List.mem_cons.mp ht with rfl | hmem
  · exact h.start.small
  · obtain ⟨link, hlink, rfl⟩ := List.mem_map.mp hmem
    exact (h.terms link hlink).small

/-- A chain is balanced. -/
lemma balanced (h : IsChain first links) : bracketsBalanced (chainText first links) = true := by
  refine h.induction_on (P := fun t => bracketsBalanced t = true) (fun _ => IsFirstTerm.balanced) ?_
  intro u v joint hu hv
  have hsign : bracketsBalanced [joint.sign] = true := by cases joint <;> decide
  exact bracketsBalanced_append hu (bracketsBalanced_append hsign hv)

/-- A chain of differences binds at least as tightly as differences. -/
lemma bindsAtLeast (h : IsChain first links) (hminus : ∀ link ∈ links, link.1 = .minus)
    (x y : Text) : BindsAtLeast Operator.minus.rank x y (chainText first links) := by
  induction links generalizing first x with
  | nil => simpa using h.start.bindsAtLeast x y
  | cons link links ih =>
    obtain ⟨joint, term⟩ := link
    obtain rfl : joint = .minus := hminus (joint, term) (by simp)
    rw [chainText_cons, ← List.singleton_append]
    refine (h.start.bindsAtLeast x _).append (rise_of_balanced h.start.balanced) ?_
    refine (BindsAtLeast.sign .minus).append rfl ?_
    exact ih h.tail (fun link hmem => hminus link (by simp [hmem])) _

/-! ### Cuts -/

variable {s : Session} {draws : Draws} {evaluate : Evaluator} {place : Place}

/-- A joint stands outside all brackets of its chain. -/
lemma isOutside (h : IsChain first (before ++ (joint, term) :: after)) :
    IsOutside (chainText first (before ++ (joint, term) :: after)) (chainText first before)
      joint.sign (chainText term after) where
  split := chainText_append
  plain := joint.operator.isBracket_sign
  level := rise_of_balanced h.front.balanced

/-- A joint is an operator. -/
lemma isAt (h : IsChain first (before ++ (joint, term) :: after)) :
    joint.operator.isAt (chainText first before).reverse joint.sign (chainText term after) =
      true := by
  rw [Operator.isAt_iff]
  refine ⟨rfl, fun hexponent => ?_⟩
  rw [h.joints before joint term after rfl] at hexponent
  exact absurd hexponent.2 (by decide)

/-- A chain with a joint is no literal. -/
lemma not_isLiteral (h : IsChain first (before ++ (joint, term) :: after)) :
    Decimal.isLiteral (chainText first (before ++ (joint, term) :: after)) = false := by
  rw [← Bool.not_eq_true]
  intro hliteral
  rw [chainText_append] at hliteral
  have hcapital : 'E' ∉ chainText first before := by
    intro hmem
    rw [← h.front.small] at hmem
    obtain ⟨c, -, hc⟩ := List.mem_flatMap.mp hmem
    exact absurd (isSmall_of_mem_lowered hc) (by decide)
  have hexponent :=
    betweenIsExponent_of_isLiteral hliteral h.front.ne_nil joint.sign_cases hcapital
  rw [h.joints before joint term after rfl] at hexponent
  exact absurd hexponent (by decide)

/-- The evaluator cuts a chain at a joint at which it splits, if it splits at none that binds more
loosely. -/
lemma evaluateStep_of_split (h : IsChain first (before ++ (joint, term) :: after))
    (hsplit : joint.operator.split? (chainText first (before ++ (joint, term) :: after)) =
      some (chainText first before, chainText term after))
    (hlooser : ∀ op : Operator, op.rank < joint.operator.rank →
      op.split? (chainText first (before ++ (joint, term) :: after)) = none) :
    evaluateStep s draws evaluate place (chainText first (before ++ (joint, term) :: after)) =
      (do
        let x ← evaluate (.left :: place) (chainText first before)
        let y ← evaluate (.right :: place) (chainText term after)
        pure (joint.combine x y)) := by
  rw [evaluateStep_of_loosest? h.isOutside h.balanced
      (loosest?_eq_some (by rw [h.not_isLiteral]; rfl) hsplit hlooser),
    evaluateParts_operands h.front.ne_nil h.rest.ne_nil]
  cases joint <;> rfl

/-- **First plus signs**: the evaluator cuts a chain at its first plus sign. -/
theorem evaluateStep_plus (h : IsChain first (before ++ (.plus, term) :: after))
    (hminus : ∀ link ∈ before, link.1 = .minus) :
    evaluateStep s draws evaluate place (chainText first (before ++ (.plus, term) :: after)) =
      (do
        let x ← evaluate (.left :: place) (chainText first before)
        let y ← evaluate (.right :: place) (chainText term after)
        pure (x + y)) := by
  refine h.evaluateStep_of_split ?_ fun op hrank => absurd hrank (by cases op <;> decide)
  -- before the first plus sign nothing binds as loosely
  exact (h.front.bindsAtLeast hminus [] _).splitFirst_eq_some (by decide) h.isOutside h.isAt

/-- **Last minus signs**: the evaluator cuts a chain of differences at its last minus sign. -/
theorem evaluateStep_minus (h : IsChain first (before ++ [(.minus, term)]))
    (hminus : ∀ link ∈ before, link.1 = .minus) :
    evaluateStep s draws evaluate place (chainText first (before ++ [(.minus, term)])) =
      (do
        let x ← evaluate (.left :: place) (chainText first before)
        let y ← evaluate (.right :: place) term
        pure (x - y)) := by
  refine (h.evaluateStep_of_split ?_ ?_).trans ?_
  · -- the last term binds more tightly
    have hterm : IsTerm term := h.terms (.minus, term) (by simp)
    have hbinds : BindsAtLeast Operator.times.rank ('-' :: (chainText first before).reverse) []
        (chainText term []) := by
      rw [chainText_nil]
      exact hterm.bindsAtLeast _ []
    exact hbinds.splitLast_eq_some (by decide) (rise_of_balanced h.balanced) h.isOutside h.isAt
  · intro op hrank
    cases op with
    | plus =>
      -- no joint is a plus sign
      have hall : ∀ link ∈ before ++ [(.minus, term)], link.1 = Joint.minus := by
        simpa [or_imp, forall_and] using hminus
      exact (h.bindsAtLeast hall [] []).split?_eq_none (rise_of_balanced h.balanced) (by decide)
    | minus | times | divide | power | modulo => exact absurd hrank (by decide)
  · rw [chainText_nil]
    rfl

/-- **Chains**: among evaluators each of which takes one step more than the one before, a chain has
the value of its terms from left to right, if the values of the terms are settled early enough. -/
theorem evaluate_eq {evaluators : ℕ → Evaluator}
    (hstep : ∀ n place t,
      evaluators (n + 1) place t = evaluateStep s draws (evaluators n) place t)
    {value : Text → Outcome Decimal} {least : ℕ} (h : IsChain first links)
    (hvalue : ∀ t ∈ chainTerms first links, ∀ n ≥ least, ∀ place, evaluators n place t = value t)
    {n : ℕ} (hn : least + links.length ≤ n) (place : Place) :
    evaluators n place (chainText first links) = chainValue value first links := by
  induction hlength : links.length using Nat.strong_induction_on
    generalizing first links n place with
  | _ k ih =>
    cases links.isCut with
    | single =>
      rw [chainText_nil, chainValue_nil]
      exact hvalue first (List.mem_cons_self ..) n (by omega) place
    | @firstPlus before after term hminus =>
      rw [List.length_append, List.length_cons] at hn hlength
      obtain ⟨n, rfl⟩ : ∃ m, n = m + 1 := ⟨n - 1, by omega⟩
      have hbefore : ∀ place, evaluators n place (chainText first before) =
          chainValue value first before := fun place =>
        ih before.length (by omega) h.front (fun t ht => hvalue t (chainTerms_front_subset ht))
          (by omega) place rfl
      have hafter : ∀ place, evaluators n place (chainText term after) =
          chainValue value term after := fun place =>
        ih after.length (by omega) h.rest (fun t ht => hvalue t (chainTerms_rest_subset ht))
          (by omega) place rfl
      rw [hstep, h.evaluateStep_plus hminus, chainValue_plus, hbefore, hafter]
    | @lastMinus before term hminus =>
      rw [List.length_append, List.length_singleton] at hn hlength
      obtain ⟨n, rfl⟩ : ∃ m, n = m + 1 := ⟨n - 1, by omega⟩
      have hbefore : ∀ place, evaluators n place (chainText first before) =
          chainValue value first before := fun place =>
        ih before.length (by omega) h.front (fun t ht => hvalue t (chainTerms_front_subset ht))
          (by omega) place rfl
      have hterm : ∀ place, evaluators n place term = value term :=
        hvalue term (chainTerms_rest_subset (List.mem_cons_self ..)) n (by omega)
      rw [hstep, h.evaluateStep_minus hminus, chainValue_minus, hbefore, hterm]

end IsChain

/-! ### Chains in a session -/

/-- One computation after another reports the first failure. -/
lemma Outcome.toExcept_bind {α β : Type} (o : Outcome α) (next : α → Outcome β) :
    (o >>= next).toExcept = o.toExcept >>= fun a => (next a).toExcept := by
  cases o <;> rfl

/-- The value or failure of a chain is found from those of its terms. -/
lemma toExcept_chainValue (value : Text → Outcome Decimal) (first : Text) (links : Links) :
    (chainValue value first links).toExcept =
      chainValue (fun t => (value t).toExcept) first links := by
  have hfold : ∀ x, (links.foldlM (addTerm value) x).toExcept =
      links.foldlM (addTerm fun t => (value t).toExcept) x := by
    induction links with
    | nil => exact fun x => rfl
    | cons link links ih =>
      intro x
      simp only [List.foldlM_cons, Outcome.toExcept_bind, ih, addTerm]
      rfl
  simp only [chainValue, Outcome.toExcept_bind, hfold]

variable {first : Text} {links : Links}

/-- **Chains of sums and differences** associate from left to right: terms that draw no random
numbers are added and subtracted in order, and the first term that fails is what is reported. That
is so for the value that is found at any depth, and for that within the allowed depths: always
without function registers, and with them if the depths suffice for the terms that name one. -/
theorem Session.compute_chain (s : Session) (draws : Draws) (h : IsChain first links)
    (hdraws : ∀ t ∈ chainTerms first links, NeverDraws s t) :
    evaluation s draws [] (chainText first links) =
        chainValue (evaluation s draws []) first links ∧
      ((s.functionAnswer = [] ∧ s.functionMemory = [] ∨ ∀ t ∈ chainTerms first links,
          Avoids functionRegisters t ∨ s.AllowsDepth draws t) →
        s.compute draws (chainText first links) = chainValue (s.compute draws) first links) := by
  refine ⟨?_, fun hregisters => ?_⟩
  · have hvalue : ∀ t ∈ chainTerms first links, ∀ n ≥ 0, ∀ place,
        (fun _ : ℕ => evaluation s draws) n place t = evaluation s draws [] t :=
      fun t ht _ _ _ => (hdraws t ht).evaluation_eq
    exact h.evaluate_eq (fun _ place t => evaluation_eq_evaluateStep s draws place t) hvalue
      (Nat.zero_add _).le []
  · have hsuffices : ∀ t ∈ chainTerms first links, s.AllowsDepth draws t := by
      intro t ht
      rcases hregisters with hempty | hterms
      · exact allowsDepth (Or.inl hempty)
      · exact (hterms t ht).elim (fun havoids => allowsDepth (Or.inr havoids)) id
    have hdepth : ∀ t ∈ chainTerms first links,
        s.allowedDepth t + links.length ≤ s.allowedDepth (chainText first links) := by
      intro t ht
      have := length_le_chainText ht
      rw [Session.allowedDepth, Session.allowedDepth, h.small, h.small_of_mem ht]
      omega
    have hvalue : ∀ t ∈ chainTerms first links,
        ∀ n ≥ s.allowedDepth (chainText first links) - links.length, ∀ place,
          evaluateWithin s draws n place t = evaluateWithin s draws (s.allowedDepth t) [] t := by
      intro t ht n hn place
      have := hdepth t ht
      have hplace : evaluateWithin s draws n place t = evaluateWithin s draws n [] t :=
        (hdraws t ht).evaluateWithin_eq n
      rw [hplace, show evaluateWithin s draws _ [] t = _ from hsuffices t ht]
      exact evaluateWithin_eq_evaluation s draws (hsuffices t ht) (by omega)
    have hroom := hdepth first (List.mem_cons_self ..)
    have hchain := h.evaluate_eq (fun _ _ _ => rfl) hvalue
      (show _ ≤ s.allowedDepth (chainText first links) by omega) []
    rw [Session.compute, hchain, toExcept_chainValue]
    rfl

/-- A negated literal, from which a literal is taken and to which a product is added. -/
theorem Session.compute_chain_literals :
    fresh.compute (Draws.ofSeed 0) (text "-2e+1-3+4*pi") =
      chainValue (fresh.compute (Draws.ofSeed 0)) (text "-2e+1")
        [(.minus, text "3"), (.plus, text "4*pi")] := by
  have hterm : ∀ t ∈ [text "2e+1", text "3", text "4*pi"], IsTerm t := by
    intro t ht
    refine ⟨.of_split?_eq_none ?_ ?_ ?_ ?_, ?_⟩ <;> revert t <;> decide
  have hchain : IsChain (text "-2e+1") [(.minus, text "3"), (.plus, text "4*pi")] := by
    have hfirst : IsFirstTerm (text "-2e+1") := .opposite (hterm (text "2e+1") (by decide)).1
    refine .cons hfirst (hterm _ (by decide)) ?_ (by decide)
    refine .cons (.plain (hterm _ (by decide))) (hterm _ (by decide)) ?_ (by decide)
    exact .of_first (.plain (hterm _ (by decide)))
  have havoids : ∀ t ∈ chainTerms (text "-2e+1") [(.minus, text "3"), (.plus, text "4*pi")],
      Avoids (['r', 'a', 'n', 'd'] :: functionRegisters) t := by
    intro t ht
    refine ⟨?_, ?_⟩ <;> revert t <;> decide
  exact (fresh.compute_chain (Draws.ofSeed 0) hchain fun t ht =>
    neverDraws_of_avoids (havoids t ht)).2 (Or.inl ⟨rfl, rfl⟩)

end DecimalCalculator
