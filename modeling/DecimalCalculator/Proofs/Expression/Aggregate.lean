import DecimalCalculator.Proofs.Expression.Parts
import DecimalCalculator.Proofs.Expression.TreeValue
import DecimalCalculator.Proofs.Text.Separators
import DecimalCalculator.Proofs.Text.SmallLetters

/-!
Calls of aggregates, written with their arguments.

* `IsArgument`: a balanced text without commas outside its brackets.
* `IsArgument.of_skeleton`: only brackets and commas decide that.
* `argumentsText`, `callWith`: the text of a call with any number of arguments. With three arguments
  it is that of `callText`.
* `Arguments.ofCall?_argumentText`: **the arguments** of a call are those that it is written with.
* `preprocess_callText`: **preparation** goes through the arguments one by one.
* `evaluateStep_aggregate`: **one step** on the spelling of an aggregate, with a balanced text in
  brackets, evaluates the aggregate. `evaluateStep_callWith`: with arguments it does so with these,
  in small letters.
-/

namespace DecimalCalculator

/-! ### Arguments -/

/-- A balanced text without commas outside its brackets, so that a call can hold it between
commas. -/
structure IsArgument (t : Text) : Prop where
  balanced : bracketsBalanced t = true
  undivided : ∀ a b, ¬ IsOutside t a ',' b

/-- In small letters an argument is one too. -/
lemma IsArgument.normalizeCase {t : Text} (h : IsArgument t) :
    IsArgument (DecimalCalculator.normalizeCase t) where
  balanced := by rw [bracketsBalanced_normalizeCase, h.balanced]
  undivided a b hout := by
    obtain ⟨a', b', hout', -⟩ := hout.of_normalizeCase (by decide)
    exact h.undivided a' b' hout'

/-- A balanced text without commas is an argument. -/
lemma IsArgument.of_notMem {t : Text} (hbal : bracketsBalanced t = true) (hcomma : ',' ∉ t) :
    IsArgument t where
  balanced := hbal
  undivided a b hout := hcomma (by simp [hout.split])

/-- A text without brackets and commas is an argument. -/
lemma IsArgument.of_noBracket {t : Text} (hbracket : ∀ c ∈ t, isBracket c = false)
    (hcomma : ',' ∉ t) : IsArgument t :=
  .of_notMem (bracketsBalanced_of_noBracket hbracket) hcomma

/-- A text that is cut somewhere is cut there also with other characters between its brackets and
commas. -/
lemma exists_append_of_skeleton {t u a b : Text} (h : skeleton u = skeleton t) (hcut : u = a ++ b) :
    ∃ a' b', t = a' ++ b' ∧ rise a' = rise a ∧ skeleton b' = skeleton b := by
  have hparts : skeleton t = skeleton a ++ skeleton b := by
    rw [← h, hcut, skeleton, List.filter_append]
    rfl
  obtain ⟨a', b', rfl, ha, hb⟩ := List.filter_eq_append_iff.mp hparts
  exact ⟨a', b', rfl, by rw [← rise_skeleton, ← rise_skeleton a]; exact congrArg rise ha, hb⟩

/-- Only the brackets and commas of a text decide whether it is an argument. -/
lemma IsArgument.of_skeleton {t u : Text} (ht : IsArgument t) (h : skeleton u = skeleton t) :
    IsArgument u where
  balanced := by
    obtain ⟨hbeginnings, hwhole⟩ := (bracketsBalanced_iff t).mp ht.balanced
    refine (bracketsBalanced_iff u).mpr ⟨fun a b hcut => ?_, ?_⟩
    · obtain ⟨a', b', hcut', hrise, -⟩ := exists_append_of_skeleton h hcut
      rw [← hrise]
      exact hbeginnings a' b' hcut'
    · rw [← rise_skeleton, h, rise_skeleton]
      exact hwhole
  undivided a b hout := by
    obtain ⟨a', b', rfl, hrise, hrest⟩ := exists_append_of_skeleton h hout.split
    have hcomma : skeleton b' = ',' :: skeleton b := hrest
    -- between the cut and the comma there are no brackets
    obtain ⟨between, rest, rfl, hbetween, -⟩ := List.filter_eq_cons_iff.mp hcomma
    have hlevel : rise between = 0 := rise_eq_zero fun c hc => by
      have := hbetween c hc
      simp only [Bool.or_eq_true, not_or, Bool.not_eq_true] at this
      exact this.1
    refine ht.undivided (a' ++ between) rest ⟨by simp, by decide, ?_⟩
    rw [rise_append, hlevel, hrise, hout.level, add_zero]

/-- A text in which no comma is outside brackets stands whole in front of the pieces of what
follows. -/
lemma commaPieces_append {depth : Int} {u : Text}
    (h : ∀ a b, u = a ++ ',' :: b → depth + rise a ≠ 0) (v : Text) :
    commaPieces depth (u ++ v) =
      (u ++ (commaPieces (depth + rise u) v).1, (commaPieces (depth + rise u) v).2) := by
  induction u generalizing depth with
  | nil => simp
  | cons c u ih =>
    have hcomma : ¬ (c = ',' ∧ depth = 0) := by
      rintro ⟨rfl, rfl⟩
      exact h [] u rfl (by simp)
    have hrest : ∀ a b, u = a ++ ',' :: b → depth + turn c + rise a ≠ 0 := by
      rintro a b rfl
      have := h (c :: a) b rfl
      rwa [rise_cons, ← add_assoc] at this
    rw [List.cons_append, commaPieces, if_neg hcomma, depth_eq_add_turn, ih hrest, rise_cons,
      ← add_assoc]
    rfl

/-- An argument in front of a comma is the first piece. -/
lemma IsArgument.commaPieces_cons {u : Text} (h : IsArgument u) (v : Text) :
    commaPieces 0 (u ++ ',' :: v) = (u, (commaPieces 0 v).1 :: (commaPieces 0 v).2) := by
  have hundivided : ∀ a b, u = a ++ ',' :: b → (0 : Int) + rise a ≠ 0 := fun a b hsplit hlevel =>
    h.undivided a b ⟨hsplit, by decide, by omega⟩
  rw [commaPieces_append hundivided, rise_of_balanced h.balanced]
  simp [commaPieces]

/-- An argument in front of a closing bracket is all of one piece with it. -/
lemma IsArgument.commaPieces_close {u : Text} (h : IsArgument u) :
    commaPieces 0 (u ++ [')']) = (u ++ [')'], []) := by
  have hundivided : ∀ a b, u = a ++ ',' :: b → (0 : Int) + rise a ≠ 0 := fun a b hsplit hlevel =>
    h.undivided a b ⟨hsplit, by decide, by omega⟩
  rw [commaPieces_append hundivided]
  simp [commaPieces]

/-! ### Calls -/

/-- What follows the opening bracket of a call with three arguments. -/
def argumentText (function lower upper : Text) : Text :=
  function ++ ',' :: (lower ++ ',' :: (upper ++ [')']))

/-- A call with three arguments. -/
def callText (spelling function lower upper : Text) : Text :=
  spelling ++ '(' :: argumentText function lower upper

/-- What follows the opening bracket of a call with some arguments. -/
def argumentsText (args : List Text) : Text := List.intercalate [','] args ++ [')']

/-- A call with some arguments. -/
def callWith (spelling : Text) (args : List Text) : Text := spelling ++ '(' :: argumentsText args

section Calls

variable {args : List Text} {spelling first second function lower upper : Text}

@[simp] lemma argumentsText_singleton : argumentsText [first] = first ++ [')'] := by
  simp [argumentsText]

@[simp] lemma argumentsText_cons_cons :
    argumentsText (first :: second :: args) = first ++ ',' :: argumentsText (second :: args) := by
  simp [argumentsText, List.intercalate_cons_cons]

lemma argumentsText_three :
    argumentsText [function, lower, upper] = argumentText function lower upper := by
  simp [argumentText]

/-- A call with three arguments. -/
lemma callWith_three :
    callWith spelling [function, lower, upper] = callText spelling function lower upper := by
  rw [callWith, argumentsText_three, callText]

/-- Arguments with commas between them are balanced. -/
lemma bracketsBalanced_intercalate (h : ∀ t ∈ args, IsArgument t) :
    bracketsBalanced (List.intercalate [','] args) = true := by
  induction args with
  | nil => rfl
  | cons first args ih =>
    have hfirst := (h first (by simp)).balanced
    cases args with
    | nil => rwa [List.intercalate_singleton]
    | cons second args =>
      rw [List.intercalate_cons_cons]
      refine bracketsBalanced_append (bracketsBalanced_append hfirst (by decide))
        (ih fun t ht => ?_)
      exact h t (List.mem_cons_of_mem _ ht)

/-- In small letters the arguments are. -/
lemma normalizeCase_intercalate (args : List Text) :
    normalizeCase (List.intercalate [','] args) =
      List.intercalate [','] (args.map normalizeCase) := by
  induction args with
  | nil => rfl
  | cons first args ih =>
    cases args with
    | nil => simp
    | cons second args =>
      have hcomma : normalizeCase [','] = [','] := by decide
      rw [List.intercalate_cons_cons, normalizeCase_append, normalizeCase_append, hcomma, ih]
      simp [List.intercalate_cons_cons]

/-- **The arguments** of a call are those that it is written with. -/
theorem Arguments.ofCall?_argumentText (hfunction : IsArgument function)
    (hlower : IsArgument lower) (hupper : IsArgument upper) :
    Arguments.ofCall? (argumentText function lower upper) =
      some ⟨wrap function, lower, upper⟩ := by
  rw [ofCall?, argumentText, hfunction.commaPieces_cons, hlower.commaPieces_cons,
    hupper.commaPieces_close]
  simp [wrap]

/-- What follows the bracket of a call is long enough, if no argument is missing. -/
lemma not_length_argumentText_lt (hfunction : function ≠ []) (hlower : lower ≠ [])
    (hupper : upper ≠ []) : ¬ (argumentText function lower upper).length < 6 := by
  have := List.length_pos_of_ne_nil hfunction
  have := List.length_pos_of_ne_nil hlower
  have := List.length_pos_of_ne_nil hupper
  simp only [argumentText, List.length_append, List.length_cons, List.length_nil]
  omega

/-- A spelling of an aggregate begins calls of it, and consists of letters or a symbol. -/
lemma Aggregate.mem_operations {a : Aggregate} {spelling : Text} (h : spelling ∈ a.spellings) :
    (spelling ++ ['('], .aggregate a) ∈ operations ∧ spelling ≠ [] ∧
      ∀ c ∈ spelling, c.isLower = true ∨ isLeadingSymbol c = true := by
  have hlisted : ∀ a ∈ Aggregate.all, ∀ spelling ∈ a.spellings,
      (spelling ++ ['('], Operation.aggregate a) ∈ operations := by decide
  have hmem := hlisted a (by cases a <;> decide) spelling h
  obtain ⟨-, hne, hchars⟩ := DecimalCalculator.mem_operations hmem
  rw [List.dropLast_concat] at hne hchars
  exact ⟨hmem, hne, hchars⟩

/-- No product is missing in the spelling of an aggregate, nor between it and its bracket. -/
lemma Aggregate.explicit_spelling (a : Aggregate) {spelling : Text} (h : spelling ∈ a.spellings) :
    (∀ c ∈ spelling, isBlank c = false ∧ c ≠ ')' ∧ isNumeral c = false) ∧
      (spelling ++ ['(']).IsChain fun c d => (endsFactor c && continuesProduct d) = false := by
  have hall : ∀ a ∈ Aggregate.all, ∀ spelling ∈ a.spellings,
      (spelling.all fun c => !isBlank c && c != ')' && !isNumeral c) = true ∧
        (spelling ++ ['(']).IsChain fun c d => (endsFactor c && continuesProduct d) = false := by
    decide
  obtain ⟨hwords, hjoins⟩ := hall a (by cases a <;> decide) spelling h
  refine ⟨fun c hc => ?_, hjoins⟩
  have hplain := List.all_eq_true.mp hwords c hc
  simp only [Bool.and_eq_true, Bool.not_eq_true', bne_iff_ne] at hplain
  exact ⟨hplain.1.1, hplain.1.2, hplain.2⟩

/-- **Preparation** goes through the arguments of a call one by one. -/
theorem preprocess_callText {a : Aggregate} {spelling : Text} (hspelling : spelling ∈ a.spellings)
    (function lower upper : Text) :
    preprocess (callText spelling function lower upper) =
      callText spelling (preprocess function) (preprocess lower) (preprocess upper) := by
  obtain ⟨hwords, hjoins⟩ := a.explicit_spelling hspelling
  have hname : ∀ t, preprocess (spelling ++ '(' :: t) =
      spelling ++ '(' :: insertProductsAfter none (removeBlanks t) := by
    intro t
    have hblanks : removeBlanks (spelling ++ '(' :: t) = spelling ++ '(' :: removeBlanks t := by
      have hfilter : spelling.filter (fun c => !isBlank c) = spelling :=
        List.filter_eq_self.mpr fun c hc => by simp [(hwords c hc).1]
      rw [removeBlanks, List.filter_append, hfilter]
      rfl
    rw [preprocess, hblanks, insertProducts,
      insertProductsAfter_word (fun c hc => (hwords c hc).2) hjoins (by simp),
      insertProductsAfter_some (Or.inl rfl)]
  have hcomma : ∀ t u : Text, insertProductsAfter none (t ++ ',' :: u) =
      insertProductsAfter none t ++ ',' :: insertProductsAfter none u := by
    intro t u
    rw [insertProductsAfter_separator (Or.inl rfl), insertProductsAfter_some (Or.inr rfl)]
  have hclose : ∀ t : Text, insertProductsAfter none (t ++ [')']) =
      insertProductsAfter none t ++ [')'] :=
    fun t => insertProductsAfter_separator (Or.inr rfl) none t []
  have hblanks : removeBlanks (argumentText function lower upper) =
      argumentText (removeBlanks function) (removeBlanks lower) (removeBlanks upper) := by
    simp [removeBlanks, argumentText, isBlank]
  rw [callText, hname, hblanks, argumentText, hcomma, hcomma, hclose]
  rfl

section Steps

variable {s : Session} {draws : Draws} {evaluate : Evaluator} {place : Place} {a : Aggregate}
  {spelling : Text}

/-- **One step** on a spelling of an aggregate with a balanced text in brackets evaluates the
aggregate with what the brackets hold, in small letters. -/
theorem evaluateStep_aggregate {inner : Text} (hspelling : spelling ∈ a.spellings)
    (hinner : bracketsBalanced inner = true) :
    evaluateStep s draws evaluate place (spelling ++ wrap inner) =
      evaluateAggregate s evaluate place a (normalizeCase inner ++ [')']) := by
  obtain ⟨hlisted, hne, hchars⟩ := Aggregate.mem_operations hspelling
  have hplain : ∀ c ∈ spelling, isBracket c = false := fun c hc => (plain_of_nameChar (hchars c hc)).1
  have hbal : bracketsBalanced (spelling ++ wrap inner) = true :=
    bracketsBalanced_append (bracketsBalanced_of_noBracket hplain) (bracketsBalanced_wrap hinner)
  -- outside the brackets of the call there is only its spelling, without operators
  have hdivide : loosest? (Decimal.isLiteral (spelling ++ wrap inner)) (spelling ++ wrap inner) =
      none := by
    refine loosest?_eq_none fun op => Or.inr (op.split?_eq_none (rise_of_balanced hbal) ?_)
    intro x c y hout
    rcases hout.append_cases (rise_eq_zero hplain) with ⟨_, -, hname⟩ | ⟨_, -, hbracketed⟩
    · have hc : c ∈ spelling := by simp [hname.split]
      rw [← Bool.not_eq_true, op.isAt_iff]
      exact fun hat => (plain_of_nameChar (hchars c hc)).2 op hat.1
    · exact absurd hbracketed (not_isOutside_wrap hinner)
  have hsmall : normalizeCase (spelling ++ wrap inner) =
      spelling ++ ['('] ++ (normalizeCase inner ++ [')']) := by
    have hname : normalizeCase spelling = spelling := normalizeCase_eq_self fun c hc =>
      (hchars c hc).elim isSmall_of_isLower isSmall_of_isLeadingSymbol
    rw [normalizeCase_append, hname, normalizeCase_wrap, List.append_assoc]
    rfl
  obtain ⟨c, rest, hfront⟩ := List.exists_cons_of_ne_nil hne
  have hout : IsOutside (spelling ++ wrap inner) [] c (rest ++ wrap inner) :=
    ⟨by simp [hfront], hplain c (by simp [hfront]), rfl⟩
  rw [evaluateStep_term hout hbal hdivide, evaluateTerm, hsmall]
  simp only [call?_eq_some hlisted]

/-- **One step** on a call of an aggregate evaluates it with its arguments, in small letters. -/
theorem evaluateStep_callWith (hspelling : spelling ∈ a.spellings)
    (hargs : ∀ t ∈ args, IsArgument t) :
    evaluateStep s draws evaluate place (callWith spelling args) =
      evaluateAggregate s evaluate place a (argumentsText (args.map normalizeCase)) := by
  have hwrap : callWith spelling args = spelling ++ wrap (List.intercalate [','] args) := rfl
  rw [hwrap, evaluateStep_aggregate hspelling (bracketsBalanced_intercalate hargs),
    normalizeCase_intercalate, argumentsText]

/-- So it does with three arguments. -/
lemma evaluateStep_callText (hspelling : spelling ∈ a.spellings) (hfunction : IsArgument function)
    (hlower : IsArgument lower) (hupper : IsArgument upper) :
    evaluateStep s draws evaluate place (callText spelling function lower upper) =
      evaluateAggregate s evaluate place a
        (argumentText (normalizeCase function) (normalizeCase lower) (normalizeCase upper)) := by
  have hargs : ∀ t ∈ [function, lower, upper], IsArgument t := by simp [hfunction, hlower, hupper]
  rw [← callWith_three, evaluateStep_callWith hspelling hargs, ← argumentsText_three]
  rfl

end Steps

end Calls

end DecimalCalculator
