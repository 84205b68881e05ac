import DecimalCalculator.Proofs.Expression.Division
import DecimalCalculator.Proofs.Expression.Operation
import DecimalCalculator.Proofs.Expression.Sequential
import DecimalCalculator.Proofs.Expression.Template

/-!
The texts whose values one step of the evaluator asks for.

* `IsPart`: operands, arguments, bounds, and samples of the function of an aggregate.
* `isSequential_evaluateStep`: **one step asks for its parts**, one after the other.
* `weight`: the commas of a text, then its length in small letters. `IsPart.weight_lt`: **parts are
  lighter**, except for samples into whose function a register has brought commas.
-/

namespace DecimalCalculator

/-! ### Parts -/

/-- The aggregate and its arguments that a text without operators outside brackets calls. -/
def CallsAggregate (t : Text) (args : Arguments) : Prop :=
  ∃ a rest, call? (normalizeCase (stripWrapping t)) = some (.aggregate a, rest) ∧
    Arguments.ofCall? rest = some args

/-- The texts whose values one step on `t` may ask for. -/
inductive IsPart (s : Session) (t : Text) : Text → Prop
  | left {op : Operator} {a b : Text} : stripWrapping t = a ++ op.sign :: b → IsPart s t a
  | right {op : Operator} {a b : Text} : stripWrapping t = a ++ op.sign :: b → IsPart s t b
  | argument {operation : Operation} {rest : Text} :
      call? (normalizeCase (stripWrapping t)) = some (operation, rest) → IsPart s t ('(' :: rest)
  | lower {args : Arguments} : CallsAggregate t args → IsPart s t args.lower
  | upper {args : Arguments} : CallsAggregate t args → IsPart s t args.upper
  | sample {args : Arguments} (x : Decimal) : CallsAggregate t args →
      IsPart s t ((s.template args.function).render x)

/-! ### Steps -/

section Steps

variable {s : Session} {draws : Draws} {allowed : Text → Prop} {place : Place}

/-- An operator asks for its operands. -/
lemma isSequential_evaluateOperator {op : Operator} {left right : Text} (hleft : allowed left)
    (hright : allowed right) :
    IsSequential allowed fun evaluate => evaluateOperator evaluate place op left right := by
  have ask := fun (b : Branch) {t : Text} (h : allowed t) => IsSequential.part (b :: place) h
  cases op with
  | plus | minus =>
    exact (ask .left hleft).bind fun x => (ask .right hright).bind fun y => .pure _
  | times | power =>
    exact (ask .left hleft).bind fun x => (ask .right hright).bind fun y => .settled _
  | divide =>
    refine (ask .right hright).bind fun y => ?_
    split
    · exact .failed _
    · exact (ask .left hleft).bind fun x => .settled _
  | modulo =>
    refine (ask .right hright).bind fun y => ?_
    split
    · exact .failed _
    · exact (ask .left hleft).bind fun x => .ofOption _ _

/-- Two parts around an operator are asked for, if they are not empty. -/
lemma isSequential_evaluateParts {op : Operator} {left right : Text} (hleft : allowed left)
    (hright : allowed right) :
    IsSequential allowed fun evaluate => evaluateParts evaluate place op left right := by
  unfold evaluateParts
  split
  · exact .failed _
  · split
    · split
      · exact (IsSequential.part _ hright).bind fun x => .pure _
      · exact .failed _
    · exact isSequential_evaluateOperator hleft hright

/-- The bounds of a range are asked for in order. -/
lemma isSequential_integerBounds {args : Arguments} (hlower : allowed args.lower)
    (hupper : allowed args.upper) (invalid : Failure) :
    IsSequential allowed fun evaluate => integerBounds evaluate place args invalid := by
  refine (IsSequential.part _ hlower).bind fun lower => ?_
  refine (IsSequential.part _ hupper).bind fun upper => ?_
  refine (IsSequential.ofOption invalid lower.roundedInt64?).bind fun a => ?_
  refine (IsSequential.ofOption invalid upper.roundedInt64?).bind fun b => ?_
  split
  · exact .failed _
  · exact .pure _

/-- An aggregate asks for its bounds, then for the samples of its function. -/
lemma isSequential_evaluateAggregate {a : Aggregate} {rest : Text}
    (hlower : ∀ args, Arguments.ofCall? rest = some args → allowed args.lower)
    (hupper : ∀ args, Arguments.ofCall? rest = some args → allowed args.upper)
    (hsample : ∀ args, Arguments.ofCall? rest = some args → ∀ x,
      allowed ((s.template args.function).render x)) :
    IsSequential allowed fun evaluate => evaluateAggregate s evaluate place a rest := by
  have range : ∀ args, Arguments.ofCall? rest = some args → ∀ invalid combine start,
      IsSequential allowed fun evaluate =>
        evaluateRange s evaluate place args invalid combine start := by
    intro args hargs invalid combine start
    refine (isSequential_integerBounds (hlower args hargs) (hupper args hargs) invalid).bind
      fun bounds => ?_
    exact .foldRange (fun k => .part _ (hsample args hargs _)) combine _ _ start
  unfold evaluateAggregate
  split
  · exact .failed _
  · cases hargs : Arguments.ofCall? rest with
    | none => exact .failed _
    | some args =>
      cases a with
      | integral =>
        refine (IsSequential.part _ (hlower args hargs)).bind fun lower => ?_
        refine (IsSequential.part _ (hupper args hargs)).bind fun upper => ?_
        refine IsSequential.bind ?_ fun sum => .pure _
        exact .addSamples _ (fun i x => .part _ (hsample args hargs x)) _ _ _ _
      | sum => exact range args hargs _ _ _
      | product => exact range args hargs _ _ _

/-- A random number asks for its bound, if it has one. -/
lemma isSequential_evaluateRand {rest : Text} (hargument : allowed ('(' :: rest)) :
    IsSequential allowed fun evaluate => evaluateRand draws evaluate place rest := by
  unfold evaluateRand
  split
  · exact .failed _
  · split
    · exact .pure _
    · exact .failed _
  · refine (IsSequential.part _ hargument).bind fun argument => ?_
    simp only
    split
    · exact .failed _
    · split
      · split
        · exact .pure _
        · exact .failed _
      · exact .failed _

/-- One step asks for texts of any kind to which the operands, the arguments of calls and the samples
of aggregates belong. -/
lemma isSequential_evaluateStep_of {t : Text}
    (hoperands : ∀ op left right, division t = some (op, left, right) →
      allowed left ∧ allowed right)
    (hargument : ∀ operation rest,
      call? (normalizeCase (stripWrapping t)) = some (operation, rest) → allowed ('(' :: rest))
    (haggregate : ∀ args, CallsAggregate t args →
      allowed args.lower ∧ allowed args.upper ∧
        ∀ x, allowed ((s.template args.function).render x)) :
    IsSequential allowed fun evaluate => evaluateStep s draws evaluate place t := by
  cases stepCases t with
  | incomplete hstep =>
    simp only [hstep]
    exact .failed _
  | unbalanced _ hstep =>
    simp only [hstep]
    exact .failed _
  | divided op left right _ hdivide hstep =>
    obtain ⟨hleft, hright⟩ := hoperands op left right hdivide
    simp only [hstep]
    exact isSequential_evaluateParts hleft hright
  | applied f rest _ _ hcall _ hstep =>
    simp only [hstep]
    exact (IsSequential.part _ (hargument _ _ hcall)).bind fun x => .settled _
  | aggregated a rest _ _ hcall hstep =>
    simp only [hstep]
    exact isSequential_evaluateAggregate (fun args h => (haggregate args ⟨a, rest, hcall, h⟩).1)
      (fun args h => (haggregate args ⟨a, rest, hcall, h⟩).2.1)
      fun args h => (haggregate args ⟨a, rest, hcall, h⟩).2.2
  | drawn rest _ _ hcall hstep =>
    simp only [hstep]
    exact isSequential_evaluateRand (hargument _ _ hcall)
  | named _ _ _ hstep =>
    simp only [hstep]
    exact .settled _

/-- **One step** asks for the parts of its text, one after the other. -/
theorem isSequential_evaluateStep (s : Session) (draws : Draws) (place : Place) (t : Text) :
    IsSequential (IsPart s t) fun evaluate => evaluateStep s draws evaluate place t := by
  refine isSequential_evaluateStep_of (fun op left right hdivide => ?_)
    (fun operation rest hcall => .argument hcall)
    fun args hcalls => ⟨.lower hcalls, .upper hcalls, fun x => .sample x hcalls⟩
  have hsplit := (loosest?_sound hdivide).1
  exact ⟨.left hsplit, .right hsplit⟩

end Steps

/-! ### Weights -/

/-- The commas of a text, then its length in small letters. -/
def weight (t : Text) : ℕ ×ₗ ℕ := toLex (commas t, (normalizeCase t).length)

/-- A text with fewer commas is lighter. -/
lemma weight_lt_of_commas {u t : Text} (h : commas u < commas t) : weight u < weight t :=
  Prod.Lex.toLex_lt_toLex.mpr (Or.inl h)

/-- A shorter text without more commas is lighter. -/
lemma weight_lt_of_length {u t : Text} (hcommas : commas u ≤ commas t)
    (hlength : (normalizeCase u).length < (normalizeCase t).length) : weight u < weight t := by
  rcases Nat.lt_or_eq_of_le hcommas with h | h
  · exact weight_lt_of_commas h
  · exact Prod.Lex.toLex_lt_toLex.mpr (Or.inr ⟨h, hlength⟩)

/-- Stripping brackets keeps the commas and does not make a text longer. -/
lemma stripWrapping_le (t : Text) :
    commas (stripWrapping t) = commas t ∧
      (normalizeCase (stripWrapping t)).length ≤ (normalizeCase t).length := by
  suffices ∀ n, commas (stripWrappingWithin n t) = commas t ∧
      (normalizeCase (stripWrappingWithin n t)).length ≤ (normalizeCase t).length from this _
  intro n
  induction n generalizing t with
  | zero => exact ⟨rfl, le_rfl⟩
  | succ n ih =>
    rw [stripWrappingWithin]
    split
    · next u hu =>
      rw [unwrap?_eq_some_iff.mp hu]
      split
      · obtain ⟨hcommas, hlength⟩ := ih u
        refine ⟨by rw [hcommas]; simp [wrap, commas_cons], ?_⟩
        simp only [wrap, normalizeCase_cons, normalizeCase_append, List.length_append]
        omega
      · exact ⟨rfl, le_rfl⟩
    · exact ⟨rfl, le_rfl⟩

/-- A text is its first piece and each further one behind a comma. -/
lemma append_of_commaPieces (depth : Int) (t : Text) :
    t = (commaPieces depth t).1 ++ (commaPieces depth t).2.flatMap fun piece => ',' :: piece := by
  induction t generalizing depth with
  | nil => rfl
  | cons c t ih =>
    rw [commaPieces]
    split
    · next h =>
      simp only [List.nil_append, List.flatMap_cons, List.cons_append]
      rw [← ih depth, h.1]
    · simp only [List.cons_append]
      rw [← ih]

/-- The depth behind a character. -/
lemma depth_eq_add_turn (depth : Int) (c : Char) :
    (if c = '(' then depth + 1 else if c = ')' then depth - 1 else depth) = depth + turn c := by
  rw [turn]
  split
  · rfl
  · split
    · rfl
    · simp

/-- The commas at which a text falls into pieces are outside brackets: no piece before the last
comma changes the depth. -/
lemma rise_of_commaPieces {depth : Int} {t first : Text} {others : List Text}
    (h : commaPieces depth t = (first, others)) (hothers : others ≠ []) :
    depth + rise first = 0 ∧ ∀ piece ∈ others.dropLast, rise piece = 0 := by
  induction t generalizing depth first others with
  | nil =>
    obtain ⟨-, rfl⟩ := Prod.mk.inj h
    exact absurd rfl hothers
  | cons c t ih =>
    rw [commaPieces] at h
    split at h
    · next hcomma =>
      obtain ⟨rfl, rfl⟩ := hcomma
      obtain ⟨rfl, rfl⟩ := Prod.mk.inj h
      refine ⟨rfl, fun piece hmem => ?_⟩
      by_cases hlast : (commaPieces 0 t).2 = []
      · simp [hlast] at hmem
      · obtain ⟨hfirst, hrest⟩ := ih (by rfl) hlast
        rw [List.dropLast_cons_of_ne_nil hlast] at hmem
        rcases List.mem_cons.mp hmem with rfl | hmem
        · simpa using hfirst
        · exact hrest piece hmem
    · next =>
      obtain ⟨rfl, rfl⟩ := Prod.mk.inj h
      obtain ⟨hfirst, hrest⟩ := ih (by rfl) hothers
      refine ⟨?_, hrest⟩
      rw [depth_eq_add_turn] at hfirst ⊢
      rw [rise_cons]
      omega

/-- The arguments of an aggregate stand between the commas of its call, which are outside
brackets. -/
lemma Arguments.append_of_ofCall? {rest : Text} {args : Arguments}
    (h : Arguments.ofCall? rest = some args) :
    ∃ function upper, rest = function ++ ',' :: (args.lower ++ ',' :: upper) ∧
      args.function = wrap function ∧ args.upper = upper.dropLast ∧ upper ≠ [] ∧
      rise function = 0 ∧ rise args.lower = 0 := by
  have hpieces := append_of_commaPieces 0 rest
  rw [ofCall?] at h
  split at h
  · next function lower upper heq =>
    split at h
    · exact absurd h (by simp)
    · next hupper =>
      obtain rfl := Option.some.inj h
      obtain ⟨hfunction, hlower⟩ := rise_of_commaPieces heq (by simp)
      rw [heq] at hpieces
      exact ⟨function, upper, by simpa using hpieces, rfl, rfl, by simpa using hupper,
        by simpa using hfunction, hlower lower (by simp)⟩
  · exact absurd h (by simp)

/-- In a text of small letters every part of the text is as long as its own small letters. -/
lemma normalizeCase_eq_self_of_append {t u v w : Text} (h : normalizeCase t = u ++ (v ++ w)) :
    normalizeCase v = v := by
  refine normalizeCase_eq_self fun d hd => ?_
  obtain ⟨c, -, hc⟩ := List.mem_flatMap.mp (show d ∈ normalizeCase t by rw [h]; simp [hd])
  exact isSmall_of_mem_lowered hc

variable {s : Session} {t u : Text} {args : Arguments}

/-- The commas and the length of the arguments of an aggregate that a text calls. -/
lemma CallsAggregate.le (h : CallsAggregate t args) :
    commas args.function < commas t ∧ commas args.lower < commas t ∧
      commas args.upper < commas t := by
  obtain ⟨a, rest, hcall, hargs⟩ := h
  obtain ⟨spelling, -, happend⟩ := append_of_call? hcall
  obtain ⟨function, upper, hrest, hfunction, hupper, -⟩ := Arguments.append_of_ofCall? hargs
  have htext : commas spelling + (commas function + (commas args.lower + (commas upper + 1) + 1)) =
      commas t := by
    rw [← (stripWrapping_le t).1, ← commas_normalizeCase (stripWrapping t), happend, hrest]
    simp [commas_cons]
  have hlast : commas args.upper ≤ commas upper := by
    rw [hupper]
    exact List.Sublist.count_le _ (List.dropLast_sublist upper)
  have hwrap : commas args.function = commas function := by
    rw [hfunction]
    simp [wrap, commas_cons]
  omega

/-- A sample of the function of an aggregate, into which a register has brought commas. -/
def IsLoadedSample (s : Session) (t u : Text) : Prop :=
  ∃ args x, CallsAggregate t args ∧ u = (s.template args.function).render x ∧
    commas args.function < commas (s.expand args.function)

/-- **Parts are lighter**, except for samples into which a register has brought commas. -/
theorem IsPart.weight_lt (h : IsPart s t u) : weight u < weight t ∨ IsLoadedSample s t u := by
  obtain ⟨hcommas, hlength⟩ := stripWrapping_le t
  cases h with
  | @left op a b hsplit =>
    left
    rw [hsplit] at hcommas hlength
    simp only [normalizeCase_append, normalizeCase_cons, List.length_append, commas_append] at *
    have := List.length_pos_of_ne_nil (lowered_ne_nil op.sign)
    exact weight_lt_of_length (by omega) (by omega)
  | @right op a b hsplit =>
    left
    rw [hsplit] at hcommas hlength
    simp only [normalizeCase_append, normalizeCase_cons, List.length_append, commas_append,
      commas_cons] at *
    have := List.length_pos_of_ne_nil (lowered_ne_nil op.sign)
    exact weight_lt_of_length (by omega) (by omega)
  | @argument operation rest hcall =>
    left
    obtain ⟨spelling, hmem, happend⟩ := append_of_call? hcall
    obtain ⟨hlast, hne, -⟩ := mem_operations hmem
    have hspelling : 2 ≤ spelling.length := by
      have := List.length_pos_of_ne_nil hne
      simp only [List.length_dropLast] at this
      omega
    have hrest : normalizeCase rest = rest :=
      normalizeCase_eq_self_of_append (w := []) (by rw [List.append_nil]; exact happend)
    refine weight_lt_of_length ?_ ?_
    · rw [← hcommas, ← commas_normalizeCase (stripWrapping t), happend, commas_append, commas_cons]
      simp
    · rw [happend, List.length_append] at hlength
      rw [normalizeCase_cons, hrest, List.length_append]
      have : (lowered '(').length = 1 := by decide
      omega
  | lower hcalls => exact Or.inl (weight_lt_of_commas hcalls.le.2.1)
  | upper hcalls => exact Or.inl (weight_lt_of_commas hcalls.le.2.2)
  | @sample args x hcalls =>
    by_cases hload : commas args.function < commas (s.expand args.function)
    · exact Or.inr ⟨args, x, hcalls, rfl, hload⟩
    · left
      refine weight_lt_of_commas ?_
      have := hcalls.le.1
      rw [Session.template, Template.commas_render]
      omega

end DecimalCalculator
