import DecimalCalculator.Expression.Template
import DecimalCalculator.Proofs.Decimal.Rendering
import DecimalCalculator.Proofs.Text.LowerCase

/-!
Functions of the variable as texts.

* `Template.render_ofText`: **filling the slots** of a text replaces every variable by the numeral.
* `commas`: the commas of a text, which neither small letters nor numerals change:
  `commas_normalizeCase`, `Template.commas_render`.
* `Session.fillRegisters_eq_self`: a text that names no function register stays as it is.
-/

namespace DecimalCalculator

/-! ### Slots -/

namespace Template

/-- A character in front of a template stands in front of the rendered text. -/
lemma render_consLiteral (c : Char) (segments : List Segment) (x : Decimal) :
    (Template.mk (consLiteral c segments)).render x = c :: (Template.mk segments).render x := by
  unfold consLiteral
  split <;> simp [render]

/-- A slot in front of a template stands for the numeral in front of the rendered text. -/
lemma render_slot (segments : List Segment) (x : Decimal) :
    (Template.mk (.slot :: segments)).render x = numeral x ++ (Template.mk segments).render x := by
  simp [render]

/-- **Filling the slots** replaces every variable of the text by the numeral. -/
theorem render_ofText (t : Text) (x : Decimal) :
    (ofText t).render x = t.flatMap fun c => if c = variableLetter then numeral x else [c] := by
  induction t with
  | nil => rfl
  | cons c t ih =>
    rw [List.flatMap_cons, ← ih]
    by_cases hc : c = variableLetter
    · rw [if_pos hc, ← render_slot]
      simp [ofText, hc]
    · rw [if_neg hc, List.singleton_append, ← render_consLiteral]
      simp [ofText, hc]

end Template

/-! ### Commas -/

/-- The number of commas in a text. -/
def commas (t : Text) : Nat := t.count ','

@[simp] lemma commas_nil : commas [] = 0 := rfl

@[simp] lemma commas_append (u v : Text) : commas (u ++ v) = commas u + commas v :=
  List.count_append

/-- A comma counts, and nothing else does. -/
lemma commas_cons (c : Char) (t : Text) :
    commas (c :: t) = commas t + if c = ',' then 1 else 0 := by
  simp [commas, List.count_cons]

/-- A text without commas. -/
lemma commas_eq_zero {t : Text} (h : ',' ∉ t) : commas t = 0 :=
  List.count_eq_zero.mpr h

/-- Small letters change no comma. -/
lemma commas_normalizeCase (t : Text) : commas (normalizeCase t) = commas t := by
  have hcaseless : isCaseless ',' = true := by decide
  induction t with
  | nil => rfl
  | cons c t ih =>
    rw [normalizeCase_cons, commas_append, ih, commas_cons, add_comm]
    by_cases hc : c = ','
    · subst hc
      rw [isSmall_of_isCaseless hcaseless]
      rfl
    · rw [if_neg hc, commas_eq_zero fun h => hc ((mem_lowered_iff_of_isCaseless hcaseless).mp h)]

namespace Template

/-- A numeral has no commas. -/
lemma commas_numeral (x : Decimal) : commas (numeral x) = 0 := by
  refine commas_eq_zero fun h => ?_
  simp only [numeral, List.mem_cons, List.mem_append, List.not_mem_nil, or_false] at h
  rcases h with h | h | h
  · exact absurd h (by decide)
  · rcases Decimal.mem_plain h with h | h
    · exact absurd h (by decide)
    · exact absurd h (by decide)
  · exact absurd h (by decide)

/-- Filling the slots brings in no commas. -/
lemma commas_render (t : Text) (x : Decimal) : commas ((ofText t).render x) = commas t := by
  rw [render_ofText]
  induction t with
  | nil => rfl
  | cons c t ih =>
    rw [List.flatMap_cons, commas_append, ih, commas_cons, add_comm]
    by_cases hc : c = variableLetter
    · rw [if_pos hc, commas_numeral, hc]
      rfl
    · rw [if_neg hc, commas_cons, commas_nil, Nat.zero_add]

end Template

/-! ### Function registers -/

/-- The names of the function registers. -/
def functionRegisters : List Text := [['f', 'a', 'n', 's'], ['f', 'm', 'e', 'm']]

namespace Session

variable {s : Session} {t : Text}

/-- A text without the names of the function registers stays as it is. -/
lemma fillRegisters_eq_self (h : ∀ w ∈ functionRegisters, ¬ w <:+: t) : s.fillRegisters t = t := by
  fun_induction s.fillRegisters t with
  | case1 rest _ =>
    exact absurd ⟨[], rest, rfl⟩ (h ['f', 'a', 'n', 's'] (by simp [functionRegisters]))
  | case2 rest _ =>
    exact absurd ⟨[], rest, rfl⟩ (h ['f', 'm', 'e', 'm'] (by simp [functionRegisters]))
  | case3 c rest _ _ ih => rw [ih fun w hw hoccurs => h w hw (List.infix_cons hoccurs)]
  | case4 => rfl

end Session

end DecimalCalculator
