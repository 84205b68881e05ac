import Mathlib.Tactic
import DecimalCalculator.Text.ExponentSign

/-!
What makes a sign that of an exponent.

* `EndsInMark`: what stands before such a sign, read backward: an `e` after a digit, or after a
  point that follows a digit.
* `betweenIsExponent_iff`: **the test is for such a mark before the sign and a digit after it**,
  so that further text on either side leaves an exponent sign one.
* `EndsInMark.of_append`: a mark stands behind every character but a numeral.
* `betweenIsExponent_behind`, `betweenIsExponent_ahead`: the test does not look beyond a character that
  is neither a numeral nor an `e`.
-/

namespace DecimalCalculator

/-- A text, read backward, begins with the mark of an exponent and the numeral before it. -/
inductive EndsInMark : Text → Prop
  | digit {d : Char} {rest : Text} : d.isDigit = true → EndsInMark ('e' :: d :: rest)
  | point {d : Char} {rest : Text} : d.isDigit = true → EndsInMark ('e' :: '.' :: d :: rest)

/-- A text begins with a digit. -/
def StartsWithDigit (t : Text) : Prop := ∃ d rest, t = d :: rest ∧ d.isDigit = true

/-- **Exponent signs** stand between a mark and a digit. -/
theorem betweenIsExponent_iff (before after : Text) :
    betweenIsExponent before after = true ↔ EndsInMark before ∧ StartsWithDigit after := by
  constructor
  · intro h
    unfold betweenIsExponent at h
    split at h
    · next d _ n rest =>
      obtain ⟨hd, hn⟩ := Bool.and_eq_true_iff.mp h
      exact ⟨.point hd, n, rest, rfl, hn⟩
    · next d _ n rest _ =>
      obtain ⟨hd, hn⟩ := Bool.and_eq_true_iff.mp h
      exact ⟨.digit hd, n, rest, rfl, hn⟩
    · exact absurd h (by simp)
  · rintro ⟨hmark, n, rest, rfl, hn⟩
    cases hmark with
    | point hd => simp [betweenIsExponent, hd, hn]
    | @digit d tail hd =>
      have hpoint : d ≠ '.' := by
        rintro rfl
        exact absurd hd (by decide)
      unfold betweenIsExponent
      split
      · next heq _ =>
        exact absurd (List.cons_eq_cons.mp (List.cons_eq_cons.mp heq).2).1 hpoint
      · next heq hafter =>
        obtain ⟨rfl, -⟩ := List.cons_eq_cons.mp (List.cons_eq_cons.mp heq).2
        obtain ⟨rfl, -⟩ := List.cons_eq_cons.mp hafter
        simp [hd, hn]
      · next hnone =>
        exact absurd rfl (hnone d tail n rest rfl)

/-- More text in front of a mark leaves it one. -/
lemma EndsInMark.append {before : Text} (h : EndsInMark before) (more : Text) :
    EndsInMark (before ++ more) := by
  cases h with
  | digit hd => exact .digit hd
  | point hd => exact .point hd

/-- A mark at the end of a text stands behind every character of it but a numeral. -/
lemma EndsInMark.of_append {u v : Text} {c : Char} (h : EndsInMark (u ++ c :: v)) (hu : u ≠ [])
    (hc : isNumeral c = false) : EndsInMark u := by
  have hdigit : ¬ c.isDigit = true := fun hd => by simp [isNumeral, hd] at hc
  rcases u with _ | ⟨m, _ | ⟨d, _ | ⟨e, u⟩⟩⟩
  · exact absurd rfl hu
  · -- the character would have to be the numeral of the mark
    cases h with
    | digit hd => exact absurd hd hdigit
    | point _ => exact absurd hc (by decide)
  · cases h with
    | digit hd => exact .digit hd
    | point hd => exact absurd hd hdigit
  · cases h with
    | digit hd => exact .digit hd
    | point hd => exact .point hd

/-- More text after a first digit leaves it one. -/
lemma StartsWithDigit.append {after : Text} (h : StartsWithDigit after) (more : Text) :
    StartsWithDigit (after ++ more) := by
  obtain ⟨d, rest, rfl, hd⟩ := h
  exact ⟨d, rest ++ more, rfl, hd⟩

/-- More text on either side leaves an exponent sign one. -/
lemma betweenIsExponent_append {before after : Text} (h : betweenIsExponent before after = true)
    (more less : Text) : betweenIsExponent (before ++ more) (after ++ less) = true := by
  rw [betweenIsExponent_iff] at h ⊢
  exact ⟨h.1.append more, h.2.append less⟩

/-- A mark is an `e`. -/
lemma EndsInMark.head_eq {before : Text} (h : EndsInMark before) : before.head? = some 'e' := by
  cases h <;> rfl

/-- What stands in front of a character that is neither a numeral nor an `e` makes no sign behind it
that of an exponent. -/
lemma betweenIsExponent_behind {c : Char} (hc : isNumeral c = false) (he : c ≠ 'e')
    (u v after : Text) : betweenIsExponent (u ++ c :: v) after = betweenIsExponent u after := by
  rw [Bool.eq_iff_iff, betweenIsExponent_iff, betweenIsExponent_iff]
  refine and_congr_left fun _ => ⟨fun h => h.of_append ?_ hc, fun h => h.append _⟩
  rintro rfl
  exact he (Option.some.inj h.head_eq)

/-- What stands behind a character that is no digit makes no sign in front of it that of an
exponent. -/
lemma betweenIsExponent_ahead {c : Char} (hc : c.isDigit = false) (before u v : Text) :
    betweenIsExponent before (u ++ c :: v) = betweenIsExponent before u := by
  rw [Bool.eq_iff_iff, betweenIsExponent_iff, betweenIsExponent_iff]
  refine and_congr_right fun _ => ⟨?_, fun h => h.append _⟩
  rintro ⟨d, rest, hsplit, hd⟩
  cases u with
  | nil =>
    rw [(List.cons_eq_cons.mp hsplit).1, hd] at hc
    exact absurd hc (by decide)
  | cons e u =>
    obtain ⟨rfl, -⟩ := List.cons_eq_cons.mp hsplit
    exact ⟨e, u, rfl, hd⟩

end DecimalCalculator
