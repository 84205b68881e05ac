import Mathlib.Tactic
import DecimalCalculator.Text.Characters

/-!
The words of a text.

* `pieces_eq_splitOnP`: the runs of a list between some of its elements are those of the library.
* `words_append_blank`: **words end at blanks**: those of a text are the ones before a blank and the
  ones behind it.
* `IsWord`: a text that is one word, `words_of_isWord`.
* `words_intercalate`: words that are written with single blanks between them are read back.
-/

namespace DecimalCalculator

/-- The runs of a list without elements of some property. -/
lemma pieces_eq_splitOnP {α : Type} (p : α → Bool) (l : List α) : pieces p l = l.splitOnP p := by
  induction l with
  | nil => rfl
  | cons a l ih =>
    rw [List.splitOnP_cons_eq_if_modifyHead, ← ih, pieces, List.foldr_cons]
    split <;> rfl

/-- **Words end at blanks.** -/
lemma words_append_blank {c : Char} (hc : isBlank c = true) (u v : Text) :
    words (u ++ c :: v) = words u ++ words v := by
  rw [words, pieces_eq_splitOnP, List.splitOnP_append_cons u v hc, List.filter_append, words, words,
    pieces_eq_splitOnP, pieces_eq_splitOnP]

/-- A text with characters, none of them blank. -/
structure IsWord (w : Text) : Prop where
  ne_nil : w ≠ []
  notBlank : ∀ c ∈ w, isBlank c = false

/-- A text of one word, character by character. -/
lemma isWord_of_all {w : Text} (hne : w ≠ []) (hall : (w.all fun c => !isBlank c) = true) :
    IsWord w :=
  ⟨hne, fun c hc => by simpa using List.all_eq_true.mp hall c hc⟩

/-- A word is the only word that it holds. -/
lemma words_of_isWord {w : Text} (h : IsWord w) : words w = [w] := by
  rw [words, pieces_eq_splitOnP, List.splitOnP_eq_singleton h.notBlank]
  simp [h.ne_nil]

/-- **Words with blanks between them** are the words of the text. -/
theorem words_intercalate {ws : List Text} (h : ∀ w ∈ ws, IsWord w) :
    words ([' '].intercalate ws) = ws := by
  induction ws with
  | nil => rfl
  | cons w ws ih =>
    have hw : words w = [w] := words_of_isWord (h w (by simp))
    cases ws with
    | nil => simpa using hw
    | cons w' ws =>
      have hrest := ih fun u hu => h u (List.mem_cons_of_mem _ hu)
      rw [List.intercalate_cons_cons, List.append_assoc, List.singleton_append,
        words_append_blank (by decide), hw, hrest]
      rfl

end DecimalCalculator
