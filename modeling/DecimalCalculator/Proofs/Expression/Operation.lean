import DecimalCalculator.Expression.Operation
import DecimalCalculator.Proofs.Expression.Scan
import DecimalCalculator.Proofs.Text.LowerCase

/-!
Which operation a text calls.

* `mem_operations`: the spellings of calls are letters and symbols before an opening bracket.
* `call?_eq_some`: **a listed spelling calls its operation**, whatever follows; `append_of_call?`:
  nothing else is a call.
-/

namespace DecimalCalculator

/-! ### Spellings -/

/-- The spellings of calls consist of small ASCII letters and symbols, and end with a bracket. -/
lemma mem_operations {entry : Text × Operation} (h : entry ∈ operations) :
    entry.1.getLast? = some '(' ∧ entry.1.dropLast ≠ [] ∧
      ∀ c ∈ entry.1.dropLast, c.isLower = true ∨ isLeadingSymbol c = true := by
  have hall : ∀ entry ∈ operations, entry.1.getLast? = some '(' ∧ entry.1.dropLast ≠ [] ∧
      (entry.1.dropLast.all fun c => c.isLower || isLeadingSymbol c) = true := by decide
  obtain ⟨hbracket, hne, hletters⟩ := hall entry h
  refine ⟨hbracket, hne, fun c hc => ?_⟩
  have hletter := List.all_eq_true.mp hletters c hc
  rwa [Bool.or_eq_true] at hletter

/-- No letter and no symbol that begins a factor is a bracket or the sign of an operator. -/
lemma plain_of_nameChar {c : Char} (h : c.isLower = true ∨ isLeadingSymbol c = true) :
    isBracket c = false ∧ ∀ op : Operator, c ≠ op.sign := by
  rcases h with h | h
  · have hrange := (isLower_iff c).mp h
    refine ⟨isBracket_eq_false ?_ ?_, fun op => ?_⟩
    · rintro rfl
      exact absurd hrange (by decide)
    · rintro rfl
      exact absurd hrange (by decide)
    · rintro rfl
      revert hrange
      cases op <;> decide
  · simp only [isLeadingSymbol, Bool.or_eq_true, decide_eq_true_eq] at h
    rcases h with (((rfl | rfl) | rfl) | rfl) | rfl <;>
      exact ⟨by decide, fun op => by cases op <;> decide⟩

/-! ### Calls -/

variable {t : Text}

/-- Where a text begins as given, the rest follows. -/
lemma dropStart?_eq_some_iff {start rest : Text} :
    dropStart? start t = some rest ↔ t = start ++ rest := by
  rw [dropStart?]
  constructor
  · intro h
    split at h
    · next hprefix =>
      obtain ⟨rest', rfl⟩ := List.isPrefixOf_iff_prefix.mp hprefix
      rw [List.drop_left] at h
      rw [Option.some.inj h]
    · exact absurd h (by simp)
  · rintro rfl
    rw [if_pos (List.isPrefixOf_iff_prefix.mpr (List.prefix_append _ _)), List.drop_left]

/-- A text without brackets is no call. -/
lemma call?_eq_none (h : '(' ∉ t) : call? t = none := by
  rw [call?, List.findSome?_eq_none_iff]
  intro entry hmem
  rw [Option.map_eq_none_iff]
  by_contra hne
  obtain ⟨rest, hrest⟩ := Option.ne_none_iff_exists'.mp hne
  rw [dropStart?_eq_some_iff] at hrest
  have hopen : '(' ∈ entry.1 := List.mem_of_getLast? (mem_operations hmem).1
  exact h (by rw [hrest]; simp [hopen])

/-- The first bracket of a text ends the part before it. -/
lemma eq_of_append_open {u v p q : Text} (hu : '(' ∉ u) (hv : '(' ∉ v)
    (h : u ++ '(' :: p = v ++ '(' :: q) : u = v ∧ p = q := by
  induction u generalizing v with
  | nil =>
    cases v with
    | nil => exact ⟨rfl, by simpa using h⟩
    | cons d v =>
      obtain ⟨rfl, -⟩ := List.cons_eq_cons.mp h
      simp at hv
  | cons d u ih =>
    cases v with
    | nil =>
      obtain ⟨rfl, -⟩ := List.cons_eq_cons.mp h
      simp at hu
    | cons d' v =>
      obtain ⟨rfl, hrest⟩ := List.cons_eq_cons.mp h
      obtain ⟨rfl, hpq⟩ := ih (fun hm => hu (by simp [hm])) (fun hm => hv (by simp [hm])) hrest
      exact ⟨rfl, hpq⟩

/-- No two operations share a spelling. -/
lemma operations_nodup : (operations.map Prod.fst).Nodup := by
  decide

/-- A search ends at an element if no other one is accepted. -/
lemma findSome?_eq_some_of_unique {α β : Type} {f : α → Option β} {l : List α} {x : α} {y : β}
    (hx : x ∈ l) (hy : f x = some y) (hunique : ∀ x' ∈ l, x' ≠ x → f x' = none) :
    l.findSome? f = some y := by
  induction l with
  | nil => simp at hx
  | cons x' l ih =>
    rw [List.findSome?_cons]
    by_cases heq : x' = x
    · rw [heq, hy]
    · rw [hunique x' (by simp) heq]
      exact ih ((List.mem_cons.mp hx).resolve_left (Ne.symm heq)) fun z hz hne =>
        hunique z (by simp [hz]) hne

/-- **Calls**: a spelling and an opening bracket begin the call of the operation that is listed
under them. -/
theorem call?_eq_some {entry : Text × Operation} (h : entry ∈ operations) (rest : Text) :
    call? (entry.1 ++ rest) = some (entry.2, rest) := by
  -- every spelling ends with its only bracket
  have hspelling : ∀ e ∈ operations, e.1 = e.1.dropLast ++ ['('] ∧ '(' ∉ e.1.dropLast := by
    intro e he
    obtain ⟨hlast, -, hchars⟩ := mem_operations he
    refine ⟨(List.dropLast_append_getLast? _ hlast).symm, fun hmem => ?_⟩
    exact absurd (plain_of_nameChar (hchars _ hmem)).1 (by decide)
  refine findSome?_eq_some_of_unique h ?_ fun other hother hne => ?_
  · rw [dropStart?_eq_some_iff.mpr rfl]
    rfl
  · rw [Option.map_eq_none_iff]
    by_contra hsome
    obtain ⟨rest', hrest⟩ := Option.ne_none_iff_exists'.mp hsome
    rw [dropStart?_eq_some_iff] at hrest
    obtain ⟨heq, hopen⟩ := hspelling entry h
    obtain ⟨heq', hopen'⟩ := hspelling other hother
    have hsame : entry.1 = other.1 := by
      rw [heq, heq', List.append_assoc, List.append_assoc] at hrest
      rw [heq, heq', (eq_of_append_open hopen hopen' hrest).1]
    exact hne (List.inj_on_of_nodup_map operations_nodup hother h hsame.symm)

/-- A call begins with the spelling of its operation. -/
lemma append_of_call? {operation : Operation} {rest : Text} (h : call? t = some (operation, rest)) :
    ∃ spelling, (spelling, operation) ∈ operations ∧ t = spelling ++ rest := by
  obtain ⟨⟨spelling, operation'⟩, hmem, hcall⟩ := List.exists_of_findSome?_eq_some h
  rw [Option.map_eq_some_iff] at hcall
  obtain ⟨rest', hrest, hpair⟩ := hcall
  obtain ⟨rfl, rfl⟩ := Prod.mk.inj hpair
  exact ⟨spelling, hmem, dropStart?_eq_some_iff.mp hrest⟩

end DecimalCalculator
