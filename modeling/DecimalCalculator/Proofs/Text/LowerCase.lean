import Mathlib
import DecimalCalculator.Text.LowerCase

/-!
Texts that are in small letters already.

* `lowered`: the small letter of one character in `normalizeCase`. `IsSmall`: a character that is
  its own small letter.
* `normalizeCase_eq_self`: a text of small characters is left as it is.
* `LoweredAs`: how a character comes by its small letter. `isSmall_of_mem_lowered`: **small letters
  are small**, and `normalizeCase_idem`.
* `mem_lowered_iff_of_isCaseless`: **caseless characters**, digits, signs, brackets, blanks and
  symbols among them, are nobody else's small letters.
-/

namespace DecimalCalculator

/-- The small letter of a character, where the symbols of sum and product stay. -/
def lowered (c : Char) : Text := if c = sumSymbol || c = productSymbol then [c] else lowerChar c

/-- A character that is its own small letter. -/
def IsSmall (c : Char) : Prop := lowered c = [c]

instance (c : Char) : Decidable (IsSmall c) := inferInstanceAs (Decidable (lowered c = [c]))

@[simp] lemma normalizeCase_nil : normalizeCase [] = [] := rfl

@[simp] lemma normalizeCase_cons (c : Char) (t : Text) :
    normalizeCase (c :: t) = lowered c ++ normalizeCase t := rfl

@[simp] lemma normalizeCase_append (u v : Text) :
    normalizeCase (u ++ v) = normalizeCase u ++ normalizeCase v :=
  List.flatMap_append

/-- A text of small characters is left as it is. -/
lemma normalizeCase_eq_self {t : Text} (h : ∀ c ∈ t, IsSmall c) : normalizeCase t = t := by
  induction t with
  | nil => rfl
  | cons c t ih =>
    have hc : lowered c = [c] := h c (by simp)
    rw [normalizeCase_cons, hc, ih fun d hd => h d (by simp [hd])]
    rfl

/-- Among the ASCII characters only the capitals are not small. -/
lemma isSmall_of_ascii {c : Char} (hascii : c.toNat < 0x80) (hcapital : c.isUpper = false) :
    IsSmall c := by
  have hlower : c.toLower = c := Char.toLower_eq_of_not_isUpper (by simp [hcapital])
  have hsum : c ≠ sumSymbol := by
    rintro rfl
    exact absurd hascii (by decide)
  have hproduct : c ≠ productSymbol := by
    rintro rfl
    exact absurd hascii (by decide)
  simp [IsSmall, lowered, lowerChar, hsum, hproduct, hascii, hlower]

/-- The code of a small ASCII letter. -/
lemma isLower_iff (c : Char) : c.isLower = true ↔ 97 ≤ c.toNat ∧ c.toNat ≤ 122 := by
  rw [Char.isLower, Bool.and_eq_true, decide_eq_true_eq, decide_eq_true_eq]
  rfl

/-- The code of a digit. -/
lemma isDigit_iff (c : Char) : c.isDigit = true ↔ 48 ≤ c.toNat ∧ c.toNat ≤ 57 := by
  rw [Char.isDigit, Bool.and_eq_true, decide_eq_true_eq, decide_eq_true_eq]
  rfl

/-- The code of an ASCII capital. -/
lemma isUpper_iff (c : Char) : c.isUpper = true ↔ 65 ≤ c.toNat ∧ c.toNat ≤ 90 := by
  rw [Char.isUpper, decide_eq_true_eq]
  rfl

/-- A small ASCII letter is small. -/
lemma isSmall_of_isLower {c : Char} (h : c.isLower = true) : IsSmall c := by
  have hrange := (isLower_iff c).mp h
  refine isSmall_of_ascii (by omega) ?_
  rw [← Bool.not_eq_true, isUpper_iff]
  omega

/-- A digit is small. -/
lemma isSmall_of_isDigit {c : Char} (h : c.isDigit = true) : IsSmall c := by
  have hrange := (isDigit_iff c).mp h
  refine isSmall_of_ascii (by omega) ?_
  rw [← Bool.not_eq_true, isUpper_iff]
  omega

/-- The symbols that begin a factor are small, those of sum and product by exception. -/
lemma isSmall_of_isLeadingSymbol {c : Char} (h : isLeadingSymbol c = true) : IsSmall c := by
  simp only [isLeadingSymbol, Bool.or_eq_true, decide_eq_true_eq] at h
  rcases h with (((rfl | rfl) | rfl) | rfl) | rfl <;> decide

/-! ### The table of small letters -/

namespace LowerRun

/-- The code of the small letter of the first character of a run. -/
def firstImage (run : LowerRun) : Nat := (run.first + run.offset).toNat

/-- The code of the small letter of the last character of a run. -/
def lastImage (run : LowerRun) : Nat := (run.last + run.offset).toNat

/-- Whether the small letters of a run lie apart from the characters of another: beyond either end
of it, or on the odd places between its characters. -/
def misses (run other : LowerRun) : Bool :=
  Nat.blt run.lastImage other.first || Nat.blt other.last run.firstImage ||
    (Nat.beq other.step 2 && (Nat.beq run.step 2 || Nat.beq run.first run.last) &&
      Nat.beq ((run.firstImage + other.first) % 2) 1)

/-- The small letters of a run have codes of their own, and below the ASCII limit only those of
ASCII letters and of the sign for kelvin lie. -/
def isSound (run : LowerRun) : Bool :=
  decide (0 ≤ run.first + run.offset) &&
    (Nat.blt run.lastImage 0xd800 ||
      (Nat.blt 0xdfff run.firstImage && Nat.blt run.lastImage 0x110000)) &&
    (Nat.blt run.last 0x80 || Nat.ble 0x80 run.firstImage ||
      (Nat.beq run.first run.last && Nat.beq run.firstImage 107))

/-- A small letter of a run is no character of a run that the first one misses. -/
lemma not_contains_of_misses {run other : LowerRun} (h : run.misses other = true)
    (hsound : run.isSound = true) {n : Nat} (hn : run.contains n = true) :
    other.contains (n + run.offset).toNat = false := by
  simp only [misses, firstImage, lastImage, Bool.or_eq_true, Bool.and_eq_true, Nat.blt_eq,
    Nat.beq_eq] at h
  simp only [isSound, Bool.and_eq_true, decide_eq_true_eq] at hsound
  simp only [contains, Bool.and_eq_true, decide_eq_true_eq] at hn
  rw [← Bool.not_eq_true]
  simp only [contains, Bool.and_eq_true, decide_eq_true_eq]
  rintro ⟨⟨hfirst, hlast⟩, hstep⟩
  have hpos := hsound.1.1
  rcases h with (h | h) | ⟨⟨hother, hrun⟩, hodd⟩
  · omega
  · omega
  · rw [hother] at hstep
    rcases hrun with hrun | hrun
    · rw [hrun] at hn
      omega
    · omega

end LowerRun

/-- Every run of the table is sound. -/
lemma isSound_of_mem_lowerRuns : ∀ run ∈ lowerRuns, run.isSound = true := by
  decide +kernel

/-- No small letter of the table has a small letter itself. -/
lemma misses_of_mem_lowerRuns :
    ∀ run ∈ lowerRuns, ∀ other ∈ lowerRuns, run.misses other = true := by
  decide +kernel

/-- The characters that nothing else has as its small letter and that are not in the table
themselves: blanks, and the symbols that begin a factor except for the small letter pi. -/
def caselessRuns : List LowerRun :=
  [⟨0x85, 0x85, 1, 0⟩, ⟨0xa0, 0xa0, 1, 0⟩, ⟨0x130, 0x130, 1, 0⟩, ⟨0x3a0, 0x3a0, 1, 0⟩,
    ⟨0x3a3, 0x3a3, 1, 0⟩, ⟨0x1680, 0x1680, 1, 0⟩, ⟨0x2000, 0x200a, 1, 0⟩, ⟨0x2028, 0x2029, 1, 0⟩,
    ⟨0x202f, 0x202f, 1, 0⟩, ⟨0x205f, 0x205f, 1, 0⟩, ⟨0x221a, 0x221a, 1, 0⟩, ⟨0x222b, 0x222b, 1, 0⟩,
    ⟨0x3000, 0x3000, 1, 0⟩]

/-- No small letter of the table is such a character. -/
lemma misses_caselessRuns :
    ∀ run ∈ lowerRuns, ∀ other ∈ caselessRuns, run.misses other = true := by
  decide +kernel

/-- How a character comes by its small letter. -/
inductive LoweredAs (c : Char) : Text → Prop
  | symbol : c = sumSymbol ∨ c = productSymbol → LoweredAs c [c]
  | ascii : c.toNat < 0x80 → LoweredAs c [c.toLower]
  | dotted : c.toNat = 0x130 → LoweredAs c ['i', '\u0307']
  | entry {run : LowerRun} : 0x80 ≤ c.toNat → c ≠ productSymbol → run ∈ lowerRuns →
      run.contains c.toNat = true → LoweredAs c [Char.ofNat (c.toNat + run.offset).toNat]
  | itself : 0x80 ≤ c.toNat → c.toNat ≠ 0x130 →
      (∀ run ∈ lowerRuns, run.contains c.toNat = false) → LoweredAs c [c]

/-- Every character comes by its small letter in one of these ways. -/
lemma loweredAs (c : Char) : LoweredAs c (lowered c) := by
  rw [lowered]
  split
  · next hsymbol => exact .symbol (by simpa using hsymbol)
  · next hsymbol =>
    simp only [Bool.or_eq_true, decide_eq_true_eq, not_or] at hsymbol
    rw [lowerChar]
    split
    · next hascii => exact .ascii hascii
    · next hascii =>
      split
      · next hdotted => exact .dotted hdotted
      · next hdotted =>
        split
        · next run hfind =>
          have hcontains : run.contains c.toNat = true := by
            simpa using List.find?_some hfind
          exact .entry (not_lt.mp hascii) hsymbol.2 (List.mem_of_find?_eq_some hfind) hcontains
        · next hfind =>
          exact .itself (not_lt.mp hascii) hdotted fun run hrun => by
            simpa using List.find?_eq_none.mp hfind run hrun

/-- Every character has a small letter. -/
lemma lowered_ne_nil (c : Char) : lowered c ≠ [] := by
  have hcase := loweredAs c
  generalize lowered c = t at hcase
  cases hcase <;> simp

/-- A character beyond ASCII and outside the table is small. -/
lemma isSmall_of_not_contains {c : Char} (hascii : 0x80 ≤ c.toNat) (hdotted : c.toNat ≠ 0x130)
    (htable : ∀ run ∈ lowerRuns, run.contains c.toNat = false) : IsSmall c := by
  rw [IsSmall]
  have hcase := loweredAs c
  generalize lowered c = t at hcase ⊢
  cases hcase with
  | symbol _ => rfl
  | ascii h => omega
  | dotted h => exact absurd h hdotted
  | entry _ _ hmem hcontains =>
    rw [htable _ hmem] at hcontains
    exact absurd hcontains (by decide)
  | itself _ _ _ => rfl

/-- The small letter of a character in a run has the code that the run gives it. -/
lemma toNat_image {run : LowerRun} (hmem : run ∈ lowerRuns) {n : Nat}
    (hn : run.contains n = true) :
    (Char.ofNat (n + run.offset).toNat).toNat = (n + run.offset).toNat := by
  have hsound := isSound_of_mem_lowerRuns run hmem
  simp only [LowerRun.isSound, LowerRun.firstImage, LowerRun.lastImage, Bool.and_eq_true,
    Bool.or_eq_true, decide_eq_true_eq, Nat.blt_eq] at hsound
  simp only [LowerRun.contains, Bool.and_eq_true, decide_eq_true_eq] at hn
  have hvalid : (n + run.offset).toNat.isValidChar := by
    rcases hsound.1.2 with h | ⟨hlow, hhigh⟩
    · exact Or.inl (by omega)
    · exact Or.inr ⟨by omega, by omega⟩
  rw [Char.ofNat, dif_pos hvalid]
  rfl

/-- The small letter of an ASCII character. -/
lemma toLower_cases (c : Char) : c.toLower = c ∧ c.isUpper = false ∨ c.toLower.isLower = true := by
  cases hupper : c.isUpper with
  | false => exact Or.inl ⟨Char.toLower_eq_of_not_isUpper (by simp [hupper]), rfl⟩
  | true =>
    right
    rw [Char.isLower_toLower_eq_isAlpha, Char.isAlpha, hupper]
    rfl

/-- The code of a small letter from the table is that of a small ASCII letter, or beyond ASCII and
that of no character that the table applies to. -/
lemma image_cases {run : LowerRun} (hmem : run ∈ lowerRuns) {n : Nat} (hascii : 0x80 ≤ n)
    (hn : run.contains n = true) :
    (n + run.offset).toNat = 107 ∨ 0x80 ≤ (n + run.offset).toNat := by
  have hsound := isSound_of_mem_lowerRuns run hmem
  simp only [LowerRun.isSound, LowerRun.firstImage, LowerRun.lastImage, Bool.and_eq_true,
    Bool.or_eq_true, decide_eq_true_eq, Nat.blt_eq, Nat.ble_eq, Nat.beq_eq] at hsound
  simp only [LowerRun.contains, Bool.and_eq_true, decide_eq_true_eq] at hn
  rcases hsound.2 with (h | h) | ⟨hone, h⟩ <;> omega

/-- **Small letters are small**: making letters small again changes nothing. -/
theorem isSmall_of_mem_lowered {c d : Char} (h : d ∈ lowered c) : IsSmall d := by
  obtain ⟨t, ht⟩ : ∃ t, lowered c = t := ⟨_, rfl⟩
  have hcase := loweredAs c
  rw [ht] at h hcase
  cases hcase with
  | symbol _ =>
    rw [List.mem_singleton.mp h]
    exact ht
  | ascii hascii =>
    rw [List.mem_singleton.mp h]
    rcases toLower_cases c with ⟨hsame, hupper⟩ | hlower
    · rw [hsame]
      exact isSmall_of_ascii hascii hupper
    · exact isSmall_of_isLower hlower
  | dotted _ =>
    simp only [List.mem_cons, List.not_mem_nil, or_false] at h
    rcases h with rfl | rfl <;> decide
  | @entry run hascii _ hmem hcontains =>
    rw [List.mem_singleton.mp h]
    have hcode := toNat_image hmem hcontains
    rcases image_cases hmem hascii hcontains with hk | hbeyond
    · exact isSmall_of_isLower ((isLower_iff _).mpr (by omega))
    · -- the small letter is in no run of the table, nor is it the dotted capital
      have hsound := isSound_of_mem_lowerRuns run hmem
      have hdotted : (⟨0x130, 0x130, 1, 0⟩ : LowerRun) ∈ caselessRuns := by
        simp [caselessRuns]
      refine isSmall_of_not_contains (by omega) (fun h130 => ?_) fun other hother => ?_
      · have := LowerRun.not_contains_of_misses (misses_caselessRuns run hmem _ hdotted) hsound
          hcontains
        rw [← hcode, h130] at this
        exact absurd this (by decide)
      · rw [hcode]
        exact LowerRun.not_contains_of_misses (misses_of_mem_lowerRuns run hmem other hother) hsound
          hcontains
  | itself _ _ _ =>
    rw [List.mem_singleton.mp h]
    exact ht

/-- A text in small letters is left as it is. -/
theorem normalizeCase_idem (t : Text) : normalizeCase (normalizeCase t) = normalizeCase t := by
  refine normalizeCase_eq_self fun d hd => ?_
  obtain ⟨c, -, hc⟩ := List.mem_flatMap.mp hd
  exact isSmall_of_mem_lowered hc

/-! ### Characters without case -/

/-- The characters on which the reading of expressions rests, apart from letters. -/
def isCaseless (c : Char) : Bool :=
  (c.toNat < 0x80 && !c.isAlpha) || isLeadingSymbol c || isBlank c

/-- The codes of the blanks beyond ASCII. -/
def blankCodes : List Nat :=
  [0x85, 0xa0, 0x1680, 0x2000, 0x2001, 0x2002, 0x2003, 0x2004, 0x2005, 0x2006, 0x2007, 0x2008,
    0x2009, 0x200a, 0x2028, 0x2029, 0x202f, 0x205f, 0x3000]

/-- A blank is ASCII and no letter, or it has one of these codes. -/
lemma isBlank_cases {c : Char} (h : isBlank c = true) :
    c.toNat ≤ 0x20 ∨ c.toNat ∈ blankCodes := by
  simp only [isBlank, Bool.or_eq_true, Bool.and_eq_true, decide_eq_true_eq] at h
  simp only [blankCodes, List.mem_cons, List.not_mem_nil, or_false]
  omega

/-- No caseless character is a small ASCII letter. -/
lemma not_isLower_of_isCaseless {c : Char} (h : isCaseless c = true) : c.isLower = false := by
  rw [← Bool.not_eq_true]
  intro hlower
  have hrange := (isLower_iff c).mp hlower
  simp only [isCaseless, Bool.or_eq_true, Bool.and_eq_true] at h
  rcases h with (⟨-, halpha⟩ | hsymbol) | hblank
  · simp [Char.isAlpha, hlower] at halpha
  · simp only [isLeadingSymbol, Bool.or_eq_true, decide_eq_true_eq] at hsymbol
    rcases hsymbol with (((rfl | rfl) | rfl) | rfl) | rfl <;> exact absurd hlower (by decide)
  · rcases isBlank_cases hblank with hcode | hcode
    · omega
    · simp only [blankCodes, List.mem_cons, List.not_mem_nil, or_false] at hcode
      omega

/-- A caseless character is small. -/
lemma isSmall_of_isCaseless {c : Char} (h : isCaseless c = true) : IsSmall c := by
  have hlower := not_isLower_of_isCaseless h
  simp only [isCaseless, Bool.or_eq_true, Bool.and_eq_true, decide_eq_true_eq] at h
  rcases h with (⟨hascii, halpha⟩ | hsymbol) | hblank
  · exact isSmall_of_ascii hascii (by simp [Char.isAlpha] at halpha; simp [halpha])
  · exact isSmall_of_isLeadingSymbol hsymbol
  · rcases isBlank_cases hblank with hcode | hcode
    · refine isSmall_of_ascii (by omega) ?_
      rw [← Bool.not_eq_true, isUpper_iff]
      omega
    · have hall : ∀ n ∈ blankCodes, IsSmall (Char.ofNat n) := by decide +kernel
      have := hall _ hcode
      rwa [Char.ofNat_toNat] at this

/-- A caseless character beyond ASCII is the small letter pi, or nobody's small letter. -/
lemma isCaseless_cases {c : Char} (h : isCaseless c = true) (hbeyond : 0x80 ≤ c.toNat) :
    c = piSymbol ∨ ∃ other ∈ caselessRuns, other.contains c.toNat = true := by
  simp only [isCaseless, Bool.or_eq_true, Bool.and_eq_true, decide_eq_true_eq] at h
  rcases h with (⟨hascii, -⟩ | hsymbol) | hblank
  · omega
  · simp only [isLeadingSymbol, Bool.or_eq_true, decide_eq_true_eq] at hsymbol
    rcases hsymbol with (((rfl | rfl) | rfl) | rfl) | rfl
    · exact Or.inr (by decide)
    · exact Or.inl rfl
    · exact Or.inr (by decide)
    · exact Or.inr (by decide)
    · exact Or.inr (by decide)
  · rcases isBlank_cases hblank with hcode | hcode
    · omega
    · have hall : ∀ n ∈ blankCodes, ∃ other ∈ caselessRuns, other.contains n = true := by decide
      exact Or.inr (hall _ hcode)

/-- In the table only the capital pi, which is exempted, has the small letter pi. -/
lemma misses_piSymbol :
    ∀ run ∈ lowerRuns, run.misses ⟨0x3c0, 0x3c0, 1, 0⟩ = true ∨ run.offset = 32 := by
  decide +kernel

/-- **Caseless characters** are small, and nothing else has one as its small letter. -/
theorem mem_lowered_iff_of_isCaseless {c d : Char} (h : isCaseless d = true) :
    d ∈ lowered c ↔ c = d := by
  have hlower := not_isLower_of_isCaseless h
  constructor
  · intro hmem
    have hcase := loweredAs c
    generalize lowered c = t at hcase hmem
    cases hcase with
    | symbol _ => exact (List.mem_singleton.mp hmem).symm
    | ascii _ =>
      rw [List.mem_singleton] at hmem
      rcases toLower_cases c with ⟨hsame, -⟩ | hletter
      · rw [hmem, hsame]
      · rw [← hmem, hlower] at hletter
        exact absurd hletter (by decide)
    | dotted _ =>
      simp only [List.mem_cons, List.not_mem_nil, or_false] at hmem
      rcases hmem with rfl | rfl
      · exact absurd hlower (by decide)
      · exact absurd h (by decide)
    | @entry run hascii hproduct hrun hcontains =>
      rw [List.mem_singleton] at hmem
      have hcode := toNat_image hrun hcontains
      rw [← hmem] at hcode
      have hsound := isSound_of_mem_lowerRuns run hrun
      rcases image_cases hrun hascii hcontains with hk | hbeyond
      · rw [← Bool.not_eq_true, isLower_iff] at hlower
        omega
      · rcases isCaseless_cases h (by omega) with rfl | ⟨other, hother, hin⟩
        · rcases misses_piSymbol run hrun with hmiss | hoffset
          · have := LowerRun.not_contains_of_misses hmiss hsound hcontains
            rw [← hcode] at this
            exact absurd this (by decide)
          · -- the capital pi is no character of the table
            refine absurd ?_ hproduct
            have hpi : (piSymbol.toNat : Int) = 0x3c0 := rfl
            have hcapital : c.toNat = 0x3a0 := by omega
            rw [← Char.ofNat_toNat c, hcapital]
            rfl
        · have := LowerRun.not_contains_of_misses (misses_caselessRuns run hrun other hother) hsound
            hcontains
          rw [← hcode, hin] at this
          exact absurd this (by decide)
    | itself _ _ _ => exact (List.mem_singleton.mp hmem).symm
  · rintro rfl
    rw [isSmall_of_isCaseless h]
    simp

/-- The small letter `e` is that of `e` and of the capital `E`. -/
lemma eq_of_mark_mem_lowered {c : Char} (h : 'e' ∈ lowered c) : c = 'e' ∨ c = 'E' := by
  have hcase := loweredAs c
  generalize lowered c = t at hcase h
  cases hcase with
  | symbol _ => exact Or.inl (List.mem_singleton.mp h).symm
  | ascii hascii =>
    have htable : ∀ n < 0x80, (Char.ofNat n).toLower = 'e' →
        Char.ofNat n = 'e' ∨ Char.ofNat n = 'E' := by decide
    have := htable c.toNat hascii
    rw [Char.ofNat_toNat] at this
    exact this (List.mem_singleton.mp h).symm
  | dotted _ => exact absurd h (by decide)
  | entry hascii _ hmem hcontains =>
    -- beyond ASCII only the sign for kelvin has an ASCII letter as its small letter
    have hcode := toNat_image hmem hcontains
    rw [← List.mem_singleton.mp h] at hcode
    have he : 'e'.toNat = 101 := rfl
    rcases image_cases hmem hascii hcontains with hk | hbeyond
    · omega
    · omega
  | itself _ _ _ => exact Or.inl (List.mem_singleton.mp h).symm

end DecimalCalculator
