import DecimalCalculator.Proofs.Decimal.Rendering
import DecimalCalculator.Proofs.Text.LowerCase
import DecimalCalculator.Proofs.Text.Words
import DecimalCalculator.Terminal.Color

/-!
Colors, written and read back.

* `digit?_digitChar`, `natural?_digitsOf`: the digits of a number below sixteen, and of any number.
* `Color.byte?_digitsOf`, `Color.hexByte?_hexText`: the two ways in which a number below 256 is
  written.
* `Color.toText_cases`: a written color begins with a small letter only if it has a name.
* `Color.ofText?_toText`: **every color is read back** from the form in which it is written.
-/

namespace DecimalCalculator

/-! ### Numbers -/

/-- A digit of the base sixteen, written in small letters. -/
lemma digit?_digitChar {n : ℕ} (hn : n < 16) : digit? 16 (Nat.digitChar n) = some n := by
  interval_cases n <;> rfl

/-- The digits of a base up to sixteen are no capitals. -/
lemma toLower_digitChar {n : ℕ} (hn : n < 16) : (Nat.digitChar n).toLower = Nat.digitChar n := by
  interval_cases n <;> rfl

/-- The digits of a base up to sixteen are no blanks. -/
lemma isBlank_digitChar {n : ℕ} (hn : n < 16) : isBlank (Nat.digitChar n) = false := by
  interval_cases n <;> rfl

/-- A decimal digit is that of a number below ten. -/
lemma exists_digitChar {c : Char} (h : c.isDigit = true) : ∃ n < 10, Nat.digitChar n = c := by
  obtain ⟨hlow, hhigh⟩ := (isDigit_iff c).mp h
  refine ⟨c.toNat - 48, by omega, Char.toNat_inj.mp ?_⟩
  rw [Nat.toNat_digitChar_of_lt_ten (by omega)]
  omega

/-- **The digits of a number** are read as the number. -/
theorem natural?_digitsOf (n : ℕ) : natural? (digitsOf n) = some n := by
  have hdigits : AllDigits (digitsOf n) := allDigits_digitsOf n
  obtain ⟨d, rest, hcons⟩ := List.exists_cons_of_ne_nil
    (show digitsOf n ≠ [] from Nat.toDigits_ne_nil)
  have hplus : '+' ≠ d := by
    rintro rfl
    exact absurd (hdigits '+' (by simp [hcons])) (by decide)
  have hunsigned : dropStart? ['+'] (digitsOf n) = none := by
    rw [hcons, dropStart?, List.isPrefixOf_cons_cons]
    simp [hplus]
  have hall : (digitsOf n).all Char.isDigit = true := List.all_eq_true.mpr hdigits
  rw [natural?, hunsigned]
  simp [hall, hcons ▸ List.cons_ne_nil d rest, digitsValue_eq_spelledNumber, spelledNumber_digitsOf]

/-! ### Names -/

namespace NamedColor

/-- A name begins with a small letter. -/
lemma exists_name_eq_cons (c : NamedColor) : ∃ d rest, c.name = d :: rest ∧ d.isLower = true := by
  cases c <;> exact ⟨_, _, rfl, rfl⟩

/-- A color is found under its name. -/
lemma find?_name (c : NamedColor) : (all.find? fun d => d.name = c.name) = some c := by
  cases c <;> decide +kernel

/-- No color is found under a word that begins with another character than a small letter. -/
lemma find?_eq_none {d : Char} (hd : d.isLower = false) (rest : Text) :
    (all.find? fun c => c.name = d :: rest) = none := by
  rw [List.find?_eq_none]
  intro c _ hname
  obtain ⟨e, tail, hcons, he⟩ := c.exists_name_eq_cons
  rw [hcons, decide_eq_true_eq, List.cons_eq_cons] at hname
  rw [hname.1, hd] at he
  exact absurd he (by decide)

/-- Names are words in small letters. -/
lemma isWord_name (c : NamedColor) : IsWord c.name ∧ lowerAscii c.name = c.name := by
  have hne : c.name ≠ [] := by
    obtain ⟨d, rest, hcons, -⟩ := c.exists_name_eq_cons
    simp [hcons]
  have hall : (c.name.all fun d => !isBlank d) = true := by cases c <;> rfl
  have hlower : lowerAscii c.name = c.name := by cases c <;> rfl
  exact ⟨isWord_of_all hne hall, hlower⟩

end NamedColor

/-! ### Colors -/

namespace Color

/-- A number below 256 is read back from its digits. -/
lemma byte?_digitsOf (n : UInt8) : byte? (digitsOf n.toNat) = some n := by
  rw [byte?, natural?_digitsOf]
  simp [n.toNat_lt]

/-- A number below 256 is read back from two hexadecimal digits. -/
lemma hexByte?_hexText (n : UInt8) :
    hexByte? (Nat.digitChar (n.toNat / 16)) (Nat.digitChar (n.toNat % 16)) = some n := by
  have hn := n.toNat_lt
  rw [hexByte?, numeral?]
  simp only [List.mapM_cons, List.mapM_nil, digit?_digitChar (show n.toNat / 16 < 16 by omega),
    digit?_digitChar (show n.toNat % 16 < 16 by omega)]
  have hsum : 16 * (n.toNat / 16) + n.toNat % 16 = n.toNat := Nat.div_add_mod _ _
  simp [hsum]

/-- What is written for a color is a word in small letters. -/
lemma isWord_toText (c : Color) : IsWord c.toText ∧ lowerAscii c.toText = c.toText := by
  have hword : ∀ t : Text, t ≠ [] → (∀ d ∈ t, isBlank d = false ∧ d.toLower = d) →
      IsWord t ∧ lowerAscii t = t := by
    intro t hne h
    refine ⟨⟨hne, fun d hd => (h d hd).1⟩, ?_⟩
    rw [lowerAscii, List.map_congr_left fun d hd => (h d hd).2, List.map_id']
  have hdigit : ∀ n < 16, isBlank (Nat.digitChar n) = false ∧
      (Nat.digitChar n).toLower = Nat.digitChar n :=
    fun n hn => ⟨isBlank_digitChar hn, toLower_digitChar hn⟩
  cases c with
  | named c => exact c.isWord_name
  | fixed index =>
    refine hword _ Nat.toDigits_ne_nil fun d hd => ?_
    obtain ⟨n, hn, rfl⟩ := exists_digitChar (allDigits_digitsOf _ d hd)
    exact hdigit n (by omega)
  | rgb r g b =>
    refine hword _ (List.cons_ne_nil _ _) fun d hd => ?_
    have hchannel : ∀ n : UInt8, d ∈ hexText n → isBlank d = false ∧ d.toLower = d := by
      intro n hmem
      have hn := n.toNat_lt
      rcases List.mem_pair.mp hmem with rfl | rfl
      · exact hdigit _ (by omega)
      · exact hdigit _ (by omega)
    rcases List.mem_cons.mp hd with rfl | hd
    · decide
    · rcases List.mem_append.mp hd with hd | hd
      · exact (List.mem_append.mp hd).elim (hchannel r) (hchannel g)
      · exact hchannel b hd

/-- What is written for a color begins with a small letter only if the color has a name. -/
lemma toText_cases (c : Color) :
    (∃ named, c = .named named) ∨ ∃ d rest, c.toText = d :: rest ∧ d.isLower = false := by
  cases c with
  | named c => exact Or.inl ⟨c, rfl⟩
  | fixed index =>
    obtain ⟨d, rest, hcons⟩ := List.exists_cons_of_ne_nil
      (show digitsOf index.toNat ≠ [] from Nat.toDigits_ne_nil)
    obtain ⟨n, hn, rfl⟩ := exists_digitChar (allDigits_digitsOf index.toNat d (by simp [hcons]))
    exact Or.inr ⟨_, rest, hcons, by interval_cases n <;> rfl⟩
  | rgb r g b => exact Or.inr ⟨'#', _, rfl, rfl⟩

/-- **Every color** is read back from the form in which it is written. -/
theorem ofText?_toText (c : Color) : ofText? c.toText = some c := by
  rw [ofText?, c.isWord_toText.2]
  cases c with
  | named c => rw [show (named c).toText = c.name from rfl, c.find?_name]
  | fixed index =>
    obtain ⟨named, hnamed⟩ | ⟨d, rest, hcons, hd⟩ := (fixed index).toText_cases
    · exact absurd hnamed (by simp)
    · have hnone : (NamedColor.all.find? fun c => c.name = (fixed index).toText) = none := by
        rw [hcons, NamedColor.find?_eq_none hd]
      rw [hnone]
      simp [toText, byte?_digitsOf]
  | rgb r g b =>
    have hbyte : ∀ rest, byte? ('#' :: rest) = none := fun rest => by
      simp [byte?, natural?, dropStart?]
    rw [toText, NamedColor.find?_eq_none (by decide), hbyte]
    simp [hexText, ofHex?, hexByte?_hexText]

end Color

end DecimalCalculator
