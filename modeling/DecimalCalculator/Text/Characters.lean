/-!
Texts and the classes of characters that the calculator distinguishes.

* `Text`: a text is the list of its characters.
* `isBlank`, `trim`, `words`: the white space of the Unicode standard, and how it is taken off and
  divided at.
* `isNumeral`, `isLetter`, `isLeadingSymbol`: the classes on which the reading of a product rests.
* `lowerAscii`: names of modes, colors and attributes are read without regard to ASCII case.
-/

namespace DecimalCalculator

/-- A text, character by character. -/
abbrev Text := List Char

/-- The text of a string. -/
abbrev text (s : String) : Text := s.toList

/-! ### Symbols -/

/-- The symbolic spelling of a sum, the capital letter sigma. -/
def sumSymbol : Char := '\u03a3'

/-- The symbolic spelling of a product, the capital letter pi. -/
def productSymbol : Char := '\u03a0'

/-- The symbolic spelling of the constant, the small letter pi. -/
def piSymbol : Char := '\u03c0'

/-- The symbolic spelling of an integral. -/
def integralSymbol : Char := '\u222b'

/-- The symbolic spelling of a square root. -/
def rootSymbol : Char := '\u221a'

/-- The letter that the function of an aggregate varies. -/
def variableLetter : Char := 'x'

/-! ### Character classes -/

/-- The characters with the Unicode property `White_Space`: the controls from tab to carriage
return, the next-line control, and the space separators with the line and paragraph separators. -/
def isBlank (c : Char) : Bool :=
  let n := c.toNat
  (9 ≤ n && n ≤ 13) || n = 0x20 || n = 0x85 || n = 0xa0 || n = 0x1680 ||
    (0x2000 ≤ n && n ≤ 0x200a) || n = 0x2028 || n = 0x2029 || n = 0x202f || n = 0x205f ||
    n = 0x3000

/-- A digit or the decimal point. -/
def isNumeral (c : Char) : Bool := c.isDigit || c = '.'

/-- A small ASCII letter: only these begin the names that a factor may start with. -/
def isLetter (c : Char) : Bool := c.isLower

/-- The symbols that, like a letter, begin a factor. -/
def isLeadingSymbol (c : Char) : Bool :=
  c = sumSymbol || c = piSymbol || c = productSymbol || c = integralSymbol || c = rootSymbol

/-- A bracket of either side. -/
def isBracket (c : Char) : Bool := c = '(' || c = ')'

/-! ### Trimming and dividing -/

/-- The text without the blanks at its two ends. -/
def trim (t : Text) : Text := ((t.dropWhile isBlank).reverse.dropWhile isBlank).reverse

/-- The text with every ASCII capital made small. -/
def lowerAscii (t : Text) : Text := t.map Char.toLower

/-- Divides a text at the first character with the property `p`. The character itself belongs to
neither part, and the second part is missing if there is no such character. -/
def cutAt (p : Char → Bool) (t : Text) : Text × Option Text :=
  (t.takeWhile fun c => !p c,
    match t.dropWhile fun c => !p c with
    | [] => none
    | _ :: rest => some rest)

/-- The maximal runs of a list without elements of the property `p`, empty ones included:
one more than there are elements with the property. -/
def pieces {α : Type} (p : α → Bool) (l : List α) : List (List α) :=
  let divided := l.foldr
    (fun a (state : List α × List (List α)) =>
      if p a then ([], state.1 :: state.2) else (a :: state.1, state.2))
    ([], [])
  divided.1 :: divided.2

/-- The words of a text: its maximal nonempty runs without blanks. -/
def words (t : Text) : List Text := (pieces isBlank t).filter fun w => !w.isEmpty

/-- The rest of the text after `start`, if the text begins so. -/
def dropStart? (start t : Text) : Option Text :=
  if start.isPrefixOf t then some (t.drop start.length) else none

/-! ### Numerals -/

/-- The number that a run of decimal digits spells. -/
def digitsValue (t : Text) : Nat := t.foldl (fun n c => 10 * n + (c.toNat - '0'.toNat)) 0

/-- The natural number written as digits, at least one, after at most one plus sign. -/
def natural? (t : Text) : Option Nat :=
  let unsigned := (dropStart? ['+'] t).getD t
  if unsigned.isEmpty || !unsigned.all Char.isDigit then none else some (digitsValue unsigned)

/-- The value of a character as a digit of a base, which is sixteen at most. -/
def digit? (base : Nat) (c : Char) : Option Nat :=
  let value :=
    if c.isDigit then c.toNat - '0'.toNat
    else if 'a' ≤ c ∧ c ≤ 'f' then c.toNat - 'a'.toNat + 10
    else if 'A' ≤ c ∧ c ≤ 'F' then c.toNat - 'A'.toNat + 10
    else base
  if value < base then some value else none

/-- The number that a run of digits of a base spells. -/
def numeral? (base : Nat) (t : Text) : Option Nat :=
  (t.mapM (digit? base)).map fun digits => digits.foldl (fun n d => base * n + d) 0

/-- The decimal digits of a natural number. -/
def digitsOf (n : Nat) : Text := Nat.toDigits 10 n

/-- An integer with a minus sign if it is negative. -/
def integerText (n : Int) : Text :=
  if n < 0 then '-' :: digitsOf n.natAbs else digitsOf n.natAbs

end DecimalCalculator
