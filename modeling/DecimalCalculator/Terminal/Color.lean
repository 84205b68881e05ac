import DecimalCalculator.Text.Characters

/-!
Terminal colors and how they are written: by name, as an index of the palette, as `#rrggbb`, or as
`rgb(r, g, b)`.

* `Color.ofText?`: the color that a text names, without regard to ASCII case.
* `Color.toText`: the one form in which a color is written.
* `Color.codes`: the codes that select the color.
-/

namespace DecimalCalculator

/-! ### Named colors -/

/-- The colors with a name. -/
inductive NamedColor where
  | black | red | green | yellow | blue | purple | magenta | cyan | white
  | darkGray | lightRed | lightGreen | lightYellow | lightBlue | lightPurple | lightMagenta
  | lightCyan | lightGray | standard
deriving DecidableEq

namespace NamedColor

/-- All named colors. -/
def all : List NamedColor :=
  [black, red, green, yellow, blue, purple, magenta, cyan, white, darkGray, lightRed, lightGreen,
    lightYellow, lightBlue, lightPurple, lightMagenta, lightCyan, lightGray, standard]

/-- The name of the color. -/
def name : NamedColor → Text
  | black => ['b', 'l', 'a', 'c', 'k']
  | red => ['r', 'e', 'd']
  | green => ['g', 'r', 'e', 'e', 'n']
  | yellow => ['y', 'e', 'l', 'l', 'o', 'w']
  | blue => ['b', 'l', 'u', 'e']
  | purple => ['p', 'u', 'r', 'p', 'l', 'e']
  | magenta => ['m', 'a', 'g', 'e', 'n', 't', 'a']
  | cyan => ['c', 'y', 'a', 'n']
  | white => ['w', 'h', 'i', 't', 'e']
  | darkGray => ['d', 'a', 'r', 'k', '_', 'g', 'r', 'a', 'y']
  | lightRed => ['l', 'i', 'g', 'h', 't', '_', 'r', 'e', 'd']
  | lightGreen => ['l', 'i', 'g', 'h', 't', '_', 'g', 'r', 'e', 'e', 'n']
  | lightYellow => ['l', 'i', 'g', 'h', 't', '_', 'y', 'e', 'l', 'l', 'o', 'w']
  | lightBlue => ['l', 'i', 'g', 'h', 't', '_', 'b', 'l', 'u', 'e']
  | lightPurple => ['l', 'i', 'g', 'h', 't', '_', 'p', 'u', 'r', 'p', 'l', 'e']
  | lightMagenta => ['l', 'i', 'g', 'h', 't', '_', 'm', 'a', 'g', 'e', 'n', 't', 'a']
  | lightCyan => ['l', 'i', 'g', 'h', 't', '_', 'c', 'y', 'a', 'n']
  | lightGray => ['l', 'i', 'g', 'h', 't', '_', 'g', 'r', 'a', 'y']
  | standard => ['d', 'e', 'f', 'a', 'u', 'l', 't']

/-- The code that selects the color for the foreground. -/
def code : NamedColor → Nat
  | black => 30
  | red => 31
  | green => 32
  | yellow => 33
  | blue => 34
  | purple => 35
  | magenta => 35
  | cyan => 36
  | white => 37
  | standard => 39
  | darkGray => 90
  | lightRed => 91
  | lightGreen => 92
  | lightYellow => 93
  | lightBlue => 94
  | lightPurple => 95
  | lightMagenta => 95
  | lightCyan => 96
  | lightGray => 97

end NamedColor

/-! ### Colors -/

/-- A terminal color. -/
inductive Color where
  | named (c : NamedColor)
  | fixed (index : UInt8)
  | rgb (red green blue : UInt8)
deriving DecidableEq

namespace Color

/-- A number below 256, written in decimal. -/
def byte? (t : Text) : Option UInt8 := do
  let n ← natural? t
  if n < 256 then some (UInt8.ofNat n) else none

/-- A number below 256, written as two hexadecimal digits. -/
def hexByte? (high low : Char) : Option UInt8 := (numeral? 16 [high, low]).map UInt8.ofNat

/-- A color of six hexadecimal digits. -/
def ofHex? : Text → Option Color
  | [r₁, r₂, g₁, g₂, b₁, b₂] => do
    some (rgb (← hexByte? r₁ r₂) (← hexByte? g₁ g₂) (← hexByte? b₁ b₂))
  | _ => none

/-- A color of three numbers between commas, each perhaps with blanks around it. -/
def ofChannels? (t : Text) : Option Color :=
  match pieces (· = ',') t with
  | [r, g, b] => do
    some (rgb (← byte? (trim r)) (← byte? (trim g)) (← byte? (trim b)))
  | _ => none

/-- The text between `rgb(` and a last closing bracket. -/
def channels? (t : Text) : Option Text := do
  let rest ← dropStart? ['r', 'g', 'b', '('] t
  if rest.getLast? = some ')' then some rest.dropLast else none

/-- The color that a text names. -/
def ofText? (t : Text) : Option Color :=
  let word := lowerAscii t
  match NamedColor.all.find? fun c => c.name = word with
  | some c => some (named c)
  | none =>
    match byte? word with
    | some index => some (fixed index)
    | none =>
      match word with
      | '#' :: hex => ofHex? hex
      | _ => (channels? word).bind ofChannels?

/-- A number below 256 as two hexadecimal digits. -/
def hexText (n : UInt8) : Text :=
  [Nat.digitChar (n.toNat / 16), Nat.digitChar (n.toNat % 16)]

/-- The color as it is written. -/
def toText : Color → Text
  | named c => c.name
  | fixed index => digitsOf index.toNat
  | rgb r g b => '#' :: (hexText r ++ hexText g ++ hexText b)

/-- The codes that select the color, for the foreground or, ten higher, for the background. -/
def codes (isBackground : Bool) (c : Color) : List Nat :=
  let shift := if isBackground then 10 else 0
  match c with
  | named c => [c.code + shift]
  | fixed index => [38 + shift, 5, index.toNat]
  | rgb r g b => [38 + shift, 2, r.toNat, g.toNat, b.toNat]

end Color

end DecimalCalculator
