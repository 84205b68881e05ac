import DecimalCalculator.Text.Characters

/-!
Products written without a sign: `2(3)` is `2*(3)`, `2x` is `2*x` and `xpi` is `x*pi`.

* `insertProducts`: writes the missing signs.
* `preprocess`: takes the blanks out of a line, then writes the missing signs.

An `e` right after a numeral stays with it where a sign, a digit or a point follows, as in
`1e5` and `2e-3`, and the name `exp(` is never divided.
-/

namespace DecimalCalculator

/-- A character that may begin a factor. -/
def beginsFactor (c : Char) : Bool := isLetter c || c = '(' || isLeadingSymbol c

/-- Whether `e` after the character `prev` and before `rest` is the mark of an exponent. -/
def isExponentMark (prev : Char) (rest : Text) : Bool :=
  isNumeral prev &&
    match rest with
    | next :: _ => next = '+' || next = '-' || isNumeral next
    | [] => false

/-- Whether a product sign is missing between `prev` and the character `c` before `rest`: a factor
begins after a closing bracket or a numeral. -/
def missesBefore (prev : Option Char) (c : Char) (rest : Text) : Bool :=
  match prev with
  | none => false
  | some p =>
    beginsFactor c && (p = ')' || isNumeral p) && !(c = 'e' && isExponentMark p rest)

/-- A letter that ends a factor of its own: the variable, a constant, or the last letter of
`pi`. -/
def endsFactor (c : Char) : Bool := c = variableLetter || c = 'i' || c = 'e' || c = piSymbol

/-- A character that begins a factor after one of the letters that end a factor. -/
def continuesProduct (c : Char) : Bool :=
  c = '(' || c = variableLetter || c = 'i' || c = 'e' || c = 'p' || isLeadingSymbol c

/-- Whether `c`, after `prev` and before `rest`, is the first or second letter of `exp(`. -/
def isInsideExp (prev : Option Char) (c : Char) (rest : Text) : Bool :=
  (c = 'e' && ['x', 'p', '('].isPrefixOf rest) ||
    (c = 'x' && prev = some 'e' && ['p', '('].isPrefixOf rest)

/-- Whether a product sign is missing between `c`, which follows `prev`, and `rest`. -/
def missesAfter (prev : Option Char) (c : Char) (rest : Text) : Bool :=
  match rest with
  | [] => false
  | next :: _ => endsFactor c && continuesProduct next && !isInsideExp prev c rest

/-- Writes the missing product signs into a text that follows the character `prev`. -/
def insertProductsAfter (prev : Option Char) : Text → Text
  | [] => []
  | c :: rest =>
    let before := missesBefore prev c rest
    let prev := if before then some '*' else prev
    let written :=
      if missesAfter prev c rest then c :: '*' :: insertProductsAfter (some '*') rest
      else c :: insertProductsAfter (some c) rest
    if before then '*' :: written else written

/-- Writes the missing product signs into a text. -/
def insertProducts (t : Text) : Text := insertProductsAfter none t

/-- The text without its blanks. -/
def removeBlanks (t : Text) : Text := t.filter fun c => !isBlank c

/-- Prepares a line for evaluation: no blanks, and every product with its sign. -/
def preprocess (t : Text) : Text := insertProducts (removeBlanks t)

end DecimalCalculator
