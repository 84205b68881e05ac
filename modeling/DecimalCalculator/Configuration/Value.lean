import DecimalCalculator.Text.Characters

/-!
The values of a TOML document, and how they and their keys are written.

* `Value`: strings, integers, booleans, arrays and tables.
* `string?`, `integer?`, `keyPath?`: the parts that values and keys are made of.
* `value?`: a value and what follows it. An array may go on over lines, a table in braces may
  not.
* `addMember`: a table with the value of one more key, which may lead through tables of its own.

Fractions and dates are refused: there is nothing that they could be the value of.
-/

namespace DecimalCalculator.Document

/-! ### Values -/

/-- A value of a key. -/
inductive Value where
  | string (t : Text)
  | integer (n : Int)
  | boolean (b : Bool)
  | array (items : List Value)
  /-- A table, with its keys in order and perhaps repeated, and whether it is written in
  braces. -/
  | table (isInline : Bool) (members : List (Text × Value))

/-- The keys of a table with their values. -/
abbrev Members := List (Text × Value)

/-- The keys that lead to a table or value. -/
abbrev KeyPath := List Text

/-- The table with the value of one more key. The parts of the key before the last one lead
through tables, which are opened by such keys alone. -/
def addMember (value : Value) : KeyPath → Members → Option Members
  | [], _ => none
  | [key], members => some (members ++ [(key, value)])
  | key :: next :: path, members =>
    match members.span fun member => member.1 ≠ key with
    | (before, (_, .table false inner) :: after) => do
      let extended ← addMember value (next :: path) inner
      some (before ++ (key, .table false extended) :: after)
    | (_, _ :: _) => none
    | (before, []) => do
      let opened ← addMember value (next :: path) []
      some (before ++ [(key, .table false opened)])

/-! ### Space and comments -/

/-- A space or a tab. -/
def isSpace (c : Char) : Bool := c = ' ' || c = '\t'

/-- The text after its leading spaces and tabs. -/
def skipSpace (t : Text) : Text := t.dropWhile isSpace

/-- A character that may stand in a comment. -/
def isCommentChar (c : Char) : Bool := c = '\t' || 0x20 ≤ c.toNat

/-- The text after its leading space, line ends and comments; `inComment` says that it begins
inside a comment. -/
def skipLines (inComment : Bool) : Text → Text
  | [] => []
  | c :: rest =>
    if c = '\n' then skipLines false rest
    else if inComment then if isCommentChar c then skipLines true rest else c :: rest
    else if isSpace c then skipLines false rest
    else if c = '#' then skipLines true rest
    else c :: rest

/-- What follows the end of the line, if nothing but space and a comment stands before it. -/
def endLine? (t : Text) : Option Text :=
  let toEnd : Text → Option Text
    | [] => some []
    | '\n' :: rest => some rest
    | _ => none
  match skipSpace t with
  | '#' :: comment => toEnd (comment.dropWhile isCommentChar)
  | rest => toEnd rest

/-! ### Strings -/

/-- A character that may stand in a string: no control character but the tab. -/
def isStringChar (c : Char) : Bool := c = '\t' || (0x20 ≤ c.toNat && c.toNat ≠ 0x7f)

/-- The character that hexadecimal digits name, unless they name none. -/
def codePoint? (digits : Text) : Option Char := do
  let n ← numeral? 16 digits
  if h : n.isValidChar then some (Char.ofNatAux n h) else none

/-- What an escape stands for, and what follows it, given what follows its backslash. A line
end in a string of several lines stands for nothing, with all space and line ends around
it. -/
def escape? (isMultiline : Bool) : Text → Option (Text × Text)
  | 'b' :: rest => some (['\x08'], rest)
  | 't' :: rest => some (['\t'], rest)
  | 'n' :: rest => some (['\n'], rest)
  | 'f' :: rest => some (['\x0c'], rest)
  | 'r' :: rest => some (['\r'], rest)
  | '"' :: rest => some (['"'], rest)
  | '\\' :: rest => some (['\\'], rest)
  | 'u' :: a :: b :: c :: d :: rest => (codePoint? [a, b, c, d]).map fun named => ([named], rest)
  | 'U' :: a :: b :: c :: d :: e :: f :: g :: h :: rest =>
    (codePoint? [a, b, c, d, e, f, g, h]).map fun named => ([named], rest)
  | t =>
    match isMultiline, skipSpace t with
    | true, '\n' :: rest => some ([], rest.dropWhile fun c => isSpace c || c = '\n')
    | _, _ => none

/-- What the end of a string adds to it, and what follows, if the string ends here. Up to two
more quotation marks before the three that end a string of several lines belong to it. -/
def endString? (quote : Char) (isMultiline : Bool) (t : Text) : Option (Text × Text) :=
  if isMultiline then
    (dropStart? [quote, quote, quote] t).map fun rest =>
      let more := (rest.take 2).takeWhile (· = quote)
      (more, rest.drop more.length)
  else (dropStart? [quote] t).map fun rest => ([], rest)

/-- At most `bound` characters and escapes of a string up to its end, and what follows it.
There are escapes only between double quotation marks. -/
def stringWithin (quote : Char) (isMultiline : Bool) : Nat → Text → Option (Text × Text)
  | 0, _ => none
  | bound + 1, t =>
    match endString? quote isMultiline t, t with
    | some ended, _ => some ended
    | none, [] => none
    | none, c :: rest => do
      let (meant, rest) ←
        if c = '\\' ∧ quote = '"' then escape? isMultiline rest
        else if isStringChar c ∨ (isMultiline ∧ c = '\n') then some ([c], rest)
        else none
      let (others, rest) ← stringWithin quote isMultiline bound rest
      some (meant ++ others, rest)

/-- A string on one line and what follows it, given what follows its opening quotation mark. -/
def lineString? (quote : Char) (t : Text) : Option (Text × Text) :=
  stringWithin quote false (t.length + 1) t

/-- A string and what follows it, given what follows its opening quotation mark. With three
of them it may go on over lines, and does not contain a line end right after these. -/
def string? (quote : Char) (t : Text) : Option (Text × Text) :=
  match dropStart? [quote, quote] t with
  | some rest =>
    let body := (dropStart? ['\n'] rest).getD rest
    stringWithin quote true (body.length + 1) body
  | none => lineString? quote t

/-! ### Keys -/

/-- A character of a key without quotation marks. -/
def isBareChar (c : Char) : Bool := c.isAlphanum || c = '_' || c = '-'

/-- One part of a key, and what follows it. -/
def keyPart? (t : Text) : Option (Text × Text) :=
  let quoted (quote : Char) (rest : Text) : Option (Text × Text) :=
    if (dropStart? [quote, quote] rest).isSome then none else lineString? quote rest
  match t with
  | '"' :: rest => quoted '"' rest
  | '\x27' :: rest => quoted '\x27' rest
  | t =>
    let part := t.takeWhile isBareChar
    if part.isEmpty then none else some (part, t.dropWhile isBareChar)

/-- At most `bound` parts of a key, divided by points, and what follows them and any space. -/
def keyPathWithin : Nat → Text → Option (KeyPath × Text)
  | 0, _ => none
  | bound + 1, t => do
    let (part, rest) ← keyPart? (skipSpace t)
    match skipSpace rest with
    | '.' :: rest => do
      let (parts, rest) ← keyPathWithin bound rest
      some (part :: parts, rest)
    | rest => some ([part], rest)

/-- A key, and what follows it and any space. A text has no more parts than characters. -/
def keyPath? (t : Text) : Option (KeyPath × Text) := keyPathWithin t.length t

/-- What follows the equals sign after a key, and any space. -/
def afterEquals? : Text → Option Text
  | '=' :: rest => some (skipSpace rest)
  | _ => none

/-! ### Integers -/

/-- The number that digits of a base spell, in which single underscores may stand between
digits. -/
def groupedNumeral? (base : Nat) (t : Text) : Option Nat :=
  let groups := pieces (· = '_') t
  if groups.any List.isEmpty then none else numeral? base groups.flatten

/-- The number that decimal digits spell. A zero as their first stands alone. -/
def decimalNumeral? (t : Text) : Option Nat :=
  if t.head? = some '0' ∧ 1 < t.length then none else groupedNumeral? 10 t

/-- An integer of 64 bits. A number in another base has no sign of its own. -/
def integer? (word : Text) : Option Int := do
  let value ← match word with
    | '0' :: 'x' :: digits => (groupedNumeral? 16 digits).map Int.ofNat
    | '0' :: 'o' :: digits => (groupedNumeral? 8 digits).map Int.ofNat
    | '0' :: 'b' :: digits => (groupedNumeral? 2 digits).map Int.ofNat
    | '-' :: digits => (decimalNumeral? digits).map fun n => -(n : Int)
    | digits => (decimalNumeral? digits).map Int.ofNat
  if -0x8000000000000000 ≤ value ∧ value < 0x8000000000000000 then some value else none

/-- The value that a word without quotation marks stands for. -/
def word? (word : Text) : Option Value :=
  if word = text "true" then some (.boolean true)
  else if word = text "false" then some (.boolean false)
  else (integer? word).map .integer

/-! ### Reading values -/

mutual

/-- A value and what follows it. The first argument bounds how many values, items and members
the reading goes through. A plus sign may stand before any integer. -/
def valueWithin : Nat → Text → Option (Value × Text)
  | 0, _ => none
  | bound + 1, t =>
    match t with
    | '"' :: rest => (string? '"' rest).map fun read => (.string read.1, read.2)
    | '\x27' :: rest => (string? '\x27' rest).map fun read => (.string read.1, read.2)
    | '[' :: rest => (itemsWithin bound rest).map fun read => (.array read.1, read.2)
    | '{' :: rest =>
      (match dropStart? ['}'] (skipSpace rest) with
      | some rest => some (.table true [], rest)
      | none =>
        (membersWithin bound [] (skipSpace rest)).map fun read => (.table true read.1, read.2))
    | '+' :: rest =>
      (integer? (rest.takeWhile isBareChar)).map fun n => (.integer n, rest.dropWhile isBareChar)
    | t => (word? (t.takeWhile isBareChar)).map fun value => (value, t.dropWhile isBareChar)

/-- The further items of an array up to its end, and what follows it. A comma may stand after
the last one. -/
def itemsWithin : Nat → Text → Option (List Value × Text)
  | 0, _ => none
  | bound + 1, t =>
    match skipLines false t with
    | ']' :: rest => some ([], rest)
    | t => do
      let (item, rest) ← valueWithin bound t
      match skipLines false rest with
      | ']' :: rest => some ([item], rest)
      | ',' :: rest => do
        let (items, rest) ← itemsWithin bound rest
        some (item :: items, rest)
      | _ => none

/-- The members of a table in braces up to its end, added to those read before, and what
follows it. -/
def membersWithin : Nat → Members → Text → Option (Members × Text)
  | 0, _, _ => none
  | bound + 1, members, t => do
    let (path, rest) ← keyPath? t
    let (value, rest) ← valueWithin bound (← afterEquals? rest)
    let members ← addMember value path members
    match skipSpace rest with
    | '}' :: rest => some (members, rest)
    | ',' :: rest => membersWithin bound members (skipSpace rest)
    | _ => none

end

/-- A value and what follows it. Each of the values, items and members in it takes a character
of its own but for the first item, which begins where its array does. -/
def value? (t : Text) : Option (Value × Text) := valueWithin (2 * t.length + 2) t

end DecimalCalculator.Document
