import DecimalCalculator.Console.Command

/-!
Completion of names while a line is being written.

* `completions`: the names that begin as a text does.
* `Console.complete`: the names for the word that ends at a position of a line.
-/

namespace DecimalCalculator

/-- The names of registers and constants. -/
def registerNames : List Text := ["ans", "mem", "fans", "fmem", "pi", "e"].map text

/-- All names that can be completed: of operations, with their opening brackets, of registers and
constants, and of commands, with their colons. Names with symbols are not among them. -/
def completableNames : List Text :=
  (operations.map (·.1) ++ registerNames ++ Command.all.map fun c => ':' :: text c.name).filter
    fun name => name.all fun c => c.toNat < 0x80

/-- The names that begin as a text does, which is read without regard to case: in order, and each
once. -/
def completions (start : Text) : List Text :=
  let lowered := normalizeCase start
  ((completableNames.filter fun name => lowered.isPrefixOf name).mergeSort
    fun a b => !b.lex a fun c d => c.toNat < d.toNat).eraseDups

/-- A character that ends a word. -/
def isBreak (c : Char) : Bool := [' ', '+', '-', '*', '/', '^', '%', ',', '(', ')'].contains c

/-- The length of a text in bytes of UTF-8. -/
def byteLength (t : Text) : Nat := t.foldl (fun n c => n + c.utf8Size) 0

/-- The characters of a text that lie in its first bytes. -/
def takeBytes : Nat → Text → Text
  | _, [] => []
  | n, c :: rest => if c.utf8Size ≤ n then c :: takeBytes (n - c.utf8Size) rest else []

/-- A name that may replace a word, and how it is displayed. -/
structure Candidate where
  display : Text
  replacement : Text
deriving DecidableEq

namespace Console

/-- The position in bytes at which the word before the position `pos` begins, and the names
that may replace it. An empty word has none. -/
def complete (c : Console) (line : Text) (pos : Nat) : Nat × List Candidate :=
  let before := takeBytes pos line
  let word := (before.reverse.takeWhile fun ch => !isBreak ch).reverse
  if word.isEmpty then (pos, [])
  else
    (byteLength before - byteLength word,
      (completions word).map fun name => ⟨c.theme.paint [(.settingName, name)], name⟩)

end Console

end DecimalCalculator
