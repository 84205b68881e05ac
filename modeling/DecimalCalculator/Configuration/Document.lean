import DecimalCalculator.Configuration.Value

/-!
TOML documents.

* `Document`: the sections that headers open.
* `Document.ofText?`: reads a document. It refuses malformed lines and repeated headers.
* `Document.members`: the document as one table. What sections say of one key is gathered where
  the key first occurs.
-/

namespace DecimalCalculator

/-- A header with the keys below it. -/
structure Document.Section where
  path : Document.KeyPath
  /-- Whether the header stands in double brackets, which adds a table to an array. -/
  isItem : Bool
  members : Document.Members

/-- The contents of a document. Its first section has no header. -/
structure Document where
  sections : List Document.Section

namespace Document

/-! ### Reading -/

/-- The opening of a section and what follows its line, given what follows the first bracket of
a header. -/
def header? (t : Text) : Option (Section × Text) := do
  let (isItem, closing, t) := match t with
    | '[' :: rest => (true, [']', ']'], rest)
    | t => (false, [']'], t)
  let (path, rest) ← keyPath? t
  let rest ← dropStart? closing rest
  some (⟨path, isItem, []⟩, ← endLine? rest)

/-- A key with its value, and what follows their line. -/
def entry? (t : Text) : Option (KeyPath × Value × Text) := do
  let (path, rest) ← keyPath? t
  let (value, rest) ← value? (← afterEquals? rest)
  some (path, value, ← endLine? rest)

/-- The section that is open and the further ones of a text with at most `bound` headers and
keys. -/
def sectionsWithin : Nat → Section → Text → Option (List Section)
  | 0, _, _ => none
  | bound + 1, opened, t =>
    match skipLines false t with
    | [] => some [opened]
    | '[' :: rest => do
      let (next, rest) ← header? rest
      let others ← sectionsWithin bound next rest
      some (opened :: others)
    | t => do
      let (path, value, rest) ← entry? t
      let members ← addMember value path opened.members
      sectionsWithin bound { opened with members := members } rest

/-- The text with every line end a line feed. -/
def foldLineEnds : Text → Text
  | '\r' :: '\n' :: rest => '\n' :: foldLineEnds rest
  | c :: rest => c :: foldLineEnds rest
  | [] => []

/-- Reads a document, which may begin with a byte order mark. A header is not repeated but to
add to an array. -/
def ofText? (t : Text) : Option Document := do
  let t := foldLineEnds ((dropStart? ['\ufeff'] t).getD t)
  let sections ← sectionsWithin (t.length + 1) ⟨[], false, []⟩ t
  let headers := (sections.filter fun s => !s.isItem).map (·.path)
  if headers.eraseDups.length = headers.length then some ⟨sections⟩ else none

/-! ### The document as a table -/

/-- The members of the table that sections make up. The first argument bounds the number of
sections and of the keys in their headers. -/
def gather : Nat → List (KeyPath × Members) → Members
  | 0, _ => []
  | _, [] => []
  | bound + 1, ([], members) :: rest => members ++ gather bound rest
  | bound + 1, (key :: path, members) :: rest =>
    let (inside, others) := rest.partition fun s => s.1.head? = some key
    let below := (path, members) :: inside.map fun s => (s.1.tail, s.2)
    (key, .table false (gather bound below)) :: gather bound others

/-- The document as one table, unless it has arrays of tables. -/
def members (doc : Document) : Option Members :=
  if doc.sections.any (·.isItem) then none
  else
    let bound := doc.sections.foldl (fun n s => n + s.path.length + 1) 0
    some (gather bound (doc.sections.map fun s => (s.path, s.members)))

/-- The header of a document that holds one header and nothing else. -/
def onlyHeader? (doc : Document) : Option KeyPath :=
  match doc.sections with
  | [⟨_, _, []⟩, ⟨path, _, []⟩] => some path
  | _ => none

end Document

end DecimalCalculator
