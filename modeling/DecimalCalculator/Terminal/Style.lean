import DecimalCalculator.Terminal.Color

/-!
Styles of terminal text, and the words in which they are written: attributes, a color for the
foreground, and `on` with a color for the background.

* `Style.ofText`: the style that words describe. A later color replaces an earlier one.
* `Style.toText`: the words for a style, attributes first.
-/

namespace DecimalCalculator

/-! ### Attributes -/

/-- What a style may switch on. -/
inductive Attribute where
  | bold | italic | dimmed | underline | blink | reverse | strikethrough | hidden
deriving DecidableEq

namespace Attribute

/-- All attributes, in the order in which they are written. -/
def all : List Attribute :=
  [bold, italic, dimmed, underline, blink, reverse, strikethrough, hidden]

/-- The attributes in the order of their codes. -/
def byCode : List Attribute :=
  [bold, dimmed, italic, underline, blink, reverse, hidden, strikethrough]

/-- The word for the attribute. -/
def name : Attribute → String
  | bold => "bold"
  | italic => "italic"
  | dimmed => "dimmed"
  | underline => "underline"
  | blink => "blink"
  | reverse => "reverse"
  | strikethrough => "strikethrough"
  | hidden => "hidden"

/-- The code that switches the attribute on. -/
def code : Attribute → Nat
  | bold => 1
  | dimmed => 2
  | italic => 3
  | underline => 4
  | blink => 5
  | reverse => 7
  | hidden => 8
  | strikethrough => 9

/-- The attribute that a word in small letters names; some have a second name. -/
def ofWord? : String → Option Attribute
  | "bold" => some bold
  | "italic" => some italic
  | "dimmed" | "dim" => some dimmed
  | "underline" | "under" => some underline
  | "blink" => some blink
  | "reverse" => some reverse
  | "strikethrough" | "strike" => some strikethrough
  | "hidden" | "none" => some hidden
  | _ => none

end Attribute

/-! ### Styles -/

/-- A style of terminal text. -/
structure Style where
  isBold : Bool
  isItalic : Bool
  isDimmed : Bool
  isUnderline : Bool
  isBlink : Bool
  isReverse : Bool
  isStrikethrough : Bool
  isHidden : Bool
  foreground : Option Color
  background : Option Color
deriving DecidableEq

/-- Why a text describes no style. -/
inductive StyleError where
  | unknownWord (word : Text)
  | missingColor
deriving DecidableEq

/-- What is reported of a text that describes no style. -/
def StyleError.message : StyleError → Text
  | unknownWord word => text "unknown style `" ++ word ++ ['`']
  | missingColor => text "expected a color after `on`"

namespace Style

/-- The style of unchanged text. -/
def plain : Style := ⟨false, false, false, false, false, false, false, false, none, none⟩

/-- Whether the style has an attribute. -/
def has (s : Style) : Attribute → Bool
  | .bold => s.isBold
  | .italic => s.isItalic
  | .dimmed => s.isDimmed
  | .underline => s.isUnderline
  | .blink => s.isBlink
  | .reverse => s.isReverse
  | .strikethrough => s.isStrikethrough
  | .hidden => s.isHidden

/-- The style with one more attribute. -/
def add (s : Style) : Attribute → Style
  | .bold => { s with isBold := true }
  | .italic => { s with isItalic := true }
  | .dimmed => { s with isDimmed := true }
  | .underline => { s with isUnderline := true }
  | .blink => { s with isBlink := true }
  | .reverse => { s with isReverse := true }
  | .strikethrough => { s with isStrikethrough := true }
  | .hidden => { s with isHidden := true }

/-! ### Reading -/

/-- Adds what words describe to a style. `isOn` says that the word before was `on`, so that
a color is that of the background; any other word ends this. -/
def readWords (isOn : Bool) (s : Style) : List Text → Except StyleError Style
  | [] => if isOn then .error .missingColor else .ok s
  | word :: rest =>
    let lowered := String.ofList (lowerAscii word)
    if lowered = "on" then readWords true s rest
    else if lowered = "plain" then readWords false s rest
    else
      match Attribute.ofWord? lowered with
      | some a => readWords false (s.add a) rest
      | none =>
        match Color.ofText? word with
        | some c =>
          readWords false
            (if isOn then { s with background := some c } else { s with foreground := some c }) rest
        | none => .error (.unknownWord word)

/-- The style that a text describes. -/
def ofText (t : Text) : Except StyleError Style := readWords false plain (words t)

/-! ### Writing -/

/-- The words for a style. -/
def toWords (s : Style) : List Text :=
  let attributes := (Attribute.all.filter s.has).map fun a => text a.name
  let foreground := s.foreground.toList.map Color.toText
  let background := s.background.toList.flatMap fun c => [['o', 'n'], c.toText]
  match attributes ++ foreground ++ background with
  | [] => [text "plain"]
  | described => described

/-- The style as it is written. -/
def toText (s : Style) : Text := (s.toWords.intersperse [' ']).flatten

end Style

end DecimalCalculator
