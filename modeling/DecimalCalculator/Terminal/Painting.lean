import DecimalCalculator.Terminal.Style

/-!
Styled text as a terminal takes it.

* `Style.start`: the codes that switch a style on.
* `paintSpans`: spans of text, each in its style. Between two spans only what changes is switched,
  unless something has to be switched off: then the style is reset first.
-/

namespace DecimalCalculator

namespace Style

/-- The control sequence of some codes. -/
def sequence (codes : List Nat) : Text :=
  '\x1b' :: '[' :: (((codes.map digitsOf).intersperse [';']).flatten ++ ['m'])

/-- Switches every style off. -/
def reset : Text := sequence [0]

/-- The codes of a style: attributes, background, foreground. -/
def codes (s : Style) : List Nat :=
  (Attribute.byCode.filter s.has).map Attribute.code ++
    s.background.toList.flatMap (Color.codes true) ++
    s.foreground.toList.flatMap (Color.codes false)

/-- Switches a style on. -/
def start (s : Style) : Text := if s = plain then [] else sequence s.codes

/-- Switches off what the last span had switched on. -/
def finish (s : Style) : Text := if s = plain then [] else reset

/-- Whether `next` lacks an attribute or a color that `s` has. -/
def losesIn (s next : Style) : Bool :=
  (Attribute.all.any fun a => s.has a && !next.has a) ||
    (s.foreground.isSome && next.foreground.isNone) ||
    (s.background.isSome && next.background.isNone)

/-- What `next` has and `s` has not, or has in another color. -/
def addedIn (s next : Style) : Style where
  isBold := s.isBold != next.isBold
  isItalic := s.isItalic != next.isItalic
  isDimmed := s.isDimmed != next.isDimmed
  isUnderline := s.isUnderline != next.isUnderline
  isBlink := s.isBlink != next.isBlink
  isReverse := s.isReverse != next.isReverse
  isStrikethrough := s.isStrikethrough != next.isStrikethrough
  isHidden := s.isHidden != next.isHidden
  foreground := if s.foreground = next.foreground then none else next.foreground
  background := if s.background = next.background then none else next.background

/-- Switches from one style to the next. -/
def change (s next : Style) : Text :=
  if s = next then []
  else if s.losesIn next then reset ++ next.start
  else (s.addedIn next).start

end Style

/-- Text in one style. -/
structure Span where
  style : Style
  text : Text
deriving DecidableEq

/-- The spans that follow a span in the style `s`, and the end of the last one. -/
def paintAfter (s : Style) : List Span → Text
  | [] => s.finish
  | span :: rest => s.change span.style ++ span.text ++ paintAfter span.style rest

/-- Spans of text, each in its style. -/
def paintSpans : List Span → Text
  | [] => []
  | span :: rest => span.style.start ++ span.text ++ paintAfter span.style rest

/-- Text in one style. -/
def Style.paint (s : Style) (t : Text) : Text := paintSpans [⟨s, t⟩]

end DecimalCalculator
