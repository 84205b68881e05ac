import DecimalCalculator.Proofs.Terminal.Color
import DecimalCalculator.Terminal.Style

/-!
Styles and the words that describe them.

* `StyleWord`: what a word may say. `StyleWord.ofText?_toText`: every word is read back.
* `Style.colors`: the colors among some words, those right behind `on` or the others.
* `Style.Describes`: some words switch on the attributes of a style, and their last colors of either
  kind are its colors.
* `Style.readWords_eq_ok_iff`: **what reading adds** to a style, and when it succeeds.
* `Style.IsPhrased`: every `on` has its color right behind it; `Style.isPhrased_iff`.
* `Style.ofText_reads`: **the texts that describe a style**, and the style that they describe.
* `Style.toItems`: what the words for a style say. `Style.describes_toItems`: they describe it.
* `Style.ofText_toText`: **every style is read back** from the text in which it is written.
-/

namespace DecimalCalculator

/-! ### Words -/

/-- What a word in the description of a style says. -/
inductive StyleWord where
  | switch (a : Attribute)
  | plain
  | on
  | color (c : Color)
deriving DecidableEq

namespace StyleWord

/-- What a word says, without regard to ASCII case. -/
def ofText? (w : Text) : Option StyleWord :=
  let lowered := String.ofList (lowerAscii w)
  if lowered = "on" then some on
  else if lowered = "plain" then some plain
  else
    match Attribute.ofWord? lowered with
    | some a => some (switch a)
    | none => (Color.ofText? w).map color

/-- The word that says so. -/
def toText : StyleWord → Text
  | switch a => text a.name
  | plain => text "plain"
  | on => ['o', 'n']
  | color c => c.toText

/-- The words for attributes begin with a small letter. -/
lemma exists_toList_of_ofWord? {s : String} {a : Attribute} (h : Attribute.ofWord? s = some a) :
    ∃ d rest, s.toList = d :: rest ∧ d.isLower = true := by
  unfold Attribute.ofWord? at h
  split at h
  case h_13 => exact absurd h (by simp)
  all_goals exact ⟨_, _, rfl, rfl⟩

/-- A word that begins with another character than a letter can only name a color. -/
lemma ofText?_of_not_isLower {w rest : Text} {d : Char} (hw : lowerAscii w = d :: rest)
    (hd : d.isLower = false) : ofText? w = (Color.ofText? w).map color := by
  have hkeyword : ∀ (s : String) {e tail}, s.toList = e :: tail → e.isLower = true →
      String.ofList (d :: rest) ≠ s := by
    rintro s e tail hs he rfl
    rw [String.toList_ofList] at hs
    rw [(List.cons_eq_cons.mp hs).1, he] at hd
    exact absurd hd (by decide)
  have hnone : Attribute.ofWord? (String.ofList (d :: rest)) = none := by
    rw [Option.eq_none_iff_forall_ne_some]
    intro a ha
    obtain ⟨e, tail, hcons, he⟩ := exists_toList_of_ofWord? ha
    exact hkeyword _ hcons he rfl
  rw [ofText?, hw, hnone]
  simp only [hkeyword "on" rfl rfl, hkeyword "plain" rfl rfl, if_false]

/-- **Every word** is read back. -/
theorem ofText?_toText (word : StyleWord) : ofText? word.toText = some word := by
  cases word with
  | switch a => cases a <;> decide
  | plain => decide
  | on => decide
  | color c =>
    rw [toText]
    rcases c.toText_cases with ⟨named, rfl⟩ | ⟨d, rest, hcons, hd⟩
    · cases named <;> decide
    · rw [ofText?_of_not_isLower (c.isWord_toText.2.trans hcons) hd, c.ofText?_toText,
        Option.map_some]

/-- The word is one word. -/
lemma isWord_toText (word : StyleWord) : IsWord word.toText := by
  cases word with
  | switch a => cases a <;> exact isWord_of_all (by decide) rfl
  | plain => exact isWord_of_all (by decide) rfl
  | on => exact isWord_of_all (by decide) rfl
  | color c => exact c.isWord_toText.1

end StyleWord

namespace Style

variable {s s' : Style} {word : StyleWord} {items : List StyleWord} {isOn : Bool}

/-! ### Attributes -/

/-- A style with one more attribute has it, and those that it had. -/
lemma has_add (s : Style) (a b : Attribute) : (s.add a).has b = (s.has b || decide (b = a)) := by
  cases a <;> cases b <;> simp [add, has]

/-- Only attributes are added. -/
lemma colors_add (s : Style) (a : Attribute) :
    (s.add a).foreground = s.foreground ∧ (s.add a).background = s.background := by
  cases a <;> exact ⟨rfl, rfl⟩

/-- A style is its attributes and its two colors. -/
lemma eq_of_has (hhas : ∀ a, s.has a = s'.has a) (hforeground : s.foreground = s'.foreground)
    (hbackground : s.background = s'.background) : s = s' := by
  obtain ⟨⟩ := s
  obtain ⟨⟩ := s'
  simp only [mk.injEq]
  exact ⟨hhas .bold, hhas .italic, hhas .dimmed, hhas .underline, hhas .blink, hhas .reverse,
    hhas .strikethrough, hhas .hidden, hforeground, hbackground⟩

/-! ### Descriptions -/

/-- What the words of a text say, one by one. -/
def ReadsAs (t : Text) (items : List StyleWord) : Prop :=
  (words t).map StyleWord.ofText? = items.map some

/-- The colors among some words, in their order: those right behind `on`, or the others. The flag
says whether `on` stands in front of the words. -/
def colors (behindOn : Bool) : Bool → List StyleWord → List Color
  | _, [] => []
  | isOn, .color c :: items =>
    if isOn = behindOn then c :: colors behindOn false items else colors behindOn false items
  | _, word :: items => colors behindOn (word = .on) items

/-- The words describe the style: they name its attributes, and the last of their colors of either
kind are its colors. -/
structure Describes (items : List StyleWord) (s : Style) : Prop where
  has : ∀ a, s.has a = decide (.switch a ∈ items)
  foreground : s.foreground = (colors false false items).getLast?
  background : s.background = (colors true false items).getLast?

/-! ### Reading -/

/-- The style with what one more word says, which stands behind `on` or not. -/
def adding (s : Style) (isOn : Bool) : StyleWord → Style
  | .switch a => s.add a
  | .color c => if isOn then { s with background := some c } else { s with foreground := some c }
  | _ => s

/-- Reading goes on with what the first word adds. -/
lemma readWords_cons (isOn : Bool) (s : Style) (w : Text) (ws : List Text) :
    readWords isOn s (w :: ws) =
      match StyleWord.ofText? w with
      | some word => readWords (word = .on) (s.adding isOn word) ws
      | none => .error (.unknownWord w) := by
  rw [readWords, StyleWord.ofText?]
  by_cases hon : String.ofList (lowerAscii w) = "on"
  · rw [if_pos hon, if_pos hon]
    rfl
  · rw [if_neg hon, if_neg hon]
    by_cases hplain : String.ofList (lowerAscii w) = "plain"
    · rw [if_pos hplain, if_pos hplain]
      rfl
    · rw [if_neg hplain, if_neg hplain]
      cases Attribute.ofWord? (String.ofList (lowerAscii w)) with
      | some a => rfl
      | none => cases Color.ofText? w <;> rfl

/-- The words lead from one style to another: they switch on the attributes that are new, and the
last of their colors of either kind replace the colors. The flag says whether `on` stands in front
of them. -/
structure Leads (isOn : Bool) (s : Style) (items : List StyleWord) (s' : Style) : Prop where
  has : ∀ a, s'.has a = (s.has a || decide (.switch a ∈ items))
  foreground : s'.foreground = (colors false isOn items).getLast?.or s.foreground
  background : s'.background = (colors true isOn items).getLast?.or s.background

/-- Whether `on` stands behind all words, or in front if there are none. -/
def endsInOn (isOn : Bool) : List StyleWord → Bool
  | [] => isOn
  | word :: items => endsInOn (word = .on) items

/-- Words end in `on` if the last of them is `on`. -/
lemma endsInOn_eq_false_iff : endsInOn false items = false ↔ items.getLast? ≠ some .on := by
  have hlast : ∀ (isOn : Bool) (items : List StyleWord),
      endsInOn isOn items = (items.getLast?.elim isOn fun word => decide (word = .on)) := by
    intro isOn items
    induction items generalizing isOn with
    | nil => rfl
    | cons word items ih =>
      rw [endsInOn, ih, List.getLast?_cons]
      cases items.getLast? <;> rfl
  rw [hlast]
  cases items.getLast? <;> simp

/-- No words leave a style as it is. -/
lemma leads_nil_iff : Leads isOn s [] s' ↔ s' = s := by
  constructor
  · rintro ⟨hhas, hforeground, hbackground⟩
    exact eq_of_has (by simpa using hhas) hforeground hbackground
  · rintro rfl
    exact ⟨by simp, rfl, rfl⟩

/-- What a word adds to the attributes. -/
lemma has_adding (s : Style) (isOn : Bool) (word : StyleWord) (a : Attribute) :
    (s.adding isOn word).has a = (s.has a || decide (.switch a = word)) := by
  cases word with
  | switch b => simp [adding, has_add]
  | color c =>
    rw [adding]
    split <;> cases a <;> simp [has]
  | plain => simp [adding]
  | on => simp [adding]

/-- What a word adds to the colors is the last of them until a later word replaces it. -/
lemma colors_adding (s : Style) (isOn : Bool) (word : StyleWord) (items : List StyleWord) :
    (colors false isOn (word :: items)).getLast?.or s.foreground =
        (colors false (word = .on) items).getLast?.or (s.adding isOn word).foreground ∧
      (colors true isOn (word :: items)).getLast?.or s.background =
        (colors true (word = .on) items).getLast?.or (s.adding isOn word).background := by
  cases word with
  | switch a => simp [colors, adding, colors_add]
  | plain => simp [colors, adding]
  | on => simp [colors, adding]
  | color c =>
    have hlast : ∀ (l : List Color) (previous : Option Color),
        (c :: l).getLast?.or previous = l.getLast?.or (some c) := by
      intro l previous
      rw [List.getLast?_cons]
      cases l.getLast? <;> rfl
    cases isOn <;> simp [colors, adding, hlast]

/-- A word leads on from the style that it adds to. -/
lemma leads_cons_iff : Leads isOn s (word :: items) s' ↔
    Leads (word = .on) (s.adding isOn word) items s' := by
  obtain ⟨hforeground, hbackground⟩ := s.colors_adding isOn word items
  have hhas : ∀ a, (s.has a || decide (.switch a ∈ word :: items)) =
      ((s.adding isOn word).has a || decide (.switch a ∈ items)) := fun a => by
    simp [has_adding, Bool.or_assoc]
  constructor
  · rintro ⟨h, hf, hb⟩
    exact ⟨fun a => (h a).trans (hhas a), hf.trans hforeground, hb.trans hbackground⟩
  · rintro ⟨h, hf, hb⟩
    exact ⟨fun a => (h a).trans (hhas a).symm, hf.trans hforeground.symm, hb.trans hbackground.symm⟩

/-- **Reading** succeeds if every word says something and the last one is not `on`, and it adds what
the words lead to. -/
theorem readWords_eq_ok_iff {ws : List Text} :
    readWords isOn s ws = .ok s' ↔
      ∃ items, ws.map StyleWord.ofText? = items.map some ∧ endsInOn isOn items = false ∧
        Leads isOn s items s' := by
  induction ws generalizing isOn s with
  | nil =>
    have hnil : (∃ items, ([] : List Text).map StyleWord.ofText? = items.map some ∧
        endsInOn isOn items = false ∧ Leads isOn s items s') ↔ isOn = false ∧ s' = s := by
      simp [endsInOn, leads_nil_iff]
    rw [hnil, readWords]
    cases isOn <;> simp [eq_comm]
  | cons w ws ih =>
    rw [readWords_cons]
    constructor
    · intro h
      cases hword : StyleWord.ofText? w with
      | none => simp [hword] at h
      | some word =>
        rw [hword] at h
        obtain ⟨items, hitems, hend, hleads⟩ := ih.mp h
        exact ⟨word :: items, by simp [hword, hitems], hend, leads_cons_iff.mpr hleads⟩
    · rintro ⟨items, hitems, hend, hleads⟩
      cases items with
      | nil => simp at hitems
      | cons word items =>
        obtain ⟨hword, hrest⟩ : StyleWord.ofText? w = some word ∧
            ws.map StyleWord.ofText? = items.map some := by simpa using hitems
        rw [hword]
        exact ih.mpr ⟨items, hrest, hend, leads_cons_iff.mp hleads⟩

/-- The style that words lead to from the plain one is the style that they describe. -/
lemma leads_plain_iff : Leads false plain items s ↔ Describes items s := by
  have hhas : ∀ a, plain.has a = false := fun a => by cases a <;> rfl
  constructor
  · rintro ⟨h, hforeground, hbackground⟩
    exact ⟨by simpa [hhas] using h, by simpa [plain] using hforeground,
      by simpa [plain] using hbackground⟩
  · rintro ⟨h, hforeground, hbackground⟩
    exact ⟨by simpa [hhas] using h, by simpa [plain] using hforeground,
      by simpa [plain] using hbackground⟩

/-- **A text** describes a style if each of its words says something, the last one is not `on`, and
together they describe the style. -/
theorem ofText_eq_ok_iff {t : Text} :
    ofText t = .ok s ↔
      ∃ items, ReadsAs t items ∧ items.getLast? ≠ some .on ∧ Describes items s := by
  rw [ofText, readWords_eq_ok_iff]
  simp only [endsInOn_eq_false_iff, leads_plain_iff]
  rfl

/-- All words describe a style. -/
lemma exists_describes (items : List StyleWord) : ∃ s, Describes items s := by
  let switches (a : Attribute) : Bool := decide (.switch a ∈ items)
  refine ⟨⟨switches .bold, switches .italic, switches .dimmed, switches .underline, switches .blink,
    switches .reverse, switches .strikethrough, switches .hidden,
    (colors false false items).getLast?, (colors true false items).getLast?⟩, ?_, rfl, rfl⟩
  intro a
  cases a <;> rfl

/-! ### Phrases -/

/-- Every `on` stands right before the color that it belongs to. -/
inductive IsPhrased : List StyleWord → Prop
  | nil : IsPhrased []
  | switch (a : Attribute) {items : List StyleWord} :
      IsPhrased items → IsPhrased (.switch a :: items)
  | plain {items : List StyleWord} : IsPhrased items → IsPhrased (.plain :: items)
  | color (c : Color) {items : List StyleWord} : IsPhrased items → IsPhrased (.color c :: items)
  | onColor (c : Color) {items : List StyleWord} :
      IsPhrased items → IsPhrased (.on :: .color c :: items)

/-- Behind every `on` that is not the last word stands a color. -/
def ColorsFollow (items : List StyleWord) : Prop :=
  items.IsChain fun word next => word = .on → ∃ c, next = .color c

/-- A word in front of others leaves the last one as it is. -/
lemma getLast?_tail_ne (h : (word :: items).getLast? ≠ some .on) : items.getLast? ≠ some .on := by
  intro hon
  rw [List.getLast?_cons, hon] at h
  exact h rfl

/-- A word that is not `on` changes nothing behind it. -/
lemma cons_of_ne_on (hword : word ≠ .on) (h : items.getLast? ≠ some .on ∧ ColorsFollow items) :
    (word :: items).getLast? ≠ some .on ∧ ColorsFollow (word :: items) := by
  obtain ⟨hlast, hfollow⟩ := h
  refine ⟨?_, List.isChain_cons.mpr ⟨fun _ _ hon => absurd hon hword, hfollow⟩⟩
  rw [List.getLast?_cons]
  cases hend : items.getLast? with
  | none => simpa using hword
  | some last => simpa [hend] using hlast

/-- Words among which colors follow are phrased. -/
lemma isPhrased_of_colorsFollow : ∀ {items : List StyleWord},
    items.getLast? ≠ some .on → ColorsFollow items → IsPhrased items
  | [], _, _ => .nil
  | .switch a :: _, hlast, h =>
    .switch a (isPhrased_of_colorsFollow (getLast?_tail_ne hlast) h.tail)
  | .plain :: _, hlast, h => .plain (isPhrased_of_colorsFollow (getLast?_tail_ne hlast) h.tail)
  | .color c :: _, hlast, h => .color c (isPhrased_of_colorsFollow (getLast?_tail_ne hlast) h.tail)
  | [.on], hlast, _ => absurd rfl hlast
  | .on :: .color c :: _, hlast, h =>
    .onColor c (isPhrased_of_colorsFollow (getLast?_tail_ne (getLast?_tail_ne hlast)) h.tail.tail)
  | .on :: .switch _ :: _, _, h => by simpa using (List.isChain_cons_cons.mp h).1 rfl
  | .on :: .plain :: _, _, h => by simpa using (List.isChain_cons_cons.mp h).1 rfl
  | .on :: .on :: _, _, h => by simpa using (List.isChain_cons_cons.mp h).1 rfl

/-- **Words are phrased** if the last of them is not `on` and colors follow. -/
theorem isPhrased_iff : IsPhrased items ↔ items.getLast? ≠ some .on ∧ ColorsFollow items := by
  constructor
  · intro h
    induction h with
    | nil => exact ⟨by simp, .nil⟩
    | switch a _ ih => exact cons_of_ne_on (by simp) ih
    | plain _ ih => exact cons_of_ne_on (by simp) ih
    | color c _ ih => exact cons_of_ne_on (by simp) ih
    | onColor c _ ih =>
      obtain ⟨hlast, hfollow⟩ := cons_of_ne_on (show StyleWord.color c ≠ .on by simp) ih
      exact ⟨by rwa [List.getLast?_cons_cons],
        List.isChain_cons_cons.mpr ⟨fun _ => ⟨c, rfl⟩, hfollow⟩⟩
  · rintro ⟨hlast, hfollow⟩
    exact isPhrased_of_colorsFollow hlast hfollow

/-- A text says one thing only. -/
lemma ReadsAs.unique {t : Text} {items' : List StyleWord} (h : ReadsAs t items)
    (h' : ReadsAs t items') : items = items' :=
  List.map_injective_iff.mpr (Option.some_injective _) (h.symm.trans h')

/-- **Texts that describe a style**: each of their words says something, and the last one is not
`on`. The foreground is the last color that does not stand right behind `on`, the background the
last one that does. Texts in which every `on` stands right before a color are among them; they are
all of them exactly as far as no other word than a color stands behind an `on`. -/
theorem ofText_reads (t : Text) :
    ((∃ s, ofText t = .ok s) ↔ ∃ items, ReadsAs t items ∧ items.getLast? ≠ some .on) ∧
    (∀ s, ofText t = .ok s ↔
      ∃ items, ReadsAs t items ∧ items.getLast? ≠ some .on ∧ Describes items s) ∧
    (((∃ s, ofText t = .ok s) ↔ ∃ items, ReadsAs t items ∧ IsPhrased items) ↔
      ∀ items, ReadsAs t items → items.getLast? ≠ some .on → ColorsFollow items) := by
  have hexists : (∃ s, ofText t = .ok s) ↔
      ∃ items, ReadsAs t items ∧ items.getLast? ≠ some .on := by
    constructor
    · rintro ⟨s, hs⟩
      obtain ⟨items, hreads, hlast, -⟩ := ofText_eq_ok_iff.mp hs
      exact ⟨items, hreads, hlast⟩
    · rintro ⟨items, hreads, hlast⟩
      obtain ⟨s, hs⟩ := exists_describes items
      exact ⟨s, ofText_eq_ok_iff.mpr ⟨items, hreads, hlast, hs⟩⟩
  refine ⟨hexists, fun s => ofText_eq_ok_iff, ?_⟩
  rw [hexists]
  constructor
  · intro h items hreads hlast
    obtain ⟨items', hreads', hphrased⟩ := h.mp ⟨items, hreads, hlast⟩
    rw [hreads.unique hreads']
    exact (isPhrased_iff.mp hphrased).2
  · intro h
    constructor
    · rintro ⟨items, hreads, hlast⟩
      exact ⟨items, hreads, isPhrased_iff.mpr ⟨hlast, h items hreads hlast⟩⟩
    · rintro ⟨items, hreads, hphrased⟩
      exact ⟨items, hreads, (isPhrased_iff.mp hphrased).1⟩

/-- **An attribute behind `on`** is taken, and the color behind it is that of the foreground. -/
theorem not_forall_ofText_isPhrased :
    ¬ ∀ t : Text, ((∃ s, ofText t = .ok s) ↔ ∃ items, ReadsAs t items ∧ IsPhrased items) ∧
      ∀ s items, ofText t = .ok s → ReadsAs t items →
        s.foreground = (colors false false items).getLast? ∧
          s.background = (colors true false items).getLast? := by
  intro h
  have hreads : ReadsAs (text "on bold red") [.on, .switch .bold, .color (.named .red)] := by
    unfold ReadsAs
    decide +kernel
  obtain ⟨s, hs⟩ := exists_describes [.on, .switch .bold, .color (.named .red)]
  have htaken := ofText_eq_ok_iff.mpr ⟨_, hreads, by decide, hs⟩
  obtain ⟨items, hreads', hphrased⟩ := (h _).1.mp ⟨s, htaken⟩
  rw [← hreads.unique hreads'] at hphrased
  cases hphrased

/-! ### Writing -/

/-- What the words for a style say, unless there are none. -/
def described (s : Style) : List StyleWord :=
  (Attribute.all.filter s.has).map .switch ++ s.foreground.toList.map .color ++
    s.background.toList.flatMap fun c => [.on, .color c]

/-- What the words for a style say. -/
def toItems (s : Style) : List StyleWord :=
  match s.described with
  | [] => [.plain]
  | described => described

/-- **A style is written** word by word. -/
lemma toWords_eq (s : Style) : s.toWords = s.toItems.map StyleWord.toText := by
  have hdescribed : s.described.map StyleWord.toText =
      (Attribute.all.filter s.has).map (fun a => text a.name) ++
        s.foreground.toList.map Color.toText ++
          s.background.toList.flatMap fun c => [['o', 'n'], c.toText] := by
    rw [described, List.map_append, List.map_append, List.map_map, List.map_map, List.map_flatMap]
    rfl
  rw [toWords, ← hdescribed, toItems]
  cases s.described <;> rfl

/-- The words for attributes name no colors. -/
lemma colors_switches (behindOn : Bool) (attributes : List Attribute) (items : List StyleWord) :
    colors behindOn false (attributes.map .switch ++ items) = colors behindOn false items := by
  induction attributes with
  | nil => rfl
  | cons a attributes ih => exact ih

/-- The words for a style name its attributes. -/
lemma switch_mem_toItems (s : Style) (a : Attribute) : .switch a ∈ s.toItems ↔ s.has a = true := by
  have hall : a ∈ Attribute.all := by cases a <;> decide
  have hdescribed : .switch a ∈ s.described ↔ s.has a = true := by simp [described, hall]
  rw [← hdescribed, toItems]
  cases s.described <;> simp

/-- The words for a style name its colors, that of the background behind `on`. -/
lemma colors_toItems (s : Style) (behindOn : Bool) :
    colors behindOn false s.toItems = (if behindOn then s.background else s.foreground).toList := by
  have hdescribed : colors behindOn false s.described =
      (if behindOn then s.background else s.foreground).toList := by
    rw [described, List.append_assoc, colors_switches]
    cases behindOn <;> cases s.foreground <;> cases s.background <;> rfl
  rw [← hdescribed, toItems]
  cases s.described <;> rfl

/-- **The words for a style** describe it. -/
lemma describes_toItems (s : Style) : Describes s.toItems s := by
  have hlast : ∀ c : Option Color, c.toList.getLast? = c := fun c => by cases c <;> rfl
  refine ⟨fun a => ?_, ?_, ?_⟩
  · rw [Bool.eq_iff_iff, decide_eq_true_eq, switch_mem_toItems]
  · rw [colors_toItems, hlast]
    rfl
  · rw [colors_toItems, hlast]
    rfl

/-- Words for attributes may stand in front of any phrases. -/
lemma IsPhrased.switches (h : IsPhrased items) (attributes : List Attribute) :
    IsPhrased (attributes.map .switch ++ items) := by
  induction attributes with
  | nil => exact h
  | cons a attributes ih => exact .switch a ih

/-- **The words for a style** are phrased. -/
lemma isPhrased_toItems (s : Style) : IsPhrased s.toItems := by
  have hdescribed : IsPhrased s.described := by
    rw [described, List.append_assoc]
    refine IsPhrased.switches ?_ _
    cases s.foreground with
    | none =>
      cases s.background with
      | none => exact .nil
      | some b => exact .onColor b .nil
    | some f =>
      cases s.background with
      | none => exact .color f .nil
      | some b => exact .color f (.onColor b .nil)
  rw [toItems]
  split
  · exact .plain .nil
  · exact hdescribed

/-- **The text of a style** says what the words for it say. -/
lemma readsAs_toText (s : Style) : ReadsAs s.toText s.toItems := by
  have hwords : words s.toText = s.toWords := by
    refine words_intercalate fun w hw => ?_
    rw [toWords_eq] at hw
    obtain ⟨word, -, rfl⟩ := List.mem_map.mp hw
    exact word.isWord_toText
  rw [ReadsAs, hwords, toWords_eq, List.map_map]
  exact List.map_congr_left fun word _ => word.ofText?_toText

/-- **Every style** is read back from the text in which it is written; so what is read from any text
stays the same if it is written and read again. -/
theorem ofText_toText (s : Style) (t : Text) :
    ofText s.toText = .ok s ∧ ((ofText t).bind fun read => ofText read.toText) = ofText t := by
  have hback : ∀ s : Style, ofText s.toText = .ok s := fun s =>
    ofText_eq_ok_iff.mpr
      ⟨s.toItems, s.readsAs_toText, (isPhrased_iff.mp s.isPhrased_toItems).1, s.describes_toItems⟩
  refine ⟨hback s, ?_⟩
  cases ofText t with
  | error e => rfl
  | ok read => exact hback read

end Style

end DecimalCalculator
