import ClassDiagram.Text.WidthTable

/-!
# Display width

How many columns a text takes in a display of fixed width, outside an East Asian context. The
width is the sum of the widths of the characters, except where characters combine: emoji are
joined, modified and selected, and some scripts have ligatures and stacked letters. The text is
read from its end, since what follows a character decides how it is drawn.
-/

namespace ClassDiagram.Text

namespace Width

/-- Whether a character lies in one of some ranges. -/
def isIn (ranges : List (Nat × Nat)) (c : Char) : Bool :=
  ranges.any fun (lo, hi) => lo ≤ c.toNat && c.toNat ≤ hi

/-- A control character, which takes no column. -/
def isControl (c : Char) : Bool := c.toNat < 32 || (127 ≤ c.toNat && c.toNat < 160)

/-- A character without a width of its own. -/
def isZero (c : Char) : Bool :=
  isIn zeroRangesLow c || isIn zeroRangesMiddle c || isIn zeroRangesHigh c

/-- The width of a character that combines with no other. -/
def alone (c : Char) : Int :=
  if c.toNat ≤ 0xA0 then (if isControl c then 0 else 1)
  else if c.toNat = 0x17D8 then 3
  else if c.toNat = 0x17A4 || c.toNat = 0x115F then 2
  else if isZero c then 0
  else if isIn wideRanges c then 2
  else 1

/-- What a text starts with, as far as the character before it may combine with it. A letter that
needs a joiner in front of it knows whether the joiner is there. -/
inductive Context
  | other
  | emoji
  /-- An emoji after a joiner. -/
  | joinedEmoji
  | skinTone
  | arabicAlef
  | hebrewLamed (joined : Bool)
  | bugineseYa (joined : Bool)
  | bugineseVowel
  | khmerStacked
  | kiratRaiE
  | kiratRaiAi
  | lisuTone
  | turkicI (joined : Bool)
  | tifinagh (joined : Bool)
  | tifinaghJoined
deriving DecidableEq

/-- How a variation selector asks for the character before it to be drawn. -/
inductive Selector
  | asText
  | asEmoji
deriving DecidableEq

/-- What follows a character: a selector, if there is one, and then the context. -/
structure Following where
  selector : Option Selector
  context : Context
deriving DecidableEq

/-- A Khmer letter that can be stacked below another. -/
def isKhmerStackable (c : Char) : Bool :=
  isIn [(0x1780, 0x1782), (0x1784, 0x1787), (0x1789, 0x178C), (0x178E, 0x1793), (0x1795, 0x1798),
    (0x179B, 0x179D), (0x17A0, 0x17A0), (0x17A2, 0x17A2), (0x17A7, 0x17A7), (0x17AB, 0x17AC),
    (0x17AF, 0x17AF)] c

/-- A form of the Arabic letter alef. -/
def isAlef (c : Char) : Bool :=
  isIn [(0x622, 0x623), (0x625, 0x625), (0x627, 0x627), (0x671, 0x673), (0x675, 0x675),
    (0x773, 0x774), (0x870, 0x882)] c

/-- A form of the Arabic letter lam. -/
def isLam (c : Char) : Bool :=
  isIn [(0x644, 0x644), (0x6B5, 0x6B8), (0x76A, 0x76A), (0x8A6, 0x8A6), (0x8C7, 0x8C7)] c

/-- A consonant of the Tifinagh script. -/
def isTifinagh (c : Char) : Bool := isIn [(0x2D31, 0x2D65), (0x2D6F, 0x2D6F)] c

/-- The context that a character gives to the one before it. -/
def Context.ofChar (c : Char) : Context :=
  if isAlef c then arabicAlef
  else if c.toNat = 0x5DC then hebrewLamed false
  else if c.toNat = 0x1A10 then bugineseYa false
  else if isKhmerStackable c then khmerStacked
  else if c.toNat = 0x16D67 then kiratRaiE
  else if c.toNat = 0x16D68 then kiratRaiAi
  else if c.toNat = 0xA4FC || c.toNat = 0xA4FD then lisuTone
  else if c.toNat = 0x10C03 then turkicI false
  else if isTifinagh c then tifinagh false
  else if isIn [(0x1F3FB, 0x1F3FF)] c then skinTone
  else if isIn emojiRanges c then emoji
  else other

/-- The context after a joiner in front of it; `none` if the joiner starts anew. -/
def Context.join : Context → Option Context
  | hebrewLamed _ => some (hebrewLamed true)
  | bugineseYa _ => some (bugineseYa true)
  | turkicI _ => some (turkicI true)
  | tifinagh _ => some (tifinagh true)
  | bugineseVowel => some bugineseVowel
  | khmerStacked => some khmerStacked
  | kiratRaiE => some kiratRaiE
  | kiratRaiAi => some kiratRaiAi
  | lisuTone => some lisuTone
  | tifinaghJoined => some tifinaghJoined
  | emoji => some joinedEmoji
  | _ => none

/-- Whether marks without a width may stand between the parts of a ligature. -/
def Context.isLigature : Context → Bool
  | other | emoji | joinedEmoji | skinTone => false
  | _ => true

/-- A mark that may stand inside a ligature of any script. -/
def isLigatureMark (c : Char) : Bool :=
  isIn [(0x34F, 0x34F), (0x17B4, 0x17B5), (0x180B, 0x180D), (0x180F, 0x180F), (0xFE00, 0xFE0F),
    (0xE0100, 0xE01EF)] c

/-- The width of a character that combines with what follows, and the context it leaves. -/
def combine (c : Char) (context : Context) : Option (Int × Context) :=
  match context with
  | .arabicAlef =>
    if isLam c then some (0, .other)
    else if isZero c && !isIn opaqueRanges c then some (0, .arabicAlef)
    else none
  | .hebrewLamed true => if c.toNat = 0x5D0 then some (0, .other) else none
  | .bugineseYa true => if c.toNat = 0x1A17 then some (0, .bugineseVowel) else none
  | .bugineseVowel => if c.toNat = 0x1A15 then some (0, .other) else none
  | .khmerStacked => if c.toNat = 0x17D2 then some (-1, .other) else none
  | .kiratRaiE =>
    if c.toNat = 0x16D63 || c.toNat = 0x16D69 then some (0, .other)
    else if c.toNat = 0x16D67 then some (0, .kiratRaiAi)
    else none
  | .kiratRaiAi => if c.toNat = 0x16D63 then some (0, .other) else none
  | .lisuTone => if isIn [(0xA4F8, 0xA4FB)] c then some (0, .other) else none
  | .turkicI true => if c.toNat = 0x10C32 then some (0, .other) else none
  | .tifinagh joined =>
    if c.toNat = 0x2D7F then some (1, .tifinaghJoined)
    else if joined && isTifinagh c then some (0, .other)
    else none
  | .tifinaghJoined => if isTifinagh c then some (-1, .other) else none
  | .skinTone => if isIn modifiedRanges c then some (0, .emoji) else none
  | .joinedEmoji =>
    if isIn [(0x1F3FB, 0x1F3FF)] c then some (0, .skinTone)
    else if isIn emojiRanges c then some (0, .emoji)
    else none
  | _ => none

/-- The context that a selector in front of it leaves. -/
def Context.select (context : Context) : Context :=
  if context.isLigature || context = .joinedEmoji then context else .other

/-- The width of a character before what follows, and what then follows the character before it.
-/
def read (c : Char) (next : Following) : Int × Following :=
  if next.selector = some .asEmoji && isIn selectableRanges c then
    (if next.context = .joinedEmoji then 0 else 2, ⟨none, .emoji⟩)
  else if c.toNat ≤ 0xA0 then (alone c, ⟨none, .other⟩)
  else if c.toNat = 0xFE0F then (0, ⟨some .asEmoji, next.context.select⟩)
  else if c.toNat = 0xFE0E then (0, ⟨some .asText, next.context.select⟩)
  else if next.selector = some .asText && isIn narrowableRanges c then (1, ⟨none, .other⟩)
  else if c.toNat = 0x200D then (0, ⟨none, next.context.join.getD .other⟩)
  else if next.context.isLigature && isLigatureMark c then (0, ⟨none, next.context⟩)
  else
    match combine c next.context with
    | some (width, context) => (width, ⟨none, context⟩)
    | none => (alone c, ⟨none, .ofChar c⟩)

end Width

/-- The number of columns a text takes. -/
def displayWidth (cs : List Char) : Nat :=
  (cs.foldr (fun c (total, next) =>
    let (width, following) := Width.read c next
    (total + width, following)) ((0 : Int), (⟨none, .other⟩ : Width.Following))).1.toNat

end ClassDiagram.Text
