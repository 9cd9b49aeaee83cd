import ClassDiagram.Proofs.Text.Bracket
import Mathlib.Data.List.Infix
import Mathlib.Order.Bounds.Basic

/-!
# Partners of brackets

The partner of an opening bracket is where, for the first time since the bracket, as many brackets
have been closed as opened. The search that counts finds it, in the characters of a text as well as
in any bytes, and its count never has to stop at zero. For brackets of ASCII, both searches answer
the same.
-/

namespace ClassDiagram.Text

/-! ## Groups -/

section Groups

variable {α : Type} [DecidableEq α] {opening closing : α}

/-- The bracket at the head of a text is closed nowhere in it: behind each character, more brackets
have been opened than closed. -/
def StaysOpen (opening closing : α) (text : List α) : Prop :=
  ∀ front, front <+: text → front ≠ [] → front.count closing < front.count opening

/-- A bracket and what follows it up to its partner: as many brackets are closed as opened, and
fewer behind every shorter part at the head. -/
structure IsGroup (opening closing : α) (text : List α) : Prop where
  head : text.head? = some opening
  count_eq : text.count opening = text.count closing
  count_lt : ∀ front, front <+: text → front ≠ [] → front ≠ text →
    front.count closing < front.count opening

theorem isGroup_iff {text : List α} : IsGroup opening closing text ↔
    text.head? = some opening ∧ text.count opening = text.count closing ∧
      ∀ front ∈ text.inits, front ≠ [] → front ≠ text →
        front.count closing < front.count opening := by
  simp only [List.mem_inits]
  exact ⟨fun h => ⟨h.head, h.count_eq, h.count_lt⟩, fun h => ⟨h.1, h.2.1, h.2.2⟩⟩

instance (text : List α) : Decidable (IsGroup opening closing text) :=
  decidable_of_iff' _ isGroup_iff

theorem staysOpen_concat {text : List α} {c : α} :
    StaysOpen opening closing (text ++ [c]) ↔ StaysOpen opening closing text ∧
      (text ++ [c]).count closing < (text ++ [c]).count opening := by
  constructor
  · intro h
    refine ⟨fun front hfront => h front (hfront.trans (List.prefix_append text [c])), ?_⟩
    exact h _ (List.prefix_refl _) (by simp)
  · rintro ⟨h, hall⟩ front hfront hne
    rcases List.prefix_concat_iff.mp hfront with rfl | hfront
    · exact hall
    · exact h front hfront hne

theorem staysOpen_singleton (hne : opening ≠ closing) : StaysOpen opening closing [opening] := by
  have hnil : StaysOpen opening closing [] := fun front hfront hne =>
    absurd (List.prefix_nil.mp hfront) hne
  have hconcat : StaysOpen opening closing ([] ++ [opening]) :=
    staysOpen_concat.mpr ⟨hnil, by simp [hne]⟩
  exact hconcat

/-- The last bracket that is open is closed. -/
theorem StaysOpen.isGroup {text : List α} (h : StaysOpen opening closing text)
    (hne : opening ≠ closing) (hhead : text.head? = some opening)
    (hcount : text.count opening = text.count closing + 1) :
    IsGroup opening closing (text ++ [closing]) where
  head := by rw [List.head?_append, hhead, Option.some_or]
  count_eq := by simp [List.count_append, hcount, hne.symm]
  count_lt := fun front hfront hnil hall =>
    h front ((List.prefix_concat_iff.mp hfront).resolve_left hall) hnil

theorem IsGroup.ne_nil {text : List α} (h : IsGroup opening closing text) : text ≠ [] := by
  rintro rfl
  exact absurd h.head (by simp)

/-- A bracket that stays open is not closed in any part at the head. -/
theorem StaysOpen.not_isGroup {text front : List α} (h : StaysOpen opening closing text)
    (hfront : front <+: text) : ¬IsGroup opening closing front := fun hgroup =>
  absurd hgroup.count_eq (h front hfront hgroup.ne_nil).ne'

theorem IsGroup.eq_of_isPrefix {a b : List α} (ha : IsGroup opening closing a)
    (hb : IsGroup opening closing b) (hab : a <+: b) : a = b := by
  by_contra hne
  exact absurd ha.count_eq (hb.count_lt a hab ha.ne_nil hne).ne'

/-- A bracket has one partner. -/
theorem IsGroup.append_inj {a b c d : List α} (ha : IsGroup opening closing a)
    (hc : IsGroup opening closing c) (h : a ++ b = c ++ d) : a = c ∧ b = d := by
  have hsame : a = c := by
    have hprefix : a <+: c ++ d := h ▸ List.prefix_append a b
    rcases List.prefix_or_prefix_of_prefix hprefix (List.prefix_append c d) with hac | hca
    · exact ha.eq_of_isPrefix hc hac
    · exact (hc.eq_of_isPrefix ha hca).symm
  subst hsame
  exact ⟨rfl, List.append_cancel_left h⟩

/-! ## The search -/

/-- The byte offset at which the group that `seen` begins is closed in `cs`, which stands at the
byte offset `offset` behind it; none if the bracket stays open. -/
inductive EndsGroup (size : α → Nat) (opening closing : α) (seen : List α) (offset : Nat)
    (cs : List α) : Option Nat → Prop
  | unclosed (stays : StaysOpen opening closing (seen ++ cs)) :
      EndsGroup size opening closing seen offset cs none
  | closed (inside rest : List α) (parts : cs = inside ++ closing :: rest)
      (group : IsGroup opening closing (seen ++ inside ++ [closing])) :
      EndsGroup size opening closing seen offset cs (some (offset + totalSize size inside))

theorem EndsGroup.behind {size : α → Nat} {seen cs : List α} {c : α} {offset : Nat}
    {found : Option Nat} (h : EndsGroup size opening closing (seen ++ [c]) (offset + size c) cs
      found) : EndsGroup size opening closing seen offset (c :: cs) found := by
  cases h with
  | unclosed stays => exact .unclosed (by simpa using stays)
  | closed inside rest parts group =>
      rw [Nat.add_assoc, ← totalSize_cons]
      exact .closed (c :: inside) rest (by rw [parts]; rfl) (by simpa using group)

/-- While the bracket stays open, the count is how many more brackets have been opened than closed,
and it is not zero. -/
theorem endsGroup_closingFrom (size : α → Nat) (hne : opening ≠ closing) {seen : List α}
    {depth : Nat} (offset : Nat) (cs : List α) (hhead : seen.head? = some opening)
    (hstays : StaysOpen opening closing seen)
    (hdepth : seen.count opening = seen.count closing + depth) :
    EndsGroup size opening closing seen offset cs
      (closingFrom size opening closing depth offset cs) := by
  -- What has been seen grows by a character in each step, and keeps the two hypotheses on it.
  induction cs generalizing seen depth offset with
  | nil => exact .unclosed (by rwa [List.append_nil])
  | cons c cs ih =>
      have hopen : seen.count closing < seen.count opening := by
        refine hstays seen (List.prefix_refl _) ?_
        rintro rfl
        exact absurd hhead (by simp)
      -- What the search does behind `c`, if the bracket is still open there.
      have hon : ∀ next, 0 < next →
          (seen ++ [c]).count opening = (seen ++ [c]).count closing + next →
          EndsGroup size opening closing seen offset (c :: cs)
            (closingFrom size opening closing next (offset + size c) cs) := by
        intro next hpos hnext
        refine (ih _ ?_ (staysOpen_concat.mpr ⟨hstays, ?_⟩) hnext).behind
        · rw [List.head?_append, hhead, Option.some_or]
        · omega
      rw [closingFrom]
      split
      next hopening =>
        refine hon (depth + 1) (by omega) ?_
        subst hopening
        simp [List.count_append, hne]
        omega
      next hopening =>
        split
        next hclosing =>
          subst hclosing
          split
          next hone =>
            refine .closed [] cs rfl ?_
            rw [List.append_nil]
            exact hstays.isGroup hne hhead (by omega)
          next hmore =>
            refine hon (depth - 1) (by omega) ?_
            simp [List.count_append, hne.symm]
            omega
        next hclosing =>
          refine hon depth (by omega) ?_
          simp [List.count_append, hopening, hclosing, hdepth]

/-- The group at the head of a text, or none if its bracket stays open. -/
theorem endsGroup_closingFrom_cons (size : α → Nat) (hne : opening ≠ closing) (offset : Nat)
    (cs : List α) : EndsGroup size opening closing [opening] (offset + size opening) cs
      (closingFrom size opening closing 0 offset (opening :: cs)) := by
  rw [closingFrom, if_pos rfl]
  exact endsGroup_closingFrom size hne _ cs rfl (staysOpen_singleton hne) (by simp [hne])

end Groups

/-! ## Bytes -/

section Bytes

variable {opening closing : UInt8} {bytes : List UInt8} {start : Nat}

/-- The offset of the partner of the bracket at the offset `start`, found in the bytes alone. They
need not be the bytes of a text. -/
def partnerByte? (opening closing : UInt8) (bytes : List UInt8) (start : Nat) : Option Nat :=
  closingFrom (fun _ => 1) opening closing 0 start (bytes.drop start)

/-- The bytes from the offset `start` up to the offset `stop` and with it. -/
def stretch (bytes : List UInt8) (start stop : Nat) : List UInt8 :=
  (bytes.drop start).take (stop + 1 - start)

/-- The offsets up to which, from `start` on, as many brackets are closed as opened. -/
def evenOffsets (opening closing : UInt8) (bytes : List UInt8) (start : Nat) : Set Nat :=
  {stop | start ≤ stop ∧ stop < bytes.length ∧
    (stretch bytes start stop).count opening = (stretch bytes start stop).count closing}

/-- What the partner of the bracket at the offset `start` is: the least offset up to which as many
brackets are closed as opened. It is a closing bracket, and up to every offset in front of it more
brackets are opened than closed. -/
structure IsPartnerAt (opening closing : UInt8) (bytes : List UInt8) (start : Nat)
    (found : Option Nat) : Prop where
  some_iff : ∀ stop, found = some stop ↔ IsLeast (evenOffsets opening closing bytes start) stop
  none_iff : found = none ↔ ∀ stop, stop ∉ evenOffsets opening closing bytes start
  closes : ∀ stop, found = some stop → bytes[stop]? = some closing
  stays_open : ∀ stop, found = some stop → ∀ before, start ≤ before → before < stop →
    (stretch bytes start before).count closing < (stretch bytes start before).count opening

theorem stretch_prefix_drop (bytes : List UInt8) (start stop : Nat) :
    stretch bytes start stop <+: bytes.drop start := List.take_prefix _ _

theorem stretch_prefix_stretch {before stop : Nat} (hle : before ≤ stop) :
    stretch bytes start before <+: stretch bytes start stop :=
  List.take_prefix_take_left (by omega)

theorem length_stretch {stop : Nat} (hstart : start ≤ stop) (hstop : stop < bytes.length) :
    (stretch bytes start stop).length = stop + 1 - start := by
  rw [stretch, List.length_take, List.length_drop]
  omega

theorem stretch_ne_nil {stop : Nat} (hstart : start ≤ stop) (hstop : stop < bytes.length) :
    stretch bytes start stop ≠ [] := by
  rw [← List.length_pos_iff, length_stretch hstart hstop]
  omega

theorem count_lt_of_isGroup {before stop : Nat}
    (h : IsGroup opening closing (stretch bytes start stop)) (hstart : start ≤ before)
    (hbefore : before < stop) (hstop : stop < bytes.length) :
    (stretch bytes start before).count closing < (stretch bytes start before).count opening := by
  refine h.count_lt _ (stretch_prefix_stretch hbefore.le) (stretch_ne_nil hstart (by omega)) ?_
  intro hsame
  have hlength := congrArg List.length hsame
  rw [length_stretch hstart (by omega), length_stretch (by omega) hstop] at hlength
  omega

theorem isLeast_of_isGroup {stop : Nat} (h : IsGroup opening closing (stretch bytes start stop))
    (hstart : start ≤ stop) (hstop : stop < bytes.length) :
    IsLeast (evenOffsets opening closing bytes start) stop := by
  refine ⟨⟨hstart, hstop, h.count_eq⟩, fun before ⟨hbefore, _, heven⟩ => ?_⟩
  by_contra hlt
  exact absurd heven (count_lt_of_isGroup h hbefore (by omega) hstop).ne'

theorem not_mem_evenOffsets_of_staysOpen (h : StaysOpen opening closing (bytes.drop start))
    (stop : Nat) : stop ∉ evenOffsets opening closing bytes start := by
  rintro ⟨hstart, hstop, heven⟩
  exact absurd heven (h _ (stretch_prefix_drop bytes start stop) (stretch_ne_nil hstart hstop)).ne'

theorem partnerByte?_cases (hne : opening ≠ closing) (hstart : bytes[start]? = some opening) :
    (partnerByte? opening closing bytes start = none ∧
      StaysOpen opening closing (bytes.drop start)) ∨
    ∃ stop, partnerByte? opening closing bytes start = some stop ∧ start ≤ stop ∧
      bytes[stop]? = some closing ∧ IsGroup opening closing (stretch bytes start stop) := by
  obtain ⟨hlt, hbyte⟩ := List.getElem?_eq_some_iff.mp hstart
  have hdrop : bytes.drop start = opening :: bytes.drop (start + 1) := by
    rw [List.drop_eq_getElem_cons hlt, hbyte]
  have hfound := endsGroup_closingFrom_cons (fun _ => 1) hne start (bytes.drop (start + 1))
  rw [partnerByte?, hdrop]
  generalize closingFrom (fun _ => 1) opening closing 0 start
    (opening :: bytes.drop (start + 1)) = found at hfound
  cases hfound with
  | unclosed stays => exact .inl ⟨rfl, stays⟩
  | closed inside rest parts group =>
      rw [totalSize_one]
      refine .inr ⟨_, rfl, by omega, ?_, ?_⟩
      · rw [← List.getElem?_drop, parts, List.getElem?_append_right (Nat.le_refl _), Nat.sub_self]
        rfl
      · have hlength : start + 1 + inside.length + 1 - start =
            ([opening] ++ inside ++ [closing]).length := by
          simp only [List.length_append, List.length_singleton]
          omega
        have hbytes : opening :: bytes.drop (start + 1) =
            [opening] ++ inside ++ [closing] ++ rest := by
          rw [parts]
          simp
        rwa [stretch, hdrop, hlength, hbytes, List.take_left]

theorem isPartnerAt_partnerByte? (hne : opening ≠ closing) (hstart : bytes[start]? = some opening) :
    IsPartnerAt opening closing bytes start (partnerByte? opening closing bytes start) := by
  rcases partnerByte?_cases hne hstart with ⟨hnone, hstays⟩ | ⟨stop, hsome, hle, hclosing, hgroup⟩
  · have hnever := not_mem_evenOffsets_of_staysOpen hstays
    rw [hnone]
    constructor
    · exact fun stop => ⟨(nomatch ·), fun h => absurd h.1 (hnever stop)⟩
    · exact ⟨fun _ => hnever, fun _ => rfl⟩
    · exact fun _ h => nomatch h
    · exact fun _ h => nomatch h
  · have hlt : stop < bytes.length := (List.getElem?_eq_some_iff.mp hclosing).1
    have hleast := isLeast_of_isGroup hgroup hle hlt
    rw [hsome]
    constructor
    · intro other
      constructor
      · rintro ⟨rfl⟩
        exact hleast
      · intro hother
        rw [hleast.unique hother]
    · exact ⟨(nomatch ·), fun h => absurd hleast.1 (h stop)⟩
    · rintro _ ⟨rfl⟩
      exact hclosing
    · rintro _ ⟨rfl⟩ before hbefore hbeforeStop
      exact count_lt_of_isGroup hgroup hbefore hbeforeStop hlt

/-- The search with a count that may go below zero. -/
def signedClosingFrom (opening closing : UInt8) (depth : Int) (offset : Nat) :
    List UInt8 → Option Nat
  | [] => none
  | b :: bs =>
    if b = opening then signedClosingFrom opening closing (depth + 1) (offset + 1) bs
    else if b = closing then
      if depth - 1 = 0 then some offset
      else signedClosingFrom opening closing (depth - 1) (offset + 1) bs
    else signedClosingFrom opening closing depth (offset + 1) bs

/-- A search that starts with an open bracket ends before its count would go below zero. -/
theorem closingFrom_eq_signedClosingFrom {depth : Nat} (hdepth : 0 < depth) (offset : Nat)
    (bs : List UInt8) : closingFrom (fun _ => 1) opening closing depth offset bs =
      signedClosingFrom opening closing depth offset bs := by
  induction bs generalizing depth offset with
  | nil => rfl
  | cons b bs ih =>
      have hdeeper : ((depth + 1 : Nat) : Int) = depth + 1 := by omega
      rw [closingFrom, signedClosingFrom, ih (by omega), ih hdepth, hdeeper]
      by_cases hone : depth ≤ 1
      · rw [if_pos hone, if_pos (show (depth : Int) - 1 = 0 by omega)]
      · have hless : ((depth - 1 : Nat) : Int) = depth - 1 := by omega
        rw [if_neg hone, if_neg (show ¬(depth : Int) - 1 = 0 by omega), ih (by omega), hless]

theorem partnerByte?_eq_signedClosingFrom (hstart : bytes[start]? = some opening) :
    partnerByte? opening closing bytes start =
      signedClosingFrom opening closing 0 start (bytes.drop start) := by
  obtain ⟨hlt, hbyte⟩ := List.getElem?_eq_some_iff.mp hstart
  rw [partnerByte?, List.drop_eq_getElem_cons hlt, hbyte, closingFrom, signedClosingFrom,
    if_pos rfl, if_pos rfl]
  exact closingFrom_eq_signedClosingFrom (Nat.succ_pos 0) _ _

end Bytes

/-! ## The bytes of a text -/

/-- The bytes of a text in UTF-8. -/
def bytesOf (cs : List Char) : List UInt8 := cs.flatMap String.utf8EncodeChar

theorem length_bytesOf (cs : List Char) : (bytesOf cs).length = byteLength cs := by
  induction cs with
  | nil => rfl
  | cons c cs ih =>
      rw [bytesOf, List.flatMap_cons, List.length_append, String.length_utf8EncodeChar,
        byteLength_cons, ← ih, bytesOf]

theorem bytesOf_append (a b : List Char) : bytesOf (a ++ b) = bytesOf a ++ bytesOf b :=
  List.flatMap_append

theorem utf8Size_of_lt {c : Char} (h : c.toNat < 128) : c.utf8Size = 1 := by
  rw [Char.utf8Size_eq_one_iff, UInt32.le_iff_toNat_le]
  exact Nat.le_of_lt_succ h

theorem utf8EncodeChar_of_lt {c : Char} (h : c.toNat < 128) :
    String.utf8EncodeChar c = [c.toUInt8] :=
  String.utf8EncodeChar_eq_singleton (utf8Size_of_lt h)

theorem toNat_toUInt8 {c : Char} (h : c.toNat < 128) : c.toUInt8.toNat = c.toNat := by
  rw [Char.toUInt8, UInt32.toNat_toUInt8]
  exact Nat.mod_eq_of_lt (Nat.lt_trans h (by decide))

theorem toUInt8_inj {c d : Char} (hc : c.toNat < 128) (hd : d.toNat < 128) :
    c.toUInt8 = d.toUInt8 ↔ c = d := by
  rw [← UInt8.toNat_inj, toNat_toUInt8 hc, toNat_toUInt8 hd, Char.toNat_inj]

/-- Beyond ASCII, no byte of a character is itself a character of ASCII. -/
theorem le_toNat_of_mem_utf8EncodeChar {c : Char} (hc : 128 ≤ c.toNat) :
    ∀ b ∈ String.utf8EncodeChar c, 128 ≤ b.toNat := by
  have hval : c.val.toNat = c.toNat := rfl
  simp only [String.utf8EncodeChar, hval, if_neg (show ¬c.toNat ≤ 127 by omega)]
  split
  next =>
    simp only [List.forall_mem_cons, UInt8.toNat_ofNat']
    exact ⟨by omega, by omega, by simp⟩
  next =>
    split
    next =>
      simp only [List.forall_mem_cons, UInt8.toNat_ofNat']
      exact ⟨by omega, by omega, by omega, by simp⟩
    next =>
      simp only [List.forall_mem_cons, UInt8.toNat_ofNat']
      exact ⟨by omega, by omega, by omega, by omega, by simp⟩

/-- Brackets of ASCII are found at the same offset in the bytes of a text. -/
theorem closingFrom_bytesOf {opening closing : Char} (hopening : opening.toNat < 128)
    (hclosing : closing.toNat < 128) (depth offset : Nat) (cs : List Char) :
    closingFrom (fun _ => 1) opening.toUInt8 closing.toUInt8 depth offset (bytesOf cs) =
      closingFrom Char.utf8Size opening closing depth offset cs := by
  induction cs generalizing depth offset with
  | nil => rfl
  | cons c cs ih =>
      have hcons : bytesOf (c :: cs) = String.utf8EncodeChar c ++ bytesOf cs := List.flatMap_cons
      rw [hcons]
      by_cases hc : c.toNat < 128
      · rw [utf8EncodeChar_of_lt hc, List.singleton_append, closingFrom, closingFrom]
        simp only [toUInt8_inj hc hopening, toUInt8_inj hc hclosing, utf8Size_of_lt hc, ih]
      · -- Neither the character nor one of its bytes is a bracket.
        have hne : ∀ {d : Char}, d.toNat < 128 → c ≠ d ∧ ∀ b ∈ String.utf8EncodeChar c,
            b ≠ d.toUInt8 := by
          intro d hd
          refine ⟨fun hsame => hc (hsame ▸ hd), fun b hb hsame => ?_⟩
          have hle := le_toNat_of_mem_utf8EncodeChar (by omega) b hb
          rw [hsame, toNat_toUInt8 hd] at hle
          omega
        rw [closingFrom_append_of_forall_ne, ih, closingFrom, if_neg (hne hopening).1,
          if_neg (hne hclosing).1]
        · rw [totalSize_one, String.length_utf8EncodeChar]
        · exact fun b hb => ⟨(hne hopening).2 b hb, (hne hclosing).2 b hb⟩

theorem partner?_eq_partnerByte? {opening closing : Char} (hopening : opening.toNat < 128)
    (hclosing : closing.toNat < 128) (before cs : List Char) :
    partner? opening closing (byteLength before) cs =
      partnerByte? opening.toUInt8 closing.toUInt8 (bytesOf (before ++ cs))
        (byteLength before) := by
  rw [partnerByte?, bytesOf_append, ← length_bytesOf, List.drop_left,
    closingFrom_bytesOf hopening hclosing, partner?]

end ClassDiagram.Text
