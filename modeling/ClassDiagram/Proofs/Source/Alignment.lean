import ClassDiagram.Proofs.Source.Program
import ClassDiagram.Proofs.Text.Cut

/-!
# Aligned copies

The copies of a source have its byte offsets. Each character leaves its own bytes in both copies, so
what was found in the one copy can be cut from the other, and from the source.
-/

namespace ClassDiagram.Source

open Text

/-- A part of a text and the byte offset at which it starts. -/
def StandsAt (part : List Char) (offset : Nat) (cs : List Char) : Prop :=
  ∃ before after, cs = before ++ (part ++ after) ∧ byteLength before = offset

/-- What the two copies of a source may have in the place of its character `c`. -/
structure Copied (c : Char) (shownInCode shownInSkeleton : List Char) : Prop where
  code : shownInCode = [c] ∨ shownInCode = List.replicate c.utf8Size ' '
  skeleton : shownInSkeleton = [c] ∨ shownInSkeleton = List.replicate c.utf8Size ' '
  lineBreak : c = '\n' → shownInCode = [c] ∧ shownInSkeleton = [c]
  code_of_skeleton : shownInSkeleton = [c] → shownInCode = [c]

/-- The copies of a source with the byte offsets of the source. -/
structure Masked.IsAligned (masked : Masked) (source : List Char) : Prop where
  byteLength_eq : byteLength masked.code = byteLength source ∧
    byteLength masked.skeleton = byteLength source
  isBoundary : ∀ offset, isBoundary offset source = true →
    isBoundary offset masked.code = true ∧ isBoundary offset masked.skeleton = true
  copied : ∀ before c after, source = before ++ c :: after →
    ∃ shownInCode shownInSkeleton, Copied c shownInCode shownInSkeleton ∧
      StandsAt shownInCode (byteLength before) masked.code ∧
      StandsAt shownInSkeleton (byteLength before) masked.skeleton
  shown : ∀ offset c, c ≠ ' ' → StandsAt [c] offset masked.skeleton →
    StandsAt [c] offset masked.code ∧ StandsAt [c] offset source

/-! ## One character -/

theorem blank_eq (c : Char) : blank c = [c] ∨ blank c = List.replicate c.utf8Size ' ' := by
  unfold blank
  split
  next hbreak => exact .inl (by rw [hbreak])
  next => exact .inr rfl

theorem IsCopy.eq_or {copy : Char × Layer → List Char} (hcopy : IsCopy copy)
    (tagged : Char × Layer) :
    copy tagged = [tagged.1] ∨ copy tagged = List.replicate tagged.1.utf8Size ' ' := by
  rcases hcopy tagged with hshown | hmasked
  · exact .inl hshown
  · rw [hmasked]
    exact blank_eq tagged.1

theorem IsCopy.lineBreak {copy : Char × Layer → List Char} (hcopy : IsCopy copy)
    (layer : Layer) : copy ('\n', layer) = ['\n'] := (hcopy ('\n', layer)).elim id id

theorem inCode_of_inSkeleton {c : Char} {layer : Layer} (h : inSkeleton (c, layer) = [c]) :
    inCode (c, layer) = [c] := by
  cases layer with
  | program => rfl
  | literal => rfl
  | comment => exact h

theorem copied_inCode_inSkeleton (c : Char) (layer : Layer) :
    Copied c (inCode (c, layer)) (inSkeleton (c, layer)) where
  code := isCopy_inCode.eq_or (c, layer)
  skeleton := isCopy_inSkeleton.eq_or (c, layer)
  lineBreak := by
    rintro rfl
    exact ⟨isCopy_inCode.lineBreak layer, isCopy_inSkeleton.lineBreak layer⟩
  code_of_skeleton := inCode_of_inSkeleton

/-! ## All characters -/

/-- A division of a source divides its layered characters. -/
theorem exists_layers_of_append {source a b : List Char} (h : source = a ++ b) :
    ∃ before after, layers source = before ++ after ∧ before.map Prod.fst = a ∧
      after.map Prod.fst = b := by
  exact List.map_eq_append_iff.mp ((map_fst_layers source).trans h)

/-- The copy of what stands in front of a character is as long as what stands there. -/
theorem standsAt_flatMap {copy : Char × Layer → List Char}
    (hsize : ∀ tagged, byteLength (copy tagged) = tagged.1.utf8Size)
    {source : List Char} {before after : List (Char × Layer)} {tagged : Char × Layer}
    (h : layers source = before ++ tagged :: after) :
    StandsAt (copy tagged) (byteLength (before.map Prod.fst)) ((layers source).flatMap copy) := by
  refine ⟨before.flatMap copy, after.flatMap copy, ?_, byteLength_flatMap hsize before⟩
  rw [h, List.flatMap_append, List.flatMap_cons]

theorem isBoundary_flatMap {copy : Char × Layer → List Char}
    (hsize : ∀ tagged, byteLength (copy tagged) = tagged.1.utf8Size) {source : List Char}
    {offset : Nat} (h : isBoundary offset source = true) :
    isBoundary offset ((layers source).flatMap copy) = true := by
  obtain ⟨a, b, hparts, rfl⟩ := isBoundary_iff.mp h
  obtain ⟨before, after, hlayers, rfl, _⟩ := exists_layers_of_append hparts
  refine isBoundary_iff.mpr ⟨before.flatMap copy, after.flatMap copy, ?_, ?_⟩
  · rw [hlayers, List.flatMap_append]
  · rw [byteLength_flatMap hsize]

theorem Masked.ofSource_copied {source before after : List Char} {c : Char}
    (h : source = before ++ c :: after) :
    ∃ shownInCode shownInSkeleton, Copied c shownInCode shownInSkeleton ∧
      StandsAt shownInCode (byteLength before) (Masked.ofSource source).code ∧
      StandsAt shownInSkeleton (byteLength before) (Masked.ofSource source).skeleton := by
  obtain ⟨front, rest, hlayers, rfl, hrest⟩ := exists_layers_of_append h
  obtain ⟨⟨d, layer⟩, back, rfl, rfl, rfl⟩ := List.map_eq_cons_iff.mp hrest
  exact ⟨inCode (d, layer), inSkeleton (d, layer), copied_inCode_inSkeleton d layer,
    standsAt_flatMap byteLength_inCode hlayers, standsAt_flatMap byteLength_inSkeleton hlayers⟩

/-- What the skeleton shows at its start is what the source and its code start with. -/
theorem exists_shown_of_skeleton {tagged : List (Char × Layer)} {part rest : List Char}
    (hpart : ' ' ∉ part) (h : tagged.flatMap inSkeleton = part ++ rest) :
    ∃ shown after, tagged = shown ++ after ∧ shown.map Prod.fst = part ∧
      shown.flatMap inCode = part ∧ after.flatMap inSkeleton = rest := by
  induction part generalizing tagged with
  | nil => exact ⟨[], tagged, rfl, rfl, rfl, h⟩
  | cons c part ih =>
      obtain ⟨hc, hpart⟩ := not_or.mp (mt List.mem_cons.mpr hpart)
      obtain ⟨before, layer, after, rfl, hshown, hbefore, hafter⟩ :=
        isCopy_inSkeleton.exists_tag (a := []) h (Ne.symm hc)
      obtain rfl := eq_nil_of_skeleton hbefore
      obtain ⟨shown, after, rfl, hsource, hcode, hrest⟩ := ih hpart hafter
      refine ⟨(c, layer) :: shown, after, rfl, by rw [List.map_cons, hsource], ?_, hrest⟩
      rw [List.flatMap_cons, inCode_of_inSkeleton hshown, hcode, List.singleton_append]

/-- What the skeleton shows without spaces stands in the code and in the source as well. -/
theorem Masked.standsAt_of_skeleton {source part : List Char} {offset : Nat} (hne : part ≠ [])
    (hpart : ' ' ∉ part) (h : StandsAt part offset (Masked.ofSource source).skeleton) :
    StandsAt part offset (Masked.ofSource source).code ∧ StandsAt part offset source := by
  obtain ⟨a, b, hskeleton, rfl⟩ := h
  obtain ⟨c, part, rfl⟩ := List.exists_cons_of_ne_nil hne
  have hc : c ≠ ' ' := fun heq => hpart (heq ▸ List.mem_cons_self)
  -- The part may follow spaces that stand for a character, so its start has to be found first.
  obtain ⟨before, layer, after, hlayers, hshown, rfl, hafter⟩ :=
    isCopy_inSkeleton.exists_tag hskeleton hc
  have hrest : ((c, layer) :: after).flatMap inSkeleton = (c :: part) ++ b := by
    rw [List.flatMap_cons, hshown, hafter]
    rfl
  obtain ⟨shown, later, hparts, hsource, hcode, _⟩ := exists_shown_of_skeleton hpart hrest
  rw [hparts] at hlayers
  rw [byteLength_flatMap byteLength_inSkeleton]
  refine ⟨⟨before.flatMap inCode, later.flatMap inCode, ?_,
    byteLength_flatMap byteLength_inCode before⟩, before.map Prod.fst, later.map Prod.fst, ?_, rfl⟩
  · rw [Masked.ofSource, hlayers, List.flatMap_append, List.flatMap_append, hcode]
  · rw [← hsource, ← List.map_append, ← List.map_append, ← hlayers, map_fst_layers]

/-- The code and the skeleton of a source are aligned with it and with each other. -/
theorem Masked.ofSource_isAligned (source : List Char) :
    (Masked.ofSource source).IsAligned source where
  byteLength_eq := byteLength_ofSource source
  isBoundary := fun _ h =>
    ⟨isBoundary_flatMap byteLength_inCode h, isBoundary_flatMap byteLength_inSkeleton h⟩
  copied := fun _ _ _ => Masked.ofSource_copied
  shown := fun _ c hc => Masked.standsAt_of_skeleton (List.cons_ne_nil c [])
    fun hmem => hc (List.mem_singleton.mp hmem).symm

end ClassDiagram.Source
