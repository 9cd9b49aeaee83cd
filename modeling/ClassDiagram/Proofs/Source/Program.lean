import ClassDiagram.Proofs.Source.Masking
import ClassDiagram.Text.Blank

/-!
# Program text in a source

Masking leaves nothing but white space. So a character of the skeleton that is no white space is
program text: it stands in the source and in its code at the same offset. If it is a delimiter, no
literal and no comment is open in front of it, and what stands in front can be masked by itself.
-/

namespace ClassDiagram.Source

open Text

/-! ## Characters of the skeleton -/

theorem isBlank_of_mem_blank {c d : Char} (h : d ∈ blank c) : isBlank d = true := by
  unfold blank at h
  split at h
  next =>
    rw [List.mem_singleton.mp h]
    decide
  next =>
    rw [(List.mem_replicate.mp h).2]
    decide

/-- A copy of a source shows each character or leaves it blank. -/
def IsCopy (copy : Char × Layer → List Char) : Prop :=
  ∀ tagged, copy tagged = [tagged.1] ∨ copy tagged = blank tagged.1

theorem isCopy_inCode : IsCopy inCode := by
  rintro ⟨c, layer⟩
  cases layer with
  | program => exact .inl rfl
  | literal => exact .inl rfl
  | comment => exact .inr rfl

theorem isCopy_inSkeleton : IsCopy inSkeleton := by
  rintro ⟨c, layer⟩
  cases layer with
  | program => exact .inl rfl
  | literal => exact .inr rfl
  | comment => exact .inr rfl

/-- Only a line break leaves something else than spaces when it is blanked. -/
theorem blank_eq_of_mem {c d : Char} (h : d ∈ blank c) (hd : d ≠ ' ') : blank c = [c] := by
  unfold blank at h ⊢
  split at h
  next hbreak => rw [if_pos hbreak, hbreak]
  next => exact absurd (List.eq_of_mem_replicate h) hd

/-- A character of a copy that is no space is shown where it stands in the source. -/
theorem IsCopy.exists_tag {copy : Char × Layer → List Char} (hcopy : IsCopy copy)
    {tagged : List (Char × Layer)} {a b : List Char} {c : Char}
    (h : tagged.flatMap copy = a ++ c :: b) (hc : c ≠ ' ') :
    ∃ before layer after, tagged = before ++ (c, layer) :: after ∧ copy (c, layer) = [c] ∧
      before.flatMap copy = a ∧ after.flatMap copy = b := by
  induction tagged generalizing a with
  | nil => simp at h
  | cons head tagged ih =>
      have hlater : ∀ later, tagged.flatMap copy = later ++ c :: b → a = copy head ++ later →
          ∃ before layer after, head :: tagged = before ++ (c, layer) :: after ∧
            copy (c, layer) = [c] ∧ before.flatMap copy = a ∧ after.flatMap copy = b := by
        intro later hparts ha
        obtain ⟨before, layer, after, rfl, hshown, rfl, hafter⟩ := ih hparts
        exact ⟨head :: before, layer, after, rfl, hshown, by rw [ha, List.flatMap_cons], hafter⟩
      rw [List.flatMap_cons] at h
      rcases List.append_eq_append_iff.mp h with ⟨later, ha, hparts⟩ | ⟨between, hhead, hparts⟩
      · exact hlater later hparts ha
      · cases between with
        | nil => exact hlater [] hparts.symm (by simpa using hhead.symm)
        | cons d between =>
            obtain ⟨rfl, hafter⟩ := List.cons.inj hparts
            -- The character belongs to the copy of `head`, which is shown, also as a line break.
            have hmem : c ∈ copy head := hhead ▸ List.mem_append_right _ List.mem_cons_self
            have hshown : copy head = [head.1] := (hcopy head).elim id fun hmasked =>
              hmasked.trans (blank_eq_of_mem (hmasked ▸ hmem) hc)
            rw [hshown] at hhead
            obtain ⟨rfl, hrest⟩ := List.append_eq_singleton_iff.mp hhead.symm |>.resolve_right
              (by simp)
            obtain ⟨hsame, rfl⟩ := List.cons.inj hrest
            obtain ⟨x, layer⟩ := head
            obtain rfl : c = x := hsame
            exact ⟨[], layer, tagged, rfl, hshown, rfl, hafter.symm⟩

theorem ne_space {c : Char} (hc : isBlank c = false) : c ≠ ' ' := by
  rintro rfl
  exact absurd hc (by decide)

theorem ne_blank {c : Char} (hc : isBlank c = false) (d : Char) : blank d ≠ [c] := by
  intro heq
  have hblank := isBlank_of_mem_blank (heq ▸ List.mem_singleton_self c)
  rw [hc] at hblank
  exact Bool.false_ne_true hblank

/-- A character of the skeleton that is no white space is program text. -/
theorem exists_program_of_flatMap {tagged : List (Char × Layer)} {a b : List Char} {c : Char}
    (h : tagged.flatMap inSkeleton = a ++ c :: b) (hc : isBlank c = false) :
    ∃ before after, tagged = before ++ (c, .program) :: after ∧
      before.flatMap inSkeleton = a ∧ after.flatMap inSkeleton = b := by
  obtain ⟨before, layer, after, rfl, hshown, hparts⟩ := isCopy_inSkeleton.exists_tag h (ne_space hc)
  cases layer with
  | program => exact ⟨before, after, rfl, hparts⟩
  | literal => exact absurd hshown (ne_blank hc c)
  | comment => exact absurd hshown (ne_blank hc c)

/-- Program text stands in the code where it stands in the skeleton. -/
theorem exists_code_of_skeleton {source a b : List Char} {c : Char}
    (h : (Masked.ofSource source).skeleton = a ++ c :: b) (hc : isBlank c = false) :
    ∃ a' b', (Masked.ofSource source).code = a' ++ c :: b' ∧ byteLength a' = byteLength a := by
  obtain ⟨before, after, htagged, rfl, _⟩ := exists_program_of_flatMap h hc
  refine ⟨before.flatMap inCode, after.flatMap inCode, ?_, ?_⟩
  · rw [Masked.ofSource, htagged, List.flatMap_append, List.flatMap_cons]
    rfl
  · rw [byteLength_flatMap byteLength_inCode, byteLength_flatMap byteLength_inSkeleton]

/-! ## Stretches of a source -/

/-- A division of the skeleton of a source that divides the source, too: no character is masked by
the end of the one part and the start of the other. -/
def IsCut (source a b : List Char) : Prop :=
  ∃ before after, layers source = before ++ after ∧ before.flatMap inSkeleton = a ∧
    after.flatMap inSkeleton = b

theorem isCut_after {source a b : List Char} {c : Char}
    (h : (Masked.ofSource source).skeleton = (a ++ [c]) ++ b) (hc : isBlank c = false) :
    IsCut source (a ++ [c]) b := by
  rw [List.append_assoc, List.singleton_append] at h
  obtain ⟨before, after, htagged, rfl, rfl⟩ := exists_program_of_flatMap h hc
  exact ⟨before ++ [(c, .program)], after, by simp [htagged], by simp [inSkeleton], rfl⟩

theorem isCut_before {source a b : List Char} {c : Char}
    (h : (Masked.ofSource source).skeleton = a ++ c :: b) (hc : isBlank c = false) :
    IsCut source a (c :: b) := by
  obtain ⟨before, after, htagged, rfl, rfl⟩ := exists_program_of_flatMap h hc
  exact ⟨before, (c, .program) :: after, htagged, rfl, rfl⟩

theorem isCut_end (source : List Char) : IsCut source (Masked.ofSource source).skeleton [] :=
  ⟨layers source, [], (List.append_nil _).symm, rfl, rfl⟩

/-- Every character of a source leaves something in the skeleton. -/
theorem eq_nil_of_skeleton {tagged : List (Char × Layer)} (h : tagged.flatMap inSkeleton = []) :
    tagged = [] := by
  have hsize := congrArg byteLength h
  rw [byteLength_flatMap byteLength_inSkeleton] at hsize
  exact List.map_eq_nil_iff.mp (eq_nil_of_byteLength hsize)

/-- Between two cuts stands a stretch of the source, and the code shows it. -/
theorem IsCut.exists_stretch {source a u b : List Char} (hstart : IsCut source a (u ++ b))
    (hstop : IsCut source (a ++ u) b) :
    ∃ shown, shown <:+: layers source ∧ shown.flatMap inSkeleton = u ∧
      slice (Masked.ofSource source).code ⟨byteLength a, byteLength (a ++ u)⟩ =
        shown.flatMap inCode := by
  obtain ⟨before, later, hlater, rfl, hu⟩ := hstart
  obtain ⟨front, after, hafter, hfront, rfl⟩ := hstop
  -- The source is divided at the same characters as the skeleton.
  obtain ⟨shown, rfl, rfl⟩ : ∃ shown, front = before ++ shown ∧ later = shown ++ after := by
    rcases List.append_eq_append_iff.mp (hlater.symm.trans hafter) with
      ⟨shown, rfl, rfl⟩ | ⟨shown, rfl, rfl⟩
    · exact ⟨shown, rfl, rfl⟩
    · have hnil : shown.flatMap inSkeleton ++ u = [] := by
        rw [List.flatMap_append, List.append_assoc] at hfront
        exact List.append_right_eq_self.mp hfront.symm
      obtain rfl := eq_nil_of_skeleton (List.append_eq_nil_iff.mp hnil).1
      exact ⟨[], by simp, rfl⟩
  rw [List.flatMap_append] at hfront
  refine ⟨shown, ⟨before, after, by rw [hafter]⟩, List.append_cancel_left hfront, ?_⟩
  have hcode : (Masked.ofSource source).code =
      before.flatMap inCode ++ (shown.flatMap inCode ++ after.flatMap inCode) := by
    rw [Masked.ofSource, hafter]
    simp
  have hsame : ∀ tagged : List (Char × Layer),
      byteLength (tagged.flatMap inSkeleton) = byteLength (tagged.flatMap inCode) := fun tagged => by
    rw [byteLength_flatMap byteLength_inCode, byteLength_flatMap byteLength_inSkeleton]
  rw [hcode, ← hfront, byteLength_append, hsame, hsame]
  exact slice_append _ _ _

/-! ## In front of a delimiter -/

/-- A reading that is passing program text is passing quotes. -/
def State.Sees (rest : List Char) : State → Prop
  | .passing further .program _ => 0 < further ∧ List.replicate further '"' <+: rest
  | _ => True

theorem State.sees_read {state : State} {c : Char} {rest : List Char} (h : state.Sees (c :: rest))
    (beforeLast last : Option Char) : (state.read beforeLast last c rest).2.Sees rest := by
  cases state with
  | within mode =>
      rcases mode with _ | _ | _ | (_ | _) | _ | _ <;> simp only [State.read, Mode.read] <;>
        split <;> simp [State.Sees, List.replicate]
  | passing further layer next =>
      rw [State.read]
      split
      next => trivial
      next hfurther =>
        cases layer with
        | program =>
            obtain ⟨_, hquotes⟩ := h
            obtain ⟨n, rfl⟩ : ∃ n, further = n + 1 := ⟨further - 1, by omega⟩
            exact ⟨by omega, (List.cons_prefix_cons.mp hquotes).2⟩
        | literal => trivial
        | comment => trivial

variable {d : Char} (hd : isDelimiter d = true) (hblank : isBlank d = false)

include hd in
theorem ne_of_isDelimiter : d ≠ '"' ∧ d ≠ '\'' ∧ d ≠ '/' ∧ d ≠ '*' := by
  simp only [isDelimiter, isPlain, Bool.and_eq_true, decide_eq_true_eq] at hd
  exact ⟨hd.1.1.1.1.1, hd.1.1.1.1.2, hd.1.1.1.2, hd.1.1.2⟩

include hd hblank in
/-- A delimiter is program text only where the reading stands in program text. -/
theorem within_program_of_read {state : State} {beforeLast last : Option Char} {rest : List Char}
    (hsees : state.Sees (d :: rest)) (hread : (state.read beforeLast last d rest).1 = .program) :
    state = .within .program := by
  obtain ⟨hquote, happostrophe, hslash, hstar⟩ := ne_of_isDelimiter hd
  have hbreak : d ≠ '\n' := by
    rintro rfl
    exact absurd hblank (by decide)
  cases state with
  | within mode =>
      rcases mode with _ | _ | _ | (_ | _) | _ | _ <;>
        simp only [State.read, Mode.read] at hread <;> grind
  | passing further layer next =>
      obtain rfl : layer = .program := hread
      obtain ⟨hfurther, hquotes⟩ := hsees
      obtain ⟨n, rfl⟩ : ∃ n, further = n + 1 := ⟨further - 1, by omega⟩
      exact absurd (List.cons_prefix_cons.mp hquotes).1.symm hquote

include hd in
/-- If a delimiter follows in program text, then the text before it ends in program text too. -/
theorem read_nil_of_read {state : State} {beforeLast last : Option Char} {c : Char}
    {rest : List Char} (h : (state.read beforeLast last c (d :: rest)).2 = .within .program) :
    (state.read beforeLast last c []).2 = .within .program := by
  obtain ⟨hquote, _, hslash, hstar⟩ := ne_of_isDelimiter hd
  cases state with
  | within mode =>
      rcases mode with _ | _ | _ | (_ | _) | _ | _ <;>
        simp only [State.read, Mode.read] at h ⊢ <;> grind
  | passing further layer next => exact h

include hd hblank in
/-- No literal and no comment is open in front of a delimiter that is program text. -/
theorem stateAfter_of_program {front rest : List Char} {state : State}
    {beforeLast last : Option Char} (hsees : state.Sees (front ++ d :: rest))
    (hprogram : (layersOnto [] state beforeLast last (front ++ d :: rest))[front.length]? =
      some (d, .program)) : stateAfter state beforeLast last front = .within .program := by
  induction front generalizing state beforeLast last with
  | nil =>
      rw [List.nil_append, layersOnto_cons] at hprogram
      have hread := (Prod.mk.inj (Option.some.inj hprogram)).2
      exact within_program_of_read hd hblank hsees hread
  | cons c front ih =>
      rw [List.cons_append] at hsees
      rw [List.cons_append, layersOnto_cons] at hprogram
      have hend := ih (State.sees_read hsees beforeLast last) hprogram
      obtain ⟨hquote, _, hslash, hstar⟩ := ne_of_isDelimiter hd
      have hread : state.read beforeLast last c (front ++ d :: rest) =
          state.read beforeLast last c front := by
        apply state.read_append (forall_mem_head_cons ⟨hquote, hslash, hstar⟩ rest)
        rintro rfl
        exact read_nil_of_read hd hend
      rw [hread] at hend
      exact hend

include hd hblank in
/-- What stands in front of a delimiter that the skeleton shows leaves nothing open. -/
theorem isClosed_of_skeleton {front rest a b : List Char}
    (h : (Masked.ofSource (front ++ d :: rest)).skeleton = a ++ d :: b)
    (hsize : byteLength a = byteLength front) : IsClosed front := by
  obtain ⟨before, after, htagged, rfl, _⟩ := exists_program_of_flatMap h hblank
  rw [byteLength_flatMap byteLength_inSkeleton] at hsize
  have hsource := map_fst_layers (front ++ d :: rest)
  rw [htagged, List.map_append, List.map_cons] at hsource
  obtain ⟨hfront, _⟩ := append_inj_of_byteLength hsource hsize
  have hprogram : (layers (front ++ d :: rest))[front.length]? = some (d, .program) := by
    rw [htagged, ← hfront, List.length_map, List.getElem?_append_right (Nat.le_refl _),
      Nat.sub_self]
    rfl
  exact stateAfter_of_program hd hblank trivial hprogram

/-- A source is masked in two parts, before and after a delimiter of its program text. -/
theorem ofSource_append_delimiter {front : List Char} (h : IsClosed front)
    (hd : isDelimiter d = true) (rest : List Char) :
    Masked.ofSource (front ++ d :: rest) =
      Masked.ofSource front ++ (Masked.plain [d] ++ Masked.ofSource rest) := by
  have hparts := (masks_closed h hd).ofSource_append rest
  rw [List.append_assoc] at hparts
  refine hparts.trans ?_
  change Masked.mk _ _ = Masked.mk _ _
  simp [Masked.plain]

theorem ofSource_plain {cs : List Char} (h : ∀ c ∈ cs, isPlain c = true)
    (hlast : ∀ c ∈ cs.getLast?, c ≠ '@' ∧ c ≠ '$') : Masked.ofSource cs = .plain cs := by
  have hcopies := (masks_plain h hlast).ofSource_append []
  rw [List.append_nil] at hcopies
  rw [hcopies]
  change Masked.mk (cs ++ []) (cs ++ []) = _
  rw [List.append_nil]
  rfl

end ClassDiagram.Source
