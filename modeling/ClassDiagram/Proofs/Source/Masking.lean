import ClassDiagram.Proofs.Text.Extent
import ClassDiagram.Source.Masked

/-!
# Masking in parts

A text that leaves no literal and no comment open can be masked by itself: what stands around it
changes nothing in it, and it changes nothing around it. So the two copies of a source are put
together from those of its parts.
-/

namespace ClassDiagram.Source

open Text

/-! ## Reading a part of a source -/

theorem layersOnto_eq_append (done : List (Char × Layer)) (state : State)
    (beforeLast last : Option Char) (cs : List Char) :
    layersOnto done state beforeLast last cs =
      done.reverse ++ layersOnto [] state beforeLast last cs := by
  induction cs generalizing done state beforeLast last with
  | nil => simp [layersOnto]
  | cons c cs ih =>
      simp only [layersOnto]
      rw [ih, ih [(c, _)]]
      simp

theorem layersOnto_cons (state : State) (beforeLast last : Option Char) (c : Char)
    (cs : List Char) :
    layersOnto [] state beforeLast last (c :: cs) =
      (c, (state.read beforeLast last c cs).1) ::
        layersOnto [] (state.read beforeLast last c cs).2 last (some c) cs := by
  simp only [layersOnto]
  rw [layersOnto_eq_append]
  rfl

/-- The reading tags the characters of a source and changes none of them. -/
theorem map_fst_layersOnto (state : State) (beforeLast last : Option Char) (cs : List Char) :
    (layersOnto [] state beforeLast last cs).map Prod.fst = cs := by
  induction cs generalizing state beforeLast last with
  | nil => rfl
  | cons c cs ih => rw [layersOnto_cons, List.map_cons, ih]

theorem map_fst_layers (source : List Char) : (layers source).map Prod.fst = source :=
  map_fst_layersOnto (.within .program) none none source

def stateAfter (state : State) (beforeLast last : Option Char) : List Char → State
  | [] => state
  | c :: rest => stateAfter (state.read beforeLast last c rest).2 last (some c) rest

/-- A text that leaves no literal and no comment open. -/
def IsClosed (cs : List Char) : Prop :=
  stateAfter (.within .program) none none cs = .within .program

instance (cs : List Char) : Decidable (IsClosed cs) := inferInstanceAs (Decidable (_ = _))

/-! ## What stands before a part -/

theorem State.read_congr (state : State) {beforeLast last beforeLast' last' : Option Char}
    (h : opensVerbatim beforeLast last = opensVerbatim beforeLast' last') (c : Char)
    (rest : List Char) :
    state.read beforeLast last c rest = state.read beforeLast' last' c rest := by
  cases state with
  | within mode => cases mode <;> simp only [State.read, Mode.read, h]
  | passing further layer next => rfl

/-- What the characters before a place say about a quote at the place or right after it. -/
def SeenAlike (beforeLast last beforeLast' last' : Option Char) : Prop :=
  opensVerbatim beforeLast last = opensVerbatim beforeLast' last' ∧
    (last = some '@' ↔ last' = some '@')

theorem SeenAlike.next {beforeLast last beforeLast' last' : Option Char}
    (h : SeenAlike beforeLast last beforeLast' last') (c : Char) :
    SeenAlike last (some c) last' (some c) := by
  refine ⟨?_, Iff.rfl⟩
  obtain ⟨_, hat⟩ := h
  unfold opensVerbatim
  grind

theorem seenAlike_of_ne {last last' : Option Char} (hlast : ∀ c ∈ ['@', '$'], last ≠ some c)
    (hlast' : ∀ c ∈ ['@', '$'], last' ≠ some c) (beforeLast beforeLast' : Option Char) :
    SeenAlike beforeLast last beforeLast' last' := by
  simp only [List.mem_cons, List.not_mem_nil, or_false, forall_eq_or_imp, forall_eq] at hlast hlast'
  refine ⟨?_, by simp [hlast.1, hlast'.1]⟩
  unfold opensVerbatim
  grind

/-- The characters before a text matter only if they may start a verbatim string. -/
theorem SeenAlike.layersOnto_eq {beforeLast last beforeLast' last' : Option Char}
    (h : SeenAlike beforeLast last beforeLast' last') (state : State) (cs : List Char) :
    layersOnto [] state beforeLast last cs = layersOnto [] state beforeLast' last' cs := by
  induction cs generalizing state beforeLast last beforeLast' last' with
  | nil => rfl
  | cons c cs ih =>
      rw [layersOnto_cons, layersOnto_cons, state.read_congr h.1, ih (h.next c)]

theorem layersOnto_of_last (state : State) (beforeLast : Option Char) {last : Option Char}
    (hat : last ≠ some '@') (hdollar : last ≠ some '$') (cs : List Char) :
    layersOnto [] state beforeLast last cs = layersOnto [] state none none cs := by
  have hlast : ∀ c ∈ ['@', '$'], last ≠ some c := by simp [hat, hdollar]
  exact (seenAlike_of_ne hlast (by simp) beforeLast none).layersOnto_eq state cs

/-! ## What stands after a part -/

/-- A text that cannot continue a token of the text before it. -/
def Separates (rest : List Char) : Prop := ∀ c ∈ rest.head?, c ≠ '"' ∧ c ≠ '/' ∧ c ≠ '*'

theorem Mode.read_append (mode : Mode) {beforeLast last : Option Char} {c : Char}
    {cs rest : List Char} (hrest : Separates rest)
    (hclosed : cs = [] → (mode.read beforeLast last c []).2 = .within .program) :
    mode.read beforeLast last c (cs ++ rest) = mode.read beforeLast last c cs := by
  -- The reading looks at no more than the two characters after `c`. If `cs` has both, `rest` is out
  -- of sight; otherwise `rest` must not complete a comment mark or the quotes of a text block.
  match cs, rest, hrest with
  | cs, [], _ => rw [List.append_nil]
  | [], d :: rest, hrest =>
      obtain ⟨hquote, hslash, hstar⟩ := hrest d rfl
      have hclosed := hclosed rfl
      rcases mode with _ | _ | _ | (_ | _) | _ | _ <;>
        simp only [Mode.read, List.nil_append] at hclosed ⊢ <;> grind
  | [e], d :: rest, hrest =>
      obtain ⟨hquote, hslash, hstar⟩ := hrest d rfl
      rcases mode with _ | _ | _ | (_ | _) | _ | _ <;>
        simp only [Mode.read, List.cons_append, List.nil_append] <;> grind
  | e :: f :: cs, d :: rest, hrest =>
      rcases mode with _ | _ | _ | (_ | _) | _ | _ <;>
        simp only [Mode.read, List.cons_append] <;> grind

theorem State.read_append (state : State) {beforeLast last : Option Char} {c : Char}
    {cs rest : List Char} (hrest : Separates rest)
    (hclosed : cs = [] → (state.read beforeLast last c []).2 = .within .program) :
    state.read beforeLast last c (cs ++ rest) = state.read beforeLast last c cs := by
  cases state with
  | within mode => exact mode.read_append hrest hclosed
  | passing further layer next => rfl

/-- A part that ends in program text is read as if nothing followed it. -/
theorem layersOnto_append {cs rest : List Char} (hrest : Separates rest) {state : State}
    {beforeLast last : Option Char}
    (hclosed : stateAfter state beforeLast last cs = .within .program) :
    ∃ beforeLast' last', layersOnto [] state beforeLast last (cs ++ rest) =
      layersOnto [] state beforeLast last cs ++
        layersOnto [] (.within .program) beforeLast' last' rest := by
  induction cs generalizing state beforeLast last with
  | nil =>
      rw [stateAfter] at hclosed
      exact ⟨beforeLast, last, by rw [hclosed]; rfl⟩
  | cons c cs ih =>
      have hread : state.read beforeLast last c (cs ++ rest) = state.read beforeLast last c cs := by
        apply state.read_append hrest
        rintro rfl
        exact hclosed
      obtain ⟨beforeLast', last', hparts⟩ := ih hclosed
      refine ⟨beforeLast', last', ?_⟩
      rw [List.cons_append, layersOnto_cons, hread, hparts, layersOnto_cons, List.cons_append]

/-! ## Copies put together -/

instance : Append Masked := ⟨fun a b => ⟨a.code ++ b.code, a.skeleton ++ b.skeleton⟩⟩

@[simp]
theorem Masked.code_append (a b : Masked) : (a ++ b).code = a.code ++ b.code := rfl

@[simp]
theorem Masked.skeleton_append (a b : Masked) : (a ++ b).skeleton = a.skeleton ++ b.skeleton := rfl

theorem Masked.mk_append (code skeleton : List Char) (m : Masked) :
    (⟨code, skeleton⟩ : Masked) ++ m = ⟨code ++ m.code, skeleton ++ m.skeleton⟩ := rfl

/-- The copies of program text. -/
def Masked.plain (cs : List Char) : Masked := ⟨cs, cs⟩

/-- `m` are the copies of `cs` wherever it stands as a part of a source. -/
def Masks (cs : List Char) (m : Masked) : Prop :=
  ∀ beforeLast last rest, last ≠ some '@' → last ≠ some '$' →
    ∃ read : List (Char × Layer), read.flatMap inCode = m.code ∧
      read.flatMap inSkeleton = m.skeleton ∧
      layersOnto [] (.within .program) beforeLast last (cs ++ rest) =
        read ++ layersOnto [] (.within .program) none none rest

theorem Masks.append {a b : List Char} {m n : Masked} (ha : Masks a m) (hb : Masks b n) :
    Masks (a ++ b) (m ++ n) := by
  intro beforeLast last rest hat hdollar
  obtain ⟨readA, hcodeA, hskeletonA, hlayersA⟩ := ha beforeLast last (b ++ rest) hat hdollar
  obtain ⟨readB, hcodeB, hskeletonB, hlayersB⟩ := hb none none rest (by simp) (by simp)
  refine ⟨readA ++ readB, ?_, ?_, ?_⟩
  · rw [List.flatMap_append, hcodeA, hcodeB, Masked.code_append]
  · rw [List.flatMap_append, hskeletonA, hskeletonB, Masked.skeleton_append]
  · rw [List.append_assoc, hlayersA, hlayersB, List.append_assoc]

/-- A source that starts with a part starts with the copies of that part. -/
theorem Masks.ofSource_append {cs : List Char} {m : Masked} (h : Masks cs m) (rest : List Char) :
    Masked.ofSource (cs ++ rest) = m ++ Masked.ofSource rest := by
  obtain ⟨read, hcode, hskeleton, hlayers⟩ := h none none rest (by simp) (by simp)
  have hcopies : Masked.ofSource (cs ++ rest) =
      ⟨(read ++ layers rest).flatMap inCode, (read ++ layers rest).flatMap inSkeleton⟩ := by
    rw [Masked.ofSource, layers, hlayers]
    rfl
  rw [hcopies, List.flatMap_append, List.flatMap_append, hcode, hskeleton]
  rfl

/-- A character that opens no literal and no comment. -/
def isPlain (c : Char) : Bool := c ≠ '"' && c ≠ '\'' && c ≠ '/'

theorem isPlain_of_forall {p : Char → Bool} (hp : ∀ m ∈ ['"', '\'', '/'], p m = false) {c : Char}
    (h : p c = true) : isPlain c = true := by
  simpa [isPlain, and_assoc] using not_mem_of_apply hp h

theorem read_of_isPlain {c : Char} (hc : isPlain c = true) (beforeLast last : Option Char)
    (rest : List Char) :
    (State.within .program).read beforeLast last c rest = (.program, .within .program) := by
  simp only [isPlain, Bool.and_eq_true, decide_eq_true_eq] at hc
  simp only [State.read, Mode.read]
  grind

theorem layersOnto_plain {cs : List Char} (h : ∀ c ∈ cs, isPlain c = true)
    (beforeLast last : Option Char) (rest : List Char) :
    ∃ beforeLast', layersOnto [] (.within .program) beforeLast last (cs ++ rest) =
      cs.map (·, .program) ++
        layersOnto [] (.within .program) beforeLast' (cs.getLast?.or last) rest := by
  induction cs generalizing beforeLast last with
  | nil => exact ⟨beforeLast, rfl⟩
  | cons c cs ih =>
      obtain ⟨beforeLast', hlayers⟩ :=
        ih (fun d hd => h d (List.mem_cons_of_mem _ hd)) last (some c)
      refine ⟨beforeLast', ?_⟩
      have hlast : (c :: cs).getLast?.or last = cs.getLast?.or (some c) := by
        cases cs <;> simp [List.getLast?_cons]
      rw [List.cons_append, layersOnto_cons, read_of_isPlain (h c List.mem_cons_self), hlayers,
        hlast]
      rfl

/-- Text without quotes and slashes is program text. -/
theorem masks_plain {cs : List Char} (h : ∀ c ∈ cs, isPlain c = true)
    (hlast : ∀ c ∈ cs.getLast?, c ≠ '@' ∧ c ≠ '$') : Masks cs (.plain cs) := by
  intro beforeLast last rest hat hdollar
  obtain ⟨beforeLast', hlayers⟩ := layersOnto_plain h beforeLast last rest
  refine ⟨cs.map (·, .program), ?_, ?_, ?_⟩
  · simp [List.flatMap_map, inCode, Masked.plain]
  · simp [List.flatMap_map, inSkeleton, Masked.plain]
  · rw [hlayers, layersOnto_of_last]
    · cases hend : cs.getLast? with
      | none => simpa using hat
      | some c => simpa using (hlast c hend).1
    · cases hend : cs.getLast? with
      | none => simpa using hdollar
      | some c => simpa using (hlast c hend).2

/-- A character that continues no literal and no comment either, and does not make a string after
it verbatim. -/
def isDelimiter (c : Char) : Bool := isPlain c && c ≠ '*' && c ≠ '@' && c ≠ '$'

theorem masks_closed {cs : List Char} (h : IsClosed cs) {d : Char} (hd : isDelimiter d = true) :
    Masks (cs ++ [d]) (Masked.ofSource cs ++ .plain [d]) := by
  intro beforeLast last rest hat hdollar
  simp only [isDelimiter, Bool.and_eq_true, decide_eq_true_eq] at hd
  obtain ⟨⟨⟨hplain, hstar⟩, hdat⟩, hddollar⟩ := hd
  have hseparates : Separates (d :: rest) := by
    intro c hc
    obtain rfl := Option.some.inj hc
    simp only [isPlain, Bool.and_eq_true, decide_eq_true_eq] at hplain
    exact ⟨hplain.1.1, hplain.2, hstar⟩
  -- After `d` it is forgotten what `cs` ended with, so the rest is read as if it came first.
  obtain ⟨beforeLast', last', hparts⟩ := layersOnto_append hseparates h
  refine ⟨layers cs ++ [(d, .program)], ?_, ?_, ?_⟩
  · rw [List.flatMap_append]; rfl
  · rw [List.flatMap_append]; rfl
  · have hrest : layersOnto [] (.within .program) last' (some d) rest =
        layersOnto [] (.within .program) none none rest :=
      layersOnto_of_last _ _ (by simpa using hdat) (by simpa using hddollar) rest
    rw [layersOnto_of_last _ _ hat hdollar, List.append_assoc, List.cons_append, List.nil_append,
      hparts, layersOnto_cons, read_of_isPlain hplain]
    simp only [hrest, layers, List.append_assoc, List.cons_append, List.nil_append]

/-! ## Lengths -/

@[simp]
theorem byteLength_blank (c : Char) : byteLength (blank c) = c.utf8Size := by
  unfold blank
  split
  next h => subst h; rfl
  next =>
    induction c.utf8Size with
    | zero => rfl
    | succ n ih =>
        rw [List.replicate_succ, byteLength_cons, ih, Nat.add_comm]
        rfl

theorem byteLength_inCode (tagged : Char × Layer) :
    byteLength (inCode tagged) = tagged.1.utf8Size := by
  obtain ⟨c, layer⟩ := tagged
  cases layer <;> simp [inCode]

theorem byteLength_inSkeleton (tagged : Char × Layer) :
    byteLength (inSkeleton tagged) = tagged.1.utf8Size := by
  obtain ⟨c, layer⟩ := tagged
  cases layer <;> simp [inSkeleton]

theorem byteLength_flatMap {copy : Char × Layer → List Char}
    (hcopy : ∀ tagged, byteLength (copy tagged) = tagged.1.utf8Size)
    (tagged : List (Char × Layer)) :
    byteLength (tagged.flatMap copy) = byteLength (tagged.map Prod.fst) := by
  induction tagged with
  | nil => rfl
  | cons head tail ih => simp [hcopy, ih]

/-- Both copies are as long as the source. -/
theorem byteLength_ofSource (source : List Char) :
    byteLength (Masked.ofSource source).code = byteLength source ∧
      byteLength (Masked.ofSource source).skeleton = byteLength source := by
  constructor
  · rw [Masked.ofSource, byteLength_flatMap byteLength_inCode, map_fst_layers]
  · rw [Masked.ofSource, byteLength_flatMap byteLength_inSkeleton, map_fst_layers]

end ClassDiagram.Source
