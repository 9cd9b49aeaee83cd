import ClassDiagram.Proofs.Xml.Reader

/-!
# Reading what is printed

The reader gives back every element that is printed, if its names are names and no attribute is
given twice. Values are arbitrary: whatever stands in a value is read as part of that value.
-/

namespace ClassDiagram.Xml

/-! ## Single steps of the scanner -/

theorem scan_cons (place : Place) (c : Char) (rest : List Char) :
    scan place (c :: rest) =
      (place.step c).bind fun (next, tag?) => (scan next rest).map (tag?.toList ++ ·) := by
  cases place <;> rfl

theorem scan_step {place next : Place} {c : Char} (hstep : place.step c = some (next, none))
    (rest : List Char) : scan place (c :: rest) = scan next rest := by
  rw [scan_cons, hstep]
  exact Option.map_id'

theorem scan_complete {place next : Place} {c : Char} {tag : Tag}
    (hstep : place.step c = some (next, some tag)) (rest : List Char) :
    scan place (c :: rest) = (scan next rest).map (tag :: ·) := by
  rw [scan_cons, hstep]
  rfl

/-- A place that collects characters collects all of a text. -/
theorem scan_collect {place : List Char → Place} {text : List Char}
    (hstep : ∀ c ∈ text, ∀ read, (place read).step c = some (place (read ++ [c]), none))
    (read rest : List Char) :
    scan (place read) (text ++ rest) = scan (place (read ++ text)) rest := by
  induction text generalizing read with
  | nil => rw [List.append_nil, List.nil_append]
  | cons c text ih =>
      rw [List.cons_append, scan_step (hstep c List.mem_cons_self read),
        ih (fun d hd => hstep d (List.mem_cons_of_mem _ hd)), List.append_assoc]
      rfl

theorem scan_spaces (count : Nat) (rest : List Char) :
    scan .between (List.replicate count ' ' ++ rest) = scan .between rest := by
  have hstep : ∀ c ∈ List.replicate count ' ', ∀ _ : List Char,
      Place.between.step c = some (.between, none) := by
    intro c hc _
    rw [List.eq_of_mem_replicate hc]
    rfl
  exact @scan_collect (fun _ => .between) _ hstep [] rest

/-! ## Values -/

/-- A character stands for itself or is written as a reference to itself. -/
theorem escapeChar_cases (c : Char) :
    (escapeChar c = [c] ∧ c ∉ ['&', '<', '>', '"', '\'', '\n', '\r', '\t']) ∨
      ∃ letters, escapeChar c = '&' :: letters ++ [';'] ∧ ';' ∉ letters ∧
        referenced? letters = some c := by
  unfold escapeChar
  split
  · exact .inr ⟨['a', 'm', 'p'], by decide⟩
  · exact .inr ⟨['l', 't'], by decide⟩
  · exact .inr ⟨['g', 't'], by decide⟩
  · exact .inr ⟨['q', 'u', 'o', 't'], by decide⟩
  · exact .inr ⟨['a', 'p', 'o', 's'], by decide⟩
  · exact .inr ⟨['#', '1', '0'], by decide⟩
  · exact .inr ⟨['#', '1', '3'], by decide⟩
  · exact .inr ⟨['#', '9'], by decide⟩
  · refine .inl ⟨rfl, ?_⟩
    simp_all

variable {tag : StartTag} {name text : List Char}

theorem scan_reference {letters : List Char} {c : Char} (hplain : ';' ∉ letters)
    (hletters : referenced? letters = some c) (rest : List Char) :
    scan (.value tag name text) ('&' :: letters ++ ';' :: rest) =
      scan (.value tag name (text ++ [c])) rest := by
  have hcollect : ∀ d ∈ letters, ∀ read, (Place.reference tag name text read).step d =
      some (.reference tag name text (read ++ [d]), none) := by
    intro d hd read
    have hne : d ≠ ';' := fun heq => hplain (heq ▸ hd)
    simp [Place.step, hne]
  rw [List.cons_append, scan_step rfl, scan_collect hcollect]
  apply scan_step
  simp [Place.step, hletters]

theorem scan_escapeChar (c : Char) (rest : List Char) :
    scan (.value tag name text) (escapeChar c ++ rest) =
      scan (.value tag name (text ++ [c])) rest := by
  rcases escapeChar_cases c with ⟨hself, hplain⟩ | ⟨letters, hescape, hplain, hletters⟩
  · rw [hself]
    apply scan_step
    simp only [List.mem_cons, not_or] at hplain
    -- Of all white space only the space is left, and it is read as itself.
    have hspace : (if isSpace c then ' ' else c) = c := by
      simp only [isSpace, hplain, decide_false, Bool.or_false, decide_eq_true_eq, ite_eq_right_iff]
      exact Eq.symm
    simp [Place.step, hplain, hspace]
  · rw [hescape, List.append_assoc]
    exact scan_reference hplain hletters rest

theorem escape_cons (c : Char) (text : List Char) :
    escape (c :: text) = escapeChar c ++ escape text := by
  rw [escape_eq_flatMap, escape_eq_flatMap, List.flatMap_cons]

/-- A value is read back, whatever its characters are. -/
theorem scan_escape (value rest : List Char) :
    scan (.value tag name text) (escape value ++ rest) =
      scan (.value tag name (text ++ value)) rest := by
  induction value generalizing text with
  | nil => rw [List.append_nil]; rfl
  | cons c value ih =>
      rw [escape_cons, List.append_assoc, scan_escapeChar, ih, List.append_assoc]
      rfl

/-! ## Attributes and tags -/

theorem exists_of_isName {name : List Char} (hname : isName name = true) :
    ∃ c rest, name = c :: rest ∧ startsName c = true ∧ ∀ d ∈ rest, continuesName d = true := by
  cases name with
  | nil => exact absurd hname Bool.false_ne_true
  | cons c rest =>
      rw [isName, Bool.and_eq_true, List.all_eq_true] at hname
      exact ⟨c, rest, rfl, hname⟩

/-- A name behind white space in a tag is the name of an attribute. -/
theorem scan_key (hname : isName name = true) (rest : List Char) :
    scan (.inside tag) (name ++ rest) = scan (.key tag name) rest := by
  obtain ⟨c, letters, rfl, hstarts, hcontinues⟩ := exists_of_isName hname
  have hcollect : ∀ d ∈ letters, ∀ read, (Place.key tag read).step d =
      some (.key tag (read ++ [d]), none) := by
    intro d hd read
    simp [Place.step, hcontinues d hd]
  have hfirst : (Place.inside tag).step c = some (.key tag [c], none) := by
    simp [Place.step, hstarts]
  rw [List.cons_append, scan_step hfirst, scan_collect hcollect]
  rfl

theorem scan_attribute {name value : String} (hname : isName name.toList = true)
    (hnew : name ∉ tag.attributes.map (·.1)) (rest : List Char) :
    scan (.valued tag)
        (' ' :: name.toList ++ '=' :: '"' :: escape value.toList ++ ['"'] ++ rest) =
      scan (.valued ⟨tag.name, tag.attributes ++ [(name, value)]⟩) rest := by
  have hadd : tag.add? name.toList value.toList =
      some ⟨tag.name, tag.attributes ++ [(name, value)]⟩ := by
    rw [StartTag.add?, String.ofList_toList, String.ofList_toList, if_neg]
    simpa using hnew
  simp only [List.cons_append, List.append_assoc]
  rw [scan_step rfl, scan_key hname, scan_step rfl, scan_step rfl, scan_escape, List.nil_append]
  apply scan_step
  simp [Place.step, hadd]

theorem printAttributes_cons (name value : String) (attributes : List (String × String)) :
    Element.printAttributes ((name, value) :: attributes) =
      ' ' :: name.toList ++ '=' :: '"' :: escape value.toList ++ ['"']
        ++ Element.printAttributes attributes := rfl

theorem scan_attributes {attributes : List (String × String)}
    (hnames : ∀ a ∈ attributes, isName a.1.toList = true)
    (hdistinct : ((tag.attributes ++ attributes).map (·.1)).Nodup) (rest : List Char) :
    scan (.valued tag) (Element.printAttributes attributes ++ rest) =
      scan (.valued ⟨tag.name, tag.attributes ++ attributes⟩) rest := by
  induction attributes generalizing tag with
  | nil => rw [List.append_nil]; rfl
  | cons a attributes ih =>
      have hnew : a.1 ∉ tag.attributes.map (·.1) := by
        rw [List.map_append, List.map_cons] at hdistinct
        exact fun hmem => (List.nodup_append.mp hdistinct).2.2 _ hmem _ List.mem_cons_self rfl
      rw [← List.singleton_append, ← List.append_assoc] at hdistinct
      rw [printAttributes_cons, List.append_assoc,
        scan_attribute (hnames a List.mem_cons_self) hnew,
        ih (fun b hb => hnames b (List.mem_cons_of_mem _ hb)) hdistinct, List.append_assoc]
      rfl

/-- Where its name ends, a tag stands as behind an attribute. -/
theorem scan_naming {c : Char} (hends : continuesName c = false) (name rest : List Char) :
    scan (.naming name) (c :: rest) = scan (.valued ⟨name, []⟩) (c :: rest) := by
  rw [scan_cons, scan_cons, Place.step, if_neg (by rw [hends]; exact Bool.false_ne_true)]
  rfl

/-- The start of a tag, up to what ends it. -/
theorem scan_opening {name : String} {attributes : List (String × String)}
    (hname : isName name.toList = true) (hnames : ∀ a ∈ attributes, isName a.1.toList = true)
    (hdistinct : (attributes.map (·.1)).Nodup) (depth : Nat) {c : Char}
    (hends : continuesName c = false) (rest : List Char) :
    scan .between (List.replicate (2 * depth) ' ' ++ '<' :: name.toList
        ++ Element.printAttributes attributes ++ c :: rest) =
      scan (.valued ⟨name.toList, attributes⟩) (c :: rest) := by
  obtain ⟨d, letters, hletters, hstarts, hcontinues⟩ := exists_of_isName hname
  have hslash : d ≠ '/' := by
    rintro rfl
    exact absurd hstarts (by decide)
  have hcollect : ∀ e ∈ letters, ∀ read, (Place.naming read).step e =
      some (.naming (read ++ [e]), none) := by
    intro e he read
    simp [Place.step, hcontinues e he]
  have hfirst : Place.opened.step d = some (.naming [d], none) := by
    simp [Place.step, hslash, hstarts]
  have hbehind : scan (.naming name.toList)
        (Element.printAttributes attributes ++ c :: rest) =
      scan (.valued ⟨name.toList, []⟩) (Element.printAttributes attributes ++ c :: rest) := by
    cases attributes with
    | nil => exact scan_naming hends _ _
    | cons a attributes => exact scan_naming (by decide) _ _
  rw [List.append_assoc, List.append_assoc, scan_spaces, hletters, List.cons_append,
    scan_step rfl, List.cons_append, scan_step hfirst, scan_collect hcollect]
  rw [hletters] at hbehind
  rw [List.singleton_append, hbehind, ← hletters]
  exact @scan_attributes ⟨name.toList, []⟩ attributes hnames hdistinct _

theorem scan_stop {name : String} (hname : isName name.toList = true) (depth : Nat)
    (rest : List Char) :
    scan .between (List.replicate (2 * depth) ' ' ++ '<' :: '/' :: name.toList
        ++ ['>', '\n'] ++ rest) = (scan .between rest).map (.stop name :: ·) := by
  obtain ⟨d, letters, hletters, hstarts, hcontinues⟩ := exists_of_isName hname
  have hcollect : ∀ e ∈ name.toList, ∀ read, (Place.stopping read).step e =
      some (.stopping (read ++ [e]), none) := by
    intro e he read
    have hcontinues : continuesName e = true := by
      rcases List.mem_cons.mp (hletters ▸ he) with rfl | he
      · simp [continuesName, hstarts]
      · exact hcontinues e he
    simp [Place.step, hcontinues]
  simp only [List.append_assoc, List.cons_append, List.nil_append]
  rw [scan_spaces, scan_step rfl, scan_step rfl, scan_collect hcollect, List.nil_append,
    scan_complete rfl, scan_step rfl, String.ofList_toList]

/-! ## Elements -/

/-- Whether the names of some attributes are names, and no two of them the same. -/
def areNames (names : List String) : Bool := names.all (isName ·.toList) && decide names.Nodup

/-- What is asked of an element to be read back: nothing of its values. -/
inductive Element.WellFormed : Element → Prop
  | intro {name : String} {attributes : List (String × String)} {children : List Element}
      (hname : isName name.toList = true) (hattributes : areNames (attributes.map (·.1)) = true)
      (hchildren : ∀ child ∈ children, child.WellFormed) :
      (Element.node name attributes children).WellFormed

namespace Element

mutual

/-- The tags of an element. -/
def tags : Element → List Tag
  | node name attributes [] => [.empty name attributes]
  | node name attributes (child :: rest) =>
    .start name attributes :: (tags child ++ tagsOfAll rest) ++ [.stop name]

/-- The tags of elements that follow each other. -/
def tagsOfAll : List Element → List Tag
  | [] => []
  | element :: rest => tags element ++ tagsOfAll rest

end

theorem WellFormed.parts {name : String} {attributes : List (String × String)}
    {children : List Element} (h : (node name attributes children).WellFormed) :
    isName name.toList = true ∧ (∀ a ∈ attributes, isName a.1.toList = true) ∧
      (attributes.map (·.1)).Nodup ∧ ∀ child ∈ children, child.WellFormed := by
  cases h with
  | intro hname hattributes hchildren =>
      rw [areNames, Bool.and_eq_true, List.all_eq_true, decide_eq_true_eq] at hattributes
      exact ⟨hname, fun a ha => hattributes.1 _ (List.mem_map_of_mem ha), hattributes.2, hchildren⟩

/-- The text of an element with children, with what follows it. -/
theorem print_parent (name : String) (attributes : List (String × String)) (child : Element)
    (siblings : List Element) (depth : Nat) (rest : List Char) :
    print depth (node name attributes (child :: siblings)) ++ rest =
      List.replicate (2 * depth) ' ' ++ '<' :: name.toList ++ printAttributes attributes
        ++ '>' :: '\n' :: (print (depth + 1) child ++ (printAll (depth + 1) siblings
        ++ (List.replicate (2 * depth) ' ' ++ '<' :: '/' :: name.toList ++ ['>', '\n']
        ++ rest))) := by
  simp only [print, List.append_assoc, List.cons_append, List.nil_append]

mutual

theorem scan_print (element : Element) (h : element.WellFormed) (depth : Nat)
    (rest : List Char) :
    scan .between (element.print depth ++ rest) =
      (scan .between rest).map (element.tags ++ ·) := by
  match element, h with
  | node name attributes [], h =>
    obtain ⟨hname, hnames, hdistinct, _⟩ := h.parts
    rw [print, List.append_assoc]
    change scan .between (_ ++ '/' :: '>' :: '\n' :: rest) = _
    rw [scan_opening hname hnames hdistinct depth (by decide), scan_step rfl, scan_complete rfl,
      scan_step rfl, String.ofList_toList]
    rfl
  | node name attributes (child :: siblings), h =>
    obtain ⟨hname, hnames, hdistinct, hchildren⟩ := h.parts
    have hchild := hchildren child List.mem_cons_self
    have hsiblings := fun e he => hchildren e (List.mem_cons_of_mem child he)
    rw [print_parent, scan_opening hname hnames hdistinct depth (by decide), scan_complete rfl,
      scan_step rfl, scan_print child hchild, scan_printAll siblings hsiblings,
      scan_stop hname depth rest, String.ofList_toList]
    simp only [Option.map_map, tags]
    congr 1
    funext tags
    simp

theorem scan_printAll (elements : List Element) (h : ∀ e ∈ elements, e.WellFormed) (depth : Nat)
    (rest : List Char) :
    scan .between (printAll depth elements ++ rest) =
      (scan .between rest).map (tagsOfAll elements ++ ·) := by
  match elements, h with
  | [], _ =>
    rw [printAll, tagsOfAll]
    exact Option.map_id'.symm
  | element :: siblings, h =>
    rw [printAll, tagsOfAll, List.append_assoc, scan_print element (h element List.mem_cons_self),
      scan_printAll siblings fun e he => h e (List.mem_cons_of_mem element he), Option.map_map]
    congr 1
    funext tags
    exact (List.append_assoc _ _ _).symm

end

/-! ## Building elements -/

mutual

theorem build_tags (element : Element) (builder : Builder) :
    element.tags.foldlM Builder.step builder =
      some ⟨builder.frames, builder.elements ++ [element]⟩ := by
  match element with
  | node name attributes [] => rfl
  | node name attributes (child :: siblings) =>
    have hinner := build_tagsOfAll (child :: siblings)
      ⟨⟨name, attributes, builder.elements⟩ :: builder.frames, []⟩
    rw [tagsOfAll, List.nil_append] at hinner
    rw [tags, List.cons_append, List.foldlM_cons]
    change List.foldlM Builder.step (⟨⟨name, attributes, builder.elements⟩ :: builder.frames, []⟩)
      (child.tags ++ tagsOfAll siblings ++ [.stop name]) = _
    rw [List.foldlM_append, hinner]
    -- The end tag fits the frame that the start tag has left.
    simp [Builder.step]

theorem build_tagsOfAll (elements : List Element) (builder : Builder) :
    (tagsOfAll elements).foldlM Builder.step builder =
      some ⟨builder.frames, builder.elements ++ elements⟩ := by
  match elements with
  | [] =>
    rw [List.append_nil]
    rfl
  | element :: siblings =>
    rw [tagsOfAll, List.foldlM_append, build_tags element]
    change List.foldlM Builder.step _ _ = _
    rw [build_tagsOfAll siblings, List.append_assoc]
    rfl

end

end Element

/-- The document of a well-formed element is read back as that element. -/
theorem read_document (root : Element) (h : root.WellFormed) :
    read (document root) = some root := by
  have hline : "<?xml version=\"1.0\" encoding=\"UTF-8\"?>\n".toList = declaration ++ ['\n'] := by
    cbv
  have hdocument : document root = declaration ++ '\n' :: root.print 0 :=
    (congrArg (· ++ root.print 0) hline).trans (List.append_assoc ..)
  have hdeclaration : Source.after? declaration (document root) = some ('\n' :: root.print 0) :=
    Source.after?_eq_some_iff.mpr hdocument
  have hscan : scan .between ('\n' :: root.print 0) = some root.tags := by
    have hprint := root.scan_print h 0 []
    rw [List.append_nil] at hprint
    rw [scan_step rfl, hprint]
    simp [scan]
  simp [read, hdeclaration, hscan, Element.build_tags]

-- The reader knows more than the printer writes: a raw tab in a value is a space to it, and a raw
-- angle bracket in a value is refused.
example : read (declaration ++ "<a b=\"x\ty&#65;\" ><c/>\n</a>".toList) =
    some (.node "a" [("b", "x yA")] [.node "c" [] []]) := by
  cbv

example : read (declaration ++ "<a b=\"<\"/>".toList) = none := by
  cbv

end ClassDiagram.Xml
