import ClassDiagram.Output.Format
import ClassDiagram.Proofs.Batch.Growth
import ClassDiagram.Proofs.Declaration.Name
import ClassDiagram.Proofs.Layout.Canvas
import ClassDiagram.Proofs.Layout.Drawn
import ClassDiagram.Proofs.Model.Reachable
import ClassDiagram.Proofs.Text.Cut

/-!
# Aligned and readable lines

The column of a summary is the widest name in front, so no name is wider than it and every arrow
stands at the same width, however widths are measured. Padding and marks are made of blanks and of
signs that no name has, and so the lines of a batch can be read back.
-/

namespace ClassDiagram.Summary

open Text Source

/-! ## Alignment -/

/-- A line: the two names and the kind, with a number of blanks behind the name in front. -/
def piece (edge : Edge) (padding : Nat) : String :=
  edge.sourceName ++ String.ofList (List.replicate padding ' ') ++ " --[" ++ edge.kind.name ++
    "]--> " ++ edge.targetName ++ "\n"

section

variable (width : List Char → Nat)

/-- The column is wide enough for every name. -/
theorem nameWidth_le_column {edges : List Edge} {edge : Edge} (hedge : edge ∈ edges) :
    nameWidth width edge ≤ column width edges :=
  Grid.le_largest (List.mem_map_of_mem hedge)

/-- The column is no wider than it has to be. -/
theorem exists_nameWidth_eq_column {edges : List Edge} (hedges : edges ≠ []) :
    ∃ edge ∈ edges, nameWidth width edge = column width edges :=
  List.mem_map.mp (Grid.largest_mem (mt List.map_eq_nil_iff.mp hedges))

theorem renderBy_eq {diagram : Diagram} (hboxes : diagram.boxes ≠ [])
    (hedges : diagram.edges ≠ []) :
    renderBy width diagram =
      String.ofList (diagram.edges.flatMap (line width (column width diagram.edges))) := by
  rw [renderBy, if_neg (by simpa using hboxes), if_neg (by simpa using hedges)]

theorem ofList_line (column : Nat) (edge : Edge) :
    String.ofList (line width column edge) = piece edge (column - nameWidth width edge) := by
  apply String.toList_injective
  simp only [line, piece, String.toList_ofList, String.toList_append, List.append_assoc]
  rfl

theorem ofList_flatMap_line (column : Nat) (edges : List Edge) :
    String.ofList (edges.flatMap (line width column)) =
      String.join (edges.map fun edge => piece edge (column - nameWidth width edge)) := by
  induction edges with
  | nil => rfl
  | cons edge edges ih =>
      rw [List.flatMap_cons, String.ofList_append, ofList_line, ih, List.map_cons,
        String.join_cons]

end

/-! ## Reading -/

/-- What stands in front of the first place where a mark stands, and what stands behind it. -/
def cutAt? (mark : List Char) : List Char → Option (List Char × List Char)
  | [] => none
  | c :: cs =>
    match after? mark (c :: cs) with
    | some rest => some ([], rest)
    | none => (cutAt? mark cs).map fun (front, rest) => (c :: front, rest)

/-- Reads a line: a name up to the first blank, a kind between the marks, and a name. -/
def readLine? (line : List Char) : Option Relationship := do
  let (_, afterOpening) ← cutAt? " --[".toList (line.dropWhile (· ≠ ' '))
  let (kindName, target) ← cutAt? "]--> ".toList afterOpening
  let kind ← RelationshipKind.ofName? (String.ofList kindName)
  return ⟨String.ofList (line.takeWhile (· ≠ ' ')), String.ofList target, kind⟩

/-- Reads a summary line by line. The last line is ended as well, so nothing follows it. -/
def read? (text : String) : Option (List Relationship) :=
  (text.toList.splitOn '\n').dropLast.mapM readLine?

theorem cutAt?_mark {mark : List Char} (hmark : mark ≠ []) (rest : List Char) :
    cutAt? mark (mark ++ rest) = some ([], rest) := by
  obtain ⟨c, cs, rfl⟩ := List.exists_cons_of_ne_nil hmark
  rw [List.cons_append, cutAt?, ← List.cons_append, after?_eq_some_iff.mpr rfl]

theorem cutAt?_cons {mark cs : List Char} {c : Char} (h : after? mark (c :: cs) = none) :
    cutAt? mark (c :: cs) = (cutAt? mark cs).map fun (front, rest) => (c :: front, rest) := by
  rw [cutAt?, h]

/-- The blanks in front of the opening mark are none of it. -/
theorem cutAt?_opening (padding : Nat) (rest : List Char) :
    cutAt? " --[".toList (List.replicate padding ' ' ++ (" --[".toList ++ rest)) =
      some (List.replicate padding ' ', rest) := by
  induction padding with
  | zero => exact cutAt?_mark (by simp) rest
  | succ padding ih =>
      rw [List.replicate_succ, List.cons_append, cutAt?_cons, ih]
      · rfl
      · cases padding <;> rfl

/-- No kind has a sign of the closing mark. -/
theorem cutAt?_closing (kind : RelationshipKind) (rest : List Char) :
    cutAt? "]--> ".toList (kind.name.toList ++ ("]--> ".toList ++ rest)) =
      some (kind.name.toList, rest) := by
  cases kind <;> rfl

/-! ## What is written is read -/

/-- The line of a relationship, up to its end. -/
def written (padding : Nat) (relationship : Relationship) : List Char :=
  relationship.source.toList ++ (List.replicate padding ' ' ++ (" --[".toList ++
    (relationship.kind.name.toList ++ ("]--> ".toList ++ relationship.target.toList))))

/-- The names of a relationship do not end a line, and that of its source does not end early. -/
structure IsReadable (relationship : Relationship) : Prop where
  source_ne : ∀ c ∈ relationship.source.toList, c ≠ ' ' ∧ c ≠ '\n'
  target_ne : ∀ c ∈ relationship.target.toList, c ≠ '\n'

theorem ofName?_name (kind : RelationshipKind) :
    RelationshipKind.ofName? kind.name = some kind := by
  cases kind <;> rfl

theorem IsReadable.readLine?_written {relationship : Relationship} (h : IsReadable relationship)
    (padding : Nat) : readLine? (written padding relationship) = some relationship := by
  have hsource : ∀ c ∈ relationship.source.toList, decide (c ≠ ' ') = true :=
    fun c hc => decide_eq_true (h.source_ne c hc).1
  -- What follows the name starts with a blank, be it padding or the mark.
  have hrest : ∀ c ∈ (List.replicate padding ' ' ++ (" --[".toList ++ (relationship.kind.name.toList
      ++ ("]--> ".toList ++ relationship.target.toList)))).head?, decide (c ≠ ' ') = false := by
    cases padding <;> rintro c ⟨⟩ <;> rfl
  rw [readLine?, written, takeWhile_append_of_head hsource hrest,
    dropWhile_append_of_head hsource hrest, cutAt?_opening]
  simp only [bind, Option.bind, pure, cutAt?_closing, String.ofList_toList, ofName?_name]

theorem IsReadable.newline_notMem_written {relationship : Relationship}
    (h : IsReadable relationship) (padding : Nat) : '\n' ∉ written padding relationship := by
  have hkind : '\n' ∉ relationship.kind.name.toList := by
    cases relationship.kind <;> decide
  have hsource : '\n' ∉ relationship.source.toList := fun hc => (h.source_ne _ hc).2 rfl
  have htarget : '\n' ∉ relationship.target.toList := fun hc => h.target_ne _ hc rfl
  simp [written, hkind, hsource, htarget]

/-- The relationship that an edge draws. -/
def drawn (edge : Edge) : Relationship := ⟨edge.sourceName, edge.targetName, edge.kind⟩

variable {width : List Char → Nat}

theorem line_eq (column : Nat) (edge : Edge) :
    line width column edge = written (column - nameWidth width edge) (drawn edge) ++ ['\n'] := by
  simp only [line, written, drawn, List.append_assoc]

/-- Lines that are ended by a line feed each are found again, with nothing behind the last end. -/
theorem splitOn_lines {lines : List (List Char)} (hlines : ∀ l ∈ lines, '\n' ∉ l) :
    (lines.flatMap (· ++ ['\n'])).splitOn '\n' = lines ++ [[]] := by
  induction lines with
  | nil => rfl
  | cons l lines ih =>
      obtain ⟨hl, hothers⟩ := List.forall_mem_cons.mp hlines
      have hnone : ∀ c ∈ l, (c == '\n') = false := fun c hc => beq_false_of_ne fun heq =>
        hl (heq ▸ hc)
      have hrest := ih hothers
      rw [List.splitOn_eq_splitOnP] at hrest ⊢
      rw [List.flatMap_cons, List.append_assoc, List.singleton_append,
        List.splitOnP_append_cons_of_forall_mem hnone _ rfl, hrest]
      rfl

/-- A summary with readable names gives back what its edges draw. -/
theorem read?_renderBy {diagram : Diagram} (hboxes : diagram.boxes ≠ [])
    (hedges : diagram.edges ≠ []) (hreadable : ∀ edge ∈ diagram.edges, IsReadable (drawn edge)) :
    read? (renderBy width diagram) = some (diagram.edges.map drawn) := by
  let writtenEdge := fun edge =>
    written (column width diagram.edges - nameWidth width edge) (drawn edge)
  have hlines : diagram.edges.flatMap (line width (column width diagram.edges)) =
      (diagram.edges.map writtenEdge).flatMap (· ++ ['\n']) := by
    rw [List.flatMap_map]
    exact List.flatMap_congr fun edge _ => line_eq _ edge
  have hnewline : ∀ l ∈ diagram.edges.map writtenEdge, '\n' ∉ l := by
    intro l hl
    obtain ⟨edge, hedge, rfl⟩ := List.mem_map.mp hl
    exact (hreadable edge hedge).newline_notMem_written _
  rw [read?, renderBy_eq width hboxes hedges, String.toList_ofList, hlines,
    splitOn_lines hnewline, List.dropLast_concat, List.mapM_map]
  exact mapM_eq_some fun edge hedge => (hreadable edge hedge).readLine?_written _

example : read? "Dog     --[inheritance]--> Animal\nTerrier --[inheritance]--> Dog\n" =
    some [⟨"Dog", "Animal", .inheritance⟩, ⟨"Terrier", "Dog", .inheritance⟩] := by
  decide +kernel

/-! ## Batches -/

/-- If all relationships can be drawn, the edges draw them in order. -/
theorem map_drawn_edges {model : Model} {placed : Array Box} {relationships : List Relationship}
    (hplaced : ∀ relationship ∈ relationships, Grid.IsPlaced model placed relationship)
    (number : Nat) : (Grid.edges model placed number relationships).map drawn = relationships := by
  induction relationships generalizing number with
  | nil => rfl
  | cons relationship rest ih =>
      obtain ⟨source, target, hsource, htarget⟩ := hplaced relationship List.mem_cons_self
      have hrest := ih (fun other hother => hplaced other (List.mem_cons_of_mem _ hother))
      rw [Grid.edges_of_isPlaced hsource htarget, List.map_cons, hrest]
      rfl

/-- The classes of a batch are named by identifiers. -/
theorem isIdentifier_of_mem_names {limits : BatchSettings} {files : List SourceFile} {name : String}
    (hname : name ∈ (Batch.modelOf (Batch.accepted (Batch.outcomes limits [] files))).names) :
    IsIdentifier name.toList := by
  have hnonempty := (Model.consistent_modelOf _).names_nonempty name hname
  rw [Batch.names_modelOf] at hname
  obtain ⟨a, ha, rfl⟩ := List.mem_map.mp hname
  rw [Batch.record_of_mem_accepted ha] at hnonempty ⊢
  obtain ⟨d, hfind, hd⟩ := Batch.exists_declaration_of_extract hnonempty
  exact hd ▸ (Declaration.exists_find?_iff.mp ⟨d, hfind, rfl, rfl⟩).2.1

theorem IsReadable.of_isIdentifier {relationship : Relationship}
    (hsource : IsIdentifier relationship.source.toList)
    (htarget : IsIdentifier relationship.target.toList) : IsReadable relationship where
  source_ne c hc := by
    have hword := hsource.isWord c hc
    exact ⟨by rintro rfl; exact absurd hword (by decide),
      by rintro rfl; exact absurd hword (by decide)⟩
  target_ne c hc := by
    have hword := htarget.isWord c hc
    rintro rfl
    exact absurd hword (by decide)

theorem isReadable_of_assemble {limits : BatchSettings} {files : List SourceFile}
    {assembly : Assembly} (hassemble : assemble limits files = .ok assembly)
    {relationship : Relationship} (hmem : relationship ∈ assembly.model.relationships.toList) :
    IsReadable relationship := by
  have hjoins := (Model.Consistent.of_assemble hassemble).joins relationship hmem
  obtain rfl := Batch.eq_of_assemble hassemble
  exact .of_isIdentifier (isIdentifier_of_mem_names hjoins.1) (isIdentifier_of_mem_names hjoins.2)

/-- A summary has a line for each edge, in order: the name in front is padded up to the column,
which no name exceeds and one name fills, however names are measured. The summary of a batch with
relationships is read back line by line: each name ends where the first blank or the line does, and
each kind stands between the marks. -/
theorem renderBy_isAligned_and_isRead :
    (∀ (width : List Char → Nat) (diagram : Diagram), diagram.boxes ≠ [] → diagram.edges ≠ [] →
      renderBy width diagram = String.join (diagram.edges.map fun edge =>
        piece edge (column width diagram.edges - nameWidth width edge)) ∧
      (∃ edge ∈ diagram.edges, nameWidth width edge = column width diagram.edges) ∧
      ∀ edge ∈ diagram.edges, nameWidth width edge ≤ column width diagram.edges ∧
        nameWidth width edge + (column width diagram.edges - nameWidth width edge) =
          column width diagram.edges) ∧
    ∀ (settings : LayoutSettings) (limits : BatchSettings) (files : List SourceFile)
      (assembly : Assembly), settings.validate = .ok () → assemble limits files = .ok assembly →
      assembly.model.relationships.toList ≠ [] →
      ∃ diagram, layout settings assembly.model = .ok diagram ∧
        diagram.boxes ≠ [] ∧ diagram.edges ≠ [] ∧
        (∀ style, generate settings .summary style assembly.model =
          .ok (renderBy displayWidth diagram)) ∧
        ∀ width, read? (renderBy width diagram) = some assembly.model.relationships.toList := by
  constructor
  · intro width diagram hboxes hedges
    refine ⟨?_, exists_nameWidth_eq_column width hedges, fun edge hedge => ?_⟩
    · rw [renderBy_eq width hboxes hedges, ofList_flatMap_line]
    · have hle := nameWidth_le_column width hedge
      exact ⟨hle, Nat.add_sub_of_le hle⟩
  · intro settings limits files assembly hsettings hassemble hsome
    have hmodel := Model.Consistent.of_assemble hassemble
    obtain ⟨diagram, hlayout, hboxes, hedges, hplaced⟩ :=
      Grid.exists_layout_placed hsettings hmodel
    have hdrawn : diagram.edges.map drawn = assembly.model.relationships.toList := by
      rw [hedges, map_drawn_edges hplaced]
    have hreadable : ∀ edge ∈ diagram.edges, IsReadable (drawn edge) := by
      intro edge hedge
      exact isReadable_of_assemble hassemble (hdrawn ▸ List.mem_map_of_mem hedge)
    have hsomeEdge : diagram.edges ≠ [] := by
      intro hnone
      exact hsome (by rw [← hdrawn, hnone, List.map_nil])
    -- An end of a relationship is a class, and so there is a box.
    have hsomeBox : diagram.boxes ≠ [] := by
      intro hnone
      obtain ⟨relationship, hmem⟩ := List.exists_mem_of_ne_nil _ hsome
      obtain ⟨source, _, hsource, _⟩ := hplaced relationship hmem
      have hbox := Grid.mem_of_boxOf? hsource
      rw [hnone] at hbox
      exact absurd hbox (by simp)
    refine ⟨diagram, hlayout, hsomeBox, hsomeEdge, fun style => ?_, fun width => ?_⟩
    · rw [generate, hlayout]
      rfl
    · rw [read?_renderBy hsomeBox hsomeEdge hreadable, hdrawn]

/-- Two names of different widths in front. -/
theorem renderBy_isAligned_and_isRead_terrier :
    let files : List SourceFile := [⟨"Dog.java", .loaded "class Dog extends Animal { }", none⟩,
      ⟨"Animal.java", .loaded "class Animal { }", none⟩,
      ⟨"Terrier.java", .loaded "class Terrier extends Dog { }", none⟩]
    LayoutSettings.default.validate = .ok () ∧ ∃ assembly diagram,
      assemble .default files = .ok assembly ∧
      layout .default assembly.model = .ok diagram ∧
      diagram.boxes ≠ [] ∧ diagram.edges ≠ [] ∧
      (∃ edge ∈ diagram.edges, nameWidth displayWidth edge = column displayWidth diagram.edges) ∧
      read? (renderBy displayWidth diagram) =
        some [⟨"Dog", "Animal", .inheritance⟩, ⟨"Terrier", "Dog", .inheritance⟩] := by
  intro files
  have hlimits : BatchSettings.default.validate = .ok () := by decide
  have hsettings : LayoutSettings.default.validate = .ok () := rfl
  have hrelationships :
      (Batch.modelOf (Batch.accepted (Batch.outcomes .default [] files))).relationships.toList =
        [⟨"Dog", "Animal", .inheritance⟩, ⟨"Terrier", "Dog", .inheritance⟩] := by
    rw [Batch.relationships_modelOf]
    decide +kernel
  have hassemble := Batch.assemble_eq_ok hlimits files
  obtain ⟨diagram, hlayout, hboxes, hedges, _, hread⟩ :=
    renderBy_isAligned_and_isRead.2 .default .default files _ hsettings hassemble
      (by rw [hrelationships]; exact List.cons_ne_nil _ _)
  have haligned := renderBy_isAligned_and_isRead.1 displayWidth diagram hboxes hedges
  refine ⟨hsettings, _, diagram, hassemble, hlayout, hboxes, hedges, haligned.2.1, ?_⟩
  rw [hread, hrelationships]

end ClassDiagram.Summary
