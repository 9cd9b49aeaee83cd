import ClassDiagram.Output.Format
import ClassDiagram.Proofs.Json.Record
import ClassDiagram.Proofs.Json.RoundTrip

/-!
# Diagrams through JSON

A diagram is read back from its JSON text, in either layout. Nothing is assumed of its texts; its
numbers are the natural numbers of 64 bits.
-/

namespace ClassDiagram

open Json

namespace Point

/-- Both coordinates are numbers of 64 bits. -/
structure Fits (point : Point) : Prop where
  x : point.x < UInt64.size
  y : point.y < UInt64.size

variable {point : Point}

theorem Fits.plain_toJson (h : point.Fits) : point.toJson.Plain := by
  refine .object ?_
  simp only [List.forall_mem_cons]
  exact ⟨.natural h.x, .natural h.y, List.forall_mem_nil _⟩

theorem Fits.ofJson?_toJson (h : point.Fits) : ofJson? point.toJson = some point := by
  refine (record?_object_bind (by rfl) (by decide) 0 _).trans ?_
  simp only [List.map_cons, List.map_nil, Option.bind_eq_bind, Option.bind_some,
    nat?_natural h.x, nat?_natural h.y]

end Point

theorem RowKind.choice?_name (kind : RowKind) :
    (string kind.name).choice? RowKind.all RowKind.name = some kind :=
  Json.choice?_name (by decide) (by cases kind <;> decide)

theorem Visibility.choice?_name (visibility : Visibility) :
    (string visibility.name).choice? Visibility.all Visibility.name = some visibility :=
  Json.choice?_name (by decide) (by cases visibility <;> decide)

theorem Arrow.choice?_name (arrow : Arrow) :
    (string arrow.name).choice? Arrow.all Arrow.name = some arrow :=
  Json.choice?_name (by decide) (by cases arrow <;> decide)

theorem RelationshipKind.ofJson?_name (kind : RelationshipKind) :
    RelationshipKind.ofJson? (string kind.name) = some kind :=
  Json.choice?_name (by decide) (by cases kind <;> decide)

namespace Row

/-- The extent of a row is given by numbers of 64 bits. -/
structure Fits (row : Row) : Prop where
  y : row.y < UInt64.size
  height : row.height < UInt64.size

variable {row : Row}

theorem Fits.plain_toJson (h : row.Fits) : row.toJson.Plain := by
  refine .object ?_
  simp only [List.forall_mem_cons]
  exact ⟨.string _, .string _, .string _, .string _, .natural h.y, .natural h.height,
    List.forall_mem_nil _⟩

theorem Fits.ofJson?_toJson (h : row.Fits) : ofJson? row.toJson = some row := by
  refine (record?_object_bind (by rfl) (by decide) 0 _).trans ?_
  simp only [List.map_cons, List.map_nil, Option.bind_eq_bind, Option.bind_some, text?_string,
    RowKind.choice?_name, Visibility.choice?_name, nat?_natural h.y, nat?_natural h.height]

end Row

namespace Separator

/-- The extent of a separator is given by numbers of 64 bits. -/
structure Fits (separator : Separator) : Prop where
  y : separator.y < UInt64.size
  height : separator.height < UInt64.size

variable {separator : Separator}

theorem Fits.plain_toJson (h : separator.Fits) : separator.toJson.Plain := by
  refine .object ?_
  simp only [List.forall_mem_cons]
  exact ⟨.string _, .natural h.y, .natural h.height, List.forall_mem_nil _⟩

theorem Fits.ofJson?_toJson (h : separator.Fits) : ofJson? separator.toJson = some separator := by
  refine (record?_object_bind (by rfl) (by decide) 0 _).trans ?_
  simp only [List.map_cons, List.map_nil, Option.bind_eq_bind, Option.bind_some, text?_string,
    nat?_natural h.y, nat?_natural h.height]

end Separator

namespace Box

/-- A box and all its parts are placed with numbers of 64 bits. -/
structure Fits (box : Box) : Prop where
  x : box.x < UInt64.size
  y : box.y < UInt64.size
  width : box.width < UInt64.size
  height : box.height < UInt64.size
  headerHeight : box.headerHeight < UInt64.size
  rows : ∀ row ∈ box.rows, row.Fits
  separator : ∀ separator ∈ box.separator, separator.Fits

variable {box : Box}

theorem Fits.plain_toJson (h : box.Fits) : box.toJson.Plain := by
  have hrows : (array (box.rows.map Row.toJson)).Plain :=
    .array (List.forall_mem_map.mpr fun row hrow => (h.rows row hrow).plain_toJson)
  have hseparator : (ofOption Separator.toJson box.separator).Plain := by
    cases hpresent : box.separator with
    | none => exact .null
    | some separator => exact (h.separator separator hpresent).plain_toJson
  refine .object ?_
  simp only [List.forall_mem_cons]
  exact ⟨.string _, .string _, .natural h.x, .natural h.y, .natural h.width, .natural h.height,
    .natural h.headerHeight, hrows, hseparator, List.forall_mem_nil _⟩

theorem Fits.ofJson?_toJson (h : box.Fits) : ofJson? box.toJson = some box := by
  have hrows : (array (box.rows.map Row.toJson)).list? Row.ofJson? = some box.rows :=
    list?_array fun row hrow => (h.rows row hrow).ofJson?_toJson
  have hseparator : nullable? Separator.ofJson? (some (ofOption Separator.toJson box.separator)) =
      some box.separator :=
    nullable?_ofOption (fun _ => Json.noConfusion) fun separator hpresent =>
      (h.separator separator hpresent).ofJson?_toJson
  refine (record?_object_bind (by rfl) (by decide) 0 _).trans ?_
  simp only [List.map_cons, List.map_nil, Option.bind_eq_bind, Option.bind_some, text?_string,
    nat?_natural h.x, nat?_natural h.y, nat?_natural h.width, nat?_natural h.height,
    nat?_natural h.headerHeight, hrows, hseparator]

end Box

namespace Edge

/-- An edge is placed with numbers of 64 bits. -/
structure Fits (edge : Edge) : Prop where
  sourcePoint : edge.sourcePoint.Fits
  targetPoint : edge.targetPoint.Fits

variable {edge : Edge}

theorem Fits.plain_toJson (h : edge.Fits) : edge.toJson.Plain := by
  refine .object ?_
  simp only [List.forall_mem_cons]
  exact ⟨.string _, .string _, .string _, .string _, .string _, .string _,
    h.sourcePoint.plain_toJson, h.targetPoint.plain_toJson, .string _,
    List.forall_mem_nil _⟩

theorem Fits.ofJson?_toJson (h : edge.Fits) : ofJson? edge.toJson = some edge := by
  refine (record?_object_bind (by rfl) (by decide) 0 _).trans ?_
  simp only [List.map_cons, List.map_nil, Option.bind_eq_bind, Option.bind_some, text?_string,
    RelationshipKind.ofJson?_name, h.sourcePoint.ofJson?_toJson, h.targetPoint.ofJson?_toJson,
    Arrow.choice?_name]

end Edge

namespace Diagram

/-- All numbers in a diagram are numbers of 64 bits. -/
structure Fits (diagram : Diagram) : Prop where
  boxes : ∀ box ∈ diagram.boxes, box.Fits
  edges : ∀ edge ∈ diagram.edges, edge.Fits
  width : diagram.width < UInt64.size
  height : diagram.height < UInt64.size

variable {diagram : Diagram}

theorem Fits.plain_toJson (h : diagram.Fits) : diagram.toJson.Plain := by
  have hboxes : (array (diagram.boxes.map Box.toJson)).Plain :=
    .array (List.forall_mem_map.mpr fun box hbox => (h.boxes box hbox).plain_toJson)
  have hedges : (array (diagram.edges.map Edge.toJson)).Plain :=
    .array (List.forall_mem_map.mpr fun edge hedge => (h.edges edge hedge).plain_toJson)
  refine .object ?_
  simp only [List.forall_mem_cons]
  exact ⟨hboxes, hedges, .natural h.width, .natural h.height, List.forall_mem_nil _⟩

theorem Fits.ofJson?_toJson (h : diagram.Fits) : ofJson? diagram.toJson = some diagram := by
  have hboxes : (array (diagram.boxes.map Box.toJson)).list? Box.ofJson? = some diagram.boxes :=
    list?_array fun box hbox => (h.boxes box hbox).ofJson?_toJson
  have hedges : (array (diagram.edges.map Edge.toJson)).list? Edge.ofJson? =
      some diagram.edges :=
    list?_array fun edge hedge => (h.edges edge hedge).ofJson?_toJson
  refine (record?_object_bind (by rfl) (by decide) 0 _).trans ?_
  simp only [List.map_cons, List.map_nil, Option.bind_eq_bind, Option.bind_some,
    nat?_natural h.width, nat?_natural h.height, hboxes, hedges]

/-- The JSON text of a diagram, in either layout, is read back as the diagram, and whatever is read
from it is written in every format as the diagram is. The compact layout is one line. -/
theorem read_render_json (h : diagram.Fits) :
    (∀ style, (Json.parse (OutputFormat.json.render style diagram)).bind ofJson? = some diagram) ∧
      '\n' ∉ (OutputFormat.json.render .compact diagram).toList ∧
      ∀ style read,
        (Json.parse (OutputFormat.json.render style diagram)).bind ofJson? = some read →
        ∀ (format : OutputFormat) (style : Style),
          format.render style read = format.render style diagram := by
  have hplain := h.plain_toJson
  have hread : ∀ style, (Json.parse (OutputFormat.json.render style diagram)).bind ofJson? =
      some diagram := by
    intro style
    rw [OutputFormat.render, parse_render hplain style, Option.bind_some, h.ofJson?_toJson]
  refine ⟨hread, newline_not_mem_render hplain, fun style read hsame format _ => ?_⟩
  rw [hread style, Option.some.injEq] at hsame
  rw [hsame]

/-- A diagram at the limits: the largest numbers, an empty text, and texts of quotes, backslashes,
control characters and characters beyond the basic plane; a box with a separator and one without
rows. -/
def extreme : Diagram where
  boxes := [
    ⟨"class0", "\"\\/", 18446744073709551615, 0, 1, 10, 100,
      [⟨"class0_attr0", .attributes, .protectedAccess, "# a\x01\x1f: b\n", 26, 26⟩,
        ⟨"class0_method0", .methods, .publicAccess, "", 60, 18446744073709551615⟩],
      some ⟨"class0_separator", 52, 8⟩⟩,
    ⟨"class1", "\x7f\u2028😀\x00", 0, 18446744073709551615, 200, 26, 26, [], none⟩]
  edges := [⟨"rel0", "class0", "class1", "\"\\/", "\x7f\u2028😀\x00", .aggregation,
    ⟨18446744073709551615, 5⟩, ⟨0, 9⟩, .line⟩]
  width := 18446744073709551615
  height := 0

theorem read_render_json_extreme :
    (∀ style, (Json.parse (OutputFormat.json.render style extreme)).bind ofJson? = some extreme) ∧
      '\n' ∉ (OutputFormat.json.render .compact extreme).toList := by
  have hfits : extreme.Fits := by
    refine ⟨?boxes, ?edges, by decide, by decide⟩
    case boxes =>
      simp only [extreme, List.forall_mem_cons]
      refine ⟨⟨by decide, by decide, by decide, by decide, by decide, ?rows, ?separator⟩,
        ⟨by decide, by decide, by decide, by decide, by decide, by simp, by simp⟩,
        List.forall_mem_nil _⟩
      case rows =>
        simp only [List.forall_mem_cons]
        exact ⟨⟨by decide, by decide⟩, ⟨by decide, by decide⟩, List.forall_mem_nil _⟩
      case separator =>
        rintro _ ⟨⟩
        exact ⟨by decide, by decide⟩
    case edges =>
      simp only [extreme, List.forall_mem_cons]
      exact ⟨⟨⟨by decide, by decide⟩, ⟨by decide, by decide⟩⟩, List.forall_mem_nil _⟩
  exact ⟨(read_render_json hfits).1, (read_render_json hfits).2.1⟩

end Diagram

end ClassDiagram
