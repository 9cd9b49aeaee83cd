import ClassDiagram.Layout.Diagram
import ClassDiagram.Layout.Settings
import ClassDiagram.Model.Basic

/-!
# The grid

Places the classes of a model on a grid, row by row in the order of the model, and joins the boxes
of related classes by straight edges from side to side.
-/

namespace ClassDiagram

namespace Grid

/-- The row of a member. -/
def row (id : String) (kind : RowKind) (signature : String) (y height : Nat) : Row where
  id := id
  kind := kind
  visibility := (Visibility.split signature.toList).1
  text := String.ofList (Visibility.normalize signature.toList)
  y := y
  height := height

/-- The rows of one section, from `top` downwards. Their identifiers are `stem` and a number,
which starts at `number`. -/
def rows (kind : RowKind) (stem : String) (number top height : Nat) : List String → List Row
  | [] => []
  | signature :: rest =>
    row (stem ++ toString number) kind signature top height ::
      rows kind stem (number + 1) (Size.wrap (top + height)) height rest

/-- The identifier of the box at a position. -/
def boxId (position : Nat) : String := "class" ++ toString position

/-- The box of the class at a position: header, attributes, separator and methods from top to
bottom. -/
def box (settings : LayoutSettings) (position : Nat) (record : ClassRecord) : Box :=
  let id := boxId position
  let attributes := record.attributes.length
  let methods := record.methods.length
  let attributesEnd := Size.wrap (settings.headerHeight + attributes * settings.memberHeight)
  let methodsStart := Size.wrap (attributesEnd + settings.separatorBetween attributes methods)
  { id := id
    name := record.name
    x := Size.wrap (settings.margin + position % settings.columns * settings.columnWidth)
    y := Size.wrap (settings.margin + position / settings.columns * settings.rowHeight)
    width := settings.boxWidth
    height := settings.boxHeight attributes methods
    headerHeight := settings.headerHeight
    rows :=
      rows .attributes (id ++ "_attr") 0 settings.headerHeight settings.memberHeight
          record.attributes
        ++ rows .methods (id ++ "_method") 0 methodsStart settings.memberHeight record.methods
    separator :=
      if 0 < attributes ∧ 0 < methods then
        some ⟨id ++ "_separator", attributesEnd, settings.separatorHeight⟩
      else none }

/-- The boxes of classes, the first of them at a position. -/
def boxes (settings : LayoutSettings) (position : Nat) : List ClassRecord → List Box
  | [] => []
  | record :: rest => box settings position record :: boxes settings (position + 1) rest

/-- The ends of an edge between two boxes. Boxes side by side are joined at their facing sides,
others from the bottom of the upper one to the top of the lower one. An edge from a box to itself
leaves at the right and comes back at the top. -/
def ends (source target : Box) : Point × Point :=
  if source.id = target.id then
    (⟨source.right, source.middleY⟩, ⟨source.centerX, source.y⟩)
  else if source.y = target.y then
    if source.x < target.x then (⟨source.right, source.middleY⟩, ⟨target.x, target.middleY⟩)
    else (⟨source.x, source.middleY⟩, ⟨target.right, target.middleY⟩)
  else if source.y < target.y then
    (⟨source.centerX, source.bottom⟩, ⟨target.centerX, target.y⟩)
  else (⟨source.centerX, source.y⟩, ⟨target.centerX, target.bottom⟩)

/-- The edge of the relationship with a number, between two boxes. -/
def edge (number : Nat) (relationship : Relationship) (source target : Box) : Edge where
  id := "rel" ++ toString number
  source := source.id
  target := target.id
  sourceName := relationship.source
  targetName := relationship.target
  kind := relationship.kind
  sourcePoint := (ends source target).1
  targetPoint := (ends source target).2
  arrow := .ofKind relationship.kind

/-- The edges of relationships, the first of them with a number. A relationship is drawn if both
of its ends have a box. -/
def edges (model : Model) (placed : Array Box) (number : Nat) : List Relationship → List Edge
  | [] => []
  | relationship :: rest =>
    let box? := fun name => (model.position? name).bind fun i => placed[i]?
    let others := edges model placed (number + 1) rest
    match box? relationship.source, box? relationship.target with
    | some source, some target => edge number relationship source target :: others
    | _, _ => others

/-- The largest of some numbers, and zero if there are none. -/
def largest (numbers : List Nat) : Nat := numbers.foldl max 0

end Grid

/-- The diagram of a model. Its page leaves a margin around the boxes, and is empty without
boxes. -/
def layout (settings : LayoutSettings) (model : Model) : Except Failure Diagram := do
  settings.validate
  let boxes := Grid.boxes settings 0 model.classes.toList
  let extent := fun sides : List Nat =>
    if boxes.isEmpty then 0 else Size.wrap (Grid.largest sides + settings.margin)
  return {
    boxes := boxes
    edges := Grid.edges model boxes.toArray 0 model.relationships.toList
    width := extent (boxes.map (·.right))
    height := extent (boxes.map (·.bottom)) }

end ClassDiagram
