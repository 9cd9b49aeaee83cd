/-!
# Relationships

Directed edges between classes, named by what ties the two classes together.
-/

namespace ClassDiagram

/-- What ties two classes together. -/
inductive RelationshipKind
  | inheritance
  | implementation
  | association
  | composition
  | aggregation
deriving DecidableEq

namespace RelationshipKind

/-- The name under which a kind is written and read. -/
def name : RelationshipKind → String
  | inheritance => "inheritance"
  | implementation => "implementation"
  | association => "association"
  | composition => "composition"
  | aggregation => "aggregation"

/-- Every kind, in the order of listings. -/
def all : List RelationshipKind :=
  [inheritance, implementation, association, composition, aggregation]

/-- The kind with a name. -/
def ofName? (name : String) : Option RelationshipKind := all.find? (·.name = name)

/-- Whether the source of the edge is a subtype of its target. -/
def isSubtyping : RelationshipKind → Bool
  | inheritance | implementation => true
  | association | composition | aggregation => false

end RelationshipKind

/-- An edge from one class to another. -/
structure Relationship where
  source : String
  target : String
  kind : RelationshipKind
deriving DecidableEq

end ClassDiagram
