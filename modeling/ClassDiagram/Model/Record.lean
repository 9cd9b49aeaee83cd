/-!
# Class records

What a diagram keeps of a class: its name and its members as text, in the order of the source.
-/

namespace ClassDiagram

/-- A recognized class. Members may start with a visibility marker. -/
structure ClassRecord where
  name : String
  attributes : List String
  methods : List String
deriving DecidableEq

namespace ClassRecord

/-- The record of a source in which no class is recognized. -/
def unnamed : ClassRecord := ⟨"", [], []⟩

/-- A record with a name can take part in a diagram. -/
def isUsable (record : ClassRecord) : Bool := record.name ≠ ""

end ClassRecord

end ClassDiagram
