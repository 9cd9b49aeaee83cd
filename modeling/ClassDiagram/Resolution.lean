import ClassDiagram.Declaration
import ClassDiagram.Header
import ClassDiagram.Member.Basic
import ClassDiagram.Model.Relationship

/-!
# Resolution

The relationships that one source declares, from its class to classes that are known. Base
clauses give inheritance and implementation; members that hold another class give association,
and composition where the member constructs its own type. Names that are not known are dropped,
which keeps library types, primitives and type parameters out of a diagram.
-/

namespace ClassDiagram

open Text Source

/-- A relationship that a source may declare: where it is declared, and what it points at. -/
structure Candidate where
  offset : Nat
  target : String
  kind : RelationshipKind
deriving DecidableEq

namespace Candidate

/-- What the listed types of a clause give. The offset is that of the clause. -/
def ofClause (kind : List Char → RelationshipKind) (start : Nat) (clause : HeaderClause) :
    List Candidate :=
  clause.items.map fun item =>
    let name := TypeList.simpleName item
    ⟨start + clause.offset, String.ofList name, kind name⟩

/-- What a holder gives: a composition if it constructs the very type it declares. -/
def ofHolder (holder : Holder) : Candidate where
  offset := holder.offset
  target := holder.type
  kind := if holder.constructed = some holder.type then .composition else .association

end Candidate

namespace Resolution

/-- What a type in a C# base list is taken for. The list does not tell interfaces from classes, so
the naming convention decides: a name that starts with `I` is taken for an interface. -/
def csharpBaseKind (name : List Char) : RelationshipKind :=
  if name.head? = some 'I' then .implementation else .inheritance

/-- What the base clauses of a header give. -/
def ofHeader (language : Language) (skeleton : List Char) (header : Span) : List Candidate :=
  let text := slice skeleton header
  match language with
  | .java => (Header.javaClauses text).flatMap fun clause =>
      let kind : RelationshipKind :=
        if clause.keyword = "extends".toList then .inheritance else .implementation
      Candidate.ofClause (fun _ => kind) header.start clause
  | .csharp => (Header.csharpBases text).toList.flatMap
      (Candidate.ofClause csharpBaseKind header.start)

/-- The members of a body that may hold another class. -/
def holders (language : Language) (skeleton : List Char) (body : Span) : List Holder :=
  match language with
  | .java => Holder.fields language skeleton body
  | .csharp =>
    Holder.autoProperties language skeleton body ++ Holder.fields language skeleton body

/-- Everything a declaration may point at, in the order of the source. -/
def candidates (language : Language) (skeleton : List Char) (d : Declaration) : List Candidate :=
  (ofHeader language skeleton d.header
    ++ (holders language skeleton d.body).map Candidate.ofHolder).mergeSort fun a b =>
      a.offset ≤ b.offset

/-- The relationships of the class `owner` that a skeleton declares; none if the first type in it
has another name. -/
def ofSkeleton (language : Language) (skeleton : List Char) (owner : String)
    (known : String → Bool) : List Relationship :=
  match Declaration.find? language skeleton with
  | none => []
  | some d =>
    if d.name = owner then
      ((candidates language skeleton d).filter fun c => known c.target).map fun c =>
        ⟨owner, c.target, c.kind⟩
    else []

end Resolution

/-- The relationships of the class `owner` that a source declares, with the targets in `known`. -/
def resolve (language : Language) (source : List Char) (owner : String) (known : String → Bool) :
    List Relationship :=
  Resolution.ofSkeleton language (Masked.ofSource source).skeleton owner known

end ClassDiagram
