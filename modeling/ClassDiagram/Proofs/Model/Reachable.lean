import ClassDiagram.Batch
import ClassDiagram.Proofs.Model.Run

/-!
# The models that there are

A model comes from the empty one by additions, from given parts, from a text that is read, or from
a batch of sources, and it may be added to at any time. Whichever way it was made, it is consistent.
-/

namespace ClassDiagram.Model

/-- A model that the library can make. -/
inductive Reachable : Model → Prop
  | empty : Reachable .empty
  | take {model : Model} (hmodel : Reachable model) (step : Step) : Reachable (model.take step).1
  | assembled {limits : BatchSettings} {files : List SourceFile} {assembly : Assembly}
      (hassemble : assemble limits files = .ok assembly) : Reachable assembly.model

theorem consistent_modelOf (files : List Accepted) : (Batch.modelOf files).Consistent :=
  (Consistent.empty.addClasses _).addRelationships _

/-- What a batch makes is the model of its accepted files. -/
theorem exists_modelOf_of_assemble {limits : BatchSettings} {files : List SourceFile}
    {assembly : Assembly} (hassemble : assemble limits files = .ok assembly) :
    ∃ accepted, assembly.model = Batch.modelOf accepted := by
  rw [assemble] at hassemble
  cases hlimits : limits.validate with
  | error failure =>
      rw [hlimits] at hassemble
      exact absurd hassemble (by simp [bind, Except.bind])
  | ok =>
      rw [hlimits] at hassemble
      obtain rfl := Except.ok.inj hassemble
      exact ⟨_, rfl⟩

theorem Consistent.of_assemble {limits : BatchSettings} {files : List SourceFile}
    {assembly : Assembly} (hassemble : assemble limits files = .ok assembly) :
    assembly.model.Consistent := by
  obtain ⟨accepted, hmodel⟩ := exists_modelOf_of_assemble hassemble
  exact hmodel ▸ consistent_modelOf accepted

theorem Reachable.consistent {model : Model} (hmodel : model.Reachable) : model.Consistent := by
  induction hmodel with
  | empty => exact .empty
  | take _ step ih => exact ih.take step
  | assembled hassemble => exact .of_assemble hassemble

end ClassDiagram.Model
