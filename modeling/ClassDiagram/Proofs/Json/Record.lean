import ClassDiagram.Json.Record
import ClassDiagram.Proofs.Text.Cut
import Mathlib.Data.List.Nodup

/-!
# Reading records

What is written of a record, of a list, of an optional part and of a choice is read back, if its
parts are.
-/

namespace ClassDiagram.Json

/-- In an object without repeated names, every field is found by its name. -/
theorem lookup?_of_mem {fields : List (String × Json)} (h : (fields.map Prod.fst).Nodup)
    {field : String × Json} (hfield : field ∈ fields) :
    lookup? fields field.1 = some (some field.2) := by
  have hfilter : fields.filter (·.1 = field.1) = [field] := by
    induction fields with
    | nil => exact absurd hfield List.not_mem_nil
    | cons head rest ih =>
        obtain ⟨hnew, hrest⟩ := List.nodup_cons.mp h
        rcases List.mem_cons.mp hfield with rfl | hmem
        · have hothers : rest.filter (·.1 = field.1) = [] := by
            refine List.filter_eq_nil_iff.mpr fun other hother => ?_
            rw [decide_eq_true_eq]
            exact fun hname => hnew (hname ▸ List.mem_map_of_mem hother)
          rw [List.filter_cons_of_pos (by simp), hothers]
        · have hname : head.1 ≠ field.1 := fun hname => hnew (hname ▸ List.mem_map_of_mem hmem)
          rw [List.filter_cons_of_neg (by simpa using hname), ih hrest hmem]
  rw [lookup?, hfilter]

/-- The fields of a record come back in their order. -/
theorem record?_object {fields : List (String × Json)} {names : List String}
    (hnames : fields.map Prod.fst = names) (h : names.Nodup) (optional : Nat) :
    (object fields).record? names optional = some (fields.map (some ·.2)) := by
  subst hnames
  rw [record?, List.mapM_map]
  exact Text.mapM_eq_some fun field hfield => lookup?_of_mem h hfield

/-- Reading a record goes on with the values of its fields. -/
theorem record?_object_bind {α : Type} {fields : List (String × Json)} {names : List String}
    (hnames : fields.map Prod.fst = names) (h : names.Nodup) (optional : Nat)
    (read : List (Option Json) → Option α) :
    ((object fields).record? names optional >>= read) = read (fields.map (some ·.2)) := by
  rw [record?_object hnames h]
  rfl

@[simp]
theorem text?_string (text : String) : (string text).text? = some text := rfl

theorem nat?_natural {n : Nat} (hn : n < UInt64.size) : (natural n).nat? = some n :=
  congrArg (Option.map Fin.val) (dif_pos hn)

section Items

variable {α : Type} {item? : Json → Option α} {toJson : α → Json}

theorem list?_array {items : List α} (h : ∀ item ∈ items, item? (toJson item) = some item) :
    (array (items.map toJson)).list? item? = some items := by
  rw [list?, List.mapM_map]
  exact (Text.mapM_eq_some (g := id) h).trans (congrArg some (List.map_id items))

/-- A part that is left out is written as null, so no part that is there may be. -/
theorem nullable?_ofOption {item : Option α} (hnull : ∀ x, toJson x ≠ null)
    (h : ∀ x ∈ item, item? (toJson x) = some x) :
    nullable? item? (some (ofOption toJson item)) = some item := by
  cases item with
  | none => rfl
  | some x =>
      rw [ofOption, nullable?, h x rfl]
      · rfl
      · exact hnull x

end Items

/-- A choice among values whose names are distinct is read back from the name. -/
theorem choice?_name {α : Type} {options : List α} {nameOf : α → String}
    (hnames : (options.map nameOf).Nodup) {choice : α} (hchoice : choice ∈ options) :
    (string (nameOf choice)).choice? options nameOf = some choice := by
  change options.find? (nameOf · = nameOf choice) = some choice
  have hfound : (options.find? (nameOf · = nameOf choice)).isSome = true :=
    List.find?_isSome.mpr ⟨choice, hchoice, by simp⟩
  obtain ⟨found, hfound⟩ := Option.isSome_iff_exists.mp hfound
  have hname : nameOf found = nameOf choice := by simpa using List.find?_some hfound
  rw [hfound, List.inj_on_of_nodup_map hnames (List.mem_of_find?_eq_some hfound) hchoice hname]

end ClassDiagram.Json
