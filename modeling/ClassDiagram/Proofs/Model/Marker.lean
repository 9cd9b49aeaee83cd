import ClassDiagram.Proofs.Text.Extent
import ClassDiagram.Proofs.Text.Normal
import ClassDiagram.Text.Word
import ClassDiagram.Visibility

/-!
# Markers of visibility

A member keeps its visibility as a marker in front of its text, and is split at that marker again.
Behind a marker the text may start with anything, another marker included. A normalized member is
split as before, so that it is normalized once and for all.
-/

namespace ClassDiagram.Visibility

open Text

theorem ofMarker?_marker (v : Visibility) : ofMarker? v.marker = some v := by
  cases v <;> rfl

theorem ofMarker?_of_isWord {c : Char} (hc : isWord c = true) : ofMarker? c = none := by
  have hmarks : ∀ m ∈ ['+', '-', '#'], isWord m = false := by decide +kernel
  have hne := not_mem_of_apply hmarks hc
  unfold ofMarker?
  grind

theorem split_marker_cons (v : Visibility) (text : List Char) :
    split (v.marker :: text) = (v, trim text) := by
  rw [split, ofMarker?_marker]

/-- Behind a marker, the text of a signature may start with anything. -/
theorem split_marker {text : List Char} (htext : trim text = text) (v : Visibility) :
    split (v.marker :: text) = (v, text) := by
  rw [split_marker_cons, htext]

theorem split_of_isWord {c : Char} {text : List Char} (hc : isWord c = true)
    (htext : trim (c :: text) = c :: text) : split (c :: text) = (privateAccess, c :: text) := by
  rw [split, ofMarker?_of_isWord hc]
  exact congrArg (privateAccess, ·) htext

/-- What is split off has no white space around it. -/
theorem trim_split (signature : List Char) : trim (split signature).2 = (split signature).2 := by
  cases signature with
  | nil => rfl
  | cons c rest =>
      rw [split]
      split
      next => exact trim_trim rest
      next => exact trim_trim (c :: rest)

/-- The space of a glyph is not part of the text behind it. -/
theorem split_glyph {text : List Char} (htext : trim text = text) (v : Visibility) :
    split (v.glyph ++ text) = (v, text) := by
  have hblank : trim ([' '] ++ (text ++ [])) = trim text :=
    trim_blanks_append (by decide) (List.forall_mem_nil _) text
  rw [List.append_nil, htext] at hblank
  rw [glyph, List.cons_append, split_marker_cons, hblank]

theorem split_normalize (signature : List Char) :
    split (normalize signature) = split signature := by
  rw [normalize]
  exact split_glyph (trim_split signature) _

theorem normalize_normalize (signature : List Char) :
    normalize (normalize signature) = normalize signature := by
  rw [normalize, split_normalize]
  rfl

/-- A normalized signature has the visibility and the text of the signature, and is normalized no
further. A marker and a text without white space around it are found again, and stand in the
normalized signature. -/
theorem normalize_isStable :
    (∀ signature, split (normalize signature) = split signature) ∧
      (∀ signature, normalize (normalize signature) = normalize signature) ∧
      ∀ (v : Visibility) {text : List Char}, (∀ c ∈ text.head?, isBlank c = false) →
        (∀ c ∈ text.getLast?, isBlank c = false) →
        split (v.marker :: text) = (v, text) ∧ normalize (v.marker :: text) = v.glyph ++ text := by
  refine ⟨split_normalize, normalize_normalize, fun v text hhead hlast => ?_⟩
  have hsplit := split_marker (trim_eq_self hhead hlast) v
  refine ⟨hsplit, ?_⟩
  rw [normalize, hsplit]

theorem normalize_isStable_twoMarkers :
    (∀ c ∈ "+ -x".toList.head?, isBlank c = false) ∧
      (∀ c ∈ "+ -x".toList.getLast?, isBlank c = false) ∧
      split "#+ -x".toList = (protectedAccess, "+ -x".toList) ∧
      normalize "#+ -x".toList = "# + -x".toList := by
  have hhead : ∀ c ∈ "+ -x".toList.head?, isBlank c = false := by
    rintro c ⟨⟩
    decide
  have hlast : ∀ c ∈ "+ -x".toList.getLast?, isBlank c = false := by
    rintro c ⟨⟩
    decide
  exact ⟨hhead, hlast, normalize_isStable.2.2 protectedAccess hhead hlast⟩

/-- A marker behind white space is part of the text, and is so in the normalized signature. -/
example : normalize " + x".toList = "- + x".toList ∧
    split "- + x".toList = (privateAccess, "+ x".toList) := by decide

end ClassDiagram.Visibility
