import ClassDiagram.Proofs.Json.Diagram
import ClassDiagram.Proofs.Layout.Grid

/-!
# Payloads of layouts

The numbers of a layout are measures of its settings, or wrapped to 64 bits. So whatever overflows,
the JSON text of a model is read back as the layout it was written from.
-/

namespace ClassDiagram

namespace Grid

theorem fits_of_mem_rows {kind : RowKind} {stem : String} {number top height : Nat}
    (htop : top < UInt64.size) (hheight : height < UInt64.size) {signatures : List String}
    {row : Row} (h : row ∈ rows kind stem number top height signatures) : row.Fits := by
  induction signatures generalizing number top with
  | nil => exact absurd h List.not_mem_nil
  | cons signature rest ih =>
      rcases List.mem_cons.mp h with rfl | hrest
      · exact ⟨htop, hheight⟩
      · exact ih (Size.wrap_lt _) hrest

theorem fits_box (settings : LayoutSettings) (position : Nat) (record : ClassRecord) :
    (box settings position record).Fits where
  x := Size.wrap_lt _
  y := Size.wrap_lt _
  width := settings.boxWidth.isLt
  height := Size.wrap_lt _
  headerHeight := settings.headerHeight.isLt
  rows := by
    intro row hrow
    rcases List.mem_append.mp hrow with hattribute | hmethod
    · exact fits_of_mem_rows settings.headerHeight.isLt settings.memberHeight.isLt hattribute
    · exact fits_of_mem_rows (Size.wrap_lt _) settings.memberHeight.isLt hmethod
  separator := by
    intro separator hseparator
    rw [box] at hseparator
    split at hseparator
    next =>
      obtain rfl := Option.some.inj hseparator
      exact ⟨Size.wrap_lt _, settings.separatorHeight.isLt⟩
    next => exact absurd hseparator (Option.not_mem_none _)

theorem fits_ends {source target : Box} (hsource : source.Fits) (htarget : target.Fits) :
    (ends source target).1.Fits ∧ (ends source target).2.Fits := by
  have hwrapped : ∀ box : Box, box.right < UInt64.size ∧ box.bottom < UInt64.size ∧
      box.centerX < UInt64.size ∧ box.middleY < UInt64.size := fun _ =>
    ⟨Size.wrap_lt _, Size.wrap_lt _, Size.wrap_lt _, Size.wrap_lt _⟩
  obtain ⟨hright, hbottom, hcenter, hmiddle⟩ := hwrapped source
  obtain ⟨hright', hbottom', hcenter', hmiddle'⟩ := hwrapped target
  unfold ends
  split
  next => exact ⟨⟨hright, hmiddle⟩, hcenter, hsource.y⟩
  next =>
    split
    next =>
      split
      next => exact ⟨⟨hright, hmiddle⟩, htarget.x, hmiddle'⟩
      next => exact ⟨⟨hsource.x, hmiddle⟩, hright', hmiddle'⟩
    next =>
      split
      next => exact ⟨⟨hcenter, hbottom⟩, hcenter', htarget.y⟩
      next => exact ⟨⟨hcenter, hsource.y⟩, hcenter', hbottom'⟩

end Grid

/-- The layout of a model has no number of more than 64 bits. -/
theorem exists_layout_fits {settings : LayoutSettings} (hsettings : settings.validate = .ok ())
    (model : Model) : ∃ diagram, layout settings model = .ok diagram ∧ diagram.Fits := by
  obtain ⟨diagram, hlayout, hboxes, hedges, hwidth, hheight⟩ := Grid.exists_layout hsettings model
  have hfits : ∀ box ∈ diagram.boxes, box.Fits := by
    intro box hbox
    obtain ⟨i, record, rfl⟩ := Grid.exists_of_mem_boxes (hboxes ▸ hbox)
    exact Grid.fits_box settings i record
  refine ⟨diagram, hlayout, hfits, ?_, ?_, ?_⟩
  · intro edge hedge
    obtain ⟨_, _, source, hsource, target, htarget, rfl⟩ :=
      Grid.exists_of_mem_edges (hedges ▸ hedge)
    obtain ⟨hfirst, hsecond⟩ := Grid.fits_ends (hfits source (List.mem_toArray.mp hsource))
      (hfits target (List.mem_toArray.mp htarget))
    exact ⟨hfirst, hsecond⟩
  · rw [hwidth]
    split
    next => decide
    next => exact Size.wrap_lt _
  · rw [hheight]
    split
    next => decide
    next => exact Size.wrap_lt _

/-- What is written of a model as JSON is read back as its layout, even where numbers overflow. -/
theorem generate_json_isRead {settings : LayoutSettings} (hsettings : settings.validate = .ok ())
    (style : Json.Style) (model : Model) :
    ∃ diagram text, layout settings model = .ok diagram ∧
      generate settings .json style model = .ok text ∧
      (Json.parse text).bind Diagram.ofJson? = some diagram := by
  obtain ⟨diagram, hlayout, hfits⟩ := exists_layout_fits hsettings model
  refine ⟨diagram, OutputFormat.json.render style diagram, hlayout, ?_, ?_⟩
  · rw [generate, hlayout]
    rfl
  · rw [OutputFormat.render, Json.parse_render hfits.plain_toJson style, Option.bind_some,
      hfits.ofJson?_toJson]

end ClassDiagram
