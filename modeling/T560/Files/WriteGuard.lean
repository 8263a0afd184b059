import T560.Files.Regions

/-!
# The write guard

The guard compares what two contents keep outside of their ranges, as one text each. Both texts are
contents themselves, with the same regions and nothing in their ranges, and a content has one
layout, so equal texts have the same pieces at the same places.
-/

namespace T560.Files

open Js Occurrence

variable {existing next tail tail' : Units} {rs rs' : List Region}

theorem closed_cleared_eq_iff (h : Closed tail) (h' : Closed tail') :
    projectNonEditableContent (render tail rs) (parseEditableRanges (render tail rs)) =
        projectNonEditableContent (render tail' rs') (parseEditableRanges (render tail' rs')) ↔
      tail = tail' ∧ rs.map Region.lead = rs'.map Region.lead := by
  rw [project_render h, project_render h']
  constructor
  · intro heq
    obtain ⟨htail, hcleared⟩ := render_injective h h' heq
    exact ⟨htail, map_cleared_eq_iff.mp hcleared⟩
  · rintro ⟨rfl, hleads⟩
    rw [map_cleared_eq_iff.mpr hleads]

theorem rangesOf_eq_nil_iff {i : Nat} : rangesOf i rs = [] ↔ rs = [] := by
  rw [← List.length_eq_zero_iff, length_rangesOf, List.length_eq_zero_iff]

theorem write_ok_iff (h : parseEditableRanges existing ≠ []) :
    assertWriteWithinAllowedRanges existing next = .ok () ↔
      parseEditableRanges next ≠ [] ∧
        projectNonEditableContent existing (parseEditableRanges existing) =
          projectNonEditableContent next (parseEditableRanges next) := by
  simp only [assertWriteWithinAllowedRanges, if_neg h]
  split_ifs with hnext hsame
  · simp [hnext]
  · simp [hsame]
  · simpa [hnext] using hsame

/-- The guard accepts a next content of which the layout has the leads and the tail of the existing
one. -/
theorem write_render_iff (h : Closed tail) (h' : Closed tail') (hrs : rs ≠ []) :
    assertWriteWithinAllowedRanges (render tail rs) (render tail' rs') = .ok () ↔
      tail = tail' ∧ rs.map Region.lead = rs'.map Region.lead := by
  have hranges : parseEditableRanges (render tail rs) ≠ [] := by
    rwa [parse_render h, Ne, rangesOf_eq_nil_iff]
  rw [write_ok_iff hranges, closed_cleared_eq_iff h h', parse_render h', Ne, rangesOf_eq_nil_iff]
  constructor
  · exact fun haccept => haccept.2
  · rintro ⟨htail, hleads⟩
    refine ⟨?_, htail, hleads⟩
    rintro rfl
    exact hrs (by simpa using hleads)

/-- The projections alone decide: a content with a region in its projection has one itself. -/
theorem write_ok_iff_project (h : parseEditableRanges existing ≠ []) :
    assertWriteWithinAllowedRanges existing next = .ok () ↔
      projectNonEditableContent existing (parseEditableRanges existing) =
        projectNonEditableContent next (parseEditableRanges next) := by
  obtain ⟨tail, rs, htail, rfl⟩ := exists_render existing
  obtain ⟨tail', rs', htail', rfl⟩ := exists_render next
  have hrs : rs ≠ [] := by
    rwa [parse_render htail, Ne, rangesOf_eq_nil_iff] at h
  rw [write_render_iff htail htail' hrs, closed_cleared_eq_iff htail htail']

/-- The write guard is exact. -/
theorem write_allowed_iff_refill (h : parseEditableRanges existing ≠ []) :
    (assertWriteWithinAllowedRanges existing next = .ok () ↔
      ∃ texts : List Units, texts.length = (parseEditableRanges existing).length ∧
        (∀ text ∈ texts, ¬ EDITABLE_END_MARKER <:+: text) ∧
        next = refill existing 0 (parseEditableRanges existing) texts) ∧
    (assertWriteWithinAllowedRanges existing next = .ok () →
      (parseEditableRanges next).length = (parseEditableRanges existing).length) := by
  obtain ⟨tail, rs, htail, rfl⟩ := exists_render existing
  obtain ⟨tail', rs', htail', rfl⟩ := exists_render next
  have hrs : rs ≠ [] := by
    rwa [parse_render htail, Ne, rangesOf_eq_nil_iff] at h
  rw [write_render_iff htail htail' hrs, parse_render htail, parse_render htail']
  simp only [length_rangesOf]
  refine ⟨⟨?_, ?_⟩, ?_⟩
  · rintro ⟨rfl, hleads⟩
    have hlength : rs'.length = rs.length := by simpa using (congrArg List.length hleads).symm
    refine ⟨rs'.map Region.text, by simpa using hlength, ?_, ?_⟩
    · intro text htext
      obtain ⟨r, -, rfl⟩ := List.mem_map.mp htext
      exact r.free
    · rw [refill_render (by simpa using hlength), renderWith_texts hleads.symm]
  · rintro ⟨texts, hlength, hfree, hnext⟩
    obtain ⟨filled, hleads, htexts⟩ := exists_withTexts hlength hfree
    rw [refill_render hlength, ← htexts, renderWith_texts hleads] at hnext
    obtain ⟨htails, rfl⟩ := render_injective htail' htail hnext
    exact ⟨htails.symm, hleads.symm⟩
  · rintro ⟨-, hleads⟩
    simpa using (congrArg List.length hleads).symm

/-- A region of one line, of which the line is rewritten. -/
theorem write_allowed_iff_refill_line :
    assertWriteWithinAllowedRanges (units "# T560_EDITABLE_START\nold\n# T560_EDITABLE_END\n")
        (units "# T560_EDITABLE_START\nnew\n# T560_EDITABLE_END\n") = .ok () := by
  refine (write_allowed_iff_refill (by decide)).1.mpr ⟨[units "new\n# "], ?_, ?_, ?_⟩
  · decide
  · decide
  · decide

end T560.Files
