import T560.Guard.Policy
import T560.Js.AbsolutePath

/-!
# Containment of paths

`isPathInside` asks whether the relative path starts with `..`. On absolute paths in normal form the
second one has to continue the first, and the first component that it adds must not start with two
dots: the check takes a file name like `..data` for a step up.
-/

namespace T560.Guard

open Js (startsWith Path.resolve Path.relative Path.isAbsolute)
open Js.Path (Canonical Component absolute joinParts)

variable {env : GuardEnv} {root target rest : List (List Char)}

/-- The first component starts like a step up. -/
def StartsWithDots (rest : List (List Char)) : Prop :=
  ∃ part more, rest = part :: more ∧ ['.', '.'] <+: part

theorem dots_joinParts (h : Canonical rest) :
    ['.', '.'] <+: joinParts rest ↔ StartsWithDots rest := by
  cases rest with
  | nil =>
    constructor
    · rintro ⟨more, hmore⟩
      cases hmore
    · rintro ⟨part, more, hrest, -⟩
      cases hrest
  | cons part rest =>
    have hpart := h part (List.mem_cons_self ..)
    have hstarts : StartsWithDots (part :: rest) ↔ ['.', '.'] <+: part := by
      constructor
      · rintro ⟨first, more, hrest, hdots⟩
        obtain ⟨rfl, -⟩ := List.cons.inj hrest
        exact hdots
      · exact fun hdots => ⟨part, rest, rfl, hdots⟩
    rw [hstarts]
    cases rest with
    | nil => simp [joinParts]
    | cons next rest =>
      rw [joinParts, List.intercalate_cons_cons]
      obtain ⟨first, chars, rfl⟩ := List.exists_cons_of_ne_nil hpart.ne_nil
      cases chars with
      | nil => simp
      | cons second chars => simp [List.cons_prefix_cons]

theorem isPathInside_iff (hroot : Canonical root) (htarget : Canonical target) :
    isPathInside env (absolute root) (absolute target) = true ↔
      ∃ rest, target = root ++ rest ∧ ¬ StartsWithDots rest := by
  unfold isPathInside
  dsimp only
  rw [Js.Path.resolve_absolute hroot, Js.Path.resolve_absolute htarget]
  have hdots : ∀ s : String, startsWith ".." s = true ↔ ['.', '.'] <+: s.toList := by
    intro s
    unfold startsWith
    rw [List.isPrefixOf_iff_prefix]
    rfl
  constructor
  · intro h
    have hup : ¬ ['.', '.'] <+: (Path.relative env.processCwd (absolute root) (absolute target)).toList := by
      rw [← hdots]
      intro hstarts
      rw [hstarts] at h
      have hempty : Path.relative env.processCwd (absolute root) (absolute target) = "" := by
        simpa using h
      rw [hempty] at hstarts
      exact absurd hstarts (by decide)
    obtain ⟨rest, rfl⟩ := Js.Path.front_of_relative hroot htarget hup
    have hrest : Canonical rest := htarget.sublist (List.sublist_append_right _ _)
    rw [Js.Path.relative_append hroot hrest, String.toList_ofList, dots_joinParts hrest] at hup
    exact ⟨rest, rfl, hup⟩
  · rintro ⟨rest, rfl, hup⟩
    have hrest : Canonical rest := htarget.sublist (List.sublist_append_right _ _)
    have hnot : startsWith ".." (String.ofList (joinParts rest)) = false := by
      rw [← Bool.not_eq_true, hdots, String.toList_ofList, dots_joinParts hrest]
      exact hup
    have hrelative : Path.isAbsolute (String.ofList (joinParts rest)) = false := by
      simpa [Path.isAbsolute] using Js.Path.head?_joinParts hrest.ne_nil_no_slash
    rw [Js.Path.relative_append hroot hrest, hnot, hrelative]
    simp

end T560.Guard
