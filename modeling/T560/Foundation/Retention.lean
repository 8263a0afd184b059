import Mathlib.Data.List.Nodup
import Mathlib.Data.List.Perm.Basic

/-!
# Cutting a ranking

A cut takes elements out of a ranked list, each by what it is and by its place. When everything
from place `n` on is cut, at most `n` elements are kept, and each of them ranks before everything
that is cut for its place alone.
-/

namespace Retention

variable {α : Type} {p : α → Nat → Bool} {s : List α} {a b : α} {n : Nat}

/-- The elements that are cut. -/
def cut (p : α → Nat → Bool) (s : List α) : List α :=
  (s.zipIdx.filter fun x => p x.1 x.2).map Prod.fst

theorem mem_cut_iff : a ∈ cut p s ↔ ∃ i, s[i]? = some a ∧ p a i = true := by
  constructor
  · intro h
    obtain ⟨⟨x, i⟩, hx, rfl⟩ := List.mem_map.mp h
    obtain ⟨hplace, hcut⟩ := List.mem_filter.mp hx
    exact ⟨i, List.mem_zipIdx_iff_getElem?.mp hplace, hcut⟩
  · rintro ⟨i, hplace, hcut⟩
    refine List.mem_map.mpr ⟨(a, i), List.mem_filter.mpr ⟨?_, hcut⟩, rfl⟩
    exact List.mem_zipIdx_iff_getElem?.mpr hplace

theorem cut_sublist : (cut p s).Sublist s := by
  have h := (List.filter_sublist (p := fun x => p x.1 x.2) (l := s.zipIdx)).map Prod.fst
  rwa [List.zipIdx_map_fst] at h

section Kept
variable [DecidableEq α]

/-- The elements that are kept. -/
def kept (p : α → Nat → Bool) (s : List α) : List α := s.filter (· ∉ cut p s)

/-- Taking out some of the elements leaves the number of the others. -/
theorem length_filter_not_mem {out : List α} (hs : s.Nodup) (hout : out.Nodup) (hsub : out ⊆ s) :
    (s.filter (· ∉ out)).length + out.length = s.length := by
  have hperm : (s.filter (· ∈ out)).Perm out := by
    refine (List.perm_ext_iff_of_nodup (hs.filter _) hout).mpr fun x => ?_
    rw [List.mem_filter, decide_eq_true_iff]
    constructor
    · intro h
      exact h.2
    · intro h
      exact ⟨hsub h, h⟩
  have hsplit := List.length_eq_length_filter_add (l := s) fun x => decide (x ∈ out)
  have hleft : s.filter (· ∉ out) = s.filter fun x => !decide (x ∈ out) := by
    refine List.filter_congr fun x _ => ?_
    simp
  rw [hleft, ← hperm.length_eq]
  omega

section Count
variable (hcount : ∀ a i, n ≤ i → p a i = true)
include hcount

theorem length_kept_le : (kept p s).length ≤ n := by
  have hrest : (s.drop n).filter (· ∉ cut p s) = [] := by
    refine List.filter_eq_nil_iff.mpr fun x hx => ?_
    obtain ⟨i, hi⟩ := List.mem_iff_getElem?.mp hx
    rw [List.getElem?_drop] at hi
    have hcut : x ∈ cut p s := mem_cut_iff.mpr ⟨n + i, hi, hcount x _ (by omega)⟩
    simpa using hcut
  have hsplit : kept p s =
      (s.take n).filter (· ∉ cut p s) ++ (s.drop n).filter (· ∉ cut p s) := by
    rw [← List.filter_append, List.take_append_drop]
    rfl
  rw [hsplit, hrest, List.append_nil]
  exact Nat.le_trans (List.length_filter_le _ _) (List.length_take_le n s)

/-- What is kept ranks before what is cut for its place alone. -/
theorem rank_of_kept {R : α → α → Prop} (hs : s.Pairwise R) (ha : a ∈ kept p s) (hb : b ∈ cut p s)
    (hplace : ∀ i, p b i = true → n ≤ i) : R a b := by
  obtain ⟨hmem, hkept⟩ := List.mem_filter.mp ha
  obtain ⟨i, hi⟩ := List.mem_iff_getElem?.mp hmem
  obtain ⟨j, hj, hcut⟩ := mem_cut_iff.mp hb
  have hin : i < n := by
    by_contra hout
    have hacut : a ∈ cut p s := mem_cut_iff.mpr ⟨i, hi, hcount a i (by omega)⟩
    simp [hacut] at hkept
  have hjn := hplace j hcut
  obtain ⟨hilt, rfl⟩ := List.getElem?_eq_some_iff.mp hi
  obtain ⟨hjlt, rfl⟩ := List.getElem?_eq_some_iff.mp hj
  exact List.pairwise_iff_getElem.mp hs i j hilt hjlt (by omega)

end Count

end Kept

end Retention
