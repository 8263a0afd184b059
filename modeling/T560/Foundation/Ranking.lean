import Mathlib.Data.List.Nodup
import Mathlib.Data.List.Perm.Subperm

/-!
# The first of a ranking

A stable sort puts one element before another when the order does, and where the order does not
tell, when it stood there before. The first `n` of the sorted list are exactly those with a
property when there are at most `n` of them, and the others, if any, come behind `n` of them.
-/

namespace Ranking

variable {α : Type} {a b : α} {l : List α} {le : α → α → Bool}

/-- Where a stable sort by `le` puts `a` before `b`. -/
def RanksBefore (le : α → α → Bool) (l : List α) (a b : α) : Prop :=
  le a b = true ∧ (le b a = true → [a, b].Sublist l)

theorem pair_sublist_cons {x : α} (ha : a ∈ l) : [x, a].Sublist (x :: l) :=
  (List.singleton_sublist.mpr ha).cons_cons x

theorem pair_sublist_or (ha : a ∈ l) (hb : b ∈ l) (hne : a ≠ b) :
    [a, b].Sublist l ∨ [b, a].Sublist l := by
  induction l with
  | nil => cases ha
  | cons x l ih =>
    rcases List.mem_cons.mp ha with hax | ha' <;> rcases List.mem_cons.mp hb with hbx | hb'
    · exact (hne (hax.trans hbx.symm)).elim
    · rw [hax]
      exact .inl (pair_sublist_cons hb')
    · rw [hbx]
      exact .inr (pair_sublist_cons ha')
    · rcases ih ha' hb' with h | h
      · exact .inl (h.cons x)
      · exact .inr (h.cons x)

theorem pair_sublist_asymm (hnd : l.Nodup) (h : [a, b].Sublist l) : ¬ [b, a].Sublist l := by
  intro g
  induction l with
  | nil => cases h
  | cons x l ih =>
    obtain ⟨hx, hl⟩ := List.nodup_cons.mp hnd
    cases h with
    | cons _ h =>
      cases g with
      | cons _ g => exact ih hl h g
      | cons_cons _ g => exact hx (h.subset (by simp))
    | cons_cons _ h =>
      cases g with
      | cons _ g => exact hx (g.subset (by simp))
      | cons_cons _ g => exact hx (List.singleton_sublist.mp g)

/-- When no element without the property stands before one with it, those with it come first. -/
theorem filter_append_filter {p : α → Bool} {s : List α}
    (h : ∀ a b, [a, b].Sublist s → p b = true → p a = true) :
    s.filter p ++ s.filter (fun a => !p a) = s := by
  induction s with
  | nil => rfl
  | cons x s ih =>
    have hs := ih fun a b hab => h a b (hab.cons x)
    by_cases hx : p x = true
    · simp [hx, hs]
    · have hnone : ∀ b ∈ s, p b = false := by
        intro b hb
        by_contra hp
        exact hx (h x b (pair_sublist_cons hb) (by simpa using hp))
      have hfirst : s.filter p = [] := List.filter_eq_nil_iff.mpr (by simpa using hnone)
      have hrest : s.filter (fun a => !p a) = s := List.filter_eq_self.mpr (by simpa using hnone)
      simp [hx, hfirst, hrest]

section Sorted
variable (trans : ∀ a b c, le a b = true → le b c = true → le a c = true)
  (total : ∀ a b, (le a b || le b a) = true)
include trans total

theorem le_of_sublist_mergeSort (h : [a, b].Sublist (l.mergeSort le)) : le a b = true := by
  have := (List.pairwise_mergeSort trans total l).sublist h
  simpa using this

theorem sublist_mergeSort_iff (hnd : l.Nodup) (ha : a ∈ l) (hb : b ∈ l) (hne : a ≠ b) :
    [a, b].Sublist (l.mergeSort le) ↔ RanksBefore le l a b := by
  have hsnd : (l.mergeSort le).Nodup := (List.mergeSort_perm l le).nodup_iff.mpr hnd
  constructor
  · intro h
    refine ⟨le_of_sublist_mergeSort trans total h, fun hba => ?_⟩
    rcases pair_sublist_or ha hb hne with hab | hab
    · exact hab
    · -- The sort would have kept them the other way round.
      exact (pair_sublist_asymm hsnd h (List.pair_sublist_mergeSort trans total hba hab)).elim
  · rintro ⟨hab, hstable⟩
    have hmem : ∀ {x}, x ∈ l → x ∈ l.mergeSort le := fun h => List.mem_mergeSort.mpr h
    rcases pair_sublist_or (hmem ha) (hmem hb) hne with h | h
    · exact h
    · exact List.pair_sublist_mergeSort trans total hab
        (hstable (le_of_sublist_mergeSort trans total h))

/-- The first `n` of a ranking are those with the property. -/
theorem mem_take_mergeSort_iff (hnd : l.Nodup) (p : α → Bool) (n : Nat) :
    (∀ a ∈ l, a ∈ (l.mergeSort le).take n ↔ p a = true) ↔
      (l.filter p).length ≤ n ∧ ∀ b ∈ l, p b = false →
        (l.filter p).length = n ∧ ∀ a ∈ l, p a = true → RanksBefore le l a b := by
  have hperm := List.mergeSort_perm l le
  have hsnd : (l.mergeSort le).Nodup := hperm.nodup_iff.mpr hnd
  have hmem : ∀ {x}, x ∈ l.mergeSort le ↔ x ∈ l := List.mem_mergeSort
  have hcount : (l.filter p).length = ((l.mergeSort le).filter p).length :=
    (hperm.symm.filter p).length_eq
  have hpairs : ∀ a ∈ l, ∀ b ∈ l, p a = true → p b = false →
      ([a, b].Sublist (l.mergeSort le) ↔ RanksBefore le l a b) := by
    intro a ha b hb hpa hpb
    refine sublist_mergeSort_iff trans total hnd ha hb ?_
    rintro rfl
    rw [hpa] at hpb
    cases hpb
  generalize l.mergeSort le = s at hperm hsnd hmem hcount hpairs ⊢
  rw [hcount]
  constructor
  · intro h
    have htake : ((s.take n).filter p) = s.take n :=
      List.filter_eq_self.mpr fun a ha => (h a (hmem.mp (List.mem_of_mem_take ha))).mp ha
    have hdrop : (s.drop n).filter p = [] := by
      refine List.filter_eq_nil_iff.mpr fun a ha hpa => ?_
      have hin := (h a (hmem.mp (List.mem_of_mem_drop ha))).mpr hpa
      exact List.disjoint_take_drop hsnd (Nat.le_refl n) hin ha
    have hfilter : s.filter p = s.take n := by
      conv_lhs => rw [← List.take_append_drop n s, List.filter_append, htake, hdrop,
        List.append_nil]
    rw [hfilter]
    refine ⟨List.length_take_le n s, fun b hb hpb => ?_⟩
    have hbdrop : b ∈ s.drop n := by
      have hbs := hmem.mpr hb
      rw [← List.take_append_drop n s] at hbs
      rcases List.mem_append.mp hbs with hin | hin
      · rw [(h b hb).mp hin] at hpb
        cases hpb
      · exact hin
    constructor
    · rw [List.length_take]
      have := List.length_pos_of_mem hbdrop
      rw [List.length_drop] at this
      omega
    · intro a ha hpa
      rw [← hpairs a ha b hb hpa hpb, ← List.take_append_drop n s]
      exact (List.singleton_sublist.mpr ((h a ha).mpr hpa)).append
        (List.singleton_sublist.mpr hbdrop)
  · rintro ⟨hle, hothers⟩
    have hfirst : s.filter p ++ s.filter (fun a => !p a) = s := by
      apply filter_append_filter
      intro a b hab hpb
      by_contra hpa
      have ha := hmem.mp (hab.subset (by simp : a ∈ [a, b]))
      have hb := hmem.mp (hab.subset (by simp : b ∈ [a, b]))
      have hpa' : p a = false := by simpa using hpa
      have hba := (hpairs b hb a ha hpb hpa').mpr ((hothers a ha hpa').2 b hb hpb)
      exact pair_sublist_asymm hsnd hab hba
    have htake : s.take n = s.filter p := by
      by_cases hall : ∀ b ∈ s, p b = true
      · have hs : s.filter p = s := List.filter_eq_self.mpr hall
        rw [hs] at hle ⊢
        exact List.take_of_length_le hle
      · push Not at hall
        obtain ⟨b, hb, hpb⟩ := hall
        have hn := (hothers b (hmem.mp hb) (by simpa using hpb)).1
        rw [← hfirst, ← hn, List.take_left, hfirst]
    intro a ha
    rw [htake, List.mem_filter]
    exact ⟨fun h => h.2, fun h => ⟨hmem.mpr ha, h⟩⟩

end Sorted

end Ranking
