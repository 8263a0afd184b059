import Mathlib.Data.List.Basic
import Mathlib.Data.List.Infix
import Mathlib.Data.List.Perm.Subperm

/-!
# Words of a text

The words of a text are its maximal runs without separators. A part of a text that ends in no
character of the rest lies in front of the rest, and what is read off the first distinct elements
of a list stands among the first distinct values.
-/

namespace Words

variable {α : Type} {p : α → Bool} {u w tail text : List α}

theorem infix_of_mem_splitOnP (h : w ∈ text.splitOnP p) : w <:+: text := by
  have hfront : ∀ text : List α, ∀ v vs, text.splitOnP p = v :: vs → v <+: text ∧
      ∀ w ∈ vs, w <:+: text := by
    intro text
    induction text with
    | nil =>
      intro v vs h
      obtain ⟨rfl, rfl⟩ := List.cons.inj h
      exact ⟨List.nil_prefix, fun w hw => by cases hw⟩
    | cons x xs ih =>
      intro v vs h
      obtain ⟨u, us, hu⟩ := List.exists_cons_of_ne_nil (List.splitOnP_ne_nil p xs)
      obtain ⟨hpre, hrest⟩ := ih u us hu
      rw [List.splitOnP_cons_eq_if_modifyHead, hu] at h
      split at h
      · -- A separator closes the empty run in front of it.
        obtain ⟨rfl, rfl⟩ := List.cons.inj h
        refine ⟨List.nil_prefix, fun w hw => ?_⟩
        rcases List.mem_cons.mp hw with rfl | hw
        · exact hpre.isInfix.trans (List.suffix_cons x xs).isInfix
        · exact (hrest w hw).trans (List.suffix_cons x xs).isInfix
      · obtain ⟨rfl, rfl⟩ := List.cons.inj h
        exact ⟨List.cons_prefix_cons.mpr ⟨rfl, hpre⟩,
          fun w hw => (hrest w hw).trans (List.suffix_cons x xs).isInfix⟩
  obtain ⟨v, vs, hv⟩ := List.exists_cons_of_ne_nil (List.splitOnP_ne_nil p text)
  obtain ⟨hpre, hrest⟩ := hfront text v vs hv
  rw [hv] at h
  rcases List.mem_cons.mp h with rfl | h
  · exact hpre.isInfix
  · exact hrest w h

theorem no_separator_of_mem_splitOnP (h : w ∈ text.splitOnP p) : ∀ c ∈ w, p c = false := by
  induction text generalizing w with
  | nil =>
    obtain rfl := List.mem_singleton.mp h
    intro c hc
    cases hc
  | cons x xs ih =>
    obtain ⟨u, us, hu⟩ := List.exists_cons_of_ne_nil (List.splitOnP_ne_nil p xs)
    rw [hu] at ih
    rw [List.splitOnP_cons_eq_if_modifyHead, hu] at h
    by_cases hx : p x = true
    · rw [if_pos hx] at h
      rcases List.mem_cons.mp h with rfl | h
      · intro c hc
        cases hc
      · exact ih h
    · rw [if_neg hx] at h
      rcases List.mem_cons.mp h with rfl | h
      · intro c hc
        rcases List.mem_cons.mp hc with rfl | hc
        · exact Bool.eq_false_iff.mpr hx
        · exact ih (List.mem_cons_self ..) c hc
      · exact ih (List.mem_cons_of_mem _ h)

theorem splitOnP_congr {q : α → Bool} (h : ∀ c ∈ text, p c = q c) :
    text.splitOnP p = text.splitOnP q := by
  induction text with
  | nil => rfl
  | cons x xs ih =>
    rw [List.splitOnP_cons_eq_if_modifyHead, List.splitOnP_cons_eq_if_modifyHead,
      h x (List.mem_cons_self ..), ih fun c hc => h c (List.mem_cons_of_mem x hc)]

/-- A part of `w ++ tail` whose last element is not in `tail` is a part of `w`. -/
theorem infix_of_infix_append (h : u <:+: w ++ tail) (hne : u ≠ [])
    (hlast : u.getLast hne ∉ tail) : u <:+: w := by
  obtain ⟨front, back, hsplit⟩ := h
  rw [List.append_eq_append_iff] at hsplit
  rcases hsplit with ⟨rest, hw, -⟩ | ⟨rest, hfront, htail⟩
  · exact ⟨front, rest, hw.symm⟩
  · -- The part reaches into the tail, so its last element lies there or nothing of it does.
    rcases List.eq_nil_or_concat rest with rfl | ⟨init, c, rfl⟩
    · rw [List.append_nil] at hfront
      exact ⟨front, [], by rw [List.append_nil, hfront]⟩
    · have hc : c ∈ tail := by
        rw [htail]
        simp
      have hend : (front ++ u).getLast (by simp [hne]) = c := by
        simp [hfront]
      rw [List.getLast_append_of_ne_nil _ hne] at hend
      exact (hlast (hend ▸ hc)).elim

section Distinct
variable {β : Type} [DecidableEq α] [DecidableEq β] {a : α} {n : Nat} {xs : List α}

theorem nodup_eraseDups (xs : List α) : xs.eraseDups.Nodup := by
  induction hn : xs.length using Nat.strong_induction_on generalizing xs with
  | _ n ih =>
    cases xs with
    | nil => exact List.nodup_nil
    | cons x xs =>
      rw [List.eraseDups_cons]
      refine List.nodup_cons.mpr ⟨?_, ih _ ?_ _ rfl⟩
      · rw [List.mem_eraseDups]
        simp
      · have := List.length_filter_le (fun b => !(b == x)) xs
        rw [← hn, List.length_cons]
        omega

theorem eraseDups_front {front : List α} (h : front <+: xs) : front.eraseDups <+: xs.eraseDups := by
  obtain ⟨back, rfl⟩ := h
  rw [List.eraseDups_append]
  exact List.prefix_append _ _

theorem length_eraseDups_snoc {front : List α} (h : a ∉ front) :
    (front ++ [a]).eraseDups.length = front.eraseDups.length + 1 := by
  have hkeep : [a].removeAll front = [a] := by simp [List.removeAll, h]
  rw [List.eraseDups_append, hkeep, List.length_append]
  rfl

/-- An element is among the first distinct ones when a front with that few of them reaches it. -/
theorem mem_take_eraseDups_iff : a ∈ xs.eraseDups.take n ↔
    ∃ front, front <+: xs ∧ a ∈ front ∧ front.eraseDups.length ≤ n := by
  constructor
  · intro h
    obtain ⟨front, back, rfl, hfresh⟩ :=
      List.eq_append_cons_of_mem (List.mem_eraseDups.mp (List.mem_of_mem_take h))
    have hfront : front ++ [a] <+: front ++ a :: back := ⟨back, by simp⟩
    refine ⟨front ++ [a], hfront, by simp, ?_⟩
    rw [length_eraseDups_snoc hfresh]
    by_contra hlong
    have hpre := eraseDups_front (List.prefix_append front (a :: back))
    have htake : (front ++ a :: back).eraseDups.take n <+: front.eraseDups :=
      List.prefix_of_prefix_length_le (List.take_prefix _ _) hpre (by
        rw [List.length_take]
        omega)
    exact hfresh (List.mem_eraseDups.mp (htake.subset h))
  · rintro ⟨front, hfront, ha, hlength⟩
    have hpre := eraseDups_front hfront
    have hmem : a ∈ front.eraseDups := List.mem_eraseDups.mpr ha
    have htake := List.prefix_take_iff.mpr ⟨hpre, hlength⟩
    exact htake.subset hmem

theorem length_eraseDups_filterMap_le (f : α → Option β) (xs : List α) :
    (xs.filterMap f).eraseDups.length ≤ xs.eraseDups.length := by
  have hsub : (xs.filterMap f).eraseDups ⊆ xs.eraseDups.filterMap f := by
    intro b hb
    obtain ⟨a, ha, hab⟩ := List.mem_filterMap.mp (List.mem_eraseDups.mp hb)
    exact List.mem_filterMap.mpr ⟨a, List.mem_eraseDups.mpr ha, hab⟩
  have hlength := (List.subperm_of_subset (nodup_eraseDups (xs.filterMap f)) hsub).length_le
  exact hlength.trans (List.length_filterMap_le f _)

/-- The value of one of the first distinct elements is one of the first distinct values. -/
theorem mem_take_eraseDups_filterMap {f : α → Option β} {b : β} (h : a ∈ xs.eraseDups.take n)
    (hab : f a = some b) : b ∈ (xs.filterMap f).eraseDups.take n := by
  obtain ⟨front, hfront, ha, hlength⟩ := mem_take_eraseDups_iff.mp h
  refine mem_take_eraseDups_iff.mpr ⟨front.filterMap f, hfront.filterMap f, ?_, ?_⟩
  · exact List.mem_filterMap.mpr ⟨a, ha, hab⟩
  · exact (length_eraseDups_filterMap_le f front).trans hlength

end Distinct

end Words
