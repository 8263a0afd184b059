import Mathlib.Data.List.Basic
import Mathlib.Data.List.Perm.Basic

/-!
# Choices that do not depend on the order

One element is taken from a list: the only one, the first with a property that at most one has,
or the best of a ranking when it is ahead of all the others.
-/

namespace Choice

variable {α : Type} {a : α} {l l' : List α} {p : α → Bool}

/-- The element of a list that has just one. -/
def only : List α → Option α
  | [a] => some a
  | _ => none

theorem only_eq_some_iff : only l = some a ↔ l = [a] := by
  constructor
  · intro h
    unfold only at h
    split at h
    · rw [Option.some.inj h]
    · cases h
  · rintro rfl
    rfl

theorem only_perm (h : l.Perm l') : only l = only l' := by
  have hall : ∀ a, only l = some a ↔ only l' = some a := by
    intro a
    rw [only_eq_some_iff, only_eq_some_iff]
    constructor
    · rintro rfl
      exact List.singleton_perm.mp h |>.symm
    · rintro rfl
      exact List.perm_singleton.mp h
  exact Option.ext hall

theorem mem_of_only_filter (h : only (l.filter p) = some a) : a ∈ l := by
  have hmem : a ∈ l.filter p := by
    rw [only_eq_some_iff.mp h]
    exact List.mem_singleton_self a
  exact List.mem_of_mem_filter hmem

theorem find?_eq_some_iff_of_unique (hone : ∀ a ∈ l, ∀ b ∈ l, p a = true → p b = true → a = b) :
    l.find? p = some a ↔ a ∈ l ∧ p a = true := by
  constructor
  · intro h
    exact ⟨List.mem_of_find?_eq_some h, List.find?_some h⟩
  · rintro ⟨ha, hpa⟩
    cases h : l.find? p with
    | none => exact absurd hpa (List.find?_eq_none.mp h a ha)
    | some b =>
      rw [hone a ha b (List.mem_of_find?_eq_some h) hpa (List.find?_some h)]

theorem find?_perm (hperm : l.Perm l')
    (hone : ∀ a ∈ l, ∀ b ∈ l, p a = true → p b = true → a = b) : l.find? p = l'.find? p := by
  have hone' : ∀ a ∈ l', ∀ b ∈ l', p a = true → p b = true → a = b := by
    intro a ha b hb
    exact hone a (hperm.mem_iff.mpr ha) b (hperm.mem_iff.mpr hb)
  apply Option.ext
  intro a
  rw [find?_eq_some_iff_of_unique hone, find?_eq_some_iff_of_unique hone', hperm.mem_iff]

section FrontRunner
variable (score : α → Nat) (floor margin : Nat)

/-- The first of the ranking by score, when it reaches the floor and is ahead of the second by
the margin. -/
def frontRunner (l : List α) : Option α :=
  match l.mergeSort fun a b => score b ≤ score a with
  | [] => none
  | [best] => if floor ≤ score best then some best else none
  | best :: second :: _ =>
    if floor ≤ score best ∧ score second + margin ≤ score best then some best else none

theorem pairwise_ranking (l : List α) :
    (l.mergeSort fun a b => score b ≤ score a).Pairwise fun a b => score b ≤ score a := by
  have htrans : ∀ a b c : α, decide (score b ≤ score a) = true → decide (score c ≤ score b) = true →
      decide (score c ≤ score a) = true := by
    intro a b c
    simp only [decide_eq_true_eq]
    omega
  have htotal : ∀ a b : α, (decide (score b ≤ score a) || decide (score a ≤ score b)) = true := by
    intro a b
    simp only [Bool.or_eq_true, decide_eq_true_eq]
    omega
  simpa using List.pairwise_mergeSort htrans htotal l

/-- Whoever is ahead of all the others by the margin, wherever it stands. -/
theorem frontRunner_eq_some_iff (hmargin : 0 < margin) :
    frontRunner score floor margin l = some a ↔
      ∃ rest, l.Perm (a :: rest) ∧ floor ≤ score a ∧ ∀ b ∈ rest, score b + margin ≤ score a := by
  have hperm := List.mergeSort_perm l fun a b => score b ≤ score a
  have hsorted := pairwise_ranking score l
  unfold frontRunner
  generalize (l.mergeSort fun a b => score b ≤ score a) = ranked at hperm hsorted
  constructor
  · intro h
    split at h
    · cases h
    · rename_i best
      split at h
      · obtain rfl := Option.some.inj h
        exact ⟨[], hperm.symm, ‹_›, fun b hb => by cases hb⟩
      · cases h
    · rename_i best second tail
      split at h
      · rename_i hahead
        obtain rfl := Option.some.inj h
        refine ⟨second :: tail, hperm.symm, hahead.1, ?_⟩
        intro b hb
        rcases List.mem_cons.mp hb with rfl | hb
        · exact hahead.2
        · have hle := List.rel_of_pairwise_cons (List.pairwise_cons.mp hsorted).2 hb
          omega
      · cases h
  · rintro ⟨rest, hsplit, hfloor, hahead⟩
    have hall := hperm.trans hsplit
    cases ranked with
    | nil => exact absurd hall.symm (List.not_perm_cons_nil)
    | cons best tail =>
      have hbest : best = a := by
        rcases List.mem_cons.mp (hall.mem_iff.mp List.mem_cons_self) with h | hin
        · exact h
        · -- The best of the ranking would be behind `a`.
          have hbehind := hahead best hin
          rcases List.mem_cons.mp (hall.mem_iff.mpr List.mem_cons_self) with h | hlater
          · exact h.symm
          · have hle := List.rel_of_pairwise_cons hsorted hlater
            omega
      subst hbest
      have htail := List.Perm.cons_inv hall
      cases tail with
      | nil => exact if_pos hfloor
      | cons second tail =>
        exact if_pos ⟨hfloor, hahead second (htail.mem_iff.mp List.mem_cons_self)⟩

theorem frontRunner_perm (hmargin : 0 < margin) (h : l.Perm l') :
    frontRunner score floor margin l = frontRunner score floor margin l' := by
  apply Option.ext
  intro a
  rw [frontRunner_eq_some_iff score floor margin hmargin,
    frontRunner_eq_some_iff score floor margin hmargin]
  constructor
  · rintro ⟨rest, hsplit, hahead⟩
    exact ⟨rest, h.symm.trans hsplit, hahead⟩
  · rintro ⟨rest, hsplit, hahead⟩
    exact ⟨rest, h.trans hsplit, hahead⟩

theorem mem_of_frontRunner (hmargin : 0 < margin)
    (h : frontRunner score floor margin l = some a) : a ∈ l := by
  obtain ⟨rest, hsplit, -⟩ := (frontRunner_eq_some_iff score floor margin hmargin).mp h
  exact hsplit.mem_iff.mpr List.mem_cons_self

end FrontRunner

end Choice
