import Mathlib.Data.List.Basic
import Mathlib.Data.List.DropRight
import Mathlib.Data.List.Nodup

/-!
# The end of a sequence

What keeping the last elements of a sequence does to its length and to what is appended. A
buffer that is cut to its last elements after every append holds the last elements of all that
was appended.
-/

namespace Suffix

variable {α : Type}

theorem length_rtake (l : List α) (n : Nat) : (l.rtake n).length = min n l.length := by
  unfold List.rtake
  rw [List.length_drop]
  omega

theorem rtake_of_length_le {l : List α} {n : Nat} (h : l.length ≤ n) : l.rtake n = l := by
  unfold List.rtake
  rw [Nat.sub_eq_zero_of_le h, List.drop_zero]

/-- Only the last elements of the second part count, when they are enough. -/
theorem rtake_append_of_le {l r : List α} {n : Nat} (h : n ≤ r.length) :
    (l ++ r).rtake n = r.rtake n := by
  unfold List.rtake
  rw [List.length_append, show l.length + r.length - n = l.length + (r.length - n) by omega,
    List.drop_length_add_append]

/-- Elements cut off before an append would have been cut off after it. -/
theorem rtake_rtake_append (l r : List α) (n : Nat) :
    (l.rtake n ++ r).rtake n = (l ++ r).rtake n := by
  by_cases hl : l.length ≤ n
  · rw [rtake_of_length_le hl]
  · have hsplit : l = l.take (l.length - n) ++ l.rtake n := (List.take_append_drop _ l).symm
    have hn : n ≤ (l.rtake n ++ r).length := by
      rw [List.length_append, length_rtake]
      omega
    calc (l.rtake n ++ r).rtake n
        = (l.take (l.length - n) ++ (l.rtake n ++ r)).rtake n := (rtake_append_of_le hn).symm
      _ = (l ++ r).rtake n := by rw [← List.append_assoc, ← hsplit]

theorem rtake_min (l : List α) (n : Nat) : l.rtake (min n l.length) = l.rtake n := by
  unfold List.rtake
  congr 1
  omega

section Filter
variable {l l' : List α}

/-- Without repetitions, the last elements are those that are among the last. -/
theorem filter_mem_rtake [DecidableEq α] (h : l.Nodup) (n : Nat) :
    l.filter (· ∈ l.rtake n) = l.rtake n := by
  have hsplit : l = l.take (l.length - n) ++ l.rtake n := (List.take_append_drop _ l).symm
  have hdisjoint : ∀ x ∈ l.take (l.length - n), x ∉ l.rtake n := by
    rw [hsplit] at h
    exact fun x hx hx' => (List.nodup_append.mp h).2.2 x hx x hx' rfl
  have hfront : (l.take (l.length - n)).filter (· ∈ l.rtake n) = [] :=
    List.filter_eq_nil_iff.mpr fun x hx => by simpa using hdisjoint x hx
  have hback : (l.rtake n).filter (· ∈ l.rtake n) = l.rtake n :=
    List.filter_eq_self.mpr fun x hx => decide_eq_true hx
  calc l.filter (· ∈ l.rtake n)
      = (l.take (l.length - n) ++ l.rtake n).filter (· ∈ l.rtake n) := by rw [← hsplit]
    _ = l.rtake n := by rw [List.filter_append, hfront, hback, List.nil_append]

/-- Filtering the last elements is filtering all and keeping those among the last. -/
theorem filter_rtake [DecidableEq α] (h : l.Nodup) (n : Nat) (p : α → Bool) :
    (l.rtake n).filter p = (l.filter p).filter (· ∈ l.rtake n) := by
  have hlast := filter_mem_rtake h n
  calc (l.rtake n).filter p
      = (l.filter (· ∈ l.rtake n)).filter p := by rw [hlast]
    _ = (l.filter p).filter (· ∈ l.rtake n) := by
      rw [List.filter_filter, List.filter_filter]
      apply List.filter_congr
      intro x _
      rw [Bool.and_comm]

/-- An element is among the last `n` when fewer than `n` stand behind it. -/
theorem mem_rtake_iff [DecidableEq α] {x : α} (hx : x ∈ l) (n : Nat) :
    x ∈ l.rtake n ↔ l.reverse.idxOf x < n := by
  rw [List.rtake_eq_reverse_take_reverse, List.mem_reverse]
  exact List.mem_take_iff_idxOf_lt (List.mem_reverse.mpr hx)

end Filter

end Suffix
