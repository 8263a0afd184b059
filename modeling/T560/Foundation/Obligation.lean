import Mathlib.Data.List.Basic

/-!
# Obligations of a trace

Some events open an obligation and some close it; one event may do both, and then it closes
what it opens. What is left open at the end of a trace depends on its last opening event.
-/

namespace Obligation

variable {ε : Type} (opens closes : ε → Prop) (owed : Prop)

/-- The last opening event has no closing one at or behind it, or something was owed from the
start and nothing closes in the whole trace. -/
def Left (trace : List ε) : Prop :=
  (∃ before e after, trace = before ++ e :: after ∧ opens e ∧ (∀ f ∈ after, ¬ opens f) ∧
    ∀ f ∈ e :: after, ¬ closes f) ∨
  (owed ∧ ∀ f ∈ trace, ¬ closes f)

variable {opens closes owed}

theorem left_nil : Left opens closes owed [] ↔ owed := by
  constructor
  · rintro (⟨before, e, after, h, -⟩ | ⟨h, -⟩)
    · exact absurd h.symm (by simp)
    · exact h
  · intro h
    exact .inr ⟨h, by simp⟩

/-- An opening event that nothing closes, at the end of a trace. -/
theorem left_of_last {trace : List ε} {e : ε} (hopen : opens e) (hclose : ¬ closes e) :
    Left opens closes owed (trace ++ [e]) := by
  refine .inl ⟨trace, e, [], rfl, hopen, ?_, ?_⟩
  · exact fun f hf => absurd hf List.not_mem_nil
  · simpa using hclose

/-- An event that neither opens nor closes anything leaves what was left. -/
theorem Left.snoc {trace : List ε} {e : ε} (h : Left opens closes owed trace) (hopen : ¬ opens e)
    (hclose : ¬ closes e) : Left opens closes owed (trace ++ [e]) := by
  rcases h with ⟨before, x, after, rfl, hx, hlast, hnone⟩ | ⟨howed, hnone⟩
  · refine .inl ⟨before, x, after ++ [e], by simp, hx, ?_, ?_⟩
    · rw [List.forall_mem_append]
      exact ⟨hlast, by simpa using hopen⟩
    · rw [← List.cons_append, List.forall_mem_append]
      exact ⟨hnone, by simpa using hclose⟩
  · refine .inr ⟨howed, ?_⟩
    rw [List.forall_mem_append]
    exact ⟨hnone, by simpa using hclose⟩

/-- What is left behind an event is what it opens or what was left before. -/
theorem Left.of_snoc {trace : List ε} {e : ε} (h : Left opens closes owed (trace ++ [e])) :
    ¬ closes e ∧ (opens e ∨ Left opens closes owed trace) := by
  rcases h with ⟨before, x, after, h, hx, hlast, hnone⟩ | ⟨howed, hnone⟩
  · rcases List.eq_nil_or_concat after with rfl | ⟨after, y, rfl⟩
    · obtain ⟨rfl, hxe⟩ := List.append_inj' h rfl
      obtain rfl : e = x := by simpa using hxe
      exact ⟨hnone e (by simp), .inl hx⟩
    · rw [List.concat_eq_append] at h hlast hnone
      have hsplit : trace ++ [e] = (before ++ x :: after) ++ [y] := by simpa using h
      obtain ⟨htrace, hye⟩ := List.append_inj' hsplit rfl
      obtain rfl : e = y := by simpa using hye
      rw [← List.cons_append, List.forall_mem_append] at hnone
      rw [List.forall_mem_append] at hlast
      exact ⟨hnone.2 e (by simp), .inr (.inl ⟨before, x, after, htrace, hx, hlast.1, hnone.1⟩)⟩
  · rw [List.forall_mem_append] at hnone
    exact ⟨hnone.2 e (by simp), .inr (.inr ⟨howed, hnone.1⟩)⟩

/-- An event at the end closes everything, opens anew, or leaves things as they were. -/
theorem left_snoc {trace : List ε} {e : ε} :
    Left opens closes owed (trace ++ [e]) ↔
      ¬ closes e ∧ (opens e ∨ Left opens closes owed trace) := by
  refine ⟨Left.of_snoc, ?_⟩
  rintro ⟨hclose, hopen | hleft⟩
  · exact left_of_last hopen hclose
  · by_cases hopen : opens e
    · exact left_of_last hopen hclose
    · exact hleft.snoc hopen hclose

end Obligation
