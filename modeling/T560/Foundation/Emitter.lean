import Mathlib.Data.List.Nodup

/-!
# Registered listeners

A listener is registered under a token of its own, at the end, and removed by it. A token that was
removed already, or never given out, removes nothing.
-/

/-- The listeners in the order in which they were registered, and the next token. -/
structure Emitter (ω : Type) where
  listeners : List (Nat × ω)
  next : Nat
  nodup : (listeners.map Prod.fst).Nodup
  fresh : ∀ l ∈ listeners, l.1 < next

namespace Emitter

variable {ω : Type}

def empty : Emitter ω := ⟨[], 0, List.nodup_nil, fun _ hl => absurd hl List.not_mem_nil⟩

variable (e : Emitter ω)

/-- The token of the listener is the number that was `next`. -/
def on (x : ω) : Emitter ω where
  listeners := e.listeners ++ [(e.next, x)]
  next := e.next + 1
  nodup := by
    rw [List.map_append, List.map_singleton]
    refine List.Nodup.append e.nodup (List.nodup_singleton _) ?_
    intro t ht ht'
    obtain ⟨l, hl, rfl⟩ := List.mem_map.mp ht
    have hlt := e.fresh l hl
    rw [List.mem_singleton.mp ht'] at hlt
    exact Nat.lt_irrefl _ hlt
  fresh := by
    intro l hl
    rcases List.mem_append.mp hl with hl | hl
    · exact Nat.lt_succ_of_lt (e.fresh l hl)
    · rw [List.mem_singleton.mp hl]
      exact Nat.lt_succ_self _

def off (token : Nat) : Emitter ω where
  listeners := e.listeners.filter fun l => l.1 ≠ token
  next := e.next
  nodup := e.nodup.sublist (List.filter_sublist.map Prod.fst)
  fresh := fun l hl => e.fresh l (List.mem_of_mem_filter hl)

variable {e}

theorem mem_on {x : ω} {l : Nat × ω} : l ∈ (e.on x).listeners ↔ l ∈ e.listeners ∨ l = (e.next, x) := by
  rw [on, List.mem_append, List.mem_singleton]

theorem mem_off {token : Nat} {l : Nat × ω} :
    l ∈ (e.off token).listeners ↔ l ∈ e.listeners ∧ l.1 ≠ token := by
  rw [off, List.mem_filter, decide_eq_true_iff]

/-- A token names one listener. -/
theorem unique {t : Nat} {x y : ω} (hx : (t, x) ∈ e.listeners) (hy : (t, y) ∈ e.listeners) : x = y :=
  congrArg Prod.snd (List.inj_on_of_nodup_map e.nodup hx hy rfl)

/-- What is read off the listeners without repetition, when it tells their tokens apart. -/
theorem nodup_map {β : Type} (f : ω → β)
    (h : ∀ l ∈ e.listeners, ∀ m ∈ e.listeners, f l.2 = f m.2 → l.1 = m.1) :
    (e.listeners.map fun l => f l.2).Nodup := by
  have hlisteners : e.listeners.Nodup := List.Nodup.of_map _ e.nodup
  refine (List.nodup_map_iff_inj_on hlisteners).mpr ?_
  intro l hl m hm heq
  exact List.inj_on_of_nodup_map e.nodup hl hm (h l hl m hm heq)

end Emitter
