import Mathlib.Order.Defs.Unbundled

/-!
# Programs over a state that can throw

What a program has written to the state stays when it throws. A relation between the states before
and after that is reflexive and transitive is kept by a program when its single writes keep it.
-/

namespace Stateful

variable {σ ε α β : Type}

/-- A program over the state. -/
abbrev Act (σ ε : Type) := ExceptT ε (StateM σ)

/-- The outcome, and the state behind the program. -/
def exec (m : Act σ ε α) (s : σ) : Except ε α × σ := m.run.run s

/-- Throw the error, if there is one. -/
def failing : Option ε → Act σ ε Unit
  | none => pure ()
  | some e => throw e

/-- Throw the error unless the condition holds. -/
def ensure (c : Prop) [Decidable c] (e : ε) : Act σ ε Unit := if c then pure () else throw e

/-- Run the program if the condition holds. -/
def onlyIf (c : Prop) [Decidable c] (m : Act σ ε Unit) : Act σ ε Unit := if c then m else pure ()

section Exec
variable {m : Act σ ε α} {f : α → Act σ ε β} {handler : ε → Act σ ε α} {s t : σ} {a : α} {e : ε}

@[simp] theorem exec_pure (a : α) (s : σ) : exec (pure a : Act σ ε α) s = (.ok a, s) := rfl

@[simp] theorem exec_throw (e : ε) (s : σ) : exec (throw e : Act σ ε α) s = (.error e, s) := rfl

@[simp] theorem exec_get (s : σ) : exec (get : Act σ ε σ) s = (.ok s, s) := rfl

@[simp] theorem exec_modify (g : σ → σ) (s : σ) :
    exec (modify g : Act σ ε PUnit) s = (.ok .unit, g s) := rfl

theorem exec_bind (m : Act σ ε α) (f : α → Act σ ε β) (s : σ) :
    exec (m >>= f) s =
      match exec m s with
      | (.ok a, t) => exec (f a) t
      | (.error e, t) => (.error e, t) := by
  unfold exec
  rw [ExceptT.run_bind, StateT.run_bind]
  rcases m.run.run s with ⟨r, t⟩
  cases r <;> rfl

theorem exec_bind_ok (h : exec m s = (.ok a, t)) : exec (m >>= f) s = exec (f a) t := by
  rw [exec_bind, h]

theorem exec_bind_error (h : exec m s = (.error e, t)) : exec (m >>= f) s = (.error e, t) := by
  rw [exec_bind, h]

theorem onlyIf_pos {c : Prop} [Decidable c] (h : c) (m : Act σ ε Unit) : onlyIf c m = m := if_pos h

theorem onlyIf_neg {c : Prop} [Decidable c] (h : ¬ c) (m : Act σ ε Unit) : onlyIf c m = pure () :=
  if_neg h

/-- A program that comes to an end has come through its first part. -/
theorem exists_of_exec_bind {b : β} (h : exec (m >>= f) s = (.ok b, t)) :
    ∃ a u, exec m s = (.ok a, u) ∧ exec (f a) u = (.ok b, t) := by
  rw [exec_bind] at h
  rcases hexec : exec m s with ⟨e | a, u⟩
  · rw [hexec] at h
    cases h
  · rw [hexec] at h
    exact ⟨a, u, rfl, h⟩

theorem exec_tryCatch (m : Act σ ε α) (handler : ε → Act σ ε α) (s : σ) :
    exec (tryCatch m handler) s =
      match exec m s with
      | (.ok a, t) => (.ok a, t)
      | (.error e, t) => exec (handler e) t := by
  unfold exec
  rw [ExceptT.run_tryCatch, StateT.run_bind]
  rcases m.run.run s with ⟨r, t⟩
  cases r <;> rfl

end Exec

/-- Every run of the program moves the state along the relation, also one that throws. -/
structure Within (R : σ → σ → Prop) (m : Act σ ε α) : Prop where
  moves (s : σ) : R s (exec m s).2

section Within
variable {R : σ → σ → Prop} {m : Act σ ε α} {f : α → Act σ ε β} {handler : ε → Act σ ε α}

theorem within_pure [Std.Refl R] (a : α) : Within R (pure a : Act σ ε α) := ⟨refl_of R⟩

theorem within_throw [Std.Refl R] (e : ε) : Within R (throw e : Act σ ε α) := ⟨refl_of R⟩

theorem within_get [Std.Refl R] : Within R (get : Act σ ε σ) := ⟨refl_of R⟩

theorem within_modify {g : σ → σ} (h : ∀ s, R s (g s)) : Within R (modify g : Act σ ε PUnit) := ⟨h⟩

theorem within_bind [IsTrans σ R] (hm : Within R m) (hf : ∀ a, Within R (f a)) :
    Within R (m >>= f) := by
  constructor
  intro s
  have hfirst := hm.moves s
  rw [exec_bind]
  rcases hexec : exec m s with ⟨e | a, t⟩
  · rwa [hexec] at hfirst
  · rw [hexec] at hfirst
    exact trans_of R hfirst ((hf a).moves t)

theorem within_tryCatch [IsTrans σ R] (hm : Within R m) (hh : ∀ e, Within R (handler e)) :
    Within R (tryCatch m handler) := by
  constructor
  intro s
  have hfirst := hm.moves s
  rw [exec_tryCatch]
  rcases hexec : exec m s with ⟨e | a, t⟩
  · rw [hexec] at hfirst
    exact trans_of R hfirst ((hh e).moves t)
  · rwa [hexec] at hfirst

theorem within_failing [Std.Refl R] (e : Option ε) : Within R (failing e : Act σ ε Unit) := by
  cases e with
  | none => exact within_pure ()
  | some e => exact within_throw e

theorem within_ensure [Std.Refl R] (c : Prop) [Decidable c] (e : ε) :
    Within R (ensure c e : Act σ ε Unit) := by
  unfold ensure
  by_cases hc : c
  · rw [if_pos hc]
    exact within_pure ()
  · rw [if_neg hc]
    exact within_throw e

theorem within_onlyIf [Std.Refl R] (c : Prop) [Decidable c] {m : Act σ ε Unit} (h : Within R m) :
    Within R (onlyIf c m) := by
  unfold onlyIf
  by_cases hc : c
  · rw [if_pos hc]
    exact h
  · rw [if_neg hc]
    exact within_pure ()

end Within

end Stateful
