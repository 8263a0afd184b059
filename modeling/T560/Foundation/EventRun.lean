/-!
# Runs over a list of events

A machine takes one step for every event. A condition on the steps restricts its runs; what
every allowed step keeps holds behind every allowed run.
-/

namespace EventRun

variable {σ ε : Type} (step : σ → ε → σ)

def run (s : σ) (events : List ε) : σ := events.foldl step s

/-- Every event meets the condition in the state that it is met in. -/
def Allowed (ok : σ → ε → Prop) : σ → List ε → Prop
  | _, [] => True
  | s, e :: events => ok s e ∧ Allowed ok (step s e) events

instance decidableAllowed {ok : σ → ε → Prop} [∀ s e, Decidable (ok s e)] :
    (s : σ) → (events : List ε) → Decidable (Allowed step ok s events)
  | _, [] => isTrue trivial
  | s, e :: events =>
    @instDecidableAnd (ok s e) (Allowed step ok (step s e) events) inferInstance
      (decidableAllowed (step s e) events)

variable {step}

@[simp] theorem run_nil (s : σ) : run step s [] = s := rfl

@[simp] theorem run_snoc (s : σ) (events : List ε) (e : ε) :
    run step s (events ++ [e]) = step (run step s events) e := by
  simp [run]

/-- Some event of the run does to its state what `P` says. -/
def Happens (step : σ → ε → σ) (P : σ → ε → Prop) (s : σ) (events : List ε) : Prop :=
  ∃ before e after, events = before ++ e :: after ∧ P (run step s before) e

theorem not_happens_nil (P : σ → ε → Prop) (s : σ) : ¬ Happens step P s [] := by
  rintro ⟨before, e, after, h, -⟩
  simp at h

theorem happens_snoc (P : σ → ε → Prop) (s : σ) (events : List ε) (e : ε) :
    Happens step P s (events ++ [e]) ↔ Happens step P s events ∨ P (run step s events) e := by
  constructor
  · rintro ⟨before, d, after, heq, hd⟩
    obtain rfl | ⟨after, last, rfl⟩ := after.eq_nil_or_concat
    · obtain ⟨rfl, hde⟩ := List.append_inj' heq rfl
      obtain rfl : e = d := by simpa using hde
      exact Or.inr hd
    · rw [List.concat_eq_append, ← List.cons_append, ← List.append_assoc] at heq
      obtain ⟨rfl, -⟩ := List.append_inj' heq rfl
      exact Or.inl ⟨before, d, after, rfl, hd⟩
  · rintro (⟨before, d, after, rfl, hd⟩ | he)
    · exact ⟨before, d, after ++ [e], by simp, hd⟩
    · exact ⟨events, e, [], rfl, he⟩

theorem allowed_append {ok : σ → ε → Prop} {s : σ} {events rest : List ε} :
    Allowed step ok s (events ++ rest) ↔
      Allowed step ok s events ∧ Allowed step ok (run step s events) rest := by
  induction events generalizing s with
  | nil => simp [Allowed]
  | cons e events ih =>
    rw [List.cons_append, Allowed, Allowed, ih, and_assoc]
    rfl

/-- What every allowed step keeps, every allowed run keeps. -/
theorem run_keeps {ok : σ → ε → Prop} {P : σ → Prop} (hstep : ∀ s e, ok s e → P s → P (step s e))
    {s : σ} {events : List ε} (h : Allowed step ok s events) (hs : P s) : P (run step s events) := by
  induction events generalizing s with
  | nil => exact hs
  | cons e events ih =>
    obtain ⟨he, hrest⟩ := h
    exact ih hrest (hstep s e he hs)

/-- A run whose steps all meet what is asked of them keeps the invariant and meets it everywhere, if
from a state with the invariant a step meets the condition just when it does. -/
theorem allowed_iff_of_step {ok M : σ → ε → Prop} {I : σ → Prop}
    (hstep : ∀ s e, I s → (ok s e ↔ I (step s e) ∧ M s e)) {s : σ} (hs : I s) (events : List ε) :
    Allowed step ok s events ↔
      (∀ before after, events = before ++ after → I (run step s before)) ∧
      ∀ before e after, events = before ++ e :: after → M (run step s before) e := by
  induction events generalizing s with
  | nil =>
    constructor
    · intro _
      refine ⟨?_, ?_⟩
      · intro before after h
        obtain ⟨rfl, -⟩ := List.append_eq_nil_iff.mp h.symm
        exact hs
      · intro before e after h
        simp at h
    · exact fun _ => trivial
  | cons e events ih =>
    rw [Allowed, hstep s e hs]
    constructor
    · rintro ⟨⟨hinv, hmeets⟩, hrest⟩
      obtain ⟨hkept, hmet⟩ := (ih hinv).mp hrest
      refine ⟨?_, ?_⟩
      · intro before after h
        cases before with
        | nil => exact hs
        | cons d before =>
          obtain ⟨rfl, htail⟩ := List.cons.inj h
          exact hkept before after htail
      · intro before d after h
        cases before with
        | nil =>
          obtain ⟨rfl, -⟩ := List.cons.inj h
          exact hmeets
        | cons d' before =>
          obtain ⟨rfl, htail⟩ := List.cons.inj h
          exact hmet before d after htail
    · rintro ⟨hkept, hmet⟩
      have hinv : I (step s e) := hkept [e] events rfl
      refine ⟨⟨hinv, hmet [] e events rfl⟩, (ih hinv).mpr ⟨?_, ?_⟩⟩
      · intro before after h
        exact hkept (e :: before) after (by rw [h, List.cons_append])
      · intro before d after h
        exact hmet (e :: before) d after (by rw [h, List.cons_append])

end EventRun
