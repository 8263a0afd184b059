import T560.Foundation.Obligation
import T560.Provider.ChatSteps

/-!
# The completion verification flags

The flags fold the executions of a run into one bit. They say whether a state change is still
to be verified: a successful mutating call opens that obligation, a successful verifying call
closes it, and a call that does both closes what it opens.
-/

namespace T560.Provider

open Js (Value)
open Transcript (Message)

section Signals
variable (env : ToolEnv)

def Signal.Mutates (s : Signal) : Prop :=
  s.isError = false ∧ toolCallMutatesState env (normalizeName env.rt s.toolName) s.args = .ok true

def Signal.Verifies (s : Signal) : Prop :=
  s.isError = false ∧ toolCallVerifiesState env (normalizeName env.rt s.toolName) s.args = .ok true

/-- The last successful mutating call has no successful verifying call at or behind it, or the
request needed verification and no verifying call succeeded. -/
def Unverified (needed : Bool) (signals : List Signal) : Prop :=
  Obligation.Left (Signal.Mutates env) (Signal.Verifies env) (needed = true) signals

/-- The flags tell what is left to verify. -/
structure Tracks (needed : Bool) (l : Ledger) : Prop where
  needs : l.completionVerificationSatisfied = false → l.completionVerificationNeeded = true
  unverified : l.completionVerificationSatisfied = false ↔ Unverified env needed l.signals

end Signals

variable {env : ToolEnv} {needed : Bool} {l l' : Ledger}

theorem Tracks.of_eq (h : Tracks env needed l)
    (hn : l'.completionVerificationNeeded = l.completionVerificationNeeded)
    (hs : l'.completionVerificationSatisfied = l.completionVerificationSatisfied)
    (hg : l'.signals = l.signals) : Tracks env needed l' := by
  constructor
  · rw [hn, hs]
    exact h.needs
  · rw [hs, hg]
    exact h.unverified

/-- A tool without a name is neither. -/
theorem mutates_empty (args : Value) : toolCallMutatesState env "" args = .ok false := rfl

theorem verifies_empty (args : Value) : toolCallVerifiesState env "" args = .ok false := rfl

/-- What a signal leaves in the flags. -/
theorem register_flags {tool : String} {args : Value} {isError : Bool}
    (h : registerCompletionVerificationSignal env tool args isError l = .ok l')
    (hneeds : l.completionVerificationSatisfied = false → l.completionVerificationNeeded = true) :
    l'.signals = l.signals ∧
      (l'.completionVerificationSatisfied = false → l'.completionVerificationNeeded = true) ∧
      (l'.completionVerificationSatisfied = false ↔
        ¬ Signal.Verifies env ⟨tool, args, isError⟩ ∧
          (Signal.Mutates env ⟨tool, args, isError⟩ ∨
            l.completionVerificationSatisfied = false)) := by
  unfold registerCompletionVerificationSignal at h
  dsimp only at h
  split at h
  · rename_i hskip
    cases h
    have hm : ¬ Signal.Mutates env ⟨tool, args, isError⟩ := by
      rintro ⟨he, hm⟩
      simp_all [mutates_empty]
    have hv : ¬ Signal.Verifies env ⟨tool, args, isError⟩ := by
      rintro ⟨he, hv⟩
      simp_all [verifies_empty]
    exact ⟨rfl, hneeds, by simp [hm, hv]⟩
  · rename_i hcounts
    have he : isError = false := by
      cases isError <;> simp_all
    obtain ⟨m, hm, h⟩ := Js.exists_of_bind_ok h
    have hmutates : Signal.Mutates env ⟨tool, args, isError⟩ ↔ m = true := by
      simp [Signal.Mutates, he, hm]
    cases m with
    | true =>
      simp only [if_true] at h
      obtain ⟨v, hv, h⟩ := Js.exists_of_bind_ok h
      have hverifies : Signal.Verifies env ⟨tool, args, isError⟩ ↔ v = true := by
        simp [Signal.Verifies, he, hv]
      cases v <;> cases h <;> simp [hmutates, hverifies]
    | false =>
      simp only [Bool.false_eq_true, if_false] at h
      split at h
      · rename_i hn
        obtain ⟨v, hv, h⟩ := Js.exists_of_bind_ok h
        have hverifies : Signal.Verifies env ⟨tool, args, isError⟩ ↔ v = true := by
          simp [Signal.Verifies, he, hv]
        cases v <;> cases h <;> simp [hmutates, hverifies, hn]
      · rename_i hn
        cases h
        have hs : l.completionVerificationSatisfied = true := by
          cases hs : l.completionVerificationSatisfied with
          | true => rfl
          | false => exact absurd (hneeds hs) hn
        simp [hmutates, hs]

theorem Tracks.recordOutcome {tool : String} {args : Value} {outcome : Outcome}
    (h : recordOutcome env tool args outcome l = .ok l') (ht : Tracks env needed l) :
    Tracks env needed l' := by
  obtain ⟨hsignals, hneeds, hflag⟩ := register_flags h ht.needs
  refine ⟨hneeds, ?_⟩
  rw [hflag, hsignals, Unverified, Obligation.left_snoc]
  exact and_congr_right fun _ => or_congr_right ht.unverified

theorem Tracks.ledgerStep (h : LedgerStep env l l') (ht : Tracks env needed l) :
    Tracks env needed l' := by
  cases h with
  | recorded h => exact ht.recordOutcome h
  | executed => exact ht.of_eq rfl rfl rfl
  | pendingMfa pending => exact ht.of_eq rfl rfl rfl
  | login state => exact ht.of_eq rfl rfl rfl
  | promptSent => exact ht.of_eq rfl rfl rfl

theorem Tracks.books (h : Books env l l') (ht : Tracks env needed l) : Tracks env needed l' := by
  induction h with
  | refl => exact ht
  | tail _ hstep ih => exact ih.ledgerStep hstep

theorem tracks_initialLedger (env : ChatEnv) :
    Tracks env.toToolEnv env.requestLikelyNeedsCompletionVerification (initialLedger env) := by
  constructor
  · intro h
    simpa [initialLedger] using h
  · rw [Unverified, initialLedger, Obligation.left_nil]
    simp

/-- Along a run that has not thrown the flags tell what is left to verify. -/
theorem tracks_run {env : ChatEnv} {strict : Prop} {history : List Message} {content : String}
    {c : Config} (h : Relation.ReflTransGen (Step env strict) (start env history content) c)
    (hc : c.control ≠ .thrown) :
    Tracks env.toToolEnv env.requestLikelyNeedsCompletionVerification c.state.ledger := by
  refine run_keeps (P := fun st => Tracks env.toToolEnv
    env.requestLikelyNeedsCompletionVerification st.ledger) ?_ h hc (tracks_initialLedger env)
  intro st st' hstep ht
  cases hstep with
  | books h => exact ht.books h
  | _ => exact ht

end T560.Provider
