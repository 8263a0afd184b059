import T560.Checkout.Workflow
import T560.Js.Ascii

/-!
# Runs of the checkout guard

Turns and calls of any sessions, in any order, under one clock. A risky call passes exactly
when the last word of its session was a confirmation that is still fresh, and no other
session has a part in that.
-/

namespace T560.Checkout

open Js (Value Runtime JsError)

inductive Event where
  | turn (session : String) (now : Nat) (userMessage : String)
  | call (session : String) (now : Nat) (toolName : String) (toolArgs : Value)

def Event.session : Event → String
  | .turn session .. => session
  | .call session .. => session

def Event.now : Event → Nat
  | .turn _ now _ => now
  | .call _ now .. => now

/-- The clock never runs backwards. -/
def Clocked (log : List Event) : Prop := log.Pairwise fun a b => a.now ≤ b.now

variable (rt : Runtime)

def step (sessions : Sessions) : Event → Sessions
  | .turn session now message => (beginCheckoutWorkflowTurn rt sessions session now message).2
  | .call session now toolName toolArgs =>
    (enforceCheckoutWorkflow rt sessions session now toolName toolArgs).2

def run (log : List Event) : Sessions := log.foldl (step rt) fun _ => none

/-- What the guard answers to a call behind the events of the log. -/
def decision (log : List Event) (session : String) (now : Nat) (toolName : String)
    (toolArgs : Value) : Except JsError GuardDecision :=
  (enforceCheckoutWorkflow rt (run rt log) session now toolName toolArgs).1

def isAllowed : Except JsError GuardDecision → Bool
  | .ok (.allowed ..) => true
  | _ => false

def cancels (message : String) : Bool := cancelRegex.test (turnText rt message)

/-- The message matches the confirm pattern and not the cancel pattern. -/
def confirms (message : String) : Bool := confirmRegex.test (turnText rt message) && !cancels rt message

def Cancels (session : String) (e : Event) : Prop :=
  ∃ now message, e = .turn session now message ∧ cancels rt message = true

/-- A turn of the session confirmed less than the time limit ago, and none has cancelled since. -/
def Approved (log : List Event) (session : String) (now : Nat) : Prop :=
  ∃ before after confirmedAt message,
    log = before ++ .turn session confirmedAt message :: after ∧
    confirms rt message = true ∧ now < confirmedAt + checkoutConfirmTtlMs ∧
    ∀ e ∈ after, ¬ Cancels rt session e

/-! ## One step -/

theorem run_snoc (log : List Event) (e : Event) : run rt (log ++ [e]) = step rt (run rt log) e := by
  rw [run, List.foldl_append]
  rfl

/-- The state of the session behind one of its events depends on its state before it only. -/
def stepState (state : SessionCheckoutState) : Event → SessionCheckoutState
  | .turn _ now message =>
    if cancels rt message then ⟨none, 0⟩
    else if confirms rt message then ⟨none, now + checkoutConfirmTtlMs⟩
    else state.expire now
  | .call _ now toolName toolArgs =>
    (decideCall (state.expire now) now (detectCheckoutRisk rt toolName toolArgs)).2

theorem confirmRegex_empty : confirmRegex.test "" = false :=
  Foundation.Pattern.test_empty (by decide)

theorem cancelRegex_empty : cancelRegex.test "" = false :=
  Foundation.Pattern.test_empty (by decide)

theorem step_same (sessions : Sessions) (e : Event) :
    step rt sessions e e.session = some (stepState rt (getState sessions e.session) e) := by
  cases e with
  | turn session now message =>
    simp only [step, beginCheckoutWorkflowTurn, stepState, confirms, cancels, Event.session]
    split
    · next hempty => simp [hempty, confirmRegex_empty, cancelRegex_empty]
    · split
      · next hcancel => simp [hcancel]
      · next hcancel =>
        split
        · next hconfirm => simp [hcancel, hconfirm]
        · next hconfirm => simp [hcancel, hconfirm]
  | call session now toolName toolArgs =>
    simp only [step, enforceCheckoutWorkflow, stepState, Event.session, Function.update_self]

theorem step_other (sessions : Sessions) (e : Event) {session : String} (h : session ≠ e.session) :
    step rt sessions e session = sessions session := by
  cases e with
  | turn s now message =>
    simp only [step, beginCheckoutWorkflowTurn]
    split
    · exact Function.update_of_ne h _ _
    · split
      · exact Function.update_of_ne h _ _
      · split
        · exact Function.update_of_ne h _ _
        · exact Function.update_of_ne h _ _
  | call s now toolName toolArgs => exact Function.update_of_ne h _ _

theorem expire_confirmedUntil {state : SessionCheckoutState} {at_ now : Nat} (h : at_ ≤ now) :
    now < (state.expire at_).confirmedUntil ↔ now < state.confirmedUntil := by
  unfold SessionCheckoutState.expire
  split
  · next hle =>
    constructor
    · intro hlt
      cases hlt
    · intro hlt
      omega
  · exact Iff.rfl

theorem decideCall_confirmedUntil (state : SessionCheckoutState) (now : Nat)
    (risk : Except JsError (Option CheckoutRisk)) :
    (decideCall state now risk).2.confirmedUntil = state.confirmedUntil := by
  rcases risk with e | _ | risk
  · rfl
  · rfl
  · simp only [decideCall]
    split <;> rfl

/-! ## Whole runs -/

/-- The last event confirms, or it does not cancel and the log before it approves. -/
theorem approved_snoc {log : List Event} {e : Event} {session : String} {now : Nat} :
    Approved rt (log ++ [e]) session now ↔
      (∃ at_ message, e = .turn session at_ message ∧ confirms rt message = true ∧
        now < at_ + checkoutConfirmTtlMs) ∨
      (¬ Cancels rt session e ∧ Approved rt log session now) := by
  constructor
  · rintro ⟨before, after, at_, message, hlog, hconf, hfresh, hafter⟩
    rcases List.eq_nil_or_concat after with rfl | ⟨after', e', rfl⟩
    · obtain ⟨-, he⟩ := List.append_inj' hlog rfl
      exact .inl ⟨at_, message, List.singleton_inj.mp he, hconf, hfresh⟩
    · rw [List.concat_eq_append, ← List.cons_append, ← List.append_assoc] at hlog
      obtain ⟨rfl, he⟩ := List.append_inj' hlog rfl
      cases List.singleton_inj.mp he
      refine .inr ⟨hafter e (by simp), before, after', at_, message, rfl, hconf, hfresh, ?_⟩
      intro a ha
      exact hafter a (by simp [ha])
  · rintro (⟨at_, message, rfl, hconf, hfresh⟩ | ⟨hno, before, after, at_, message, rfl, hconf, hfresh, hafter⟩)
    · refine ⟨log, [], at_, message, rfl, hconf, hfresh, ?_⟩
      intro a ha
      cases ha
    · refine ⟨before, after ++ [e], at_, message, by simp, hconf, hfresh, ?_⟩
      intro a ha
      rcases List.mem_append.mp ha with ha | ha
      · exact hafter a ha
      · cases List.mem_singleton.mp ha
        exact hno

theorem getState_snoc_same (log : List Event) (e : Event) :
    getState (run rt (log ++ [e])) e.session = stepState rt (getState (run rt log) e.session) e := by
  rw [run_snoc, getState, step_same]
  rfl

theorem getState_snoc_other (log : List Event) {e : Event} {session : String}
    (h : session ≠ e.session) :
    getState (run rt (log ++ [e])) session = getState (run rt log) session := by
  rw [run_snoc, getState, step_other rt _ e h]
  rfl

theorem not_cancels_call (session : String) (at_ : Nat) (toolName : String) (toolArgs : Value) :
    ¬ Cancels rt session (.call session at_ toolName toolArgs) := by
  rintro ⟨at', message, he, -⟩
  cases he

theorem cancels_turn_iff {session message : String} {at_ : Nat} :
    Cancels rt session (.turn session at_ message) ↔ cancels rt message = true := by
  constructor
  · rintro ⟨at', message', he, hc⟩
    cases he
    exact hc
  · intro hc
    exact ⟨at_, message, rfl, hc⟩

/-- A turn of the session approves, if it does not cancel and it confirms or the log approves. -/
theorem approved_turn {log : List Event} {session message : String} {at_ now : Nat} :
    Approved rt (log ++ [.turn session at_ message]) session now ↔
      cancels rt message = false ∧
        (confirms rt message = true ∧ now < at_ + checkoutConfirmTtlMs ∨ Approved rt log session now) := by
  rw [approved_snoc, cancels_turn_iff, Bool.not_eq_true]
  constructor
  · rintro (⟨at', message', he, hconf, hlt⟩ | ⟨hno, happ⟩)
    · cases he
      have hno : cancels rt message = false := by
        rw [confirms, Bool.and_eq_true, Bool.not_eq_true'] at hconf
        exact hconf.2
      exact ⟨hno, .inl ⟨hconf, hlt⟩⟩
    · exact ⟨hno, .inr happ⟩
  · rintro ⟨hno, ⟨hconf, hlt⟩ | happ⟩
    · exact .inl ⟨at_, message, rfl, hconf, hlt⟩
    · exact .inr ⟨hno, happ⟩

theorem approved_call {log : List Event} {session toolName : String} {toolArgs : Value} {at_ now : Nat} :
    Approved rt (log ++ [.call session at_ toolName toolArgs]) session now ↔
      Approved rt log session now := by
  rw [approved_snoc]
  constructor
  · rintro (⟨at', message, he, -⟩ | ⟨-, happ⟩)
    · cases he
    · exact happ
  · intro happ
    exact .inr ⟨not_cancels_call rt session at_ toolName toolArgs, happ⟩

/-- An approval lasts at most the time limit from the end of the log. -/
theorem approved_fresh {log : List Event} {session : String} {last now : Nat}
    (hclock : ∀ a ∈ log, a.now ≤ last) (happ : Approved rt log session now) :
    now < last + checkoutConfirmTtlMs := by
  obtain ⟨before, after, at_, message, rfl, -, hlt, -⟩ := happ
  have hle : at_ ≤ last := hclock (.turn session at_ message) (by simp)
  omega

/-- The step of the invariant: an event of the session moves the limit as the log's meaning moves. -/
theorem stepState_confirmedUntil {log : List Event} {e : Event} {state : SessionCheckoutState}
    {now : Nat} (hnow : e.now ≤ now) (hclock : ∀ a ∈ log, a.now ≤ e.now)
    (ih : now < state.confirmedUntil ↔ Approved rt log e.session now) :
    now < (stepState rt state e).confirmedUntil ↔ Approved rt (log ++ [e]) e.session now := by
  cases e with
  | turn session at_ message =>
    simp only [Event.session, Event.now] at hnow hclock ih ⊢
    rw [stepState, approved_turn]
    cases hcancel : cancels rt message with
    | true => simp
    | false =>
      cases hconf : confirms rt message with
      | true =>
        simp only [Bool.false_eq_true, if_false, if_true, true_and]
        constructor
        · intro hlt
          exact .inl hlt
        · rintro (hlt | happ)
          · exact hlt
          · exact approved_fresh rt hclock happ
      | false => simp [expire_confirmedUntil hnow, ih]
  | call session at_ toolName toolArgs =>
    simp only [Event.session, Event.now] at hnow ih ⊢
    rw [stepState, decideCall_confirmedUntil, expire_confirmedUntil hnow, ih, approved_call]

/-- In every run the limit of a session lies ahead exactly when the log approves. -/
theorem confirmedUntil_iff {log : List Event} {session : String} {now : Nat}
    (hclock : Clocked log) (hnow : ∀ e ∈ log, e.now ≤ now) :
    now < (getState (run rt log) session).confirmedUntil ↔ Approved rt log session now := by
  induction log using List.reverseRecOn with
  | nil =>
    constructor
    · intro hlt
      cases hlt
    · rintro ⟨before, after, at_, message, hlog, -⟩
      cases before <;> cases hlog
  | append_singleton log e ih =>
    obtain ⟨hlog, -, hle⟩ := List.pairwise_append.mp hclock
    have ih := ih hlog (fun a ha => hnow a (List.mem_append_left _ ha))
    have he : e.now ≤ now := hnow e (by simp)
    by_cases hs : session = e.session
    · subst hs
      rw [getState_snoc_same]
      exact stepState_confirmedUntil rt he (fun a ha => hle a ha e (by simp)) ih
    · rw [getState_snoc_other rt log hs, ih, approved_snoc]
      constructor
      · intro happ
        refine .inr ⟨?_, happ⟩
        rintro ⟨at_, message, rfl, -⟩
        exact hs rfl
      · rintro (⟨at_, message, rfl, -⟩ | ⟨-, happ⟩)
        · exact absurd rfl hs
        · exact happ

/-- While the log approves, the description of the session shows the time that is left. -/
theorem describe_approved {log : List Event} {session : String} {now : Nat} (hclock : Clocked log)
    (hnow : ∀ e ∈ log, e.now ≤ now) (happ : Approved rt log session now) :
    ∃ seconds, 0 < seconds ∧ describeCheckoutWorkflowState (run rt log) session now =
      some ("checkout authorization active for " ++ toString seconds ++ "s") := by
  have hlt := (confirmedUntil_iff rt hclock hnow).mpr happ
  cases hstate : run rt log session with
  | none =>
    rw [getState, hstate] at hlt
    cases hlt
  | some state =>
    rw [getState, hstate, Option.getD_some] at hlt
    refine ⟨(state.confirmedUntil - now + 999) / 1000, by omega, ?_⟩
    rw [describeCheckoutWorkflowState, hstate]
    dsimp only
    rw [if_pos (by omega)]

/-- Events of other sessions leave the state of a session alone. -/
theorem getState_filter (log : List Event) (session : String) :
    getState (run rt (log.filter fun e => e.session == session)) session =
      getState (run rt log) session := by
  induction log using List.reverseRecOn with
  | nil => rfl
  | append_singleton log e ih =>
    rw [List.filter_append]
    by_cases hs : session = e.session
    · subst hs
      rw [List.filter_singleton, beq_self_eq_true, cond_true, getState_snoc_same, getState_snoc_same, ih]
    · have hne : (e.session == session) = false := by
        rw [beq_eq_false_iff_ne]
        exact fun h => hs h.symm
      rw [List.filter_singleton, hne, cond_false, List.append_nil, ih, getState_snoc_other rt log hs]

theorem isAllowed_decideCall {state : SessionCheckoutState} {now : Nat} {risk : CheckoutRisk} :
    isAllowed (decideCall state now (.ok (some risk))).1 = true ↔ now < state.confirmedUntil := by
  simp only [decideCall]
  split
  · next hlt => simp [isAllowed, hlt]
  · next hlt => simp [isAllowed, hlt]

/-- A risky call is allowed exactly when its own session approves, and the whole decision on any
call is the one of the run without the other sessions. -/
theorem decision_approved_and_isolated (log : List Event) (session : String) (now : Nat)
    (toolName : String) (toolArgs : Value)
    (hclock : Clocked (log ++ [.call session now toolName toolArgs])) :
    (∀ risk, detectCheckoutRisk rt toolName toolArgs = .ok (some risk) →
      (isAllowed (decision rt log session now toolName toolArgs) = true ↔
        Approved rt log session now)) ∧
    decision rt (log.filter fun e => e.session == session) session now toolName toolArgs =
      decision rt log session now toolName toolArgs := by
  obtain ⟨hlog, -, hle⟩ := List.pairwise_append.mp hclock
  have hnow : ∀ e ∈ log, e.now ≤ now := fun e he =>
    hle e he (.call session now toolName toolArgs) (by simp)
  constructor
  · intro risk hrisk
    rw [decision, enforceCheckoutWorkflow, hrisk, isAllowed_decideCall,
      expire_confirmedUntil (Nat.le_refl now), confirmedUntil_iff rt hlog hnow]
  · rw [decision, decision, enforceCheckoutWorkflow, enforceCheckoutWorkflow, getState_filter]

def payCall : Value := .obj [("action", .str "click"), ("selector", .str "#pay now")]

def twoSessions : List Event :=
  [.turn "b" 5 "yes, buy it", .turn "a" 10 "Confirm  purchase", .turn "b" 20 "cancel the order"]

theorem payCall_risk : detectCheckoutRisk Js.asciiRuntime "browser" payCall =
    .ok (some ⟨"click", checkoutReason, some "#pay now"⟩) := by
  decide

/-- Session `a` has confirmed; session `b` confirmed before and cancelled since. -/
theorem decision_approved_two_sessions :
    isAllowed (decision Js.asciiRuntime twoSessions "a" 1000 "browser" payCall) = true ∧
    ¬ Approved Js.asciiRuntime twoSessions "b" 1000 ∧
    decision Js.asciiRuntime (twoSessions.filter fun e => e.session == "b") "b" 1000 "browser" payCall =
      decision Js.asciiRuntime twoSessions "b" 1000 "browser" payCall := by
  have ha := decision_approved_and_isolated Js.asciiRuntime twoSessions "a" 1000 "browser" payCall
    (by unfold Clocked twoSessions; decide)
  have hb := decision_approved_and_isolated Js.asciiRuntime twoSessions "b" 1000 "browser" payCall
    (by unfold Clocked twoSessions; decide)
  refine ⟨(ha.1 _ payCall_risk).mpr ?_, ?_, hb.2⟩
  · refine ⟨[.turn "b" 5 "yes, buy it"], [.turn "b" 20 "cancel the order"], 10, "Confirm  purchase",
      rfl, by decide, by decide, ?_⟩
    intro e he
    cases List.mem_singleton.mp he
    rintro ⟨now, message, heq, -⟩
    exact absurd (Event.turn.inj heq).1 (by decide)
  · rw [← hb.1 _ payCall_risk]
    decide

end T560.Checkout
