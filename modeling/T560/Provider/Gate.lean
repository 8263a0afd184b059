import T560.Provider.Requests
import T560.Provider.Signals

/-!
# The message of a run

`chatWithProvider` ends with a chain of overrides. Each one replaces the message it gets or
leaves it, and the completion gate is one of them.
-/

namespace T560.Provider

open Js (trim)
open Transcript (Message)

/-- What the end of a run reads besides: the code in the user's message, what the code derives
from texts, the error text of a reply and the description of the checkout workflow. -/
structure GateEnv extends ChatEnv where
  oneTimeCode : Option String
  messageLikelyAsksToContinueWithoutCode : Bool
  errorMessageOf : AssistantMessage → String
  stripIdentityReasoningLeak : String → String
  assistantRefusedOtpRelay : String → Bool
  summarizeToolContent : String → String
  buildToolOnlyFallbackMessage : List ToolOutcome → List ToolOutcome → String
  formatProviderRuntimeFailure : String → String
  describeCheckoutWorkflowState : Option String

section Texts

def pausedMessage : String :=
  "I’m paused at MFA. Send the one-time code (4-10 digits) and I’ll enter it immediately."

def joinLines (lines : List String) : String := "\n".intercalate (lines.filter (· ≠ ""))

def waitMessage (login : Option LoginState) : String :=
  match login.any (·.submitted), (login.bind (·.identifier)).filter (· ≠ "") with
  | true, some identifier =>
    "I filled the saved sign-in email (" ++ identifier ++ ") and sent the one-time code " ++
      "request. Send me the code and I will enter it immediately."
  | true, none =>
    "I used your saved vault credentials and sent the one-time code request. " ++
      "Send me the code and I will enter it immediately."
  | false, some identifier =>
    "I filled the saved sign-in email (" ++ identifier ++ ") and reached the one-time code " ++
      "step. Send me the code and I will enter it immediately."
  | false, none =>
    "I reached the one-time code step with saved credentials. " ++
      "Send me the code and I will enter it immediately."

def relayMessage (login : LoginState) : String :=
  match login.submitted, login.identifier.filter (· ≠ "") with
  | true, some identifier =>
    "I filled " ++ identifier ++ " and sent the one-time code request. " ++
      "Send me the code and I will enter it immediately."
  | true, none =>
    "I sent the one-time code request. Send me the code and I will enter it immediately."
  | false, some identifier =>
    "I filled " ++ identifier ++ ", but the send-code click is not confirmed yet. " ++
      "Tell me to retry and I will trigger it again."
  | false, none =>
    "The send-code click is not confirmed yet. Tell me to retry and I will trigger it again."

def noStepsMessage : String :=
  "I could not complete this action because no verification steps were completed.\n" ++
    "I will only claim completion after direct verification confirms results."

def unverifiedMessage : String :=
  "I cannot claim this task is complete yet.\n" ++
    "A state-changing step ran, but a direct post-action verification step has not completed " ++
    "successfully.\nTell me to continue and I will run verification before finalizing."

def failedToolOutcomes (st : RunState) : List ToolOutcome :=
  st.ledger.toolOutcomes.filter (·.isError)

def successfulToolOutcomes (st : RunState) : List ToolOutcome :=
  st.ledger.toolOutcomes.filter (!·.isError)

def successSummary (st : RunState) : String :=
  if (successfulToolOutcomes st).isEmpty then ""
  else "Verified steps completed: " ++ toString (successfulToolOutcomes st).length

variable (env : GateEnv)

def errorSummary (st : RunState) : String :=
  "\n".intercalate (((failedToolOutcomes st).take 4).map fun entry =>
    "- " ++ env.summarizeToolContent entry.content)

def failuresMessage (st : RunState) : String :=
  joinLines [
    "I completed this request with verification failures, so you should not trust any " ++
      "unstated success claims.",
    if successSummary st = "" then "No successful verification steps were confirmed."
    else successSummary st,
    "Errors:", errorSummary env st]

def checkoutMessage (blocked : String) : String :=
  joinLines [blocked,
    match env.describeCheckoutWorkflowState.filter (· ≠ "") with
    | some status => "Workflow state: " ++ status
    | none => "",
    "If you want me to continue with checkout, send: confirm purchase"]

end Texts

variable (env : GateEnv)

section Overrides

/-- The run is not started: it waits for a code the message does not bring. -/
def pausesForCode : Bool :=
  env.pendingMfaAtStart.isSome && !isPresent env.oneTimeCode &&
    env.messageLikelyAsksToContinueWithoutCode && !env.looksLikeLoginIntent &&
    !env.looksLikeSiteVisitIntent

/-- `lastAssistant` without a reply is an empty message. -/
def flattenedText (st : RunState) : String := (st.lastAssistant.map (·.flattenedText)).getD ""

def assistantErrored (last : Option AssistantMessage) : Bool :=
  let reason := normalizeName env.rt ((last.bind (·.stopReason)).getD "")
  reason = "error" || reason = "aborted"

def assistantErrorMessage (st : RunState) : String :=
  trim ((st.lastAssistant.map env.errorMessageOf).getD "")

def providerMessage (st : RunState) : String :=
  if env.identityQuestion then env.stripIdentityReasoningLeak (flattenedText st)
  else flattenedText st

def waitOverride (st : RunState) (message : String) : String :=
  if st.forceWaitForMfaCode then waitMessage st.ledger.latestBrowserLoginState else message

def relayOverride (st : RunState) (message : String) : String :=
  match st.ledger.latestBrowserLoginState with
  | none => message
  | some login =>
    if !st.forceWaitForMfaCode && login.mfaExpected && env.assistantRefusedOtpRelay message &&
        (env.looksLikeLoginIntent || env.looksLikeAccountDashboardIntent ||
          env.looksLikeSiteVisitIntent) then relayMessage login
    else message

def toolOnlyOverride (st : RunState) (message : String) : String :=
  if !st.forceWaitForMfaCode && flattenedText st = "" && !st.ledger.allToolCalls.isEmpty then
    env.buildToolOnlyFallbackMessage (successfulToolOutcomes st) (failedToolOutcomes st)
  else message

def noStepsOverride (st : RunState) (message : String) : String :=
  if env.forceToolUse && st.ledger.allToolCalls.isEmpty &&
      (assistantErrored env st.lastAssistant || trim message = "") then noStepsMessage
  else message

def runtimeFailureOverride (st : RunState) (message : String) : String :=
  if trim message = "" && assistantErrored env st.lastAssistant &&
      assistantErrorMessage env st ≠ "" then
    env.formatProviderRuntimeFailure (assistantErrorMessage env st)
  else message

def emptyOverride (st : RunState) (message : String) : String :=
  if trim message = "" then
    if st.ledger.allToolCalls.isEmpty then
      "I could not generate a non-empty response for this request. Please retry and I will " ++
        "continue from the current session state."
    else
      joinLines ["I completed verification but did not receive a final textual summary from " ++
        "the model.", successSummary st]
  else message

/-- The completion gate. -/
def verificationGate (st : RunState) (message : String) : String :=
  if !st.forceWaitForMfaCode && st.ledger.completionVerificationNeeded &&
      !st.ledger.completionVerificationSatisfied then unverifiedMessage
  else message

def failuresOverride (st : RunState) (message : String) : String :=
  if !(failedToolOutcomes st).isEmpty && (successfulToolOutcomes st).isEmpty then
    failuresMessage env st
  else message

def checkoutOverride (st : RunState) (message : String) : String :=
  match st.checkoutBlockedMessage.filter (· ≠ "") with
  | some blocked => checkoutMessage env blocked
  | none => message

def guardrailOverride (st : RunState) (message : String) : String :=
  match st.compactGuardrailMessage.filter (· ≠ "") with
  | some guardrail => guardrail
  | none => message

/-- The message as it comes to the gate. -/
def messageBeforeGate (st : RunState) : String :=
  emptyOverride st (runtimeFailureOverride env st (noStepsOverride env st
    (toolOnlyOverride env st (relayOverride env st (waitOverride st (providerMessage env st))))))

def finalMessage (st : RunState) : String :=
  guardrailOverride st (checkoutOverride env st (failuresOverride env st
    (verificationGate st (messageBeforeGate env st))))

/-- The message `chatWithProvider` returns from a state in which it ends. -/
def chatMessage (st : RunState) : String :=
  if pausesForCode env then pausedMessage else finalMessage env st

/-- The states in which `chatWithProvider` returns. -/
def Ended (history : List Message) (content : String) (st : RunState) : Prop :=
  (pausesForCode env = true ∧
    st = { messages := historyForRun env.toChatEnv history, ledger := initialLedger env.toChatEnv }) ∨
  (pausesForCode env = false ∧
    Relation.ReflTransGen (Step env.toChatEnv False) (start env.toChatEnv history content)
      ⟨.done, st⟩)

/-- The messages the runtime writes by itself: none has anything from a reply. -/
inductive FixedMessage (st : RunState) : String → Prop
  | paused : FixedMessage st pausedMessage
  | waiting : FixedMessage st (waitMessage st.ledger.latestBrowserLoginState)
  | noSteps : FixedMessage st noStepsMessage
  | gate : FixedMessage st unverifiedMessage
  | failures : FixedMessage st (failuresMessage env st)
  | checkout {n : Nat} {blocked : String} (h : (env.execution n).blocked = some blocked) :
    FixedMessage st (checkoutMessage env blocked)
  | guardrail : FixedMessage st guardrailMessage

end Overrides

section Notices

/-- A blocked checkout's message comes from a checkout decision, and the guardrail has one
text. -/
structure Notices (env : ChatEnv) (st : RunState) : Prop where
  blocked : ∀ m, st.checkoutBlockedMessage = some m → ∃ n, (env.execution n).blocked = some m
  guardrail : ∀ m, st.compactGuardrailMessage = some m → m = guardrailMessage

theorem Notices.stateStep {env : ChatEnv} {st st' : RunState} (h : StateStep env st st')
    (hn : Notices env st) : Notices env st' := by
  cases h with
  | blocked n =>
    refine ⟨fun m hm => ?_, hn.guardrail⟩
    rcases Option.or_eq_some_iff.mp hm with hm | ⟨-, hm⟩
    · exact ⟨n, hm⟩
    · exact hn.blocked m hm
  | guardrail =>
    refine ⟨hn.blocked, fun m hm => ?_⟩
    exact (Option.some.inj hm).symm
  | _ => exact ⟨hn.blocked, hn.guardrail⟩

theorem notices_run {env : ChatEnv} {strict : Prop} {history : List Message} {content : String}
    {c : Config} (h : Relation.ReflTransGen (Step env strict) (start env history content) c)
    (hc : c.control ≠ .thrown) : Notices env c.state :=
  run_keeps (P := Notices env) (fun _ _ hstep hn => hn.stateStep hstep) h hc ⟨nofun, nofun⟩

end Notices

section Gate
variable {env : GateEnv} {st : RunState}

theorem mem_front {c : Char} {s t : String} (h : c ∈ s.toList) : c ∈ (s ++ t).toList := by
  rw [String.toList_append]
  exact List.mem_append_left _ h

theorem waitMessage_not_blank (login : Option LoginState) : trim (waitMessage login) ≠ "" := by
  have hmem : 'I' ∈ (waitMessage login).toList := by
    unfold waitMessage
    split
    · exact mem_front (mem_front (mem_front (by decide)))
    · exact mem_front (by decide)
    · exact mem_front (mem_front (mem_front (by decide)))
    · exact mem_front (by decide)
  exact Js.trim_ne_empty hmem (by decide)

theorem noStepsMessage_not_blank : trim noStepsMessage ≠ "" := by
  have hmem : 'I' ∈ noStepsMessage.toList := mem_front (by decide)
  exact Js.trim_ne_empty hmem (by decide)

/-- A run that waits for a code comes to the gate with a message of its own. -/
theorem messageBeforeGate_waiting (h : st.forceWaitForMfaCode = true) :
    messageBeforeGate env st =
      if env.forceToolUse && st.ledger.allToolCalls.isEmpty && assistantErrored env st.lastAssistant
      then noStepsMessage else waitMessage st.ledger.latestBrowserLoginState := by
  have hwait : toolOnlyOverride env st (relayOverride env st
      (waitOverride st (providerMessage env st))) =
      waitMessage st.ledger.latestBrowserLoginState := by
    simp only [toolOnlyOverride, h, Bool.not_true, Bool.false_and, Bool.false_eq_true, if_false,
      waitOverride, if_true]
    unfold relayOverride
    split
    · rfl
    · simp [h]
  have hblank := waitMessage_not_blank st.ledger.latestBrowserLoginState
  have hsteps := noStepsMessage_not_blank
  unfold messageBeforeGate
  rw [hwait, noStepsOverride]
  simp only [hblank, decide_false, Bool.or_false]
  split_ifs
  · simp [runtimeFailureOverride, emptyOverride, hsteps]
  · simp [runtimeFailureOverride, emptyOverride, hblank]

/-- The message an unverified run has behind the gate. -/
def ownMessage (env : GateEnv) (st : RunState) (errored : Bool) : String :=
  if st.forceWaitForMfaCode then
    if env.forceToolUse && st.ledger.allToolCalls.isEmpty && errored then noStepsMessage
    else waitMessage st.ledger.latestBrowserLoginState
  else unverifiedMessage

theorem verificationGate_unverified (hneeds : st.ledger.completionVerificationNeeded = true)
    (hs : st.ledger.completionVerificationSatisfied = false) :
    verificationGate st (messageBeforeGate env st) =
      ownMessage env st (assistantErrored env st.lastAssistant) := by
  cases hwait : st.forceWaitForMfaCode with
  | true => simp [verificationGate, ownMessage, hwait, messageBeforeGate_waiting hwait]
  | false => simp [verificationGate, ownMessage, hwait, hneeds, hs]

theorem fixedMessage_ownMessage (errored : Bool) : FixedMessage env st (ownMessage env st errored) := by
  unfold ownMessage
  split_ifs
  · exact .noSteps
  · exact .waiting
  · exact .gate

/-- No text of a reply decides the message of an unverified run. -/
theorem finalMessage_unverified (hneeds : st.ledger.completionVerificationNeeded = true)
    (hs : st.ledger.completionVerificationSatisfied = false) (last : Option AssistantMessage)
    (hlast : assistantErrored env last = assistantErrored env st.lastAssistant) :
    finalMessage env { st with lastAssistant := last } = finalMessage env st := by
  have hguardrail : ∀ m, guardrailOverride { st with lastAssistant := last } m =
      guardrailOverride st m := fun _ => rfl
  have hcheckout : ∀ m, checkoutOverride env { st with lastAssistant := last } m =
      checkoutOverride env st m := fun _ => rfl
  have hfailures : ∀ m, failuresOverride env { st with lastAssistant := last } m =
      failuresOverride env st m := fun _ => rfl
  have hown : ∀ e, ownMessage env { st with lastAssistant := last } e = ownMessage env st e :=
    fun _ => rfl
  have hgate := @verificationGate_unverified env st hneeds hs
  have hgate' := @verificationGate_unverified env
    { st with lastAssistant := last } hneeds hs
  unfold finalMessage
  rw [hgate, hgate', hown, hlast, hfailures, hcheckout, hguardrail]

theorem FixedMessage.finalMessage {m : String} (hn : Notices env.toChatEnv st)
    (hm : FixedMessage env st m) :
    FixedMessage env st
      (guardrailOverride st (checkoutOverride env st (failuresOverride env st m))) := by
  have hfailures : FixedMessage env st (failuresOverride env st m) := by
    unfold failuresOverride
    split
    · exact .failures
    · exact hm
  have hcheckout : FixedMessage env st (checkoutOverride env st (failuresOverride env st m)) := by
    unfold checkoutOverride
    split
    · rename_i blocked hb
      obtain ⟨hb, -⟩ := Option.filter_eq_some_iff.mp hb
      obtain ⟨n, hn⟩ := hn.blocked blocked hb
      exact .checkout hn
    · exact hfailures
  unfold guardrailOverride
  split
  · rename_i guardrail hg
    obtain ⟨hg, -⟩ := Option.filter_eq_some_iff.mp hg
    rw [hn.guardrail guardrail hg]
    exact .guardrail
  · exact hcheckout

/-- Where a run ends, the flags and the notices are in order. -/
theorem Ended.spec {history : List Message} {content : String} (h : Ended env history content st) :
    Tracks env.toToolEnv env.requestLikelyNeedsCompletionVerification st.ledger ∧
      Notices env.toChatEnv st := by
  rcases h with ⟨-, rfl⟩ | ⟨-, hrun⟩
  · exact ⟨tracks_initialLedger env.toChatEnv, nofun, nofun⟩
  · exact ⟨tracks_run hrun nofun, notices_run hrun nofun⟩

/-- A run that leaves a state change unverified returns one of the runtime's own messages,
whatever text the last reply has; any other run passes the gate unchanged. -/
theorem completion_verification_gate (env : GateEnv) (history : List Message) (content : String)
    (st : RunState) (h : Ended env history content st) :
    (Unverified env.toToolEnv env.requestLikelyNeedsCompletionVerification st.ledger.signals →
      FixedMessage env st (chatMessage env st) ∧
      ∀ last, assistantErrored env last = assistantErrored env st.lastAssistant →
        chatMessage env { st with lastAssistant := last } = chatMessage env st) ∧
    (¬ Unverified env.toToolEnv env.requestLikelyNeedsCompletionVerification st.ledger.signals →
      ∀ message, verificationGate st message = message) := by
  obtain ⟨htracks, hnotices⟩ := h.spec
  constructor
  · intro hleft
    have hs := htracks.unverified.mpr hleft
    have hneeds := htracks.needs hs
    unfold chatMessage
    cases hpaused : pausesForCode env with
    | true =>
      simp only [if_true, implies_true, and_true]
      exact .paused
    | false =>
      simp only [Bool.false_eq_true, if_false]
      refine ⟨FixedMessage.finalMessage hnotices ?_, finalMessage_unverified hneeds hs⟩
      rw [verificationGate_unverified hneeds hs]
      exact fixedMessage_ownMessage _
  · intro hverified message
    have hs : st.ledger.completionVerificationSatisfied = true := by
      cases hs : st.ledger.completionVerificationSatisfied with
      | true => rfl
      | false => exact absurd (htracks.unverified.mp hs) hverified
    simp [verificationGate, hs]

/-- The environment of `loginEnv` with nothing special about its texts. -/
def loginGateEnv : GateEnv where
  toChatEnv := loginEnv "\x7b\x7d"
  oneTimeCode := none
  messageLikelyAsksToContinueWithoutCode := false
  errorMessageOf := fun _ => ""
  stripIdentityReasoningLeak := fun text => text
  assistantRefusedOtpRelay := fun _ => false
  summarizeToolContent := fun text => text
  buildToolOnlyFallbackMessage := fun _ _ => ""
  formatProviderRuntimeFailure := fun text => text
  describeCheckoutWorkflowState := none

def Control.isDone : Control → Bool
  | .done => true
  | _ => false

theorem ended_of_run {history : List Message} {content : String} {c : Config}
    (hp : pausesForCode env = false)
    (hrun : Relation.ReflTransGen (Step env.toChatEnv False) (start env.toChatEnv history content) c)
    (hdone : c.control.isDone = true) : Ended env history content c.state := by
  obtain ⟨control, st⟩ := c
  cases control with
  | done => exact .inr ⟨hp, hrun⟩
  | _ => cases hdone

/-- The login succeeds and nothing verifies it: the reply "done" is not returned. -/
theorem completion_verification_gate_login :
    (loginRun "\x7b\x7d" 8).state.lastAssistant.map (·.flattenedText) = some "done" ∧
      FixedMessage loginGateEnv (loginRun "\x7b\x7d" 8).state
        (chatMessage loginGateEnv (loginRun "\x7b\x7d" 8).state) := by
  have hended : Ended loginGateEnv [] "log in" (loginRun "\x7b\x7d" 8).state :=
    ended_of_run rfl (reaches_iterate _ 8 fun _ _ h => h.elim) (by decide)
  have hsatisfied : (loginRun "\x7b\x7d" 8).state.ledger.completionVerificationSatisfied = false := by
    decide
  exact ⟨by decide, ((completion_verification_gate _ _ _ _ hended).1
    (hended.spec.1.unverified.mp hsatisfied)).1⟩

end Gate

end T560.Provider
