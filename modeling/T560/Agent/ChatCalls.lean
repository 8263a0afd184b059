import T560.Agent.ChatService
import T560.Js.Ascii
import T560.Setup.Identifier

/-!
# The provider calls of a message

A message asks a provider at most twice, and the second time for a reason that the first error
gives: another route when the provider could not be reached, the same route when it answered with
nothing. A message that belongs to a setup asks no provider. The timeouts stay within their bounds
whatever the environment holds.
-/

namespace T560.Agent

open Config (T560Config OnboardingStatus RoutingTarget Slot resolveRoutingTarget fullTarget)
open Js (Runtime trim startsWith)
open Program (Reaches Ends ends_bind ends_done ends_perform ends_attempt_perform reaches_bind reaches_done
  reaches_perform reaches_attempt_perform)

/-- A call with what it brought. -/
abbrev Entry : Type := (c : Call) × Except String c.Answer

/-- A call is written to the log. -/
def Logs (log : List Entry) (c : Call) (r : Except String c.Answer) (log' : List Entry) : Prop :=
  log' = log ++ [⟨c, r⟩]

/-- A provider that was asked, with the outcome. -/
structure Asked where
  target : RoutingTarget
  message : String
  outcome : Except String (Option ProviderReply)

def askedBy : Entry → Option Asked
  | ⟨.chatWithProvider target message _, outcome⟩ => some ⟨target, message, outcome⟩
  | _ => none

def asked (log : List Entry) : List Asked := log.filterMap askedBy

/-- The call failed with the error. A timer that won has an error text of its own. -/
def Asked.Failed (a : Asked) (errorMessage : String) : Prop :=
  ∃ timeoutMessage, raced timeoutMessage a.outcome = .error errorMessage

section Routes
variable (rt : Runtime) {config : T560Config} {failed route : RoutingTarget}

/-- The routes of a map by key are routes it was made from, each under its key. -/
theorem get_routesByKey {routes : List RoutingTarget} {key : String}
    (h : (routesByKey rt routes).get key = some route) : route ∈ routes ∧ routeKey rt route = key := by
  have hfold : ∀ (routes : List RoutingTarget) (m : InsertionMap String RoutingTarget) (all : List RoutingTarget),
      (∀ key route, m.get key = some route → route ∈ all ∧ routeKey rt route = key) →
      (∀ route ∈ routes, route ∈ all) →
      ∀ key route, (routes.foldl (fun m route => m.set (routeKey rt route) route) m).get key = some route →
        route ∈ all ∧ routeKey rt route = key := by
    intro routes
    induction routes with
    | nil => exact fun m all hm _ => hm
    | cons first routes ih =>
      intro m all hm hall
      refine ih _ all ?_ fun route hroute => hall route (List.mem_cons_of_mem _ hroute)
      intro key route hget
      rw [InsertionMap.get_set_eq_some_iff] at hget
      split at hget
      · next hkey =>
        subst hget
        exact ⟨hall route List.mem_cons_self, hkey.symm⟩
      · exact hm key route hget
  refine hfold routes .empty routes ?_ (fun _ h => h) key route h
  intro key route hget
  cases hget

/-- A fallback route is configured for a slot and differs from the one that failed. -/
theorem chooseFallbackRoute_spec (h : chooseFallbackRoute rt config failed = some route) :
    (∃ slot, resolveRoutingTarget rt config slot = some route) ∧
      routeKey rt route ≠ routeKey rt failed := by
  unfold chooseFallbackRoute at h
  dsimp only at h
  set candidates := [Slot.default, .planning, .coding].filterMap fun slot =>
    fullTarget (resolveRoutingTarget rt config slot) with hcandidates
  have hmem : route ∈ (routesByKey rt candidates).values.filter fun route =>
      routeKey rt route ≠ "" && routeKey rt route ≠ routeKey rt failed := by
    rcases Option.or_eq_some_iff.mp h with h | ⟨-, h⟩
    · exact List.mem_of_find?_eq_some h
    · exact List.mem_of_mem_head? h
  obtain ⟨hvalue, hkey⟩ := List.mem_filter.mp hmem
  obtain ⟨key, hget⟩ := InsertionMap.mem_values_iff.mp hvalue
  obtain ⟨hroute, -⟩ := get_routesByKey rt hget
  rw [hcandidates, List.mem_filterMap] at hroute
  obtain ⟨slot, -, hslot⟩ := hroute
  simp only [Bool.and_eq_true, decide_eq_true_eq, ne_eq] at hkey
  exact ⟨⟨slot, (Option.filter_eq_some_iff.mp hslot).1⟩, hkey.2⟩

end Routes

section Errors
variable (rt : Runtime) {message : String}

theorem mentions_mono {text : String} {parts others : List String} (h : ∀ p ∈ parts, p ∈ others)
    (hm : mentions text parts = true) : mentions text others = true := by
  rw [mentions, List.any_eq_true] at hm ⊢
  obtain ⟨p, hp, hin⟩ := hm
  exact ⟨p, h p hp, hin⟩

/-- What counts as a lost connection is not recoverable. -/
theorem nonRecoverable_of_connectivity (h : isConnectivityProviderError rt message = true) :
    isNonRecoverableProviderError rt message = true :=
  mentions_mono (by decide) h

theorem not_connectivity_of_resume (h : shouldAutoResumeAfterProviderError rt message = true) :
    isConnectivityProviderError rt message = false ∧ isTimeoutLikeError rt message = false ∧
      isLikelyTokenExhaustion rt message = false := by
  simp only [shouldAutoResumeAfterProviderError, Bool.and_eq_true, Bool.not_eq_true'] at h
  obtain ⟨⟨hnot, hlength⟩, -⟩ := h
  refine ⟨?_, ?_, hlength⟩
  · by_contra hconn
    rw [nonRecoverable_of_connectivity rt (Bool.not_eq_false _ ▸ hconn)] at hnot
    cases hnot
  · by_contra htime
    have hnon : isNonRecoverableProviderError rt message = true :=
      mentions_mono (by decide) (Bool.not_eq_false _ ▸ htime)
    rw [hnon] at hnot
    cases hnot

end Errors

section Calls
variable {env : ServiceEnv} {config : T560Config} {input : GatewayInboundMessage} {log log' : List Entry}
  {reply : ChatResponse}

theorem asked_append (log log' : List Entry) : asked (log ++ log') = asked log ++ asked log' :=
  List.filterMap_append

theorem ends_askProvider {received message timeoutText : String} {route : RoutingTarget}
    {r : Except String ProviderReply}
    (h : Ends Logs log (askProvider env config received route message timeoutText) r log') :
    ∃ outcome timeoutMessage, asked log' = asked log ++ [⟨route, message, outcome⟩] ∧
      r = raced timeoutMessage outcome := by
  obtain ⟨outcome, mid, hcall, h⟩ := ends_bind.mp h
  obtain ⟨rfl, rfl⟩ := ends_done h
  have hlog := ends_attempt_perform.mp hcall
  unfold Logs at hlog
  subst hlog
  exact ⟨outcome, _, asked_append _ _, rfl⟩

/-- What a provider returned is what the user gets; its error is told in an error reply. -/
structure Conveys (a : Asked) (reply : ChatResponse) : Prop where
  returned : ∀ r, a.outcome = .ok (some r) → reply.thinking = r.thinking ∧
    reply.toolCalls = r.toolCalls ∧ reply.provider = some r.provider ∧ reply.model = some r.model ∧
    r.message.toList <:+: reply.message.toList
  failed : ∀ e, a.outcome = .error e → reply.toolCalls = [] ∧ e.toList <:+: reply.message.toList

/-- The second call goes to another configured route. -/
structure FellBack (env : ServiceEnv) (config : T560Config) (input : GatewayInboundMessage) (a b : Asked)
    (e : String) : Prop where
  message : b.message = input.message
  lost : isConnectivityProviderError env.rt e = true
  allowed : allowCrossSlotFallback env = true
  fromLocal : isLikelyLocalRoute env config a.target = true → allowFallbackFromLocal env = true
  timely : isLikelyLocalRoute env config a.target = true → isTimeoutLikeError env.rt e = true →
    trim ((env.setting "T560_ALLOW_FALLBACK_ON_LOCAL_TIMEOUT").getD "") = "1"
  configured : ∃ slot, resolveRoutingTarget env.rt config slot = some b.target
  other : routeKey env.rt b.target ≠ routeKey env.rt a.target

/-- The second call asks the provider to go on. -/
structure Resumed (env : ServiceEnv) (a b : Asked) (e : String) : Prop where
  message : b.message = resumeText
  same : b.target = a.target
  goesOn : shouldAutoResumeAfterProviderError env.rt e = true
  reached : isConnectivityProviderError env.rt e = false ∧ isTimeoutLikeError env.rt e = false ∧
    isLikelyTokenExhaustion env.rt e = false

/-- The course of a message: whom it asks, and what the user gets. -/
structure Course (env : ServiceEnv) (config : T560Config) (input : GatewayInboundMessage)
    (asks : List Asked) (reply : ChatResponse) : Prop where
  twice : asks.length ≤ 2
  first : ∀ a ∈ asks.head?, a.message = input.message ∧
    ∃ slot, resolveRoutingTarget env.rt config slot = some a.target
  second : ∀ a b, asks = [a, b] →
    ∃ e, a.Failed e ∧ (FellBack env config input a b e ∨ Resumed env a b e)
  last : ∀ a ∈ asks.getLast?, Conveys a reply

theorem infix_toList (front part back : String) : part.toList <:+: (front ++ part ++ back).toList :=
  ⟨front.toList, back.toList, by simp⟩

theorem infix_behind {part back : String} (front : String) (h : part.toList <:+: back.toList) :
    part.toList <:+: (front ++ back).toList := by
  rw [String.toList_append]
  exact h.trans (List.suffix_append _ _).isInfix

theorem infix_formatProviderError {route : Option RoutingTarget} {slot : Slot} {channel message part : String}
    (h : part.toList <:+: message.toList) :
    part.toList <:+: (formatProviderError route slot channel message).toList := by
  unfold formatProviderError
  exact infix_behind _ h

theorem conveys_providerResponse {a : Asked} {r : ProviderReply} {message : String}
    (ha : a.outcome = .ok (some r)) (hmessage : r.message.toList <:+: message.toList) :
    Conveys a (providerResponse r message) where
  returned := by
    intro r' hr'
    rw [ha] at hr'
    cases hr'
    exact ⟨rfl, rfl, rfl, rfl, hmessage⟩
  failed := by
    intro e he
    rw [ha] at he
    cases he

theorem conveys_errorReply {a : Asked} {route : Option RoutingTarget} {slot : Slot}
    {channel message e timeoutMessage : String} (ha : raced timeoutMessage a.outcome = .error e)
    (hmessage : e.toList <:+: message.toList) : Conveys a (errorReply route slot channel message) where
  returned := by
    intro r hr
    rw [hr] at ha
    cases ha
  failed := by
    intro e' he
    rw [he] at ha
    cases ha
    exact ⟨rfl, infix_formatProviderError hmessage⟩

/-- An outcome that counts as a reply is one. -/
theorem outcome_of_raced {timeoutMessage : String} {outcome : Except String (Option ProviderReply)}
    {r : ProviderReply} (h : raced timeoutMessage outcome = .ok r) : outcome = .ok (some r) := by
  match outcome, h with
  | .ok (some _), h => rw [raced] at h; cases h; rfl

/-- The fallback asks one provider, whose outcome the user gets. -/
theorem ends_fallBack {slot : Slot} {route fallbackRoute : RoutingTarget} {e : String}
    (h : Ends Logs log (fallBack env config slot input route fallbackRoute e) reply log') :
    ∃ b, asked log' = asked log ++ [b] ∧ b.target = fallbackRoute ∧ b.message = input.message ∧
      Conveys b reply := by
  obtain ⟨r, mid, hask, h⟩ := ends_bind.mp h
  obtain ⟨outcome, timeoutMessage, hasked, rfl⟩ := ends_askProvider hask
  refine ⟨⟨fallbackRoute, input.message, outcome⟩, ?_, rfl, rfl, ?_⟩
  · cases hr : raced timeoutMessage outcome <;>
      · rw [hr] at h
        obtain ⟨-, rfl⟩ := ends_done h
        exact hasked
  · cases hr : raced timeoutMessage outcome with
    | ok fallback =>
      rw [hr] at h
      obtain ⟨rfl, -⟩ := ends_done h
      refine conveys_providerResponse (outcome_of_raced hr) ?_
      simp only [String.intercalate_cons_cons, String.intercalate_singleton]
      exact infix_behind _ (infix_behind _ (infix_behind _ (List.infix_refl _)))
    | error fallbackMessage =>
      rw [hr] at h
      obtain ⟨rfl, -⟩ := ends_done h
      exact conveys_errorReply hr (infix_toList _ _ _)

/-- The provider is asked to go on, or the user gets the first error. -/
theorem ends_resume {slot : Slot} {route : RoutingTarget} {e : String}
    (h : Ends Logs log (resume env config slot input route e) reply log') :
    (asked log' = asked log ∧ reply = errorReply route slot input.channel e) ∨
    ∃ b, asked log' = asked log ++ [b] ∧ b.target = route ∧ b.message = resumeText ∧
      shouldAutoResumeAfterProviderError env.rt e = true ∧ Conveys b reply := by
  unfold resume at h
  split at h
  · next hresume =>
    obtain ⟨r, mid, hask, h⟩ := ends_bind.mp h
    obtain ⟨outcome, timeoutMessage, hasked, rfl⟩ := ends_askProvider hask
    refine Or.inr ⟨⟨route, resumeText, outcome⟩, ?_, rfl, rfl, hresume, ?_⟩
    · cases hr : raced timeoutMessage outcome <;>
        · rw [hr] at h
          obtain ⟨-, rfl⟩ := ends_done h
          exact hasked
    · cases hr : raced timeoutMessage outcome with
      | ok resumed =>
        rw [hr] at h
        obtain ⟨rfl, -⟩ := ends_done h
        exact conveys_providerResponse (outcome_of_raced hr) (List.infix_refl _)
      | error resumeMessage =>
        rw [hr] at h
        obtain ⟨rfl, -⟩ := ends_done h
        exact conveys_errorReply hr (infix_toList _ _ _)
  · obtain ⟨rfl, rfl⟩ := ends_done h
    exact Or.inl ⟨rfl, rfl⟩

theorem mayFallBack_spec {route : RoutingTarget} {e : String} (h : mayFallBack env config route e = true) :
    isConnectivityProviderError env.rt e = true ∧ allowCrossSlotFallback env = true ∧
      (isLikelyLocalRoute env config route = true → allowFallbackFromLocal env = true) ∧
      (isLikelyLocalRoute env config route = true → isTimeoutLikeError env.rt e = true →
        trim ((env.setting "T560_ALLOW_FALLBACK_ON_LOCAL_TIMEOUT").getD "") = "1") := by
  simp only [mayFallBack, Bool.and_eq_true, Bool.not_eq_true'] at h
  obtain ⟨⟨⟨hlost, htimely⟩, hlocal⟩, hcross⟩ := h
  refine ⟨hlost, hcross, fun hroute => ?_, fun hroute htimeout => ?_⟩
  · rw [hroute, Bool.true_and, Bool.not_eq_false'] at hlocal
    exact hlocal
  · rw [hroute, htimeout] at htimely
    simpa using htimely

theorem course_none (reply : ChatResponse) : Course env config input [] reply where
  twice := by simp
  first := by simp
  second := by simp
  last := by simp

/-- The part behind the setup flow. -/
theorem ends_routeMessage (h : Ends Logs log (routeMessage env config input) reply log') :
    ∃ asks, asked log' = asked log ++ asks ∧ Course env config input asks reply := by
  unfold routeMessage at h
  dsimp only at h
  split at h
  · obtain ⟨-, rfl⟩ := ends_done h
    exact ⟨[], by simp, course_none reply⟩
  next route hroute =>
  have hconfigured : ∃ slot, resolveRoutingTarget env.rt config slot = some route := by
    rcases Option.or_eq_some_iff.mp (Option.filter_eq_some_iff.mp hroute).1 with h | ⟨-, h⟩
    · exact ⟨_, h⟩
    · exact ⟨_, h⟩
  obtain ⟨r, mid, hask, h⟩ := ends_bind.mp h
  obtain ⟨outcome, timeoutMessage, hasked, rfl⟩ := ends_askProvider hask
  cases hr : raced timeoutMessage outcome with
  | ok response =>
    rw [hr] at h
    obtain ⟨rfl, rfl⟩ := ends_done h
    refine ⟨_, hasked, by simp, by simpa using hconfigured, by simp, ?_⟩
    simpa using conveys_providerResponse (a := ⟨route, input.message, outcome⟩) (outcome_of_raced hr)
      (List.infix_refl _)
  | error e =>
    have hfailed : Asked.Failed ⟨route, input.message, outcome⟩ e := ⟨timeoutMessage, hr⟩
    rw [hr] at h
    dsimp only at h
    split at h
    · next fallbackRoute hfallback =>
      split at hfallback
      · next hmay =>
        obtain ⟨hlost, hcross, hlocal, htimely⟩ := mayFallBack_spec hmay
        obtain ⟨hslot, hkey⟩ := chooseFallbackRoute_spec env.rt hfallback
        obtain ⟨b, hb, rfl, hmessage, hconveys⟩ := ends_fallBack h
        refine ⟨[⟨route, input.message, outcome⟩, b], by rw [hb, hasked, List.append_assoc]; rfl, by simp,
          by simpa using hconfigured, ?_, by simpa using hconveys⟩
        intro a b' hab
        obtain ⟨rfl, rfl⟩ : _ = a ∧ b = b' := by simpa using hab
        exact ⟨e, hfailed, Or.inl ⟨hmessage, hlost, hcross, hlocal, htimely, hslot, hkey⟩⟩
      · cases hfallback
    · obtain ⟨hnone, rfl⟩ | ⟨b, hb, htarget, hmessage, hresume, hconveys⟩ := ends_resume h
      · refine ⟨_, hnone.trans hasked, by simp, by simpa using hconfigured, by simp, ?_⟩
        simpa using conveys_errorReply (a := ⟨route, input.message, outcome⟩) hr (List.infix_refl _)
      · refine ⟨[⟨route, input.message, outcome⟩, b], by rw [hb, hasked, List.append_assoc]; rfl, by simp,
          by simpa using hconfigured, ?_, by simpa using hconveys⟩
        intro a b' hab
        obtain ⟨rfl, rfl⟩ : _ = a ∧ b = b' := by simpa using hab
        exact ⟨e, hfailed, Or.inr ⟨hmessage, htarget, hresume, not_connectivity_of_resume env.rt hresume⟩⟩

/-- The log only grows. -/
theorem logs_grow {α : Type} {p : Body α} (h : Reaches Logs log p log') : log <+: log' := by
  induction h with
  | here => exact List.prefix_refl _
  | later r hcall _ ih =>
    obtain rfl := hcall
    exact (List.prefix_append _ _).trans ih

/-- Behind the status and the setup flow comes the routed part, when the message is not for the
flow and the installation is onboarded. -/
theorem process_cases (h : Ends Logs [] (processChatMessage env input) reply log) :
    ∃ (status : OnboardingStatus) (setup : Except String (Option String)),
      [⟨.readOnboardingStatus, .ok status⟩,
        ⟨.handleSecureSetupFlow input.sessionId input.message, setup⟩] <+: log ∧
      (asked log = [] ∨ setup = .ok none ∧ status.onboarded = true ∧
        Course env status.config input (asked log) reply) := by
  obtain ⟨status, mid, hstatus, h⟩ := ends_bind.mp h
  have hmid := ends_perform.mp hstatus
  unfold Logs at hmid
  subst hmid
  obtain ⟨setup, mid, hsetup, h⟩ := ends_bind.mp h
  have hmid := ends_attempt_perform.mp hsetup
  unfold Logs at hmid
  subst hmid
  refine ⟨status, setup, logs_grow h.reaches, ?_⟩
  match setup, h with
  | .error setupError, h =>
    obtain ⟨-, rfl⟩ := ends_done h
    exact Or.inl rfl
  | .ok (some message), h =>
    obtain ⟨-, rfl⟩ := ends_done h
    exact Or.inl rfl
  | .ok none, h =>
    dsimp only at h
    split at h
    · next honboarded =>
      obtain ⟨asks, hasks, hcourse⟩ := ends_routeMessage h
      obtain rfl : asked log = asks := hasks
      exact Or.inr ⟨rfl, honboarded, hcourse⟩
    · obtain ⟨-, rfl⟩ := ends_done h
      exact Or.inl rfl

/-- Two slots with a provider each. -/
def twoRoutes : T560Config where
  routing := some { default := some ⟨"alpha", "m"⟩, planning := some ⟨"beta", "m"⟩, coding := none }

def crossSlotEnv : ServiceEnv where
  rt := Js.asciiRuntime
  setting name := if name = "T560_ALLOW_CROSS_SLOT_FALLBACK" then some "1" else none
  hostname _ := none

def greeting : GatewayInboundMessage := ⟨"webchat", "hi", "webchat:a", "webchat-user"⟩

/-- The log when the provider is asked for the first time. -/
def onboardedLog : List Entry :=
  [⟨.readOnboardingStatus, .ok ⟨true, [], twoRoutes⟩⟩,
    ⟨.handleSecureSetupFlow greeting.sessionId greeting.message, .ok none⟩]

end Calls

section Setup

open Setup (SetupEnv FlowState Surroundings SetupFlowResult handleSecureSetupFlow
  handleSecureSetupFlow_slash handleSecureSetupFlow_input handleSlashSetupCommand_answers)

variable {Key Sealed : Type} {setup : SetupEnv Key Sealed} {s : FlowState Key Sealed}
  {session message : String} {at_ : Surroundings Key}

/-- The message belongs to a setup: one is pending in its session, or it is a command of the flow. -/
def ForSetup (s : FlowState Key Sealed) (session message : String) : Prop :=
  s.pending session ≠ none ∨ startsWith "/setup" (trim message) = true

theorem pending_answers (h : s.pending session ≠ none) :
    (Setup.handlePendingSetupInput setup at_ session s message).2 ≠ .ignored := by
  obtain ⟨pending, hpending⟩ := Option.ne_none_iff_exists'.mp h
  unfold Setup.handlePendingSetupInput
  rw [hpending]
  dsimp only
  split
  · exact SetupFlowResult.noConfusion
  split
  · split <;> exact SetupFlowResult.noConfusion
  cases pending.step with
  | identifier => exact SetupFlowResult.noConfusion
  | authMode =>
    dsimp only
    cases Setup.normalizeAuthMode setup (trim message) <;> exact SetupFlowResult.noConfusion
  | secret =>
    dsimp only
    split
    · exact SetupFlowResult.noConfusion
    · unfold Setup.saveSecret
      dsimp only
      split <;> exact SetupFlowResult.noConfusion

theorem forSetup_answers (h : ForSetup s session message) :
    (handleSecureSetupFlow setup at_ session s message).2 ≠ .ignored := by
  cases hslash : startsWith "/setup" (trim message) with
  | true =>
    rw [handleSecureSetupFlow_slash hslash]
    exact handleSlashSetupCommand_answers hslash
  | false =>
    rw [handleSecureSetupFlow_input hslash]
    rcases h with h | h
    · exact pending_answers h
    · rw [hslash] at h
      cases h

/-- What the service gets from the flow: `handled: false` only for a message that the flow ignores. -/
def Reports (result : SetupFlowResult) (r : Except String (Option String)) : Prop :=
  r = .ok none → result = .ignored

/-- A message that belongs to a setup asks no provider, at no moment of its course and whatever
else the calls bring. -/
theorem setup_message_asks_nobody (env : ServiceEnv) (setup : SetupEnv Key Sealed)
    (s : FlowState Key Sealed) (at_ : Surroundings Key) (input : GatewayInboundMessage)
    (log : List Entry) (h : Reaches Logs [] (processChatMessage env input) log)
    (hflow : ∀ r, ⟨.handleSecureSetupFlow input.sessionId input.message, r⟩ ∈ log →
      Reports (handleSecureSetupFlow setup at_ input.sessionId s input.message).2 r)
    (hsetup : ForSetup s input.sessionId input.message) : asked log = [] := by
  rcases reaches_bind.mp h with hstatus | ⟨status, mid, hstatus, h⟩
  · rcases reaches_perform.mp hstatus with rfl | ⟨r, rfl⟩ <;> rfl
  obtain rfl := ends_perform.mp hstatus
  rcases reaches_bind.mp h with hcall | ⟨r, mid, hcall, h⟩
  · rcases reaches_attempt_perform.mp hcall with rfl | ⟨r, rfl⟩ <;> rfl
  obtain rfl := ends_attempt_perform.mp hcall
  match r, h with
  | .error setupError, h =>
    obtain rfl := reaches_done h
    rfl
  | .ok (some message), h =>
    obtain rfl := reaches_done h
    rfl
  | .ok none, h =>
    have hreports := hflow (.ok none) ((logs_grow h).subset (by simp))
    exact absurd (hreports rfl) (forSetup_answers hsetup)

/-- A value typed at the first step of a setup. -/
theorem setup_message_asks_nobody_pending :
    ∃ log reply, asked log = [] ∧
      Ends Logs [] (processChatMessage crossSlotEnv greeting) reply log := by
  let s : FlowState Bool (Bool × Js.Value) :=
    { FlowState.idle ⟨none, none⟩ with pending := fun _ => some ⟨"mail.example.com", .identifier, none, none⟩ }
  have h : Ends Logs [] (processChatMessage crossSlotEnv greeting) _ _ :=
    ends_bind.mpr ⟨⟨true, [], twoRoutes⟩, _, ends_perform.mpr rfl,
      ends_bind.mpr ⟨.ok (some "Next: the auth mode."), _, ends_attempt_perform.mpr rfl, .done⟩⟩
  refine ⟨_, _, setup_message_asks_nobody crossSlotEnv Setup.setupEnv s
    { now := 1, iv := 0, freshKey := true } greeting _ h.reaches ?_ (Or.inl (Option.some_ne_none _)), h⟩
  intro r hr hnone
  subst hnone
  rcases List.mem_append.mp hr with hr | hr
  · injection List.mem_singleton.mp hr with hc _
    cases hc
  · injection List.mem_singleton.mp hr with _ hr
    cases hr

end Setup

section Timeouts
variable (env : ServiceEnv)

/-- A timeout within its bounds, wherever the default is. -/
theorem resolveTimeoutMs_bounds (seconds millis : String) {low high default : Int} (hlow : low ≤ default)
    (hhigh : default ≤ high) :
    low ≤ resolveTimeoutMs env seconds millis low high default ∧
      resolveTimeoutMs env seconds millis low high default ≤ high := by
  unfold resolveTimeoutMs
  cases positive? env seconds with
  | some sec => dsimp only; omega
  | none =>
    cases positive? env millis with
    | some ms => dsimp only; omega
    | none => exact ⟨hlow, hhigh⟩

theorem raisedFor_bounds (rt : Runtime) (message : String) {base low high raised : Int} (hlow : low ≤ base)
    (hhigh : base ≤ high) (hraised : raised ≤ high) :
    low ≤ raisedFor rt message base high raised ∧ raisedFor rt message base high raised ≤ high ∧
      (messageLikelyLongRunning rt message = true → raised ≤ raisedFor rt message base high raised) := by
  unfold raisedFor
  split
  · refine ⟨?_, ?_, fun _ => ?_⟩ <;> omega
  · next h => exact ⟨hlow, hhigh, fun hlong => absurd hlong h⟩

/-- The chat timeout stays within its bounds, for every environment, message and route. -/
theorem chat_timeout_bounds (message : String) (route : RoutingTarget) (config : T560Config) :
    MIN_CHAT_TIMEOUT_MS ≤ resolveChatTimeoutForMessage env message route config ∧
      resolveChatTimeoutForMessage env message route config ≤ MAX_CHAT_TIMEOUT_MS ∧
      (isLikelyLocalRoute env config route = true →
        MIN_LOCAL_CHAT_TIMEOUT_MS ≤ resolveChatTimeoutForMessage env message route config) ∧
      (messageLikelyLongRunning env.rt message = true →
        30 * 60000 ≤ resolveChatTimeoutForMessage env message route config) := by
  have hchat := resolveTimeoutMs_bounds env "T560_CHAT_TIMEOUT_SEC" "T560_CHAT_TIMEOUT_MS"
    (show MIN_CHAT_TIMEOUT_MS ≤ DEFAULT_CHAT_TIMEOUT_MS by decide)
    (show DEFAULT_CHAT_TIMEOUT_MS ≤ MAX_CHAT_TIMEOUT_MS by decide)
  have hlocal := resolveTimeoutMs_bounds env "T560_CHAT_TIMEOUT_LOCAL_SEC" "T560_CHAT_TIMEOUT_LOCAL_MS"
    (show MIN_LOCAL_CHAT_TIMEOUT_MS ≤ DEFAULT_LOCAL_CHAT_TIMEOUT_MS by decide)
    (show DEFAULT_LOCAL_CHAT_TIMEOUT_MS ≤ MAX_CHAT_TIMEOUT_MS by decide)
  have hmin : MIN_CHAT_TIMEOUT_MS ≤ MIN_LOCAL_CHAT_TIMEOUT_MS := by decide
  unfold resolveChatTimeoutForMessage
  split
  · obtain ⟨hlow, hhigh, hlong⟩ := raisedFor_bounds env.rt message hlocal.1 hlocal.2
      (show (60 * 60000 : Int) ≤ MAX_CHAT_TIMEOUT_MS by decide)
    refine ⟨le_trans hmin hlow, hhigh, fun _ => hlow, fun h => le_trans ?_ (hlong h)⟩
    decide
  · next hroute =>
    obtain ⟨hlow, hhigh, hlong⟩ := raisedFor_bounds env.rt message hchat.1 hchat.2
      (show (30 * 60000 : Int) ≤ MAX_CHAT_TIMEOUT_MS by decide)
    exact ⟨hlow, hhigh, fun h => absurd h hroute, hlong⟩

/-- The timeout of the gateway around it, likewise. -/
theorem gateway_timeout_bounds (message : String) :
    MIN_GATEWAY_MESSAGE_TIMEOUT_MS ≤ resolveGatewayTimeoutForMessage env message ∧
      resolveGatewayTimeoutForMessage env message ≤ MAX_GATEWAY_MESSAGE_TIMEOUT_MS := by
  have hbase := resolveTimeoutMs_bounds env "T560_GATEWAY_MESSAGE_TIMEOUT_SEC"
    "T560_GATEWAY_MESSAGE_TIMEOUT_MS"
    (show MIN_GATEWAY_MESSAGE_TIMEOUT_MS ≤ DEFAULT_GATEWAY_MESSAGE_TIMEOUT_MS by decide)
    (show DEFAULT_GATEWAY_MESSAGE_TIMEOUT_MS ≤ MAX_GATEWAY_MESSAGE_TIMEOUT_MS by decide)
  obtain ⟨hlow, hhigh, -⟩ := raisedFor_bounds env.rt message hbase.1 hbase.2
    (show (45 * 60000 : Int) ≤ MAX_GATEWAY_MESSAGE_TIMEOUT_MS by decide)
  exact ⟨hlow, hhigh⟩

end Timeouts

end T560.Agent
