import Mathlib.Data.List.Nodup
import T560.Js.Ascii
import T560.Provider.ChatInvariant

/-!
# Results of the calls at a provider request

When the provider is asked again, every call of every earlier reply of the run has
exactly one result, between its reply and the next one, unless a step abandoned calls.
-/

namespace T560.Provider

open Transcript (Message isAssistant)

def countResults (id : String) (ms : List Message) : Nat := (refs ms).count id

/-- Behind `base` every call of every assistant message has exactly one result, and it stands
before the next assistant message. -/
def CallsAnswered (base ms : List Message) : Prop :=
  ∃ run, ms = base ++ run ∧ ∀ before a after, run = before ++ a :: after →
    isAssistant a = true → ∀ id ∈ calledIds a,
      countResults id (after.takeWhile fun m => !isAssistant m) = 1 ∧ countResults id run = 1

def replyIds : Except String AssistantMessage → List String
  | .ok a => a.callIds
  | .error _ => []

/-- The call ids of all replies are distinct. -/
def DistinctIds (env : ChatEnv) : Prop :=
  ∀ n, ((List.range n).flatMap fun i => replyIds (env.reply i)).Nodup

variable {env : ChatEnv} {strict : Prop} {base : List Message}

/-- The messages of a request have the layout of the run. -/
theorem request_layout {c : Config} {req : Request} (h : Invariant env strict base c)
    (hreq : requestOf env c = some req) :
    ∃ st turns, Layout env base st turns ∧ st.messages = req.messages ∧
      (strict → Complete turns) := by
  obtain ⟨control, st⟩ := c
  cases control with
  | round n =>
    obtain ⟨turns, hl, hs⟩ := h
    simp only [requestOf] at hreq
    split at hreq
    · rename_i he
      cases hreq
      refine ⟨st, turns, hl, rfl, fun hstrict => ?_⟩
      simp only [entersRound, Bool.and_eq_true, decide_eq_true_eq] at he
      rcases hs hstrict with hc | ⟨hn, -⟩
      · exact hc
      · omega
    · cases hreq
  | finalization =>
    obtain ⟨turns, hl, hs⟩ := h
    simp only [requestOf] at hreq
    split at hreq
    · rename_i hn
      cases hreq
      obtain ⟨turns', hl', hc'⟩ := hl.pushUser finalAnswerInstruction
      refine ⟨_, turns', hl', rfl, fun hstrict => hc' ?_⟩
      simp only [needsFinalAnswer, Bool.and_eq_true, Bool.not_eq_true'] at hn
      rcases hs hstrict with hc | hc | hc
      · exact hc
      · simp [hn.1.1] at hc
      · rw [hn.2] at hc
        cases hc
    · cases hreq
  | calls n a rest => cases hreq
  | roundEnd n => cases hreq
  | retryLogin => cases hreq
  | done => cases hreq
  | thrown => cases hreq

/-- An assistant message is not in a part that holds none. -/
theorem split_quiet {xs ys before after : List Message} {a : Message}
    (hx : ∀ m ∈ xs, isAssistant m = false) (ha : isAssistant a = true)
    (h : xs ++ ys = before ++ a :: after) :
    ∃ before', ys = before' ++ a :: after := by
  induction xs generalizing before with
  | nil => exact ⟨before, h⟩
  | cons x xs ih =>
    cases before with
    | nil =>
      obtain ⟨rfl, -⟩ := List.cons.inj h
      rw [hx x (by simp)] at ha
      cases ha
    | cons b before =>
      exact ih (fun m hm => hx m (by simp [hm])) (List.cons.inj h).2

/-- Every assistant message of the turns opens one of them. -/
theorem split_turns {turns : List Turn} {before after : List Message} {a : Message}
    (hord : ∀ t ∈ turns, t.Ordered) (ha : isAssistant a = true)
    (h : turns.flatMap Turn.messages = before ++ a :: after) :
    ∃ ts t us, turns = ts ++ t :: us ∧ a = t.assistant.toMessage ∧
      after = t.tail ++ us.flatMap Turn.messages := by
  induction turns generalizing before with
  | nil => simp at h
  | cons t turns ih =>
    rw [List.flatMap_cons, Turn.messages, List.cons_append] at h
    cases before with
    | nil =>
      obtain ⟨h1, h2⟩ := List.cons.inj h
      exact ⟨[], t, turns, rfl, h1.symm, h2.symm⟩
    | cons b before =>
      obtain ⟨-, h2⟩ := List.cons.inj h
      have hquiet := fun m hm => ((hord t (by simp)).appended m hm).not_assistant
      obtain ⟨before', h3⟩ := split_quiet hquiet ha h2
      obtain ⟨ts, u, us, rfl, h4, h5⟩ := ih (fun u hu => hord u (by simp [hu])) h3
      exact ⟨t :: ts, u, us, rfl, h4, h5⟩

theorem takeWhile_turn {t : Turn} {us : List Turn} (hord : t.Ordered) :
    (t.tail ++ us.flatMap Turn.messages).takeWhile (fun m => !isAssistant m) = t.tail := by
  have hquiet : ∀ m ∈ t.tail, (!isAssistant m) = true := by
    intro m hm
    simp [(hord.appended m hm).not_assistant]
  rw [List.takeWhile_append_of_pos hquiet]
  cases us with
  | nil => simp
  | cons u us => simp [Turn.messages]

theorem refs_turns (turns : List Turn) :
    refs (turns.flatMap Turn.messages) = turns.flatMap fun t => refs t.tail := by
  induction turns with
  | nil => rfl
  | cons t turns ih =>
    rw [List.flatMap_cons, refs_append, refs_turn, ih, List.flatMap_cons]

theorem refs_lead {lead : List Message} (h : ∀ m ∈ lead, ∃ text t, m = userMessage text t) :
    refs lead = [] := by
  refine List.filterMap_eq_nil_iff.mpr fun m hm => ?_
  obtain ⟨text, t, rfl⟩ := h m hm
  exact resultRef_userMessage text t

/-- The calls of the turns are the calls of the replies so far. -/
theorem callIds_turns {st : RunState} {turns : List Turn} (h : Layout env base st turns) :
    turns.flatMap (fun t => t.assistant.callIds) =
      (List.range turns.length).flatMap fun i => replyIds (env.reply i) := by
  have := congrArg (List.flatMap replyIds) h.replies
  simpa [List.flatMap_map, replyIds] using this

theorem callsAnswered_of_complete {st : RunState} {turns : List Turn}
    (h : Layout env base st turns) (hc : Complete turns) (hids : DistinctIds env) :
    CallsAnswered base st.messages := by
  obtain ⟨lead, hm, hq⟩ := h.split
  refine ⟨_, hm, ?_⟩
  intro before a after hrun ha id hid
  have hlead : ∀ m ∈ lead, isAssistant m = false := by
    intro m hm
    obtain ⟨text, t, rfl⟩ := hq m hm
    exact isAssistant_userMessage text t
  obtain ⟨before', hturns⟩ := split_quiet hlead ha hrun
  obtain ⟨ts, t, us, rfl, rfl, rfl⟩ := split_turns h.ordered ha hturns
  rw [calledIds_toMessage] at hid
  have hsettled : refs t.tail = t.assistant.callIds := hc t (by simp)
  have hall : refs (lead ++ (ts ++ t :: us).flatMap Turn.messages) =
      (ts ++ t :: us).flatMap fun t => t.assistant.callIds := by
    rw [refs_append, refs_lead hq, refs_turns, List.nil_append]
    exact List.flatMap_congr fun u hu => hc u hu
  have hnodup : ((ts ++ t :: us).flatMap fun t => t.assistant.callIds).Nodup := by
    rw [callIds_turns h]
    exact hids _
  have hone : t.assistant.callIds.Nodup :=
    (List.nodup_flatMap.mp hnodup).1 t (by simp)
  constructor
  · rw [takeWhile_turn (h.ordered t (by simp)), countResults, hsettled]
    exact List.count_eq_one_of_mem hone hid
  · rw [countResults, hall]
    exact List.count_eq_one_of_mem hnodup (List.mem_flatMap.mpr ⟨t, by simp, hid⟩)

/-- In a run whose steps abandon no call, at every request every call of every earlier reply
has exactly one result, between its reply and the next. -/
theorem request_calls_answered (env : ChatEnv) (hids : DistinctIds env) (history : List Message)
    (content : String) (c : Config)
    (hrun : Relation.ReflTransGen (Step env True) (start env history content) c)
    (req : Request) (hreq : requestOf env c = some req) :
    CallsAnswered (historyForRun env history) req.messages := by
  obtain ⟨st, turns, hl, hm, hc⟩ := request_layout (invariant_run hrun) hreq
  rw [← hm]
  exact callsAnswered_of_complete hl (hc trivial) hids

theorem reaches_iterate (c : Config) (n : Nat)
    (h : ∀ k < n, strict → KeepsCalls env ((step env)^[k] c)) :
    Relation.ReflTransGen (Step env strict) c ((step env)^[n] c) := by
  induction n with
  | zero => exact .refl
  | succ n ih =>
    refine .tail (ih fun k hk => h k (by omega)) ⟨h n (by omega), ?_⟩
    rw [Function.iterate_succ_apply']

theorem distinctIds_of_one (h : ∀ i, replyIds (env.reply (i + 1)) = [])
    (h0 : (replyIds (env.reply 0)).Nodup) : DistinctIds env := by
  intro n
  cases n with
  | zero => exact List.nodup_nil
  | succ n =>
    have hnone : (List.range n).flatMap (fun i => replyIds (env.reply (i + 1))) = [] :=
      List.flatMap_eq_nil_iff.mpr fun i _ => h i
    rw [List.range_succ_eq_map, List.flatMap_cons, List.flatMap_map, hnone, List.append_nil]
    exact h0

instance (env : ChatEnv) (n : Nat) (a : AssistantMessage) (call : ToolCall)
    (rest : List ToolCall) (st : RunState) : Decidable (Abandons env n a call rest st) :=
  inferInstanceAs (Decidable (ite _ _ _))

instance (env : ChatEnv) (c : Config) : Decidable (KeepsCalls env c) :=
  match c with
  | ⟨.calls n a (call :: rest), st⟩ => inferInstanceAs (Decidable (¬ Abandons env n a call rest st))
  | ⟨.calls _ _ [], _⟩ | ⟨.round _, _⟩ | ⟨.roundEnd _, _⟩ | ⟨.retryLogin, _⟩
  | ⟨.finalization, _⟩ | ⟨.done, _⟩ | ⟨.thrown, _⟩ => isTrue trivial

/-- The login outcome of a site that mails its code to a configured mailbox. -/
def mailedCodeText : String :=
  "\x7b\"requiresMfa\":true,\"mfaSourceService\":\"mail\"," ++
    "\"mfaSourceCredentialAvailable\":true\x7d"

def loginReply : AssistantMessage :=
  { content := [.toolCall ⟨"a", "browser", .obj [("action", .str "login")]⟩] }

/-- A request to log in, answered by one browser login and then by a text; the login either
needs a mailed code or has already succeeded. -/
def loginEnv (content : String) : ChatEnv where
  rt := Js.asciiRuntime
  parse := fun text =>
    if text = mailedCodeText then
      some (.obj [("requiresMfa", .bool true), ("mfaSourceService", .str "mail"),
        ("mfaSourceCredentialAvailable", .bool true)])
    else if text = "\x7b\x7d" then some (.obj [])
    else none
  execution := fun _ => { result := .ok ⟨false, content⟩ }
  looksLikeStateMutationCommand := fun _ => false
  looksLikeStateVerificationCommand := fun _ => false
  reply := fun n => .ok (if n = 0 then loginReply else { content := [.text "done"] })
  now := fun n => n
  compactMode := false
  compactHistorySetting := none
  forceToolUse := true
  emailTool := true
  webSearchTool := false
  webFetchTool := false
  identityQuestion := false
  identityGroundingInstruction := ""
  isIdentityAnswerGrounded := fun _ => true
  looksLikeLoginIntent := true
  looksLikeAccountDashboardIntent := false
  looksLikeSiteVisitIntent := false
  hasLikelyLoginIntent := true
  hasLikelyLogoutIntent := false
  likelyLookup := false
  requestLikelyNeedsCompletionVerification := true
  assistantIsAskingForIdentifier := fun _ => false
  resolveSavedServiceFromBrowserOutcomes := fun _ => none
  toolSkillReminders := fun _ => none
  clampTextForModelContext := fun text => text
  pendingMfaAtStart := none
  savedServiceFromMessage := none
  autoAuthIntent := true
  targetUrl := none
  extractLikelyOneTimeCodeFromEmailOutcome := fun _ => none

theorem loginEnv_distinctIds (content : String) : DistinctIds (loginEnv content) :=
  distinctIds_of_one (fun _ => rfl) (List.nodup_singleton "a")

/-- The run of `loginEnv` after the given number of steps. -/
def loginRun (content : String) (steps : Nat) : Config :=
  (step (loginEnv content))^[steps] (start (loginEnv content) [] "log in")

theorem request_calls_answered_login :
    ∃ req, requestOf (loginEnv "\x7b\x7d") (loginRun "\x7b\x7d" 4) = some req ∧
      CallsAnswered (historyForRun (loginEnv "\x7b\x7d") []) req.messages :=
  ⟨_, rfl, request_calls_answered _ (loginEnv_distinctIds _) [] "log in" _
    (reaches_iterate _ 4 (by decide)) _ rfl⟩

/-- A login that needs a mailed code: the next request follows the call without a result. -/
theorem mailbox_login_unanswered :
    DistinctIds (loginEnv mailedCodeText) ∧ ∃ c req,
      Relation.ReflTransGen (Step (loginEnv mailedCodeText) False)
        (start (loginEnv mailedCodeText) [] "log in") c ∧
      requestOf (loginEnv mailedCodeText) c = some req ∧
      ¬ CallsAnswered (historyForRun (loginEnv mailedCodeText) []) req.messages := by
  refine ⟨loginEnv_distinctIds _, loginRun mailedCodeText 3, _,
    reaches_iterate _ 3 (fun _ _ h => h.elim), rfl, ?_⟩
  rintro ⟨run, hm, h⟩
  have hrun : run = (loginRun mailedCodeText 3).state.messages := hm.symm
  subst hrun
  have hone := h [userMessage "log in" 0] loginReply.toMessage
    [userMessage (buildAutoMfaFromEmailInstruction "mail" (some ⟨none, some "mail", none⟩)) 2]
    rfl (by decide) "a" (by decide)
  exact absurd hone.2 (by decide)

end T560.Provider
