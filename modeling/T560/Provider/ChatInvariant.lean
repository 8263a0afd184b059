import T560.Provider.ChatLayout

/-! One step of a run keeps the layout of its messages. -/
namespace T560.Provider

open Transcript (Message)

variable (env : ChatEnv)

/-- A successful browser login that sends the model to the mailbox for its code. -/
def asksMailbox (call : ToolCall) (outcome : Outcome) : Bool :=
  normalizeName env.rt call.name = "browser" && !outcome.isError &&
    (match actionOf env.rt call.arguments with
      | .ok action => action = "login"
      | .error _ => false) &&
    match parseBrowserMfaState env.toToolEnv outcome.content with
    | .ok mfa =>
      mfa.requiresMfa && mfa.mfaSourceCredentialAvailable && mfa.mfaSourceService.isSome &&
        env.emailTool
    | .error _ => false

/-- A call whose processing leaves calls of the reply without a result although the provider
is asked again: the mailbox instruction takes the place of the result, or the loop over the
calls stops before the last one and the reply has no text. -/
def Abandons (n : Nat) (a : AssistantMessage) (call : ToolCall) (rest : List ToolCall)
    (st : RunState) : Prop :=
  let ev := env.execution st.ledger.executed
  if asksMailbox env call ev.outcome then n + 1 < maxToolRounds env ∨ a.flattenedText = ""
  else stopsCalls env ev.outcome (noteBlocked ev st) = true ∧ rest ≠ [] ∧ a.flattenedText = ""

/-- The step abandons no call. -/
def KeepsCalls (c : Config) : Prop :=
  match c.control with
  | .calls n a (call :: rest) => ¬ Abandons env n a call rest c.state
  | _ => True

/-- No finalization request follows. -/
def Closed (st : RunState) : Prop :=
  st.forceWaitForMfaCode = true ∨ st.lastAssistant.any (·.flattenedText = "") = false

def Complete (turns : List Turn) : Prop := ∀ t ∈ turns, t.Settled

/-- What each control point knows. With `strict` the turns are complete wherever another
request may follow. -/
def Invariant (strict : Prop) (base : List Message) (c : Config) : Prop :=
  match c.control with
  | .round n => ∃ turns, Layout env base c.state turns ∧
      (strict → Complete turns ∨ maxToolRounds env ≤ n ∧ Closed c.state)
  | .calls _ a rest => ∃ turns tail done, Layout env base c.state (turns ++ [⟨a, tail⟩]) ∧
      a.toolCalls = done ++ rest ∧ refs tail = done.map (·.id) ∧
      c.state.lastAssistant = some a ∧ (strict → Complete turns)
  | .roundEnd n => ∃ turns, Layout env base c.state turns ∧
      (strict → Complete turns ∨
        (leavesRounds c.state = true ∨ maxToolRounds env ≤ n + 1) ∧ Closed c.state)
  | .retryLogin | .finalization => ∃ turns, Layout env base c.state turns ∧
      (strict → Complete turns ∨ Closed c.state)
  | .done | .thrown => True

variable {env : ChatEnv} {strict : Prop} {base : List Message}

theorem Complete.append {ts us : List Turn} (h : Complete ts) (h' : Complete us) :
    Complete (ts ++ us) := by
  intro t ht
  rcases List.mem_append.mp ht with ht | ht
  · exact h t ht
  · exact h' t ht

theorem loginFollowUp_mailbox (mfa : MfaState) :
    (∃ service, loginFollowUp env mfa = .readMailbox service) ↔
      (mfa.requiresMfa && mfa.mfaSourceCredentialAvailable && mfa.mfaSourceService.isSome &&
        env.emailTool) = true := by
  obtain ⟨r, s, a⟩ := mfa
  cases r <;> cases s <;> cases a <;> cases he : env.emailTool <;> simp [loginFollowUp, he]

/-- The mailbox is asked exactly when the books say so. -/
theorem recordCall_mailbox {call : ToolCall} {ledger ledger' : Ledger} {next : LoginFollowUp}
    (h : recordCall env call ledger = .ok (ledger', next)) :
    asksMailbox env call (env.execution ledger.executed).outcome = true ↔
      ∃ service, next = .readMailbox service := by
  unfold recordCall at h
  obtain ⟨l1, -, h⟩ := Js.exists_of_bind_ok h
  split at h
  · rename_i hb
    obtain ⟨l2, -, h⟩ := Js.exists_of_bind_ok h
    obtain ⟨l3, -, h⟩ := Js.exists_of_bind_ok h
    obtain ⟨action, ha, h⟩ := Js.exists_of_bind_ok h
    split at h
    · rename_i hlogin
      obtain ⟨l4, -, h⟩ := Js.exists_of_bind_ok h
      obtain ⟨mfa, hm, h⟩ := Js.exists_of_bind_ok h
      cases h
      rw [loginFollowUp_mailbox]
      simp only [Bool.and_eq_true, Bool.not_eq_true', decide_eq_true_eq] at hlogin
      simp [asksMailbox, hb, ha, hm, hlogin]
    · rename_i hlogin
      cases h
      simp only [asksMailbox, hb, ha]
      simp_all
  · rename_i hb
    cases h
    simp [asksMailbox, hb]

/-- What follows a reply without calls keeps everything the layout depends on. -/
theorem followUp_frame {n : Nat} {text instruction : String} {st st' : RunState}
    (h : followUp env n text st = some (instruction, st')) :
    st'.messages = st.messages ∧ st'.requestCount = st.requestCount := by
  unfold followUp at h
  split at h
  · cases h
    exact ⟨rfl, rfl⟩
  · dsimp only at h
    split at h
    · cases h
      exact ⟨rfl, rfl⟩
    · split_ifs at h <;> cases h <;> exact ⟨rfl, rfl⟩

theorem retryLogin_frame {st st' : RunState} (h : retryLogin env st = .ok st') :
    st'.messages = st.messages ∧ st'.requestCount = st.requestCount ∧
      st'.lastAssistant = st.lastAssistant ∧
      (st.forceWaitForMfaCode = true → st'.forceWaitForMfaCode = true) := by
  unfold retryLogin at h
  dsimp only at h
  split at h
  · split at h
    · cases h
      exact ⟨rfl, rfl, rfl, id⟩
    · obtain ⟨⟨ledger, outcome⟩, -, h⟩ := Js.exists_of_bind_ok h
      dsimp only at h
      split at h
      · cases h
        exact ⟨rfl, rfl, rfl, id⟩
      · obtain ⟨l, -, h⟩ := Js.exists_of_bind_ok h
        obtain ⟨mfa, -, h⟩ := Js.exists_of_bind_ok h
        cases h
        exact ⟨rfl, rfl, rfl, fun hf => by simp [hf]⟩
  · cases h
    exact ⟨rfl, rfl, rfl, id⟩

theorem Closed.retryLogin {st st' : RunState} (h : retryLogin env st = .ok st')
    (hc : Closed st) : Closed st' := by
  obtain ⟨-, -, hlast, hwait⟩ := retryLogin_frame h
  rcases hc with hc | hc
  · exact Or.inl (hwait hc)
  · exact Or.inr (by rw [hlast]; exact hc)

theorem settled_of_no_calls {a : AssistantMessage} (h : a.toolCalls.isEmpty = true) :
    Turn.Settled ⟨a, []⟩ := by
  have : a.toolCalls = [] := List.isEmpty_iff.mp h
  simp [Turn.Settled, AssistantMessage.callIds, this]

theorem complete_single {t : Turn} (h : t.Settled) : Complete [t] := by
  intro u hu
  obtain rfl := List.mem_singleton.mp hu
  exact h

theorem invariant_round {n : Nat} {st : RunState}
    (h : Invariant env strict base ⟨.round n, st⟩) :
    Invariant env strict base (step env ⟨.round n, st⟩) := by
  obtain ⟨turns, hl, hs⟩ := h
  by_cases he : entersRound env n st = true
  · have hcomplete : strict → Complete turns := by
      intro hstrict
      simp only [entersRound, Bool.and_eq_true, decide_eq_true_eq] at he
      rcases hs hstrict with hc | ⟨hn, -⟩
      · exact hc
      · omega
    simp only [step, he, if_true, roundStep]
    cases hr : env.reply st.requestCount with
    | error e => trivial
    | ok a =>
      dsimp only
      have hopen := fun st' => hl.reply (a := a) st' hr
      by_cases hcalls : a.toolCalls.isEmpty = true
      · simp only [hcalls, if_true]
        have hnew : strict → Complete (turns ++ [⟨a, []⟩]) := fun hstrict =>
          (hcomplete hstrict).append (complete_single (settled_of_no_calls hcalls))
        split
        · rename_i instruction st' hf
          obtain ⟨hm, hc⟩ := followUp_frame hf
          obtain ⟨turns', hl', hs'⟩ := (hopen st' hm hc).pushUser instruction
          exact ⟨turns', hl', fun hstrict => Or.inl (hs' (hnew hstrict))⟩
        · exact ⟨_, hopen _ rfl rfl, fun hstrict => Or.inl (hnew hstrict)⟩
      · simp only [hcalls, Bool.false_eq_true, if_false]
        exact ⟨turns, [], [], hopen _ rfl rfl, rfl, rfl, rfl, hcomplete⟩
  · simp only [step, he, Bool.false_eq_true, if_false]
    refine ⟨turns, hl, fun hstrict => ?_⟩
    rcases hs hstrict with hc | ⟨-, hc⟩
    · exact Or.inl hc
    · exact Or.inr hc

theorem invariant_roundEnd {n : Nat} {st : RunState}
    (h : Invariant env strict base ⟨.roundEnd n, st⟩) :
    Invariant env strict base (step env ⟨.roundEnd n, st⟩) := by
  obtain ⟨turns, hl, hs⟩ := h
  by_cases hleave : leavesRounds st = true
  · simp only [step, hleave, if_true]
    refine ⟨turns, hl, fun hstrict => ?_⟩
    rcases hs hstrict with hc | ⟨-, hc⟩
    · exact Or.inl hc
    · exact Or.inr hc
  · simp only [step, hleave, Bool.false_eq_true, if_false]
    refine ⟨turns, hl, fun hstrict => ?_⟩
    rcases hs hstrict with hc | ⟨hn | hn, hc⟩
    · exact Or.inl hc
    · exact absurd hn hleave
    · exact Or.inr ⟨hn, hc⟩

theorem invariant_retryLogin {st : RunState}
    (h : Invariant env strict base ⟨.retryLogin, st⟩) :
    Invariant env strict base (step env ⟨.retryLogin, st⟩) := by
  obtain ⟨turns, hl, hs⟩ := h
  simp only [step]
  cases hr : retryLogin env st with
  | error e => trivial
  | ok st' =>
    obtain ⟨hm, hc, -, -⟩ := retryLogin_frame hr
    refine ⟨turns, hl.congr st' hm hc, fun hstrict => ?_⟩
    rcases hs hstrict with hcomplete | hclosed
    · exact Or.inl hcomplete
    · exact Or.inr (hclosed.retryLogin hr)

theorem invariant_finalization {st : RunState} :
    Invariant env strict base (step env ⟨.finalization, st⟩) := by
  simp only [step, finalizationStep]
  split_ifs
  · trivial
  · cases env.reply st.requestCount <;> simp only [RunState.pushUser] <;> split <;> trivial
  · trivial

/-- The loop over the calls has come to its end. -/
theorem invariant_callsDone {n : Nat} {a : AssistantMessage} {st : RunState}
    (h : Invariant env strict base ⟨.calls n a [], st⟩) :
    Invariant env strict base (step env ⟨.calls n a [], st⟩) := by
  obtain ⟨turns, tail, done, hl, hcalls, hrefs, -, hs⟩ := h
  have hsettled : Turn.Settled ⟨a, tail⟩ := by
    simp [Turn.Settled, AssistantMessage.callIds, hcalls, hrefs]
  exact ⟨_, hl, fun hstrict => Or.inl ((hs hstrict).append (complete_single hsettled))⟩

/-- A pushed result, with the reminder of its tool behind it. -/
theorem pushResult_spec (env : ChatEnv) (call : ToolCall) (outcome : Outcome) (st : RunState) :
    ∃ more, (pushResult env call outcome st).messages = st.messages ++ more ∧
      refs more = [call.id] ∧ (∀ m ∈ more, Appended m) ∧
      (pushResult env call outcome st).requestCount = st.requestCount ∧
      (pushResult env call outcome st).lastAssistant = st.lastAssistant ∧
      (pushResult env call outcome st).checkoutBlockedMessage = st.checkoutBlockedMessage := by
  unfold pushResult
  dsimp only
  split
  · rename_i reminder _
    refine ⟨[toolResultMessage call (env.clampTextForModelContext outcome.content)
        outcome.isError (env.now st.messages.length), userMessage
        (reminderInstruction (normalizeName env.rt call.name) reminder)
        (env.now (st.messages.length + 1))], ?_, ?_, ?_, rfl, rfl, rfl⟩
    · simp [RunState.pushUser]
    · simp [refs]
    · intro m hm
      rcases List.mem_cons.mp hm with rfl | hm
      · exact .result _ _ _ _
      · obtain rfl := List.mem_singleton.mp hm
        exact .user _ _
  · refine ⟨[toolResultMessage call (env.clampTextForModelContext outcome.content)
        outcome.isError (env.now st.messages.length)], rfl, by simp, ?_, rfl, rfl, rfl⟩
    intro m hm
    obtain rfl := List.mem_singleton.mp hm
    exact .result _ _ _ _

section Call
variable {n : Nat} {a : AssistantMessage} {call : ToolCall} {rest done : List ToolCall}
  {st : RunState} {turns : List Turn} {tail : List Message}

/-- The result of the next call joins the turn of the reply. -/
theorem layout_pushResult (hl : Layout env base st (turns ++ [⟨a, tail⟩]))
    (hcalls : a.toolCalls = done ++ call :: rest) (hrefs : refs tail = done.map (·.id))
    (outcome : Outcome) (st' : RunState) (hm : st'.messages = st.messages)
    (hc : st'.requestCount = st.requestCount) :
    ∃ tail', Layout env base (pushResult env call outcome st') (turns ++ [⟨a, tail'⟩]) ∧
      refs tail' = (done ++ [call]).map (·.id) := by
  obtain ⟨more, hmore, hr, happ, hcount, -⟩ := pushResult_spec env call outcome st'
  have htail : refs (tail ++ more) = (done ++ [call]).map (·.id) := by
    rw [refs_append, hrefs, hr, List.map_append, List.map_singleton]
  refine ⟨tail ++ more, hl.extend _ (by rw [hmore, hm]) (by rw [hcount, hc]) happ ?_, htail⟩
  rw [htail, AssistantMessage.callIds, hcalls]
  exact ⟨rest.map (·.id), by simp⟩

/-- The mailbox instruction joins the turn, which then lacks the result of its call. -/
theorem layout_pushMailbox (hl : Layout env base st (turns ++ [⟨a, tail⟩])) (text : String)
    (st' : RunState) (hm : st'.messages = st.messages)
    (hc : st'.requestCount = st.requestCount) :
    ∃ turns', Layout env base (st'.pushUser env text) turns' := by
  obtain ⟨turns', hl', -⟩ := (hl.congr st' hm hc).pushUser text
  exact ⟨turns', hl'⟩

theorem closed_of_text {st : RunState} (hlast : st.lastAssistant = some a)
    (ht : a.flattenedText ≠ "") : Closed st :=
  Or.inr (by simp [hlast, ht])

/-- The loop stops behind the result of a call. -/
theorem invariant_stopped (hl : Layout env base st (turns ++ [⟨a, tail⟩]))
    (hcalls : a.toolCalls = done ++ call :: rest)
    (hrefs : refs tail = (done ++ [call]).map (·.id)) (hleave : leavesRounds st = true)
    (hs : strict → Complete turns) (hk : strict → rest ≠ [] → Closed st) :
    Invariant env strict base ⟨.roundEnd n, st⟩ := by
  refine ⟨_, hl, fun hstrict => ?_⟩
  cases rest with
  | nil =>
    have hsettled : Turn.Settled ⟨a, tail⟩ := by
      simp [Turn.Settled, AssistantMessage.callIds, hcalls, hrefs]
    exact Or.inl ((hs hstrict).append (complete_single hsettled))
  | cons c rest => exact Or.inr ⟨Or.inl hleave, hk hstrict (by simp)⟩

theorem isPresent_guardrail : isPresent (some guardrailMessage) = true := by decide

theorem invariant_answerCall (outcome : Outcome) (hl : Layout env base st (turns ++ [⟨a, tail⟩]))
    (hcalls : a.toolCalls = done ++ call :: rest) (hrefs : refs tail = done.map (·.id))
    (hlast : st.lastAssistant = some a) (hs : strict → Complete turns)
    (hk : strict → stopsCalls env outcome st = true → rest ≠ [] → a.flattenedText ≠ "") :
    Invariant env strict base (answerCall env n a call rest outcome st) := by
  obtain ⟨tail', hl', hrefs'⟩ := layout_pushResult hl hcalls hrefs outcome st rfl rfl
  obtain ⟨-, -, -, -, -, hlast', hblocked⟩ := pushResult_spec env call outcome st
  by_cases hstreak : (env.compactMode && decide (3 ≤ failureStreak env outcome st)) = true
  · have hstop : stopsCalls env outcome st = true := by
      simp only [stopsCalls, hstreak, Bool.true_or]
    rw [answerCall, if_pos hstreak]
    refine invariant_stopped (hl'.congr _ rfl rfl) hcalls hrefs' ?_ hs fun hstrict hrest =>
      closed_of_text (hlast'.trans hlast) (hk hstrict hstop hrest)
    simp only [leavesRounds, isPresent_guardrail, Bool.or_true]
  · rw [answerCall, if_neg hstreak]
    by_cases hpresent : isPresent st.checkoutBlockedMessage = true
    · have hstop : stopsCalls env outcome st = true := by
        simp only [stopsCalls, hpresent, Bool.or_true]
      rw [if_pos (by rw [hblocked]; exact hpresent)]
      refine invariant_stopped (hl'.congr _ rfl rfl) hcalls hrefs' ?_ hs fun hstrict hrest =>
        closed_of_text (hlast'.trans hlast) (hk hstrict hstop hrest)
      simp only [leavesRounds, hblocked, hpresent, Bool.or_true, Bool.true_or]
    · rw [if_neg (by rw [hblocked]; exact hpresent)]
      exact ⟨turns, tail', done ++ [call], hl'.congr _ rfl rfl, by simp [hcalls], hrefs',
        hlast'.trans hlast, hs⟩

theorem invariant_call (h : Invariant env strict base ⟨.calls n a (call :: rest), st⟩)
    (hk : strict → ¬ Abandons env n a call rest st) :
    Invariant env strict base (step env ⟨.calls n a (call :: rest), st⟩) := by
  obtain ⟨turns, tail, done, hl, hcalls, hrefs, hlast, hs⟩ := h
  simp only [step, callStep]
  cases hrec : recordCall env call st.ledger with
  | error e => trivial
  | ok r =>
    obtain ⟨ledger, next⟩ := r
    have hmail := recordCall_mailbox hrec
    cases next with
    | readMailbox service =>
      have hasks := hmail.mpr ⟨service, rfl⟩
      obtain ⟨turns', hl'⟩ := layout_pushMailbox hl
        (buildAutoMfaFromEmailInstruction service ledger.pendingMfa)
        { noteBlocked (env.execution st.ledger.executed) st with ledger := ledger } rfl rfl
      refine ⟨turns', hl', fun hstrict => Or.inr ?_⟩
      have hno := hk hstrict
      simp only [Abandons, hasks, if_true, not_or, not_lt] at hno
      exact ⟨Or.inr hno.1, closed_of_text hlast hno.2⟩
    | waitForCode =>
      exact ⟨_, hl.congr _ rfl rfl, fun _ =>
        Or.inr ⟨Or.inl (by simp [leavesRounds]), Or.inl rfl⟩⟩
    | continues =>
      have hasks : asksMailbox env call (env.execution st.ledger.executed).outcome = false := by
        by_contra hcon
        obtain ⟨service, hnext⟩ := hmail.mp (by simpa using hcon)
        cases hnext
      refine invariant_answerCall _ (hl.congr _ rfl rfl) hcalls hrefs hlast hs ?_
      intro hstrict hstop hrest ht
      have hno := hk hstrict
      simp only [Abandons, hasks, Bool.false_eq_true, if_false] at hno
      exact hno ⟨hstop, hrest, ht⟩

end Call

/-- One step that abandons no call keeps the invariant. -/
theorem invariant_step (c : Config) (h : Invariant env strict base c)
    (hk : strict → KeepsCalls env c) : Invariant env strict base (step env c) := by
  obtain ⟨control, st⟩ := c
  cases control with
  | round n => exact invariant_round h
  | calls n a rest =>
    cases rest with
    | nil => exact invariant_callsDone h
    | cons call rest => exact invariant_call h hk
  | roundEnd n => exact invariant_roundEnd h
  | retryLogin => exact invariant_retryLogin h
  | finalization => exact invariant_finalization
  | done => trivial
  | thrown => trivial

/-- An instruction that is only given under a condition. -/
theorem Layout.pushUserIf {st : RunState} {turns : List Turn} (h : Layout env base st turns)
    (hc : Complete turns) (b : Bool) (text : String) :
    ∃ turns', Layout env base (if b then st.pushUser env text else st) turns' ∧
      Complete turns' := by
  cases b with
  | false => exact ⟨turns, h, hc⟩
  | true =>
    obtain ⟨turns', h', hs⟩ := h.pushUser text
    exact ⟨turns', h', hs hc⟩

theorem invariant_start (env : ChatEnv) (strict : Prop) (history : List Message)
    (content : String) :
    Invariant env strict (historyForRun env history) (start env history content) := by
  have hempty : Layout env (historyForRun env history)
      { messages := historyForRun env history } [] :=
    ⟨⟨[], by simp, by simp⟩, rfl, rfl, by simp⟩
  obtain ⟨turns, hl, hc⟩ := hempty.pushUser content
  have hcomplete : Complete turns := hc (by simp)
  unfold start
  cases autoLogin env (initialLedger env) with
  | error e => trivial
  | ok r =>
    obtain ⟨ledger, succeeded, waits⟩ := r
    obtain ⟨turns₁, hl₁, hc₁⟩ := (hl.congr { RunState.pushUser env
        { messages := historyForRun env history } content with
      ledger := ledger
      autoAuthLoginSucceeded := succeeded
      forceWaitForMfaCode := waits } rfl rfl).pushUserIf hcomplete
      (succeeded && ledger.latestBrowserLoginState.any fun s => !s.submitted && s.mfaExpected)
      unsubmittedLoginInstruction
    obtain ⟨turns₂, hl₂, hc₂⟩ := hl₁.pushUserIf hc₁ (succeeded && !waits) automaticLoginInstruction
    exact ⟨turns₂, hl₂, fun _ => Or.inl hc₂⟩

/-- A step of a run; a strict one abandons no call. -/
def Step (env : ChatEnv) (strict : Prop) (c c' : Config) : Prop :=
  (strict → KeepsCalls env c) ∧ step env c = c'

theorem invariant_run {history : List Message} {content : String} {c : Config}
    (h : Relation.ReflTransGen (Step env strict) (start env history content) c) :
    Invariant env strict (historyForRun env history) c := by
  induction h with
  | refl => exact invariant_start env strict history content
  | tail _ hstep ih =>
    obtain ⟨hk, rfl⟩ := hstep
    exact invariant_step _ ih hk

end T560.Provider
