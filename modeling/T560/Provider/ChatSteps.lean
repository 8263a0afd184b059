import T560.Provider.ChatInvariant

/-!
# What a step of a run can change

Every step is a chain of small changes of the state, and every entry of the books a chain of
small changes of the ledger. An invariant that each small change keeps holds along every run.
-/

namespace T560.Provider

open Js (Value)
open Transcript (Message)
open Relation (ReflTransGen)

/-- The small changes of the ledger. -/
inductive LedgerStep (env : ToolEnv) (l : Ledger) : Ledger → Prop
  | executed : LedgerStep env l { l with executed := l.executed + 1 }
  | recorded {tool : String} {args : Value} {outcome : Outcome} {l' : Ledger}
      (h : recordOutcome env tool args outcome l = .ok l') : LedgerStep env l l'
  | pendingMfa (pending : Option PendingMfa) : LedgerStep env l { l with pendingMfa := pending }
  | login (state : LoginState) : LedgerStep env l { l with latestBrowserLoginState := some state }
  | promptSent : LedgerStep env l { l with completionVerificationPromptSent := true }

abbrev Books (env : ToolEnv) : Ledger → Ledger → Prop := ReflTransGen (LedgerStep env)

/-- The small changes of the state of a run. -/
inductive StateStep (env : ChatEnv) (st : RunState) : RunState → Prop
  | messages (more : List Message) : StateStep env st { st with messages := st.messages ++ more }
  | asked : StateStep env st { st with requestCount := st.requestCount + 1 }
  | replied (a : AssistantMessage) : StateStep env st { st with lastAssistant := some a }
  | books {l : Ledger} (h : Books env.toToolEnv st.ledger l) : StateStep env st { st with ledger := l }
  | identityRetry (n : Nat) : StateStep env st { st with identityRetryCount := n }
  | recoveryPrompt : StateStep env st { st with recoveryPromptSent := true }
  | finalizationPrompt : StateStep env st { st with finalizationPromptSent := true }
  | emptyReplyPrompt : StateStep env st { st with emptyReplyRecoveryPromptSent := true }
  | loggedIn (b : Bool) : StateStep env st { st with autoAuthLoginSucceeded := b }
  | waits (b : Bool) (h : st.forceWaitForMfaCode = true → b = true) :
      StateStep env st { st with forceWaitForMfaCode := b }
  | blocked (n : Nat) : StateStep env st (noteBlocked (env.execution n) st)
  | streak (n : Nat) : StateStep env st { st with compactFailureStreak := n }
  | guardrail : StateStep env st { st with compactGuardrailMessage := some guardrailMessage }

abbrev Changes (env : ChatEnv) : RunState → RunState → Prop := ReflTransGen (StateStep env)

section Books
variable {env : ToolEnv} {l l' : Ledger}

theorem books_recordOutcome {tool : String} {args : Value} {outcome : Outcome}
    (h : recordOutcome env tool args outcome l = .ok l') : Books env l l' :=
  .single (.recorded h)

theorem books_recordPendingMfa {args : Value} {outcome : Outcome}
    (h : recordPendingMfa env args outcome l = .ok l') : Books env l l' := by
  obtain ⟨pending, -, h⟩ := Js.exists_of_bind_ok h
  cases h
  exact .single (.pendingMfa pending)

theorem books_recordScreenshots {outcomes : List Outcome}
    (h : recordScreenshots env outcomes l = .ok l') : Books env l l' := by
  induction outcomes generalizing l with
  | nil =>
    cases h
    exact .refl
  | cons outcome rest ih =>
    obtain ⟨l₁, h₁, h⟩ := Js.exists_of_bind_ok h
    obtain ⟨l₂, h₂, h⟩ := Js.exists_of_bind_ok h
    exact ((books_recordOutcome h₁).trans (books_recordPendingMfa h₂)).trans (ih h)

theorem books_recordLoginState {outcome : Outcome} (h : recordLoginState env outcome l = .ok l') :
    Books env l l' := by
  obtain ⟨login, -, h⟩ := Js.exists_of_bind_ok h
  cases login with
  | none =>
    cases h
    exact .refl
  | some login =>
    cases h
    exact .single (.login login)

theorem books_executed {tool : String} {args : Value} {outcome : Outcome}
    (h : recordOutcome env tool args outcome { l with executed := l.executed + 1 } = .ok l') :
    Books env l l' :=
  .head .executed (books_recordOutcome h)

theorem books_runSyntheticToolCall {tool : String} {args : Value} {outcome : Outcome}
    (h : runSyntheticToolCall env tool args l = .ok (l', outcome)) : Books env l l' := by
  unfold runSyntheticToolCall at h
  obtain ⟨l₁, h₁, h⟩ := Js.exists_of_bind_ok h
  have hb₁ := books_executed h₁
  split at h
  · obtain ⟨l₂, h₂, h⟩ := Js.exists_of_bind_ok h
    obtain ⟨l₃, h₃, h⟩ := Js.exists_of_bind_ok h
    have hb₃ := (hb₁.trans (books_recordPendingMfa h₂)).trans (books_recordScreenshots h₃)
    obtain ⟨action, -, h⟩ := Js.exists_of_bind_ok h
    split at h
    · obtain ⟨l₄, h₄, h⟩ := Js.exists_of_bind_ok h
      cases h
      exact hb₃.trans (books_recordLoginState h₄)
    · cases h
      exact hb₃
  · cases h
    exact hb₁

end Books

section Login
variable {env : ChatEnv} {l l' : Ledger}

theorem books_recordCall {call : ToolCall} {next : LoginFollowUp}
    (h : recordCall env call l = .ok (l', next)) : Books env.toToolEnv l l' := by
  unfold recordCall at h
  obtain ⟨l₁, h₁, h⟩ := Js.exists_of_bind_ok h
  have hb₁ := books_executed h₁
  split at h
  · obtain ⟨l₂, h₂, h⟩ := Js.exists_of_bind_ok h
    obtain ⟨l₃, h₃, h⟩ := Js.exists_of_bind_ok h
    have hb₃ := (hb₁.trans (books_recordPendingMfa h₂)).trans (books_recordScreenshots h₃)
    obtain ⟨action, -, h⟩ := Js.exists_of_bind_ok h
    split at h
    · obtain ⟨l₄, h₄, h⟩ := Js.exists_of_bind_ok h
      obtain ⟨mfa, -, h⟩ := Js.exists_of_bind_ok h
      cases h
      exact hb₃.trans (books_recordLoginState h₄)
    · cases h
      exact hb₃
  · cases h
    exact hb₁

theorem books_codeFromMailbox {service : String} {actions : List String} {code : Option String}
    (h : codeFromMailbox env service actions l = .ok (l', code)) : Books env.toToolEnv l l' := by
  induction actions generalizing l with
  | nil =>
    cases h
    exact .refl
  | cons action rest ih =>
    obtain ⟨⟨l₁, outcome⟩, h₁, h⟩ := Js.exists_of_bind_ok h
    have hb₁ := books_runSyntheticToolCall h₁
    dsimp only at h
    split at h
    · exact hb₁.trans (ih h)
    · split at h
      · cases h
        exact hb₁
      · exact hb₁.trans (ih h)

theorem books_resolveAutoMfa {mfa : MfaState} {waits : Bool}
    (h : resolveAutoMfa env mfa l = .ok (l', waits)) : Books env.toToolEnv l l' := by
  unfold resolveAutoMfa at h
  extract_lets pending field enter at h
  have hrest : ∀ l₁ code, enter (l₁, code) = .ok (l', waits) → Books env.toToolEnv l₁ l' := by
    intro l₁ code h
    cases code with
    | none =>
      cases h
      exact .refl
    | some code =>
      obtain ⟨⟨l₂, outcome⟩, h₂, h⟩ := Js.exists_of_bind_ok h
      cases h
      exact books_runSyntheticToolCall h₂
  split at h
  · obtain ⟨⟨l₁, code⟩, h₁, h⟩ := Js.exists_of_bind_ok h
    exact (books_codeFromMailbox h₁).trans (hrest l₁ code h)
  · exact hrest l none h

theorem books_autoLogin {succeeded waits : Bool}
    (h : autoLogin env l = .ok (l', succeeded, waits)) : Books env.toToolEnv l l' := by
  unfold autoLogin at h
  split at h
  · cases h
    exact .refl
  · split at h
    · cases h
      exact .refl
    · extract_lets login at h
      have hrest : ∀ l₁, login l₁ = .ok (l', succeeded, waits) → Books env.toToolEnv l₁ l' := by
        intro l₁ h
        obtain ⟨⟨l₂, outcome⟩, h₂, h⟩ := Js.exists_of_bind_ok h
        have hb₂ := books_runSyntheticToolCall h₂
        dsimp only at h
        split at h
        · cases h
          exact hb₂
        · obtain ⟨l₃, h₃, h⟩ := Js.exists_of_bind_ok h
          have hb₃ := hb₂.trans (books_recordLoginState h₃)
          obtain ⟨mfa, -, h⟩ := Js.exists_of_bind_ok h
          split at h
          · cases h
            exact hb₃
          · obtain ⟨⟨l₄, waits⟩, h₄, h⟩ := Js.exists_of_bind_ok h
            cases h
            exact hb₃.trans (books_resolveAutoMfa h₄)
      split at h
      · obtain ⟨⟨l₁, outcome⟩, h₁, h⟩ := Js.exists_of_bind_ok h
        exact (books_runSyntheticToolCall h₁).trans (hrest l₁ h)
      · exact hrest l h

end Login

section Changes
variable {env : ChatEnv} {st st' : RunState}

theorem changes_pushUser (env : ChatEnv) (st : RunState) (text : String) :
    Changes env st (st.pushUser env text) := .single (.messages _)

theorem changes_followUp {n : Nat} {text instruction : String}
    (h : followUp env n text st = some (instruction, st')) : Changes env st st' := by
  unfold followUp at h
  split at h
  · cases h
    exact .single (.identityRetry _)
  · dsimp only at h
    split at h
    · cases h
      exact .refl
    · split_ifs at h <;> cases h
      · exact .single (.books (.single .promptSent))
      · exact .single .emptyReplyPrompt
      · exact .single .finalizationPrompt
      · exact .refl
      · exact .single .recoveryPrompt

theorem changes_replied (env : ChatEnv) (st : RunState) (a : AssistantMessage) :
    Changes env st { st with
      requestCount := st.requestCount + 1
      messages := st.messages ++ [a.toMessage]
      lastAssistant := some a } :=
  ((ReflTransGen.single .asked).tail (.messages _)).tail (.replied a)

theorem changes_roundStep (env : ChatEnv) (n : Nat) (st : RunState) :
    Changes env st (roundStep env n st).state := by
  unfold roundStep
  dsimp only
  split
  · exact .single .asked
  · rename_i a _
    have hreplied := changes_replied env st a
    split
    · split
      · rename_i h
        exact (hreplied.trans (changes_followUp h)).trans (changes_pushUser env _ _)
      · exact hreplied
    · exact hreplied

theorem changes_pushResult (env : ChatEnv) (call : ToolCall) (outcome : Outcome) (st : RunState) :
    Changes env st (pushResult env call outcome st) := by
  unfold pushResult
  dsimp only
  split
  · exact (ReflTransGen.single (.messages _)).trans (changes_pushUser env _ _)
  · exact .single (.messages _)

theorem changes_answerCall (env : ChatEnv) (n : Nat) (a : AssistantMessage) (call : ToolCall)
    (rest : List ToolCall) (outcome : Outcome) (st : RunState) :
    Changes env st (answerCall env n a call rest outcome st).state := by
  have hanswered := (changes_pushResult env call outcome st).tail
    (.streak (failureStreak env outcome st))
  unfold answerCall
  dsimp only
  split_ifs
  · exact hanswered.tail .guardrail
  · exact hanswered
  · exact hanswered

theorem changes_callStep (env : ChatEnv) (n : Nat) (a : AssistantMessage) (call : ToolCall)
    (rest : List ToolCall) (st : RunState) :
    Changes env st (callStep env n a call rest st).state := by
  unfold callStep
  dsimp only
  split
  · exact .refl
  · rename_i ledger next h
    have hrecorded : Changes env st
        { noteBlocked (env.execution st.ledger.executed) st with ledger := ledger } :=
      (ReflTransGen.single (.blocked _)).tail (.books (books_recordCall h))
    split
    · exact hrecorded.trans (changes_pushUser env _ _)
    · exact hrecorded.tail (.waits true fun _ => rfl)
    · exact hrecorded.trans (changes_answerCall env _ _ _ _ _ _)

theorem changes_retryLogin (h : retryLogin env st = .ok st') : Changes env st st' := by
  unfold retryLogin at h
  dsimp only at h
  split at h
  · split at h
    · cases h
      exact .refl
    · obtain ⟨⟨l₁, outcome⟩, h₁, h⟩ := Js.exists_of_bind_ok h
      have hb₁ := books_runSyntheticToolCall h₁
      dsimp only at h
      split at h
      · cases h
        exact .single (.books hb₁)
      · obtain ⟨l₂, h₂, h⟩ := Js.exists_of_bind_ok h
        obtain ⟨mfa, -, h⟩ := Js.exists_of_bind_ok h
        cases h
        exact (ReflTransGen.single (.books (hb₁.trans (books_recordLoginState h₂)))).tail
          (.waits _ fun hw => by
            have hw : st.forceWaitForMfaCode = true := hw
            simp [hw])
  · cases h
    exact .refl

theorem changes_finalizationStep (env : ChatEnv) (st : RunState) :
    Changes env st (finalizationStep env st).state := by
  unfold finalizationStep
  dsimp only
  split
  · exact .refl
  · split
    · have hpushed := changes_pushUser env st finalAnswerInstruction
      split
      · exact hpushed.tail .asked
      · exact hpushed.trans (changes_replied env _ _)
    · exact .refl

/-- What one step of the machine changes. -/
theorem changes_step (env : ChatEnv) (c : Config) : Changes env c.state (step env c).state := by
  unfold step
  split
  · split
    · exact changes_roundStep env _ _
    · exact .refl
  · exact .refl
  · exact changes_callStep env _ _ _ _ _
  · split <;> exact .refl
  · split
    · rename_i h
      exact changes_retryLogin h
    · exact .refl
  · exact changes_finalizationStep env _
  · exact .refl
  · exact .refl

/-- A run that does not throw at once starts from the history and the first entry of its
books. -/
theorem changes_start (env : ChatEnv) (history : List Message) (content : String)
    (h : (start env history content).control ≠ .thrown) :
    Changes env { messages := historyForRun env history, ledger := initialLedger env }
      (start env history content).state := by
  unfold start at h ⊢
  dsimp only at h ⊢
  split at h
  · exact absurd rfl h
  · rename_i ledger succeeded waits hlogin
    have hbase : Changes env { messages := historyForRun env history, ledger := initialLedger env }
        { RunState.pushUser env { messages := historyForRun env history } content with
          ledger := ledger
          autoAuthLoginSucceeded := succeeded
          forceWaitForMfaCode := waits } :=
      (((ReflTransGen.single (.messages [userMessage content (env.now
        (historyForRun env history).length)])).tail (.books (books_autoLogin hlogin))).tail
        (.loggedIn succeeded)).tail (.waits waits fun hw => by cases hw)
    split_ifs
    · exact (hbase.trans (changes_pushUser env _ _)).trans (changes_pushUser env _ _)
    · exact hbase.trans (changes_pushUser env _ _)
    · exact hbase.trans (changes_pushUser env _ _)
    · exact hbase

end Changes

section Runs
variable {env : ChatEnv} {strict : Prop}

theorem Changes.keep {P : RunState → Prop} (hP : ∀ st st', StateStep env st st' → P st → P st')
    {st st' : RunState} (h : Changes env st st') (hst : P st) : P st' := by
  induction h with
  | refl => exact hst
  | tail _ hstep ih => exact hP _ _ hstep ih

theorem thrown_run {c c' : Config} (h : ReflTransGen (Step env strict) c c')
    (hc : c.control = .thrown) : c'.control = .thrown := by
  induction h with
  | refl => exact hc
  | tail _ hstep ih =>
    obtain ⟨-, rfl⟩ := hstep
    simp [step, ih]

/-- What every small change keeps holds wherever a run stands that has not thrown. -/
theorem run_keeps {P : RunState → Prop} (hP : ∀ st st', StateStep env st st' → P st → P st')
    {history : List Message} {content : String} {c : Config}
    (h : ReflTransGen (Step env strict) (start env history content) c)
    (hc : c.control ≠ .thrown)
    (hstart : P { messages := historyForRun env history, ledger := initialLedger env }) :
    P c.state := by
  have hbegin : (start env history content).control ≠ .thrown :=
    fun hthrown => hc (thrown_run h hthrown)
  have hP' := (changes_start env history content hbegin).keep hP hstart
  clear hc
  induction h with
  | refl => exact hP'
  | tail _ hstep ih =>
    obtain ⟨-, rfl⟩ := hstep
    exact (changes_step env _).keep hP ih

end Runs

end T560.Provider
