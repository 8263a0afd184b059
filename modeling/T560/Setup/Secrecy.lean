import T560.Setup.Identifier
import T560.Vault.Masked

/-!
# Secrets stay out of the replies

Two conversations that differ only in what is typed at secret steps get the same replies and go
through the same steps. The pending states are the same in both, and the vaults are alike: they
differ in secrets and codes.
-/

namespace T560.Setup

open Js (trim startsWith)
open Vault (Files Call Request Phase CredentialAuthMode SetParams SamePhase SameVault maskSecret
  decryptStore normalizeSetupService advance)

variable {Key Sealed : Type}

section Operations

variable {env : SetupEnv Key Sealed} {files files' : Files Key Sealed}

/-- What is read of vault files that are alike is alike. -/
theorem reads_alike (at_ : Surroundings Key) {key : Option Key} {vault vault' : Option Sealed}
    (h : SameVault env.toVaultEnv key vault vault') :
    SameVault env.toVaultEnv key (at_.reads vault) (at_.reads vault') := by
  unfold Surroundings.reads
  split
  · exact .same none
  · exact h

/-- One step keeps the files alike and the operations at the same place. -/
theorem vaultStep_alike {call call' : Call Key} (h : call.Alike call') (at_ : Surroundings Key)
    {state state' : Files Key Sealed × Phase Key Sealed} (hfiles : state.1.Alike env.toVaultEnv state'.1)
    (hphase : SamePhase env.toVaultEnv state state') :
    (vaultStep env call at_ state).1.Alike env.toVaultEnv (vaultStep env call' at_ state').1 ∧
      SamePhase env.toVaultEnv (vaultStep env call at_ state) (vaultStep env call' at_ state') := by
  have hstep := Vault.advance_alike h hfiles hphase
  cases hphase with
  | start files files' =>
    unfold vaultStep
    dsimp only [advance]
    rw [h.request.check]
    cases call'.request.check env.toVaultEnv with
    | ok service => exact ⟨hfiles, .readKey files files' _ _ (reads_alike at_ hfiles.vault)⟩
    | error outcome => exact ⟨hfiles, .done files files' outcome⟩
  | readKey => exact hstep
  | writeKey => exact hstep
  | writeVault => exact hstep
  | done => exact hstep

theorem attempt_alike {request request' : Request} (h : request.Alike request')
    (hfiles : files.Alike env.toVaultEnv files') (at_ : Surroundings Key) :
    (attempt env request at_ files).1.Alike env.toVaultEnv (attempt env request' at_ files').1 ∧
      (attempt env request at_ files).2 = (attempt env request' at_ files').2 := by
  have hcall : (⟨request, at_.now, at_.iv, at_.freshKey⟩ : Call Key).Alike
      ⟨request', at_.now, at_.iv, at_.freshKey⟩ := ⟨h, rfl, rfl, rfl⟩
  have hreached : ∀ steps,
      let reached := (vaultStep env ⟨request, at_.now, at_.iv, at_.freshKey⟩ at_)^[steps] (files, .start)
      let reached' := (vaultStep env ⟨request', at_.now, at_.iv, at_.freshKey⟩ at_)^[steps] (files', .start)
      reached.1.Alike env.toVaultEnv reached'.1 ∧ SamePhase env.toVaultEnv reached reached' := by
    intro steps
    induction steps with
    | zero => exact ⟨hfiles, .start files files'⟩
    | succ steps ih =>
      rw [Function.iterate_succ_apply', Function.iterate_succ_apply']
      exact vaultStep_alike hcall at_ ih.1 ih.2
  obtain ⟨hfiles, hphase⟩ := hreached (at_.fault.elim 4 (·.steps))
  unfold attempt
  dsimp only
  generalize (vaultStep env ⟨request, at_.now, at_.iv, at_.freshKey⟩ at_)^[_] (files, .start) = reached
    at hfiles hphase ⊢
  generalize (vaultStep env ⟨request', at_.now, at_.iv, at_.freshKey⟩ at_)^[_] (files', .start) = reached'
    at hfiles hphase ⊢
  cases hphase <;> exact ⟨hfiles, rfl⟩

/-- Whether the vault opens, and to which names, is the same. -/
theorem decryptStore_alike {now : Nat} {key : Key} {payload payload' : Sealed}
    (h : SameVault env.toVaultEnv (some key) (some payload) (some payload')) :
    payload = payload' ∨ ∃ read read',
      decryptStore env.toVaultEnv now key payload = some read ∧
      decryptStore env.toVaultEnv now key payload' = some read' ∧ read.masked = read'.masked := by
  cases h with
  | same => exact Or.inl rfl
  | alike k _ _ store store' hkey hopen hopen' hmasked =>
    obtain rfl := Option.some.inj hkey
    obtain ⟨read, read', hread, hread', hread_masked⟩ :=
      @Vault.normalizeStore_alike env.toUrlEnv store store' now hmasked
    exact Or.inr ⟨read, read', Vault.decryptStore_written hopen hread,
      Vault.decryptStore_written hopen' hread', hread_masked⟩

theorem failureText_alike (hfiles : files.Alike env.toVaultEnv files') (now : Nat)
    (message : String) : failureText env now files message = failureText env now files' message := by
  obtain ⟨vault, key⟩ := files
  obtain ⟨vault', key'⟩ := files'
  obtain ⟨rfl, hvault⟩ := hfiles
  dsimp only at hvault
  unfold failureText
  cases vault <;> cases vault' <;> cases key <;> try rfl
  · cases hvault
  · cases hvault
  · next payload payload' key =>
    rcases @decryptStore_alike Key Sealed env now key payload payload' hvault with
      rfl | ⟨read, read', hread, hread', -⟩
    · rfl
    · simp [hread, hread']

theorem listServices_alike (hfiles : files.Alike env.toVaultEnv files') (at_ : Surroundings Key) :
    (listServices env at_ files).1.Alike env.toVaultEnv (listServices env at_ files').1 ∧
      (listServices env at_ files).2 = (listServices env at_ files').2 := by
  obtain ⟨vault, key⟩ := files
  obtain ⟨vault', key'⟩ := files'
  have hsame := hfiles
  obtain ⟨rfl, hvault⟩ := hfiles
  dsimp only at hvault
  have hread := reads_alike at_ hvault
  unfold listServices
  dsimp only
  generalize at_.reads vault = payload at hread ⊢
  generalize at_.reads vault' = payload' at hread ⊢
  have hnone : payload.isNone = payload'.isNone := by cases hread <;> rfl
  rw [hnone]
  cases at_.fault.filter fun fault => fault.steps < if payload'.isNone && key.isNone then 3 else 2 with
  | some fault => exact ⟨hsame, rfl⟩
  | none =>
    cases hread with
    | same =>
      dsimp only
      split
      · next hcreates =>
        obtain rfl : key = none := by simpa using (Bool.and_eq_true_iff.mp hcreates).2
        obtain rfl : vault = vault' := hvault.eq_of_no_key
        exact ⟨⟨rfl, .same _⟩, rfl⟩
      · exact ⟨hsame, rfl⟩
    | alike k payload payload' store store' hkey hopen hopen' hmasked =>
      obtain ⟨read, read', hread, hread', hmasked'⟩ :=
        @Vault.normalizeStore_alike env.toUrlEnv store store' at_.now hmasked
      subst hkey
      refine ⟨hsame, ?_⟩
      simp [Vault.decryptStore_written hopen hread, Vault.decryptStore_written hopen' hread',
        Except.map, Vault.listConfiguredServices_alike env.toUrlEnv hmasked']

end Operations

section Conversations

variable (env : SetupEnv Key Sealed)

structure FlowState.Alike (s s' : FlowState Key Sealed) : Prop where
  pending : s.pending = s'.pending
  files : s.files.Alike env.toVaultEnv s'.files

/-- The same answer, and states that are alike. -/
structure SameAnswer (after after' : FlowState Key Sealed × SetupFlowResult) : Prop where
  state : after.1.Alike env after'.1
  result : after.2 = after'.2

variable {env} {s s' : FlowState Key Sealed} {session message : String} {at_ : Surroundings Key}

theorem FlowState.Alike.setPending (h : s.Alike env s') (pending : Option PendingSetupState) :
    (s.setPending session pending).Alike env (s'.setPending session pending) := by
  refine ⟨?_, h.files⟩
  unfold FlowState.setPending
  dsimp only
  rw [h.pending]

theorem sameAnswer_reply (h : s.Alike env s') (text : String) :
    SameAnswer env (reply s text) (reply s' text) := ⟨h, rfl⟩

theorem sameAnswer_askSecret (h : s.Alike env s') (pending : PendingSetupState)
    (authMode : CredentialAuthMode) :
    SameAnswer env (askSecret session s pending authMode) (askSecret session s' pending authMode) :=
  ⟨h.setPending _, rfl⟩

theorem sameAnswer_list (h : s.Alike env s') :
    SameAnswer env (listCommand env at_ s) (listCommand env at_ s') := by
  obtain ⟨hfiles, hresult⟩ := listServices_alike h.files at_
  unfold listCommand
  rcases hlist : listServices env at_ s.files with ⟨files, services⟩
  rcases hlist' : listServices env at_ s'.files with ⟨files', services'⟩
  rw [hlist, hlist'] at hfiles hresult
  dsimp only at hfiles hresult ⊢
  subst hresult
  have hstate : FlowState.Alike env { s with files } { s' with files := files' } :=
    ⟨h.pending, hfiles⟩
  cases services with
  | error message => exact ⟨hstate, rfl⟩
  | ok services => cases services <;> exact ⟨hstate, rfl⟩

/-- Behind requests that are alike stand the same outcome and states that are alike. -/
theorem FlowState.Alike.attempt (h : s.Alike env s') {request request' : Request}
    (hrequest : request.Alike request') :
    ∃ files files' outcome, Setup.attempt env request at_ s.files = (files, outcome) ∧
      Setup.attempt env request' at_ s'.files = (files', outcome) ∧
      FlowState.Alike env { s with files } { s' with files := files' } := by
  obtain ⟨hfiles, houtcome⟩ := attempt_alike hrequest h.files at_
  rcases hat : Setup.attempt env request at_ s.files with ⟨files, outcome⟩
  rcases hat' : Setup.attempt env request' at_ s'.files with ⟨files', outcome'⟩
  rw [hat, hat'] at hfiles houtcome
  obtain rfl : outcome = outcome' := houtcome
  exact ⟨files, files', outcome, rfl, rfl, h.pending, hfiles⟩

theorem sameAnswer_clear (h : s.Alike env s') (target : String) :
    SameAnswer env (clearCommand env at_ session s target)
      (clearCommand env at_ session s' target) := by
  unfold clearCommand
  cases normalizeSetupService env.toUrlEnv target with
  | none => exact sameAnswer_reply h _
  | some service =>
    obtain ⟨files, files', outcome, hat, hat', hstate⟩ :=
      @FlowState.Alike.attempt _ _ env _ _ at_ h _ _ (.delete service)
    dsimp only
    rw [hat, hat']
    cases outcome with
    | failed message =>
      exact ⟨hstate, congrArg SetupFlowResult.thrown (failureText_alike h.files at_.now message)⟩
    | deleted removed => cases removed <;> exact sameAnswer_reply (hstate.setPending none) _
    | saved _ _ => exact sameAnswer_reply (hstate.setPending none) _
    | found _ => exact sameAnswer_reply (hstate.setPending none) _

theorem sameAnswer_mode (h : s.Alike env s') (mode : String) :
    SameAnswer env (modeCommand env session s mode) (modeCommand env session s' mode) := by
  unfold modeCommand
  rw [← h.pending]
  cases s.pending session with
  | none => exact sameAnswer_reply h _
  | some pending =>
    dsimp only
    cases normalizeAuthMode env mode with
    | none => exact sameAnswer_reply h _
    | some authMode => exact sameAnswer_askSecret h pending authMode

theorem sameAnswer_start (h : s.Alike env s') (sub : String) :
    SameAnswer env (startCommand env session s sub) (startCommand env session s' sub) := by
  unfold startCommand
  cases normalizeSetupService env.toUrlEnv sub with
  | none => exact sameAnswer_reply h _
  | some service => exact sameAnswer_reply (h.setPending _) _

theorem sameAnswer_slash (h : s.Alike env s') :
    SameAnswer env (handleSlashSetupCommand env at_ session s message)
      (handleSlashSetupCommand env at_ session s' message) := by
  unfold handleSlashSetupCommand
  dsimp only
  split
  · exact ⟨h, rfl⟩
  · split
    · split
      · exact sameAnswer_list h
      · split
        · unfold cancelCommand
          rw [← h.pending]
          exact sameAnswer_reply (h.setPending none) _
        · split
          · exact sameAnswer_clear h _
          · split
            · exact sameAnswer_mode h _
            · exact sameAnswer_start h _
    · exact sameAnswer_reply h _

/-- Of a typed secret the vault shows only that it is there. -/
theorem secretParams_masked (pending : PendingSetupState) (identifier : String)
    {raw raw' : String} (h : trim raw ≠ "") (h' : trim raw' ≠ "") :
    (secretParams env pending identifier raw).masked =
      (secretParams env pending identifier raw').masked := by
  have hmask : ∀ text, trim text ≠ "" → maskSecret text = "*" := by
    intro text htext
    have hne : text ≠ "" := by
      rintro rfl
      exact htext (by decide)
    rw [maskSecret, if_neg hne, if_neg htext]
  unfold SetParams.masked secretParams
  by_cases hmode : pending.authMode.getD .password = .passwordlessMfaCode
  · simp only [hmode, if_true]
  · simp only [hmode, if_false, hmask raw h, hmask raw' h']

theorem sameAnswer_saveSecret (h : s.Alike env s') (pending : PendingSetupState)
    (identifier : String) {raw raw' : String} (hraw : trim raw ≠ "") (hraw' : trim raw' ≠ "") :
    SameAnswer env (saveSecret env at_ session s pending identifier raw)
      (saveSecret env at_ session s' pending identifier raw') := by
  obtain ⟨files, files', outcome, hat, hat', hstate⟩ :=
    @FlowState.Alike.attempt _ _ env _ _ at_ h _ _
      (.set _ _ (secretParams_masked pending identifier hraw hraw'))
  unfold saveSecret
  rw [hat, hat']
  cases outcome with
  | failed message =>
    dsimp only
    rw [failureText_alike h.files]
    exact sameAnswer_reply hstate _
  | deleted _ => exact sameAnswer_reply (hstate.setPending none) _
  | saved _ _ => exact sameAnswer_reply (hstate.setPending none) _
  | found _ => exact sameAnswer_reply (hstate.setPending none) _

/-- The same message as input to the same pending state. -/
theorem sameAnswer_input (h : s.Alike env s') :
    SameAnswer env (handlePendingSetupInput env at_ session s message)
      (handlePendingSetupInput env at_ session s' message) := by
  unfold handlePendingSetupInput
  rw [← h.pending]
  cases s.pending session with
  | none => exact ⟨h, rfl⟩
  | some pending =>
    dsimp only
    split
    · exact sameAnswer_reply h _
    · next hvalue =>
      split
      · split
        · exact sameAnswer_reply (h.setPending none) _
        · exact sameAnswer_reply h _
      · cases pending.step with
        | identifier => exact ⟨h.setPending _, rfl⟩
        | authMode =>
          dsimp only
          cases normalizeAuthMode env (trim message) with
          | none => exact sameAnswer_reply h _
          | some authMode => exact sameAnswer_askSecret h pending authMode
        | secret =>
          dsimp only
          split
          · exact sameAnswer_reply (h.setPending none) _
          · exact sameAnswer_saveSecret h pending _ hvalue hvalue

theorem sameAnswer_message (h : s.Alike env s') :
    SameAnswer env (handleSecureSetupFlow env at_ session s message)
      (handleSecureSetupFlow env at_ session s' message) := by
  cases hslash : startsWith "/setup" (trim message) with
  | true =>
    rw [handleSecureSetupFlow_slash hslash, handleSecureSetupFlow_slash hslash]
    exact sameAnswer_slash h
  | false =>
    rw [handleSecureSetupFlow_input hslash, handleSecureSetupFlow_input hslash]
    exact sameAnswer_input h

/-- Two secrets typed at the same secret step. -/
theorem sameAnswer_secret (h : s.Alike env s') {pending : PendingSetupState}
    (hpending : s.pending session = some pending) (hstep : pending.step = .secret)
    {typed typed' : String} (htyped : Typed typed) (htyped' : Typed typed') :
    SameAnswer env (handleSecureSetupFlow env at_ session s typed)
      (handleSecureSetupFlow env at_ session s' typed') := by
  have hpending' : s'.pending session = some pending := h.pending ▸ hpending
  by_cases hidentified : pending.Identified
  · rw [flow_saves hpending hstep hidentified htyped,
      flow_saves hpending' hstep hidentified htyped']
    exact sameAnswer_saveSecret h pending _ htyped.1 htyped'.1
  · have hreset : ∀ (t : FlowState Key Sealed) text, t.pending session = some pending →
        Typed text → handleSecureSetupFlow env at_ session t text =
          reply (t.setPending session none)
            "Setup flow reset due to missing identifier. Run /setup <service-or-site> again." := by
      intro t text ht htext
      rw [handleSecureSetupFlow_input htext.not_setup, handlePendingSetupInput, ht]
      simp only [htext.1, htext.2, if_false, Bool.false_eq_true, hstep]
      rw [if_pos (not_not.mp hidentified)]
    rw [hreset s typed hpending htyped, hreset s' typed' hpending' htyped']
    exact sameAnswer_reply (h.setPending none) _

end Conversations

section Results

/-- The same message in the same surroundings; at a secret step the secrets may differ. -/
def SameUpToSecret (s : FlowState Key Sealed) (event event' : SetupEvent Key) : Prop :=
  event.session = event'.session ∧ event.at_ = event'.at_ ∧
    (event.message = event'.message ∨
      (∃ pending ∈ s.pending event.session, pending.step = .secret) ∧
        Typed event.message ∧ Typed event'.message)

/-- Two conversations that differ only in what is typed at the secret steps of the first one. -/
def OnlySecretsDiffer (env : SetupEnv Key Sealed) :
    FlowState Key Sealed → List (SetupEvent Key) → List (SetupEvent Key) → Prop
  | _, [], [] => True
  | s, event :: events, event' :: events' =>
    SameUpToSecret s event event' ∧ OnlySecretsDiffer env (s.step env event) events events'
  | _, _, _ => False

/-- The answer to every message, and the steps of all sessions behind it. -/
def transcript (env : SetupEnv Key Sealed) :
    FlowState Key Sealed → List (SetupEvent Key) →
      List (SetupFlowResult × (String → Option Step))
  | _, [] => []
  | s, event :: events =>
    let after := handleSecureSetupFlow env event.at_ event.session s event.message
    (after.2, fun session => (after.1.pending session).map (·.step)) ::
      transcript env after.1 events

variable {env : SetupEnv Key Sealed}

theorem FlowState.Alike.answer {s s' : FlowState Key Sealed} (h : s.Alike env s')
    {event event' : SetupEvent Key} (hsame : SameUpToSecret s event event') :
    SameAnswer env (handleSecureSetupFlow env event.at_ event.session s event.message)
      (handleSecureSetupFlow env event'.at_ event'.session s' event'.message) := by
  obtain ⟨session, message, at_⟩ := event
  obtain ⟨session', message', at_'⟩ := event'
  obtain ⟨rfl, rfl, hmessage⟩ := hsame
  rcases hmessage with rfl | ⟨⟨pending, hpending, hstep⟩, htyped, htyped'⟩
  · exact sameAnswer_message h
  · exact sameAnswer_secret h hpending hstep htyped htyped'

theorem transcript_alike {s s' : FlowState Key Sealed} (h : s.Alike env s')
    {events events' : List (SetupEvent Key)} (hsame : OnlySecretsDiffer env s events events') :
    transcript env s events = transcript env s' events' := by
  induction events generalizing s s' events' with
  | nil =>
    cases events' with
    | nil => rfl
    | cons event' events' => exact hsame.elim
  | cons event events ih =>
    cases events' with
    | nil => exact hsame.elim
    | cons event' events' =>
      obtain ⟨hfirst, hrest⟩ := hsame
      have hanswer := h.answer hfirst
      unfold transcript
      dsimp only
      rw [ih hanswer.state hrest, hanswer.result, hanswer.state.pending]

/-- What is typed as a secret shows neither in an answer nor in a step, in no session. -/
theorem setup_replies_hide_secrets (env : SetupEnv Key Sealed) (s : FlowState Key Sealed)
    (events events' : List (SetupEvent Key)) (h : OnlySecretsDiffer env s events events') :
    transcript env s events = transcript env s events' :=
  transcript_alike ⟨rfl, rfl, .same s.files.vault⟩ h

theorem setup_replies_hide_secrets_bank :
    let events := fun secret => [chats "/setup bank.example", chats "ada", chats "password",
      chats secret, chats "/setup list"]
    OnlySecretsDiffer setupEnv (.idle ⟨none, none⟩) (events "hunter2") (events "swordfish") ∧
      transcript setupEnv (.idle ⟨none, none⟩) (events "hunter2") =
        transcript setupEnv (.idle ⟨none, none⟩) (events "swordfish") := by
  intro events
  have hsame : ∀ (s : FlowState Bool (Bool × Js.Value)) message,
      SameUpToSecret s (chats message) (chats message) := fun s message => ⟨rfl, rfl, Or.inl rfl⟩
  have hdiffer : OnlySecretsDiffer setupEnv (.idle ⟨none, none⟩) (events "hunter2")
      (events "swordfish") := by
    refine ⟨hsame _ _, hsame _ _, hsame _ _, ⟨rfl, rfl, Or.inr ⟨?_, ?_, ?_⟩⟩, hsame _ _, trivial⟩
    · exact ⟨⟨"bank.example", .secret, some .password, some "ada"⟩, by decide, rfl⟩
    · decide
    · decide
  exact ⟨hdiffer, setup_replies_hide_secrets setupEnv _ _ _ hdiffer⟩

end Results

end T560.Setup
