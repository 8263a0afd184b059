import T560.Foundation.EventRun
import T560.Setup.Flow
import T560.Vault.Map

/-!
# The identifier before the secret

The flow asks for the identifier first, then for the auth mode, then for the secret. The command
`/setup mode` jumps to the secret from any step. As long as it is given only when the identifier
is there, a pending secret can be saved.
-/

namespace T560.Setup

open EventRun (run Allowed)
open Js (trim startsWith)
open Vault (Files CredentialAuthMode normalizeSetupService)

variable {Key Sealed : Type}

/-- A message of a session, and what its call takes from the surroundings. -/
structure SetupEvent (Key : Type) where
  session : String
  message : String
  at_ : Surroundings Key
  deriving DecidableEq

variable (env : SetupEnv Key Sealed)

def FlowState.step (s : FlowState Key Sealed) (event : SetupEvent Key) : FlowState Key Sealed :=
  (handleSecureSetupFlow env event.at_ event.session s event.message).1

/-- No session is in the flow. -/
def FlowState.idle (files : Files Key Sealed) : FlowState Key Sealed := ⟨fun _ => none, files⟩

/-- A message that is neither blank nor a slash command. -/
def Typed (message : String) : Prop :=
  trim message ≠ "" ∧ startsWith "/" (trim message) = false

instance (message : String) : Decidable (Typed message) :=
  inferInstanceAs (Decidable (_ ∧ _))

/-- The message is `/setup mode` with a known mode. -/
def setsMode (message : String) : Bool :=
  startsWith "/setup" (trim message) &&
    match words (trim message) with
    | _ :: target :: rest =>
      env.rt.toLowerCase (trim target) = "mode" && (normalizeAuthMode env (rest.headD "")).isSome
    | _ => false

def PendingSetupState.Identified (pending : PendingSetupState) : Prop :=
  trim (pending.identifier.getD "") ≠ ""

instance (pending : PendingSetupState) : Decidable pending.Identified :=
  inferInstanceAs (Decidable (_ ≠ _))

/-- A mode is set only where the identifier is known. -/
def ModeBehindIdentifier (s : FlowState Key Sealed) (event : SetupEvent Key) : Prop :=
  setsMode env event.message = true →
    ∀ pending ∈ s.pending event.session, pending.Identified

instance (s : FlowState Key Sealed) (event : SetupEvent Key) :
    Decidable (ModeBehindIdentifier env s event) := by
  unfold ModeBehindIdentifier
  infer_instance

/-- What a message does to the pending state of its session. -/
inductive Moves (s : FlowState Key Sealed) (session message : String) :
    Option PendingSetupState → Prop
  | stay : Moves s session message (s.pending session)
  | leave : Moves s session message none
  | begin (service : String) : Moves s session message (some { service, step := .identifier })
  | identify (pending : PendingSetupState) (hvalue : trim message ≠ "") :
    Moves s session message
      (some { pending with identifier := some (trim message), step := .authMode })
  | ask (pending : PendingSetupState) (authMode : CredentialAuthMode)
    (hpending : s.pending session = some pending)
    (hstep : setsMode env message = true ∨ pending.step = .authMode) :
    Moves s session message (some { pending with authMode := some authMode, step := .secret })

section Moves

variable {env} {s : FlowState Key Sealed} {session message : String} {at_ : Surroundings Key}

/-- The message changes no pending state but that of its session, and moves that one. -/
def Moved (env : SetupEnv Key Sealed) (s : FlowState Key Sealed) (session message : String)
    (after : FlowState Key Sealed × SetupFlowResult) : Prop :=
  ∃ next, Moves env s session message next ∧
    after.1.pending = Function.update s.pending session next

theorem moved_stay {after : FlowState Key Sealed × SetupFlowResult}
    (h : after.1.pending = s.pending) : Moved env s session message after :=
  ⟨s.pending session, .stay, h.trans (Function.update_eq_self session s.pending).symm⟩

theorem listCommand_pending : (listCommand env at_ s).1.pending = s.pending := by
  unfold listCommand
  rcases listServices env at_ s.files with ⟨files, message | services⟩
  · rfl
  · cases services <;> rfl

theorem clearCommand_moved (target : String) :
    Moved env s session message (clearCommand env at_ session s target) := by
  unfold clearCommand
  cases normalizeSetupService env.toUrlEnv target with
  | none => exact moved_stay rfl
  | some service =>
    dsimp only
    rcases attempt env (.delete service) at_ s.files with ⟨files, outcome⟩
    cases outcome with
    | failed message => exact moved_stay rfl
    | deleted removed => cases removed <;> exact ⟨none, .leave, rfl⟩
    | saved _ _ => exact ⟨none, .leave, rfl⟩
    | found _ => exact ⟨none, .leave, rfl⟩

theorem handleSlashSetupCommand_moved :
    Moved env s session message (handleSlashSetupCommand env at_ session s message) := by
  unfold handleSlashSetupCommand
  dsimp only
  by_cases hslash : startsWith "/setup" (trim message) = true
  · simp only [hslash, Bool.not_true, Bool.false_eq_true, if_false]
    match hwords : words (trim message) with
    | [] => exact moved_stay rfl
    | [_] => exact moved_stay rfl
    | _ :: target :: rest =>
      dsimp only
      split
      · exact moved_stay listCommand_pending
      · split
        · exact ⟨none, .leave, rfl⟩
        · split
          · exact clearCommand_moved _
          · split
            · next hmode =>
              unfold modeCommand
              cases hpending : s.pending session with
              | none => exact moved_stay rfl
              | some pending =>
                cases hauth : normalizeAuthMode env (rest.headD "") with
                | none => exact moved_stay rfl
                | some authMode =>
                  have hsets : setsMode env message = true := by
                    rw [setsMode, hslash, hwords]
                    dsimp only
                    rw [hmode, hauth]
                    rfl
                  exact ⟨_, .ask pending authMode hpending (Or.inl hsets), rfl⟩
            · unfold startCommand
              cases normalizeSetupService env.toUrlEnv
                  (env.rt.toLowerCase (trim target)) with
              | none => exact moved_stay rfl
              | some service => exact ⟨_, .begin service, rfl⟩
  · simp only [hslash, Bool.not_false, if_true]
    exact moved_stay rfl

theorem saveSecret_moved (pending : PendingSetupState) (identifier raw : String) :
    Moved env s session message (saveSecret env at_ session s pending identifier raw) := by
  unfold saveSecret
  rcases attempt env (.set (secretParams env pending identifier raw)) at_ s.files with
    ⟨files, outcome⟩
  cases outcome with
  | failed message => exact moved_stay rfl
  | deleted _ => exact ⟨none, .leave, rfl⟩
  | saved _ _ => exact ⟨none, .leave, rfl⟩
  | found _ => exact ⟨none, .leave, rfl⟩

theorem handlePendingSetupInput_moved :
    Moved env s session message (handlePendingSetupInput env at_ session s message) := by
  unfold handlePendingSetupInput
  cases hpending : s.pending session with
  | none => exact moved_stay rfl
  | some pending =>
    dsimp only
    split
    · exact moved_stay rfl
    · next hvalue =>
      split
      · split
        · exact ⟨none, .leave, rfl⟩
        · exact moved_stay rfl
      · cases hstep : pending.step with
        | identifier => exact ⟨_, .identify pending hvalue, rfl⟩
        | authMode =>
          dsimp only
          cases normalizeAuthMode env (trim message) with
          | none => exact moved_stay rfl
          | some authMode => exact ⟨_, .ask pending authMode hpending (Or.inr hstep), rfl⟩
        | secret =>
          dsimp only
          split
          · exact ⟨none, .leave, rfl⟩
          · exact saveSecret_moved pending _ message

/-- A message that is no `/setup` command leaves the slash handler without an effect. -/
theorem handleSlashSetupCommand_ignored
    (h : startsWith "/setup" (trim message) = false) :
    handleSlashSetupCommand env at_ session s message = (s, .ignored) := by
  unfold handleSlashSetupCommand
  simp [h]

theorem clearCommand_answers (target : String) :
    (clearCommand env at_ session s target).2 ≠ .ignored := by
  unfold clearCommand
  cases normalizeSetupService env.toUrlEnv target with
  | none => exact SetupFlowResult.noConfusion
  | some service =>
    dsimp only
    rcases attempt env (.delete service) at_ s.files with ⟨files, outcome⟩
    cases outcome with
    | deleted removed => cases removed <;> exact SetupFlowResult.noConfusion
    | _ => exact SetupFlowResult.noConfusion

theorem listCommand_answers : (listCommand env at_ s).2 ≠ .ignored := by
  unfold listCommand
  rcases listServices env at_ s.files with ⟨files, message | services⟩
  · exact SetupFlowResult.noConfusion
  · cases services <;> exact SetupFlowResult.noConfusion

theorem modeCommand_answers (mode : String) : (modeCommand env session s mode).2 ≠ .ignored := by
  unfold modeCommand
  cases s.pending session with
  | none => exact SetupFlowResult.noConfusion
  | some pending =>
    dsimp only
    cases normalizeAuthMode env mode <;> exact SetupFlowResult.noConfusion

theorem startCommand_answers (sub : String) : (startCommand env session s sub).2 ≠ .ignored := by
  unfold startCommand
  cases normalizeSetupService env.toUrlEnv sub <;> exact SetupFlowResult.noConfusion

/-- A `/setup` command is answered by the slash handler. -/
theorem handleSlashSetupCommand_answers (h : startsWith "/setup" (trim message) = true) :
    (handleSlashSetupCommand env at_ session s message).2 ≠ .ignored := by
  unfold handleSlashSetupCommand
  simp only [h, Bool.not_true, Bool.false_eq_true, if_false]
  match words (trim message) with
  | [] => exact SetupFlowResult.noConfusion
  | [_] => exact SetupFlowResult.noConfusion
  | _ :: target :: rest =>
    dsimp only
    split
    · exact listCommand_answers
    · split
      · exact SetupFlowResult.noConfusion
      · split
        · exact clearCommand_answers _
        · split
          · exact modeCommand_answers _
          · exact startCommand_answers _

theorem handleSecureSetupFlow_slash (h : startsWith "/setup" (trim message) = true) :
    handleSecureSetupFlow env at_ session s message =
      handleSlashSetupCommand env at_ session s message := by
  unfold handleSecureSetupFlow
  dsimp only
  have hanswers := @handleSlashSetupCommand_answers Key Sealed env s session message at_ h
  cases hresult : (handleSlashSetupCommand env at_ session s message).2 with
  | ignored => exact absurd hresult hanswers
  | handled _ => rfl
  | thrown _ => rfl

theorem handleSecureSetupFlow_input (h : startsWith "/setup" (trim message) = false) :
    handleSecureSetupFlow env at_ session s message =
      handlePendingSetupInput env at_ session s message := by
  unfold handleSecureSetupFlow
  rw [handleSlashSetupCommand_ignored h]

theorem flow_moved : Moved env s session message (handleSecureSetupFlow env at_ session s message) := by
  cases hslash : startsWith "/setup" (trim message) with
  | true =>
    rw [handleSecureSetupFlow_slash hslash]
    exact handleSlashSetupCommand_moved
  | false =>
    rw [handleSecureSetupFlow_input hslash]
    exact handlePendingSetupInput_moved

end Moves

section Results

variable {env} {s : FlowState Key Sealed}

/-- Behind its first step a pending setup has an identifier. -/
def FlowState.Identified (s : FlowState Key Sealed) : Prop :=
  ∀ session pending, s.pending session = some pending → pending.step ≠ .identifier →
    pending.Identified

theorem identified_step {event : SetupEvent Key} (hok : ModeBehindIdentifier env s event)
    (h : s.Identified) : (s.step env event).Identified := by
  obtain ⟨next, hmoves, hupdate⟩ :=
    @flow_moved Key Sealed env s event.session event.message event.at_
  intro session pending hpending hstep
  unfold FlowState.step at hpending
  rw [hupdate] at hpending
  by_cases hsession : session = event.session
  · subst hsession
    rw [Function.update_self] at hpending
    cases hmoves with
    | stay => exact h event.session pending hpending hstep
    | leave => cases hpending
    | begin service =>
      obtain rfl := Option.some.inj hpending
      exact absurd rfl hstep
    | identify pending hvalue =>
      obtain rfl := Option.some.inj hpending
      unfold PendingSetupState.Identified
      rw [Option.getD_some, Js.trim_trim]
      exact hvalue
    | ask before authMode hbefore hcause =>
      obtain rfl := Option.some.inj hpending
      rcases hcause with hsets | hmode
      · exact hok hsets before hbefore
      · exact h event.session before hbefore (by rw [hmode]; exact Step.noConfusion)
  · rw [Function.update_of_ne hsession] at hpending
    exact h session pending hpending hstep

theorem Typed.not_setup {message : String} (h : Typed message) :
    startsWith "/setup" (trim message) = false := by
  by_contra hsetup
  have hfront := List.isPrefixOf_iff_prefix.mp (Bool.not_eq_false _ ▸ hsetup)
  have hslash : "/".toList <+: (trim message).toList :=
    (show "/".toList <+: "/setup".toList by decide).trans hfront
  have htyped := h.2
  rw [startsWith, List.isPrefixOf_iff_prefix.mpr hslash] at htyped
  cases htyped

/-- A typed message at the secret step of an identified setup goes to the vault. -/
theorem flow_saves {session message : String} {pending : PendingSetupState}
    (hpending : s.pending session = some pending) (hstep : pending.step = .secret)
    (hidentified : pending.Identified) (htyped : Typed message) (at_ : Surroundings Key) :
    handleSecureSetupFlow env at_ session s message =
      saveSecret env at_ session s pending (trim (pending.identifier.getD "")) message := by
  rw [handleSecureSetupFlow_input htyped.not_setup, handlePendingSetupInput, hpending]
  simp only [htyped.1, htyped.2, if_false, Bool.false_eq_true, hstep]
  rw [if_neg hidentified]

/-- Where modes are set only behind the identifier, a pending secret has its identifier, and the
next typed message is saved under it. -/
theorem pending_secret_usable (env : SetupEnv Key Sealed) (files : Files Key Sealed)
    (events : List (SetupEvent Key))
    (h : Allowed (FlowState.step env) (ModeBehindIdentifier env) (.idle files) events)
    (session : String) (pending : PendingSetupState)
    (hpending : (run (FlowState.step env) (.idle files) events).pending session = some pending)
    (hstep : pending.step = .secret) :
    trim (pending.identifier.getD "") ≠ "" ∧
      ∀ at_ message, Typed message →
        handleSecureSetupFlow env at_ session (run (FlowState.step env) (.idle files) events)
            message =
          saveSecret env at_ session (run (FlowState.step env) (.idle files) events) pending
            (trim (pending.identifier.getD "")) message := by
  have hidle : (FlowState.idle files : FlowState Key Sealed).Identified := by
    intro session pending hpending
    cases hpending
  have hrun := EventRun.run_keeps (fun s event hok hs => identified_step hok hs) h hidle
  have hidentified : pending.Identified :=
    hrun session pending hpending (by rw [hstep]; exact Step.noConfusion)
  exact ⟨hidentified, fun at_ message htyped =>
    flow_saves hpending hstep hidentified htyped at_⟩

/-- The plain cipher, with the texts of the vault. -/
def setupEnv : SetupEnv Bool (Bool × Js.Value) where
  toVaultEnv := Vault.plainEnv
  openError := fun _ => "Could not decrypt credential vault. Verify key integrity."

def chats (message : String) : SetupEvent Bool := ⟨"chat", message, { now := 1, iv := 0, freshKey := true }⟩

theorem pending_secret_usable_in_order :
    let events := [chats "/setup bank.example", chats "ada", chats "/setup mode password"]
    let after := run (FlowState.step setupEnv) (.idle ⟨none, none⟩) events
    Allowed (FlowState.step setupEnv) (ModeBehindIdentifier setupEnv) (.idle ⟨none, none⟩) events ∧
      ∃ pending, after.pending "chat" = some pending ∧ pending.step = .secret ∧
        trim (pending.identifier.getD "") ≠ "" := by
  intro events after
  have hallowed : Allowed (FlowState.step setupEnv) (ModeBehindIdentifier setupEnv)
      (.idle ⟨none, none⟩) events := by
    decide
  have hpending : after.pending "chat" =
      some ⟨"bank.example", .secret, some .password, some "ada"⟩ := by
    decide
  exact ⟨hallowed, _, hpending, rfl,
    (pending_secret_usable setupEnv ⟨none, none⟩ events hallowed "chat" _ hpending rfl).1⟩

/-- With the mode set at once, the flow asks for the secret of an unknown identifier. -/
theorem secret_asked_without_identifier :
    let events := [chats "/setup bank.example", chats "/setup mode password"]
    let after := run (FlowState.step setupEnv) (.idle ⟨none, none⟩) events
    ∃ pending, after.pending "chat" = some pending ∧ pending.step = .secret ∧
      trim (pending.identifier.getD "") = "" := by
  refine ⟨⟨"bank.example", .secret, some .password, none⟩, by decide, rfl, by decide⟩

end Results

end T560.Setup
