import Mathlib.Logic.Function.Iterate
import T560.Foundation.Pattern
import T560.Js.Text
import T560.Vault.Files

/-!
# The setup flow

The conversation in which a user stores a credential: the identifier, the auth mode and the
secret, one message each, with slash commands in between. The pending state of every session is
in one map, and all sessions share one vault.
-/

namespace T560.Setup

open Foundation (Pattern)
open Js (Units units trim isSpace startsWith)
open Vault (VaultEnv VaultStore Files Call Request Outcome Phase CredentialAuthMode SetParams advance
  createEmptyStore decryptStore listConfiguredServices normalizeSetupService)

/-- The vault, and the error of a vault file that cannot be opened: it is no JSON, no envelope, or
does not decrypt. -/
structure SetupEnv (Key Sealed : Type) extends VaultEnv Key Sealed where
  openError : Sealed → String

inductive Step where
  | identifier
  | authMode
  | secret
  deriving DecidableEq, Repr

structure PendingSetupState where
  service : String
  step : Step
  authMode : Option CredentialAuthMode := none
  identifier : Option String := none
  deriving DecidableEq, Repr

/-- What a call comes back with: a reply, a message that is not for the flow, or an error. -/
inductive SetupFlowResult where
  | handled (message : Units)
  | ignored
  | thrown (message : String)
  deriving DecidableEq, Repr

/-- A file operation that fails: after how many steps of the vault operation, with which error. -/
structure Fault where
  steps : Nat
  message : String
  deriving DecidableEq, Repr

/-- What a call takes from its surroundings. A vault file that exists may be unreadable. -/
structure Surroundings (Key : Type) where
  now : Nat
  iv : Nat
  freshKey : Key
  unreadable : Bool := false
  fault : Option Fault := none
  deriving DecidableEq

structure FlowState (Key Sealed : Type) where
  pending : String → Option PendingSetupState
  files : Files Key Sealed

section Texts

def usageText : String :=
  "\n".intercalate ["Secure setup commands:",
    "- /setup <service-or-site>   (example: /setup example.com or /setup https://example.com/login)",
    "- /setup list",
    "- /setup clear <service-or-site>",
    "- /setup cancel",
    "- /setup mode password|password+mfa|mfa    (only during active setup flow)"]

def isMailbox (service : String) : Bool :=
  service = "email" || "mail.".toList.isPrefixOf service.toList

def promptForIdentifier (service : String) : String :=
  if isMailbox service then
    "Setup " ++ service ++ ": enter the email address for this mailbox account."
  else "Setup " ++ service ++ ": enter the login identifier (email/username)."

def promptForAuthMode (service : String) : String :=
  "\n".intercalate ["Setup " ++ service ++ ": choose auth mode.",
    "- Type: password",
    "- Type: password+mfa (password plus one-time code)",
    "- Type: mfa (passwordless MFA code)",
    "You can also use: /setup mode password  or  /setup mode password+mfa  or  /setup mode mfa"]

def promptForSecret (service : String) (authMode : CredentialAuthMode) : String :=
  if authMode = .passwordlessMfaCode then
    "\n".intercalate ["Setup " ++ service ++ ": enter a default MFA code (optional).",
      "Type 'skip' to save passwordless mode without a stored code.",
      "You can provide fresh MFA codes later during login flows."]
  else if isMailbox service then
    "Setup " ++ service ++
      ": enter the app password or mailbox secret. It is stored securely and never echoed back."
  else
    "Setup " ++ service ++
      ": enter your password or secret. It is stored securely and never echoed back."

def completionText (service : String) (authMode : CredentialAuthMode) : String :=
  if authMode = .passwordlessMfaCode then
    "Saved secure credentials for " ++ service ++ ". Auth mode=passwordless MFA code."
  else "Saved secure credentials for " ++ service ++ "."

/-- The slices of the source count UTF-16 units. -/
def redactIdentifier (identifier : String) : Units :=
  let trimmed := units (trim identifier)
  let at_ := trimmed.idxOf 64
  if trimmed = [] then units "(empty)"
  else if 1 < at_ ∧ at_ < trimmed.length then
    trimmed.take 1 ++ units "***" ++ trimmed.drop at_
  else if trimmed.length ≤ 3 then trimmed.take 1 ++ units "**"
  else trimmed.take 2 ++ units "***" ++ trimmed.drop (trimmed.length - 1)

def identifierSaved (identifier : String) : Units :=
  units "\nIdentifier saved: " ++ redactIdentifier identifier

end Texts

section Words

variable {Key Sealed : Type} (env : SetupEnv Key Sealed)

def normalizeAuthMode (input : String) : Option CredentialAuthMode :=
  let value := env.rt.toLowerCase (trim input)
  if value ∈ ["password", "pass", "pwd"] then some .password
  else if value ∈ ["password+mfa", "password_with_mfa", "password-and-mfa", "mfa_required"] then
    some .passwordWithMfa
  else if value ∈ ["mfa", "passwordless", "mfa-code", "passwordless-mfa", "passwordless_mfa_code"]
  then some .passwordlessMfaCode
  else none

/-- `split(/\s+/g).filter(Boolean)`. -/
def words (text : String) : List String :=
  ((text.toList.splitOnP isSpace).filter (· ≠ [])).map String.ofList

/-- `/^\/setup\s+cancel\b/i`. -/
def cancelPattern : Pattern :=
  .concat [.text "/setup", .char isSpace, .run isSpace none, .text "cancel", .boundary]

def asksToCancel (value : String) : Bool := !(cancelPattern.ends (none, value.toList)).isEmpty

end Words

section Store

variable {Key Sealed : Type} (env : SetupEnv Key Sealed)

/-- The vault file as an operation reads it. -/
def Surroundings.reads (at_ : Surroundings Key) (vault : Option Sealed) : Option Sealed :=
  if at_.unreadable then none else vault

/-- One step of a vault operation. The first one reads the vault file. -/
def vaultStep (call : Call Key) (at_ : Surroundings Key) (state : Files Key Sealed × Phase Key Sealed) :
    Files Key Sealed × Phase Key Sealed :=
  match state.2 with
  | .start =>
    (state.1, (advance env.toVaultEnv call { state.1 with vault := at_.reads state.1.vault } .start).2)
  | phase => advance env.toVaultEnv call state.1 phase

/-- A vault operation up to its fault, if it meets one: the files it leaves, and its outcome. -/
def attempt (request : Request) (at_ : Surroundings Key) (files : Files Key Sealed) :
    Files Key Sealed × Outcome :=
  let call : Call Key := ⟨request, at_.now, at_.iv, at_.freshKey⟩
  let steps := at_.fault.elim 4 (·.steps)
  let reached := (vaultStep env call at_)^[steps] (files, .start)
  match reached.2 with
  | .done outcome => (reached.1, outcome)
  | _ => (reached.1, .failed (at_.fault.elim "" (·.message)))

/-- The error text of a failed operation; a vault file that the key does not open has its own. -/
def failureText (now : Nat) (files : Files Key Sealed) (message : String) : String :=
  match files.vault, files.key with
  | some payload, some key =>
    if message = "Could not decrypt credential vault. Verify key integrity." ∧
        (decryptStore env.toVaultEnv now key payload).isNone then
      env.openError payload
    else message
  | _, _ => message

/-- `listConfiguredServices`: without a vault file it creates the key that is missing. -/
def listServices (at_ : Surroundings Key) (files : Files Key Sealed) :
    Files Key Sealed × Except String (List String) :=
  let payload := at_.reads files.vault
  let creates := payload.isNone && files.key.isNone
  match at_.fault.filter fun fault => fault.steps < if creates then 3 else 2 with
  | some fault => (files, .error fault.message)
  | none =>
    let files := if creates then { files with key := some at_.freshKey } else files
    let store : Except String VaultStore := match payload, files.key with
      | none, _ => .ok createEmptyStore
      | some _, none => .error env.missingKeyMessage
      | some payload, some key =>
        (decryptStore env.toVaultEnv at_.now key payload).elim (.error (env.openError payload)) .ok
    (files, store.map (listConfiguredServices env.toUrlEnv))

end Store

section Flow

variable {Key Sealed : Type} (env : SetupEnv Key Sealed) (at_ : Surroundings Key)
  (sessionId : String) (s : FlowState Key Sealed)

def FlowState.setPending (pending : Option PendingSetupState) : FlowState Key Sealed :=
  { s with pending := Function.update s.pending sessionId pending }

def reply (message : String) : FlowState Key Sealed × SetupFlowResult :=
  (s, .handled (units message))

/-- The auth mode is set, and the flow asks for the secret. -/
def askSecret (pending : PendingSetupState) (authMode : CredentialAuthMode) :
    FlowState Key Sealed × SetupFlowResult :=
  (s.setPending sessionId (some { pending with authMode := some authMode, step := .secret }),
    .handled (units (promptForSecret pending.service authMode) ++
      identifierSaved (pending.identifier.getD "")))

def listCommand : FlowState Key Sealed × SetupFlowResult :=
  let (files, services) := listServices env at_ s.files
  let s := { s with files }
  match services with
  | .error message => (s, .thrown message)
  | .ok [] => reply s "No secure credentials stored yet."
  | .ok services =>
    reply s ("\n".intercalate ("Configured secure services:" :: services.map ("- " ++ ·)))

def cancelCommand : FlowState Key Sealed × SetupFlowResult :=
  reply (s.setPending sessionId none)
    (if (s.pending sessionId).isSome then "Cancelled active setup flow."
      else "No active setup flow for this session.")

def clearCommand (target : String) : FlowState Key Sealed × SetupFlowResult :=
  match normalizeSetupService env.toUrlEnv target with
  | none => reply s "Usage: /setup clear <service-or-site>"
  | some service =>
    let (files, outcome) := attempt env (.delete service) at_ s.files
    match outcome with
    | .failed message => ({ s with files }, .thrown (failureText env at_.now s.files message))
    | .deleted true =>
      reply (FlowState.setPending sessionId { s with files } none)
        ("Removed secure credentials for " ++ service ++ ".")
    | _ =>
      reply (FlowState.setPending sessionId { s with files } none)
        ("No stored credentials found for " ++ service ++ ".")

def modeCommand (mode : String) : FlowState Key Sealed × SetupFlowResult :=
  match s.pending sessionId with
  | none => reply s "No active setup flow. Start with /setup <service-or-site>."
  | some pending =>
    match normalizeAuthMode env mode with
    | none => reply s "Usage: /setup mode password|password+mfa|mfa"
    | some authMode => askSecret sessionId s pending authMode

def startCommand (sub : String) : FlowState Key Sealed × SetupFlowResult :=
  match normalizeSetupService env.toUrlEnv sub with
  | none => reply s (usageText ++ "\nUnsupported setup target: " ++ sub)
  | some service =>
    reply (s.setPending sessionId (some { service, step := .identifier }))
      (promptForIdentifier service ++ "\nType /setup cancel to abort.")

/-- A text that starts with `/setup`. -/
def handleSlashSetupCommand (text : String) : FlowState Key Sealed × SetupFlowResult :=
  let trimmed := trim text
  if !startsWith "/setup" trimmed then (s, .ignored)
  else
    match words trimmed with
    | _ :: target :: rest =>
      let sub := env.rt.toLowerCase (trim target)
      if sub = "list" then listCommand env at_ s
      else if sub = "cancel" then cancelCommand sessionId s
      else if sub = "clear" then clearCommand env at_ sessionId s (rest.headD "")
      else if sub = "mode" then modeCommand env sessionId s (rest.headD "")
      else startCommand env sessionId s sub
    | _ => reply s usageText

/-- The parameters of `setCredential` for a secret that was typed. -/
def secretParams (pending : PendingSetupState) (identifier raw : String) : SetParams :=
  let authMode := pending.authMode.getD .password
  let value := trim raw
  { service := pending.service
    identifier
    secret := if authMode = .passwordlessMfaCode then "" else raw
    authMode := some authMode
    mfaCode := if authMode = .passwordlessMfaCode ∧ env.rt.toLowerCase value ≠ "skip" then
        some value
      else none }

/-- The secret goes to the vault; the flow waits for another one when that fails. -/
def saveSecret (pending : PendingSetupState) (identifier raw : String) :
    FlowState Key Sealed × SetupFlowResult :=
  let (files, outcome) := attempt env (.set (secretParams env pending identifier raw)) at_ s.files
  match outcome with
  | .failed message =>
    reply { s with files }
      ("Could not save secure credentials yet: " ++ failureText env at_.now s.files message)
  | _ =>
    reply (FlowState.setPending sessionId { s with files } none)
      (completionText pending.service (pending.authMode.getD .password))

def handlePendingSetupInput (text : String) : FlowState Key Sealed × SetupFlowResult :=
  match s.pending sessionId with
  | none => (s, .ignored)
  | some pending =>
    let value := trim text
    if value = "" then reply s "Input cannot be empty. Type /setup cancel to abort."
    else if startsWith "/" value then
      if asksToCancel value then
        reply (s.setPending sessionId none) "Cancelled active setup flow."
      else
        reply s ("Setup flow is waiting for a value. Type /setup cancel to abort before using " ++
          "other slash commands.")
    else
      match pending.step with
      | .identifier =>
        (s.setPending sessionId (some { pending with identifier := some value, step := .authMode }),
          .handled (units (promptForAuthMode pending.service) ++ identifierSaved value))
      | .authMode =>
        match normalizeAuthMode env value with
        | none =>
          reply s ("Invalid auth mode. Type password, password+mfa, or mfa. (or /setup mode " ++
            "password|password+mfa|mfa)")
        | some authMode => askSecret sessionId s pending authMode
      | .secret =>
        let identifier := trim (pending.identifier.getD "")
        if identifier = "" then
          reply (s.setPending sessionId none)
            ("Setup flow reset due to missing identifier. Run /setup <service-or-site> again.")
        else saveSecret env at_ sessionId s pending identifier text

def handleSecureSetupFlow (message : String) : FlowState Key Sealed × SetupFlowResult :=
  let slash := handleSlashSetupCommand env at_ sessionId s message
  match slash.2 with
  | .ignored => handlePendingSetupInput env at_ sessionId slash.1 message
  | _ => slash

end Flow

end T560.Setup
