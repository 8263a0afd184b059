import T560.Vault.Store

/-!
# Reading and changing the records of the vault

What `normalizeStore` makes of the decrypted JSON, and what `setCredential` and
`deleteCredential` do to the records. A store is written as JSON and normalized again on every
read.
-/

namespace T560.Vault

open Js (Value JsError PropertyMap trim)
open Js.Value (coalesce textOrEmpty trimmedText)

def orNull (s : String) : Option String := if s = "" then none else some s

section Store

def createEmptyStore : VaultStore := { records := [], keyed := nofun }

/-- `records[record.service] = record`. -/
def VaultStore.assign (store : VaultStore) (record : CredentialRecord) : VaultStore :=
  if h : record.service = "__proto__" then
    { store with
      prototype := some record
      prototyped := by
        intro r hr
        rw [← Option.some.inj hr, h] }
  else
    { store with
      records := store.records.put record.service record
      keyed := by
        intro f hf
        rcases PropertyMap.mem_put hf with hf | rfl
        · exact store.keyed f hf
        · rfl }

/-- `delete records[service]`. -/
def VaultStore.delete (store : VaultStore) (service : String) : VaultStore :=
  { store with
    records := store.records.remove service
    keyed := fun f hf => store.keyed f (PropertyMap.mem_remove hf) }

def CredentialAuthMode.text : CredentialAuthMode → String
  | .password => "password"
  | .passwordWithMfa => "password_with_mfa"
  | .passwordlessMfaCode => "passwordless_mfa_code"

def CredentialMfaStrategy.text : CredentialMfaStrategy → String
  | .userPrompt => "user_prompt"
  | .emailOrUser => "email_or_user"

def CredentialRecord.toValue (r : CredentialRecord) : Value :=
  let field := fun key (text : Option String) => (text.toList.map fun t => (key, Value.str t))
  .obj ([("service", .str r.service), ("identifier", .str r.identifier), ("secret", .str r.secret),
    ("authMode", .str r.authMode.text)] ++ field "websiteUrl" r.websiteUrl ++
    field "mfaStrategy" (r.mfaStrategy.map (·.text)) ++
    field "mfaSourceService" r.mfaSourceService ++ field "mfaCode" r.mfaCode ++
    [("createdAt", .num (.fin r.createdAt)), ("updatedAt", .num (.fin r.updatedAt))])

/-- What `JSON.parse` reads back from the text `JSON.stringify` writes: own properties only, in
the order of `Object.entries`. -/
def VaultStore.toValue (store : VaultStore) : Value :=
  .obj [("version", .num (.fin 1)),
    ("records", .obj (store.records.entries.map fun f => (f.1, f.2.toValue)))]

end Store

section Normalize
variable (env : UrlEnv)

def parseAuthMode (raw : String) : CredentialAuthMode :=
  if raw = "passwordless_mfa_code" ∨ raw = "passwordless" then .passwordlessMfaCode
  else if raw = "password_with_mfa" ∨ raw = "password+mfa" ∨ raw = "mfa_password" then
    .passwordWithMfa
  else .password

def parseMfaStrategy (raw : String) : CredentialMfaStrategy :=
  if raw = "email_or_user" then .emailOrUser else .userPrompt

/-- `Number.isFinite(x) && x > 0 ? Math.floor(x) : Date.now()`. -/
def timestamp (now : Nat) : Js.Num → Nat
  | .fin q => if 0 < q then ⌊q⌋.toNat else now
  | _ => now

/-- One entry of the stored records, read at time `now`; `none` drops it. -/
def normalizeEntry (now : Nat) (serviceKey : String) (entry : Value) :
    Except JsError (Option CredentialRecord) := do
  let service := normalizeSetupService env
    (← textOrEmpty env.rt (coalesce [entry.get? "service", some (.str serviceKey)]))
  let identifier ← trimmedText env.rt [entry.get? "identifier"]
  let secret ← textOrEmpty env.rt (entry.get? "secret")
  let authMode := parseAuthMode
    (env.rt.toLowerCase (← trimmedText env.rt [entry.get? "authMode"]))
  let websiteUrl ← trimmedText env.rt [entry.get? "websiteUrl"]
  let mfaStrategy := parseMfaStrategy
    (env.rt.toLowerCase (← trimmedText env.rt [entry.get? "mfaStrategy"]))
  let mfaSourceService := normalizeSetupService env
    (← textOrEmpty env.rt (entry.get? "mfaSourceService"))
  let mfaCode := (Value.str? (entry.get? "mfaCode")).bind fun code => orNull (trim code)
  let createdAt ← Value.number env.rt (coalesce [entry.get? "createdAt", some (.num (.fin now))])
  let updatedAt ← Value.number env.rt (coalesce [entry.get? "updatedAt", some (.num (.fin now))])
  match service with
  | none => return none
  | some service =>
    if identifier = "" ∨ (trim secret = "" ∧ authMode = .password) then return none
    return some {
      service, identifier, secret, authMode
      websiteUrl := orNull websiteUrl
      mfaStrategy := if authMode = .password then none else some mfaStrategy
      mfaSourceService := if authMode = .password then none else mfaSourceService
      mfaCode
      createdAt := timestamp now createdAt
      updatedAt := timestamp now updatedAt }

/-- The entry joins the records when it is an object and survives its normalization. -/
def addEntry (now : Nat) (store : VaultStore) (f : String × Value) : Except JsError VaultStore :=
  if f.2.isObject then do
    match ← normalizeEntry env now f.1 f.2 with
    | some record => return store.assign record
    | none => return store
  else return store

def normalizeStore (now : Nat) (raw : Value) : Except JsError VaultStore :=
  match raw.get? "records" with
  | some records => records.entries.foldlM (addEntry env now) createEmptyStore
  | none => return createEmptyStore

end Normalize

section Change
variable (env : UrlEnv)

/-- The text behind the last `@`, unless it is empty. -/
def domainOf (value : String) : Option String :=
  if '@' ∈ value.toList then
    orNull (String.ofList (value.toList.reverse.takeWhile (· ≠ '@')).reverse)
  else none

def inferMailboxServiceCandidatesFromIdentifier (identifier : String) : List String :=
  match (domainOf (env.rt.toLowerCase (trim identifier))).bind fun d => orNull (trim d) with
  | none => []
  | some domain =>
    if domain = "gmail.com" ∨ domain = "googlemail.com" then ["mail.google.com", "email"]
    else if domain = "outlook.com" ∨ domain = "hotmail.com" ∨ domain = "live.com" ∨
        domain = "msn.com" then
      ["outlook.office.com", "outlook.live.com", "email"]
    else if domain = "yahoo.com" ∨ ".yahoo.com".toList.isSuffixOf domain.toList then
      ["mail.yahoo.com", "email"]
    else if domain = "icloud.com" ∨ domain = "me.com" ∨ domain = "mac.com" then
      ["icloud.com", "email"]
    else ["email"]

def inferMfaSourceServiceFromIdentifier (identifier : String) (store : VaultStore) :
    Option String :=
  let targetIdentifier := env.rt.toLowerCase (trim identifier)
  if targetIdentifier = "" then none
  else
    (inferMailboxServiceCandidatesFromIdentifier env identifier).findSome? fun candidate => do
      let normalized ← normalizeSetupService env candidate
      match readRecord store normalized with
      | some (.record mailbox) =>
        if env.rt.toLowerCase (trim mailbox.identifier) = targetIdentifier then some normalized
        else none
      | _ => none

/-- The parameters of `setCredential`. -/
structure SetParams where
  service : String
  identifier : String
  secret : String
  authMode : Option CredentialAuthMode := none
  websiteUrl : Option String := none
  mfaStrategy : Option CredentialMfaStrategy := none
  mfaSourceService : Option String := none
  mfaCode : Option String := none

namespace SetParams
variable (params : SetParams)

def mode : CredentialAuthMode := params.authMode.getD .password

/-- The secret that is stored: without a password, a blank one has a placeholder. -/
def storedSecret : String :=
  if params.mode = .passwordlessMfaCode ∧ trim params.secret = "" then "__PASSWORDLESS_MFA__"
  else params.secret

/-- The checks before the vault is opened; the service name that passed them. -/
def check : Except String String :=
  match normalizeSetupService env params.service with
  | none => .error "Unsupported setup service."
  | some service =>
    if trim params.identifier = "" then .error "Identifier is required."
    else if params.mode ≠ .passwordlessMfaCode ∧ params.storedSecret = "" then
      .error "Secret is required."
    else .ok service

/-- The record that is written over what the vault holds for the service. -/
def record (now : Nat) (service : String) (store : VaultStore) : CredentialRecord :=
  let existing := match readRecord store service with
    | some (.record r) => some r
    | _ => none
  let websiteUrl := (orNull (trim (params.websiteUrl.getD ""))).or
    (orNull (trim ((existing.bind (·.websiteUrl)).getD "")))
  let mfaSourceService := ((normalizeSetupService env (params.mfaSourceService.getD "")).or
    (normalizeSetupService env ((existing.bind (·.mfaSourceService)).getD ""))).or
    (inferMfaSourceServiceFromIdentifier env (trim params.identifier) store)
  let mfaStrategy :=
    if params.mfaStrategy = some .emailOrUser ∨ mfaSourceService.isSome ∨
        existing.bind (·.mfaStrategy) = some .emailOrUser then
      CredentialMfaStrategy.emailOrUser
    else .userPrompt
  { service
    identifier := trim params.identifier
    secret := params.storedSecret
    authMode := params.mode
    websiteUrl
    mfaStrategy := if params.mode = .password then none else some mfaStrategy
    mfaSourceService := if params.mode = .password then none else mfaSourceService
    mfaCode := params.mfaCode.bind fun code => orNull (trim code)
    createdAt := (existing.map (·.createdAt)).getD now
    updatedAt := now }

end SetParams

end Change

end T560.Vault
