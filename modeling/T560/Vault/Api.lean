import T560.Foundation.Program
import T560.Setup.Identifier
import T560.Vault.Masked

/-!
# The vault in the dashboard

The handlers of the vault wait at every access to one of the two files, and other handlers may go on
meanwhile. What a handler answers shows no secret: two runs of the dashboard whose requests and
files differ in secrets and codes only give the same answers at every moment.
-/

namespace T560.Vault.Api

open Js (Value JsError PropertyMap Units trim includes)
open Js.Value (textOrEmpty trimmedText)
open Program (Prog SameOutcome Likeness)

/-- The clock and the random bytes that a handler draws when it goes on. -/
structure Moment (Key : Type) where
  now : Nat
  iv : Nat
  freshKey : Key

/-- The calls on the two files that a handler waits for. -/
inductive Access (Key Sealed : Type) where
  | readVault
  | readKey
  | ensureVaultDirs
  | writeKey (key : Key)
  | writeVault (payload : Sealed)

variable {Key Sealed : Type}

def Access.Answer : Access Key Sealed → Type
  | .readVault => Sealed
  | .readKey => Moment Key × Key
  | .ensureVaultDirs | .writeKey _ => Moment Key
  | .writeVault _ => Unit

/-- A program over the files; it throws the message of its error. -/
abbrev Body (Key Sealed : Type) := Prog (Access Key Sealed) Access.Answer String

def await (call : Access Key Sealed) : Body Key Sealed call.Answer := Program.perform call

/-- The surroundings: the place of the key file, an empty vault file, and what `new URL` reads of a
text, its protocol and its own text. What is written to the vault file is not empty, and what fails
about it under another key is its decryption. -/
structure ApiEnv (Key Sealed : Type) extends Setup.SetupEnv Key Sealed where
  keyPath : String
  isEmpty : Sealed → Bool
  url : String → Option (String × String)
  not_isEmpty_encrypt : ∀ iv key v, isEmpty (encrypt iv key v) = false
  openError_encrypt : ∀ iv key v,
    openError (encrypt iv key v) = "Could not decrypt credential vault. Verify key integrity."

variable (env : ApiEnv Key Sealed)

section Store

def readOrCreateVaultKey (allowCreate : Bool) : Body Key Sealed (Moment Key × Key) := do
  match ← Program.attempt (await .readKey) with
  | .ok found => return found
  | .error message =>
    if allowCreate then
      let drawn : Moment Key ← await .ensureVaultDirs
      let written : Moment Key ← await (.writeKey drawn.freshKey)
      return (written, drawn.freshKey)
    else .throws ("Credential key is missing or invalid (" ++ env.keyPath ++ "): " ++ message)

/-- The store that the payload holds under the key. -/
def storeOf (now : Nat) (key : Key) (payload : Sealed) : Except String VaultStore :=
  if env.isEmpty payload then .ok createEmptyStore
  else (decryptStore env.toVaultEnv now key payload).elim (.error (env.openError payload)) .ok

def ofExcept {α : Type} : Except String α → Body Key Sealed α
  | .ok a => .done a
  | .error message => .throws message

def readVaultStore : Body Key Sealed (Moment Key × Key × VaultStore) := do
  match ← Program.attempt (await .readVault) with
  | .error _ =>
    let (moment, key) ← readOrCreateVaultKey env true
    return (moment, key, createEmptyStore)
  | .ok payload =>
    let (moment, key) ← readOrCreateVaultKey env false
    let store ← ofExcept (storeOf env moment.now key payload)
    return (moment, key, store)

def writeVaultStore (key : Key) (store : VaultStore) : Body Key Sealed Unit := do
  let drawn : Moment Key ← await .ensureVaultDirs
  await (.writeVault (env.encrypt drawn.iv key store.toValue))

/-- The service, and whether its record is new. -/
def setCredential (params : SetParams) : Body Key Sealed (String × Bool) := do
  let service ← ofExcept (params.check env.toUrlEnv)
  let (moment, key, store) ← readVaultStore env
  writeVaultStore env key (store.assign (params.record env.toUrlEnv moment.now service store))
  return (service, (readRecord store service).isNone)

def getCredential (service : String) : Body Key Sealed (Option Found) :=
  match normalizeSetupService env.toUrlEnv service with
  | none => return none
  | some service => do
    let (_, _, store) ← readVaultStore env
    return readRecord store service

def deleteCredential (service : String) : Body Key Sealed Bool :=
  match normalizeSetupService env.toUrlEnv service with
  | none => return false
  | some service => do
    let (_, key, store) ← readVaultStore env
    if (readRecord store service).isSome then
      writeVaultStore env key (store.delete service)
      return true
    else return false

def listConfiguredServices : Body Key Sealed (List String) := do
  let (_, _, store) ← readVaultStore env
  return Vault.listConfiguredServices env.toUrlEnv store

end Store

section Entries

/-- A row of the list of credentials. -/
structure VaultEntry where
  service : String
  websiteUrl : String
  identifier : String
  identifierMasked : Units
  identifierVisibleToAgent : Bool := true
  secretStored : Bool := true
  secretVisibleToAgent : Bool := false
  authMode : CredentialAuthMode
  mfaStrategy : CredentialMfaStrategy
  mfaSourceService : String
  hasMfaCode : Bool
  createdAt : Nat
  updatedAt : Nat
  deriving DecidableEq

def vaultEntry (r : CredentialRecord) : VaultEntry where
  service := r.service
  websiteUrl := r.websiteUrl.getD ""
  identifier := r.identifier
  identifierMasked := Setup.redactIdentifier r.identifier
  authMode := r.authMode
  mfaStrategy := r.mfaStrategy.getD .userPrompt
  mfaSourceService := r.mfaSourceService.getD ""
  hasMfaCode := r.mfaCode.any (· ≠ "")
  createdAt := r.createdAt
  updatedAt := r.updatedAt

/-- What is found under a name that every object inherits has no identifier. -/
def entryOf : Option Found → Except String (List VaultEntry)
  | none => .ok []
  | some (.record r) => .ok [vaultEntry r]
  | some .inherited => .error "Cannot read properties of undefined (reading 'trim')"

def buildVaultEntries : Body Key Sealed (List VaultEntry) := do
  let services ← listConfiguredServices env
  services.foldlM (fun rows service => do
    let row ← ofExcept (entryOf (← getCredential env service))
    return rows ++ row) []

end Entries

section Handlers

inductive ResponseBody where
  | entries (entries : List VaultEntry)
  | saved (service : String) (created identifierReused : Bool) (entries : List VaultEntry)
  | removed (removed : Bool) (service : String) (entries : List VaultEntry)
  | failed (error message : String)
  deriving DecidableEq

structure Response where
  status : Nat
  body : ResponseBody
  deriving DecidableEq

def ofJs {α : Type} : Except JsError α → Body Key Sealed α
  | .ok a => .done a
  | .error .typeError => .throws "Cannot convert object to primitive value"

def parseCredentialAuthMode (raw : Option Value) : Except JsError CredentialAuthMode := do
  let value := env.rt.toLowerCase (← trimmedText env.rt [raw])
  return if value ∈ ["password_with_mfa", "password+mfa", "password_and_mfa", "mfa_required"] then
      .passwordWithMfa
    else if value ∈ ["mfa", "passwordless", "passwordless_mfa_code", "mfa-code"] then
      .passwordlessMfaCode
    else .password

def parseCredentialMfaStrategy (raw : Option Value) : Except JsError CredentialMfaStrategy := do
  let value := env.rt.toLowerCase (← trimmedText env.rt [raw])
  return if value ∈ ["email_or_user", "email"] then .emailOrUser else .userPrompt

/-- `/^https?:$/i`. -/
def isHttpProtocol (protocol : String) : Bool :=
  String.ofList (protocol.toList.map Char.toLower) ∈ ["http:", "https:"]

def dropSlash (text : String) : String :=
  if text.toList.getLast? = some '/' then String.ofList text.toList.dropLast else text

def normalizeWebsiteUrlInput (raw : Option Value) : Except String String :=
  match trimmedText env.rt [raw] with
  | .error .typeError => .error "Cannot convert object to primitive value"
  | .ok input =>
    if input = "" then .ok ""
    else
      let candidates :=
        if includes input "://" then [input] else ["https://" ++ input, input]
      let normalized := candidates.findSome? fun candidate =>
        ((env.url candidate).filter fun parsed => isHttpProtocol parsed.1).map
          fun parsed => dropSlash parsed.2
      normalized.elim (.error "websiteUrl must be a valid http(s) URL or domain.") .ok

/-- `typeof mfaCode === "string" ? mfaCode.trim() : ""`. -/
def codeText (raw : Option Value) : String := ((Value.str? raw).map trim).getD ""

def existingIdentifier : Option Found → String
  | some (.record r) => trim r.identifier
  | _ => ""

/-- The identifier of the request, or the one that is stored, and whether it is the stored one. -/
def chooseIdentifier (service identifierInput : String) : Body Key Sealed (Option (String × Bool)) :=
  if identifierInput ≠ "" then return some (identifierInput, false)
  else do
    let identifier := existingIdentifier (← getCredential env service)
    return if identifier = "" then none else some (identifier, true)

def failure (error message : String) : Response := ⟨400, .failed error message⟩

/-- The end of `handlePutVaultCredential`, from the fields behind the identifier on. -/
def saveCredential (obj : Value) (websiteUrl service identifier : String) (identifierReused : Bool) :
    Body Key Sealed Response := do
  let authMode ← ofJs (parseCredentialAuthMode env (obj.get? "authMode"))
  let mfaStrategy ← ofJs (parseCredentialMfaStrategy env (obj.get? "mfaStrategy"))
  let sourceText ← ofJs (textOrEmpty env.rt (obj.get? "mfaSourceService"))
  let secretRaw ← ofJs (textOrEmpty env.rt (obj.get? "secret"))
  if authMode ≠ .passwordlessMfaCode ∧ secretRaw = "" then
    return failure "invalid_secret" "secret is required for password and password_with_mfa modes."
  let (saved, created) ← setCredential env {
    service, identifier
    authMode := some authMode
    secret := if authMode = .passwordlessMfaCode then "" else secretRaw
    websiteUrl := orNull websiteUrl
    mfaSourceService := normalizeSetupService env.toUrlEnv sourceText
    mfaStrategy := if authMode = .password then none else some mfaStrategy
    mfaCode := orNull (codeText (obj.get? "mfaCode")) }
  let entries ← buildVaultEntries env
  return ⟨200, .saved saved created identifierReused entries⟩

/-- The request with what `JSON.parse` makes of its body, if it does not throw. -/
def handlePutVaultCredential (body : Option Value) : Body Key Sealed Response :=
  match body with
  | none => return failure "invalid_json" "Request body must be valid JSON."
  | some obj =>
    if obj.isRecord = false then return failure "invalid_body" "Body must be an object."
    else
      match normalizeWebsiteUrlInput env (obj.get? "websiteUrl") with
      | .error message => return failure "invalid_website_url" message
      | .ok websiteUrl => do
        let serviceText ← ofJs (textOrEmpty env.rt (obj.get? "service"))
        match (normalizeSetupService env.toUrlEnv serviceText).or
            (normalizeSetupService env.toUrlEnv websiteUrl) with
        | none => return failure "invalid_service" "service or websiteUrl is required."
        | some service =>
          let identifierInput ← ofJs (trimmedText env.rt [obj.get? "identifier"])
          match ← chooseIdentifier env service identifierInput with
          | none =>
            return failure "invalid_identifier"
              "identifier is required for new services. For existing services you may leave it blank."
          | some (identifier, identifierReused) =>
            saveCredential env obj websiteUrl service identifier identifierReused

def handleGetVault : Body Key Sealed Response := do
  let entries ← buildVaultEntries env
  return ⟨200, .entries entries⟩

def handleDeleteVaultCredential (body : Option Value) : Body Key Sealed Response :=
  match body with
  | none => return failure "invalid_json" "Request body must be valid JSON."
  | some obj =>
    if obj.isRecord = false then return failure "invalid_body" "Body must be an object."
    else do
      let serviceText ← ofJs (textOrEmpty env.rt (obj.get? "service"))
      match normalizeSetupService env.toUrlEnv serviceText with
      | none => return failure "invalid_service" "service is required."
      | some service =>
        let removed ← deleteCredential env service
        let entries ← buildVaultEntries env
        return ⟨200, .removed removed service entries⟩

inductive VaultRequest where
  | get
  | put (body : Option Value)
  | delete (body : Option Value)

/-- `routeRequest`: an error that a handler throws is answered as well. -/
def routeRequest (request : VaultRequest) : Body Key Sealed Response := do
  let handled : Body Key Sealed Response := match request with
    | .get => handleGetVault env
    | .put body => handlePutVaultCredential env body
    | .delete body => handleDeleteVaultCredential env body
  match ← Program.attempt handled with
  | .ok response => return response
  | .error message => return ⟨500, .failed "internal_error" message⟩

end Handlers

section Files

/-- What a call meets: the moment, an error of the file system, and the error of a file that is
missing or invalid. -/
structure Turn (Key : Type) where
  moment : Moment Key
  fault : Option String := none
  absent : String := "ENOENT: no such file or directory"

/-- A write takes place as a whole or not at all. -/
def access : Program.Access (Files Key Sealed) (Turn Key) (@Access.Answer Key Sealed) String :=
  fun turn files call =>
    match turn.fault with
    | some message => (.error message, files)
    | none =>
      match call with
      | .readVault => (files.vault.elim (.error turn.absent) .ok, files)
      | .readKey => (files.key.elim (.error turn.absent) fun key => .ok (turn.moment, key), files)
      | .ensureVaultDirs => (.ok turn.moment, files)
      | .writeKey key => (.ok turn.moment, { files with key := some key })
      | .writeVault payload => (.ok (), { files with vault := some payload })

end Files

section Shown

theorem rel_of_map_eq {α β : Type} {f : α → β} {x x' : Option α} (h : x.map f = x'.map f) :
    Option.Rel (fun a a' => f a = f a') x x' := by
  cases x with
  | none =>
    cases x' with
    | none => exact .none
    | some _ => cases h
  | some a =>
    cases x' with
    | none => cases h
    | some a' => exact .some (Option.some.inj h)

/-- What may show of a record: neither its secret nor its code, but whether they are empty or blank. -/
def shown (r : CredentialRecord) : CredentialRecord × Option String :=
  (r.masked, r.mfaCode.map maskSecret)

def shownStore (store : VaultStore) :
    PropertyMap (CredentialRecord × Option String) × Option (CredentialRecord × Option String) :=
  (store.records.map fun f => (f.1, shown f.2), store.prototype.map shown)

def shownFound : Found → Option (CredentialRecord × Option String)
  | .record r => some (shown r)
  | .inherited => none

def shownParams (params : SetParams) : SetParams :=
  { params with secret := maskSecret params.secret, mfaCode := params.mfaCode.map maskSecret }

variable {store store' : VaultStore} {r r' : CredentialRecord} {params params' : SetParams}

theorem masked_of_shownStore (h : shownStore store = shownStore store') : store.masked = store'.masked := by
  have hmasked : ∀ store : VaultStore, store.masked =
      ((shownStore store).1.map fun f => (f.1, f.2.1), (shownStore store).2.map Prod.fst) := by
    intro store
    unfold VaultStore.masked shownStore
    simp [Function.comp_def, shown]
  rw [hmasked, hmasked, h]

theorem masked_of_shownParams (h : shownParams params = shownParams params') :
    params.masked = params'.masked :=
  congrArg (fun params => { params with mfaCode := none }) h

theorem assign_shown (h : shownStore store = shownStore store') (hr : shown r = shown r') :
    shownStore (store.assign r) = shownStore (store'.assign r') := by
  have hassign : ∀ (store : VaultStore) (r : CredentialRecord), shownStore (store.assign r) =
      if r.service = "__proto__" then ((shownStore store).1, some (shown r))
      else (PropertyMap.put (shownStore store).1 r.service (shown r), (shownStore store).2) := by
    intro store r
    by_cases hproto : r.service = "__proto__"
    · rw [if_pos hproto, VaultStore.assign, dif_pos hproto]
      rfl
    · rw [if_neg hproto, VaultStore.assign, dif_neg hproto]
      unfold shownStore
      dsimp only
      rw [map_put]
  have hservice : r.service = r'.service := congrArg (fun s => s.1.service) hr
  rw [hassign, hassign, h, hr, hservice]

theorem delete_shown (h : shownStore store = shownStore store') (service : String) :
    shownStore (store.delete service) = shownStore (store'.delete service) := by
  have hdelete : ∀ store : VaultStore, shownStore (store.delete service) =
      (PropertyMap.remove (shownStore store).1 service, (shownStore store).2) := by
    intro store
    unfold shownStore VaultStore.delete PropertyMap.remove
    rw [List.filter_map]
    rfl
  rw [hdelete, hdelete, h]

theorem readRecord_shown (h : shownStore store = shownStore store') (key : String) :
    (readRecord store key).map shownFound = (readRecord store' key).map shownFound := by
  have hread : ∀ store : VaultStore, (readRecord store key).map shownFound =
      match (shownStore store).1.lookup key, (shownStore store).2 with
      | some r, _ => some (some r)
      | none, none => if key = "constructor" ∨ key = "__proto__" then some none else none
      | none, some r =>
        if key = "__proto__" then some (some r)
        else if key = "constructor" ∨ key ∈ recordNames then some none
        else none := by
    intro store
    unfold readRecord shownStore
    rw [lookup_map_snd]
    cases store.records.lookup key with
    | some r => rfl
    | none =>
      cases store.prototype with
      | none =>
        simp only [Option.map_none]
        split <;> rfl
      | some r =>
        simp only [Option.map_none, Option.map_some]
        split
        · rfl
        · split <;> rfl
  rw [hread, hread, h]

/-- The code that is kept of a code that is given, up to what may show of it. -/
theorem keptCode_shown {code code' : Option String} (h : code.map maskSecret = code'.map maskSecret) :
    (code.bind fun code => orNull (trim code)).map maskSecret =
      (code'.bind fun code => orNull (trim code)).map maskSecret := by
  cases rel_of_map_eq h with
  | none => rfl
  | some hcode =>
    have hblank := blank_iff_of_mask hcode
    have hkept : ∀ text, (orNull (trim text)).map maskSecret =
        if trim text = "" then none else some "*" := by
      intro text
      unfold orNull
      split
      · rfl
      · next hne =>
        rw [Option.map_some, maskSecret, if_neg hne, if_neg (by rwa [Js.trim_trim])]
    simp only [Option.bind_some, hkept, hblank]

theorem hasCode_shown {code code' : Option String} (h : code.map maskSecret = code'.map maskSecret) :
    code.any (· ≠ "") = code'.any (· ≠ "") := by
  cases rel_of_map_eq h with
  | none => rfl
  | some hcode =>
    have hempty := empty_iff_of_mask hcode
    simp [hempty]

theorem code_of_normalizeEntry {env : UrlEnv} {now : Nat} {key : String} {read : CredentialRecord}
    (h : normalizeEntry env now key r.toValue = .ok (some read)) :
    read.mfaCode = r.mfaCode.bind fun code => orNull (trim code) := by
  have hcode : Value.str? (r.toValue.get? "mfaCode") = r.mfaCode := by
    obtain ⟨_, _, _, _, website, strategy, source, code, _, _⟩ := r
    cases website <;> cases strategy <;> cases source <;> cases code <;> rfl
  unfold normalizeEntry at h
  obtain ⟨service, -, h⟩ := Js.exists_of_bind_ok h
  obtain ⟨identifier, -, h⟩ := Js.exists_of_bind_ok h
  obtain ⟨secret, -, h⟩ := Js.exists_of_bind_ok h
  obtain ⟨mode, -, h⟩ := Js.exists_of_bind_ok h
  obtain ⟨website, -, h⟩ := Js.exists_of_bind_ok h
  obtain ⟨strategy, -, h⟩ := Js.exists_of_bind_ok h
  obtain ⟨source, -, h⟩ := Js.exists_of_bind_ok h
  obtain ⟨created, -, h⟩ := Js.exists_of_bind_ok h
  obtain ⟨updated, -, h⟩ := Js.exists_of_bind_ok h
  rw [hcode] at h
  split at h
  · cases h
  · split at h
    · cases h
    · cases h
      rfl

theorem normalizeEntry_shown (env : UrlEnv) (now : Nat) (key : String) (h : shown r = shown r') :
    ∃ read read', normalizeEntry env now key r.toValue = .ok read ∧
      normalizeEntry env now key r'.toValue = .ok read' ∧ read.map shown = read'.map shown := by
  obtain ⟨read, read', hread, hread', hmasked⟩ :=
    @normalizeEntry_alike env now key r r' (congrArg Prod.fst h)
  refine ⟨read, read', hread, hread', ?_⟩
  cases rel_of_map_eq hmasked with
  | none => rfl
  | @some read read' hrecord =>
    have hcode : read.mfaCode.map maskSecret = read'.mfaCode.map maskSecret := by
      rw [code_of_normalizeEntry hread, code_of_normalizeEntry hread']
      exact keptCode_shown (congrArg Prod.snd h)
    exact congrArg some (Prod.ext hrecord hcode)

theorem addEntry_shown (env : UrlEnv) (now : Nat) (key : String) (h : shownStore store = shownStore store')
    (hr : shown r = shown r') :
    ∃ next next', addEntry env now store (key, r.toValue) = .ok next ∧
      addEntry env now store' (key, r'.toValue) = .ok next' ∧ shownStore next = shownStore next' := by
  obtain ⟨read, read', hread, hread', hshown⟩ := normalizeEntry_shown env now key hr
  have hobject : ∀ r : CredentialRecord, r.toValue.isObject = true := fun _ => rfl
  unfold addEntry
  simp only [hobject, if_true, hread, hread', Js.ok_bind]
  cases rel_of_map_eq hshown with
  | none => exact ⟨store, store', rfl, rfl, h⟩
  | some hrecord => exact ⟨_, _, rfl, rfl, assign_shown h hrecord⟩

/-- Stores of which the same may show are read back so. -/
theorem normalizeStore_shown (env : UrlEnv) (now : Nat) (h : shownStore store = shownStore store') :
    ∃ read read', normalizeStore env now store.toValue = .ok read ∧
      normalizeStore env now store'.toValue = .ok read' ∧ shownStore read = shownStore read' := by
  have hlists : ∀ (list list' : PropertyMap CredentialRecord) (store store' : VaultStore),
      (list.map fun f => (f.1, shown f.2)) = (list'.map fun f => (f.1, shown f.2)) →
      shownStore store = shownStore store' →
      ∃ next next', (list.map fun f => (f.1, f.2.toValue)).foldlM (addEntry env now) store = .ok next ∧
        (list'.map fun f => (f.1, f.2.toValue)).foldlM (addEntry env now) store' = .ok next' ∧
        shownStore next = shownStore next' := by
    intro list
    induction list with
    | nil =>
      intro list' store store' hlist h
      cases list' with
      | nil => exact ⟨store, store', rfl, rfl, h⟩
      | cons _ _ => cases hlist
    | cons f list ih =>
      intro list' store store' hlist h
      cases list' with
      | nil => cases hlist
      | cons f' list' =>
        obtain ⟨hhead, htail⟩ := List.cons.inj hlist
        obtain ⟨hkey, hrecord⟩ := Prod.mk.inj hhead
        obtain ⟨next, next', hnext, hnext', hshown⟩ := addEntry_shown env now f.1 h hrecord
        obtain ⟨last, last', hlast, hlast', hend⟩ := ih list' next next' htail hshown
        refine ⟨last, last', ?_, ?_, hend⟩
        · rw [List.map_cons, List.foldlM_cons, hnext]
          exact hlast
        · rw [List.map_cons, List.foldlM_cons, ← hkey, hnext']
          exact hlast'
  have hentries : ∀ store : VaultStore,
      (PropertyMap.entries (PropertyMap.entries store.records)).map (fun f => (f.1, shown f.2)) =
        PropertyMap.entries (PropertyMap.entries (shownStore store).1) := by
    intro store
    unfold shownStore
    rw [PropertyMap.entries_map, PropertyMap.entries_map]
  obtain ⟨read, read', hread, hread', hshown⟩ := hlists
    (PropertyMap.entries (PropertyMap.entries store.records))
    (PropertyMap.entries (PropertyMap.entries store'.records)) createEmptyStore createEmptyStore
    (by rw [hentries, hentries, h]) rfl
  rw [← PropertyMap.entries_map] at hread hread'
  exact ⟨read, read', hread, hread', hshown⟩

/-- What is found under a name: the same, or two records of which the same may show. -/
theorem found_cases {found found' : Option Found} (h : found.map shownFound = found'.map shownFound) :
    found = found' ∨ ∃ r r', found = some (.record r) ∧ found' = some (.record r') ∧ shown r = shown r' := by
  cases rel_of_map_eq h with
  | none => exact .inl rfl
  | @some found found' hfound =>
    cases found with
    | inherited =>
      cases found' with
      | inherited => exact .inl rfl
      | record _ => cases hfound
    | record r =>
      cases found' with
      | inherited => cases hfound
      | record r' => exact .inr ⟨r, r', rfl, rfl, Option.some.inj hfound⟩

theorem record_shown (env : UrlEnv) (now : Nat) (service : String) (h : shownStore store = shownStore store')
    (hparams : shownParams params = shownParams params') :
    shown (params.record env now service store) = shown (params'.record env now service store') := by
  refine Prod.ext ?_ ?_
  · exact record_alike env now service (masked_of_shownStore h) (masked_of_shownParams hparams)
  · exact keptCode_shown (congrArg SetParams.mfaCode hparams)

end Shown

section Programs

variable {env : ApiEnv Key Sealed}

variable (env) in
/-- The same content of the vault file, or two stores under one key of which the same may show. -/
inductive SameSealed : Sealed → Sealed → Prop
  | same (payload : Sealed) : SameSealed payload payload
  | alike (iv iv' : Nat) (key : Key) (store store' : VaultStore) (h : shownStore store = shownStore store') :
    SameSealed (env.encrypt iv key store.toValue) (env.encrypt iv' key store'.toValue)

variable (env) in
/-- The same call; what is written to the vault may differ in its secrets. -/
inductive SameCall : Access Key Sealed → Access Key Sealed → Prop
  | readVault : SameCall .readVault .readVault
  | readKey : SameCall .readKey .readKey
  | ensureVaultDirs : SameCall .ensureVaultDirs .ensureVaultDirs
  | writeKey (key : Key) : SameCall (.writeKey key) (.writeKey key)
  | writeVault (payload payload' : Sealed) (h : SameSealed env payload payload') :
    SameCall (.writeVault payload) (.writeVault payload')

variable (env) in
/-- The same answer; what is read of the vault may differ in its secrets. -/
def SameAnswer : (call call' : Access Key Sealed) → call.Answer → call'.Answer → Prop
  | .readVault, .readVault, payload, payload' => SameSealed env payload payload'
  | .readKey, .readKey, found, found' => found = found'
  | .ensureVaultDirs, .ensureVaultDirs, moment, moment' => moment = moment'
  | .writeKey _, .writeKey _, moment, moment' => moment = moment'
  | .writeVault _, .writeVault _, _, _ => True
  | _, _, _, _ => False

variable (env) in
def vaultLikeness : Likeness (Access Key Sealed) Access.Answer := ⟨SameCall env, SameAnswer env⟩

variable (env) in
/-- Programs that differ in the secrets they handle. -/
def Alike {α β : Type} (R : α → β → Prop) (p : Body Key Sealed α) (p' : Body Key Sealed β) : Prop :=
  Program.Alike (vaultLikeness env) R p p'

theorem alike_ofExcept {α β : Type} {R : α → β → Prop} {x : Except String α} {x' : Except String β}
    (h : SameOutcome R x x') : Alike env R (ofExcept x) (ofExcept x') := by
  cases h with
  | ok h => exact .done h
  | error message => exact .throws message

theorem alike_ofJs {α : Type} (x : Except JsError α) : Alike env Eq (ofJs x) (ofJs x) := by
  rcases x with ⟨⟨⟩⟩ | a
  · exact .throws _
  · exact .done rfl

theorem alike_readOrCreateVaultKey (allowCreate : Bool) :
    Alike env Eq (readOrCreateVaultKey env allowCreate) (readOrCreateVaultKey env allowCreate) := by
  refine (Program.Alike.perform SameCall.readKey).attempt.bind ?_
  intro r r' hr
  cases hr with
  | ok h => exact .done h
  | error message =>
    dsimp only
    split
    · refine (Program.Alike.perform SameCall.ensureVaultDirs).bind ?_
      rintro drawn _ rfl
      refine (Program.Alike.perform (SameCall.writeKey drawn.freshKey)).bind ?_
      rintro written _ rfl
      exact .done rfl
    · exact .throws _

/-- A payload is sealed under one key only: it does not open under another. -/
def SealsUnderKey (env : ApiEnv Key Sealed) : Prop :=
  ∀ iv key key' v, key' ≠ key → env.decrypt key' (env.encrypt iv key v) = none

variable (hseals : SealsUnderKey env)
include hseals

theorem storeOf_alike (now : Nat) (key : Key) {payload payload' : Sealed}
    (h : SameSealed env payload payload') :
    SameOutcome (fun store store' => shownStore store = shownStore store') (storeOf env now key payload)
      (storeOf env now key payload') := by
  cases h with
  | same =>
    cases storeOf env now key payload with
    | ok store => exact .ok rfl
    | error message => exact .error message
  | alike iv iv' sealing store store' h =>
    unfold storeOf
    rw [env.not_isEmpty_encrypt, env.not_isEmpty_encrypt]
    by_cases hkey : key = sealing
    · subst hkey
      obtain ⟨read, read', hread, hread', hshown⟩ := normalizeStore_shown env.toUrlEnv now h
      rw [decryptStore_written (env.decrypt_encrypt iv key _) hread,
        decryptStore_written (env.decrypt_encrypt iv' key _) hread']
      exact .ok hshown
    · have hnone : ∀ iv v, decryptStore env.toVaultEnv now key (env.encrypt iv sealing v) = none := by
        intro iv v
        unfold decryptStore
        rw [hseals iv sealing key v hkey]
        rfl
      rw [hnone, hnone, env.openError_encrypt, env.openError_encrypt]
      exact .error _

theorem alike_readVaultStore : Alike env
    (fun opened opened' => opened.1 = opened'.1 ∧ opened.2.1 = opened'.2.1 ∧
      shownStore opened.2.2 = shownStore opened'.2.2)
    (readVaultStore env) (readVaultStore env) := by
  refine (Program.Alike.perform SameCall.readVault).attempt.bind ?_
  intro r r' hr
  cases hr with
  | error message =>
    refine (alike_readOrCreateVaultKey true).bind ?_
    rintro found _ rfl
    exact .done ⟨rfl, rfl, rfl⟩
  | ok h =>
    refine (alike_readOrCreateVaultKey false).bind ?_
    rintro found _ rfl
    refine (alike_ofExcept (storeOf_alike hseals found.1.now found.2 h)).bind ?_
    intro store store' hstore
    exact .done ⟨rfl, rfl, hstore⟩

omit hseals in
theorem alike_writeVaultStore (key : Key) {store store' : VaultStore}
    (h : shownStore store = shownStore store') :
    Alike env (fun _ _ => True) (writeVaultStore env key store) (writeVaultStore env key store') := by
  refine (Program.Alike.perform SameCall.ensureVaultDirs).bind ?_
  rintro drawn _ rfl
  have hcall : (vaultLikeness env).call (.writeVault (env.encrypt drawn.iv key store.toValue))
      (.writeVault (env.encrypt drawn.iv key store'.toValue)) :=
    .writeVault _ _ (.alike drawn.iv drawn.iv key store store' h)
  exact Program.Alike.perform hcall

theorem alike_setCredential {params params' : SetParams} (h : shownParams params = shownParams params') :
    Alike env Eq (setCredential env params) (setCredential env params') := by
  have hcheck := check_alike env.toUrlEnv (masked_of_shownParams h)
  unfold setCredential
  rw [hcheck]
  refine (alike_ofExcept (Program.sameOutcome_refl _)).bind ?_
  rintro service _ rfl
  refine (alike_readVaultStore hseals).bind ?_
  rintro ⟨moment, key, store⟩ ⟨moment', key', store'⟩ ⟨rfl, rfl, hstore⟩
  have hrecord := record_shown env.toUrlEnv moment.now service hstore h
  refine (alike_writeVaultStore key (assign_shown hstore hrecord)).bind ?_
  intro _ _ _
  have hnone : (readRecord store service).isNone = (readRecord store' service).isNone := by
    rw [← Option.isNone_map (f := shownFound), readRecord_shown hstore, Option.isNone_map]
  exact .done (by rw [hnone])

theorem alike_getCredential (service : String) :
    Alike env (fun found found' => found.map shownFound = found'.map shownFound)
      (getCredential env service) (getCredential env service) := by
  unfold getCredential
  cases normalizeSetupService env.toUrlEnv service with
  | none => exact .done rfl
  | some service =>
    refine (alike_readVaultStore hseals).bind ?_
    rintro ⟨moment, key, store⟩ ⟨moment', key', store'⟩ ⟨rfl, rfl, hstore⟩
    exact .done (readRecord_shown hstore service)

theorem alike_deleteCredential (service : String) :
    Alike env Eq (deleteCredential env service) (deleteCredential env service) := by
  unfold deleteCredential
  cases normalizeSetupService env.toUrlEnv service with
  | none => exact .done rfl
  | some service =>
    refine (alike_readVaultStore hseals).bind ?_
    rintro ⟨moment, key, store⟩ ⟨moment', key', store'⟩ ⟨rfl, rfl, hstore⟩
    have hsome : (readRecord store service).isSome = (readRecord store' service).isSome := by
      rw [← Option.isSome_map (f := shownFound), readRecord_shown hstore, Option.isSome_map]
    dsimp only
    rw [hsome]
    split
    · exact (alike_writeVaultStore key (delete_shown hstore service)).bind fun _ _ _ => .done rfl
    · exact .done rfl

theorem alike_listConfiguredServices :
    Alike env Eq (listConfiguredServices env) (listConfiguredServices env) := by
  refine (alike_readVaultStore hseals).bind ?_
  rintro ⟨moment, key, store⟩ ⟨moment', key', store'⟩ ⟨rfl, rfl, hstore⟩
  exact .done (listConfiguredServices_alike env.toUrlEnv (masked_of_shownStore hstore))

omit hseals in
/-- A row shows nothing else of its record. -/
theorem entryOf_shown {found found' : Option Found} (h : found.map shownFound = found'.map shownFound) :
    entryOf found = entryOf found' := by
  obtain rfl | ⟨r, r', rfl, rfl, hshown⟩ := found_cases h
  · rfl
  · have hcode : r.mfaCode.any (· ≠ "") = r'.mfaCode.any (· ≠ "") :=
      hasCode_shown (congrArg Prod.snd hshown)
    obtain ⟨secret, mfaCode, rfl, -⟩ := CredentialRecord.exists_of_masked (congrArg Prod.fst hshown)
    simp only [entryOf, vaultEntry, hcode]

theorem alike_buildVaultEntries : Alike env Eq (buildVaultEntries env) (buildVaultEntries env) := by
  refine (alike_listConfiguredServices hseals).bind ?_
  rintro services _ rfl
  refine Program.Alike.foldlM ?_ services rfl
  rintro rows _ service rfl
  refine (alike_getCredential hseals service).bind ?_
  intro found found' hfound
  rw [entryOf_shown hfound]
  refine (alike_ofExcept (Program.sameOutcome_refl _)).bind ?_
  rintro row _ rfl
  exact .done rfl

end Programs

section Requests

variable {env : ApiEnv Key Sealed}

variable (env) in
/-- Two bodies that differ in their secrets and codes, and of these the same may show. -/
structure SameBody (obj obj' : Value) : Prop where
  record : obj.isRecord = obj'.isRecord
  field : ∀ key, key ≠ "secret" → key ≠ "mfaCode" → obj.get? key = obj'.get? key
  secret : (textOrEmpty env.rt (obj.get? "secret")).map maskSecret =
    (textOrEmpty env.rt (obj'.get? "secret")).map maskSecret
  code : maskSecret (codeText (obj.get? "mfaCode")) = maskSecret (codeText (obj'.get? "mfaCode"))

variable (env) in
inductive SameRequest : VaultRequest → VaultRequest → Prop
  | get : SameRequest .get .get
  | put (body body' : Option Value) (h : Option.Rel (SameBody env) body body') :
    SameRequest (.put body) (.put body')
  | delete (body : Option Value) : SameRequest (.delete body) (.delete body)

theorem orNull_shown {text text' : String} (h : maskSecret text = maskSecret text') :
    (orNull text).map maskSecret = (orNull text').map maskSecret := by
  have hempty := empty_iff_of_mask h
  unfold orNull
  by_cases htext : text = ""
  · rw [if_pos htext, if_pos (hempty.mp htext)]
  · rw [if_neg htext, if_neg (mt hempty.mpr htext)]
    exact congrArg some h

variable {obj obj' : Value}

theorem alike_secret (h : SameBody env obj obj') :
    Alike env (fun secret secret' => maskSecret secret = maskSecret secret')
      (ofJs (textOrEmpty env.rt (obj.get? "secret"))) (ofJs (textOrEmpty env.rt (obj'.get? "secret"))) := by
  have hsecret := h.secret
  generalize textOrEmpty env.rt (obj.get? "secret") = read at hsecret ⊢
  generalize textOrEmpty env.rt (obj'.get? "secret") = read' at hsecret ⊢
  rcases read with ⟨⟨⟩⟩ | secret <;> rcases read' with ⟨⟨⟩⟩ | secret'
  · exact .throws _
  · cases hsecret
  · cases hsecret
  · exact .done (Except.ok.inj hsecret)

variable (hseals : SealsUnderKey env)
include hseals

theorem alike_saveCredential (h : SameBody env obj obj') (websiteUrl service identifier : String)
    (identifierReused : Bool) :
    Alike env Eq (saveCredential env obj websiteUrl service identifier identifierReused)
      (saveCredential env obj' websiteUrl service identifier identifierReused) := by
  have hcode := orNull_shown h.code
  unfold saveCredential
  rw [h.field "authMode" (by decide) (by decide), h.field "mfaStrategy" (by decide) (by decide),
    h.field "mfaSourceService" (by decide) (by decide)]
  refine (alike_ofJs _).bind ?_
  rintro authMode _ rfl
  refine (alike_ofJs _).bind ?_
  rintro mfaStrategy _ rfl
  refine (alike_ofJs _).bind ?_
  rintro sourceText _ rfl
  refine (alike_secret h).bind ?_
  intro secretRaw secretRaw' hsecret
  have hempty := empty_iff_of_mask hsecret
  by_cases hrejected : authMode ≠ .passwordlessMfaCode ∧ secretRaw = ""
  · have hrejected' : authMode ≠ .passwordlessMfaCode ∧ secretRaw' = "" :=
      ⟨hrejected.1, hempty.mp hrejected.2⟩
    rw [if_pos hrejected, if_pos hrejected']
    exact .done rfl
  · have hrejected' : ¬ (authMode ≠ .passwordlessMfaCode ∧ secretRaw' = "") :=
      fun hboth => hrejected ⟨hboth.1, hempty.mpr hboth.2⟩
    rw [if_neg hrejected, if_neg hrejected']
    refine (alike_setCredential hseals ?_).bind ?_
    · unfold shownParams
      dsimp only
      rw [hcode, apply_ite maskSecret, apply_ite maskSecret, hsecret]
    rintro ⟨saved, created⟩ _ rfl
    refine (alike_buildVaultEntries hseals).bind ?_
    rintro entries _ rfl
    exact .done rfl

theorem alike_chooseIdentifier (service identifierInput : String) :
    Alike env Eq (chooseIdentifier env service identifierInput)
      (chooseIdentifier env service identifierInput) := by
  unfold chooseIdentifier
  split
  · exact .done rfl
  · refine (alike_getCredential hseals service).bind ?_
    intro found found' hfound
    have hidentifier : existingIdentifier found = existingIdentifier found' := by
      obtain rfl | ⟨r, r', rfl, rfl, hshown⟩ := found_cases hfound
      · rfl
      · have hidentifier : r.identifier = r'.identifier := congrArg (fun s => s.1.identifier) hshown
        rw [existingIdentifier, existingIdentifier, hidentifier]
    exact .done (by rw [hidentifier])

theorem alike_handlePutVaultCredential {body body' : Option Value}
    (h : Option.Rel (SameBody env) body body') :
    Alike env Eq (handlePutVaultCredential env body) (handlePutVaultCredential env body') := by
  cases h with
  | none => exact .done rfl
  | @some obj obj' h =>
    have hurl := h.field "websiteUrl" (by decide) (by decide)
    have hservice := h.field "service" (by decide) (by decide)
    have hidentifier := h.field "identifier" (by decide) (by decide)
    unfold handlePutVaultCredential
    dsimp only
    rw [h.record, hurl, hservice, hidentifier]
    split
    · exact .done rfl
    · cases normalizeWebsiteUrlInput env (obj'.get? "websiteUrl") with
      | error message => exact .done rfl
      | ok websiteUrl =>
        refine (alike_ofJs _).bind ?_
        rintro serviceText _ rfl
        cases (normalizeSetupService env.toUrlEnv serviceText).or
            (normalizeSetupService env.toUrlEnv websiteUrl) with
        | none => exact .done rfl
        | some service =>
          refine (alike_ofJs _).bind ?_
          rintro identifierInput _ rfl
          refine (alike_chooseIdentifier hseals service identifierInput).bind ?_
          rintro chosen _ rfl
          rcases chosen with _ | ⟨identifier, identifierReused⟩
          · exact .done rfl
          · exact alike_saveCredential hseals h websiteUrl service identifier identifierReused

theorem alike_handleDeleteVaultCredential (body : Option Value) :
    Alike env Eq (handleDeleteVaultCredential env body) (handleDeleteVaultCredential env body) := by
  unfold handleDeleteVaultCredential
  cases body with
  | none => exact .done rfl
  | some obj =>
    dsimp only
    split
    · exact .done rfl
    · refine (alike_ofJs _).bind ?_
      rintro serviceText _ rfl
      cases normalizeSetupService env.toUrlEnv serviceText with
      | none => exact .done rfl
      | some service =>
        refine (alike_deleteCredential hseals service).bind ?_
        rintro removed _ rfl
        refine (alike_buildVaultEntries hseals).bind ?_
        rintro entries _ rfl
        exact .done rfl

theorem alike_handleGetVault : Alike env Eq (handleGetVault env) (handleGetVault env) := by
  refine (alike_buildVaultEntries hseals).bind ?_
  rintro entries _ rfl
  exact .done rfl

theorem alike_routeRequest {request request' : VaultRequest} (h : SameRequest env request request') :
    Alike env Eq (routeRequest env request) (routeRequest env request') := by
  -- An error that both handlers throw is the same, and is answered in the same way.
  have hanswered : ∀ r r' : Except String Response, SameOutcome Eq r r' →
      Alike env Eq
        (match r with
          | .ok response => pure response
          | .error message => pure ⟨500, .failed "internal_error" message⟩)
        (match r' with
          | .ok response => pure response
          | .error message => pure ⟨500, .failed "internal_error" message⟩) := by
    intro r r' hr
    cases hr with
    | ok h => exact .done h
    | error message => exact .done rfl
  cases h with
  | get => exact (alike_handleGetVault hseals).attempt.bind hanswered
  | put body body' h => exact (alike_handlePutVaultCredential hseals h).attempt.bind hanswered
  | delete body => exact (alike_handleDeleteVaultCredential hseals body).attempt.bind hanswered

end Requests

section Runs

variable (env : ApiEnv Key Sealed)

/-- The dashboard over the two files: requests come in, and handlers go on in any order. -/
def runRequests (files : Files Key Sealed) (events : List (Program.PoolEvent VaultRequest (Turn Key))) :
    Program.Pool (Files Key Sealed) (Access Key Sealed) Access.Answer String Response :=
  events.foldl (Program.Pool.step access (routeRequest env)) ⟨files, []⟩

/-- The same key file, and vault files of which the same may show. -/
structure SameFiles (files files' : Files Key Sealed) : Prop where
  key : files.key = files'.key
  vault : Option.Rel (SameSealed env) files.vault files'.vault

variable {env}

theorem access_respects : Program.Respects (@access Key Sealed) (vaultLikeness env) (SameFiles env) := by
  intro turn files files' call call' hfiles hcall
  unfold access
  cases turn.fault with
  | some message => exact ⟨.error message, hfiles⟩
  | none =>
    cases hcall with
    | readVault =>
      refine ⟨?_, hfiles⟩
      have hvault := hfiles.vault
      dsimp only
      generalize files.vault = payload at hvault ⊢
      generalize files'.vault = payload' at hvault ⊢
      cases hvault with
      | none => exact .error _
      | some h => exact .ok h
    | readKey =>
      refine ⟨?_, hfiles⟩
      dsimp only
      rw [hfiles.key]
      cases files'.key with
      | none => exact .error _
      | some key => exact .ok rfl
    | ensureVaultDirs => exact ⟨.ok rfl, hfiles⟩
    | writeKey key => exact ⟨.ok rfl, rfl, hfiles.vault⟩
    | writeVault payload payload' h => exact ⟨.ok trivial, hfiles.key, .some h⟩

/-- What the dashboard answers about the vault shows no secret and no code: over requests and files that
differ in these only, and behind any order of the steps of the handlers, every answer is the same. -/
theorem vault_replies_hide_secrets (hseals : SealsUnderKey env) {files files' : Files Key Sealed}
    (hfiles : SameFiles env files files') {events events' : List (Program.PoolEvent VaultRequest (Turn Key))}
    (hevents : List.Forall₂ (Program.PoolEvent.Alike (SameRequest env)) events events') :
    (runRequests env files events).results = (runRequests env files' events').results := by
  have hstart : Program.Pool.Alike (vaultLikeness env) (SameFiles env) Eq
      (⟨files, []⟩ : Program.Pool _ (Access Key Sealed) Access.Answer String Response) ⟨files', []⟩ :=
    ⟨hfiles, .nil⟩
  exact (hstart.run access_respects (fun _ _ h => alike_routeRequest hseals h) hevents).results

/-- The plain cipher, with the texts of the dashboard. -/
def apiEnv : ApiEnv Bool (Bool × Value) where
  toSetupEnv := Setup.setupEnv
  keyPath := "/root/.t560/secure/vault.key"
  isEmpty := fun _ => false
  url := fun _ => none
  not_isEmpty_encrypt := fun _ _ _ => rfl
  openError_encrypt := fun _ _ _ => rfl

theorem apiEnv_seals : SealsUnderKey apiEnv := by
  intro iv key key' v hne
  exact if_neg fun h => hne h.symm

def putBank (secret : String) : VaultRequest :=
  .put (some (.obj [("service", .str "bank.example"), ("identifier", .str "ada"), ("secret", .str secret)]))

/-- A credential is saved while another client looks at the list. -/
def saveAndList (secret : String) : List (Program.PoolEvent VaultRequest (Turn Bool)) :=
  [.starts (putBank secret), .starts .get] ++
    ([0, 0, 1, 0, 0, 0, 1, 0, 0, 0, 1, 1, 0, 0].map fun i => .goesOn i { moment := ⟨1, 0, true⟩ })

theorem vault_replies_hide_secrets_bank :
    let answers := fun secret => (runRequests apiEnv ⟨none, none⟩ (saveAndList secret)).results
    answers "hunter2" = answers "swordfish" ∧
      ((answers "hunter2").map fun answer => answer.isSome) = [true, true] := by
  refine ⟨vault_replies_hide_secrets apiEnv_seals ⟨rfl, .none⟩ ?_, by decide⟩
  refine .cons (.starts (.put _ _ (.some ?_))) (.cons (.starts .get) ?_)
  · refine ⟨rfl, ?_, by decide, rfl⟩
    intro key hsecret _
    simp [Value.get?, Value.lookup_cons_if, hsecret]
  · exact List.forall₂_same.mpr fun e he => by
      obtain ⟨i, -, rfl⟩ := List.mem_map.mp he
      exact .goesOn i _

end Runs

end T560.Vault.Api
