import T560.Js.PropertyMap

/-!
# The credential vault

The decrypted content of the vault: records by service name, and how a service name is
normalized before it is looked up.
-/

namespace T560.Vault

open Js (Runtime PropertyMap trim includes)

/-- The URL parser as the vault uses it: the host name, or none when parsing throws. -/
structure UrlEnv where
  rt : Runtime
  hostname : String → Option String

inductive CredentialAuthMode where
  | password
  | passwordWithMfa
  | passwordlessMfaCode
  deriving DecidableEq, Repr

inductive CredentialMfaStrategy where
  | userPrompt
  | emailOrUser
  deriving DecidableEq, Repr

structure CredentialRecord where
  service : String
  identifier : String
  secret : String
  authMode : CredentialAuthMode
  websiteUrl : Option String := none
  mfaStrategy : Option CredentialMfaStrategy := none
  mfaSourceService : Option String := none
  mfaCode : Option String := none
  createdAt : Nat
  updatedAt : Nat
  deriving DecidableEq, Repr

/-- Every record is stored under its own service name. A record assigned to `__proto__` is
the prototype of the records. -/
structure VaultStore where
  records : PropertyMap CredentialRecord
  keyed : ∀ f ∈ records, f.2.service = f.1
  prototype : Option CredentialRecord := none
  prototyped : ∀ r, prototype = some r → r.service = "__proto__" := by nofun

theorem no_prototype (r : CredentialRecord) (h : none = some r) : r.service = "__proto__" := by
  cases h

variable (env : UrlEnv)

/-- `[a-z0-9._-]`. -/
def isServiceChar (c : Char) : Bool :=
  ('a' ≤ c && c ≤ 'z') || ('0' ≤ c && c ≤ '9') || c == '.' || c == '_' || c == '-'

def dropDashes (cs : List Char) : List Char := (cs.dropWhile (· == '-')).rdropWhile (· == '-')

/-- `replace(/[^a-z0-9._-]+/g, "-").replace(/^-+|-+$/g, "")`. -/
def sanitizeService (candidate : String) : String :=
  String.ofList (dropDashes (Js.replaceRuns (fun c => !isServiceChar c) '-' false candidate.toList))

def stripWww (s : String) : String :=
  if "www.".toList.isPrefixOf s.toList then String.ofList (s.toList.drop 4) else s

def normalizeSetupService (input : String) : Option String :=
  let value := env.rt.toLowerCase (trim input)
  if value = "" then none
  else if value = "email" ∨ value = "mail" then some "email"
  else if value = "x" ∨ value = "x.com" ∨ value = "twitter" ∨ value = "twitter.com" then some "x.com"
  else
    let candidate :=
      if includes value "://" then
        ((env.hostname value).map env.rt.toLowerCase).getD value
      else value
    let sanitized := sanitizeService (stripWww candidate)
    if sanitized = "" ∨ 80 < sanitized.length then none else some sanitized

/-- What reading `store.records[key]` gives: a record, or for a name that every object inherits
something that is no record. -/
inductive Found where
  | record (r : CredentialRecord)
  | inherited
  deriving DecidableEq, Repr

def Found.websiteUrl : Found → Option String
  | .record r => r.websiteUrl
  | .inherited => none

/-- The lower-case properties of a record, which another record inherits from its prototype. -/
def recordNames : List String := ["service", "identifier", "secret"]

def readRecord (store : VaultStore) (key : String) : Option Found :=
  match store.records.lookup key, store.prototype with
  | some r, _ => some (.record r)
  | none, none => if key = "constructor" ∨ key = "__proto__" then some .inherited else none
  | none, some r =>
    if key = "__proto__" then some (.record r)
    else if key = "constructor" ∨ key ∈ recordNames then some .inherited
    else none

def getCredential (store : VaultStore) (service : String) : Option Found := do
  readRecord store (← normalizeSetupService env service)

def listConfiguredServices (store : VaultStore) : List String :=
  (store.records.entries.filterMap fun f => normalizeSetupService env f.1).insertionSort (· ≤ ·)

theorem service_of_readRecord {store : VaultStore} {key : String} {r : CredentialRecord}
    (h : readRecord store key = some (.record r)) : r.service = key := by
  unfold readRecord at h
  split at h
  · rename_i hl
    cases h
    exact store.keyed _ (PropertyMap.mem_of_lookup hl)
  · split at h <;> cases h
  · rename_i hp
    split at h
    · next hkey =>
      cases h
      rw [store.prototyped _ hp, hkey]
    · split at h <;> cases h

/-- A credential that was found stands under the normalized name. -/
theorem service_of_getCredential {store : VaultStore} {service : String} {r : CredentialRecord}
    (h : getCredential env store service = some (.record r)) :
    normalizeSetupService env service = some r.service := by
  obtain ⟨key, hkey, hread⟩ := Option.bind_eq_some_iff.mp h
  rw [hkey, service_of_readRecord hread]

end T560.Vault
