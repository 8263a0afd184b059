import T560.Vault.RoundTrip

/-!
# The two files of the vault

An operation reads the vault file, reads or creates the key file, and may then write the vault
file. Between these steps it awaits, so each of them is one step here; the operation runs alone
when they follow one another.
-/

namespace T560.Vault

open Js (Value)

/-- The cipher of the vault, sealing what `JSON.stringify` writes, and the text of the error for
a missing key. Decryption under the same key inverts encryption. -/
structure VaultEnv (Key Sealed : Type) extends UrlEnv where
  encrypt : Nat → Key → Value → Sealed
  decrypt : Key → Sealed → Option Value
  missingKeyMessage : String
  decrypt_encrypt : ∀ iv key v, decrypt key (encrypt iv key v) = some v

/-- A key file that is missing or invalid reads as none, and so does a vault file that is missing or that
cannot be read. What is sealed in an empty vault file opens with every key, to an object of no fields. -/
structure Files (Key Sealed : Type) where
  vault : Option Sealed
  key : Option Key
  deriving DecidableEq

inductive Request where
  | set (params : SetParams)
  | delete (service : String)
  | get (service : String)

/-- A request with what the surroundings give it: the clock, an initialization vector, and the
key it writes when it finds none. -/
structure Call (Key : Type) where
  request : Request
  now : Nat
  iv : Nat
  freshKey : Key

inductive Outcome where
  | saved (service : String) (created : Bool)
  | deleted (removed : Bool)
  | found (record : Option Found)
  | failed (message : String)

/-- Where an operation stands, with the vault file as it has read it. -/
inductive Phase (Key Sealed : Type) where
  | start
  | readKey (payload : Option Sealed)
  | writeKey
  | writeVault (payload : Option Sealed) (key : Key) (store : VaultStore) (outcome : Outcome)
  | done (outcome : Outcome)

variable {Key Sealed : Type} (env : VaultEnv Key Sealed)

/-- The service name an operation works on, or what it returns without opening the vault. -/
def Request.check : Request → Except Outcome String
  | .set params =>
    match params.check env.toUrlEnv with
    | .ok service => .ok service
    | .error message => .error (.failed message)
  | .delete service => (normalizeSetupService env.toUrlEnv service).elim (.error (.deleted false)) .ok
  | .get service => (normalizeSetupService env.toUrlEnv service).elim (.error (.found none)) .ok

/-- What an operation does with the store it has read. -/
def withStore (call : Call Key) (service : String) (payload : Option Sealed) (key : Key)
    (store : VaultStore) : Phase Key Sealed :=
  match call.request with
  | .set params =>
    .writeVault payload key (store.assign (params.record env.toUrlEnv call.now service store))
      (.saved service (readRecord store service).isNone)
  | .delete _ =>
    if (readRecord store service).isSome then
      .writeVault payload key (store.delete service) (.deleted true)
    else .done (.deleted false)
  | .get _ => .done (.found (readRecord store service))

/-- `decryptStore`; none when it throws. -/
def decryptStore (now : Nat) (key : Key) (payload : Sealed) : Option VaultStore := do
  (normalizeStore env.toUrlEnv now (← env.decrypt key payload)).toOption

/-- The payload is opened with the key. An empty one is a payload too: no key is made for it. -/
def openVault (call : Call Key) (service : String) (key : Key) : Option Sealed → Phase Key Sealed
  | none => withStore env call service none key createEmptyStore
  | some payload =>
    match decryptStore env call.now key payload with
    | some store => withStore env call service (some payload) key store
    | none => .done (.failed "Could not decrypt credential vault. Verify key integrity.")

/-- One step of an operation. -/
def advance (call : Call Key) (files : Files Key Sealed) :
    Phase Key Sealed → Files Key Sealed × Phase Key Sealed
  | .start =>
    match call.request.check env with
    | .ok _ => (files, .readKey files.vault)
    | .error outcome => (files, .done outcome)
  | .readKey payload =>
    match call.request.check env, files.key with
    | .ok service, some key => (files, openVault env call service key payload)
    | .ok _, none =>
      if payload.isSome then (files, .done (.failed env.missingKeyMessage))
      else (files, .writeKey)
    | .error outcome, _ => (files, .done outcome)
  | .writeKey =>
    match call.request.check env with
    | .ok service =>
      ({ files with key := some call.freshKey },
        withStore env call service none call.freshKey createEmptyStore)
    | .error outcome => (files, .done outcome)
  | .writeVault _ key store outcome =>
    ({ files with vault := some (env.encrypt call.iv key store.toValue) }, .done outcome)
  | .done outcome => (files, .done outcome)

/-- The operation alone, with its four steps at most. -/
def perform (call : Call Key) (files : Files Key Sealed) : Files Key Sealed × Phase Key Sealed :=
  let step := fun state : Files Key Sealed × Phase Key Sealed => advance env call state.1 state.2
  step (step (step (step (files, .start))))

/-- Operations one after the other. -/
def performAll (files : Files Key Sealed) (calls : List (Call Key)) : Files Key Sealed :=
  calls.foldl (fun files call => (perform env call files).1) files

end T560.Vault
