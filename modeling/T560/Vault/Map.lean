import T560.Vault.Files

/-!
# The vault as a map

What the two files say about a service is one credential or none. Run one after the other, the
operations on the files do to this map what their names say, as long as no accepted credential
has a name, or a secret, that reading the vault treats differently.
-/

namespace T560.Vault

open Js (trim)

variable {Key Sealed : Type} (env : VaultEnv Key Sealed)

abbrev Credentials := String → Option Credential

/-- The credential a call of `setCredential` asks to store. -/
def SetParams.credential (params : SetParams) : Credential :=
  ⟨trim params.identifier, params.storedSecret, params.mode⟩

/-- What an operation does to the map. -/
def Request.update (m : Credentials) : Request → Credentials
  | .set params =>
    match params.check env.toUrlEnv with
    | .ok service => Function.update m service (some params.credential)
    | .error _ => m
  | .delete service =>
    match normalizeSetupService env.toUrlEnv service with
    | some service => Function.update m service none
    | none => m
  | .get _ => m

/-- A set or a delete of a service string with this normalized name. -/
def Request.Touches (name : String) : Request → Prop
  | .set params => normalizeSetupService env.toUrlEnv params.service = some name
  | .delete service => normalizeSetupService env.toUrlEnv service = some name
  | .get _ => False

/-- Reading the vault again keeps what an accepted call stores: its name is no other name's
alias and no prototype, and a password is not blank. -/
def Request.Kept : Request → Prop
  | .set params => ∀ service, params.check env.toUrlEnv = .ok service →
      ¬ Renamed service ∧ service ≠ "__proto__" ∧
        (params.mode = .password → trim params.secret ≠ "")
  | _ => True

/-- The store the files hold, read at time `now`. -/
def contents (now : Nat) (files : Files Key Sealed) : Option VaultStore :=
  match files.vault, files.key with
  | none, _ => some createEmptyStore
  | some payload, some key => decryptStore env now key payload
  | some _, none => none

/-- The files can be read, their names stay, and the map tells their credentials. -/
def Represents (files : Files Key Sealed) (m : Credentials) : Prop :=
  ∀ now, ∃ store, contents env now files = some store ∧ store.FixedNames env.toUrlEnv ∧
    ∀ service, store.credential? service = m service

/-- Files without a vault, or with one that opens and whose names stay. -/
def Settled (files : Files Key Sealed) : Prop := ∃ m, Represents env files m

variable {env}

section Represents

theorem represents_absent (key : Option Key) :
    Represents env (⟨none, key⟩ : Files Key Sealed) fun _ => none :=
  fun _ => ⟨createEmptyStore, rfl, fun _ hf => absurd hf List.not_mem_nil, fun _ => rfl⟩

/-- A tidy store that was written is read back as it was. -/
theorem represents_written {store : VaultStore} (h : store.Tidy env.toUrlEnv) (iv : Nat) (key : Key) :
    Represents env ⟨some (env.encrypt iv key store.toValue), some key⟩ store.credential? := by
  intro now
  obtain ⟨store', hread, hfixed, hall⟩ := normalizeStore_toValue now h
  refine ⟨store', ?_, hfixed, hall⟩
  simp [contents, decryptStore, env.decrypt_encrypt, hread, Except.toOption]

theorem contents_normalized {now : Nat} {files : Files Key Sealed} {store : VaultStore}
    (h : contents env now files = some store) : store.Normalized := by
  unfold contents at h
  split at h
  · obtain rfl := Option.some.inj h
    exact normalized_empty
  · obtain ⟨raw, -, hstore⟩ := Option.bind_eq_some_iff.mp h
    cases hread : normalizeStore env.toUrlEnv now raw with
    | error e =>
      rw [hread] at hstore
      cases hstore
    | ok store' =>
      rw [hread] at hstore
      obtain rfl := Option.some.inj hstore
      exact normalizeStore_normalized hread
  · cases h

/-- Creating the key changes nothing while there is no vault. -/
theorem Represents.withKey {files : Files Key Sealed} {m : Credentials} (h : Represents env files m)
    (hvault : files.vault = none) (key : Option Key) : Represents env { files with key := key } m := by
  intro now
  obtain ⟨store, hstore, hrest⟩ := h now
  refine ⟨store, ?_, hrest⟩
  rw [← hstore]
  simp [contents, hvault]

end Represents

section Perform
variable {call : Call Key} {files : Files Key Sealed} {m : Credentials}

theorem perform_rejected {outcome : Outcome} (h : call.request.check env = .error outcome) :
    perform env call files = (files, .done outcome) := by
  simp [perform, advance, h]

/-- With the store at hand an operation has one step left at most. -/
theorem advance_withStore (call : Call Key) (service : String) (payload : Option Sealed) (key : Key)
    (store : VaultStore) (files : Files Key Sealed) :
    ∃ outcome, (advance env call files (withStore env call service payload key store)).2 =
      .done outcome := by
  unfold withStore
  split
  · exact ⟨_, rfl⟩
  · split <;> exact ⟨_, rfl⟩
  · exact ⟨_, rfl⟩

theorem advance_done {state : Files Key Sealed × Phase Key Sealed} {outcome : Outcome}
    (h : state.2 = .done outcome) : advance env call state.1 state.2 = state := by
  obtain ⟨files, phase⟩ := state
  obtain rfl : phase = .done outcome := h
  rfl

/-- An operation works on the store the files hold, under the key they hold or get. -/
theorem perform_opened {service : String} (h : call.request.check env = .ok service)
    (hm : Represents env files m) :
    ∃ key store, contents env call.now { files with key := some key } = some store ∧
      Represents env { files with key := some key } m ∧
      perform env call files =
        advance env call { files with key := some key }
          (withStore env call service files.vault key store) := by
  obtain ⟨store, hstore, -⟩ := hm call.now
  obtain ⟨vault, key⟩ := files
  cases key with
  | some key =>
    refine ⟨key, store, hstore, hm, ?_⟩
    have hopen : openVault env call service key vault =
        withStore env call service vault key store := by
      cases vault with
      | none =>
        obtain rfl := Option.some.inj hstore
        rfl
      | some payload =>
        have hstore : decryptStore env call.now key payload = some store := hstore
        rw [openVault, hstore]
    have hstart : advance env call ⟨vault, some key⟩ .start =
        (⟨vault, some key⟩, .readKey vault) := by
      simp [advance, h]
    have hread : advance env call ⟨vault, some key⟩ (.readKey vault) =
        (⟨vault, some key⟩, withStore env call service vault key store) := by
      simp [advance, h, hopen]
    obtain ⟨outcome, hdone⟩ : ∃ outcome, (advance env call ⟨vault, some key⟩
        (withStore env call service vault key store)).2 = .done outcome :=
      advance_withStore _ _ _ _ _ _
    simp only [perform, hstart, hread]
    exact advance_done hdone
  | none =>
    cases vault with
    | some payload => cases hstore
    | none =>
      obtain rfl := Option.some.inj hstore
      refine ⟨call.freshKey, createEmptyStore, rfl, hm.withKey rfl _, ?_⟩
      simp [perform, advance, h]

theorem service_record (params : SetParams) (now : Nat) (service : String) (store : VaultStore) :
    (params.record env.toUrlEnv now service store).service = service := rfl

theorem credential_record (params : SetParams) (now : Nat) (service : String) (store : VaultStore) :
    (params.record env.toUrlEnv now service store).credential = params.credential := rfl

/-- The record of an accepted call passes the checks of the next read, unless it is a blank
password. -/
theorem checked_record {params : SetParams} {service : String}
    (h : params.check env.toUrlEnv = .ok service)
    (hsecret : params.mode = .password → trim params.secret ≠ "") (now : Nat) (store : VaultStore) :
    (params.record env.toUrlEnv now service store).Checked := by
  refine ⟨Js.trim_trim _, ?_, ?_⟩
  · intro hempty
    have hempty : trim params.identifier = "" := hempty
    unfold SetParams.check at h
    split at h
    · cases h
    · rw [if_pos hempty] at h
      cases h
  · intro hmode
    have hmode : params.mode = .password := hmode
    have hstored : params.storedSecret = params.secret := by simp [SetParams.storedSecret, hmode]
    show trim params.storedSecret ≠ ""
    rw [hstored]
    exact hsecret hmode

theorem check_set {params : SetParams} {service : String}
    (h : (Request.set params).check env = .ok service) :
    params.check env.toUrlEnv = .ok service := by
  cases hc : params.check env.toUrlEnv <;> simp_all [Request.check]

theorem check_service {params : SetParams} {service : String}
    (h : params.check env.toUrlEnv = .ok service) :
    normalizeSetupService env.toUrlEnv params.service = some service := by
  unfold SetParams.check at h
  split at h
  · cases h
  · next hname =>
    split_ifs at h
    obtain rfl := Except.ok.inj h
    exact hname

theorem absent_of_readRecord {store : VaultStore} {service : String}
    (h : readRecord store service = none) : store.credential? service = none := by
  unfold readRecord at h
  split at h
  · cases h
  all_goals
    rename_i hlookup _
    rw [VaultStore.credential?, hlookup]
    rfl

/-- An operation that does not open the vault does nothing to the map. -/
theorem update_rejected {request : Request} {outcome : Outcome}
    (h : request.check env = .error outcome) : request.update env m = m := by
  cases request with
  | set params =>
    simp only [Request.check] at h
    cases hc : params.check env.toUrlEnv with
    | ok service =>
      rw [hc] at h
      cases h
    | error message => simp [Request.update, hc]
  | delete service =>
    simp only [Request.check] at h
    cases hn : normalizeSetupService env.toUrlEnv service with
    | some name =>
      rw [hn] at h
      cases h
    | none => simp [Request.update, hn]
  | get service => rfl

theorem assign_represents {store : VaultStore} (hstore : contents env call.now files = some store)
    (hfixed : store.FixedNames env.toUrlEnv) (hall : ∀ name, store.credential? name = m name)
    (key : Key) (record : CredentialRecord) (hname : FixedName env.toUrlEnv record.service)
    (hproto : record.service ≠ "__proto__") (hchecked : record.Checked) :
    Represents env ⟨some (env.encrypt call.iv key (store.assign record).toValue), some key⟩
      (Function.update m record.service (some record.credential)) := by
  have htidy := (contents_normalized hstore).tidy hfixed
  have hwritten := represents_written (htidy.assign hname hproto hchecked) call.iv key
  have heq : (store.assign record).credential? =
      Function.update m record.service (some record.credential) := by
    funext name
    rw [credential?_assign hproto, hall, Function.update_apply]
  rwa [heq] at hwritten

theorem delete_represents {service : String} {store : VaultStore}
    (hstore : contents env call.now files = some store) (hfixed : store.FixedNames env.toUrlEnv)
    (hall : ∀ name, store.credential? name = m name) (key : Key) :
    Represents env ⟨some (env.encrypt call.iv key (store.delete service).toValue), some key⟩
      (Function.update m service none) := by
  have htidy := (contents_normalized hstore).tidy hfixed
  have hwritten := represents_written (htidy.delete service) call.iv key
  have heq : (store.delete service).credential? = Function.update m service none := by
    funext name
    rw [credential?_delete, hall, Function.update_apply]
  rwa [heq] at hwritten

/-- The last step of an operation that works on the store the files hold. -/
theorem withStore_represents {service : String} {payload : Option Sealed} {key : Key}
    {store : VaultStore} (hc : call.request.check env = .ok service)
    (hk : call.request.Kept env) (hkey : files.key = some key) (hm : Represents env files m)
    (hstore : contents env call.now files = some store) :
    Represents env (advance env call files (withStore env call service payload key store)).1
      (call.request.update env m) := by
  obtain ⟨store', hstore', hfixed, hall⟩ := hm call.now
  obtain rfl : store = store' := Option.some.inj (hstore.symm.trans hstore')
  cases hr : call.request with
  | set params =>
    rw [hr] at hc hk
    have hcheck := check_set hc
    have hupdate : (Request.set params).update env m =
        Function.update m service (some params.credential) := by simp [Request.update, hcheck]
    obtain ⟨hrenamed, hproto, hsecret⟩ := hk service hcheck
    have hname := (fixedName_iff (check_service hcheck)).mpr hrenamed
    have hwritten := assign_represents hstore hfixed hall key _
      (by rwa [service_record]) (by rwa [service_record])
      (checked_record hcheck hsecret call.now store)
    rw [service_record, credential_record] at hwritten
    rw [hupdate, withStore, hr, advance, hkey]
    exact hwritten
  | delete name =>
    rw [hr] at hc
    have hname : normalizeSetupService env.toUrlEnv name = some service := by
      cases hp : normalizeSetupService env.toUrlEnv name <;> simp_all [Request.check]
    have hupdate : (Request.delete name).update env m = Function.update m service none := by
      simp [Request.update, hname]
    rw [hupdate, withStore, hr]
    dsimp only
    split
    · rw [advance, hkey]
      exact delete_represents hstore hfixed hall key
    · next habsent =>
      have hnone : m service = none := by
        rw [← hall]
        exact absent_of_readRecord (by simpa using habsent)
      rw [← hnone, Function.update_eq_self]
      exact hm
  | get name =>
    rw [withStore, hr]
    exact hm

/-- One operation on the files does to the map what it should. -/
theorem perform_represents (hm : Represents env files m) (hk : call.request.Kept env) :
    Represents env (perform env call files).1 (call.request.update env m) := by
  cases hc : call.request.check env with
  | error outcome =>
    rw [perform_rejected hc, update_rejected hc]
    exact hm
  | ok service =>
    obtain ⟨key, store, hstore, hkeyed, hperform⟩ := perform_opened hc hm
    rw [hperform]
    exact withStore_represents hc hk rfl hkeyed hstore

end Perform

section Runs

/-- The map behind a sequence of operations. -/
theorem performAll_represents {files : Files Key Sealed} {m : Credentials}
    (hm : Represents env files m) (calls : List (Call Key))
    (hk : ∀ call ∈ calls, call.request.Kept env) :
    Represents env (performAll env files calls)
      (calls.foldl (fun m call => call.request.update env m) m) := by
  induction calls generalizing files m with
  | nil => exact hm
  | cons call calls ih =>
    obtain ⟨hcall, hcalls⟩ := List.forall_mem_cons.mp hk
    exact ih (perform_represents hm hcall) hcalls

/-- Operations on other names leave a name alone. -/
theorem update_untouched {m : Credentials} {request : Request} {service : String}
    (h : ¬ request.Touches env service) : request.update env m service = m service := by
  cases request with
  | set params =>
    cases hc : params.check env.toUrlEnv with
    | ok other =>
      have hne : service ≠ other := by
        rintro rfl
        exact h (check_service hc)
      simp [Request.update, hc, hne]
    | error message => simp [Request.update, hc]
  | delete name =>
    cases hn : normalizeSetupService env.toUrlEnv name with
    | some other =>
      have hne : service ≠ other := by
        rintro rfl
        exact h hn
      simp [Request.update, hn, hne]
    | none => simp [Request.update, hn]
  | get name => rfl

theorem foldl_update_untouched {m : Credentials} (calls : List (Call Key)) {service : String}
    (h : ∀ call ∈ calls, ¬ call.request.Touches env service) :
    calls.foldl (fun m call => call.request.update env m) m service = m service := by
  induction calls generalizing m with
  | nil => rfl
  | cons call calls ih =>
    obtain ⟨hcall, hcalls⟩ := List.forall_mem_cons.mp h
    rw [List.foldl_cons, ih hcalls, update_untouched hcall]

/-- A saved credential passed the checks under the name that is returned. -/
theorem check_of_saved {call : Call Key} {files : Files Key Sealed} {m : Credentials}
    {params : SetParams} {service : String} {created : Bool} (hm : Represents env files m)
    (hr : call.request = .set params)
    (h : (perform env call files).2 = .done (.saved service created)) :
    params.check env.toUrlEnv = .ok service := by
  cases hc : params.check env.toUrlEnv with
  | error message =>
    have hcheck : call.request.check env = .error (.failed message) := by
      simp [hr, Request.check, hc]
    rw [perform_rejected hcheck] at h
    cases h
  | ok name =>
    have hcheck : call.request.check env = .ok name := by simp [hr, Request.check, hc]
    obtain ⟨key, store, -, -, hperform⟩ := perform_opened hcheck hm
    rw [hperform, withStore, hr] at h
    cases h
    rfl

theorem get_found {get : Call Key} {files : Files Key Sealed} {m : Credentials}
    {name service : String} {c : Credential} (hm : Represents env files m)
    (hr : get.request = .get name) (hname : normalizeSetupService env.toUrlEnv name = some service)
    (hc : m service = some c) :
    ∃ record, (perform env get files).2 = .done (.found (some (.record record))) ∧
      record.credential = c := by
  have hcheck : get.request.check env = .ok service := by simp [hr, Request.check, hname]
  obtain ⟨key, store, hstore, hkeyed, hperform⟩ := perform_opened hcheck hm
  obtain ⟨store', hstore', -, hall⟩ := hkeyed get.now
  obtain rfl : store = store' := Option.some.inj (hstore.symm.trans hstore')
  rw [← hall] at hc
  obtain ⟨record, hlookup, hcredential⟩ := Option.map_eq_some_iff.mp hc
  refine ⟨record, ?_, hcredential⟩
  have hread : readRecord store service = some (.record record) := by
    unfold readRecord
    rw [hlookup]
  rw [hperform, withStore, hr, hread]
  rfl

/-- After every accepted `setCredential`, `getCredential` returns what was set until the next
set or delete of the same name, in every sequence of operations that reading the vault keeps. -/
theorem vault_keeps_credential (env : VaultEnv Key Sealed) (files : Files Key Sealed)
    (hfiles : Settled env files) (before after : List (Call Key)) (call get : Call Key)
    (params : SetParams) (service : String) (created : Bool)
    (hkept : ∀ c ∈ before ++ call :: after, c.request.Kept env) (hset : call.request = .set params)
    (hsaved : (perform env call (performAll env files before)).2 = .done (.saved service created))
    (huntouched : ∀ c ∈ after, ¬ c.request.Touches env service)
    (hget : get.request = .get params.service) :
    ∃ record, (perform env get (performAll env files (before ++ call :: after))).2 =
        .done (.found (some (.record record))) ∧ record.credential = params.credential := by
  obtain ⟨m, hm⟩ := hfiles
  have hcheck : params.check env.toUrlEnv = .ok service :=
    check_of_saved (performAll_represents hm before fun c hc => hkept c (by simp [hc])) hset hsaved
  refine get_found (performAll_represents hm _ hkept) hget (check_service hcheck) ?_
  rw [List.foldl_append, List.foldl_cons, foldl_update_untouched after huntouched, hset]
  simp [Request.update, hcheck]

end Runs

section Plain

/-- A cipher that keeps the key beside the text. -/
def plainEnv : VaultEnv Bool (Bool × Js.Value) where
  rt := Js.asciiRuntime
  hostname := fun _ => none
  encrypt := fun _ key v => (key, v)
  decrypt := fun key payload => if payload.1 = key then some payload.2 else none
  missingKeyMessage := "Credential key is missing or invalid"
  decrypt_encrypt := by simp

def passwordFor (service identifier : String) : SetParams where
  service := service
  identifier := identifier
  secret := "hunter2"

def callOf (request : Request) : Call Bool := ⟨request, 1, 0, true⟩

def savedService : Phase Bool (Bool × Js.Value) → Option (String × Bool)
  | .done (.saved service created) => some (service, created)
  | _ => none

theorem eq_of_savedService {phase : Phase Bool (Bool × Js.Value)} {service : String} {created : Bool}
    (h : savedService phase = some (service, created)) : phase = .done (.saved service created) := by
  unfold savedService at h
  split at h
  · cases h
    rfl
  · cases h

theorem kept_passwordFor {name identifier : String} (service : String)
    (hc : (passwordFor name identifier).check plainEnv.toUrlEnv = .ok service)
    (hrenamed : ¬ Renamed service) (hproto : service ≠ "__proto__") :
    (callOf (.set (passwordFor name identifier))).request.Kept plainEnv := by
  intro other h
  obtain rfl := Except.ok.inj (hc.symm.trans h)
  refine ⟨hrenamed, hproto, fun _ => ?_⟩
  show trim "hunter2" ≠ ""
  decide

/-- A bank's password outlives a mailbox that comes and goes. -/
theorem vault_keeps_credential_bank :
    ∃ record, (perform plainEnv (callOf (.get "bank.example")) (performAll plainEnv ⟨none, none⟩
        ([] ++ callOf (.set (passwordFor "bank.example" "me")) ::
          [callOf (.set (passwordFor "mail" "me")), callOf (.delete "email")]))).2 =
        .done (.found (some (.record record))) ∧
      record.credential = (passwordFor "bank.example" "me").credential := by
  refine vault_keeps_credential plainEnv ⟨none, none⟩ ⟨_, represents_absent none⟩ [] _
    (callOf (.set (passwordFor "bank.example" "me"))) _ _ "bank.example" true ?_ rfl
    (eq_of_savedService (by decide)) ?_ rfl
  · intro c hc
    simp only [List.nil_append, List.mem_cons, List.not_mem_nil, or_false] at hc
    rcases hc with rfl | rfl | rfl
    · exact kept_passwordFor "bank.example" (by decide) (by decide) (by decide)
    · exact kept_passwordFor "email" (by decide) (by decide) (by decide)
    · trivial
  · intro c hc
    simp only [List.mem_cons, List.not_mem_nil, or_false] at hc
    rcases hc with rfl | rfl
    · show ¬ normalizeSetupService plainEnv.toUrlEnv "mail" = some "bank.example"
      decide
    · show ¬ normalizeSetupService plainEnv.toUrlEnv "email" = some "bank.example"
      decide

def foundNothing : Phase Bool (Bool × Js.Value) → Bool
  | .done (.found none) => true
  | _ => false

/-- `www.twitter.com` is stored as `twitter.com` and read back as `x.com`: it is not found. -/
theorem renamed_credential_lost :
    ¬ ∀ (before after : List (Call Bool)) (call get : Call Bool) (params : SetParams)
        (service : String) (created : Bool),
      call.request = .set params →
      (perform plainEnv call (performAll plainEnv ⟨none, none⟩ before)).2 =
        .done (.saved service created) →
      (∀ c ∈ after, ¬ c.request.Touches plainEnv service) → get.request = .get params.service →
      ∃ record, (perform plainEnv get (performAll plainEnv ⟨none, none⟩
          (before ++ call :: after))).2 = .done (.found (some (.record record))) ∧
        record.credential = params.credential := by
  intro h
  obtain ⟨record, hfound, -⟩ := h [] [] (callOf (.set (passwordFor "www.twitter.com" "me")))
    (callOf (.get "www.twitter.com")) _ "twitter.com" true rfl
    (eq_of_savedService (by decide)) (fun _ hc => absurd hc List.not_mem_nil) rfl
  have hnothing : foundNothing (perform plainEnv (callOf (.get "www.twitter.com"))
      (performAll plainEnv ⟨none, none⟩
        ([] ++ [callOf (.set (passwordFor "www.twitter.com" "me"))]))).2 = true := by
    decide
  rw [hfound] at hnothing
  cases hnothing

end Plain

end T560.Vault
