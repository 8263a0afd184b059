import T560.Vault.Files

/-!
# The vault up to its secrets

Two vaults are alike when they differ in secrets and codes only. A blank secret is not like
another one, because reading the vault drops a blank password. Operations that are alike keep the
vaults alike, step by step, and have the same outcome.
-/

namespace T560.Vault

open Js (Value PropertyMap trim)
open Js.Value (coalesce)

/-- All that is asked about a secret: whether it is empty, and whether it is blank. -/
def maskSecret (secret : String) : String :=
  if secret = "" then "" else if trim secret = "" then " " else "*"

def CredentialRecord.masked (r : CredentialRecord) : CredentialRecord :=
  { r with secret := maskSecret r.secret, mfaCode := none }

def SetParams.masked (params : SetParams) : SetParams :=
  { params with secret := maskSecret params.secret, mfaCode := none }

/-- The records with their secrets masked, and the prototype. -/
def VaultStore.masked (store : VaultStore) :
    PropertyMap CredentialRecord × Option CredentialRecord :=
  (store.records.map fun f => (f.1, f.2.masked), store.prototype.map (·.masked))

def Found.masked : Found → Found
  | .record r => .record r.masked
  | .inherited => .inherited

section Secrets

theorem maskSecret_eq_empty {secret : String} : maskSecret secret = "" ↔ secret = "" := by
  unfold maskSecret
  by_cases hempty : secret = ""
  · simp [hempty]
  · by_cases hblank : trim secret = "" <;> simp [hempty, hblank]

theorem trim_maskSecret {secret : String} : trim (maskSecret secret) = "" ↔ trim secret = "" := by
  have hspace : trim " " = "" := by decide
  have hstar : trim "*" = "*" := by decide
  have hnil : trim "" = "" := by decide
  unfold maskSecret
  by_cases hempty : secret = ""
  · simp [hempty]
  · by_cases hblank : trim secret = "" <;> simp [hempty, hblank, hspace, hstar]

theorem empty_iff_of_mask {a b : String} (h : maskSecret a = maskSecret b) : a = "" ↔ b = "" := by
  rw [← maskSecret_eq_empty, h, maskSecret_eq_empty]

theorem blank_iff_of_mask {a b : String} (h : maskSecret a = maskSecret b) :
    trim a = "" ↔ trim b = "" := by
  rw [← trim_maskSecret, h, trim_maskSecret]

/-- Records that are alike differ in secret and code only. -/
theorem CredentialRecord.exists_of_masked {r r' : CredentialRecord} (h : r.masked = r'.masked) :
    ∃ secret mfaCode, r' = { r with secret, mfaCode } ∧ maskSecret r.secret = maskSecret secret := by
  refine ⟨r'.secret, r'.mfaCode, ?_, congrArg CredentialRecord.secret h⟩
  cases r
  cases r'
  simp only [CredentialRecord.masked, CredentialRecord.mk.injEq] at h ⊢
  obtain ⟨h1, h2, -, h4, h5, h6, h7, -, h9, h10⟩ := h
  exact ⟨h1.symm, h2.symm, trivial, h4.symm, h5.symm, h6.symm, h7.symm, trivial, h9.symm, h10.symm⟩

end Secrets

section ReadBack

variable {env : UrlEnv}

/-- The other properties do not depend on the secret and the code. -/
theorem get?_toValue_secret (r : CredentialRecord) (secret : String) (mfaCode : Option String)
    {field : String} (hsecret : field ≠ "secret") (hcode : field ≠ "mfaCode") :
    ({ r with secret, mfaCode } : CredentialRecord).toValue.get? field = r.toValue.get? field := by
  have habsent : ∀ code : Option String,
      (code.toList.map fun t => ("mfaCode", Value.str t)).lookup field = none := by
    intro code
    cases code <;> simp [Value.lookup_cons_if, hcode]
  simp only [CredentialRecord.toValue, Value.get?, List.lookup_append, habsent,
    Value.lookup_cons_if, if_neg hsecret]

/-- A record and one that is like it are read back alike. -/
theorem normalizeEntry_alike (now : Nat) (key : String) {r r' : CredentialRecord}
    (h : r.masked = r'.masked) :
    ∃ read read', normalizeEntry env now key r.toValue = .ok read ∧
      normalizeEntry env now key r'.toValue = .ok read' ∧
      read.map (·.masked) = read'.map (·.masked) := by
  obtain ⟨secret', mfaCode', rfl, hsecret⟩ := CredentialRecord.exists_of_masked h
  have hget := get?_toValue r
  obtain ⟨website, hwebsite⟩ := exists_trimmed env.rt (hget "websiteUrl")
  obtain ⟨strategy, hstrategy⟩ := exists_trimmed env.rt (hget "mfaStrategy")
  obtain ⟨source, hsource⟩ := exists_text env.rt (hget "mfaSourceService")
  obtain ⟨created, hcreated⟩ := exists_number env.rt (.fin now) (hget "createdAt")
  obtain ⟨updated, hupdated⟩ := exists_number env.rt (.fin now) (hget "updatedAt")
  have hservice : r.toValue.get? "service" = some (.str r.service) := rfl
  have hidentifier : r.toValue.get? "identifier" = some (.str r.identifier) := rfl
  have hmode : r.toValue.get? "authMode" = some (.str r.authMode.text) := rfl
  have hread : ∀ secret mfaCode,
      ∃ code, normalizeEntry env now key
          ({ r with secret, mfaCode } : CredentialRecord).toValue =
        .ok ((normalizeSetupService env r.service).bind fun service =>
          if trim r.identifier = "" ∨ (trim secret = "" ∧ r.authMode = .password) then none
          else some {
            service, identifier := trim r.identifier, secret, authMode := r.authMode
            websiteUrl := orNull website
            mfaStrategy := if r.authMode = .password then none
              else some (parseMfaStrategy (env.rt.toLowerCase strategy))
            mfaSourceService := if r.authMode = .password then none
              else normalizeSetupService env source
            mfaCode := code
            createdAt := timestamp now created
            updatedAt := timestamp now updated }) := by
    intro secret mfaCode
    have hown : ({ r with secret, mfaCode } : CredentialRecord).toValue.get? "secret" =
        some (.str secret) := rfl
    refine ⟨(Value.str? (({ r with secret, mfaCode } : CredentialRecord).toValue.get?
      "mfaCode")).bind fun code => orNull (trim code), ?_⟩
    unfold normalizeEntry
    simp only [get?_toValue_secret r secret mfaCode, ne_eq, String.reduceEq, not_false_iff]
    rw [hwebsite, hstrategy, hsource, hcreated, hupdated, hservice, hidentifier, hown, hmode]
    simp only [coalesce, Value.textOrEmpty_str, Value.trimmedText_str, Js.ok_bind,
      parseAuthMode_text]
    cases normalizeSetupService env r.service with
    | none => rfl
    | some service =>
      simp only [Option.bind_some]
      split <;> rfl
  obtain ⟨code, hfirst⟩ := hread r.secret r.mfaCode
  obtain ⟨code', hsecond⟩ := hread secret' mfaCode'
  refine ⟨_, _, hfirst, hsecond, ?_⟩
  have hblank := blank_iff_of_mask hsecret
  cases normalizeSetupService env r.service with
  | none => simp only [Option.bind_none, Option.map_none]
  | some service =>
    simp only [Option.bind_some, hblank]
    split
    · rfl
    · simp [CredentialRecord.masked, hsecret]

end ReadBack

section Stores

variable {env : UrlEnv} {store store' : VaultStore} {r r' : CredentialRecord}

theorem lookup_map_snd {α β : Type} (g : α → β) (record : PropertyMap α) (key : String) :
    (record.map fun f => (f.1, g f.2)).lookup key = (record.lookup key).map g := by
  induction record with
  | nil => rfl
  | cons f record ih =>
    obtain ⟨k, x⟩ := f
    rw [List.map_cons, Value.lookup_cons_if, Value.lookup_cons_if, ih]
    split <;> rfl

theorem map_put {α β : Type} (g : α → β) (record : PropertyMap α) (key : String) (x : α) :
    (record.put key x).map (fun f => (f.1, g f.2)) =
      PropertyMap.put (record.map fun f => (f.1, g f.2)) key (g x) := by
  unfold PropertyMap.put
  rw [List.any_map]
  split
  · rfl
  · split
    · next hany =>
      have hany' : record.any ((fun f => f.1 == key) ∘ fun f => (f.1, g f.2)) = true := hany
      rw [if_pos hany', List.map_map, List.map_map]
      refine List.map_congr_left fun f _ => ?_
      simp only [Function.comp_apply]
      split <;> rfl
    · next hany =>
      have hany' : ¬ record.any ((fun f => f.1 == key) ∘ fun f => (f.1, g f.2)) = true := hany
      rw [if_neg hany', List.map_append]
      rfl

theorem assign_masked (store : VaultStore) (r : CredentialRecord) :
    (store.assign r).masked =
      if r.service = "__proto__" then (store.masked.1, some r.masked)
      else (PropertyMap.put store.masked.1 r.service r.masked, store.masked.2) := by
  by_cases hproto : r.service = "__proto__"
  · rw [if_pos hproto, VaultStore.assign, dif_pos hproto]
    rfl
  · rw [if_neg hproto, VaultStore.assign, dif_neg hproto]
    unfold VaultStore.masked
    dsimp only
    rw [map_put]

theorem assign_alike (h : store.masked = store'.masked) (hr : r.masked = r'.masked) :
    (store.assign r).masked = (store'.assign r').masked := by
  have hservice : r.service = r'.service := by
    have hmasked := congrArg CredentialRecord.service hr
    exact hmasked
  rw [assign_masked, assign_masked, h, hr, hservice]

theorem delete_alike (h : store.masked = store'.masked) (service : String) :
    (store.delete service).masked = (store'.delete service).masked := by
  have hdelete : ∀ store : VaultStore, (store.delete service).masked =
      (PropertyMap.remove store.masked.1 service, store.masked.2) := by
    intro store
    unfold VaultStore.masked VaultStore.delete PropertyMap.remove
    rw [List.filter_map]
    rfl
  rw [hdelete, hdelete, h]

/-- What is found under a name is the same up to the secret. -/
theorem readRecord_masked (store : VaultStore) (key : String) :
    (readRecord store key).map Found.masked =
      match store.masked.1.lookup key, store.masked.2 with
      | some r, _ => some (.record r)
      | none, none => if key = "constructor" ∨ key = "__proto__" then some .inherited else none
      | none, some r =>
        if key = "__proto__" then some (.record r)
        else if key = "constructor" ∨ key ∈ recordNames then some .inherited
        else none := by
  unfold readRecord VaultStore.masked
  rw [lookup_map_snd]
  cases store.records.lookup key with
  | some r => rfl
  | none =>
    cases store.prototype with
    | none =>
      simp only [Option.map_none]
      split <;> rfl
    | some r =>
      simp only [Option.map_none, Option.map_some]
      split
      · rfl
      · split <;> rfl

theorem readRecord_alike (h : store.masked = store'.masked) (key : String) :
    (readRecord store key).map Found.masked = (readRecord store' key).map Found.masked := by
  rw [readRecord_masked, readRecord_masked, h]

theorem listConfiguredServices_alike (env : UrlEnv) (h : store.masked = store'.masked) :
    listConfiguredServices env store = listConfiguredServices env store' := by
  have hlist : ∀ store : VaultStore, listConfiguredServices env store =
      ((PropertyMap.entries store.masked.1).filterMap fun f =>
        normalizeSetupService env f.1).insertionSort (· ≤ ·) := by
    intro store
    unfold listConfiguredServices VaultStore.masked
    rw [PropertyMap.entries_map, List.filterMap_map]
    rfl
  rw [hlist, hlist, h]

theorem addEntry_alike (now : Nat) (key : String) (h : store.masked = store'.masked)
    (hr : r.masked = r'.masked) :
    ∃ next next', addEntry env now store (key, r.toValue) = .ok next ∧
      addEntry env now store' (key, r'.toValue) = .ok next' ∧ next.masked = next'.masked := by
  obtain ⟨read, read', hread, hread', hmasked⟩ := @normalizeEntry_alike env now key r r' hr
  have hobject : ∀ r : CredentialRecord, r.toValue.isObject = true := fun _ => rfl
  unfold addEntry
  simp only [hobject, if_true, hread, hread', Js.ok_bind]
  cases read with
  | none =>
    cases read' with
    | none => exact ⟨store, store', rfl, rfl, h⟩
    | some _ => cases hmasked
  | some record =>
    cases read' with
    | none => cases hmasked
    | some record' =>
      exact ⟨_, _, rfl, rfl, assign_alike h (Option.some.inj hmasked)⟩

theorem foldlM_addEntry_alike (now : Nat) (list list' : PropertyMap CredentialRecord)
    (hlist : (list.map fun f => (f.1, f.2.masked)) = list'.map fun f => (f.1, f.2.masked))
    (h : store.masked = store'.masked) :
    ∃ next next',
      (list.map fun f => (f.1, f.2.toValue)).foldlM (addEntry env now) store = .ok next ∧
      (list'.map fun f => (f.1, f.2.toValue)).foldlM (addEntry env now) store' = .ok next' ∧
      next.masked = next'.masked := by
  induction list generalizing list' store store' with
  | nil =>
    cases list' with
    | nil => exact ⟨store, store', rfl, rfl, h⟩
    | cons _ _ => cases hlist
  | cons f list ih =>
    cases list' with
    | nil => cases hlist
    | cons f' list' =>
      obtain ⟨hhead, htail⟩ := List.cons.inj hlist
      obtain ⟨hkey, hrecord⟩ := Prod.mk.inj hhead
      obtain ⟨next, next', hnext, hnext', hmasked⟩ :=
        @addEntry_alike env store store' f.2 f'.2 now f.1 h hrecord
      obtain ⟨last, last', hlast, hlast', hend⟩ := ih list' htail hmasked
      refine ⟨last, last', ?_, ?_, hend⟩
      · rw [List.map_cons, List.foldlM_cons, hnext]
        exact hlast
      · rw [List.map_cons, List.foldlM_cons, ← hkey, hnext']
        exact hlast'

/-- Stores that are alike are read back alike. -/
theorem normalizeStore_alike (now : Nat) (h : store.masked = store'.masked) :
    ∃ read read', normalizeStore env now store.toValue = .ok read ∧
      normalizeStore env now store'.toValue = .ok read' ∧ read.masked = read'.masked := by
  have hentries : ∀ store : VaultStore,
      (PropertyMap.entries (PropertyMap.entries store.records)).map (fun f => (f.1, f.2.masked)) =
        PropertyMap.entries (PropertyMap.entries store.masked.1) := by
    intro store
    unfold VaultStore.masked
    rw [PropertyMap.entries_map, PropertyMap.entries_map]
  obtain ⟨read, read', hread, hread', hmasked⟩ := @foldlM_addEntry_alike env createEmptyStore
    createEmptyStore now (PropertyMap.entries (PropertyMap.entries store.records))
    (PropertyMap.entries (PropertyMap.entries store'.records))
    (by rw [hentries, hentries, h]) rfl
  rw [← PropertyMap.entries_map] at hread hread'
  exact ⟨read, read', hread, hread', hmasked⟩

end Stores

section Params

variable {env : UrlEnv} {store store' : VaultStore} {params params' : SetParams}

/-- Parameters that are alike differ in secret and code only. -/
theorem SetParams.exists_of_masked (h : params.masked = params'.masked) :
    ∃ secret mfaCode, params' = { params with secret, mfaCode } ∧
      maskSecret params.secret = maskSecret secret := by
  refine ⟨params'.secret, params'.mfaCode, ?_, congrArg SetParams.secret h⟩
  cases params
  cases params'
  simp only [SetParams.masked, SetParams.mk.injEq] at h ⊢
  obtain ⟨h1, h2, -, h4, h5, h6, h7, -⟩ := h
  exact ⟨h1.symm, h2.symm, trivial, h4.symm, h5.symm, h6.symm, h7.symm, trivial⟩

theorem storedSecret_alike (h : params.masked = params'.masked) :
    maskSecret params.storedSecret = maskSecret params'.storedSecret := by
  obtain ⟨secret, mfaCode, rfl, hsecret⟩ := SetParams.exists_of_masked h
  have hblank := blank_iff_of_mask hsecret
  unfold SetParams.storedSecret SetParams.mode
  simp only [hblank]
  split
  · rfl
  · exact hsecret

theorem check_alike (env : UrlEnv) (h : params.masked = params'.masked) :
    params.check env = params'.check env := by
  have hempty := empty_iff_of_mask (storedSecret_alike h)
  obtain ⟨secret, mfaCode, rfl, -⟩ := SetParams.exists_of_masked h
  unfold SetParams.check
  simp only [hempty]
  rfl

/-- Which mailbox a code may come from depends on identifiers only. -/
theorem inferMfaSourceService_alike (env : UrlEnv) (h : store.masked = store'.masked)
    (identifier : String) :
    inferMfaSourceServiceFromIdentifier env identifier store =
      inferMfaSourceServiceFromIdentifier env identifier store' := by
  unfold inferMfaSourceServiceFromIdentifier
  dsimp only
  split
  · rfl
  · congr 1
    funext candidate
    cases normalizeSetupService env candidate with
    | none => rfl
    | some normalized =>
      have hread := readRecord_alike h normalized
      dsimp only [bind, Option.bind]
      generalize readRecord store normalized = found at hread ⊢
      generalize readRecord store' normalized = found' at hread ⊢
      rcases found with _ | r | _ <;> rcases found' with _ | r' | _ <;> try cases hread
      · rfl
      · have hr : r.masked = r'.masked := by simpa [Found.masked] using hread
        obtain ⟨secret', mfaCode', rfl, -⟩ := CredentialRecord.exists_of_masked hr
        rfl
      · rfl

theorem record_alike (env : UrlEnv) (now : Nat) (service : String)
    (h : store.masked = store'.masked) (hparams : params.masked = params'.masked) :
    (params.record env now service store).masked =
      (params'.record env now service store').masked := by
  have hstored := storedSecret_alike hparams
  have hinfer := inferMfaSourceService_alike env h (trim params.identifier)
  have hread := readRecord_alike h service
  obtain ⟨secret, mfaCode, rfl, -⟩ := SetParams.exists_of_masked hparams
  unfold SetParams.record
  rcases hfound : readRecord store service with _ | r | _ <;>
    rcases hfound' : readRecord store' service with _ | r' | _ <;>
    rw [hfound, hfound'] at hread <;> try cases hread
  · simp only [CredentialRecord.masked, hinfer, hstored, SetParams.mode]
    rfl
  · have hr : r.masked = r'.masked := by simpa [Found.masked] using hread
    obtain ⟨secret', mfaCode', rfl, -⟩ := CredentialRecord.exists_of_masked hr
    simp only [CredentialRecord.masked, hinfer, hstored, SetParams.mode]
    rfl
  · simp only [CredentialRecord.masked, hinfer, hstored, SetParams.mode]
    rfl

end Params

section Steps

variable {Key Sealed : Type} (env : VaultEnv Key Sealed)

/-- The same vault file, or two that the key file opens to stores that are alike. -/
inductive SameVault (key : Option Key) : Option Sealed → Option Sealed → Prop
  | same (vault : Option Sealed) : SameVault key vault vault
  | alike (k : Key) (payload payload' : Sealed) (store store' : VaultStore) (hkey : key = some k)
    (hopen : env.decrypt k payload = some store.toValue)
    (hopen' : env.decrypt k payload' = some store'.toValue)
    (hmasked : store.masked = store'.masked) : SameVault key (some payload) (some payload')

structure Files.Alike (files files' : Files Key Sealed) : Prop where
  key : files.key = files'.key
  vault : SameVault env files.key files.vault files'.vault

/-- A change of one of the vaults, up to its secret. -/
inductive Request.Alike : Request → Request → Prop
  | set (params params' : SetParams) (h : params.masked = params'.masked) :
    Request.Alike (.set params) (.set params')
  | delete (service : String) : Request.Alike (.delete service) (.delete service)

/-- Two operations on files of their own stand at the same place. What they have read may be older than
their files, but is as alike. -/
inductive SamePhase : Files Key Sealed × Phase Key Sealed → Files Key Sealed × Phase Key Sealed → Prop
  | start (files files' : Files Key Sealed) : SamePhase (files, .start) (files', .start)
  | readKey (files files' : Files Key Sealed) (payload payload' : Option Sealed)
    (hpayload : SameVault env files.key payload payload') :
    SamePhase (files, .readKey payload) (files', .readKey payload')
  | writeKey (files files' : Files Key Sealed) (hvault : files.vault = files'.vault) :
    SamePhase (files, .writeKey) (files', .writeKey)
  | writeVault (files files' : Files Key Sealed) (payload payload' : Option Sealed) (key : Key)
    (store store' : VaultStore) (outcome : Outcome) (hkey : files.key = some key)
    (hmasked : store.masked = store'.masked) :
    SamePhase (files, .writeVault payload key store outcome)
      (files', .writeVault payload' key store' outcome)
  | done (files files' : Files Key Sealed) (outcome : Outcome) :
    SamePhase (files, .done outcome) (files', .done outcome)

variable {env} {call call' : Call Key}

/-- The calls have the same surroundings, and ask for the same change. -/
structure Call.Alike (call call' : Call Key) : Prop where
  request : call.request.Alike call'.request
  now : call.now = call'.now
  iv : call.iv = call'.iv
  freshKey : call.freshKey = call'.freshKey

theorem Request.Alike.check {request request' : Request} (h : request.Alike request') :
    request.check env = request'.check env := by
  cases h with
  | set params params' h =>
    unfold Request.check
    dsimp only
    rw [check_alike env.toUrlEnv h]
  | delete service => rfl

/-- Without a key file the vaults are the same file. -/
theorem SameVault.eq_of_no_key {vault vault' : Option Sealed} (h : SameVault env none vault vault') :
    vault = vault' := by
  cases h with
  | same => rfl
  | alike k _ _ _ _ hkey => cases hkey

/-- With stores that are alike, both operations go on alike. -/
theorem withStore_alike (h : call.Alike call') (service : String) (key : Key)
    {files files' : Files Key Sealed} (hkey : files.key = some key) {store store' : VaultStore}
    (hmasked : store.masked = store'.masked) (payload payload' : Option Sealed) :
    SamePhase env (files, withStore env call service payload key store)
      (files', withStore env call' service payload' key store') := by
  have hread := readRecord_alike hmasked service
  have hsome : (readRecord store service).isSome = (readRecord store' service).isSome := by
    rw [← Option.isSome_map, hread, Option.isSome_map]
  have hnone : (readRecord store service).isNone = (readRecord store' service).isNone := by
    rw [← Option.isNone_map, hread, Option.isNone_map]
  obtain ⟨request, now, iv, freshKey⟩ := call
  obtain ⟨request', now', iv', freshKey'⟩ := call'
  obtain ⟨hrequest, rfl, rfl, rfl⟩ := h
  unfold withStore
  dsimp only at hrequest ⊢
  cases hrequest with
  | set params params' hparams =>
    dsimp only
    rw [hnone]
    exact .writeVault files files' payload payload' key _ _ _ hkey
      (assign_alike hmasked (record_alike env.toUrlEnv _ service hmasked hparams))
  | delete name =>
    dsimp only
    rw [hsome]
    split
    · exact .writeVault files files' payload payload' key _ _ _ hkey (delete_alike hmasked service)
    · exact .done files files' _

theorem decryptStore_written {now : Nat} {key : Key} {payload : Sealed} {store read : VaultStore}
    (hopen : env.decrypt key payload = some store.toValue)
    (hread : normalizeStore env.toUrlEnv now store.toValue = .ok read) :
    decryptStore env now key payload = some read := by
  simp [decryptStore, hopen, hread, Except.toOption]

theorem openVault_alike (h : call.Alike call') (service : String) {key : Key}
    {files files' : Files Key Sealed} (hkey : files.key = some key) {payload payload' : Option Sealed}
    (hpayload : SameVault env files.key payload payload') :
    SamePhase env (files, openVault env call service key payload)
      (files', openVault env call' service key payload') := by
  cases hpayload with
  | same =>
    cases payload with
    | none => exact withStore_alike h service key hkey rfl none none
    | some payload =>
      unfold openVault
      dsimp only
      rw [h.now]
      cases decryptStore env call'.now key payload with
      | none => exact .done files files' _
      | some store => exact withStore_alike h service key hkey rfl _ _
  | alike k payload payload' store store' hk hopen hopen' hmasked =>
    obtain rfl : k = key := Option.some.inj (hk.symm.trans hkey)
    obtain ⟨read, read', hread, hread', hreadMasked⟩ :=
      @normalizeStore_alike env.toUrlEnv store store' call'.now hmasked
    unfold openVault
    rw [h.now]
    dsimp only
    rw [decryptStore_written hopen hread, decryptStore_written hopen' hread']
    exact withStore_alike h service k hkey hreadMasked _ _

/-- One step keeps the files alike and the operations at the same place. -/
theorem advance_alike (h : call.Alike call')
    {state state' : Files Key Sealed × Phase Key Sealed} (hfiles : state.1.Alike env state'.1)
    (hphase : SamePhase env state state') :
    (advance env call state.1 state.2).1.Alike env (advance env call' state'.1 state'.2).1 ∧
      SamePhase env (advance env call state.1 state.2) (advance env call' state'.1 state'.2) := by
  have hcheck := @Request.Alike.check Key Sealed env _ _ h.request
  cases hphase with
  | start files files' =>
    unfold advance
    rw [hcheck]
    cases call'.request.check env with
    | ok service => exact ⟨hfiles, .readKey files files' _ _ hfiles.vault⟩
    | error outcome => exact ⟨hfiles, .done files files' outcome⟩
  | readKey files files' payload payload' hpayload =>
    unfold advance
    rw [hcheck]
    cases call'.request.check env with
    | error outcome => exact ⟨hfiles, .done files files' outcome⟩
    | ok service =>
      have hkeys := hfiles.key
      dsimp only at hkeys ⊢
      rw [← hkeys]
      cases hkey : files.key with
      | some key => exact ⟨hfiles, openVault_alike h service hkey hpayload⟩
      | none =>
        have hvault := hfiles.vault
        dsimp only at hvault
        rw [hkey] at hvault hpayload
        dsimp only
        rw [← hpayload.eq_of_no_key]
        cases payload with
        | some payload => exact ⟨hfiles, .done files files' _⟩
        | none => exact ⟨hfiles, .writeKey files files' hvault.eq_of_no_key⟩
  | writeKey files files' hvault =>
    unfold advance
    rw [hcheck]
    cases call'.request.check env with
    | error outcome => exact ⟨hfiles, .done files files' outcome⟩
    | ok service =>
      dsimp only
      rw [h.freshKey]
      refine ⟨⟨rfl, ?_⟩, withStore_alike h service _ rfl rfl none none⟩
      dsimp only
      rw [hvault]
      exact .same _
  | writeVault files files' payload payload' key store store' outcome hkey hmasked =>
    unfold advance
    dsimp only
    rw [h.iv]
    exact ⟨⟨hfiles.key, .alike key _ _ store store' hkey (env.decrypt_encrypt _ key _)
      (env.decrypt_encrypt _ key _) hmasked⟩, .done _ _ outcome⟩
  | done files files' outcome => exact ⟨hfiles, .done files files' outcome⟩

end Steps

end T560.Vault
