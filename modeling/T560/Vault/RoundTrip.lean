import T560.Vault.Names
import T560.Vault.Write

/-!
# A store that is read back

A tidy store comes back from its JSON with the same credentials under the same names. What
normalization returns is tidy as soon as its names are fixed points of their normalization.
-/

namespace T560.Vault

open Js (Value PropertyMap trim)
open Js.Value (coalesce textOrEmpty trimmedText)
open Js.PropertyMap (Keyed)

/-- What a login needs of a record. -/
structure Credential where
  identifier : String
  secret : String
  authMode : CredentialAuthMode
  deriving DecidableEq, Repr

def CredentialRecord.credential (r : CredentialRecord) : Credential :=
  ⟨r.identifier, r.secret, r.authMode⟩

/-- The checks `normalizeStore` makes again on every record. -/
structure CredentialRecord.Checked (r : CredentialRecord) : Prop where
  trimmed : trim r.identifier = r.identifier
  named : r.identifier ≠ ""
  secret : r.authMode = .password → trim r.secret ≠ ""

section Fixed
variable (env : UrlEnv)

def VaultStore.FixedNames (store : VaultStore) : Prop := ∀ f ∈ store.records, FixedName env f.1

/-- Every name is there once and stays, and every record passes its checks. -/
structure VaultStore.Tidy (store : VaultStore) : Prop where
  once : Keyed store.records
  fixed : store.FixedNames env
  proto : ∀ f ∈ store.records, f.1 ≠ "__proto__"
  checked : ∀ f ∈ store.records, f.2.Checked

end Fixed

variable {env : UrlEnv}

def VaultStore.credential? (store : VaultStore) (service : String) : Option Credential :=
  (store.records.lookup service).map (·.credential)

section Assign
variable {store : VaultStore} {record : CredentialRecord}

theorem assign_records (h : record.service ≠ "__proto__") :
    (store.assign record).records = store.records.put record.service record := by
  rw [VaultStore.assign, dif_neg h]

theorem assign_proto (h : record.service = "__proto__") :
    (store.assign record).records = store.records := by
  rw [VaultStore.assign, dif_pos h]

theorem credential?_assign (h : record.service ≠ "__proto__") (service : String) :
    (store.assign record).credential? service =
      if service = record.service then some record.credential else store.credential? service := by
  rw [VaultStore.credential?, assign_records h, PropertyMap.lookup_put h]
  split <;> rfl

theorem credential?_delete (gone service : String) :
    (store.delete gone).credential? service =
      if service = gone then none else store.credential? service := by
  rw [VaultStore.credential?, VaultStore.delete, PropertyMap.lookup_remove]
  split <;> rfl

theorem VaultStore.Tidy.assign (h : store.Tidy env) (hname : FixedName env record.service)
    (hproto : record.service ≠ "__proto__") (hr : record.Checked) :
    (store.assign record).Tidy env := by
  have hmem : ∀ f ∈ (store.assign record).records,
      f ∈ store.records ∨ f = (record.service, record) := by
    rw [assign_records hproto]
    exact fun f => PropertyMap.mem_put
  refine ⟨?_, ?_, ?_, ?_⟩
  · rw [assign_records hproto]
    exact h.once.put _ _
  · intro f hf
    rcases hmem f hf with hf | rfl
    · exact h.fixed f hf
    · exact hname
  · intro f hf
    rcases hmem f hf with hf | rfl
    · exact h.proto f hf
    · exact hproto
  · intro f hf
    rcases hmem f hf with hf | rfl
    · exact h.checked f hf
    · exact hr

theorem VaultStore.Tidy.delete (h : store.Tidy env) (service : String) :
    (store.delete service).Tidy env where
  once := h.once.remove service
  fixed := fun f hf => h.fixed f (PropertyMap.mem_remove hf)
  proto := fun f hf => h.proto f (PropertyMap.mem_remove hf)
  checked := fun f hf => h.checked f (PropertyMap.mem_remove hf)

end Assign

section Entry

theorem normalizeEntry_checked {now : Nat} {key : String} {entry : Value} {r : CredentialRecord}
    (h : normalizeEntry env now key entry = .ok (some r)) : r.Checked := by
  unfold normalizeEntry at h
  obtain ⟨service, -, h⟩ := Js.exists_of_bind_ok h
  obtain ⟨identifier, hidentifier, h⟩ := Js.exists_of_bind_ok h
  obtain ⟨secret, -, h⟩ := Js.exists_of_bind_ok h
  obtain ⟨mode, -, h⟩ := Js.exists_of_bind_ok h
  obtain ⟨website, -, h⟩ := Js.exists_of_bind_ok h
  obtain ⟨strategy, -, h⟩ := Js.exists_of_bind_ok h
  obtain ⟨source, -, h⟩ := Js.exists_of_bind_ok h
  obtain ⟨created, -, h⟩ := Js.exists_of_bind_ok h
  obtain ⟨updated, -, h⟩ := Js.exists_of_bind_ok h
  split at h
  · cases h
  · split at h
    · cases h
    · next hok =>
      cases h
      obtain ⟨text, -, htrim⟩ := Js.exists_of_bind_ok hidentifier
      cases htrim
      refine ⟨Js.trim_trim _, fun hempty => hok (.inl hempty), fun hmode hblank => ?_⟩
      exact hok (.inr ⟨hblank, hmode⟩)

/-- The properties a record is written with are texts and numbers. -/
theorem get?_toValue (r : CredentialRecord) (key : String) (v : Value)
    (h : r.toValue.get? key = some v) : (∃ s, v = .str s) ∨ ∃ q, v = .num q := by
  have hmem := PropertyMap.mem_of_lookup h
  simp only [List.mem_append, List.mem_cons, List.not_mem_nil, or_false, List.mem_map,
    Prod.mk.injEq] at hmem
  grind

theorem exists_text (rt : Js.Runtime) {v : Option Value}
    (h : ∀ x, v = some x → (∃ s, x = .str s) ∨ ∃ q, x = .num q) :
    ∃ t, textOrEmpty rt v = .ok t := by
  cases v with
  | none => exact ⟨_, rfl⟩
  | some x =>
    rcases h x rfl with ⟨s, rfl⟩ | ⟨q, rfl⟩
    · exact ⟨s, by simp⟩
    · exact ⟨rt.numberText q, by simp [textOrEmpty, Value.text]⟩

theorem exists_trimmed (rt : Js.Runtime) {v : Option Value}
    (h : ∀ x, v = some x → (∃ s, x = .str s) ∨ ∃ q, x = .num q) :
    ∃ t, trimmedText rt [v] = .ok t := by
  obtain ⟨t, ht⟩ := exists_text rt h
  rw [Value.trimmedText_single, ht]
  exact ⟨_, rfl⟩

theorem exists_number (rt : Js.Runtime) (q : Js.Num) {v : Option Value}
    (h : ∀ x, v = some x → (∃ s, x = .str s) ∨ ∃ q, x = .num q) :
    ∃ n, Value.number rt (coalesce [v, some (.num q)]) = .ok n := by
  cases v with
  | none => exact ⟨_, rfl⟩
  | some x =>
    rcases h x rfl with ⟨s, rfl⟩ | ⟨q, rfl⟩ <;> exact ⟨_, rfl⟩

theorem parseAuthMode_text (rt : Js.Runtime) (mode : CredentialAuthMode) :
    parseAuthMode (rt.toLowerCase (trim mode.text)) = mode := by
  have hchars : mode.text.toList.all isServiceChar = true := by cases mode <;> decide
  have hlower : rt.toLowerCase (trim mode.text) = mode.text :=
    Js.lower_trim_of_codes rt fun c hc => isServiceChar_toNat (List.all_eq_true.mp hchars c hc)
  rw [hlower]
  cases mode <;> decide

/-- A record that passes its checks under a fixed name is read back from its JSON. -/
theorem normalizeEntry_toValue (now : Nat) (key : String) {r : CredentialRecord}
    (hname : FixedName env r.service) (hr : r.Checked) :
    ∃ r', normalizeEntry env now key r.toValue = .ok (some r') ∧ r'.service = r.service ∧
      r'.credential = r.credential := by
  have hget := get?_toValue r
  obtain ⟨website, hwebsite⟩ := exists_trimmed env.rt (hget "websiteUrl")
  obtain ⟨strategy, hstrategy⟩ := exists_trimmed env.rt (hget "mfaStrategy")
  obtain ⟨source, hsource⟩ := exists_text env.rt (hget "mfaSourceService")
  obtain ⟨created, hcreated⟩ := exists_number env.rt (.fin now) (hget "createdAt")
  obtain ⟨updated, hupdated⟩ := exists_number env.rt (.fin now) (hget "updatedAt")
  have hservice : r.toValue.get? "service" = some (.str r.service) := rfl
  have hidentifier : r.toValue.get? "identifier" = some (.str r.identifier) := rfl
  have hsecret : r.toValue.get? "secret" = some (.str r.secret) := rfl
  have hmode : r.toValue.get? "authMode" = some (.str r.authMode.text) := rfl
  have hkept : ¬ (r.identifier = "" ∨ trim r.secret = "" ∧ r.authMode = .password) := by
    rintro (hempty | ⟨hblank, hpassword⟩)
    · exact hr.named hempty
    · exact hr.secret hpassword hblank
  unfold normalizeEntry
  rw [hwebsite, hstrategy, hsource, hcreated, hupdated, hservice, hidentifier, hsecret, hmode]
  simp only [coalesce, Value.textOrEmpty_str, Value.trimmedText_str, Js.ok_bind,
    parseAuthMode_text, hr.trimmed]
  rw [show normalizeSetupService env r.service = some r.service from hname]
  simp only [hkept, if_false]
  exact ⟨_, rfl, rfl, rfl⟩

end Entry

section Normalized

/-- What a store has as soon as it was normalized. -/
structure VaultStore.Normalized (store : VaultStore) : Prop where
  once : Keyed store.records
  proto : ∀ f ∈ store.records, f.1 ≠ "__proto__"
  checked : ∀ f ∈ store.records, f.2.Checked

theorem VaultStore.Normalized.tidy {store : VaultStore} (h : store.Normalized)
    (hfixed : store.FixedNames env) : store.Tidy env := ⟨h.once, hfixed, h.proto, h.checked⟩

theorem normalized_empty : createEmptyStore.Normalized :=
  ⟨List.nodup_nil, fun _ hf => absurd hf List.not_mem_nil, fun _ hf => absurd hf List.not_mem_nil⟩

theorem VaultStore.Normalized.assign {store : VaultStore} {record : CredentialRecord}
    (h : store.Normalized) (hr : record.Checked) : (store.assign record).Normalized := by
  by_cases hproto : record.service = "__proto__"
  · refine ⟨?_, ?_, ?_⟩ <;> rw [assign_proto hproto]
    · exact h.once
    · exact h.proto
    · exact h.checked
  · refine ⟨?_, ?_, ?_⟩ <;> rw [assign_records hproto]
    · exact h.once.put _ _
    · intro f hf
      rcases PropertyMap.mem_put hf with hf | rfl
      · exact h.proto f hf
      · exact hproto
    · intro f hf
      rcases PropertyMap.mem_put hf with hf | rfl
      · exact h.checked f hf
      · exact hr

theorem addEntry_normalized {now : Nat} {store store' : VaultStore} {f : String × Value}
    (h : addEntry env now store f = .ok store') (hs : store.Normalized) : store'.Normalized := by
  unfold addEntry at h
  split at h
  · obtain ⟨record, hrecord, h⟩ := Js.exists_of_bind_ok h
    cases record with
    | none =>
      cases h
      exact hs
    | some record =>
      cases h
      exact hs.assign (normalizeEntry_checked hrecord)
  · cases h
    exact hs

theorem normalizeStore_normalized {now : Nat} {raw : Value} {store : VaultStore}
    (h : normalizeStore env now raw = .ok store) : store.Normalized := by
  unfold normalizeStore at h
  split at h
  · rename_i records _
    have hempty := normalized_empty
    generalize createEmptyStore = start at h hempty
    generalize records.entries = entries at h
    induction entries generalizing start with
    | nil =>
      cases h
      exact hempty
    | cons f entries ih =>
      rw [List.foldlM_cons] at h
      obtain ⟨next, hnext, h⟩ := Js.exists_of_bind_ok h
      exact ih next (addEntry_normalized hnext hempty) h
  · cases h
    exact normalized_empty

end Normalized

section ReadBack

theorem addEntry_toValue (now : Nat) (store : VaultStore) {key : String} {r : CredentialRecord}
    (hname : FixedName env r.service) (hr : r.Checked) :
    ∃ r', addEntry env now store (key, r.toValue) = .ok (store.assign r') ∧
      r'.service = r.service ∧ r'.credential = r.credential := by
  obtain ⟨r', hnormal, hservice, hcredential⟩ := normalizeEntry_toValue now key hname hr
  refine ⟨r', ?_, hservice, hcredential⟩
  have hobject : r.toValue.isObject = true := rfl
  simp only [addEntry, hobject, if_true, hnormal, Js.ok_bind]
  rfl

/-- Tidy entries join the records one after the other. -/
theorem foldlM_addEntry (now : Nat) (list : List (String × CredentialRecord)) (hkeys : Keyed list)
    (hlist : ∀ f ∈ list, f.2.service = f.1 ∧ FixedName env f.1 ∧ f.1 ≠ "__proto__" ∧ f.2.Checked)
    (start : VaultStore) (hstart : start.FixedNames env) :
    ∃ store, (list.map fun f => (f.1, f.2.toValue)).foldlM (addEntry env now) start = .ok store ∧
      store.FixedNames env ∧
      ∀ service, store.credential? service =
        ((list.lookup service).map (·.credential)).or (start.credential? service) := by
  induction list generalizing start with
  | nil => exact ⟨start, rfl, hstart, fun _ => rfl⟩
  | cons f list ih =>
    obtain ⟨key, r⟩ := f
    obtain ⟨hservice, hname, hproto, hr⟩ := hlist (key, r) List.mem_cons_self
    dsimp only at hservice hname hproto hr
    subst hservice
    obtain ⟨hfresh, hkeys⟩ := List.nodup_cons.mp hkeys
    obtain ⟨r', hadd, hservice, hcredential⟩ := addEntry_toValue now start hname hr
    have hproto' : r'.service ≠ "__proto__" := by rwa [hservice]
    have hnext : (start.assign r').FixedNames env := by
      rw [VaultStore.FixedNames, assign_records hproto']
      intro f hf
      rcases PropertyMap.mem_put hf with hf | rfl
      · exact hstart f hf
      · dsimp only
        rwa [hservice]
    obtain ⟨store, hfold, hfixed, hall⟩ :=
      ih hkeys (fun f hf => hlist f (List.mem_cons_of_mem _ hf)) (start.assign r') hnext
    refine ⟨store, ?_, hfixed, fun service => ?_⟩
    · rw [List.map_cons, List.foldlM_cons, hadd]
      exact hfold
    · rw [hall, credential?_assign hproto', hservice, hcredential, Value.lookup_cons_if]
      by_cases hsame : service = r.service
      · have habsent : list.lookup service = none := by
          rw [List.lookup_eq_none_iff]
          intro f hf
          rw [bne_iff_ne]
          intro heq
          exact hfresh (List.mem_map.mpr ⟨f, hf, by rw [← heq, hsame]⟩)
        simp [hsame ▸ habsent, hsame]
      · simp [hsame]

/-- Reading a tidy store back gives the same credentials under the same names. -/
theorem normalizeStore_toValue (now : Nat) {store : VaultStore} (h : store.Tidy env) :
    ∃ store', normalizeStore env now store.toValue = .ok store' ∧ store'.FixedNames env ∧
      ∀ service, store'.credential? service = store.credential? service := by
  have hlist : ∀ f ∈ PropertyMap.entries store.records.entries,
      f.2.service = f.1 ∧ FixedName env f.1 ∧ f.1 ≠ "__proto__" ∧ f.2.Checked := by
    intro f hf
    have hf := PropertyMap.mem_entries.mp (PropertyMap.mem_entries.mp hf)
    exact ⟨store.keyed f hf, h.fixed f hf, h.proto f hf, h.checked f hf⟩
  obtain ⟨store', hfold, hfixed, hall⟩ :=
    foldlM_addEntry now _ h.once.entries.entries hlist createEmptyStore fun _ hf => absurd hf List.not_mem_nil
  refine ⟨store', ?_, hfixed, fun service => ?_⟩
  · rw [← PropertyMap.entries_map] at hfold
    exact hfold
  · have hnone : createEmptyStore.credential? service = none := rfl
    rw [hall, h.once.entries.lookup_entries, h.once.lookup_entries, hnone, Option.or_none]
    rfl

end ReadBack

end T560.Vault
