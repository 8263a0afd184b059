import T560.Config.Normalize

/-!
# Reading the configuration back

What each normalizer makes of its own result once that has gone through its JSON text. All but
four of them return it as it is; `reread` says what the four return.
-/

namespace T560.Config

open Js (Value PropertyMap JsError Runtime)
open Js.Value (ofFields ofRecord ofTexts trimmedText number serialized)

variable {rt : Runtime}

section Fields

@[simp]
theorem objectOf_none : objectOf none = none := rfl

@[simp]
theorem objectOf_ofFields (fields : List (String × Option Value)) :
    objectOf (some (ofFields fields)) = some (ofFields fields) := rfl

@[simp]
theorem objectOf_ofRecord {α : Type} (g : α → Value) (record : PropertyMap α) :
    objectOf (some (ofRecord g record)) = some (ofRecord g record) := rfl

theorem objectOf_eq_some {raw : Option Value} {obj : Value} (h : objectOf raw = some obj) :
    raw = some obj ∧ obj.isObject = true := Option.filter_eq_some_iff.mp h

theorem isObject_serialized {v : Value} (h : v.isObject = true) : v.serialized.isObject = true := by
  cases v with
  | arr xs => simp [serialized, Value.isObject]
  | obj fields => simp [serialized, Value.isObject]
  | _ => cases h

theorem objectOf_again (raw : Option Value) :
    objectOf ((objectOf raw).map serialized) = (objectOf raw).map serialized := by
  cases h : objectOf raw with
  | none => rfl
  | some obj =>
    exact Option.filter_eq_some_iff.mpr ⟨rfl, isObject_serialized (objectOf_eq_some h).2⟩

theorem enabled_again (b : Bool) : (some (Value.bool b) != some (Value.bool false)) = b := by
  cases b <;> decide

@[simp]
theorem stringOf_again (o : Option String) :
    stringOf ((o.map Value.str).map serialized) = o := by
  cases o <;> simp [stringOf, Value.str?, serialized]

@[simp]
theorem boolOf_again (o : Option Bool) : boolOf ((o.map Value.bool).map serialized) = o := by
  cases o <;> simp [boolOf, serialized]

theorem trimmedOf_eq_some {raw : Option Value} {s : String} (h : trimmedOf raw = some s) :
    Js.trim s = s ∧ s ≠ "" := by
  obtain ⟨hs, hne⟩ := Option.filter_eq_some_iff.mp h
  obtain ⟨t, -, rfl⟩ := Option.map_eq_some_iff.mp hs
  exact ⟨Js.trim_trim t, by simpa using hne⟩

@[simp]
theorem trimmedOf_again (raw : Option Value) :
    trimmedOf (((trimmedOf raw).map Value.str).map serialized) = trimmedOf raw := by
  cases h : trimmedOf raw with
  | none => rfl
  | some s =>
    obtain ⟨htrim, hne⟩ := trimmedOf_eq_some h
    rw [trimmedOf, stringOf_again]
    simp [htrim, hne]

@[simp]
theorem flooredOf_again (least : Int) (raw : Option Value) :
    flooredOf least (((flooredOf least raw).map intValue).map serialized) = flooredOf least raw := by
  cases h : flooredOf least raw with
  | none => rfl
  | some n =>
    have hleast : least ≤ n := by
      unfold flooredOf at h
      split at h
      · cases h
        exact le_max_left _ _
      · cases h
    simp [flooredOf, intValue, serialized, hleast]

/-- The part of a number that its JSON text keeps. -/
def finiteOf : Option Js.Num → Option Js.Num
  | some (.fin q) => some (.fin q)
  | _ => none

@[simp]
theorem numOf_again (n : Option Js.Num) :
    numOf ((n.map Value.num).map serialized) = finiteOf n := by
  rcases n with _ | n
  · rfl
  · cases n <;> simp [numOf, serialized, finiteOf]

end Fields

section Lists

theorem mapM_text_strs (texts : List String) :
    (texts.map Value.str).mapM (fun v => v.text rt) = .ok texts := by
  rw [Js.mapM_ok_iff, List.forall₂_map_left_iff]
  exact List.forall₂_same.mpr fun s _ => by rw [Value.text]

theorem trimmedTexts_again {items : List Value} {values : List String}
    (h : trimmedTexts rt items = .ok values) :
    trimmedTexts rt (values.map .str) = .ok values := by
  obtain ⟨texts, -, h⟩ := Js.exists_of_bind_ok h
  cases h
  rw [trimmedTexts, mapM_text_strs, Js.ok_bind]
  have htrim : ∀ s ∈ (texts.map Js.trim).filter (fun s => s != ""), Js.trim s = s ∧ s ≠ "" := by
    intro s hs
    obtain ⟨hs, hne⟩ := List.mem_filter.mp hs
    obtain ⟨t, -, rfl⟩ := List.mem_map.mp hs
    exact ⟨Js.trim_trim t, by simpa using hne⟩
  have hmap : ((texts.map Js.trim).filter fun s => s != "").map Js.trim =
      (texts.map Js.trim).filter fun s => s != "" := by
    conv_rhs => rw [← List.map_id ((texts.map Js.trim).filter fun s => s != "")]
    exact List.map_congr_left fun s hs => (htrim s hs).1
  rw [hmap, List.filter_filter]
  simp only [Bool.and_self]
  rfl

@[simp]
theorem map_serialized_ofTexts (o : Option (List String)) :
    (o.map ofTexts).map serialized = o.map ofTexts := by
  cases o <;> simp

theorem normalizeStringList_again {raw : Option Value} {values : Option (List String)}
    (h : normalizeStringList rt raw = .ok values) :
    normalizeStringList rt (values.map ofTexts) = .ok values := by
  unfold normalizeStringList at h
  split at h
  · obtain ⟨texts, htexts, h⟩ := Js.exists_of_bind_ok h
    cases h
    split
    · rfl
    · next hne =>
      rw [Option.map_some, ofTexts, normalizeStringList, trimmedTexts_again htexts, Js.ok_bind,
        if_neg hne]
      rfl
  · cases h
    rfl

theorem normalizeModels_again {raw : Option Value} {values : Option (List String)}
    (h : normalizeModels rt raw = .ok values) :
    normalizeModels rt (values.map ofTexts) = .ok values := by
  unfold normalizeModels at h
  split at h
  · obtain ⟨texts, htexts, h⟩ := Js.exists_of_bind_ok h
    cases h
    rw [Option.map_some, ofTexts, normalizeModels, trimmedTexts_again htexts]
    rfl
  · cases h
    rfl

theorem normalizeToolPolicy_again {raw : Option Value} {policy : Option ToolPolicyConfig}
    (h : normalizeToolPolicy rt raw = .ok policy) :
    normalizeToolPolicy rt ((policy.map ToolPolicyConfig.toValue).map serialized) = .ok policy := by
  unfold normalizeToolPolicy at h
  cases hobj : objectOf raw with
  | none =>
    rw [hobj] at h
    cases h
    rfl
  | some obj =>
    rw [hobj] at h
    obtain ⟨allow, hallow, h⟩ := Js.exists_of_bind_ok h
    obtain ⟨deny, hdeny, h⟩ := Js.exists_of_bind_ok h
    cases h
    split
    · rfl
    · next hsome =>
      rw [Option.map_some, Option.map_some, ToolPolicyConfig.toValue,
        Value.serialized_ofFields (by simp; decide)]
      simp only [normalizeToolPolicy, objectOf_ofFields, List.map_cons, List.map_nil,
        Value.get?_ofFields_cons, Value.get?_ofFields_nil, String.reduceEq, if_true, if_false,
        Option.or_none, map_serialized_ofTexts, normalizeStringList_again hallow,
        normalizeStringList_again hdeny, Js.ok_bind, if_neg hsome]
      rfl

end Lists

section Records
variable {α β : Type}

theorem nonEmptyRecord_eq_some {record result : PropertyMap α}
    (h : nonEmptyRecord record = some result) : record = result ∧ record.isEmpty = false := by
  unfold nonEmptyRecord at h
  split at h
  · cases h
  · next hne => exact ⟨Option.some.inj h, by simpa using hne⟩

theorem nonEmptyRecord_of_not_empty {record : PropertyMap α} (h : record.isEmpty = false) :
    nonEmptyRecord record = some record := by
  rw [nonEmptyRecord, h]
  rfl

/-- Distinct names that are no `__proto__` are assigned one behind the other. -/
theorem foldl_put_keyed (entries : List (String × α)) (record : PropertyMap α)
    (hkeys : PropertyMap.Keyed (record ++ entries)) (hproto : ∀ f ∈ entries, f.1 ≠ "__proto__") :
    entries.foldl (fun record f => PropertyMap.put record f.1 f.2) record = record ++ entries := by
  induction entries generalizing record with
  | nil => simp
  | cons f entries ih =>
    have hnew : record.any (fun g => g.1 == f.1) = false := by
      rw [List.any_eq_false]
      intro g hg heq
      rw [PropertyMap.Keyed, List.map_append, List.map_cons] at hkeys
      exact (List.nodup_append.mp hkeys).2.2 g.1 (List.mem_map_of_mem hg) f.1 List.mem_cons_self
        (by simpa using heq)
    rw [List.foldl_cons, PropertyMap.put, if_neg (hproto f List.mem_cons_self), hnew,
      if_neg (by simp), ih]
    · simp
    · simpa using hkeys
    · exact fun g hg => hproto g (List.mem_cons_of_mem _ hg)

/-- What assigning leaves: every name once, in the engine's order, and `__proto__` never. -/
structure Assigned (record : PropertyMap α) : Prop where
  keyed : PropertyMap.Keyed record
  ordered : PropertyMap.entries record = record
  noProto : ∀ f ∈ record, f.1 ≠ "__proto__"

theorem assigned_assignAll (entries : List (String × α)) : Assigned (assignAll entries) := by
  have hall : ∀ record : PropertyMap α, PropertyMap.Keyed record →
      (∀ f ∈ record, f.1 ≠ "__proto__") →
      PropertyMap.Keyed (entries.foldl (fun record f => PropertyMap.put record f.1 f.2) record) ∧
        ∀ f ∈ entries.foldl (fun record f => PropertyMap.put record f.1 f.2) record,
          f.1 ≠ "__proto__" := by
    induction entries with
    | nil => exact fun record hk hp => ⟨hk, hp⟩
    | cons e entries ih =>
      intro record hk hp
      rw [List.foldl_cons]
      apply ih _ (hk.put e.1 e.2)
      intro f hf
      by_cases he : e.1 = "__proto__"
      · rw [PropertyMap.put, if_pos he] at hf
        exact hp f hf
      · rcases PropertyMap.mem_put hf with hf | rfl
        · exact hp f hf
        · exact he
  obtain ⟨hkeyed, hproto⟩ := hall [] List.nodup_nil (by simp)
  refine ⟨hkeyed.entries, PropertyMap.entries_entries _, fun f hf => ?_⟩
  exact hproto f (PropertyMap.mem_entries.mp hf)

theorem mem_of_mem_assignAll {entries : List (String × α)} {f : String × α}
    (h : f ∈ assignAll entries) : f ∈ entries := by
  have hall : ∀ record : PropertyMap α,
      f ∈ entries.foldl (fun record f => PropertyMap.put record f.1 f.2) record →
        f ∈ record ∨ f ∈ entries := by
    clear h
    induction entries with
    | nil => exact fun record hf => .inl hf
    | cons e entries ih =>
      intro record hf
      rw [List.foldl_cons] at hf
      rcases ih _ hf with hf | hf
      · rcases PropertyMap.mem_put hf with hf | rfl
        · exact .inl hf
        · exact .inr List.mem_cons_self
      · exact .inr (List.mem_cons_of_mem _ hf)
  rcases hall [] (PropertyMap.mem_entries.mp h) with hf | hf
  · cases hf
  · exact hf

theorem Assigned.map {record : PropertyMap α} (h : Assigned record) (g : String × α → β) :
    Assigned (record.map fun f => (f.1, g f)) := by
  refine ⟨?_, ?_, ?_⟩
  · rw [PropertyMap.Keyed, List.map_map]
    exact h.keyed
  · rw [PropertyMap.entries_mapWith, h.ordered]
  · intro f hf
    obtain ⟨e, he, rfl⟩ := List.mem_map.mp hf
    exact h.noProto e he

theorem Assigned.assignAll_eq {record : PropertyMap α} (h : Assigned record) :
    assignAll record = record := by
  rw [assignAll, foldl_put_keyed record [] h.keyed h.noProto, List.nil_append, h.ordered]

theorem map_self {record : PropertyMap α} {g : String × α → α} (h : ∀ e ∈ record, g e = e.2) :
    (record.map fun e => (e.1, g e)) = record := by
  conv_rhs => rw [← List.map_id record]
  exact List.map_congr_left fun e he => by rw [h e he]; rfl

end Records

section Providers

theorem normalizeHeaders_again {raw : Option Value} {headers : Option (PropertyMap String)}
    (h : normalizeHeaders rt raw = .ok headers) :
    normalizeHeaders rt ((headers.map (ofRecord Value.str)).map serialized) = .ok headers := by
  unfold normalizeHeaders at h
  cases hobj : objectOf raw with
  | none =>
    rw [hobj] at h
    cases h
    rfl
  | some obj =>
    rw [hobj] at h
    obtain ⟨pairs, -, h⟩ := Js.exists_of_bind_ok h
    have h' := Except.ok.inj h
    cases hsome : headers with
    | none => rfl
    | some record =>
      rw [hsome] at h'
      obtain ⟨hrecord, hne⟩ := nonEmptyRecord_eq_some h'
      have hkept : ∀ f ∈ record, (Js.trim f.1 != "" && Js.trim f.2 != "") = true := by
        intro f hf
        rw [← hrecord, PropertyMap.mem_entries] at hf
        exact (List.mem_filter.mp hf).2
      have hordered : PropertyMap.entries record = record := by
        rw [← hrecord, PropertyMap.entries_entries]
      rw [hrecord] at hne
      have hpairs : (record.map fun f => (f.1, Value.str f.2)).mapM
          (fun f => do return (f.1, ← f.2.text rt)) = .ok record := by
        rw [Js.mapM_ok_iff, List.forall₂_map_left_iff]
        apply List.forall₂_same.mpr
        intro f _
        rw [Value.text]
        rfl
      simp only [Option.map_some, Value.serialized_ofRecord, hordered, normalizeHeaders,
        objectOf_ofRecord, Value.entries_ofRecord, serialized, hpairs, Js.ok_bind,
        List.filter_eq_self.mpr hkept, nonEmptyRecord_of_not_empty hne]
      rfl

/-- The profile after its text has been read back: a name the id gave is trimmed now. -/
def ProviderProfile.reread (providerId : String) (p : ProviderProfile) : ProviderProfile :=
  { p with
    provider := (trimmedOf (some (.str p.provider))).getD providerId
    compat := p.compat.map serialized }

theorem trimmedText_authMode (mode : ProviderAuthMode) :
    trimmedText rt [some (.str mode.text), some (.str "api_key")] = .ok mode.text := by
  rw [Value.trimmedText_str]
  cases mode <;> exact congrArg Except.ok (by decide)

theorem parseAuthMode_text (mode : ProviderAuthMode) : parseAuthMode mode.text = mode := by
  cases mode <;> decide

theorem normalizeProfile_again {providerId : String} {obj : Value} {p : ProviderProfile}
    (h : normalizeProfile rt providerId obj = .ok p) :
    normalizeProfile rt providerId p.toValue.serialized = .ok (p.reread providerId) := by
  obtain ⟨mode, -, h⟩ := Js.exists_of_bind_ok h
  obtain ⟨models, hmodels, h⟩ := Js.exists_of_bind_ok h
  obtain ⟨headers, hheaders, h⟩ := Js.exists_of_bind_ok h
  cases h
  rw [ProviderProfile.toValue, Value.serialized_ofFields (by simp; decide)]
  simp only [normalizeProfile, List.map_cons, List.map_nil, Value.get?_ofFields_cons,
    Value.get?_ofFields_nil, String.reduceEq, if_true, if_false, Option.or_none, Option.map_some,
    serialized, Option.some_or, map_serialized_ofTexts, normalizeModels_again hmodels,
    normalizeHeaders_again hheaders, trimmedText_authMode, parseAuthMode_text, Js.ok_bind,
    stringOf_again, trimmedOf_again, enabled_again, objectOf_again]
  rfl

/-- The record of profiles after its text has been read back. -/
def rereadProviders (providers : PropertyMap ProviderProfile) : PropertyMap ProviderProfile :=
  providers.map fun f => (f.1, f.2.reread f.1)

theorem normalizeProviders_again {raw : Option Value}
    {providers : Option (PropertyMap ProviderProfile)}
    (h : normalizeProviders rt raw = .ok providers) :
    normalizeProviders rt ((providers.map (ofRecord ProviderProfile.toValue)).map serialized) =
      .ok (providers.map rereadProviders) := by
  unfold normalizeProviders at h
  cases hobj : objectOf raw with
  | none =>
    rw [hobj] at h
    cases h
    rfl
  | some obj =>
    rw [hobj] at h
    obtain ⟨profiles, hprofiles, h⟩ := Js.exists_of_bind_ok h
    have h' := Except.ok.inj h
    cases hsome : providers with
    | none => rfl
    | some record =>
      rw [hsome] at h'
      obtain ⟨hrecord, hne⟩ := nonEmptyRecord_eq_some h'
      have hassigned : Assigned record := hrecord ▸ assigned_assignAll profiles
      have hagain : ∀ f ∈ record, normalizeProfile rt f.1 f.2.toValue.serialized =
          .ok (f.2.reread f.1) := by
        intro f hf
        rw [← hrecord] at hf
        obtain ⟨e, he, hef⟩ := Js.exists_of_mem_mapM hprofiles (mem_of_mem_assignAll hf)
        obtain ⟨p, hp, hef⟩ := Js.exists_of_bind_ok hef
        cases hef
        exact normalizeProfile_again hp
      rw [hrecord] at hne
      have hobjects : ∀ f ∈ record.map (fun f => (f.1, f.2.toValue.serialized)),
          f.2.isObject = true := by
        intro f hf
        obtain ⟨e, -, rfl⟩ := List.mem_map.mp hf
        exact isObject_serialized rfl
      have hmapM : (record.map fun f => (f.1, f.2.toValue.serialized)).mapM
          (fun f => do return (f.1, ← normalizeProfile rt f.1 f.2)) =
            .ok (rereadProviders record) := by
        rw [Js.mapM_ok_iff, List.forall₂_map_left_iff, rereadProviders, List.forall₂_map_right_iff]
        apply List.forall₂_same.mpr
        intro f hf
        rw [hagain f hf]
        rfl
      have hmap : Assigned (rereadProviders record) :=
        hassigned.map fun f => f.2.reread f.1
      have hne' : (rereadProviders record).isEmpty = false := by
        rw [rereadProviders, List.isEmpty_map]
        exact hne
      simp only [Option.map_some, Value.serialized_ofRecord, hassigned.ordered, normalizeProviders,
        objectOf_ofRecord, Value.entries_ofRecord, List.filter_eq_self.mpr hobjects, hmapM,
        Js.ok_bind, hmap.assignAll_eq, nonEmptyRecord_of_not_empty hne']
      rfl

end Providers

section Routing

theorem parseSlot_again (raw : Option Value) :
    parseSlot rt (((parseSlot rt raw).map RoutingTarget.toValue).map serialized) =
      parseSlot rt raw := by
  cases hslot : parseSlot rt raw with
  | none => rfl
  | some target =>
    obtain ⟨slot, -, h⟩ := Option.bind_eq_some_iff.mp hslot
    dsimp only at h
    split at h
    · cases h
    · next hvalues =>
      cases h
      rw [Option.map_some, Option.map_some, RoutingTarget.toValue,
        Value.serialized_ofFields (by simp; decide)]
      have htrim : ∀ o : Option String, Js.trim ((o.map Js.trim).getD "") =
          (o.map Js.trim).getD "" := by
        intro o
        cases o with
        | none => decide
        | some s => exact Js.trim_trim s
      simp only [parseSlot, List.map_cons, List.map_nil, Value.get?_ofFields_cons,
        Value.get?_ofFields_nil, String.reduceEq, if_true, if_false, Option.or_none,
        Option.map_some, serialized, Option.some_or, objectOf_ofFields, Option.bind_some, stringOf,
        Value.str?, Option.getD_some, htrim] at hvalues ⊢
      exact if_neg hvalues

theorem normalizeRouting_again (raw : Option Value) :
    normalizeRouting rt (((normalizeRouting rt raw).map RoutingConfig.toValue).map serialized) =
      normalizeRouting rt raw := by
  cases hrouting : normalizeRouting rt raw with
  | none => rfl
  | some routing =>
    obtain ⟨obj, -, h⟩ := Option.bind_eq_some_iff.mp hrouting
    dsimp only at h
    split at h
    · next hsome =>
      cases h
      rw [Option.map_some, Option.map_some, RoutingConfig.toValue,
        Value.serialized_ofFields (by simp; decide)]
      simp only [normalizeRouting, List.map_cons, List.map_nil, Value.get?_ofFields_cons,
        Value.get?_ofFields_nil, String.reduceEq, if_true, if_false, Option.or_none,
        objectOf_ofFields, Option.bind_some, parseSlot_again]
      exact if_pos hsome
    · cases h

end Routing

section Tools

theorem normalizeByProvider_again {raw : Option Value}
    {policies : Option (PropertyMap ToolPolicyConfig)}
    (h : normalizeByProvider rt raw = .ok policies) :
    normalizeByProvider rt ((policies.map (ofRecord ToolPolicyConfig.toValue)).map serialized) =
      .ok policies := by
  unfold normalizeByProvider at h
  cases hobj : objectOf raw with
  | none =>
    rw [hobj] at h
    cases h
    rfl
  | some obj =>
    rw [hobj] at h
    obtain ⟨pairs, hpairs, h⟩ := Js.exists_of_bind_ok h
    have h' := Except.ok.inj h
    cases hsome : policies with
    | none => rfl
    | some record =>
      rw [hsome] at h'
      obtain ⟨hrecord, hne⟩ := nonEmptyRecord_eq_some h'
      have hassigned : Assigned record := hrecord ▸ assigned_assignAll _
      rw [hrecord] at hne
      have hagain : ∀ f ∈ record, normalizeToolPolicy rt (some f.2.toValue.serialized) =
          .ok (some f.2) := by
        intro f hf
        rw [← hrecord] at hf
        obtain ⟨e, he, hef⟩ := List.mem_filterMap.mp (mem_of_mem_assignAll hf)
        obtain ⟨policy, hpolicy, rfl⟩ := Option.map_eq_some_iff.mp hef
        obtain ⟨x, -, hx⟩ := Js.exists_of_mem_mapM hpairs he
        obtain ⟨p, hp, hx⟩ := Js.exists_of_bind_ok hx
        cases hx
        dsimp only at hpolicy
        subst hpolicy
        exact normalizeToolPolicy_again hp
      have hmapM : (record.map fun f => (f.1, f.2.toValue.serialized)).mapM
          (fun f => do return (f.1, ← normalizeToolPolicy rt (some f.2))) =
            .ok (record.map fun f => (f.1, some f.2)) := by
        rw [Js.mapM_ok_iff, List.forall₂_map_left_iff, List.forall₂_map_right_iff]
        apply List.forall₂_same.mpr
        intro f hf
        rw [hagain f hf]
        rfl
      have hkept : (record.map fun f => (f.1, some f.2)).filterMap
          (fun f => f.2.map fun policy => (f.1, policy)) = record := by
        rw [List.filterMap_map]
        exact List.filterMap_some
      simp only [Option.map_some, Value.serialized_ofRecord, hassigned.ordered,
        normalizeByProvider, objectOf_ofRecord, Value.entries_ofRecord, hmapM, Js.ok_bind, hkept,
        hassigned.assignAll_eq, nonEmptyRecord_of_not_empty hne]
      rfl

/-- A name of ASCII characters without upper case is its own lower case. -/
theorem lower_eq_self {s : String} (hascii : s.toList.all Js.isAscii = true)
    (hlower : s.toList.map Char.toLower = s.toList) : rt.toLowerCase s = s := by
  rw [rt.lower_ascii s hascii, hlower, String.ofList_toList]

theorem parseProfile_again (profile : Option ToolProfileId) :
    ∃ text, trimmedText rt [(profile.map fun p => Value.str p.text).map serialized] = .ok text ∧
      parseProfile (rt.toLowerCase text) = profile := by
  cases profile with
  | none => exact ⟨"", rfl, by rw [rt.toLowerCase_empty]; decide⟩
  | some p =>
    refine ⟨p.text, ?_, ?_⟩
    · rw [Option.map_some, Option.map_some, serialized, Value.trimmedText_str]
      cases p <;> exact congrArg Except.ok (by decide)
    · have hlower : rt.toLowerCase p.text = p.text := by
        cases p <;> exact lower_eq_self (by decide) (by decide)
      rw [hlower]
      cases p <;> decide

theorem parseSearchProvider_again (provider : Option WebSearchProvider) :
    ∃ text, trimmedText rt [(provider.map fun p => Value.str p.text).map serialized] = .ok text ∧
      parseSearchProvider (rt.toLowerCase text) = provider := by
  cases provider with
  | none => exact ⟨"", rfl, by rw [rt.toLowerCase_empty]; decide⟩
  | some p =>
    refine ⟨p.text, ?_, ?_⟩
    · rw [Option.map_some, Option.map_some, serialized, Value.trimmedText_str]
      cases p <;> exact congrArg Except.ok (by decide)
    · have hlower : rt.toLowerCase p.text = p.text := by
        cases p <;> exact lower_eq_self (by decide) (by decide)
      rw [hlower]
      cases p <;> decide

theorem normalizeSearch_again {raw : Option Value} {search : Option WebSearchToolConfig}
    (h : normalizeSearch rt raw = .ok search) :
    normalizeSearch rt ((search.map WebSearchToolConfig.toValue).map serialized) = .ok search := by
  unfold normalizeSearch at h
  cases hobj : objectOf raw with
  | none =>
    rw [hobj] at h
    cases h
    rfl
  | some obj =>
    rw [hobj] at h
    obtain ⟨providerRaw, -, h⟩ := Js.exists_of_bind_ok h
    cases h
    obtain ⟨text, htext, hparse⟩ :=
      @parseSearchProvider_again rt (parseSearchProvider (rt.toLowerCase providerRaw))
    rw [Option.map_some, Option.map_some, WebSearchToolConfig.toValue,
      Value.serialized_ofFields (by simp; decide)]
    simp only [normalizeSearch, List.map_cons, List.map_nil, Value.get?_ofFields_cons,
      Value.get?_ofFields_nil, String.reduceEq, if_true, if_false, Option.or_none,
      objectOf_ofFields, htext, hparse, Js.ok_bind, boolOf_again, trimmedOf_again, flooredOf_again]
    rfl

theorem normalizeFetch_again (raw : Option Value) :
    normalizeFetch (((normalizeFetch raw).map WebFetchToolConfig.toValue).map serialized) =
      normalizeFetch raw := by
  unfold normalizeFetch
  cases objectOf raw with
  | none => rfl
  | some obj =>
    rw [Option.map_some, Option.map_some, Option.map_some, WebFetchToolConfig.toValue,
      Value.serialized_ofFields (by simp; decide)]
    simp only [List.map_cons, List.map_nil, Value.get?_ofFields_cons, Value.get?_ofFields_nil,
      String.reduceEq, if_true, if_false, Option.or_none, objectOf_ofFields, Option.map_some,
      boolOf_again, flooredOf_again]

theorem normalizeWeb_again {raw : Option Value} {web : Option WebToolsConfig}
    (h : normalizeWeb rt raw = .ok web) :
    normalizeWeb rt ((web.map WebToolsConfig.toValue).map serialized) = .ok web := by
  unfold normalizeWeb at h
  cases hobj : objectOf raw with
  | none =>
    rw [hobj] at h
    cases h
    rfl
  | some obj =>
    rw [hobj] at h
    obtain ⟨search, hsearch, h⟩ := Js.exists_of_bind_ok h
    cases h
    rw [Option.map_some, Option.map_some, WebToolsConfig.toValue,
      Value.serialized_ofFields (by simp; decide)]
    simp only [normalizeWeb, List.map_cons, List.map_nil, Value.get?_ofFields_cons,
      Value.get?_ofFields_nil, String.reduceEq, if_true, if_false, Option.or_none,
      objectOf_ofFields, normalizeSearch_again hsearch, normalizeFetch_again, Js.ok_bind]
    rfl

theorem normalizeFs_again (raw : Option Value) :
    normalizeFs (((normalizeFs raw).map FsConfig.toValue).map serialized) = normalizeFs raw := by
  unfold normalizeFs
  cases objectOf raw with
  | none => rfl
  | some obj =>
    rw [Option.map_some, Option.map_some, Option.map_some, FsConfig.toValue,
      Value.serialized_ofFields (by simp; decide)]
    simp only [List.map_cons, List.map_nil, Value.get?_ofFields_cons, Value.get?_ofFields_nil,
      if_true, Option.or_none, objectOf_ofFields, Option.map_some, boolOf_again]

/-- A timeout that is not finite does not survive its text. -/
def ExecConfig.reread (e : ExecConfig) : ExecConfig := { e with timeoutSec := finiteOf e.timeoutSec }

theorem normalizeExec_again (exec : Option ExecConfig) :
    normalizeExec ((exec.map ExecConfig.toValue).map serialized) = exec.map ExecConfig.reread := by
  cases exec with
  | none => rfl
  | some exec =>
    rw [Option.map_some, Option.map_some, ExecConfig.toValue,
      Value.serialized_ofFields (by simp; decide)]
    simp only [normalizeExec, List.map_cons, List.map_nil, Value.get?_ofFields_cons,
      Value.get?_ofFields_nil, String.reduceEq, if_true, if_false, Option.or_none,
      objectOf_ofFields, Option.map_some, boolOf_again, numOf_again]
    rfl

theorem normalizeSelfProtection_again {raw : Option Value}
    {selfProtection : Option SelfProtectionConfig}
    (h : normalizeSelfProtection rt raw = .ok selfProtection) :
    normalizeSelfProtection rt
        ((selfProtection.map SelfProtectionConfig.toValue).map serialized) =
      .ok selfProtection := by
  unfold normalizeSelfProtection at h
  cases hobj : objectOf raw with
  | none =>
    rw [hobj] at h
    cases h
    rfl
  | some obj =>
    rw [hobj] at h
    obtain ⟨paths, hpaths, h⟩ := Js.exists_of_bind_ok h
    cases h
    rw [Option.map_some, Option.map_some, SelfProtectionConfig.toValue,
      Value.serialized_ofFields (by simp; decide)]
    simp only [normalizeSelfProtection, List.map_cons, List.map_nil, Value.get?_ofFields_cons,
      Value.get?_ofFields_nil, String.reduceEq, if_true, if_false, Option.or_none,
      objectOf_ofFields, map_serialized_ofTexts, normalizeStringList_again hpaths, Js.ok_bind,
      boolOf_again, trimmedOf_again]
    rfl

def ToolsConfig.reread (t : ToolsConfig) : ToolsConfig :=
  { t with exec := t.exec.map ExecConfig.reread }

theorem normalizeTools_again {raw : Option Value} {tools : Option ToolsConfig}
    (h : normalizeTools rt raw = .ok tools) :
    normalizeTools rt ((tools.map ToolsConfig.toValue).map serialized) =
      .ok (tools.map ToolsConfig.reread) := by
  unfold normalizeTools at h
  cases hobj : objectOf raw with
  | none =>
    rw [hobj] at h
    cases h
    rfl
  | some obj =>
    rw [hobj] at h
    obtain ⟨byProvider, hby, h⟩ := Js.exists_of_bind_ok h
    obtain ⟨profileRaw, -, h⟩ := Js.exists_of_bind_ok h
    obtain ⟨web, hweb, h⟩ := Js.exists_of_bind_ok h
    obtain ⟨allow, hallow, h⟩ := Js.exists_of_bind_ok h
    obtain ⟨alsoAllow, halso, h⟩ := Js.exists_of_bind_ok h
    obtain ⟨deny, hdeny, h⟩ := Js.exists_of_bind_ok h
    obtain ⟨runtime, hruntime, h⟩ := Js.exists_of_bind_ok h
    obtain ⟨selfProtection, hself, h⟩ := Js.exists_of_bind_ok h
    cases h
    obtain ⟨text, htext, hparse⟩ :=
      @parseProfile_again rt (parseProfile (rt.toLowerCase profileRaw))
    rw [Option.map_some, Option.map_some, ToolsConfig.toValue,
      Value.serialized_ofFields (by simp; decide)]
    simp only [normalizeTools, List.map_cons, List.map_nil, Value.get?_ofFields_cons,
      Value.get?_ofFields_nil, String.reduceEq, if_true, if_false, Option.or_none,
      objectOf_ofFields, map_serialized_ofTexts, normalizeStringList_again hallow,
      normalizeStringList_again halso, normalizeStringList_again hdeny,
      normalizeToolPolicy_again hruntime, normalizeByProvider_again hby, normalizeWeb_again hweb,
      normalizeSelfProtection_again hself, normalizeFs_again, normalizeExec_again, htext, hparse,
      Js.ok_bind, boolOf_again]
    rfl

end Tools

section Skills

theorem normalizeSkillsEntry_again (e : SkillsEntryConfig) :
    ({ enabled := boolOf (e.toValue.serialized.get? "enabled") } : SkillsEntryConfig) = e := by
  rw [SkillsEntryConfig.toValue, Value.serialized_ofFields (by simp; decide)]
  simp only [List.map_cons, List.map_nil, Value.get?_ofFields_cons, Value.get?_ofFields_nil,
    if_true, Option.or_none, boolOf_again]

theorem normalizeSkillsEntries_again (raw : Option Value) :
    normalizeSkillsEntries
        (((normalizeSkillsEntries raw).map (ofRecord SkillsEntryConfig.toValue)).map serialized) =
      normalizeSkillsEntries raw := by
  cases hsome : normalizeSkillsEntries raw with
  | none => rfl
  | some record =>
    obtain ⟨obj, -, h⟩ := Option.bind_eq_some_iff.mp hsome
    obtain ⟨hrecord, hne⟩ := nonEmptyRecord_eq_some h
    have hassigned : Assigned record := hrecord ▸ assigned_assignAll _
    rw [hrecord] at hne
    have hobjects : ∀ f ∈ record.map (fun f => (f.1, f.2.toValue.serialized)),
        f.2.isObject = true := by
      intro f hf
      obtain ⟨e, -, rfl⟩ := List.mem_map.mp hf
      exact isObject_serialized rfl
    have hmap : ((record.map fun f => (f.1, f.2.toValue.serialized)).map fun f =>
        (f.1, ({ enabled := boolOf (f.2.get? "enabled") } : SkillsEntryConfig))) = record := by
      rw [List.map_map]
      exact map_self fun e _ => normalizeSkillsEntry_again e.2
    simp only [Option.map_some, Value.serialized_ofRecord, hassigned.ordered,
      normalizeSkillsEntries, objectOf_ofRecord, Option.bind_some, Value.entries_ofRecord,
      List.filter_eq_self.mpr hobjects, hmap, hassigned.assignAll_eq,
      nonEmptyRecord_of_not_empty hne]

theorem normalizeSkills_again {raw : Option Value} {skills : Option SkillsConfig}
    (h : normalizeSkills rt raw = .ok skills) :
    normalizeSkills rt ((skills.map SkillsConfig.toValue).map serialized) = .ok skills := by
  unfold normalizeSkills at h
  cases hobj : objectOf raw with
  | none =>
    rw [hobj] at h
    cases h
    rfl
  | some obj =>
    rw [hobj] at h
    obtain ⟨allow, hallow, h⟩ := Js.exists_of_bind_ok h
    obtain ⟨dirs, hdirs, h⟩ := Js.exists_of_bind_ok h
    cases h
    rw [Option.map_some, Option.map_some, SkillsConfig.toValue,
      Value.serialized_ofFields (by simp; decide)]
    simp only [normalizeSkills, List.map_cons, List.map_nil, Value.get?_ofFields_cons,
      Value.get?_ofFields_nil, String.reduceEq, if_true, if_false, Option.or_none,
      objectOf_ofFields, map_serialized_ofTexts, normalizeStringList_again hallow,
      normalizeStringList_again hdirs, normalizeSkillsEntries_again, Js.ok_bind]
    rfl

end Skills

section Budgets

/-- A token budget of zero does not survive being read again. -/
def UsageConfig.reread (u : UsageConfig) : UsageConfig :=
  { u with tokenBudget := u.tokenBudget.filter fun n => n != 0 }

theorem positiveOf_eq_some {n : Js.Num} {q : ℚ} (h : positiveOf n = some q) : 0 < q := by
  cases n with
  | fin p =>
    rw [positiveOf] at h
    split at h
    · next hp =>
      cases h
      exact hp
    · cases h
  | _ => cases h

theorem positiveOf_fin {q : ℚ} (h : 0 < q) : positiveOf (.fin q) = some q := if_pos h

/-- Reading back a floored budget: zero is no budget, anything else is as it was. -/
theorem floor_positive_again (n : Js.Num) :
    ∃ m, number rt ((((positiveOf n).map Int.floor).map intValue).map serialized) = .ok m ∧
      (positiveOf m).map Int.floor = ((positiveOf n).map Int.floor).filter fun n => n != 0 := by
  cases hn : positiveOf n with
  | none => exact ⟨.nan, rfl, rfl⟩
  | some q =>
    have hq := positiveOf_eq_some hn
    have hfloor : 0 ≤ ⌊q⌋ := Int.floor_nonneg.mpr hq.le
    refine ⟨.fin ⌊q⌋, by simp [number, intValue, serialized], ?_⟩
    by_cases hzero : ⌊q⌋ = 0
    · simp [positiveOf, hzero, Option.filter_some]
    · have hpos : (0 : ℚ) < (⌊q⌋ : ℚ) := by exact_mod_cast lt_of_le_of_ne hfloor (Ne.symm hzero)
      simp [positiveOf_fin hpos, hzero, Option.filter_some]

theorem positive_again (n : Js.Num) :
    ∃ m, number rt (((positiveOf n).map fun q => Value.num (.fin q)).map serialized) = .ok m ∧
      positiveOf m = positiveOf n := by
  cases hn : positiveOf n with
  | none => exact ⟨.nan, rfl, rfl⟩
  | some q =>
    exact ⟨.fin q, by simp [number, serialized], positiveOf_fin (positiveOf_eq_some hn)⟩

theorem usageOf_filter {tokens : Option Int} {cost : Option ℚ} {usage : UsageConfig}
    (h : usageOf tokens cost = some usage) :
    usageOf (tokens.filter fun n => n != 0) cost = some usage.reread := by
  unfold usageOf at h
  split at h
  · cases h
  · next hkept =>
    cases h
    unfold usageOf
    split
    · next hempty =>
      refine absurd ⟨?_, hempty.2⟩ hkept
      rcases tokens with _ | n
      · exact .inl rfl
      · by_cases hn : n = 0
        · exact .inr (congrArg some hn)
        · simp [hn] at hempty
    · rfl

theorem normalizeUsage_again {raw : Option Value} {usage : Option UsageConfig}
    (h : normalizeUsage rt raw = .ok usage) :
    normalizeUsage rt ((usage.map UsageConfig.toValue).map serialized) =
      .ok (usage.map UsageConfig.reread) := by
  unfold normalizeUsage at h
  split at h
  · obtain ⟨tokens, -, h⟩ := Js.exists_of_bind_ok h
    obtain ⟨cost, -, h⟩ := Js.exists_of_bind_ok h
    have h' := Except.ok.inj h
    cases hsome : usage with
    | none => rfl
    | some u =>
      rw [hsome] at h'
      have hu : u = ⟨(positiveOf tokens).map Int.floor, positiveOf cost⟩ := by
        unfold usageOf at h'
        split at h'
        · cases h'
        · exact (Option.some.inj h').symm
      obtain ⟨m, hm, htokens⟩ := @floor_positive_again rt tokens
      obtain ⟨k, hk, hcost⟩ := @positive_again rt cost
      have hread := usageOf_filter h'
      subst hu
      rw [Option.map_some, Option.map_some, UsageConfig.toValue,
        Value.serialized_ofFields (by simp; decide), ofFields, normalizeUsage]
      dsimp only
      rw [← ofFields]
      simp only [List.map_cons, List.map_nil, Value.get?_ofFields_cons, Value.get?_ofFields_nil,
        String.reduceEq, if_true, if_false, Option.or_none, hm, hk, Js.ok_bind, htokens, hcost,
        hread]
      rfl
  · cases h
    rfl

theorem normalizeAgents_again {raw : Option Value} {agents : Option AgentsConfig}
    (h : normalizeAgents rt raw = .ok agents) :
    normalizeAgents rt ((agents.map AgentsConfig.toValue).map serialized) = .ok agents := by
  unfold normalizeAgents at h
  split at h
  · cases h
    rfl
  · obtain ⟨n, -, h⟩ := Js.exists_of_bind_ok h
    have h' := Except.ok.inj h
    cases hsome : agents with
    | none => rfl
    | some a =>
      rw [hsome] at h'
      obtain ⟨k, hk, h'⟩ := Option.bind_eq_some_iff.mp h'
      split at h'
      · cases h'
      · next hzero =>
        cases h'
        obtain ⟨m, hm, hfloor⟩ := @floor_positive_again rt n
        rw [hk] at hm hfloor
        rw [Option.map_some, Option.map_some] at hm
        have hinner : (ofFields [("bootstrapMaxChars", some (intValue k))]).serialized =
            ofFields [("bootstrapMaxChars", some (intValue k).serialized)] :=
          Value.serialized_ofFields (by simp; decide)
        have hkept : (some k).filter (fun n => n != 0) = some k := by
          simp [Option.filter_some, hzero]
        rw [Option.map_some, Option.map_some, AgentsConfig.toValue,
          Value.serialized_ofFields (by simp; decide)]
        simp only [normalizeAgents, List.map_cons, List.map_nil, Option.map_some, hinner,
          Value.get?_ofFields_cons, Value.get?_ofFields_nil, if_true, Option.or_none,
          objectOf_ofFields, Option.bind_some, hm, hfloor, hkept, Js.ok_bind, if_neg hzero]
        rfl

end Budgets

section Channels

theorem lower_policy (policy : TelegramDmPolicy) : rt.toLowerCase policy.text = policy.text := by
  cases policy <;> exact lower_eq_self (by decide) (by decide)

theorem parseTelegramDmPolicy_again (policy : TelegramDmPolicy) :
    parseTelegramDmPolicy rt (some (.str policy.text)) = .ok policy := by
  have htext : trimmedText rt [some (.str policy.text), some (.str "pairing")] =
      .ok policy.text := by
    rw [Value.trimmedText_str]
    cases policy <;> exact congrArg Except.ok (by decide)
  rw [parseTelegramDmPolicy, htext, Js.ok_bind]
  dsimp only
  rw [lower_policy]
  cases policy <;> exact congrArg Except.ok (by decide)

/-- The senders after their text has been read back: the prefix is stripped once more. -/
def rereadSenders (senders : List String) : Option (List String) :=
  if ((senders.map senderOf).filter fun s => s != "").isEmpty then none
  else some ((senders.map senderOf).filter fun s => s != "")

theorem normalizeAllowFrom_again (allowFrom : Option (List String)) :
    normalizeAllowFrom rt (allowFrom.map ofTexts) = .ok (allowFrom.bind rereadSenders) := by
  cases allowFrom with
  | none => rfl
  | some senders =>
    rw [Option.map_some, ofTexts, normalizeAllowFrom, mapM_text_strs]
    rfl

theorem serialized_ints (ids : List Int) :
    (Value.arr (ids.map intValue)).serialized = .arr (ids.map intValue) := by
  rw [serialized, Value.serializedList_eq_map, List.map_map]
  rfl

theorem integerOf_intCast (n : Int) : integerOf (.fin (n : ℚ)) = some n := by
  simp [integerOf]

theorem normalizeChatIds_again {raw : Option Value} {ids : Option (List Int)}
    (h : normalizeChatIds rt raw = .ok ids) :
    normalizeChatIds rt ((ids.map fun ids => Value.arr (ids.map intValue)).map serialized) =
      .ok ids := by
  unfold normalizeChatIds at h
  split at h
  · obtain ⟨numbers, -, h⟩ := Js.exists_of_bind_ok h
    cases h
    split
    · rfl
    · next hne =>
      rw [Option.map_some, Option.map_some, serialized_ints, normalizeChatIds]
      have hnumbers : ((numbers.filterMap integerOf).map intValue).mapM
          (fun v => number rt (some v)) =
            .ok ((numbers.filterMap integerOf).map fun n : Int => Js.Num.fin n) := by
        rw [Js.mapM_ok_iff, List.forall₂_map_left_iff, List.forall₂_map_right_iff]
        apply List.forall₂_same.mpr
        intro n _
        rfl
      have hids : ((numbers.filterMap integerOf).map fun n : Int => Js.Num.fin n).filterMap
          integerOf = numbers.filterMap integerOf := by
        rw [List.filterMap_map]
        have : (integerOf ∘ fun n : Int => Js.Num.fin n) = some := funext integerOf_intCast
        rw [this, List.filterMap_some]
      dsimp only
      rw [hnumbers, Js.ok_bind, hids, if_neg hne]
      rfl
  · cases h
    rfl

def TelegramChannelConfig.reread (t : TelegramChannelConfig) : TelegramChannelConfig :=
  { t with allowFrom := t.allowFrom.bind rereadSenders }

def ChannelConfig.reread (c : ChannelConfig) : ChannelConfig := { telegram := c.telegram.reread }

theorem normalizeChannels_again {raw : Option Value} {channels : Option ChannelConfig}
    (h : normalizeChannels rt raw = .ok channels) :
    normalizeChannels rt ((channels.map ChannelConfig.toValue).map serialized) =
      .ok (channels.map ChannelConfig.reread) := by
  unfold normalizeChannels at h
  split at h
  · cases h
    rfl
  · next obj hobj =>
    obtain ⟨allowFrom, -, h⟩ := Js.exists_of_bind_ok h
    obtain ⟨ids, hids, h⟩ := Js.exists_of_bind_ok h
    obtain ⟨policy, -, h⟩ := Js.exists_of_bind_ok h
    cases h
    have hinner : ∀ t : TelegramChannelConfig, t.toValue.serialized =
        ofFields [("botToken", (t.botToken.map Value.str).map serialized),
          ("dmPolicy", (some (Value.str t.dmPolicy.text)).map serialized),
          ("allowFrom", (t.allowFrom.map ofTexts).map serialized),
          ("allowedChatIds", (t.allowedChatIds.map fun ids =>
            Value.arr (ids.map intValue)).map serialized)] := by
      intro t
      exact Value.serialized_ofFields (by simp; decide)
    rw [Option.map_some, Option.map_some, ChannelConfig.toValue,
      Value.serialized_ofFields (by simp; decide)]
    simp only [normalizeChannels, List.map_cons, List.map_nil, Option.map_some, hinner,
      Value.get?_ofFields_cons, Value.get?_ofFields_nil, String.reduceEq, if_true, if_false,
      Option.or_none, Option.some_or, objectOf_ofFields, Option.bind_some, serialized,
      map_serialized_ofTexts, normalizeAllowFrom_again, normalizeChatIds_again hids,
      parseTelegramDmPolicy_again, stringOf_again, Js.ok_bind]
    rfl

theorem normalizePresets_again (raw : Option Value) :
    normalizePresets (((normalizePresets raw).map ModelPresets.toValue).map serialized) =
      normalizePresets raw := by
  unfold normalizePresets
  cases objectOf raw with
  | none => rfl
  | some obj =>
    rw [Option.map_some, Option.map_some, Option.map_some, ModelPresets.toValue,
      Value.serialized_ofFields (by simp; decide)]
    simp only [List.map_cons, List.map_nil, Value.get?_ofFields_cons, Value.get?_ofFields_nil,
      String.reduceEq, if_true, if_false, Option.or_none, objectOf_ofFields, Option.map_some,
      stringOf_again]

end Channels

/-- The configuration after its text has been read back. -/
def T560Config.reread (c : T560Config) : T560Config :=
  { c with
    providers := c.providers.map rereadProviders
    channels := c.channels.map ChannelConfig.reread
    tools := c.tools.map ToolsConfig.reread
    usage := c.usage.map UsageConfig.reread }

theorem normalizeConfig_again {x : Value} {c : T560Config} (h : normalizeConfig rt x = .ok c) :
    normalizeConfig rt c.toValue.serialized = .ok c.reread := by
  rw [T560Config.toValue, Value.serialized_ofFields (by simp; decide)]
  unfold normalizeConfig at h
  split at h
  · cases h
    rfl
  · obtain ⟨providers, hproviders, h⟩ := Js.exists_of_bind_ok h
    obtain ⟨channels, hchannels, h⟩ := Js.exists_of_bind_ok h
    obtain ⟨tools, htools, h⟩ := Js.exists_of_bind_ok h
    obtain ⟨skills, hskills, h⟩ := Js.exists_of_bind_ok h
    obtain ⟨usage, husage, h⟩ := Js.exists_of_bind_ok h
    obtain ⟨agents, hagents, h⟩ := Js.exists_of_bind_ok h
    cases h
    simp only [normalizeConfig, List.map_cons, List.map_nil, Value.isObject_ofFields,
      Bool.not_true, Bool.false_eq_true, Value.get?_ofFields_cons, Value.get?_ofFields_nil,
      String.reduceEq, if_true, if_false, Option.or_none, normalizeProviders_again hproviders,
      normalizeChannels_again hchannels, normalizeTools_again htools,
      normalizeSkills_again hskills, normalizeUsage_again husage, normalizeAgents_again hagents,
      normalizeRouting_again, normalizePresets_again, stringOf_again, Js.ok_bind]
    rfl

end T560.Config
