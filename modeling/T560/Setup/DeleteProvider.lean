import T560.Config.RoundTrip
import T560.Setup.Providers

/-!
# Routes behind a deletion

Every route that a written configuration resolves to names the provider of one of the three routes
it was written with. A route stays when its provider answers in the record of the ones that are
left, and so do the names that every object answers to.
-/

namespace T560.Setup

open Channels (OBJECT_NAMES)
open Config
open Js (Value PropertyMap JsError Runtime trim)
open Js.Value (ofFields ofRecord serialized)

variable {rt : Runtime}

def providerIds (config : T560Config) : List String := (config.providers.getD []).map Prod.fst

section Reading

theorem getD_nonEmptyRecord {α : Type} (record : PropertyMap α) :
    (nonEmptyRecord record).getD [] = record := by
  cases record with
  | nil => rfl
  | cons f record => rfl

theorem assigned_of_read {x : Value} {config : T560Config} (h : normalizeConfig rt x = .ok config) :
    Assigned (config.providers.getD []) := by
  have hproviders := (normalizeConfig_fields h).1
  unfold normalizeProviders at hproviders
  split at hproviders
  · rw [← Except.ok.inj hproviders]
    exact ⟨List.nodup_nil, rfl, by simp⟩
  · obtain ⟨profiles, -, hproviders⟩ := Js.exists_of_bind_ok hproviders
    rw [← Except.ok.inj hproviders, getD_nonEmptyRecord]
    exact assigned_assignAll profiles

/-- The ids of written profiles are read back. -/
theorem mem_ids_of_written {record : PropertyMap ProviderProfile} (hkeyed : PropertyMap.Keyed record)
    (hproto : ∀ f ∈ record, f.1 ≠ "__proto__") {providers : Option (PropertyMap ProviderProfile)}
    (h : normalizeProviders rt (some (ofRecord ProviderProfile.toValue record)) = .ok providers)
    (id : String) : id ∈ (providers.getD []).map Prod.fst ↔ id ∈ record.map Prod.fst := by
  simp only [normalizeProviders, objectOf_ofRecord, Value.entries_ofRecord] at h
  obtain ⟨profiles, hprofiles, h⟩ := Js.exists_of_bind_ok h
  have hobjects : ∀ f ∈ (PropertyMap.entries record).map fun f => (f.1, f.2.toValue),
      f.2.isObject = true := by
    intro f hf
    obtain ⟨e, -, rfl⟩ := List.mem_map.mp hf
    rfl
  rw [List.filter_eq_self.mpr hobjects] at hprofiles
  have hids : profiles.map Prod.fst = (PropertyMap.entries record).map Prod.fst := by
    rw [map_fst_of_mapM hprofiles, List.map_map]
    rfl
  have hprofilesKeyed : PropertyMap.Keyed profiles := by
    rw [PropertyMap.Keyed, hids]
    exact hkeyed.entries
  rw [← Except.ok.inj h, getD_nonEmptyRecord]
  constructor
  · intro hid
    obtain ⟨f, hf, rfl⟩ := List.mem_map.mp hid
    have hmem : f.1 ∈ profiles.map Prod.fst :=
      List.mem_map_of_mem ((mem_assignAll_iff hprofilesKeyed).mp hf).1
    rw [hids] at hmem
    obtain ⟨e, he, hef⟩ := List.mem_map.mp hmem
    exact List.mem_map.mpr ⟨e, PropertyMap.mem_entries.mp he, hef⟩
  · intro hid
    obtain ⟨f, hf, rfl⟩ := List.mem_map.mp hid
    have hmem : f.1 ∈ profiles.map Prod.fst := by
      rw [hids]
      exact List.mem_map_of_mem (PropertyMap.mem_entries.mpr hf)
    obtain ⟨e, he, hef⟩ := List.mem_map.mp hmem
    refine List.mem_map.mpr ⟨e, (mem_assignAll_iff hprofilesKeyed).mpr ⟨he, ?_⟩, hef⟩
    rw [hef]
    exact hproto f hf

theorem routes_of_read {x : Value} {config : T560Config} (h : normalizeConfig rt x = .ok config)
    (hx : x.isObject = true) :
    config.provider = stringOf (x.get? "provider") ∧
      config.models = normalizePresets (x.get? "models") ∧
        config.routing = normalizeRouting rt (x.get? "routing") := by
  unfold normalizeConfig at h
  rw [hx] at h
  obtain ⟨_, -, h⟩ := Js.exists_of_bind_ok h
  obtain ⟨_, -, h⟩ := Js.exists_of_bind_ok h
  obtain ⟨_, -, h⟩ := Js.exists_of_bind_ok h
  obtain ⟨_, -, h⟩ := Js.exists_of_bind_ok h
  obtain ⟨_, -, h⟩ := Js.exists_of_bind_ok h
  obtain ⟨_, -, h⟩ := Js.exists_of_bind_ok h
  cases h
  exact ⟨rfl, rfl, rfl⟩

end Reading

section Written

/-- The routes of a configuration that was written with these. -/
structure Rerouted (rt : Runtime) (routes : RoutingConfig) (config : T560Config) : Prop where
  provider : config.provider = routes.default.map (·.provider)
  preset : ∀ slot, (config.models.bind fun m => m.slot slot) = (routes.slot slot).map routeText
  slot : ∀ slot, (config.routing.bind fun r => r.slot slot) =
    (routes.slot slot).bind fun t => parseSlot rt (some t.toValue)

theorem stringOf_map_str (o : Option String) : stringOf (o.map Value.str) = o := by
  cases o <;> rfl

theorem normalizePresets_toValue (m : ModelPresets) : normalizePresets (some m.toValue) = some m := by
  simp only [normalizePresets, ModelPresets.toValue, objectOf_ofFields, Option.map_some,
    Value.get?_ofFields_cons, Value.get?_ofFields_nil, String.reduceEq, if_true, if_false,
    Option.or_none, stringOf_map_str]

theorem slot_of_written (routes : RoutingConfig) (slot : Slot) :
    ((normalizeRouting rt (some routes.toValue)).bind fun r => r.slot slot) =
      (routes.slot slot).bind fun t => parseSlot rt (some t.toValue) := by
  have hnone : parseSlot rt none = none := rfl
  have hslot : ∀ o : Option RoutingTarget, parseSlot rt (o.map RoutingTarget.toValue) =
      o.bind fun t => parseSlot rt (some t.toValue) := by
    intro o
    cases o with
    | none => exact hnone
    | some t => rfl
  simp only [normalizeRouting, RoutingConfig.toValue, objectOf_ofFields, Option.bind_some,
    Value.get?_ofFields_cons, Value.get?_ofFields_nil, String.reduceEq, if_true, if_false,
    Option.or_none, hslot]
  split
  · cases slot <;> rfl
  · next hempty =>
    simp only [Bool.or_eq_true, not_or, Option.not_isSome_iff_eq_none] at hempty
    obtain ⟨⟨hdefault, hplanning⟩, hcoding⟩ := hempty
    cases slot
    · exact hdefault.symm
    · exact hplanning.symm
    · exact hcoding.symm

/-- A record of routes that is left out had none. -/
theorem slot_none {routes : RoutingConfig}
    (h : ¬ (routes.default.isSome || routes.planning.isSome || routes.coding.isSome) = true)
    (slot : Slot) : routes.slot slot = none := by
  simp only [Bool.or_eq_true, not_or, Option.not_isSome_iff_eq_none] at h
  obtain ⟨⟨hdefault, hplanning⟩, hcoding⟩ := h
  cases slot
  · exact hdefault
  · exact hplanning
  · exact hcoding

theorem rerouted_of_written {config written : T560Config} {providers : PropertyMap ProviderProfile}
    {routes : RoutingConfig}
    (h : normalizeConfig rt (nextConfig config providers routes).toValue = .ok written) :
    Rerouted rt routes written := by
  obtain ⟨hprovider, hmodels, hrouting⟩ := routes_of_read h rfl
  simp only [nextConfig, T560Config.toValue, Value.get?_ofFields_cons, Value.get?_ofFields_nil,
    String.reduceEq, if_true, if_false, Option.or_none, stringOf_map_str] at hprovider hmodels hrouting
  refine ⟨hprovider, fun slot => ?_, fun slot => ?_⟩
  · rw [hmodels]
    split
    · rw [Option.map_some, normalizePresets_toValue, Option.bind_some]
      cases slot <;> rfl
    · next hnone =>
      rw [slot_none hnone slot]
      rfl
  · rw [hrouting]
    split
    · exact slot_of_written routes slot
    · next hnone =>
      rw [slot_none hnone slot]
      rfl

end Written

section Resolving

/-- An id as the routes can write it: trimmed and without a slash. -/
def PlainId (id : String) : Prop := trim id = id ∧ '/' ∉ id.toList

theorem parseSlot_toValue (t : RoutingTarget) : parseSlot rt (some t.toValue) =
    if !hasRealValue rt (some (trim t.provider)) || !hasRealValue rt (some (trim t.model)) then none
    else some { provider := trim t.provider, model := trim t.model } := by
  simp only [parseSlot, RoutingTarget.toValue, objectOf_ofFields, Option.bind_some,
    Value.get?_ofFields_cons, Value.get?_ofFields_nil, String.reduceEq, if_true, if_false,
    Option.or_none, Option.some_or, stringOf, Value.str?, Option.map_some, Option.getD_some]

theorem provider_of_parseSlot {t target : RoutingTarget} (h : parseSlot rt (some t.toValue) = some target) :
    target.provider = trim t.provider := by
  rw [parseSlot_toValue] at h
  split at h
  · cases h
  · rw [← Option.some.inj h]

theorem headD_splitSlashes {p : String} (h : '/' ∉ p.toList) (rest : String) :
    (splitSlashes (p ++ "/" ++ rest)).headD "" = p := by
  have htext : (p ++ "/" ++ rest).toList = p.toList ++ '/' :: rest.toList := by simp
  rw [splitSlashes, htext, List.splitOn_append_cons_self_of_not_mem h]
  simp

/-- A preset that names a route by its text resolves to the provider of the route, or to the global
provider. -/
theorem provider_of_preset {config : T560Config} {slot : Slot} {route target : RoutingTarget}
    (hroute : PlainId route.provider) (hpreset : (config.models.bind fun m => m.slot slot) = some (routeText route))
    (h : resolveRouteFromModelPreset rt config slot = some target) :
    target.provider = route.provider ∨ config.provider.map trim = some target.provider := by
  rw [resolveRouteFromModelPreset, hpreset] at h
  simp only at h
  split at h
  · cases h
  split at h
  · next direct hdirect =>
    left
    rw [← Option.some.inj h]
    have hparse := (Option.filter_eq_some_iff.mp hdirect).1
    rw [parseModelRef] at hparse
    split_ifs at hparse
    dsimp only at hparse
    split_ifs at hparse
    rw [← Option.some.inj hparse]
    simp only [routeText, headD_splitSlashes hroute.2, hroute.1]
  · split at h
    · cases h
    · next providerId hprovider =>
      split at h
      · cases h
      · right
        rw [← Option.some.inj h, hprovider]

/-- Whatever a slot resolves to names the provider of one of the written routes. -/
theorem Rerouted.resolve {routes : RoutingConfig} {config : T560Config} (h : Rerouted rt routes config)
    (hplain : ∀ slot route, routes.slot slot = some route → PlainId route.provider) {slot : Slot}
    {target : RoutingTarget} (htarget : resolveRoutingTarget rt config slot = some target) :
    ∃ slot route, routes.slot slot = some route ∧ target.provider = route.provider := by
  have hfrom : ∀ slot t, fullTarget (config.routing.bind fun r => r.slot slot) = some t →
      ∃ slot route, routes.slot slot = some route ∧ t.provider = route.provider := by
    intro slot t ht
    have hslot := (Option.filter_eq_some_iff.mp ht).1
    rw [h.slot slot] at hslot
    obtain ⟨route, hroute, hparse⟩ := Option.bind_eq_some_iff.mp hslot
    exact ⟨slot, route, hroute, (provider_of_parseSlot hparse).trans (hplain slot route hroute).1⟩
  have hpreset : ∀ slot t, resolveRouteFromModelPreset rt config slot = some t →
      ∃ slot route, routes.slot slot = some route ∧ t.provider = route.provider := by
    intro slot t ht
    cases hroute : routes.slot slot with
    | none =>
      have hnone := h.preset slot
      rw [hroute, Option.map_none] at hnone
      rw [resolveRouteFromModelPreset, hnone] at ht
      cases ht
    | some route =>
      have hsome := h.preset slot
      rw [hroute, Option.map_some] at hsome
      rcases provider_of_preset (hplain slot route hroute) hsome ht with heq | hglobal
      · exact ⟨slot, route, hroute, heq⟩
      · rw [h.provider, Option.map_map] at hglobal
        obtain ⟨first, hfirst, heq⟩ := Option.map_eq_some_iff.mp hglobal
        exact ⟨.default, first, hfirst, heq.symm.trans (hplain .default first hfirst).1⟩
  obtain ⟨slot, ht | ht⟩ := resolve_cases htarget
  · exact hfrom slot target ht
  · exact hpreset slot target ht

end Resolving

section Real

theorem fullTarget_of_real {t : RoutingTarget} (h : RealTarget rt t) : fullTarget (some t) = some t := by
  have hprovider := ne_empty_of_real h.provider
  have hmodel := ne_empty_of_real h.model
  simp [Config.fullTarget, hprovider, hmodel]

theorem parseSlot_of_real {t : RoutingTarget} (h : RealTarget rt t) :
    parseSlot rt (some t.toValue) = some t := by
  rw [parseSlot_toValue, h.trimmed.1, h.trimmed.2, h.provider, h.model]
  rfl

end Real

section Rerouting

variable {providerId : String} {providers : PropertyMap ProviderProfile} {slot : Slot}

theorem answers_iff {id : String} : answers providers id = true ↔
    id ∈ providers.map Prod.fst ∨ id ∈ OBJECT_NAMES := by
  rw [answers, Bool.or_eq_true, List.contains_iff_mem, List.lookup_isSome_iff]
  refine or_congr ?_ Iff.rfl
  simp only [beq_iff_eq, List.mem_map]
  exact exists_congr fun f => and_congr_right' eq_comm

/-- A route stays where its provider answers. -/
theorem fallbackRoute_kept {current : RoutingTarget} (hreal : RealTarget rt current)
    (hne : current.provider ≠ providerId) (hanswers : answers providers current.provider = true) :
    fallbackRoute rt providerId providers (some current) slot = .ok (some current) := by
  rw [fallbackRoute]
  simp only [Option.map_some, Option.getD_some, hreal.trimmed.1, hreal.trimmed.2]
  rw [if_pos ⟨ne_empty_of_real hreal.provider, ne_empty_of_real hreal.model, hne, hanswers⟩]

/-- A route that is set names the provider it had, or the first one that is left. -/
theorem fallbackRoute_some {current : Option RoutingTarget} {route : RoutingTarget}
    (h : fallbackRoute rt providerId providers current slot = .ok (some route)) :
    (∃ t, current = some t ∧ route.provider = trim t.provider ∧ route.provider ≠ providerId ∧
        answers providers route.provider = true) ∨ route.provider ∈ providers.map Prod.fst := by
  rw [fallbackRoute] at h
  split at h
  · next hkept =>
    obtain rfl := Option.some.inj (Except.ok.inj h)
    left
    cases current with
    | none => exact absurd (by decide) hkept.1
    | some t => exact ⟨t, rfl, rfl, hkept.2.2.1, hkept.2.2.2⟩
  split at h
  · cases Except.ok.inj h
  · next hfirst =>
    right
    obtain ⟨model, -, h⟩ := Js.exists_of_bind_ok h
    have hroute := Except.ok.inj h
    obtain ⟨m, -, rfl⟩ := Option.map_eq_some_iff.mp hroute
    rw [not_or] at hfirst
    cases hhead : ((PropertyMap.entries providers).map Prod.fst).head? with
    | none =>
      rw [hhead] at hfirst
      exact absurd rfl hfirst.1
    | some id =>
      obtain ⟨f, hf, rfl⟩ := List.mem_map.mp (List.mem_of_mem_head? hhead)
      exact List.mem_map_of_mem (PropertyMap.mem_entries.mp hf)

end Rerouting

section Deletion

variable {config : T560Config} {providerId : String} {file : Value}

/-- What a deletion that succeeds has done. -/
theorem removed_cases {body : Option Value}
    (h : handleDeleteSetupProvider rt body config = .ok (.removed providerId file)) :
    ∃ routes written,
      nextRoutes rt config providerId (PropertyMap.remove (config.providers.getD []) providerId) =
          .ok routes ∧
        normalizeConfig rt (nextConfig config
          (PropertyMap.remove (config.providers.getD []) providerId) routes).toValue = .ok written ∧
          file = written.toValue.serialized := by
  unfold handleDeleteSetupProvider at h
  cases body with
  | none => cases h
  | some body =>
    simp only at h
    split at h
    · cases h
    obtain ⟨id, -, h⟩ := Js.exists_of_bind_ok h
    cases id with
    | none => cases h
    | some id =>
      simp only at h
      split at h
      · cases h
      obtain ⟨routes, hroutes, h⟩ := Js.exists_of_bind_ok h
      obtain ⟨out, hout, h⟩ := Js.exists_of_bind_ok h
      obtain ⟨written, hwritten, hfile⟩ := Js.exists_of_bind_ok hout
      cases h
      cases hfile
      exact ⟨routes, written, hroutes, hwritten, rfl⟩

theorem slot_of_nextRoutes {providers : PropertyMap ProviderProfile} {routes : RoutingConfig}
    (h : nextRoutes rt config providerId providers = .ok routes) (slot : Slot) :
    fallbackRoute rt providerId providers (resolveRoutingTarget rt config slot) slot =
      .ok (routes.slot slot) := by
  obtain ⟨defaultRoute, hdefault, h⟩ := Js.exists_of_bind_ok h
  obtain ⟨planningRoute, hplanning, h⟩ := Js.exists_of_bind_ok h
  obtain ⟨codingRoute, hcoding, h⟩ := Js.exists_of_bind_ok h
  cases h
  cases slot
  · exact hdefault
  · exact hplanning
  · exact hcoding

theorem mem_ids_remove (id : String) :
    id ∈ (PropertyMap.remove (config.providers.getD []) providerId).map Prod.fst ↔
      id ∈ providerIds config ∧ id ≠ providerId := by
  simp only [providerIds, PropertyMap.remove, List.mem_map, List.mem_filter, bne_iff_ne]
  constructor
  · rintro ⟨f, ⟨hf, hne⟩, rfl⟩
    exact ⟨⟨f, hf, rfl⟩, hne⟩
  · rintro ⟨⟨f, hf, rfl⟩, hne⟩
    exact ⟨f, ⟨hf, hne⟩, rfl⟩

/-- The ids behind a deletion are the others. -/
theorem mem_ids_of_deleted {written : T560Config} {routes : RoutingConfig}
    (hconfig : Assigned (config.providers.getD []))
    (h : normalizeConfig rt (nextConfig config
      (PropertyMap.remove (config.providers.getD []) providerId) routes).toValue = .ok written)
    (id : String) : id ∈ providerIds written.reread ↔ id ∈ providerIds config ∧ id ≠ providerId := by
  have hproviders := (normalizeConfig_fields h).1
  simp only [nextConfig, T560Config.toValue, Value.get?_ofFields_cons, Value.get?_ofFields_nil,
    String.reduceEq, if_true, if_false, Option.or_none, Option.map_some] at hproviders
  have hsame : providerIds written.reread = providerIds written := by
    rw [providerIds, providerIds, T560Config.reread]
    cases written.providers with
    | none => rfl
    | some record => simp [rereadProviders, List.map_map, Function.comp_def]
  rw [hsame, providerIds, mem_ids_of_written (hconfig.keyed.remove providerId)
    (fun f hf => hconfig.noProto f (List.mem_of_mem_filter hf)) hproviders]
  exact mem_ids_remove id

end Deletion

theorem plainId_object {id : String} (h : id ∈ OBJECT_NAMES) : PlainId id := by
  have hall : ∀ id ∈ OBJECT_NAMES, trim id = id ∧ '/' ∉ id.toList := by decide
  exact hall id h

/-- A provider that is only what every object answers to, and not the one that is deleted. -/
def OnlyInherited (config : T560Config) (providerId id : String) : Prop :=
  id ∈ OBJECT_NAMES ∧ id ∉ providerIds config ∧ id ≠ providerId

/-- A deletion leaves the other providers, and no route dangles exactly when none named something
that every object answers to. -/
theorem deletion_leaves_no_dangling_route_iff {x file : Value} {config reread : T560Config}
    {body : Option Value} {providerId : String} (hread : normalizeConfig rt x = .ok config)
    (hids : ∀ id ∈ providerIds config, PlainId id)
    (hdelete : handleDeleteSetupProvider rt body config = .ok (.removed providerId file))
    (hreread : normalizeConfig rt file = .ok reread) :
    (∀ id, id ∈ providerIds reread ↔ id ∈ providerIds config ∧ id ≠ providerId) ∧
      ((∀ slot target, resolveRoutingTarget rt reread slot = some target →
          target.provider ∈ providerIds reread) ↔
        ¬ ∃ slot target, resolveRoutingTarget rt config slot = some target ∧
          OnlyInherited config providerId target.provider) := by
  obtain ⟨routes, written, hroutes, hwritten, rfl⟩ := removed_cases hdelete
  obtain rfl : written.reread = reread :=
    Except.ok.inj ((normalizeConfig_again hwritten).symm.trans hreread)
  have hremaining := mem_ids_of_deleted (assigned_of_read hread) hwritten
  have hafter : Rerouted rt routes written.reread := by
    have h := rerouted_of_written hwritten
    exact ⟨h.provider, h.preset, h.slot⟩
  -- A route names a provider that is left, or stayed for an inherited name.
  have hroute : ∀ slot route, routes.slot slot = some route →
      (route.provider ∈ providerIds config ∧ route.provider ≠ providerId) ∨
        ∃ target, resolveRoutingTarget rt config slot = some target ∧
          target.provider = route.provider ∧ OnlyInherited config providerId route.provider := by
    intro slot route hslot
    have hfallback := slot_of_nextRoutes hroutes slot
    rw [hslot] at hfallback
    rcases fallbackRoute_some hfallback with ⟨t, ht, hprovider, hne, hanswers⟩ | hfirst
    · by_cases hid : route.provider ∈ providerIds config
      · exact Or.inl ⟨hid, hne⟩
      · right
        have hinherited := (answers_iff.mp hanswers).resolve_left fun h => hid ((mem_ids_remove _).mp h).1
        refine ⟨t, ht, ?_, hinherited, hid, hne⟩
        rw [hprovider, (real_of_resolve hread ht).trimmed.1]
    · exact Or.inl ((mem_ids_remove _).mp hfirst)
  have hplain : ∀ slot route, routes.slot slot = some route → PlainId route.provider := by
    intro slot route hslot
    rcases hroute slot route hslot with ⟨hid, -⟩ | ⟨-, -, -, hinherited, -⟩
    · exact hids _ hid
    · exact plainId_object hinherited
  refine ⟨hremaining, fun hnone => ?_, fun hno slot target htarget => ?_⟩
  · rintro ⟨slot, target, htarget, hinherited, hnot, hne⟩
    have hreal := real_of_resolve hread htarget
    have hkept := slot_of_nextRoutes hroutes slot
    rw [htarget, fallbackRoute_kept hreal hne (answers_iff.mpr (Or.inr hinherited))] at hkept
    have hresolved : resolveRoutingTarget rt written.reread slot = some target := by
      rw [resolveRoutingTarget, hafter.slot slot, ← Except.ok.inj hkept, Option.bind_some,
        parseSlot_of_real hreal, fullTarget_of_real hreal]
    exact hnot ((hremaining _).mp (hnone slot target hresolved)).1
  · obtain ⟨other, route, hslot, hprovider⟩ := hafter.resolve hplain htarget
    rw [hprovider, hremaining]
    rcases hroute other route hslot with hid | ⟨t, ht, heq, hinherited⟩
    · exact hid
    · exact absurd ⟨other, t, ht, heq ▸ hinherited⟩ hno

section Example

/-- Two local providers, and a route. -/
def routedFile (provider : String) : Value :=
  .obj [("providers", .obj [("alpha", .obj [("models", .arr [.str "small"])]),
      ("beta", .obj [("models", .arr [.str "large"])])]),
    ("routing", .obj [("default", .obj [("provider", .str provider), ("model", .str "small")])])]

def localProfile (id model : String) : ProviderProfile where
  enabled := true
  provider := id
  authMode := .api_key
  apiKey := none
  oauthToken := none
  token := none
  baseUrl := none
  api := none
  headers := none
  compat := none
  models := some [model]

def routedConfig (provider : String) : T560Config where
  providers := some [("alpha", localProfile "alpha" "small"), ("beta", localProfile "beta" "large")]
  routing := some {
    default := some { provider, model := "small" }, planning := none, coding := none }

/-- What is left when `alpha` is deleted. -/
def leftConfig (route : RoutingTarget) : T560Config where
  provider := some route.provider
  models := some {
    default := some (routeText route), planning := some (routeText route)
    coding := some (routeText route) }
  providers := some [("beta", localProfile "beta" "large")]
  routing := some { default := some route, planning := some route, coding := some route }

def deletesAlpha : Value := .obj [("providerId", .str "alpha")]

theorem deletion_reroutes :
    (∀ id, id ∈ providerIds (leftConfig ⟨"beta", "large"⟩) ↔
        id ∈ providerIds (routedConfig "alpha") ∧ id ≠ "alpha") ∧
      ((∀ slot target,
          resolveRoutingTarget Js.asciiRuntime (leftConfig ⟨"beta", "large"⟩) slot = some target →
            target.provider ∈ providerIds (leftConfig ⟨"beta", "large"⟩)) ↔
        ¬ ∃ slot target, resolveRoutingTarget Js.asciiRuntime (routedConfig "alpha") slot = some target ∧
          OnlyInherited (routedConfig "alpha") "alpha" target.provider) := by
  have hread : normalizeConfig Js.asciiRuntime (routedFile "alpha") = .ok (routedConfig "alpha") := by
    decide
  have hdelete : handleDeleteSetupProvider Js.asciiRuntime (some deletesAlpha) (routedConfig "alpha") =
      .ok (.removed "alpha" (leftConfig ⟨"beta", "large"⟩).toValue.serialized) := by decide
  have hreread : normalizeConfig Js.asciiRuntime (leftConfig ⟨"beta", "large"⟩).toValue.serialized =
      .ok (leftConfig ⟨"beta", "large"⟩) := by decide
  have hids : ∀ id ∈ providerIds (routedConfig "alpha"), PlainId id := by
    have hall : ∀ id ∈ ["alpha", "beta"], trim id = id ∧ '/' ∉ id.toList := by decide
    exact hall
  exact deletion_leaves_no_dangling_route_iff hread hids hdelete hreread

/-- A route to `toString` stays when `alpha` is deleted. -/
theorem deletion_keeps_inherited_route :
    ¬ ∀ (rt : Runtime) (x file : Value) (config reread : T560Config) (body : Option Value)
      (providerId : String), normalizeConfig rt x = .ok config →
      (∀ id ∈ providerIds config, PlainId id) →
      handleDeleteSetupProvider rt body config = .ok (.removed providerId file) →
      normalizeConfig rt file = .ok reread →
      ∀ slot target, resolveRoutingTarget rt reread slot = some target →
        target.provider ∈ providerIds config ∧ target.provider ≠ providerId := by
  intro h
  have hread : normalizeConfig Js.asciiRuntime (routedFile "toString") =
      .ok (routedConfig "toString") := by decide
  have hdelete : handleDeleteSetupProvider Js.asciiRuntime (some deletesAlpha)
      (routedConfig "toString") =
      .ok (.removed "alpha" (leftConfig ⟨"toString", "small"⟩).toValue.serialized) := by decide
  have hreread : normalizeConfig Js.asciiRuntime
      (leftConfig ⟨"toString", "small"⟩).toValue.serialized =
      .ok (leftConfig ⟨"toString", "small"⟩) := by decide
  have hids : ∀ id ∈ providerIds (routedConfig "toString"), PlainId id := by
    have hall : ∀ id ∈ ["alpha", "beta"], trim id = id ∧ '/' ∉ id.toList := by decide
    exact hall
  have hroute : resolveRoutingTarget Js.asciiRuntime (leftConfig ⟨"toString", "small"⟩) .default =
      some ⟨"toString", "small"⟩ := by decide
  have hmem := (h _ _ _ _ _ _ _ hread hids hdelete hreread _ _ hroute).1
  have habsent : "toString" ∉ ["alpha", "beta"] := by decide
  exact habsent hmem

end Example

end T560.Setup
