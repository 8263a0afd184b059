import T560.Config.Normalize

/-!
# Routing and onboarding

Which provider and model a slot is routed to, and what is missing before the program counts
as onboarded.
-/

namespace T560.Config

open Js (Value PropertyMap JsError Runtime)

/-- The surroundings of the status: the home directory, the path functions and the files that
exist once the state directory is prepared. -/
structure OnboardingEnv where
  rt : Runtime
  homedir : String
  stateDir : String
  join : String → String → String
  resolve : String → String
  fileExists : String → Bool

/-- `s.split("/")`. -/
def splitSlashes (s : String) : List String := (s.toList.splitOn '/').map String.ofList

section Routes
variable (rt : Runtime)

def hasRealModelRef (value : Option String) : Bool :=
  match value with
  | none => false
  | some s =>
    hasRealValue rt (some s) && (Js.trim s).toList.contains '/' &&
      (splitSlashes (Js.trim s)).all fun part => hasRealValue rt (some part)

def parseModelRef (value : Option String) : Option RoutingTarget :=
  match value with
  | none => none
  | some s =>
    if !hasRealModelRef rt (some s) then none
    else
      let parts := splitSlashes s
      let provider := parts.headD ""
      let model := Js.trim (String.intercalate "/" parts.tail)
      if !hasRealValue rt (some provider) || !hasRealValue rt (some model) then none
      else some { provider := Js.trim provider, model }

def ModelPresets.slot (m : ModelPresets) : Slot → Option String
  | .default => m.default
  | .planning => m.planning
  | .coding => m.coding

def RoutingConfig.slot (r : RoutingConfig) : Slot → Option RoutingTarget
  | .default => r.default
  | .planning => r.planning
  | .coding => r.coding

/-- A target that names both its provider and its model. -/
def fullTarget (target : Option RoutingTarget) : Option RoutingTarget :=
  target.filter fun t => t.provider != "" && t.model != ""

def resolveRouteFromModelPreset (config : T560Config) (slot : Slot) : Option RoutingTarget :=
  match config.models.bind fun m => m.slot slot with
  | none => none
  | some modelPreset =>
    if !hasRealValue rt (some modelPreset) then none
    else
      match fullTarget (parseModelRef rt (some modelPreset)) with
      | some direct => some direct
      | none =>
        match config.provider.map Js.trim with
        | none => none
        | some providerId =>
          if !hasRealValue rt (some providerId) then none
          else some { provider := providerId, model := Js.trim modelPreset }

def resolveRoutingTarget (config : T560Config) (slot : Slot) : Option RoutingTarget :=
  match fullTarget (config.routing.bind fun r => r.slot slot) with
  | some target => some target
  | none =>
    match resolveRouteFromModelPreset rt config slot with
    | some fromPreset => some fromPreset
    | none =>
      if slot = .default then none
      else
        match fullTarget (config.routing.bind fun r => r.slot .default) with
        | some fallback => some fallback
        | none => resolveRouteFromModelPreset rt config .default

def hasProviderCredential (profile : ProviderProfile) : Bool :=
  hasRealValue rt profile.apiKey || hasRealValue rt profile.oauthToken ||
    hasRealValue rt profile.token

def providerCanRunWithoutCredential (providerId : String) (profile : ProviderProfile) : Bool :=
  hasRealValue rt (profile.baseUrl.map Js.trim) &&
    (rt.toLowerCase (Js.trim profile.provider) == "openai" ||
      rt.toLowerCase (Js.trim providerId) == "local-openai")

/-- What the status misses about one routed provider. -/
def providerMissing (providers : PropertyMap ProviderProfile) (providerId : String) :
    List String :=
  match providers.lookup providerId with
  | none => ["providers." ++ providerId]
  | some profile =>
    if !hasProviderCredential rt profile && !providerCanRunWithoutCredential rt providerId profile then
      ["providers." ++ providerId ++ ".credentials"]
    else []

/-- The provider ids the three slots are routed to, each once. -/
def routedProviders (config : T560Config) : List String :=
  (([Slot.default, .planning, .coding].map fun slot =>
    Js.trim (((resolveRoutingTarget rt config slot).map (·.provider)).getD "")).filter
      fun id => id != "").eraseDups

def slotMissing (config : T560Config) (slot : Slot) (name : String) : List String :=
  if (fullTarget (resolveRoutingTarget rt config slot)).isNone then [name] else []

end Routes

variable (env : OnboardingEnv)

def resolveSelfProtectionInstallRoot (raw : Option String) : Option String :=
  if !hasRealValue env.rt raw then none
  else
    match raw.map Js.trim with
    | none => none
    | some trimmed =>
      if trimmed = "" then none
      else if trimmed = "~" then some env.homedir
      else if "~/".toList <+: trimmed.toList then
        some (env.resolve (env.join env.homedir (String.ofList (trimmed.toList.drop 2))))
      else some (env.resolve trimmed)

def selfProtectionMissing (selfProtection : Option SelfProtectionConfig) : List String :=
  (if (selfProtection.bind (·.enabled)) != some true then ["tools.selfProtection.enabled"]
    else []) ++
  (match resolveSelfProtectionInstallRoot env (selfProtection.bind (·.installRoot)) with
    | none => ["tools.selfProtection.installRoot"]
    | some installRoot =>
      if !env.fileExists installRoot then ["tools.selfProtection.installRoot.exists"] else []) ++
  (if (((selfProtection.bind (·.protectedPaths)).getD []).map Js.trim).all fun p => p == "" then
      ["tools.selfProtection.protectedPaths"]
    else [])

def fileMissing (name : String) : List String :=
  if !env.fileExists (env.join env.stateDir name) then [name] else []

structure OnboardingStatus where
  onboarded : Bool
  missing : List String
  config : T560Config

/-- The status of a configuration that has been read. -/
def onboardingStatus (config : T560Config) : OnboardingStatus :=
  let providers := config.providers.getD []
  let missing :=
    (if providers.isEmpty then ["providers"]
      else if !(providers.any fun f => hasProviderCredential env.rt f.2) then
        ["providers.credentials"]
      else []) ++
    slotMissing env.rt config .default "routing.default" ++
    slotMissing env.rt config .planning "routing.planning" ++
    slotMissing env.rt config .coding "routing.coding" ++
    (routedProviders env.rt config).flatMap (providerMissing env.rt providers) ++
    selfProtectionMissing env (config.tools.bind (·.selfProtection)) ++
    fileMissing env "soul.md" ++ fileMissing env "users.md" ++ fileMissing env "user.md"
  { onboarded := missing.isEmpty, missing, config }

/-- The status of the program: `raw` is what the configuration file holds. -/
def readOnboardingStatus (raw : Value) : Except JsError OnboardingStatus := do
  return onboardingStatus env (← normalizeConfig env.rt raw)

section Routed
variable {rt : Runtime}

/-- Provider and model of the target are trimmed, and neither is a placeholder. -/
structure RealTarget (rt : Runtime) (t : RoutingTarget) : Prop where
  provider : hasRealValue rt (some t.provider) = true
  model : hasRealValue rt (some t.model) = true
  trimmed : Js.trim t.provider = t.provider ∧ Js.trim t.model = t.model

theorem hasRealValue_trim (s : String) : hasRealValue rt (some (Js.trim s)) = hasRealValue rt (some s) := by
  simp only [hasRealValue, Js.trim_trim]

theorem ne_empty_of_real {s : String} (h : hasRealValue rt (some s) = true) : s ≠ "" := by
  rintro rfl
  rw [hasRealValue, show Js.trim "" = "" by decide, rt.toLowerCase_empty] at h
  cases h

theorem real_of_parseSlot {value : Option Value} {t : RoutingTarget}
    (h : parseSlot rt value = some t) : RealTarget rt t := by
  obtain ⟨obj, -, h⟩ := Option.bind_eq_some_iff.mp h
  have htrim : ∀ o : Option String, Js.trim ((o.map Js.trim).getD "") = (o.map Js.trim).getD "" := by
    intro o
    cases o with
    | none => decide
    | some s => exact Js.trim_trim s
  dsimp only at h
  split at h
  · cases h
  · next hreal =>
    obtain rfl := Option.some.inj h
    simp only [Bool.or_eq_true, Bool.not_eq_true', not_or, Bool.not_eq_false] at hreal
    exact ⟨hreal.1, hreal.2, htrim _, htrim _⟩

theorem real_of_parseModelRef {value : Option String} {t : RoutingTarget}
    (h : parseModelRef rt value = some t) : RealTarget rt t := by
  cases value with
  | none => cases h
  | some s =>
    rw [parseModelRef] at h
    split_ifs at h
    dsimp only at h
    split_ifs at h with hreal
    obtain rfl := Option.some.inj h
    simp only [Bool.or_eq_true, Bool.not_eq_true', not_or, Bool.not_eq_false] at hreal
    exact ⟨(hasRealValue_trim _).trans hreal.1, hreal.2, Js.trim_trim _, Js.trim_trim _⟩

theorem real_of_preset {config : T560Config} {slot : Slot} {t : RoutingTarget}
    (h : resolveRouteFromModelPreset rt config slot = some t) : RealTarget rt t := by
  unfold resolveRouteFromModelPreset at h
  split at h
  · cases h
  split at h
  · cases h
  next modelPreset _ hmodel =>
  split at h
  · next direct hdirect =>
    obtain rfl := Option.some.inj h
    exact real_of_parseModelRef (Option.filter_eq_some_iff.mp hdirect).1
  split at h
  · cases h
  next providerId hprovider =>
  split at h
  · cases h
  · next hreal =>
    obtain rfl := Option.some.inj h
    obtain ⟨s, -, rfl⟩ := Option.map_eq_some_iff.mp hprovider
    simp only [Bool.not_eq_true', Bool.not_eq_false] at hmodel hreal
    exact ⟨hreal, (hasRealValue_trim _).trans hmodel, Js.trim_trim _, Js.trim_trim _⟩

theorem slot_of_normalizeRouting {raw : Option Value} {routing : RoutingConfig}
    (h : normalizeRouting rt raw = some routing) (slot : Slot) :
    ∃ value, routing.slot slot = parseSlot rt value := by
  obtain ⟨obj, -, h⟩ := Option.bind_eq_some_iff.mp h
  dsimp only at h
  split at h
  · cases h
    cases slot <;> exact ⟨_, rfl⟩
  · cases h

theorem routing_of_read {x : Value} {config : T560Config}
    (h : normalizeConfig rt x = .ok config) : ∃ raw, config.routing = normalizeRouting rt raw := by
  unfold normalizeConfig at h
  split at h
  · cases h
    exact ⟨none, rfl⟩
  · obtain ⟨_, -, h⟩ := Js.exists_of_bind_ok h
    obtain ⟨_, -, h⟩ := Js.exists_of_bind_ok h
    obtain ⟨_, -, h⟩ := Js.exists_of_bind_ok h
    obtain ⟨_, -, h⟩ := Js.exists_of_bind_ok h
    obtain ⟨_, -, h⟩ := Js.exists_of_bind_ok h
    obtain ⟨_, -, h⟩ := Js.exists_of_bind_ok h
    cases h
    exact ⟨_, rfl⟩

/-- A resolved target stands in a slot of the routing or comes from a preset. -/
theorem resolve_cases {config : T560Config} {slot : Slot} {target : RoutingTarget}
    (h : resolveRoutingTarget rt config slot = some target) :
    ∃ slot, fullTarget (config.routing.bind fun r => r.slot slot) = some target ∨
      resolveRouteFromModelPreset rt config slot = some target := by
  unfold resolveRoutingTarget at h
  split at h
  · next t ht => exact ⟨slot, Or.inl (h ▸ ht)⟩
  split at h
  · next t ht => exact ⟨slot, Or.inr (h ▸ ht)⟩
  split at h
  · cases h
  split at h
  · next t ht => exact ⟨.default, Or.inl (h ▸ ht)⟩
  · exact ⟨.default, Or.inr h⟩

/-- A target in a slot of a routing that was read was parsed. -/
theorem parsed_of_slot {x : Value} {config : T560Config} (hread : normalizeConfig rt x = .ok config)
    {slot : Slot} {target : RoutingTarget}
    (h : fullTarget (config.routing.bind fun r => r.slot slot) = some target) :
    ∃ value, parseSlot rt value = some target := by
  obtain ⟨r, hr, hslot⟩ := Option.bind_eq_some_iff.mp (Option.filter_eq_some_iff.mp h).1
  obtain ⟨raw, hraw⟩ := routing_of_read hread
  obtain ⟨value, hvalue⟩ := slot_of_normalizeRouting (hraw ▸ hr) slot
  exact ⟨value, hvalue ▸ hslot⟩

/-- The targets of a configuration that was read are real. -/
theorem real_of_resolve {x : Value} {config : T560Config} (hread : normalizeConfig rt x = .ok config)
    {slot : Slot} {t : RoutingTarget} (h : resolveRoutingTarget rt config slot = some t) :
    RealTarget rt t := by
  obtain ⟨slot, h | h⟩ := resolve_cases h
  · obtain ⟨value, hvalue⟩ := parsed_of_slot hread h
    exact real_of_parseSlot hvalue
  · exact real_of_preset h

/-- The routes of a configuration that was read name their provider without blanks around. -/
theorem trim_of_resolve {x : Value} {config : T560Config} (hread : normalizeConfig rt x = .ok config)
    {slot : Slot} {target : RoutingTarget}
    (h : resolveRoutingTarget rt config slot = some target) :
    Js.trim target.provider = target.provider :=
  (real_of_resolve hread h).trimmed.1

end Routed

end T560.Config
