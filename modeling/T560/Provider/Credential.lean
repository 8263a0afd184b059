import T560.Config.Onboarding

/-!
# The credential of a turn

How `chatWithProvider` picks the profile and the credential it sends, and when that agrees
with what the onboarding status promised.
-/

namespace T560.Provider

open Js (Value PropertyMap Runtime)
open Config (T560Config ProviderProfile RoutingTarget OnboardingEnv OnboardingStatus Slot
  hasRealValue resolveRoutingTarget hasProviderCredential providerCanRunWithoutCredential
  readOnboardingStatus)

def OPENAI_RUNTIME_PROVIDER : String := "openai"
def LOCAL_OPENAI_DUMMY_API_KEY : String := "local-no-key"
def PROVIDER_RUNTIME_ALIASES : List (String × String) :=
  [("deepseek", "openai"), ("local-openai", "openai")]

/-- The errors raised before a request is built. -/
inductive RouteError where
  | incompleteRoute
  | notConfigured (provider : String)
  | noRuntimeProvider (routeProviderId : String)
  | unsupportedProvider (requestedProvider : String)
  | credentialsMissing (provider : String)
  deriving DecidableEq, Repr

def RouteError.message : RouteError → String
  | .incompleteRoute => "Provider route is missing provider or model."
  | .notConfigured provider => "Provider '" ++ provider ++ "' is not configured."
  | .noRuntimeProvider route =>
    "Provider route '" ++ route ++ "' does not specify a runtime provider."
  | .unsupportedProvider provider =>
    "Provider '" ++ provider ++ "' is not supported by the provider runtime."
  | .credentialsMissing provider => "Credentials missing for provider '" ++ provider ++ "'."

/-- A value that counts as true in a condition. -/
def truthy (value : Option String) : Bool := value.any fun s => s != ""

def extractCredential (profile : ProviderProfile) : Option String :=
  if truthy profile.apiKey then profile.apiKey
  else if truthy profile.token then profile.token
  else if truthy profile.oauthToken then profile.oauthToken
  else none

def normalizeBaseUrl (value : Option String) : Option String :=
  value.bind fun s =>
    let trimmed := Js.trim s
    if trimmed = "" then none
    else if trimmed.toList.getLast? = some '/' then some (String.ofList trimmed.toList.dropLast)
    else some trimmed

/-- `.replace(/suffix$/i, "")`; the suffix is in lower case. -/
def dropSuffixIgnoringCase (suffix : String) (s : String) : String :=
  if suffix.toList <:+ s.toList.map Char.toLower then
    String.ofList (s.toList.take (s.toList.length - suffix.toList.length))
  else s

def normalizeOpenAICompatibleBaseUrl (value : Option String) : Option String :=
  match normalizeBaseUrl value with
  | none => none
  | some normalized =>
    if normalized = "" then none
    else
      let stripped := dropSuffixIgnoringCase "/chat/completions" normalized
      -- `/v1/chat` at the end becomes `/v1`.
      some (if "/v1/chat".toList <:+ stripped.toList.map Char.toLower then
          dropSuffixIgnoringCase "/v1/chat" stripped ++ "/v1"
        else stripped)

structure RuntimeResolution where
  requestedProvider : String
  runtimeProvider : String
  baseUrlOverride : Option String

section Select
variable (rt : Runtime) (supported : String → Bool)

def defaultBaseUrlForProviderAlias (providerId : String) : Option String :=
  let normalized := rt.toLowerCase (Js.trim providerId)
  if normalized = "deepseek" then some "https://api.deepseek.com/v1"
  else if normalized = "local-openai" then some "http://127.0.0.1:8080/v1"
  else none

/-- `supported` are the providers of the provider library. -/
def resolveRuntimeProvider (routeId : String) (profile : ProviderProfile) :
    Except RouteError RuntimeResolution :=
  let routeProviderId := rt.toLowerCase (Js.trim routeId)
  let profileProvider := rt.toLowerCase (Js.trim profile.provider)
  let requestedProvider := if profileProvider = "" then routeProviderId else profileProvider
  if requestedProvider = "" then .error (.noRuntimeProvider routeId)
  else if supported requestedProvider then
    .ok { requestedProvider, runtimeProvider := requestedProvider, baseUrlOverride := none }
  else
    match (PROVIDER_RUNTIME_ALIASES.lookup requestedProvider).filter supported with
    | some runtimeProvider =>
      .ok { requestedProvider, runtimeProvider
            baseUrlOverride := defaultBaseUrlForProviderAlias rt requestedProvider }
    | none =>
      if truthy (normalizeBaseUrl profile.baseUrl) && supported OPENAI_RUNTIME_PROVIDER then
        .ok { requestedProvider, runtimeProvider := OPENAI_RUNTIME_PROVIDER
              baseUrlOverride := none }
      else .error (.unsupportedProvider requestedProvider)

/-- The base URL of the request. -/
def requestBaseUrl (profile : ProviderProfile) (resolution : RuntimeResolution) : Option String :=
  let rawBaseUrl :=
    (normalizeBaseUrl profile.baseUrl).or (normalizeBaseUrl resolution.baseUrlOverride)
  if resolution.runtimeProvider = OPENAI_RUNTIME_PROVIDER then
    normalizeOpenAICompatibleBaseUrl rawBaseUrl
  else rawBaseUrl

/-- The credential sent for a profile. -/
def profileCredential (provider : String) (profile : ProviderProfile) :
    Except RouteError String := do
  let credential := extractCredential profile
  let resolution ← resolveRuntimeProvider rt supported provider profile
  let allowMissingCredential :=
    truthy (requestBaseUrl profile resolution) &&
      resolution.runtimeProvider == OPENAI_RUNTIME_PROVIDER &&
      (rt.toLowerCase (Js.trim provider) == "local-openai" ||
        rt.toLowerCase (Js.trim profile.provider) == "openai")
  if credential.isNone && !allowMissingCredential then .error (.credentialsMissing provider)
  else .ok (credential.getD LOCAL_OPENAI_DUMMY_API_KEY)

/-- The start of `chatWithProvider`, up to the credential it sends. -/
def requestCredential (config : T560Config) (target : RoutingTarget) : Except RouteError String :=
  if target.provider = "" ∨ target.model = "" then .error .incompleteRoute
  else
    match (config.providers.getD []).lookup target.provider with
    | none => .error (.notConfigured target.provider)
    | some profile => profileCredential rt supported target.provider profile

/-- What the status promises about a slot: the run finds the profile and a credential, and the
credential is a real one unless the provider may do without. -/
def SlotAgrees (config : T560Config) (slot : Slot) : Prop :=
  ∃ target, resolveRoutingTarget rt config slot = some target ∧
    (∀ id, requestCredential rt supported config target ≠ .error (.notConfigured id)) ∧
    (∀ id, requestCredential rt supported config target ≠ .error (.credentialsMissing id)) ∧
    ∀ key, requestCredential rt supported config target = .ok key →
      hasRealValue rt (some key) = true ∨
        ∃ profile, (config.providers.getD []).lookup target.provider = some profile ∧
          providerCanRunWithoutCredential rt target.provider profile = true

/-- The runtime speaks the OpenAI protocol, with a base URL that is not empty. -/
def runsOnOpenai (resolution : RuntimeResolution) (profile : ProviderProfile) : Bool :=
  resolution.runtimeProvider == OPENAI_RUNTIME_PROVIDER && truthy (requestBaseUrl profile resolution)

/-- A profile the run can use as the status says: the runtime rejects it anyway, or the first
credential that is not empty is a real one, or the provider may do without one and either has
some credential or runs on the OpenAI protocol. -/
def ProfileReady (providerId : String) (profile : ProviderProfile) : Prop :=
  ∀ resolution, resolveRuntimeProvider rt supported providerId profile = .ok resolution →
    hasRealValue rt (extractCredential profile) = true ∨
      (providerCanRunWithoutCredential rt providerId profile = true ∧
        ((extractCredential profile).isSome = true ∨ runsOnOpenai resolution profile = true))

end Select

section Status
variable {env : OnboardingEnv} {config : T560Config}

/-- What an onboarded configuration says about a slot. -/
theorem onboarded_slot (h : (Config.onboardingStatus env config).onboarded = true) (slot : Slot) :
    ∃ target, resolveRoutingTarget env.rt config slot = some target ∧ target.provider ≠ "" ∧
      target.model ≠ "" ∧ (Js.trim target.provider = target.provider →
        ∃ profile, (config.providers.getD []).lookup target.provider = some profile ∧
          (hasProviderCredential env.rt profile = true ∨
            providerCanRunWithoutCredential env.rt target.provider profile = true)) := by
  simp only [Config.onboardingStatus, List.isEmpty_iff, List.append_eq_nil_iff] at h
  obtain ⟨⟨⟨⟨⟨⟨⟨⟨-, hdefault⟩, hplanning⟩, hcoding⟩, hrouted⟩, -⟩, -⟩, -⟩, -⟩ := h
  have hfull : ∀ name, Config.slotMissing env.rt config slot name = [] →
      ∃ target, resolveRoutingTarget env.rt config slot = some target ∧ target.provider ≠ "" ∧
        target.model ≠ "" := by
    intro name hslot
    unfold Config.slotMissing at hslot
    split at hslot
    · cases hslot
    · next hsome =>
      rw [Option.isNone_iff_eq_none] at hsome
      obtain ⟨target, htarget⟩ := Option.ne_none_iff_exists'.mp hsome
      obtain ⟨hresolve, hboth⟩ := Option.filter_eq_some_iff.mp htarget
      simp only [Bool.and_eq_true, bne_iff_ne] at hboth
      exact ⟨target, hresolve, hboth⟩
  obtain ⟨target, htarget, hprovider, hmodel⟩ : ∃ target,
      resolveRoutingTarget env.rt config slot = some target ∧ target.provider ≠ "" ∧
        target.model ≠ "" := by
    cases slot with
    | default => exact hfull _ hdefault
    | planning => exact hfull _ hplanning
    | coding => exact hfull _ hcoding
  refine ⟨target, htarget, hprovider, hmodel, fun htrim => ?_⟩
  have hmem : target.provider ∈ Config.routedProviders env.rt config := by
    rw [Config.routedProviders, List.mem_eraseDups, List.mem_filter]
    refine ⟨List.mem_map.mpr ⟨slot, by cases slot <;> simp, ?_⟩, by simpa using hprovider⟩
    rw [htarget, Option.map_some, Option.getD_some, htrim]
  have hnone := List.flatMap_eq_nil_iff.mp hrouted _ hmem
  unfold Config.providerMissing at hnone
  split at hnone
  · cases hnone
  · next profile hprofile =>
    split at hnone
    · cases hnone
    · next hready =>
      refine ⟨profile, hprofile, ?_⟩
      simpa [Decidable.or_iff_not_imp_left] using hready

end Status

section Agreement
variable {rt : Runtime} {supported : String → Bool}

theorem truthy_of_hasRealValue {value : Option String} (h : hasRealValue rt value = true) :
    truthy value = true := by
  cases value with
  | none => cases h
  | some s =>
    by_contra hs
    have hempty : s = "" := by simpa [truthy] using hs
    subst hempty
    have hlower : rt.toLowerCase (Js.trim "") = "" := rt.toLowerCase_empty
    simp [hasRealValue, hlower] at h

theorem extractCredential_isSome {profile : ProviderProfile}
    (h : hasProviderCredential rt profile = true) : (extractCredential profile).isSome = true := by
  have hsome : ∀ {value : Option String}, truthy value = true → value.isSome = true := by
    intro value hv
    cases value with
    | none => cases hv
    | some s => rfl
  unfold extractCredential
  split
  · next hkey => exact hsome hkey
  · next hkey =>
    split
    · next htoken => exact hsome htoken
    · next htoken =>
      split
      · next hoauth => exact hsome hoauth
      · next hoauth =>
        simp only [hasProviderCredential, Bool.or_eq_true] at h
        rcases h with (h | h) | h
        · exact (hkey (truthy_of_hasRealValue h)).elim
        · exact (hoauth (truthy_of_hasRealValue h)).elim
        · exact (htoken (truthy_of_hasRealValue h)).elim

/-- Resolving the runtime raises its own errors only. -/
theorem resolveRuntimeProvider_error {id : String} {profile : ProviderProfile} {e : RouteError}
    (h : resolveRuntimeProvider rt supported id profile = .error e) (id' : String) :
    e ≠ .notConfigured id' ∧ e ≠ .credentialsMissing id' := by
  unfold resolveRuntimeProvider at h
  dsimp only at h
  generalize (if rt.toLowerCase (Js.trim profile.provider) = "" then
    rt.toLowerCase (Js.trim id) else rt.toLowerCase (Js.trim profile.provider)) = requested at h
  split at h
  · cases h
    exact ⟨nofun, nofun⟩
  · split at h
    · cases h
    · split at h
      · cases h
      · split at h
        · cases h
        · cases h
          exact ⟨nofun, nofun⟩

/-- A provider that may run without a credential is let through exactly when the runtime speaks
the OpenAI protocol. -/
theorem profileCredential_without {id : String} {profile : ProviderProfile}
    {resolution : RuntimeResolution}
    (hresolve : resolveRuntimeProvider rt supported id profile = .ok resolution)
    (hnone : extractCredential profile = none)
    (hcan : providerCanRunWithoutCredential rt id profile = true) :
    profileCredential rt supported id profile =
      if runsOnOpenai resolution profile then .ok LOCAL_OPENAI_DUMMY_API_KEY
      else .error (.credentialsMissing id) := by
  have hnames : (rt.toLowerCase (Js.trim id) == "local-openai" ||
      rt.toLowerCase (Js.trim profile.provider) == "openai") = true := by
    simp only [providerCanRunWithoutCredential, Bool.and_eq_true] at hcan
    rw [Bool.or_comm]
    exact hcan.2
  rw [profileCredential, hresolve, runsOnOpenai, Bool.and_comm]
  simp only [bind, Except.bind, hnone, hnames, Bool.and_true, Option.isNone_none, Bool.true_and,
    Option.getD_none]
  cases truthy (requestBaseUrl profile resolution) &&
    resolution.runtimeProvider == OPENAI_RUNTIME_PROVIDER <;> rfl

theorem slotAgrees_iff {config : T560Config} {slot : Slot} {target : RoutingTarget}
    (htarget : resolveRoutingTarget rt config slot = some target) (hprovider : target.provider ≠ "")
    (hmodel : target.model ≠ "") {profile : ProviderProfile}
    (hprofile : (config.providers.getD []).lookup target.provider = some profile)
    (hready : hasProviderCredential rt profile = true ∨
      providerCanRunWithoutCredential rt target.provider profile = true) :
    SlotAgrees rt supported config slot ↔ ProfileReady rt supported target.provider profile := by
  have hrequest : requestCredential rt supported config target =
      profileCredential rt supported target.provider profile := by
    rw [requestCredential, if_neg (by simp [hprovider, hmodel]), hprofile]
  have hagrees : SlotAgrees rt supported config slot ↔
      (∀ id, profileCredential rt supported target.provider profile ≠ .error (.notConfigured id)) ∧
      (∀ id, profileCredential rt supported target.provider profile ≠
        .error (.credentialsMissing id)) ∧
      ∀ key, profileCredential rt supported target.provider profile = .ok key →
        hasRealValue rt (some key) = true ∨
          providerCanRunWithoutCredential rt target.provider profile = true := by
    constructor
    · rintro ⟨target', htarget', h⟩
      rw [htarget] at htarget'
      cases htarget'
      simpa [hrequest, hprofile] using h
    · intro h
      refine ⟨target, htarget, ?_⟩
      simpa [hrequest, hprofile] using h
  rw [hagrees]
  cases hresolve : resolveRuntimeProvider rt supported target.provider profile with
  | error e =>
    have herror : profileCredential rt supported target.provider profile = .error e := by
      rw [profileCredential, hresolve]
      rfl
    refine iff_of_true ⟨fun id h => ?_, fun id h => ?_, fun key h => ?_⟩ ?_
    · exact (resolveRuntimeProvider_error hresolve id).1 (Except.error.inj (herror.symm.trans h))
    · exact (resolveRuntimeProvider_error hresolve id).2 (Except.error.inj (herror.symm.trans h))
    · rw [herror] at h
      cases h
    · intro resolution h
      rw [hresolve] at h
      cases h
  | ok resolution =>
    have hreduce : ProfileReady rt supported target.provider profile ↔
        hasRealValue rt (extractCredential profile) = true ∨
          (providerCanRunWithoutCredential rt target.provider profile = true ∧
            ((extractCredential profile).isSome = true ∨
              runsOnOpenai resolution profile = true)) := by
      constructor
      · intro h
        exact h resolution hresolve
      · intro h r hr
        rw [hresolve] at hr
        cases hr
        exact h
    rw [hreduce]
    cases hcred : extractCredential profile with
    | some key =>
      have hok : profileCredential rt supported target.provider profile = .ok key := by
        rw [profileCredential, hresolve, hcred]
        rfl
      simp [hok]
    | none =>
      have hcan : providerCanRunWithoutCredential rt target.provider profile = true := by
        rcases hready with h | h
        · have := extractCredential_isSome h
          rw [hcred] at this
          cases this
        · exact h
      rw [profileCredential_without hresolve hcred hcan]
      cases runsOnOpenai resolution profile <;> simp [hcan, hasRealValue]

end Agreement

/-- In an onboarded program the three slots find a credential as promised exactly when each
routed profile is ready for the run. -/
theorem onboarded_slots_agree_iff (env : OnboardingEnv) (supported : String → Bool) (raw : Value)
    (status : OnboardingStatus) (hread : readOnboardingStatus env raw = .ok status)
    (honboarded : status.onboarded = true) :
    (∀ slot, SlotAgrees env.rt supported status.config slot) ↔
      ∀ slot target profile, resolveRoutingTarget env.rt status.config slot = some target →
        (status.config.providers.getD []).lookup target.provider = some profile →
        ProfileReady env.rt supported target.provider profile := by
  obtain ⟨config, hconfig, hstatus⟩ := Js.exists_of_bind_ok hread
  cases hstatus
  have hslot : ∀ slot, ∃ target profile,
      resolveRoutingTarget env.rt config slot = some target ∧
      (config.providers.getD []).lookup target.provider = some profile ∧
      (SlotAgrees env.rt supported config slot ↔
        ProfileReady env.rt supported target.provider profile) := by
    intro slot
    obtain ⟨target, htarget, hprovider, hmodel, hfind⟩ := onboarded_slot honboarded slot
    obtain ⟨profile, hprofile, hready⟩ := hfind (Config.trim_of_resolve hconfig htarget)
    exact ⟨target, profile, htarget, hprofile,
      slotAgrees_iff htarget hprovider hmodel hprofile hready⟩
  constructor
  · intro hall slot target profile htarget hprofile
    obtain ⟨target', profile', htarget', hprofile', hiff⟩ := hslot slot
    rw [show (Config.onboardingStatus env config).config = config from rfl] at htarget hprofile
    rw [htarget] at htarget'
    cases htarget'
    rw [hprofile] at hprofile'
    cases hprofile'
    exact hiff.mp (hall slot)
  · intro hall slot
    obtain ⟨target, profile, htarget, hprofile, hiff⟩ := hslot slot
    exact hiff.mpr (hall slot target profile htarget hprofile)

section Example

/-- A machine on which every file exists. -/
def preparedEnv : OnboardingEnv where
  rt := Js.asciiRuntime
  homedir := "/home"
  stateDir := "/home/.t560"
  join := fun a b => a ++ "/" ++ b
  resolve := id
  fileExists := fun _ => true

/-- One provider with an API key and a token, and a route to it. -/
def routedFile (apiKey : String) : Value :=
  .obj [("providers", .obj [("anthropic", .obj [("apiKey", .str apiKey), ("token", .str "sk-live")])]),
    ("routing", .obj [("default", .obj [("provider", .str "anthropic"), ("model", .str "opus")])]),
    ("tools", .obj [("selfProtection", .obj [("enabled", .bool true), ("installRoot", .str "/srv"),
      ("protectedPaths", .arr [.str "/srv"])])])]

def routedProfile (apiKey : String) : ProviderProfile where
  enabled := true
  provider := "anthropic"
  authMode := .api_key
  apiKey := some apiKey
  oauthToken := none
  token := some "sk-live"
  baseUrl := none
  api := none
  headers := none
  compat := none
  models := none

def routedConfig (apiKey : String) : T560Config where
  providers := some [("anthropic", routedProfile apiKey)]
  routing := some {
    default := some { provider := "anthropic", model := "opus" }, planning := none, coding := none }
  tools := some {
    dangerouslyUnrestricted := none, profile := none, allow := none, alsoAllow := none
    deny := none, byProvider := none, runtime := none, fs := none, exec := none, web := none
    selfProtection := some {
      enabled := some true, installRoot := some "/srv", protectedPaths := some ["/srv"] } }

def onlyAnthropic (provider : String) : Bool := provider == "anthropic"

theorem read_routedFile {apiKey : String}
    (h : Config.normalizeConfig Js.asciiRuntime (routedFile apiKey) = .ok (routedConfig apiKey)) :
    readOnboardingStatus preparedEnv (routedFile apiKey) =
      .ok (Config.onboardingStatus preparedEnv (routedConfig apiKey)) := by
  have hread : Config.normalizeConfig preparedEnv.rt (routedFile apiKey) =
      .ok (routedConfig apiKey) := h
  rw [readOnboardingStatus, hread]
  rfl

/-- Both credentials are real, and the API key is sent. -/
theorem onboarded_slots_agree_real_key :
    (Config.onboardingStatus preparedEnv (routedConfig "sk-key")).onboarded = true ∧
      ∀ slot, SlotAgrees preparedEnv.rt onlyAnthropic
        (Config.onboardingStatus preparedEnv (routedConfig "sk-key")).config slot := by
  have honboarded :
      (Config.onboardingStatus preparedEnv (routedConfig "sk-key")).onboarded = true := by
    decide
  refine ⟨honboarded, ?_⟩
  refine (onboarded_slots_agree_iff preparedEnv onlyAnthropic (routedFile "sk-key") _
    (read_routedFile (by decide)) honboarded).mpr ?_
  intro slot target profile htarget hprofile resolution _
  have hslot : resolveRoutingTarget preparedEnv.rt (routedConfig "sk-key") slot =
      some { provider := "anthropic", model := "opus" } := by
    cases slot <;> decide
  rw [show (Config.onboardingStatus preparedEnv (routedConfig "sk-key")).config =
    routedConfig "sk-key" from rfl] at htarget hprofile
  rw [hslot] at htarget
  cases htarget
  cases hprofile
  exact .inl (by decide)

/-- A placeholder stands in front of a real token: the program counts as onboarded, and the
placeholder is sent. -/
theorem placeholder_key_is_sent :
    readOnboardingStatus preparedEnv (routedFile "set-me") =
        .ok (Config.onboardingStatus preparedEnv (routedConfig "set-me")) ∧
      (Config.onboardingStatus preparedEnv (routedConfig "set-me")).onboarded = true ∧
      requestCredential preparedEnv.rt onlyAnthropic (routedConfig "set-me")
        { provider := "anthropic", model := "opus" } = .ok "set-me" ∧
      hasRealValue preparedEnv.rt (some "set-me") = false ∧
      ¬ SlotAgrees preparedEnv.rt onlyAnthropic (routedConfig "set-me") .default := by
  have hsent : requestCredential preparedEnv.rt onlyAnthropic (routedConfig "set-me")
      { provider := "anthropic", model := "opus" } = .ok "set-me" := by decide
  have hreal : hasRealValue preparedEnv.rt (some "set-me") = false := by decide
  refine ⟨read_routedFile (by decide), by decide, hsent, hreal, ?_⟩
  rintro ⟨target, htarget, -, -, hkey⟩
  have hslot : resolveRoutingTarget preparedEnv.rt (routedConfig "set-me") .default =
      some { provider := "anthropic", model := "opus" } := by decide
  rw [hslot] at htarget
  cases htarget
  rcases hkey "set-me" hsent with h | ⟨profile, hprofile, hcan⟩
  · rw [hreal] at h
    cases h
  · cases hprofile
    revert hcan
    decide

end Example

end T560.Provider
