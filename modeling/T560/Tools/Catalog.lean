import T560.Config.Types
import T560.Tools.Policy

/-!
# The tools of a run

The tools of the source go through the four policies of the configuration, and a turn leaves out those
that its message does not ask for. What is left is offered to the provider, and a call runs one of it.
-/

namespace T560.Tools

open Js (JsError Runtime PropertyMap trim startsWith)
open Channels (OBJECT_NAMES)
open Config (ToolsConfig ToolPolicyConfig WebSearchToolConfig WebFetchToolConfig)

structure AnyAgentTool where
  name : String
  ownerOnly : Option Bool := none
  deriving DecidableEq

/-- `tools` is that of the configuration. -/
structure ToolOptions where
  tools : Option ToolsConfig
  modelProvider : Option String
  senderIsOwner : Option Bool
  BRAVE_API_KEY : Option String

section Catalog

def createFilesystemTools : List String := ["read", "write", "edit", "ls", "find", "exists"]

/-- Without an explicit provider and without a key the search goes to DuckDuckGo. -/
def createWebSearchTool (search : Option WebSearchToolConfig) (braveApiKey : Option String) : List String :=
  let explicit := search.bind (·.provider)
  let configuredProvider := explicit.getD .brave
  let apiKeyFromConfig := trim ((search.bind (·.apiKey)).getD "")
  let apiKeyFromEnv := trim (braveApiKey.getD "")
  let hasKey : Bool := apiKeyFromConfig ≠ "" || apiKeyFromEnv ≠ ""
  let provider := if explicit.isNone ∧ configuredProvider = .brave ∧ ¬ hasKey then .duckduckgo
    else configuredProvider
  let enabled := (search.bind (·.enabled)).getD (if provider = .brave then hasKey else true)
  if ¬ enabled then [] else if provider = .brave ∧ ¬ hasKey then [] else ["web_search"]

def createWebFetchTool (fetch : Option WebFetchToolConfig) : List String :=
  if (fetch.bind (·.enabled)).getD true then ["web_fetch"] else []

def memoryTools : List String :=
  ["memory_search", "memory_get", "memory_save", "memory_delete", "memory_list", "memory_prune",
    "memory_feedback", "memory_stats", "memory_compact"]

def createT560Tools (o : ToolOptions) : List String :=
  let web := o.tools.bind (·.web)
  ["browser", "email"] ++ createWebSearchTool (web.bind (·.search)) o.BRAVE_API_KEY ++
    createWebFetchTool (web.bind (·.fetch)) ++ memoryTools

/-- No tool of the source is marked as one of the owner's. -/
def baseTools (o : ToolOptions) : List AnyAgentTool :=
  (["exec", "process"] ++ createFilesystemTools ++ createT560Tools o).map fun name => { name }

def policyLike (policy : ToolPolicyConfig) : ToolPolicyLike := ⟨policy.allow, policy.deny⟩

structure ToolPolicyPipelineStep where
  label : String
  policy : Option ToolPolicyLike

variable (rt : Runtime)

def filterToolsByPolicy : List AnyAgentTool → Option ToolPolicyLike → Except JsError (List AnyAgentTool)
  | tools, none => .ok tools
  | [], some _ => .ok []
  | tool :: tools, some policy => do
    let allowed ← isToolAllowedByPolicy rt tool.name (some policy)
    let rest ← filterToolsByPolicy tools (some policy)
    return if allowed then tool :: rest else rest

def applyToolPolicyPipeline (tools : List AnyAgentTool) (steps : List ToolPolicyPipelineStep) :
    Except JsError (List AnyAgentTool) :=
  steps.foldlM (fun filtered step => filterToolsByPolicy rt filtered step.policy) tools

def buildDefaultToolPolicyPipelineSteps
    (profilePolicy globalPolicy providerPolicy runtimePolicy : Option ToolPolicyLike) :
    List ToolPolicyPipelineStep :=
  [⟨"tools.profile", profilePolicy⟩, ⟨"tools.allow", globalPolicy⟩,
    ⟨"tools.byProvider.allow", providerPolicy⟩, ⟨"tools.runtime", runtimePolicy⟩]

def resolveByProviderPolicy (byProvider : Option (PropertyMap ToolPolicyConfig)) (provider : Option String) :
    Option ToolPolicyLike :=
  match (provider.map fun p => rt.toLowerCase (trim p)).filter (· ≠ ""), byProvider with
  | some normalizedProvider, some record =>
    ((PropertyMap.entries record).find? fun entry =>
      rt.toLowerCase (trim entry.1) = normalizedProvider).map fun entry => policyLike entry.2
  | _, _ => none

/-- The policy of `allow` and `deny`; a list that is empty is there. -/
def resolveGlobalPolicy (tools : Option ToolsConfig) : Option ToolPolicyLike :=
  tools.bind fun tools =>
    if tools.allow.isSome ∨ tools.deny.isSome then some ⟨tools.allow, tools.deny⟩ else none

def resolveRuntimePolicy (tools : Option ToolsConfig) : Option ToolPolicyLike :=
  (tools.bind (·.runtime)).map policyLike

def applyOwnerOnlyToolPolicy (tools : List AnyAgentTool) (senderIsOwner : Bool) : List AnyAgentTool :=
  if senderIsOwner then tools else tools.filter fun tool => tool.ownerOnly ≠ some true

def policySteps (o : ToolOptions) : List ToolPolicyPipelineStep :=
  buildDefaultToolPolicyPipelineSteps
    (mergeAlsoAllowPolicy
      (resolveToolProfilePolicy rt ((o.tools.bind (·.profile)).map (·.text))) (o.tools.bind (·.alsoAllow)))
    (resolveGlobalPolicy o.tools)
    (resolveByProviderPolicy rt (o.tools.bind (·.byProvider)) o.modelProvider)
    (resolveRuntimePolicy o.tools)

def ToolOptions.dangerouslyUnrestricted (o : ToolOptions) : Bool :=
  o.tools.bind (·.dangerouslyUnrestricted) = some true

def createT560CodingTools (o : ToolOptions) : Except JsError (List AnyAgentTool) := do
  let senderIsOwner : Bool := o.senderIsOwner ≠ some false
  if o.dangerouslyUnrestricted then
    return applyOwnerOnlyToolPolicy (baseTools o) senderIsOwner
  else
    let filtered ← applyToolPolicyPipeline rt (baseTools o) (policySteps rt o)
    return applyOwnerOnlyToolPolicy filtered senderIsOwner

/-- What a turn reads off its message, its route, the environment and a pending code. -/
structure TurnSigns where
  smallTalkTurn : Bool
  compactMode : Bool
  /-- `T560_ENABLE_EMAIL_TOOL_ALWAYS` is `1`. -/
  emailToolAlways : Bool
  pendingMfa : Bool
  messageLikelyNeedsEmailTool : Bool
  looksLikeLoginIntent : Bool
  looksLikeSiteVisitIntent : Bool
  looksLikeAccountDashboardIntent : Bool
  /-- The message has one of the words of the web. -/
  wordsOfWeb : Bool
  /-- The message has one of the words of the memory. -/
  wordsOfMemory : Bool

namespace TurnSigns

variable (signs : TurnSigns)

def emailToolAllowed : Bool :=
  signs.emailToolAlways || signs.messageLikelyNeedsEmailTool || signs.looksLikeLoginIntent ||
    signs.looksLikeAccountDashboardIntent || signs.pendingMfa

def needsEmail : Bool := signs.messageLikelyNeedsEmailTool || signs.pendingMfa

def needsWeb : Bool :=
  signs.looksLikeLoginIntent || signs.looksLikeSiteVisitIntent || signs.looksLikeAccountDashboardIntent ||
    signs.wordsOfWeb || signs.pendingMfa

def needsMemory : Bool := signs.wordsOfMemory

end TurnSigns

def selectToolsForCompactMode (tools : List AnyAgentTool) (signs : TurnSigns) : List AnyAgentTool :=
  tools.filter fun tool =>
    let normalized := rt.toLowerCase (trim tool.name)
    if !signs.needsMemory && startsWith "memory_" normalized then false
    else if !signs.needsWeb && (normalized = "browser" || normalized = "web_search" || normalized = "web_fetch")
      then false
    else if !signs.needsEmail && normalized = "email" then false
    else true

/-- The tools of a turn. -/
def turnTools (o : ToolOptions) (signs : TurnSigns) : Except JsError (List AnyAgentTool) := do
  if signs.smallTalkTurn then return []
  else
    let created ← createT560CodingTools rt o
    let baseTools := created.filter fun tool => signs.emailToolAllowed || rt.toLowerCase tool.name ≠ "email"
    return if signs.compactMode then selectToolsForCompactMode rt baseTools signs else baseTools

/-- The tool that a call runs. -/
def findTool (tools : List AnyAgentTool) (name : String) : Option AnyAgentTool :=
  (tools.find? fun candidate => normalizeToolName rt candidate.name = normalizeToolName rt name).or
    (tools.find? (·.name = name))

/-- The names of the definitions that a provider gets. -/
def toToolDefinitions (tools : List AnyAgentTool) : List ToolName :=
  tools.map fun tool => normalizeToolName rt (if tool.name = "" then "tool" else tool.name)

end Catalog

section Filter
variable {rt : Runtime} {tools kept : List AnyAgentTool} {policy : ToolPolicyLike} {tool : AnyAgentTool}

/-- A policy lets a tool pass: nothing in its deny list names it, and its allow list is empty or
names it. -/
structure Permits (rt : Runtime) (policy : ToolPolicyLike) (toolName : String) : Prop where
  notDenied : ¬ Names rt policy.deny toolName
  allowed : Unlisted rt policy.allow ∨ Names rt policy.allow toolName

/-- `some` gives `false` when every test does. -/
theorem miss_of_anyM {α ε : Type} {test : α → Except ε Bool} {xs : List α} (h : xs.anyM test = .ok false)
    {x : α} (hx : x ∈ xs) : test x = .ok false := by
  induction xs with
  | nil => exact absurd hx List.not_mem_nil
  | cons first rest ih =>
    cases htest : test first with
    | error e =>
      rw [anyM_cons_of_error htest] at h
      cases h
    | ok hit =>
      cases hit with
      | true =>
        rw [anyM_cons_of_hit htest] at h
        cases h
      | false =>
        rw [anyM_cons_of_miss htest] at h
        rcases List.mem_cons.mp hx with rfl | hrest
        · exact htest
        · exact ih h hrest

theorem not_names_of_anyM {name : String} {list : Option (List String)}
    (h : (expandToolGroups rt list).anyM (matchToolPattern (normalizeToolName rt name)) = .ok false) :
    ¬ Names rt list name := by
  rintro ⟨entry, hentry, hhit⟩
  rw [miss_of_anyM h hentry] at hhit
  cases hhit

theorem names_of_anyM {name : String} {list : Option (List String)}
    (h : (expandToolGroups rt list).anyM (matchToolPattern (normalizeToolName rt name)) = .ok true) :
    Names rt list name := (anyM_eq_true_iff.mp h).1

/-- A check that does not throw allows what the policy permits. -/
theorem isToolAllowedByPolicy_iff {name : String} {allowed : Bool}
    (h : isToolAllowedByPolicy rt name (some policy) = .ok allowed) :
    allowed = true ↔ Permits rt policy name := by
  dsimp only [isToolAllowedByPolicy] at h
  obtain ⟨denied, hdenied, h⟩ := Js.exists_of_bind_ok h
  cases denied with
  | true =>
    cases h
    refine ⟨fun hfalse => absurd hfalse Bool.false_ne_true, ?_⟩
    intro hpermits
    exact absurd (names_of_anyM hdenied) hpermits.notDenied
  | false =>
    have hnot := not_names_of_anyM hdenied
    by_cases hnil : expandToolGroups rt policy.allow = []
    · simp only [Bool.false_eq_true, if_false, hnil, if_true] at h
      cases h
      exact ⟨fun _ => ⟨hnot, Or.inl hnil⟩, fun _ => rfl⟩
    · simp only [Bool.false_eq_true, if_false, hnil] at h
      cases allowed with
      | true => exact ⟨fun _ => ⟨hnot, Or.inr (names_of_anyM h)⟩, fun _ => rfl⟩
      | false =>
        refine ⟨fun hfalse => absurd hfalse Bool.false_ne_true, ?_⟩
        rintro ⟨-, hunlisted | hnames⟩
        · exact absurd hunlisted hnil
        · exact absurd hnames (not_names_of_anyM h)

/-- What a policy leaves: the tools that it permits, in their order. -/
theorem filterToolsByPolicy_spec {policy : Option ToolPolicyLike}
    (h : filterToolsByPolicy rt tools policy = .ok kept) :
    kept.Sublist tools ∧
      ∀ tool, tool ∈ kept ↔ tool ∈ tools ∧ ∀ p ∈ policy, Permits rt p tool.name := by
  cases policy with
  | none =>
    rw [filterToolsByPolicy] at h
    cases h
    exact ⟨List.Sublist.refl _, fun tool => by simp⟩
  | some policy =>
    induction tools generalizing kept with
    | nil =>
      rw [filterToolsByPolicy] at h
      cases h
      exact ⟨List.Sublist.refl _, fun tool => by simp⟩
    | cons first tools ih =>
      rw [filterToolsByPolicy] at h
      obtain ⟨allowed, hallowed, h⟩ := Js.exists_of_bind_ok h
      obtain ⟨rest, hrest, h⟩ := Js.exists_of_bind_ok h
      obtain ⟨hsub, hmem⟩ := ih hrest
      have hiff := isToolAllowedByPolicy_iff hallowed
      simp only [Option.mem_some_iff, forall_eq'] at hmem ⊢
      cases allowed with
      | true =>
        cases h
        refine ⟨hsub.cons_cons first, fun tool => ?_⟩
        rw [if_pos rfl, List.mem_cons, List.mem_cons, hmem, or_and_right]
        refine or_congr_left (iff_self_and.mpr ?_)
        rintro rfl
        exact hiff.mp rfl
      | false =>
        cases h
        refine ⟨hsub.cons first, fun tool => ?_⟩
        rw [if_neg Bool.false_ne_true, hmem, List.mem_cons, or_and_right]
        refine (or_iff_right ?_).symm
        rintro ⟨rfl, hpermits⟩
        exact Bool.false_ne_true (hiff.mpr hpermits)

theorem filterToolsByPolicy_total {policy : Option ToolPolicyLike}
    (h : ∀ tool ∈ tools, ∃ allowed, isToolAllowedByPolicy rt tool.name policy = .ok allowed) :
    ∃ kept, filterToolsByPolicy rt tools policy = .ok kept := by
  cases policy with
  | none => exact ⟨tools, by rw [filterToolsByPolicy]⟩
  | some policy =>
    induction tools with
    | nil => exact ⟨[], by rw [filterToolsByPolicy]⟩
    | cons first tools ih =>
      obtain ⟨allowed, hallowed⟩ := h first List.mem_cons_self
      obtain ⟨rest, hrest⟩ := ih fun tool htool => h tool (List.mem_cons_of_mem _ htool)
      refine ⟨if allowed then first :: rest else rest, ?_⟩
      rw [filterToolsByPolicy, hallowed, hrest]
      rfl

/-- What the pipeline leaves: the tools that every policy permits. -/
theorem applyToolPolicyPipeline_spec {steps : List ToolPolicyPipelineStep}
    (h : applyToolPolicyPipeline rt tools steps = .ok kept) :
    kept.Sublist tools ∧
      ∀ tool, tool ∈ kept ↔ tool ∈ tools ∧ ∀ step ∈ steps, ∀ p ∈ step.policy, Permits rt p tool.name := by
  unfold applyToolPolicyPipeline at h
  induction steps generalizing tools with
  | nil =>
    cases h
    exact ⟨List.Sublist.refl _, fun tool => by simp⟩
  | cons step steps ih =>
    rw [List.foldlM_cons] at h
    obtain ⟨passed, hpassed, h⟩ := Js.exists_of_bind_ok h
    obtain ⟨hsub, hmem⟩ := filterToolsByPolicy_spec hpassed
    obtain ⟨hsub', hmem'⟩ := ih h
    refine ⟨hsub'.trans hsub, fun tool => ?_⟩
    rw [hmem', hmem, List.forall_mem_cons, and_assoc]

/-- No list of the policy has an entry that every object answers to. -/
def Plain (rt : Runtime) (policy : ToolPolicyLike) : Prop :=
  ∀ list ∈ [policy.allow, policy.deny], ∀ item ∈ list.getD [], rt.toLowerCase (trim item) ∉ OBJECT_NAMES

theorem anyM_total {α ε : Type} {test : α → Except ε Bool} {xs : List α}
    (h : ∀ x ∈ xs, ∃ hit, test x = .ok hit) : ∃ hit, xs.anyM test = .ok hit := by
  induction xs with
  | nil => exact ⟨false, rfl⟩
  | cons first rest ih =>
    obtain ⟨hit, htest⟩ := h first List.mem_cons_self
    cases hit with
    | true => exact ⟨true, anyM_cons_of_hit htest⟩
    | false =>
      rw [anyM_cons_of_miss htest]
      exact ih fun x hx => h x (List.mem_cons_of_mem _ hx)

theorem isToolAllowedByPolicy_total {name : String} (hplain : Plain rt policy)
    (hname : rt.toLowerCase (trim name) ∉ OBJECT_NAMES) :
    ∃ allowed, isToolAllowedByPolicy rt name (some policy) = .ok allowed := by
  have htest : ∀ list ∈ [policy.allow, policy.deny], ∃ hit,
      (expandToolGroups rt list).anyM (matchToolPattern (normalizeToolName rt name)) = .ok hit := by
    intro list hlist
    refine anyM_total fun entry hentry => ?_
    cases htest : matchToolPattern (normalizeToolName rt name) entry with
    | ok hit => exact ⟨hit, rfl⟩
    | error e =>
      rcases matchToolPattern_error_iff.mp ⟨e, htest⟩ with ⟨property, rfl⟩ | ⟨⟨property, hinherited⟩, -⟩
      · rw [← expand_getD] at hentry
        obtain ⟨item, hitem, hobject⟩ := mem_of_inherited hentry
        exact absurd hobject (hplain list hlist item hitem)
      · exact absurd (mem_of_normalizeToolName_inherited hinherited) hname
  obtain ⟨denied, hdenied⟩ := htest policy.deny (by simp)
  obtain ⟨allowed, hallowed⟩ := htest policy.allow (by simp)
  dsimp only [isToolAllowedByPolicy]
  rw [hdenied, Js.ok_bind]
  cases denied with
  | true => exact ⟨false, rfl⟩
  | false =>
    by_cases hnil : expandToolGroups rt policy.allow = []
    · rw [hnil]
      exact ⟨true, rfl⟩
    · exact ⟨allowed, by simp [hnil, hallowed]⟩

theorem applyToolPolicyPipeline_total {steps : List ToolPolicyPipelineStep}
    (hplain : ∀ step ∈ steps, ∀ p ∈ step.policy, Plain rt p)
    (hnames : ∀ tool ∈ tools, rt.toLowerCase (trim tool.name) ∉ OBJECT_NAMES) :
    ∃ kept, applyToolPolicyPipeline rt tools steps = .ok kept := by
  unfold applyToolPolicyPipeline
  induction steps generalizing tools with
  | nil => exact ⟨tools, rfl⟩
  | cons step steps ih =>
    obtain ⟨hfirst, hrest⟩ := List.forall_mem_cons.mp hplain
    have hpasses : ∃ passed, filterToolsByPolicy rt tools step.policy = .ok passed := by
      refine filterToolsByPolicy_total fun tool htool => ?_
      cases hpolicy : step.policy with
      | none => exact ⟨true, rfl⟩
      | some p => exact isToolAllowedByPolicy_total (hfirst p hpolicy) (hnames tool htool)
    obtain ⟨passed, hpassed⟩ := hpasses
    have hsub := (filterToolsByPolicy_spec hpassed).1
    obtain ⟨kept, hkept⟩ := ih hrest fun tool htool => hnames tool (hsub.subset htool)
    exact ⟨kept, by rw [List.foldlM_cons, hpassed, Js.ok_bind, hkept]⟩

end Filter

section Calls
variable {rt : Runtime} {o : ToolOptions} {tools : List AnyAgentTool}

/-- The names of the tools of the source, each of which is the normalized form of itself. -/
def TOOL_NAMES : List String :=
  ["exec", "process"] ++ createFilesystemTools ++ ["browser", "email", "web_search", "web_fetch"] ++ memoryTools

theorem normalizeToolName_self {name : String} (h : name ∈ TOOL_NAMES) :
    normalizeToolName rt name = .text name ∧ rt.toLowerCase (trim name) ∉ OBJECT_NAMES := by
  have hplain : ∀ name ∈ TOOL_NAMES,
      trim name = name ∧ name.toList.all Js.isAscii = true ∧
        String.ofList (name.toList.map Char.toLower) = name ∧
        TOOL_NAME_ALIASES.lookup name = none ∧ name ∉ OBJECT_NAMES := by decide
  obtain ⟨htrim, hascii, hlower, hlookup, hobject⟩ := hplain name h
  have hlow : rt.toLowerCase (trim name) = name := by rw [htrim, rt.lower_ascii name hascii, hlower]
  refine ⟨?_, by rwa [hlow]⟩
  dsimp only [normalizeToolName]
  rw [hlow, hlookup]
  exact if_neg hobject

theorem ite_sublist {α : Type} {c : Prop} [Decidable c] {xs ys zs : List α} (hx : xs.Sublist zs)
    (hy : ys.Sublist zs) : (if c then xs else ys).Sublist zs := by
  split_ifs
  · exact hx
  · exact hy

theorem baseTools_sublist (o : ToolOptions) : ((baseTools o).map (·.name)).Sublist TOOL_NAMES := by
  have hsearch : ∀ search key, (createWebSearchTool search key).Sublist ["web_search"] := fun search key =>
    ite_sublist (List.nil_sublist _) (ite_sublist (List.nil_sublist _) (List.Sublist.refl _))
  have hfetch : ∀ fetch, (createWebFetchTool fetch).Sublist ["web_fetch"] := fun fetch =>
    ite_sublist (List.Sublist.refl _) (List.nil_sublist _)
  have hnames : (baseTools o).map (·.name) =
      ["exec", "process"] ++ createFilesystemTools ++ createT560Tools o := by
    simp [baseTools, Function.comp_def]
  rw [hnames, createT560Tools]
  have hall : TOOL_NAMES = ["exec", "process"] ++ createFilesystemTools ++
      (["browser", "email"] ++ ["web_search"] ++ ["web_fetch"] ++ memoryTools) := rfl
  rw [hall]
  refine List.Sublist.append (List.Sublist.refl _) ?_
  refine List.Sublist.append ?_ (List.Sublist.refl _)
  exact ((List.Sublist.refl _).append (hsearch _ _)).append (hfetch _)

theorem baseTools_name {t : AnyAgentTool} (h : t ∈ baseTools o) : t.name ∈ TOOL_NAMES :=
  (baseTools_sublist o).subset (List.mem_map_of_mem h)

theorem eq_of_name {t u : AnyAgentTool} (ht : t ∈ baseTools o) (hu : u ∈ baseTools o)
    (h : t.name = u.name) : t = u := by
  have hnodup : ((baseTools o).map (·.name)).Nodup := (baseTools_sublist o).nodup (by decide)
  exact List.inj_on_of_nodup_map hnodup ht hu h

theorem applyOwnerOnlyToolPolicy_base (h : tools.Sublist (baseTools o)) (senderIsOwner : Bool) :
    applyOwnerOnlyToolPolicy tools senderIsOwner = tools := by
  unfold applyOwnerOnlyToolPolicy
  split_ifs
  · rfl
  · refine List.filter_eq_self.mpr fun tool htool => ?_
    obtain ⟨name, -, rfl⟩ := List.mem_map.mp (h.subset htool)
    rfl

/-- The policies that a tool has to pass. -/
def policiesOf (rt : Runtime) (o : ToolOptions) : List ToolPolicyLike :=
  if o.dangerouslyUnrestricted then [] else (policySteps rt o).filterMap (·.policy)

theorem forall_policiesOf (hrestricted : o.dangerouslyUnrestricted = false) (P : ToolPolicyLike → Prop) :
    (∀ policy ∈ policiesOf rt o, P policy) ↔ ∀ step ∈ policySteps rt o, ∀ policy ∈ step.policy, P policy := by
  rw [policiesOf, hrestricted, if_neg Bool.false_ne_true]
  constructor
  · intro h step hstep policy hpolicy
    exact h policy (List.mem_filterMap.mpr ⟨step, hstep, hpolicy⟩)
  · intro h policy hpolicy
    obtain ⟨step, hstep, hsome⟩ := List.mem_filterMap.mp hpolicy
    exact h step hstep policy hsome

/-- The tools of a run are those of the source that every policy permits, whoever asks. -/
theorem createT560CodingTools_spec (h : createT560CodingTools rt o = .ok tools) :
    tools.Sublist (baseTools o) ∧
      ∀ t, t ∈ tools ↔ t ∈ baseTools o ∧ ∀ policy ∈ policiesOf rt o, Permits rt policy t.name := by
  unfold createT560CodingTools at h
  dsimp only at h
  cases hrestricted : o.dangerouslyUnrestricted with
  | true =>
    rw [if_pos hrestricted, applyOwnerOnlyToolPolicy_base (List.Sublist.refl _)] at h
    cases h
    exact ⟨List.Sublist.refl _, fun t => by simp [policiesOf, hrestricted]⟩
  | false =>
    rw [if_neg (by rw [hrestricted]; exact Bool.false_ne_true)] at h
    obtain ⟨filtered, hfiltered, h⟩ := Js.exists_of_bind_ok h
    obtain ⟨hsub, hmem⟩ := applyToolPolicyPipeline_spec hfiltered
    rw [applyOwnerOnlyToolPolicy_base hsub] at h
    cases h
    refine ⟨hsub, fun t => ?_⟩
    rw [hmem, forall_policiesOf hrestricted]

/-- Of tools of the source a call runs the one whose name its own name is normalized to. -/
theorem findTool_iff (h : tools.Sublist (baseTools o)) {name : String} {t : AnyAgentTool} :
    findTool rt tools name = some t ↔ t ∈ tools ∧ normalizeToolName rt name = .text t.name := by
  have hself : ∀ u ∈ tools, normalizeToolName rt u.name = .text u.name := fun u hu =>
    (normalizeToolName_self (baseTools_name (h.subset hu))).1
  have honly : ∀ u ∈ tools, normalizeToolName rt u.name = normalizeToolName rt name →
      normalizeToolName rt name = .text u.name := fun u hu heq => by rw [← heq, hself u hu]
  have hfirst : ∀ u, tools.find? (fun candidate =>
      normalizeToolName rt candidate.name = normalizeToolName rt name) = some u →
        u ∈ tools ∧ normalizeToolName rt name = .text u.name := by
    intro u hu
    have heq : normalizeToolName rt u.name = normalizeToolName rt name := by simpa using List.find?_some hu
    exact ⟨List.mem_of_find?_eq_some hu, by rw [← heq, hself u (List.mem_of_find?_eq_some hu)]⟩
  constructor
  · intro hfound
    rcases Option.or_eq_some_iff.mp hfound with hone | ⟨-, hsecond⟩
    · exact hfirst t hone
    · have ht := List.mem_of_find?_eq_some hsecond
      have hname : t.name = name := by simpa using List.find?_some hsecond
      exact ⟨ht, by rw [← hname, hself t ht]⟩
  · rintro ⟨ht, hname⟩
    have hsome : (tools.find? fun candidate =>
        normalizeToolName rt candidate.name = normalizeToolName rt name).isSome := by
      rw [List.find?_isSome]
      exact ⟨t, ht, by simp [hself t ht, hname]⟩
    obtain ⟨u, hu⟩ := Option.isSome_iff_exists.mp hsome
    obtain ⟨hmem, heq⟩ := hfirst u hu
    have hut : u.name = t.name := ToolName.text.inj (heq.symm.trans hname)
    rw [findTool, hu, eq_of_name (h.subset hmem) (h.subset ht) hut]
    rfl

theorem toToolDefinitions_base (h : tools.Sublist (baseTools o)) :
    toToolDefinitions rt tools = tools.map fun t => .text t.name := by
  have hne : "" ∉ TOOL_NAMES := by decide
  refine List.map_congr_left fun t ht => ?_
  have hname := baseTools_name (h.subset ht)
  rw [if_neg (by rintro hempty; rw [hempty] at hname; exact hne hname)]
  exact (normalizeToolName_self hname).1

/-- The tools can be made when no list names what every object answers to. -/
theorem createT560CodingTools_total (hplain : ∀ policy ∈ policiesOf rt o, Plain rt policy) :
    ∃ tools, createT560CodingTools rt o = .ok tools := by
  unfold createT560CodingTools
  dsimp only
  cases hrestricted : o.dangerouslyUnrestricted with
  | true => exact ⟨_, rfl⟩
  | false =>
    obtain ⟨kept, hkept⟩ := @applyToolPolicyPipeline_total rt (baseTools o) (policySteps rt o)
      ((forall_policiesOf hrestricted _).mp hplain)
      fun tool htool => (normalizeToolName_self (baseTools_name htool)).2
    rw [hkept]
    exact ⟨_, rfl⟩

/-- The turn asks for the tool: small talk asks for none, the mail tool needs a reason, and in compact
mode so do the tools of the web and those of the memory. -/
structure AsksFor (signs : TurnSigns) (toolName : String) : Prop where
  talk : signs.smallTalkTurn = false
  email : toolName = "email" → signs.emailToolAllowed = true ∧ (signs.compactMode = true → signs.needsEmail = true)
  web : toolName ∈ ["browser", "web_search", "web_fetch"] → signs.compactMode = true → signs.needsWeb = true
  memory : toolName ∈ memoryTools → signs.compactMode = true → signs.needsMemory = true

theorem lower_toolName {name : String} (h : name ∈ TOOL_NAMES) :
    rt.toLowerCase name = name ∧ rt.toLowerCase (trim name) = name := by
  have hplain : ∀ name ∈ TOOL_NAMES, trim name = name ∧ name.toList.all Js.isAscii = true ∧
      String.ofList (name.toList.map Char.toLower) = name := by decide
  obtain ⟨htrim, hascii, hlower⟩ := hplain name h
  have hlow : rt.toLowerCase name = name := by rw [rt.lower_ascii name hascii, hlower]
  exact ⟨hlow, by rw [htrim, hlow]⟩

theorem mem_memoryTools_iff {name : String} (h : name ∈ TOOL_NAMES) :
    startsWith "memory_" name = true ↔ name ∈ memoryTools := by
  have hall : ∀ name ∈ TOOL_NAMES, startsWith "memory_" name = true ↔ name ∈ memoryTools := by decide
  exact hall name h

theorem selectToolsForCompactMode_spec (h : ∀ t ∈ tools, t.name ∈ TOOL_NAMES) (signs : TurnSigns) (t : AnyAgentTool) :
    t ∈ selectToolsForCompactMode rt tools signs ↔ t ∈ tools ∧
      (t.name ∈ memoryTools → signs.needsMemory = true) ∧
      (t.name ∈ ["browser", "web_search", "web_fetch"] → signs.needsWeb = true) ∧
      (t.name = "email" → signs.needsEmail = true) := by
  rw [selectToolsForCompactMode, List.mem_filter]
  refine and_congr_right fun ht => ?_
  have htests : ∀ memory web email needsMemory needsWeb needsEmail : Bool,
      (if !needsMemory && memory then false else if !needsWeb && web then false
        else if !needsEmail && email then false else true) = true ↔
      (memory = true → needsMemory = true) ∧ (web = true → needsWeb = true) ∧
        (email = true → needsEmail = true) := by decide
  dsimp only
  rw [(lower_toolName (h t ht)).2, htests, mem_memoryTools_iff (h t ht)]
  simp [or_assoc]

/-- What a turn leaves of the tools: those that it asks for. -/
theorem turnTools_spec {signs : TurnSigns} (h : turnTools rt o signs = .ok tools) :
    tools.Sublist (baseTools o) ∧
      ∀ t, t ∈ tools ↔ t ∈ baseTools o ∧ (∀ policy ∈ policiesOf rt o, Permits rt policy t.name) ∧
        AsksFor signs t.name := by
  unfold turnTools at h
  cases htalk : signs.smallTalkTurn with
  | true =>
    rw [if_pos htalk] at h
    cases h
    refine ⟨List.nil_sublist _, fun t => ⟨fun ht => absurd ht List.not_mem_nil, ?_⟩⟩
    rintro ⟨-, -, hasks⟩
    rw [hasks.talk] at htalk
    cases htalk
  | false =>
    rw [if_neg (by rw [htalk]; exact Bool.false_ne_true)] at h
    obtain ⟨created, hcreated, h⟩ := Js.exists_of_bind_ok h
    obtain ⟨hsub, hmem⟩ := createT560CodingTools_spec hcreated
    obtain rfl := (Except.ok.inj h).symm
    have hname : ∀ t ∈ created, t.name ∈ TOOL_NAMES := fun t ht => baseTools_name (hsub.subset ht)
    have hemail : ∀ t, t ∈ created.filter (fun tool => signs.emailToolAllowed || rt.toLowerCase tool.name ≠ "email") ↔
        t ∈ created ∧ (t.name = "email" → signs.emailToolAllowed = true) := by
      intro t
      rw [List.mem_filter]
      refine and_congr_right fun ht => ?_
      rw [(lower_toolName (hname t ht)).1]
      cases signs.emailToolAllowed <;> simp
    have hkeeps := fun t ht => hname t ((hemail t).mp ht).1
    cases hcompact : signs.compactMode with
    | true =>
      rw [if_pos rfl]
      refine ⟨List.filter_sublist.trans (List.filter_sublist.trans hsub), fun t => ?_⟩
      rw [selectToolsForCompactMode_spec hkeeps, hemail, hmem]
      constructor
      · rintro ⟨⟨⟨hbase, hpermits⟩, hallowed⟩, hmemory, hweb, hneeds⟩
        exact ⟨hbase, hpermits, htalk, fun he => ⟨hallowed he, fun _ => hneeds he⟩, fun hw _ => hweb hw,
          fun hm _ => hmemory hm⟩
      · rintro ⟨hbase, hpermits, hasks⟩
        exact ⟨⟨⟨hbase, hpermits⟩, fun he => (hasks.email he).1⟩, fun hm => hasks.memory hm hcompact,
          fun hw => hasks.web hw hcompact, fun he => (hasks.email he).2 hcompact⟩
    | false =>
      rw [if_neg Bool.false_ne_true]
      refine ⟨List.filter_sublist.trans hsub, fun t => ?_⟩
      rw [hemail, hmem]
      constructor
      · rintro ⟨⟨hbase, hpermits⟩, hallowed⟩
        refine ⟨hbase, hpermits, htalk, fun he => ⟨hallowed he, ?_⟩, ?_, ?_⟩ <;>
          simp [hcompact]
      · rintro ⟨hbase, hpermits, hasks⟩
        exact ⟨⟨hbase, hpermits⟩, fun he => (hasks.email he).1⟩

/-- A provider is offered the tools of the turn by their names. A call of the turn finds a tool just
when the source has it, every policy permits it, the turn asks for it, and the name in the call is
normalized to that of the tool. The tools can be made when no list names what every object answers to. -/
theorem call_runs_iff (rt : Runtime) (o : ToolOptions) (signs : TurnSigns) :
    ((∀ policy ∈ policiesOf rt o, Plain rt policy) → ∃ tools, turnTools rt o signs = .ok tools) ∧
      ∀ tools, turnTools rt o signs = .ok tools →
        (toToolDefinitions rt tools = tools.map fun t => .text t.name) ∧
        ∀ name t, findTool rt tools name = some t ↔
          t ∈ baseTools o ∧ (∀ policy ∈ policiesOf rt o, Permits rt policy t.name) ∧
            AsksFor signs t.name ∧ normalizeToolName rt name = .text t.name := by
  constructor
  · intro hplain
    obtain ⟨created, hcreated⟩ := createT560CodingTools_total hplain
    unfold turnTools
    rw [hcreated]
    cases signs.smallTalkTurn <;> exact ⟨_, rfl⟩
  · intro tools h
    obtain ⟨hsub, hmem⟩ := turnTools_spec h
    refine ⟨toToolDefinitions_base hsub, fun name t => ?_⟩
    rw [findTool_iff hsub, hmem, and_assoc, and_assoc]

/-- A configuration that denies the shell. -/
def noShell : ToolOptions where
  tools := some {
    dangerouslyUnrestricted := none, profile := some .coding, allow := none, alsoAllow := none
    deny := some ["Bash", "process"], byProvider := none, runtime := none, fs := none, exec := none
    web := none, selfProtection := none }
  modelProvider := none
  senderIsOwner := some true
  BRAVE_API_KEY := none

/-- A message about the web in compact mode. -/
def webTurn : TurnSigns where
  smallTalkTurn := false
  compactMode := true
  emailToolAlways := false
  pendingMfa := false
  messageLikelyNeedsEmailTool := false
  looksLikeLoginIntent := false
  looksLikeSiteVisitIntent := false
  looksLikeAccountDashboardIntent := false
  wordsOfWeb := true
  wordsOfMemory := false

theorem call_runs_iff_noShell : ∃ tools, turnTools Js.asciiRuntime noShell webTurn = .ok tools ∧
    findTool Js.asciiRuntime tools " EXEC" = none ∧ findTool Js.asciiRuntime tools "memory_get" = none ∧
    (findTool Js.asciiRuntime tools " Read").isSome := by
  have hpolicies : policiesOf Js.asciiRuntime noShell = [
      { allow := some ["group:runtime", "group:fs", "group:web", "group:memory", "group:ui", "group:email"] },
      { deny := some ["Bash", "process"] }] := rfl
  have hall := call_runs_iff Js.asciiRuntime noShell webTurn
  rw [hpolicies] at hall
  obtain ⟨tools, htools⟩ := hall.1 (by simp only [List.forall_mem_cons, Plain]; decide)
  have hiff := (hall.2 tools htools).2
  refine ⟨tools, htools, ?_, ?_, ?_⟩
  · refine Option.eq_none_iff_forall_not_mem.mpr fun t ht => ?_
    obtain ⟨-, hpermits, -, hname⟩ := (hiff " EXEC" t).mp ht
    have hexec : normalizeToolName Js.asciiRuntime " EXEC" = .text "exec" := by decide
    rw [← ToolName.text.inj (hexec.symm.trans hname)] at hpermits
    exact (hpermits { deny := some ["Bash", "process"] } (by simp)).notDenied
      ⟨.text "exec", by decide, by decide⟩
  · refine Option.eq_none_iff_forall_not_mem.mpr fun t ht => ?_
    obtain ⟨-, -, hasks, hname⟩ := (hiff "memory_get" t).mp ht
    have hget : normalizeToolName Js.asciiRuntime "memory_get" = .text "memory_get" := by decide
    rw [← ToolName.text.inj (hget.symm.trans hname)] at hasks
    exact absurd (hasks.memory (by decide) rfl) (by decide)
  · refine Option.isSome_iff_exists.mpr ⟨⟨"read", none⟩, (hiff _ _).mpr ⟨by decide, ?_, ?_, by decide⟩⟩
    · simp only [List.forall_mem_cons]
      refine ⟨⟨?_, Or.inr ⟨.text "read", by decide, by decide⟩⟩, ⟨?_, Or.inl rfl⟩, by simp⟩
      · exact not_names_of_anyM (by decide)
      · exact not_names_of_anyM (by decide)
    · exact ⟨rfl, fun h => absurd h (by decide), fun h => absurd h (by decide), fun h => absurd h (by decide)⟩

end Calls

end T560.Tools
