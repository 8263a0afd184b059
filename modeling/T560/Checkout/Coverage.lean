import T560.Browser.Gestures
import T560.Checkout.Detect
import T560.Js.Ascii
import T560.Provider.Ledger

/-!
# Which submitting calls the guard sees

The chat loop adds the last page URL to a call before the guard looks at it. The guard covers
a call that clicks, submits or presses Enter on a checkout exactly when it watches the action
and one of the fields it reads, or the added URL, names the checkout.
-/

namespace T560.Checkout

open Browser (Page wouldSubmit normalizeToolArgs normalizeBrowserActionParams fieldRows)
open Js (Value Runtime JsError exists_of_bind_ok ok_bind trim)
open Js.Value (trimmedText textOrEmpty)
open Provider (ToolOutcome ToolEnv actionOf getNestedRecord nested normalizeName parseJsonRecord)

/-- The surroundings of a chat round; `urlText` is the text of `new URL(raw)`. -/
structure PageEnv where
  tools : ToolEnv
  urlText : String → Option String

variable (env : PageEnv)

/-! ## Page context -/

def firstUrl : List String → Option String
  | [] => none
  | raw :: rest =>
    match env.urlText raw with
    | some url => if url = "" then firstUrl rest else some url
    | none => firstUrl rest

def extractUrlFromBrowserOutcomeContent (content : String) : Except JsError (Option String) := do
  match parseJsonRecord env.tools content with
  | none => return none
  | some parsed =>
    let candidates ← [parsed.get? "url", nested (getNestedRecord parsed "snapshot") "url",
      nested (getNestedRecord parsed "tab") "url",
      nested (getNestedRecord parsed "openedSnapshot") "url"].mapM (textOrEmpty env.tools.rt)
    return firstUrl env ((candidates.map trim).filter (· ≠ ""))

def firstOutcomeUrl : List ToolOutcome → Except JsError (Option String)
  | [] => .ok none
  | outcome :: rest => do
    match ← extractUrlFromBrowserOutcomeContent env outcome.content with
    | some url => return some url
    | none => firstOutcomeUrl rest

def latestBrowserUrlFromToolOutcomes (outcomes : List ToolOutcome) : Except JsError (Option String) :=
  firstOutcomeUrl env (outcomes.filter fun o =>
    !o.isError && normalizeName env.tools.rt o.toolName == "browser").reverse

/-- The first text of `a || b || …` that is not blank. -/
def firstText (rt : Runtime) : List (Option Value) → Except JsError String
  | [] => .ok ""
  | v :: rest => do
    let text ← trimmedText rt [v]
    if text ≠ "" then return text else firstText rt rest

def knownUrlFields : List String := ["currentUrl", "currentPageUrl", "url", "targetUrl"]

def enrichCheckoutArgsWithPageContext (toolName : String) (toolArgs : Value)
    (toolOutcomes : List ToolOutcome) : Except JsError Value := do
  if normalizeName env.tools.rt toolName ≠ "browser" then return toolArgs
  if !toolArgs.isRecord then return toolArgs
  let action ← actionOf env.tools.rt toolArgs
  if action = "" ∨ action ∉ ["click", "submit", "act", "press"] then return toolArgs
  let knownUrl ← firstText env.tools.rt (knownUrlFields.map toolArgs.get?)
  if knownUrl ≠ "" then return toolArgs
  match ← latestBrowserUrlFromToolOutcomes env toolOutcomes with
  | none => return toolArgs
  | some latestUrl => return toolArgs.set "currentPageUrl" (.str latestUrl)

/-- What the chat loop asks the guard about a call. -/
def checkoutRisk (args : Value) (outcomes : List ToolOutcome) : Except JsError (Option CheckoutRisk) := do
  detectCheckoutRisk env.tools.rt "browser"
    (← enrichCheckoutArgsWithPageContext env "browser" args outcomes)

/-! ## The property -/

/-- The fields `execute` finds its element by. -/
def targetFields : List String := ["selector", "ref", "fieldName", "linkText", "hrefContains"]

def rowFields : List String := ["selector", "ref", "fieldRef", "fieldName", "name"]

/-- The texts that say what the call acts on, as the tool reads them. -/
def targetValues (args : Value) : Except JsError (List (Option Value)) := do
  let params ← normalizeBrowserActionParams env.tools.rt
    (← normalizeToolArgs env.tools.rt "browser" args)
  return targetFields.map params.get? ++ (fieldRows params).flatMap fun row => rowFields.map row.get?

/-- The last page URL or a target text of the call matches one of the two patterns. -/
def OnCheckout (args : Value) (outcomes : List ToolOutcome) : Prop :=
  (∃ url, latestBrowserUrlFromToolOutcomes env outcomes = .ok (some url) ∧ namesCheckout url = true) ∨
    ∃ values, targetValues env args = .ok values ∧
      ∃ v ∈ values, ∃ text, textOrEmpty env.tools.rt v = .ok text ∧ namesCheckout text = true

/-- The guard reports a risk for the call if it submits something on a checkout. -/
def Covered (page : Page) (args : Value) (outcomes : List ToolOutcome) : Prop :=
  wouldSubmit env.tools.rt page args = true → OnCheckout env args outcomes →
    ∃ risk, checkoutRisk env args outcomes = .ok (some risk)

/-- The call carries no URL of its own, so the last page URL is looked up. -/
structure LooksUpUrl (args : Value) : Prop where
  action : ∃ action, actionOf env.tools.rt args = .ok action ∧ action ∈ checkoutActions
  blank : ∀ key ∈ knownUrlFields, trimmedText env.tools.rt [args.get? key] = .ok ""

/-- The guard sees that the call is a checkout: it watches the action, every field it reads converts
to text, and one of them names a checkout or the page URL looked up does. -/
structure GuardSees (args : Value) (outcomes : List ToolOutcome) : Prop where
  watched : Watched env.tools.rt args
  readable : ∀ v ∈ hintValues args, Readable env.tools.rt v
  lookedUp : LooksUpUrl env args → ∃ url, latestBrowserUrlFromToolOutcomes env outcomes = .ok url
  named : (∃ v ∈ hintValues args, NamesCheckout env.tools.rt v) ∨
    LooksUpUrl env args ∧ ∃ url, latestBrowserUrlFromToolOutcomes env outcomes = .ok (some url) ∧
      namesCheckout (env.tools.rt.toLowerCase (compactText url)) = true

/-! ## The URL lookup -/

theorem normalizeName_browser (rt : Runtime) : normalizeName rt "browser" = "browser" := by
  rw [normalizeName, rt.lower_ascii _ (by decide)]
  decide

theorem compact_of_blank {rt : Runtime} {v : Option Value} (h : trimmedText rt [v] = .ok "") :
    compact rt v = .ok "" := by
  rw [Js.Value.trimmedText_single] at h
  obtain ⟨text, htext, h⟩ := exists_of_bind_ok h
  rw [compact, htext, ok_bind]
  exact congrArg Except.ok (Js.trim_collapse_blank (Except.ok.inj h))

theorem exists_trimmedText {rt : Runtime} {v : Option Value} (h : Readable rt v) :
    ∃ text, trimmedText rt [v] = .ok text := by
  obtain ⟨text, h⟩ := h
  obtain ⟨raw, hraw, -⟩ := exists_of_bind_ok h
  rw [Js.Value.trimmedText_single, hraw]
  exact ⟨trim raw, rfl⟩

theorem firstText_blank {rt : Runtime} {values : List (Option Value)} :
    firstText rt values = .ok "" ↔ ∀ v ∈ values, trimmedText rt [v] = .ok "" := by
  induction values with
  | nil => simp [firstText]
  | cons v values ih =>
    rw [List.forall_mem_cons, ← ih]
    constructor
    · intro h
      obtain ⟨text, htext, h⟩ := exists_of_bind_ok h
      split at h
      · next hne =>
        cases h
        exact absurd rfl hne
      · next heq => exact ⟨not_not.mp heq ▸ htext, h⟩
    · rintro ⟨hv, hrest⟩
      rw [firstText, hv, ok_bind, if_neg (not_not.mpr rfl)]
      exact hrest

theorem exists_firstText {rt : Runtime} {values : List (Option Value)}
    (h : ∀ v ∈ values, Readable rt v) : ∃ text, firstText rt values = .ok text := by
  induction values with
  | nil => exact ⟨"", rfl⟩
  | cons v values ih =>
    obtain ⟨hv, hrest⟩ := List.forall_mem_cons.mp h
    obtain ⟨text, htext⟩ := exists_trimmedText hv
    rw [firstText, htext, ok_bind]
    split
    · exact ⟨text, rfl⟩
    · exact ih hrest

theorem looksUpUrl_iff {args : Value} :
    LooksUpUrl env args ↔ (∃ action, actionOf env.tools.rt args = .ok action ∧ action ∈ checkoutActions) ∧
      firstText env.tools.rt (knownUrlFields.map args.get?) = .ok "" := by
  rw [firstText_blank, List.forall_mem_map]
  exact ⟨fun h => ⟨h.action, h.blank⟩, fun h => ⟨h.1, h.2⟩⟩

/-- The arguments with the URL that was found. -/
def withPageUrl (args : Value) : Option String → Value
  | none => args
  | some url => args.set "currentPageUrl" (.str url)

theorem enrich_lookup {args : Value} {outcomes : List ToolOutcome} (h : LooksUpUrl env args)
    (hrec : args.isRecord = true) :
    enrichCheckoutArgsWithPageContext env "browser" args outcomes =
      (do return withPageUrl args (← latestBrowserUrlFromToolOutcomes env outcomes)) := by
  obtain ⟨⟨action, haction, hin⟩, hblank⟩ := (looksUpUrl_iff env).mp h
  have hlisted : ¬ (action = "" ∨ action ∉ ["click", "submit", "act", "press"]) := by
    rintro (rfl | hno)
    · exact absurd hin (by decide)
    · exact hno hin
  rw [enrichCheckoutArgsWithPageContext, if_neg (not_not.mpr (normalizeName_browser env.tools.rt)),
    if_neg (by simp [hrec]), haction, ok_bind, if_neg hlisted, hblank, ok_bind,
    if_neg (not_not.mpr rfl)]
  congr 1
  funext url
  cases url <;> rfl

/-- Without a lookup the arguments stay as they are, if the enrichment returns at all. -/
theorem enrich_same {args enriched : Value} {outcomes : List ToolOutcome}
    (h : ¬ LooksUpUrl env args)
    (he : enrichCheckoutArgsWithPageContext env "browser" args outcomes = .ok enriched) :
    enriched = args := by
  rw [looksUpUrl_iff] at h
  rw [enrichCheckoutArgsWithPageContext, if_neg (not_not.mpr (normalizeName_browser env.tools.rt))] at he
  split at he
  · cases he
    rfl
  · obtain ⟨action, haction, he⟩ := exists_of_bind_ok he
    split at he
    · cases he
      rfl
    · next hlisted =>
      obtain ⟨knownUrl, hknown, he⟩ := exists_of_bind_ok he
      split at he
      · cases he
        rfl
      · next hurl =>
        rw [not_or, not_not] at hlisted
        rw [not_not.mp hurl] at hknown
        exact absurd ⟨⟨action, haction, hlisted.2⟩, hknown⟩ h

theorem exists_enrich {args : Value} (outcomes : List ToolOutcome) (h : ¬ LooksUpUrl env args)
    (haction : Readable env.tools.rt (args.get? "action"))
    (hknown : ∀ key ∈ knownUrlFields, Readable env.tools.rt (args.get? key)) :
    ∃ enriched, enrichCheckoutArgsWithPageContext env "browser" args outcomes = .ok enriched := by
  rw [looksUpUrl_iff] at h
  rw [enrichCheckoutArgsWithPageContext, if_neg (not_not.mpr (normalizeName_browser env.tools.rt))]
  split
  · exact ⟨args, rfl⟩
  · obtain ⟨text, htext⟩ := exists_trimmedText haction
    have hact : actionOf env.tools.rt args = .ok (env.tools.rt.toLowerCase text) := by
      rw [actionOf, htext, ok_bind]
      rfl
    rw [hact, ok_bind]
    split
    · exact ⟨args, rfl⟩
    · next hlisted =>
      obtain ⟨known, hk⟩ := exists_firstText (List.forall_mem_map.mpr hknown)
      rw [hk, ok_bind]
      split
      · exact ⟨args, rfl⟩
      · next hurl =>
        rw [not_or, not_not] at hlisted
        rw [not_not.mp hurl] at hk
        exact absurd ⟨⟨_, hact, hlisted.2⟩, hk⟩ h

/-! ## What the added URL changes -/

theorem mem_hintValues {args : Value} {v : Option Value} :
    v ∈ hintValues args ↔ (∃ key ∈ hintFields, args.get? key = v) ∨
      ∃ req, args.record? "request" = some req ∧ ∃ key ∈ requestHintFields, req.get? key = v := by
  rw [hintValues, List.mem_append, List.mem_map]
  cases args.record? "request" with
  | none => simp
  | some req => simp [List.mem_map]

theorem record?_withUrl {args : Value} (hrec : args.isRecord = true) (url : Value) :
    (args.set "currentPageUrl" url).record? "request" = args.record? "request" := by
  rw [Value.record?, Value.record?, Js.Value.get?_set hrec, if_neg (by decide)]

/-- A field that holds where the old page URL does not: the new URL has it, or an old field. -/
theorem exists_hint_withUrl {args : Value} (hrec : args.isRecord = true) (url : Value)
    {P : Option Value → Prop} (hold : ¬ P (args.get? "currentPageUrl")) :
    (∃ v ∈ hintValues (args.set "currentPageUrl" url), P v) ↔
      (∃ v ∈ hintValues args, P v) ∨ P (some url) := by
  simp only [mem_hintValues, record?_withUrl hrec, Js.Value.get?_set hrec]
  constructor
  · rintro ⟨v, ⟨key, hkey, rfl⟩ | hreq, hv⟩
    · by_cases hk : key = "currentPageUrl"
      · rw [if_pos hk] at hv
        exact .inr hv
      · rw [if_neg hk] at hv
        exact .inl ⟨_, .inl ⟨key, hkey, rfl⟩, hv⟩
    · exact .inl ⟨v, .inr hreq, hv⟩
  · rintro (⟨v, ⟨key, hkey, rfl⟩ | hreq, hv⟩ | hurl)
    · have hk : key ≠ "currentPageUrl" := by
        rintro rfl
        exact hold hv
      exact ⟨_, .inl ⟨key, hkey, if_neg hk⟩, hv⟩
    · exact ⟨v, .inr hreq, hv⟩
    · exact ⟨_, .inl ⟨"currentPageUrl", by decide, if_pos rfl⟩, hurl⟩

theorem watched_withUrl {rt : Runtime} {args : Value} (hrec : args.isRecord = true) (url : Value) :
    Watched rt (args.set "currentPageUrl" url) ↔ Watched rt args := by
  unfold Watched
  rw [Js.Value.get?_set hrec, Js.Value.get?_set hrec, if_neg (by decide), if_neg (by decide)]

theorem not_names_of_blank {rt : Runtime} {v : Option Value} (h : compact rt v = .ok "") :
    ¬ NamesCheckout rt v := by
  rintro ⟨text, htext, hm⟩
  rw [h] at htext
  cases htext
  rw [rt.toLowerCase_empty, namesCheckout_empty] at hm
  cases hm

theorem compact_str (rt : Runtime) (s : String) : compact rt (some (.str s)) = .ok (compactText s) := by
  rw [compact, Js.Value.textOrEmpty_str, ok_bind]
  rfl

theorem names_str {rt : Runtime} {s : String} :
    NamesCheckout rt (some (.str s)) ↔ namesCheckout (rt.toLowerCase (compactText s)) = true := by
  rw [NamesCheckout, compact_str]
  constructor
  · rintro ⟨text, htext, hm⟩
    rwa [Except.ok.inj htext]
  · intro hm
    exact ⟨compactText s, rfl, hm⟩

/-- The guard's verdict on the enriched call in terms of the call and the URL found. -/
theorem detect_withPageUrl {args : Value} {found : Option String} (h : LooksUpUrl env args)
    (hrec : args.isRecord = true) :
    (∃ risk, detectCheckoutRisk env.tools.rt "browser" (withPageUrl args found) = .ok (some risk)) ↔
      Watched env.tools.rt args ∧ (∀ v ∈ hintValues args, Readable env.tools.rt v) ∧
        ((∃ v ∈ hintValues args, NamesCheckout env.tools.rt v) ∨
          ∃ url, found = some url ∧ namesCheckout (env.tools.rt.toLowerCase (compactText url)) = true) := by
  have hblank := compact_of_blank (h.blank "currentPageUrl" (by decide))
  cases found with
  | none =>
    rw [withPageUrl, detect_risk_iff]
    simp
  | some url =>
    have hread : (∀ v ∈ hintValues (args.set "currentPageUrl" (.str url)), Readable env.tools.rt v) ↔
        ∀ v ∈ hintValues args, Readable env.tools.rt v := by
      have hex := exists_hint_withUrl hrec (.str url) (P := fun v => ¬ Readable env.tools.rt v)
        (not_not.mpr ⟨"", hblank⟩)
      rw [← not_iff_not]
      simp only [not_forall, exists_prop] at hex ⊢
      rw [hex, or_iff_left]
      exact not_not.mpr ⟨_, compact_str env.tools.rt url⟩
    rw [withPageUrl, detect_risk_iff, watched_withUrl hrec, hread,
      exists_hint_withUrl hrec (.str url) (not_names_of_blank hblank), names_str]
    simp

theorem isRecord_of_action {args : Value}
    (h : ∃ action, actionOf env.tools.rt args = .ok action ∧ action ∈ checkoutActions) :
    args.isRecord = true := by
  by_contra hno
  obtain ⟨action, haction, hin⟩ := h
  have hempty : actionOf env.tools.rt args = .ok "" := by
    rw [actionOf, Js.Value.get?_of_not_record hno, Js.Value.trimmedText_absent, ok_bind,
      env.tools.rt.toLowerCase_empty]
    rfl
  rw [hempty] at haction
  cases haction
  exact absurd hin (by decide)

theorem risk_lookup_iff {args : Value} {outcomes : List ToolOutcome} (hlook : LooksUpUrl env args) :
    (∃ risk, checkoutRisk env args outcomes = .ok (some risk)) ↔ GuardSees env args outcomes := by
  have hrec := isRecord_of_action env hlook.action
  constructor
  · rintro ⟨risk, h⟩
    obtain ⟨enriched, he, h⟩ := exists_of_bind_ok h
    rw [enrich_lookup env hlook hrec] at he
    obtain ⟨found, hfound, he⟩ := exists_of_bind_ok he
    cases he
    obtain ⟨hw, hr, hn⟩ := (detect_withPageUrl env hlook hrec).mp ⟨risk, h⟩
    refine ⟨hw, hr, fun _ => ⟨found, hfound⟩, ?_⟩
    rcases hn with hn | ⟨url, rfl, hn⟩
    · exact .inl hn
    · exact .inr ⟨hlook, url, hfound, hn⟩
  · rintro ⟨hw, hr, hl, hn⟩
    obtain ⟨found, hfound⟩ := hl hlook
    have hnamed : (∃ v ∈ hintValues args, NamesCheckout env.tools.rt v) ∨
        ∃ url, found = some url ∧
          namesCheckout (env.tools.rt.toLowerCase (compactText url)) = true := by
      rcases hn with hn | ⟨-, url, hurl, hn⟩
      · exact .inl hn
      · rw [hfound] at hurl
        exact .inr ⟨url, Except.ok.inj hurl, hn⟩
    obtain ⟨risk, hrisk⟩ := (detect_withPageUrl env hlook hrec).mpr ⟨hw, hr, hnamed⟩
    refine ⟨risk, ?_⟩
    rw [checkoutRisk, enrich_lookup env hlook hrec, hfound, ok_bind]
    exact hrisk

theorem risk_same_iff {args : Value} {outcomes : List ToolOutcome} (hlook : ¬ LooksUpUrl env args) :
    (∃ risk, checkoutRisk env args outcomes = .ok (some risk)) ↔ GuardSees env args outcomes := by
  constructor
  · rintro ⟨risk, h⟩
    obtain ⟨enriched, he, h⟩ := exists_of_bind_ok h
    cases enrich_same env hlook he
    obtain ⟨hw, hr, hn⟩ := (detect_risk_iff env.tools.rt).mp ⟨risk, h⟩
    exact ⟨hw, hr, fun hl => absurd hl hlook, .inl hn⟩
  · rintro ⟨hw, hr, -, hn⟩
    have hnamed := hn.resolve_right fun hl => hlook hl.1
    obtain ⟨action, haction, -⟩ := id hw
    have hknown : ∀ key ∈ knownUrlFields, Readable env.tools.rt (args.get? key) := by
      intro key hkey
      refine hr _ (mem_hintValues.mpr (.inl ⟨key, ?_, rfl⟩))
      simp only [knownUrlFields, List.mem_cons, List.not_mem_nil, or_false] at hkey
      rcases hkey with rfl | rfl | rfl | rfl <;> simp [hintFields]
    obtain ⟨enriched, he⟩ := exists_enrich env outcomes hlook ⟨action, haction⟩ hknown
    obtain ⟨risk, hrisk⟩ := (detect_risk_iff env.tools.rt).mpr ⟨hw, hr, hnamed⟩
    refine ⟨risk, ?_⟩
    rw [checkoutRisk, he, ok_bind, enrich_same env hlook he]
    exact hrisk

theorem risk_iff_guardSees {args : Value} {outcomes : List ToolOutcome} :
    (∃ risk, checkoutRisk env args outcomes = .ok (some risk)) ↔ GuardSees env args outcomes := by
  by_cases hlook : LooksUpUrl env args
  · exact risk_lookup_iff env hlook
  · exact risk_same_iff env hlook

def shopUrl : String := "https://shop.example/checkout"

def shopContent : String := "\x7b\"url\":\"https://shop.example/checkout\"\x7d"

def shopEnv : PageEnv where
  tools :=
    { rt := Js.asciiRuntime
      parse := fun text => if text = shopContent then some (.obj [("url", .str shopUrl)]) else none
      execution := fun _ => { result := .error "" }
      looksLikeStateMutationCommand := fun _ => false
      looksLikeStateVerificationCommand := fun _ => false }
  urlText := fun raw => if raw = shopUrl then some shopUrl else none

/-- A page where every action goes through. -/
def openPage : Page where
  lands := fun _ _ => true
  clicksField := fun _ => false
  pressesEnter := fun key => key == "Enter"
  scriptSubmits := fun _ => false

def typeAndSubmit : Value :=
  .obj [("action", .str "type"), ("ref", .str "e7"), ("value", .str "SAVE10"), ("submit", .bool true)]

example : checkoutRisk shopEnv (typeAndSubmit.set "action" (.str "act"))
    [⟨"browser", false, shopContent⟩] = .ok (some ⟨"act", checkoutReason, some shopUrl⟩) := by
  decide

end T560.Checkout
