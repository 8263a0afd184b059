import T560.Js.Value
import T560.Vault.Store

/-!
# The credential of a login

Which credential the `login` action takes for a page: first the one stored under a name
derived from the `service` argument or the page's host, then one whose service or website
host is related to the page's host. Neither pass asks that the page lies within the site of the
credential; `LoginStaysOnSite` says of the names and the vault when it does.
-/

namespace T560.Browser

open Js (Value JsError exists_of_bind_ok trim includes)
open Vault (UrlEnv VaultStore Found normalizeSetupService getCredential listConfiguredServices
  stripWww)

variable (env : UrlEnv)

def firstLabel (s : String) : String := String.ofList (s.toList.takeWhile (· != '.'))

def resolveSetupServiceFromBrowserInput (serviceRaw currentUrl : String) : Option String :=
  (normalizeSetupService env serviceRaw).or
    (let url := env.rt.toLowerCase (trim currentUrl)
    if url = "" then none else (env.hostname url).bind (normalizeSetupService env))

/-- The short alias of a dotted name. -/
def aliasOf (service : Option String) : Option String :=
  (service.filter fun s => s.toList.contains '.').bind fun s => normalizeSetupService env (firstLabel s)

/-- The name of the page's host goes in front of the others. -/
def deriveServiceCandidates (explicitServiceRaw : Option Value) (currentUrl : String) :
    Except JsError (List String) := do
  let explicit := normalizeSetupService env (← Value.textOrEmpty env.rt explicitServiceRaw)
  let liveService := resolveSetupServiceFromBrowserInput env "" currentUrl
  let candidates := [liveService, explicit.bind (normalizeSetupService env), aliasOf env liveService,
    aliasOf env explicit]
  return (candidates.filterMap id).eraseDups

def normalizeHostFromValue (value : String) : Option String :=
  let raw := env.rt.toLowerCase (trim value)
  if raw = "" then none
  else if includes raw "://" then
    match env.hostname raw with
    | some host =>
      let host := stripWww (env.rt.toLowerCase (trim host))
      if host = "" then none else some host
    | none => normalizeSetupService env raw
  else normalizeSetupService env raw

/-- `left.endsWith("." + right)`. -/
def endsWithLabel (left right : String) : Bool := ('.' :: right.toList).isSuffixOf left.toList

/-- The form in which hosts are compared. -/
def hostForm (host : Option String) : String := stripWww (env.rt.toLowerCase (trim (host.getD "")))

def hostsLikelyMatch (a b : Option String) : Bool :=
  let left := hostForm env a
  let right := hostForm env b
  left ≠ "" && right ≠ "" && (left == right || endsWithLabel left right || endsWithLabel right left)

structure Resolved where
  service : String
  credential : Found
  deriving DecidableEq, Repr

def firstCandidate (store : VaultStore) : List String → Option Resolved
  | [] => none
  | candidate :: rest =>
    match getCredential env store candidate with
    | some found => some ⟨candidate, found⟩
    | none => firstCandidate store rest

def firstRelated (store : VaultStore) (currentHost : String) : List String → Option Resolved
  | [] => none
  | service :: rest =>
    match getCredential env store service with
    | none => firstRelated store currentHost rest
    | some found =>
      let websiteHost := normalizeHostFromValue env (found.websiteUrl.getD "")
      if hostsLikelyMatch env (some currentHost) (some service) ||
          hostsLikelyMatch env (some currentHost) websiteHost then
        some ⟨service, found⟩
      else firstRelated store currentHost rest

def resolveCredentialForCandidates (store : VaultStore) (serviceCandidates : List String)
    (currentUrl : String) : Option Resolved :=
  (firstCandidate env store serviceCandidates).or
    ((normalizeHostFromValue env currentUrl).bind fun currentHost =>
      firstRelated env store currentHost (listConfiguredServices env store))

/-- The credential the `login` action obtains; without candidates it throws. -/
def loginCredential (store : VaultStore) (service : Option Value) (currentUrl : String) :
    Except JsError (Option Resolved) := do
  let candidates ← deriveServiceCandidates env service currentUrl
  return if candidates = [] then none else resolveCredentialForCandidates env store candidates currentUrl

/-! ## Where the credential comes from -/

/-- The names a login looks up first: the page's host, the service argument, and their first labels. -/
inductive CandidateName (service : Option Value) (currentUrl : String) : String → Prop where
  | page {host name : String} : env.hostname (env.rt.toLowerCase (trim currentUrl)) = some host →
    normalizeSetupService env host = some name → CandidateName service currentUrl name
  | pageLabel {host full name : String} :
    env.hostname (env.rt.toLowerCase (trim currentUrl)) = some host →
    normalizeSetupService env host = some full →
    normalizeSetupService env (firstLabel full) = some name → CandidateName service currentUrl name
  | argument {text full name : String} : Value.textOrEmpty env.rt service = .ok text →
    normalizeSetupService env text = some full → normalizeSetupService env full = some name →
    CandidateName service currentUrl name
  | argumentLabel {text full name : String} : Value.textOrEmpty env.rt service = .ok text →
    normalizeSetupService env text = some full →
    normalizeSetupService env (firstLabel full) = some name → CandidateName service currentUrl name

/-- The host is the name or lies below it. -/
def HostWithin (host name : String) : Prop := host = name ∨ ∃ sub, host = sub ++ "." ++ name

/-- One of the two hosts lies within the other. -/
def RelatedHosts (a b : String) : Prop := HostWithin a b ∨ HostWithin b a

/-- The page's host is related to the name the credential was found under or to its website. -/
def RelatedToPage (currentUrl : String) (resolved : Resolved) : Prop :=
  ∃ host, normalizeHostFromValue env currentUrl = some host ∧
    (RelatedHosts (hostForm env (some host)) (hostForm env (some resolved.service)) ∨
      ∃ website websiteHost, resolved.credential.websiteUrl = some website ∧
        normalizeHostFromValue env website = some websiteHost ∧
        RelatedHosts (hostForm env (some host)) (hostForm env (some websiteHost)))

/-- The hosts of which `hostsLikelyMatch` holds: one lies within the other, and neither is empty. -/
def HostsMatch (a b : Option String) : Prop :=
  hostForm env a ≠ "" ∧ hostForm env b ≠ "" ∧ RelatedHosts (hostForm env a) (hostForm env b)

/-- What the vault has under a service that is taken for pages of a host: the service or the website
of the record is related to the host. -/
structure TakenForHost (store : VaultStore) (currentHost service : String) (found : Found) : Prop where
  stored : getCredential env store service = some found
  related : HostsMatch env (some currentHost) (some service) ∨
    HostsMatch env (some currentHost) (normalizeHostFromValue env (found.websiteUrl.getD ""))

theorem normalizeSetupService_empty : normalizeSetupService env "" = none := by
  have hl : env.rt.toLowerCase (trim "") = "" := env.rt.toLowerCase_empty
  rw [normalizeSetupService]
  dsimp only
  rw [if_pos hl]

theorem liveService_spec {currentUrl name : String}
    (h : resolveSetupServiceFromBrowserInput env "" currentUrl = some name) :
    ∃ host, env.hostname (env.rt.toLowerCase (trim currentUrl)) = some host ∧
      normalizeSetupService env host = some name := by
  rw [resolveSetupServiceFromBrowserInput, normalizeSetupService_empty, Option.none_or] at h
  dsimp only at h
  split at h
  · cases h
  · exact Option.bind_eq_some_iff.mp h

theorem aliasOf_spec {service : Option String} {name : String} (h : aliasOf env service = some name) :
    ∃ full, service = some full ∧ normalizeSetupService env (firstLabel full) = some name := by
  obtain ⟨full, hfull, hname⟩ := Option.bind_eq_some_iff.mp h
  exact ⟨full, (Option.filter_eq_some_iff.mp hfull).1, hname⟩

theorem candidate_of_mem {service : Option Value} {currentUrl : String} {candidates : List String}
    {name : String} (h : deriveServiceCandidates env service currentUrl = .ok candidates)
    (hin : name ∈ candidates) : CandidateName env service currentUrl name := by
  obtain ⟨text, htext, h⟩ := exists_of_bind_ok h
  cases h
  rw [List.mem_eraseDups, List.mem_filterMap] at hin
  obtain ⟨found, hfound, rfl⟩ := hin
  simp only [List.mem_cons, List.not_mem_nil, or_false] at hfound
  rcases hfound with hlive | hexplicit | hlabel | hlabel
  · obtain ⟨host, hhost, hname⟩ := liveService_spec env hlive.symm
    exact .page hhost hname
  · obtain ⟨full, hfull, hname⟩ := Option.bind_eq_some_iff.mp hexplicit.symm
    exact .argument htext hfull hname
  · obtain ⟨full, hfull, hname⟩ := aliasOf_spec env hlabel.symm
    obtain ⟨host, hhost, hnorm⟩ := liveService_spec env hfull
    exact .pageLabel hhost hnorm hname
  · obtain ⟨full, hfull, hname⟩ := aliasOf_spec env hlabel.symm
    exact .argumentLabel htext hfull hname

theorem endsWithLabel_iff {left right : String} :
    endsWithLabel left right = true ↔ ∃ sub, left = sub ++ "." ++ right := by
  have htext : ∀ sub : List Char, String.ofList sub ++ "." ++ right = String.ofList (sub ++ '.' :: right.toList) := by
    intro sub
    rw [← String.toList_inj]
    simp
  rw [endsWithLabel, List.isSuffixOf_iff_suffix]
  constructor
  · rintro ⟨sub, hsub⟩
    refine ⟨String.ofList sub, ?_⟩
    rw [htext, hsub, String.ofList_toList]
  · rintro ⟨sub, rfl⟩
    refine ⟨sub.toList, ?_⟩
    simp

theorem hostsLikelyMatch_iff {a b : Option String} :
    hostsLikelyMatch env a b = true ↔ HostsMatch env a b := by
  simp only [HostsMatch, hostsLikelyMatch, Bool.and_eq_true, Bool.or_eq_true, decide_eq_true_eq, beq_iff_eq,
    endsWithLabel_iff, and_assoc]
  refine and_congr_right fun _ => and_congr_right fun _ => ?_
  constructor
  · rintro ((heq | hsub) | hsup)
    · exact .inl (.inl heq)
    · exact .inl (.inr hsub)
    · exact .inr (.inr hsup)
  · rintro ((heq | hsub) | (heq | hsup))
    · exact .inl (.inl heq)
    · exact .inl (.inr hsub)
    · exact .inl (.inl heq.symm)
    · exact .inr hsup

/-- The login takes the first of its names that the vault knows. -/
theorem firstCandidate_eq_findSome? (store : VaultStore) (names : List String) :
    firstCandidate env store names =
      names.findSome? fun name => (getCredential env store name).map fun found => ⟨name, found⟩ := by
  induction names with
  | nil => rfl
  | cons name rest ih =>
    rw [firstCandidate, List.findSome?_cons]
    cases getCredential env store name with
    | none => exact ih
    | some found => rfl

theorem firstCandidate_eq_some_iff {store : VaultStore} {names : List String} {resolved : Resolved} :
    firstCandidate env store names = some resolved ↔
      ∃ before after, names = before ++ resolved.service :: after ∧
        getCredential env store resolved.service = some resolved.credential ∧
        ∀ earlier ∈ before, getCredential env store earlier = none := by
  rw [firstCandidate_eq_findSome?, List.findSome?_eq_some_iff]
  simp only [Option.map_eq_none_iff, Option.map_eq_some_iff]
  constructor
  · rintro ⟨before, name, after, hnames, ⟨found, hfound, rfl⟩, hbefore⟩
    exact ⟨before, after, hnames, hfound, hbefore⟩
  · rintro ⟨before, after, hnames, hfound, hbefore⟩
    exact ⟨before, _, after, hnames, ⟨_, hfound, rfl⟩, hbefore⟩

theorem firstCandidate_spec {store : VaultStore} {candidates : List String} {resolved : Resolved}
    (h : firstCandidate env store candidates = some resolved) :
    resolved.service ∈ candidates ∧
      getCredential env store resolved.service = some resolved.credential := by
  obtain ⟨before, after, rfl, hget, -⟩ := (firstCandidate_eq_some_iff env).mp h
  exact ⟨by simp, hget⟩

theorem normalizeHostFromValue_empty : normalizeHostFromValue env "" = none := by
  have hl : env.rt.toLowerCase (trim "") = "" := env.rt.toLowerCase_empty
  rw [normalizeHostFromValue]
  dsimp only
  rw [if_pos hl]

theorem hostForm_none : hostForm env none = "" := by
  have hl : env.rt.toLowerCase (trim "") = "" := env.rt.toLowerCase_empty
  rw [hostForm, Option.getD_none, hl]
  rfl

/-- The second pass takes the first service that is taken for the host. -/
theorem firstRelated_eq_some_iff {store : VaultStore} {currentHost : String} {services : List String}
    {resolved : Resolved} : firstRelated env store currentHost services = some resolved ↔
      ∃ before after, services = before ++ resolved.service :: after ∧
        TakenForHost env store currentHost resolved.service resolved.credential ∧
        ∀ earlier ∈ before, ∀ found, ¬ TakenForHost env store currentHost earlier found := by
  classical
  have htaken : ∀ service found, TakenForHost env store currentHost service found ↔
      getCredential env store service = some found ∧
        (hostsLikelyMatch env (some currentHost) (some service) ||
          hostsLikelyMatch env (some currentHost)
            (normalizeHostFromValue env (found.websiteUrl.getD ""))) = true := by
    intro service found
    rw [Bool.or_eq_true, hostsLikelyMatch_iff, hostsLikelyMatch_iff]
    exact ⟨fun h => ⟨h.stored, h.related⟩, fun h => ⟨h.1, h.2⟩⟩
  have hfind : firstRelated env store currentHost services = services.findSome? fun service =>
      ((getCredential env store service).filter fun found =>
        hostsLikelyMatch env (some currentHost) (some service) ||
          hostsLikelyMatch env (some currentHost)
            (normalizeHostFromValue env (found.websiteUrl.getD ""))).map fun found => ⟨service, found⟩ := by
    induction services with
    | nil => rfl
    | cons service rest ih =>
      rw [firstRelated, List.findSome?_cons, ih]
      cases getCredential env store service with
      | none => rfl
      | some found =>
        dsimp only
        rw [Option.filter_some]
        split <;> rfl
  rw [hfind, List.findSome?_eq_some_iff]
  simp only [Option.map_eq_some_iff, Option.map_eq_none_iff, Option.filter_eq_none_iff,
    Option.filter_eq_some_iff, htaken, not_and]
  constructor
  · rintro ⟨before, service, after, hservices, ⟨found, hfound, rfl⟩, hbefore⟩
    exact ⟨before, after, hservices, hfound, hbefore⟩
  · rintro ⟨before, after, hservices, hfound, hbefore⟩
    exact ⟨before, _, after, hservices, ⟨_, hfound, rfl⟩, hbefore⟩

/-- The website of a record that is related by it. -/
theorem TakenForHost.related_cases {store : VaultStore} {currentHost service : String} {found : Found}
    (h : TakenForHost env store currentHost service found) :
    RelatedHosts (hostForm env (some currentHost)) (hostForm env (some service)) ∨
      ∃ website websiteHost, found.websiteUrl = some website ∧
        normalizeHostFromValue env website = some websiteHost ∧
        RelatedHosts (hostForm env (some currentHost)) (hostForm env (some websiteHost)) := by
  rcases h.related with ⟨-, -, hservice⟩ | ⟨-, hne, hwebsite⟩
  · exact .inl hservice
  · cases hurl : found.websiteUrl with
    | none =>
      rw [hurl, Option.getD_none, normalizeHostFromValue_empty, hostForm_none] at hne
      exact absurd rfl hne
    | some website =>
      rw [hurl, Option.getD_some] at hne hwebsite
      cases hhost : normalizeHostFromValue env website with
      | none =>
        rw [hhost, hostForm_none] at hne
        exact absurd rfl hne
      | some websiteHost =>
        rw [hhost] at hwebsite
        exact .inr ⟨website, websiteHost, rfl, hhost, hwebsite⟩

/-- A login takes a credential only under one of its candidate names or from a related host, and
the record it takes is the one stored under that name. -/
theorem login_credential_origin (store : VaultStore) (service : Option Value) (currentUrl : String)
    (resolved : Resolved) (h : loginCredential env store service currentUrl = .ok (some resolved)) :
    (CandidateName env service currentUrl resolved.service ∨ RelatedToPage env currentUrl resolved) ∧
      ∀ record, resolved.credential = .record record →
        normalizeSetupService env resolved.service = some record.service := by
  obtain ⟨candidates, hcand, h⟩ := exists_of_bind_ok h
  have hres : resolveCredentialForCandidates env store candidates currentUrl = some resolved := by
    split at h
    · cases h
    · exact Except.ok.inj h
  have hget : ∀ record, resolved.credential = .record record →
      getCredential env store resolved.service = some resolved.credential →
      normalizeSetupService env resolved.service = some record.service := by
    intro record hrec hget
    rw [hrec] at hget
    exact Vault.service_of_getCredential env hget
  rcases Option.or_eq_some_iff.mp hres with hfirst | ⟨-, hsecond⟩
  · obtain ⟨hin, hg⟩ := firstCandidate_spec env hfirst
    exact ⟨.inl (candidate_of_mem env hcand hin), fun record hrec => hget record hrec hg⟩
  · obtain ⟨host, hhost, hrelated⟩ := Option.bind_eq_some_iff.mp hsecond
    obtain ⟨before, after, -, htaken, -⟩ := (firstRelated_eq_some_iff env).mp hrelated
    exact ⟨.inr ⟨host, hhost, htaken.related_cases⟩, fun record hrec => hget record hrec htaken.stored⟩

/-! ## When a login stays on the page's site -/

/-- The page's host lies within the name. -/
def PageWithin (currentUrl name : String) : Prop :=
  ∃ host, env.hostname currentUrl = some host ∧ HostWithin host name

/-- The page's host lies within the host of the record's website. -/
def WebsiteWithin (currentUrl : String) (record : Vault.CredentialRecord) : Prop :=
  ∃ website websiteHost, record.websiteUrl = some website ∧
    env.hostname website = some websiteHost ∧ PageWithin env currentUrl websiteHost

/-- The page's host lies within the record's service name or its website's host. -/
def OriginBound (currentUrl : String) (record : Vault.CredentialRecord) : Prop :=
  PageWithin env currentUrl record.service ∨ WebsiteWithin env currentUrl record

/-- The names of a login in the order in which it looks them up: the page's host, the service argument,
and the first label of each. -/
def loginNames (text currentUrl : String) : List String :=
  let page := resolveSetupServiceFromBrowserInput env "" currentUrl
  let argument := normalizeSetupService env text
  [page, argument.bind (normalizeSetupService env), aliasOf env page, aliasOf env argument].reduceOption

/-- Of the names of a login, the page lies within the first that the vault knows, or within the website
stored with it. Where the vault knows none of them, the page lies within the first service that is taken
for its host, or within the website stored with it, and not only above them. -/
structure LoginStaysOnSite (store : VaultStore) (text currentUrl : String) : Prop where
  named : ∀ before name after full record, loginNames env text currentUrl = before ++ name :: after →
    (∀ earlier ∈ before, getCredential env store earlier = none) →
    normalizeSetupService env name = some full → getCredential env store name = some (.record record) →
    PageWithin env currentUrl full ∨ WebsiteWithin env currentUrl record
  taken : loginNames env text currentUrl ≠ [] →
    (∀ name ∈ loginNames env text currentUrl, getCredential env store name = none) →
    ∀ host before service after full record, normalizeHostFromValue env currentUrl = some host →
      listConfiguredServices env store = before ++ service :: after →
      (∀ earlier ∈ before, ∀ found, ¬ TakenForHost env store host earlier found) →
      normalizeSetupService env service = some full → TakenForHost env store host service (.record record) →
      PageWithin env currentUrl full ∨ WebsiteWithin env currentUrl record

/-- What is looked up without success may be left out. -/
theorem findSome?_filter_ne {α : Type} {f : String → Option α} {a : String} (ha : f a = none)
    (l : List String) : (l.filter fun b => !b == a).findSome? f = l.findSome? f := by
  induction l with
  | nil => rfl
  | cons b l ih =>
    by_cases hb : b = a
    · simp [hb, ha, ih]
    · simp [hb, List.findSome?_cons, ih]

theorem findSome?_eraseDups {α : Type} (f : String → Option α) (l : List String) :
    l.eraseDups.findSome? f = l.findSome? f := by
  induction hn : l.length using Nat.strong_induction_on generalizing l with
  | _ n ih =>
    cases l with
    | nil => rfl
    | cons a l =>
      rw [List.eraseDups_cons, List.findSome?_cons, List.findSome?_cons]
      cases ha : f a with
      | some b => rfl
      | none =>
        have hle := List.length_filter_le (fun b => !b == a) l
        rw [ih _ (by rw [← hn, List.length_cons]; omega) _ rfl, findSome?_filter_ne ha]

/-- The candidates are the names of the login, each once. -/
theorem deriveServiceCandidates_eq {service : Option Value} {currentUrl text : String}
    (htext : Value.textOrEmpty env.rt service = .ok text) :
    deriveServiceCandidates env service currentUrl = .ok (loginNames env text currentUrl).eraseDups := by
  rw [deriveServiceCandidates, htext]
  rfl

theorem loginCredential_eq {service : Option Value} {store : VaultStore} {currentUrl text : String}
    (htext : Value.textOrEmpty env.rt service = .ok text) :
    loginCredential env store service currentUrl =
      .ok (if loginNames env text currentUrl = [] then none
        else resolveCredentialForCandidates env store (loginNames env text currentUrl) currentUrl) := by
  have hempty : (loginNames env text currentUrl).eraseDups = [] ↔ loginNames env text currentUrl = [] := by
    cases loginNames env text currentUrl with
    | nil => exact iff_of_true rfl rfl
    | cons name rest => simp [List.eraseDups_cons]
  have hresolve : resolveCredentialForCandidates env store (loginNames env text currentUrl).eraseDups currentUrl =
      resolveCredentialForCandidates env store (loginNames env text currentUrl) currentUrl := by
    rw [resolveCredentialForCandidates, resolveCredentialForCandidates, firstCandidate_eq_findSome?,
      firstCandidate_eq_findSome?, findSome?_eraseDups]
  rw [loginCredential, deriveServiceCandidates_eq env htext]
  simp only [Js.ok_bind, hempty, hresolve]
  rfl

/-- What is resolved for the names is bound to the page's site only if the names and the vault keep it
there. -/
theorem staysOnSite_of_bound {store : VaultStore} {text currentUrl : String}
    (hbound : ∀ resolved record, loginNames env text currentUrl ≠ [] →
      resolveCredentialForCandidates env store (loginNames env text currentUrl) currentUrl = some resolved →
      resolved.credential = .record record → OriginBound env currentUrl record) :
    LoginStaysOnSite env store text currentUrl where
  named := by
    intro before name after full record hnames hbefore hfull hget
    have hfirst : firstCandidate env store (loginNames env text currentUrl) = some ⟨name, .record record⟩ :=
      (firstCandidate_eq_some_iff env).mpr ⟨before, after, hnames, hget, hbefore⟩
    have horigin := hbound ⟨name, .record record⟩ record (by simp [hnames])
      (by rw [resolveCredentialForCandidates, hfirst, Option.some_or]) rfl
    have hservice := Vault.service_of_getCredential env hget
    rw [hfull] at hservice
    rwa [OriginBound, ← Option.some.inj hservice] at horigin
  taken := by
    intro hne hnone host before service after full record hhost hservices hbefore hfull htaken
    have hfirst : firstCandidate env store (loginNames env text currentUrl) = none := by
      rw [firstCandidate_eq_findSome?, List.findSome?_eq_none_iff]
      intro name hname
      rw [hnone name hname, Option.map_none]
    have hsecond : firstRelated env store host (listConfiguredServices env store) =
        some ⟨service, .record record⟩ :=
      (firstRelated_eq_some_iff env).mpr ⟨before, after, hservices, htaken, hbefore⟩
    have horigin := hbound ⟨service, .record record⟩ record hne
      (by rw [resolveCredentialForCandidates, hfirst, Option.none_or, hhost, Option.bind_some, hsecond]) rfl
    have hservice := Vault.service_of_getCredential env htaken.stored
    rw [hfull] at hservice
    rwa [OriginBound, ← Option.some.inj hservice] at horigin

theorem LoginStaysOnSite.bound {store : VaultStore} {text currentUrl service : String}
    {record : Vault.CredentialRecord} (h : LoginStaysOnSite env store text currentUrl)
    (hne : loginNames env text currentUrl ≠ [])
    (hres : resolveCredentialForCandidates env store (loginNames env text currentUrl) currentUrl =
      some ⟨service, .record record⟩) : OriginBound env currentUrl record := by
  rcases Option.or_eq_some_iff.mp hres with hfirst | ⟨hnone, hsecond⟩
  · obtain ⟨before, after, hnames, hget, hbefore⟩ := (firstCandidate_eq_some_iff env).mp hfirst
    exact h.named _ _ _ _ _ hnames hbefore (Vault.service_of_getCredential env hget) hget
  · rw [firstCandidate_eq_findSome?, List.findSome?_eq_none_iff] at hnone
    obtain ⟨host, hhost, hrelated⟩ := Option.bind_eq_some_iff.mp hsecond
    obtain ⟨before, after, hservices, htaken, hbefore⟩ := (firstRelated_eq_some_iff env).mp hrelated
    exact h.taken hne (fun name hname => Option.map_eq_none_iff.mp (hnone name hname)) _ _ _ _ _ _
      hhost hservices hbefore (Vault.service_of_getCredential env htaken.stored) htaken

def labelEnv : UrlEnv where
  rt := Js.asciiRuntime
  hostname := fun url => if url = "https://x.evil.test/" then some "x.evil.test" else none

def xRecord : Vault.CredentialRecord where
  service := "x.com"
  identifier := "me@mail.test"
  secret := "hunter2"
  authMode := .password
  createdAt := 1
  updatedAt := 1

def xVault : VaultStore where
  records := [("x.com", xRecord)]
  keyed := by
    intro f hf
    cases List.mem_singleton.mp hf
    rfl
  prototyped := Vault.no_prototype

end T560.Browser
