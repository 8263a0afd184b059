import T560.Browser.Cookies

/-!
# Cookies over the run of a tab

Where the cookies of a request come from, over any run of navigations, history moves and
fetches. As long as a tab with foreign cookies is not sent to another site, a host receives
only what its own site has set, and values set elsewhere make no difference to it.
-/

namespace T560.Browser

open Js (PropertyMap)

/-- A form submission is a navigation followed by a snapshot with a request. -/
inductive TabStep where
  | navigate (url : String)
  | move (back : Bool)
  | snapshot (request : Option Request) (reply : Option Reply)
  deriving DecidableEq

variable (env : FetchEnv) (start : String)

def stepTab (tab : Tab) : TabStep → Tab
  | .navigate url => (navigateTab env tab url).getD tab
  | .move back => moveInHistory tab back
  | .snapshot request reply => (captureTabSnapshot env tab request reply).getD tab

def runTab (steps : List TabStep) : Tab := steps.foldl (stepTab env) (buildTabRecord start)

/-- The host the tab's next request goes to. -/
def targetHost (before : List TabStep) (request : Option Request) : String :=
  env.hostOf (sentRequest (runTab env start before) request).url

/-- A response of the host has stored the cookie during the run. -/
def Stored (steps : List TabStep) (host name value : String) : Prop :=
  ∃ before request reply after url,
    steps = before ++ .snapshot request (some reply) :: after ∧
    finalUrl env (runTab env start before) request reply = some url ∧ env.hostOf url = host ∧
    ∃ line ∈ readSetCookieHeaders reply.setCookies,
      readSetCookie env reply.now line = .store name value

/-- The two lines name one cookie and differ in its value at most. -/
def SameButValue : CookieEdit → CookieEdit → Prop
  | .skip, .skip => True
  | .delete name, .delete name' => name = name'
  | .store name _, .store name' _ => name = name'
  | _, _ => False

/-- The second run differs in cookie values of responses from other sites only. -/
inductive DiffersOnlyAbroad (site : String) : List TabStep → List TabStep → Prop where
  | start : DiffersOnlyAbroad site [] []
  | same {run run' : List TabStep} (step : TabStep) :
    DiffersOnlyAbroad site run run' → DiffersOnlyAbroad site (run ++ [step]) (run' ++ [step])
  | abroad {run run' : List TabStep} {request : Option Request} {reply reply' : Reply} {url : String} :
    DiffersOnlyAbroad site run run' →
    finalUrl env (runTab env start run) request reply = some url → env.site (env.hostOf url) ≠ site →
    reply'.url = reply.url → reply'.now = reply.now →
    List.Forall₂ (fun line line' => SameButValue (readSetCookie env reply.now line)
        (readSetCookie env reply.now line'))
      (readSetCookieHeaders reply.setCookies) (readSetCookieHeaders reply'.setCookies) →
    DiffersOnlyAbroad site (run ++ [.snapshot request (some reply)])
      (run' ++ [.snapshot request (some reply')])

/-- Every cookie of the request was set by the host's own site, and no value set abroad shows. -/
structure IsolatedRequest (before : List TabStep) (request : Option Request) : Prop where
  own : ∀ cookie ∈ (runTab env start before).cookies.entries,
    ∃ host, Stored env start before host cookie.1 cookie.2 ∧
      env.site host = env.site (targetHost env start before request)
  same : ∀ before',
    DiffersOnlyAbroad env start (env.site (targetHost env start before request)) before before' →
    sentRequest (runTab env start before') request = sentRequest (runTab env start before) request

/-- Every request of the run is isolated. -/
def CookiesIsolated (run : List TabStep) : Prop :=
  ∀ before request reply after, run = before ++ .snapshot request reply :: after →
    IsolatedRequest env start before request

/-- No request leaves the site of the responses that have stored a cookie before it. -/
def StaysOnSite (run : List TabStep) : Prop :=
  ∀ before request reply after, run = before ++ .snapshot request reply :: after →
    ∀ host name value, Stored env start before host name value →
      env.site host = env.site (targetHost env start before request)

/-! ## One step -/

theorem upsert_cons (jar : PropertyMap String) (now : Int) (line : String) (lines : List String) :
    upsertTabCookies env jar now (line :: lines) =
      upsertTabCookies env (applyEdit jar (readSetCookie env now line)) now lines := rfl

theorem mem_upsert {jar : PropertyMap String} {now : Int} {lines : List String} {cookie : String × String}
    (h : cookie ∈ upsertTabCookies env jar now lines) :
    cookie ∈ jar ∨ ∃ line ∈ lines, readSetCookie env now line = .store cookie.1 cookie.2 := by
  induction lines generalizing jar with
  | nil => exact .inl h
  | cons line lines ih =>
    rw [upsert_cons] at h
    rcases ih h with hin | ⟨l, hl, hs⟩
    · cases hedit : readSetCookie env now line with
      | skip =>
        rw [hedit] at hin
        exact .inl hin
      | delete name =>
        rw [hedit] at hin
        exact .inl (PropertyMap.mem_remove hin)
      | store name value =>
        rw [hedit] at hin
        rcases PropertyMap.mem_put hin with hin | rfl
        · exact .inl hin
        · exact .inr ⟨line, by simp, hedit⟩
    · exact .inr ⟨l, by simp [hl], hs⟩

/-- The tab as the history of the browser sees it. -/
def Tab.record (id : String) (tab : Tab) : History.Tab where
  id := id
  url := tab.url
  history := tab.history
  historyIndex := tab.historyIndex
  lastSnapshot := none

/-- A navigation puts the URL where the history has it. -/
theorem navigateTab_record {urls : History.UrlParser} (hparse : urls.parse = env.parse) (id : String) (tab : Tab)
    (url : String) : (Stateful.exec (History.navigateTab urls url) (tab.record id)).2 =
      ((navigateTab env tab url).getD tab).record id := by
  unfold navigateTab FetchEnv.normalizeHttpUrl
  rw [← hparse]
  cases hnormal : History.normalizeHttpUrl urls.parse url with
  | error e =>
    rw [History.exec_navigateTab_error hnormal]
    rfl
  | ok normalized =>
    rw [History.exec_navigateTab hnormal, History.Tab.push_eq]
    rfl

theorem navigateTab_cookies (tab : Tab) (url : String) :
    ((navigateTab env tab url).getD tab).cookies = tab.cookies := by
  unfold navigateTab
  cases env.normalizeHttpUrl url <;> rfl

theorem moveInHistory_cookies (tab : Tab) (back : Bool) :
    (moveInHistory tab back).cookies = tab.cookies := by
  unfold moveInHistory
  split <;> rfl

/-- A cookie behind a step was there before it or the step's reply stored it. -/
theorem mem_stepTab {tab : Tab} {step : TabStep} {cookie : String × String}
    (h : cookie ∈ (stepTab env tab step).cookies) :
    cookie ∈ tab.cookies ∨ ∃ request reply url, step = .snapshot request (some reply) ∧
      finalUrl env tab request reply = some url ∧
      ∃ line ∈ readSetCookieHeaders reply.setCookies,
        readSetCookie env reply.now line = .store cookie.1 cookie.2 := by
  cases step with
  | navigate url =>
    rw [stepTab, navigateTab_cookies] at h
    exact .inl h
  | move back =>
    rw [stepTab, moveInHistory_cookies] at h
    exact .inl h
  | snapshot request reply =>
    cases reply with
    | none => exact .inl h
    | some reply =>
      cases hurl : finalUrl env tab request reply with
      | none =>
        rw [stepTab, captureTabSnapshot, hurl] at h
        exact .inl h
      | some url =>
        rw [stepTab, captureTabSnapshot, hurl] at h
        rcases mem_upsert env h with hin | hline
        · exact .inl hin
        · exact .inr ⟨request, reply, url, rfl, hurl, hline⟩

/-! ## Whole runs -/

theorem runTab_snoc (steps : List TabStep) (step : TabStep) :
    runTab env start (steps ++ [step]) = stepTab env (runTab env start steps) step := by
  rw [runTab, List.foldl_append]
  rfl

theorem Stored.snoc {steps : List TabStep} {host name value : String} (step : TabStep)
    (h : Stored env start steps host name value) :
    Stored env start (steps ++ [step]) host name value := by
  obtain ⟨before, request, reply, after, url, rfl, hurl, hhost, hline⟩ := h
  exact ⟨before, request, reply, after ++ [step], url, by simp, hurl, hhost, hline⟩

/-- Every cookie in the jar was stored by some response of the run. -/
theorem stored_of_mem {steps : List TabStep} {cookie : String × String}
    (h : cookie ∈ (runTab env start steps).cookies) :
    ∃ host, Stored env start steps host cookie.1 cookie.2 := by
  induction steps using List.reverseRecOn with
  | nil => cases h
  | append_singleton steps step ih =>
    rw [runTab_snoc] at h
    rcases mem_stepTab env h with hin | ⟨request, reply, url, rfl, hurl, hline⟩
    · obtain ⟨host, hstored⟩ := ih hin
      exact ⟨host, hstored.snoc env start step⟩
    · exact ⟨env.hostOf url, steps, request, reply, [], url, rfl, hurl, rfl, hline⟩

theorem SameButValue.eq_of_not_store {edit edit' : CookieEdit} (h : SameButValue edit edit')
    (hno : ∀ name value, edit ≠ .store name value) : edit' = edit := by
  cases edit with
  | skip =>
    cases edit' with
    | skip => rfl
    | delete name => cases h
    | store name value => cases h
  | delete name =>
    cases edit' with
    | skip => cases h
    | delete name' =>
      cases h
      rfl
    | store name' value => cases h
  | store name value => exact absurd rfl (hno name value)

theorem upsert_same {jar : PropertyMap String} {now : Int} {lines lines' : List String}
    (h : List.Forall₂ (fun line line' => SameButValue (readSetCookie env now line)
      (readSetCookie env now line')) lines lines')
    (hno : ∀ line ∈ lines, ∀ name value, readSetCookie env now line ≠ .store name value) :
    upsertTabCookies env jar now lines' = upsertTabCookies env jar now lines := by
  induction h generalizing jar with
  | nil => rfl
  | @cons line line' lines lines' hsame _ ih =>
    have hedit := hsame.eq_of_not_store (hno line (by simp))
    rw [upsert_cons, upsert_cons, hedit]
    exact ih fun l hl => hno l (by simp [hl])

/-- A foreign reply that stores nothing leads to the same tab whatever its values are. -/
theorem capture_same {tab : Tab} {request : Option Request} {reply reply' : Reply}
    (hurl : reply'.url = reply.url) (hnow : reply'.now = reply.now)
    (hlines : upsertTabCookies env tab.cookies reply.now (readSetCookieHeaders reply'.setCookies) =
      upsertTabCookies env tab.cookies reply.now (readSetCookieHeaders reply.setCookies)) :
    stepTab env tab (.snapshot request (some reply')) =
      stepTab env tab (.snapshot request (some reply)) := by
  have hfinal : finalUrl env tab request reply' = finalUrl env tab request reply := by
    rw [finalUrl, finalUrl, hurl]
  rw [stepTab, stepTab, captureTabSnapshot, captureTabSnapshot, hfinal, hnow, hlines]

/-- Runs that differ abroad only leave the same tab, if nothing was stored abroad. -/
theorem runTab_same {site : String} {run run' : List TabStep}
    (h : DiffersOnlyAbroad env start site run run')
    (hon : ∀ host name value, Stored env start run host name value → env.site host = site) :
    runTab env start run' = runTab env start run := by
  induction h with
  | start => rfl
  | same step _ ih =>
    rw [runTab_snoc, runTab_snoc, ih fun host name value hs => hon host name value (hs.snoc env start step)]
  | @abroad run run' request reply reply' url _ hfinal hsite hurl hnow hlines ih =>
    rw [runTab_snoc, runTab_snoc, ih fun host name value hs => hon host name value (hs.snoc env start _)]
    apply capture_same env hurl hnow
    apply upsert_same env hlines
    intro line hline name value hstore
    exact hsite (hon (env.hostOf url) name value
      ⟨run, request, reply, [], url, rfl, hfinal, rfl, line, hline, hstore⟩)

/-- Over every run that stays on the site of its cookies, every request is isolated. -/
theorem cookies_isolated_on_site (run : List TabStep) (h : StaysOnSite env start run) :
    CookiesIsolated env start run := by
  intro before request reply after hrun
  have hon := h before request reply after hrun
  constructor
  · intro cookie hin
    obtain ⟨host, hstored⟩ := stored_of_mem env start (PropertyMap.mem_entries.mp hin)
    exact ⟨host, hstored, hon host cookie.1 cookie.2 hstored⟩
  · intro before' hdiff
    rw [runTab_same env start hdiff hon]

theorem stored_host {steps : List TabStep} {host name value u : String}
    (h : Stored env start steps host name value)
    (hall : ∀ request reply, TabStep.snapshot request (some reply) ∈ steps → reply.url = u)
    (hne : u ≠ "") (hnorm : env.normalizeHttpUrl u = some u) : host = env.hostOf u := by
  obtain ⟨before, request, reply, after, url, rfl, hurl, rfl, -⟩ := h
  rw [finalUrl, hall request reply (by simp), if_neg hne, hnorm] at hurl
  rw [Option.some.inj hurl]

/-! ## Two sites -/

def twoSites : FetchEnv where
  rt := Js.asciiRuntime
  parse := fun raw => some ⟨"https:", raw⟩
  hostOf := fun url =>
    if url = "https://bank.example/" then "bank.example"
    else if url = "https://www.bank.example/" then "www.bank.example" else "news.test"
  site := fun host => if host = "www.bank.example" then "bank.example" else host
  dateParse := fun _ => none

/-- The bank sets its session cookie, and the tab goes on to the given page. -/
def fromBankTo (url : String) : List TabStep :=
  [.snapshot none (some ⟨"https://bank.example/", ["sid=1; Path=/"], 0⟩), .navigate url,
    .snapshot none none]

theorem fromBankTo_stored (url : String) {before : List TabStep} (after : List TabStep)
    {host name value : String}
    (hrun : fromBankTo url = before ++ after)
    (h : Stored twoSites "https://bank.example/" before host name value) : host = "bank.example" := by
  refine stored_host twoSites _ (u := "https://bank.example/") h ?_ (by decide) (by decide +kernel)
  intro request reply hin
  have hmem : TabStep.snapshot request (some reply) ∈ fromBankTo url := by
    rw [hrun]
    exact List.mem_append_left _ hin
  simp only [fromBankTo, List.mem_cons, TabStep.snapshot.injEq, Option.some.injEq, reduceCtorEq,
    and_false, List.not_mem_nil, or_false] at hmem
  rw [hmem.2]

theorem cookies_isolated_subdomain :
    CookiesIsolated twoSites "https://bank.example/" (fromBankTo "https://www.bank.example/") := by
  apply cookies_isolated_on_site
  intro before request reply after hrun host name value hstored
  rw [fromBankTo_stored _ _ hrun hstored]
  rcases before with _ | ⟨a, _ | ⟨b, _ | ⟨c, rest⟩⟩⟩
  · obtain ⟨hstep, -⟩ := List.cons.inj hrun
    obtain ⟨rfl, -⟩ := TabStep.snapshot.inj hstep
    decide +kernel
  · simp [fromBankTo] at hrun
  · simp only [fromBankTo, List.cons_append, List.nil_append, List.cons.injEq] at hrun
    obtain ⟨rfl, rfl, hstep, -⟩ := hrun
    obtain ⟨rfl, -⟩ := TabStep.snapshot.inj hstep
    decide +kernel
  · simp [fromBankTo] at hrun

/-- The tab carries the bank's session cookie to the news page. -/
theorem bank_cookie_leaks :
    ¬ CookiesIsolated twoSites "https://bank.example/" (fromBankTo "https://news.test/") := by
  intro h
  have hreq := h (fromBankTo "https://news.test/" |>.take 2) none none [] rfl
  obtain ⟨host, hstored, hsite⟩ := hreq.own ("sid", "1") (by decide +kernel)
  rw [fromBankTo_stored "https://news.test/" [.snapshot none none] rfl hstored] at hsite
  revert hsite
  decide +kernel

end T560.Browser
