import T560.Foundation.Cursor
import T560.Foundation.Stateful
import T560.Js.Text

/-!
# The history of a tab

A tab keeps the URLs that it has been on, and the index of the one that it is on. The actions of
the browser tool change the list in three ways: `navigateTab` and `appendHistoryEntry` put a URL
behind the current one, and a snapshot overwrites the current one. What the page engine answers
(where the page is, what fails) comes with an action. Which element a click finds, and the
contents of pages, are left out.
-/

namespace T560.Browser.History

open Stateful (Act exec failing ensure onlyIf)

section Urls

/-- What `new URL(raw)` reads. -/
structure Location where
  protocol : String
  href : String
  deriving DecidableEq, Repr

/-- The URL parser: a serialized URL is read as itself. -/
structure UrlParser where
  parse : String → Option Location
  parse_href {raw : String} {l : Location} (h : parse raw = some l) : parse l.href = some l
  trim_href {raw : String} {l : Location} (h : parse raw = some l) : Js.trim l.href = l.href
  href_ne {raw : String} {l : Location} (h : parse raw = some l) : l.href ≠ ""

/-- What `new URL(raw)` reads is a parameter: with a base it is another parser. -/
def normalizeHttpUrl (parse : String → Option Location) (value : String) : Except String String :=
  let raw := Js.trim value
  if raw = "" then .error "url is required."
  else
    match parse raw with
    | none => .error "invalid url."
    | some parsed =>
      if parsed.protocol.toLower ∈ ["http:", "https:"] then .ok parsed.href
      else .error "only http(s) URLs are supported."

variable (urls : UrlParser)

def normalizeHttpUrlOrFallback (value fallback : String) : String :=
  match normalizeHttpUrl urls.parse value with
  | .ok url => url
  | .error _ => fallback

/-- `url || fallback` -/
def orUrl (url fallback : String) : String := if url = "" then fallback else url

variable {urls}

theorem normalizeHttpUrl_idem {value url : String} (h : normalizeHttpUrl urls.parse value = .ok url) :
    normalizeHttpUrl urls.parse url = .ok url := by
  simp only [normalizeHttpUrl] at h
  split_ifs at h
  split at h
  · cases h
  · rename_i parsed hparse
    split_ifs at h with hprotocol
    obtain rfl := Except.ok.inj h
    simp only [normalizeHttpUrl, urls.trim_href hparse, urls.parse_href hparse]
    rw [if_neg (urls.href_ne hparse), if_pos hprotocol]

end Urls

section Data

structure Snapshot where
  url : String
  deriving DecidableEq, Repr

/-- A tab with its live page: the URL that the page is on. -/
structure Tab where
  id : String
  url : String
  history : List String
  historyIndex : Nat
  lastSnapshot : Option Snapshot := none
  page : Option String := none
  deriving DecidableEq, Repr

def buildTabRecord (id url : String) : Tab where
  id := id
  url := url
  history := [url]
  historyIndex := 0

inductive Engine where
  | fetch
  | live
  deriving DecidableEq, Repr

inductive EngineParam where
  | auto
  | fetch
  | live
  deriving DecidableEq, Repr

/-- The parameters that the actions share; `snapshotAfter` and `allowEngineFallback` are off only
when they are `false`. -/
structure Params where
  engine : EngineParam := .auto
  liveAvailable : Bool
  allowEngineFallback : Bool := true
  snapshotAfter : Bool := true
  deriving DecidableEq, Repr

/-- What a wait for the page brings: where the page is then, and the error if it fails. -/
structure Awaited where
  url : String
  error : Option String := none
  deriving DecidableEq, Repr

/-- A live snapshot: where the page is when it has settled, and the error of reading it. -/
structure LiveCapture where
  settled : String
  content : Option String := none
  deriving DecidableEq, Repr

/-- The URL that a request ends on, or its error. -/
abbrev Fetched := Except String String

end Data

abbrev TabM := Act Tab String

def check {σ α : Type} : Except String α → Act σ String α
  | .ok a => pure a
  | .error e => throw e

section Entries
variable (urls : UrlParser)

/-- `tab.url = url; tab.history[tab.historyIndex] = url` -/
def Tab.overwrite (t : Tab) (url : String) : Tab :=
  { t with url := url, history := t.history.set t.historyIndex url }

/-- The forward entries go, and the URL is the last one. -/
def Tab.push (t : Tab) (url : String) : Tab :=
  let kept := if t.historyIndex < t.history.length - 1 then t.history.take (t.historyIndex + 1) else t.history
  { t with history := kept ++ [url], historyIndex := (kept ++ [url]).length - 1 }

theorem Tab.push_eq (t : Tab) (url : String) : t.push url =
    { t with
      history := t.history.take (t.historyIndex + 1) ++ [url]
      historyIndex := (t.history.take (t.historyIndex + 1) ++ [url]).length - 1 } := by
  unfold Tab.push
  by_cases hbehind : t.historyIndex < t.history.length - 1
  · rw [if_pos hbehind]
  · rw [if_neg hbehind, List.take_of_length_le (by omega)]

def navigateTab (nextUrl : String) : TabM Unit := do
  let normalized ← check (normalizeHttpUrl urls.parse nextUrl)
  modify fun t => { t.push normalized with url := normalized, lastSnapshot := none }

theorem exec_navigateTab {urls : UrlParser} {url normalized : String}
    (h : normalizeHttpUrl urls.parse url = .ok normalized) (t : Tab) : exec (navigateTab urls url) t =
      (.ok .unit, { t.push normalized with url := normalized, lastSnapshot := none }) := by
  unfold navigateTab
  rw [h]
  rfl

theorem exec_navigateTab_error {urls : UrlParser} {url e : String}
    (h : normalizeHttpUrl urls.parse url = .error e) (t : Tab) : exec (navigateTab urls url) t = (.error e, t) := by
  unfold navigateTab
  rw [h]
  rfl

def appendHistoryEntry (url : String) : TabM Unit := do
  let normalized ← check (normalizeHttpUrl urls.parse url)
  modify fun t => if t.history[t.historyIndex]? = some normalized then t else t.push normalized

def resolveEngine (p : Params) (t : Tab) : Except String Engine :=
  if t.page.isSome then .ok .live
  else
    match p.engine with
    | .fetch => .ok .fetch
    | .live =>
      if p.liveAvailable then .ok .live
      else if p.allowEngineFallback then .ok .fetch
      else .error "engine=live requested but unavailable, and allowEngineFallback=false."
    | .auto => .ok (if p.liveAvailable then .live else .fetch)

/-- Wait for the page. -/
def await (a : Awaited) : TabM Unit := do
  modify fun t => { t with page := some a.url }
  failing a.error

def captureLiveTabSnapshot (c : LiveCapture) : TabM Snapshot := do
  let t ← get
  ensure (t.page ≠ none) ("live browser page missing for tab " ++ t.id ++ ".")
  await ⟨c.settled, none⟩
  let finalUrl ← check (normalizeHttpUrl urls.parse (orUrl c.settled t.url))
  failing c.content
  modify fun t => { t.overwrite finalUrl with lastSnapshot := some ⟨finalUrl⟩ }
  return ⟨finalUrl⟩

def captureTabSnapshot (request : Option String) (fetched : Fetched) : TabM Snapshot := do
  let t ← get
  let answered ← check fetched
  let finalUrl ← check (normalizeHttpUrl urls.parse (orUrl answered (request.getD t.url)))
  modify fun t => { t.overwrite finalUrl with lastSnapshot := some ⟨finalUrl⟩ }
  return ⟨finalUrl⟩

/-- One answer for every attempt that is allowed. -/
def captureTabSnapshotWithRetries : List Fetched → TabM Snapshot
  | [] => throw "snapshot capture failed."
  | attempt :: rest =>
    tryCatch (captureTabSnapshot urls none attempt) fun e =>
      if rest = [] then throw e else captureTabSnapshotWithRetries rest

end Entries

section Loads
variable (urls : UrlParser)

/-- What loading a page brings: the error of getting a page, the load, and what is read then. -/
structure Load where
  runtime : Option String := none
  load : Awaited
  capture : LiveCapture
  title : Option String := none
  attempts : List Fetched
  deriving DecidableEq, Repr

/-- A new page for the tab, on its way to a URL. -/
def openPage (runtime : Option String) (goto : Awaited) : TabM Unit := do
  failing runtime
  await goto

def loadPage (o : Load) : TabM Unit := do
  if (← get).page = none then openPage o.runtime o.load else await o.load

/-- What follows a load: a snapshot, or the URL and the title alone. -/
def readPage (p : Params) (fallback : String) (capture : LiveCapture) (title : Option String) :
    TabM Unit := do
  if p.snapshotAfter then discard (captureLiveTabSnapshot urls capture)
  else
    let t ← get
    let url ← check (normalizeHttpUrl urls.parse (orUrl (t.page.getD "") fallback))
    modify fun t => t.overwrite url
    failing title

/-- `closeLiveTab`, and the fetch engine in the place of the live one. -/
def orElseFetch (p : Params) (body recover : TabM Unit) : TabM Unit :=
  tryCatch body fun e => do
    if p.allowEngineFallback then
      modify fun t => { t with page := none }
      recover
    else throw e

def fetchAfter (p : Params) (attempts : List Fetched) : TabM Unit :=
  if p.snapshotAfter then discard (captureTabSnapshotWithRetries urls attempts) else pure ()

/-- `open`, behind `createTab`. -/
def openTab (p : Params) (url : String) (o : Load) : TabM Unit := do
  match ← check (resolveEngine p (← get)) with
  | .live =>
    orElseFetch p
      (do openPage o.runtime o.load; readPage urls p url o.capture o.title)
      (discard (captureTabSnapshotWithRetries urls o.attempts))
  | .fetch => fetchAfter urls p o.attempts

def navigate (p : Params) (rawUrl : String) (o : Load) : TabM Unit := do
  let url ← check (normalizeHttpUrl urls.parse rawUrl)
  navigateTab urls url
  match ← check (resolveEngine p (← get)) with
  | .live =>
    orElseFetch p
      (do loadPage o; readPage urls p url o.capture o.title)
      (fetchAfter urls p o.attempts)
  | .fetch => fetchAfter urls p o.attempts

def reload (p : Params) (o : Load) : TabM Unit := do
  match ← check (resolveEngine p (← get)) with
  | .live =>
    orElseFetch p
      (do
        let t ← get
        ensure (t.page ≠ none) ("tab " ++ t.id ++ " is not backed by a live browser page.")
        await o.load
        readPage urls p t.url o.capture o.title)
      (fetchAfter urls p o.attempts)
  | .fetch => fetchAfter urls p o.attempts

structure Shot where
  capture : LiveCapture
  attempts : List Fetched
  deriving DecidableEq, Repr

def snapshot (p : Params) (o : Shot) : TabM Unit := do
  match ← check (resolveEngine p (← get)) with
  | .live =>
    orElseFetch p (discard (captureLiveTabSnapshot urls o.capture))
      (discard (captureTabSnapshotWithRetries urls o.attempts))
  | .fetch => discard (captureTabSnapshotWithRetries urls o.attempts)

end Loads

section Follows
variable (urls : UrlParser)

/-- The login: getting a page, going to the URL of the tab, finding the credential, filling in and
submitting the form, and what is looked up behind it. -/
structure Login where
  runtime : Option String := none
  goto : Awaited
  credential : Option String := none
  submit : Awaited
  mfaSource : Option String := none
  capture : LiveCapture
  deriving DecidableEq, Repr

/-- The tab takes over where its page is. -/
def loginPage (o : Login) : TabM Unit := do
  onlyIf ((← get).page = none) (openPage o.runtime o.goto)
  let t ← get
  let liveUrl := normalizeHttpUrlOrFallback urls (t.page.getD t.url) t.url
  onlyIf (liveUrl ≠ t.url) (appendHistoryEntry urls liveUrl)
  modify fun t => { t with url := liveUrl }

def loginSubmit (p : Params) (o : Login) : TabM Unit := do
  failing o.credential
  await o.submit
  failing o.mfaSource
  if p.snapshotAfter then discard (captureLiveTabSnapshot urls o.capture)

/-- The snapshot that a tab without one begins with. -/
structure Seed where
  capture : LiveCapture
  fetched : Fetched
  deriving DecidableEq, Repr

def seedSnapshot (p : Params) (o : Seed) : TabM Unit := do
  let t ← get
  if t.lastSnapshot = none then
    match ← check (resolveEngine p t) with
    | .live => discard (captureLiveTabSnapshot urls o.capture)
    | .fetch => discard (captureTabSnapshot urls none o.fetched)

inductive Method where
  | get
  | post
  deriving DecidableEq, Repr

/-- A form with its action; for `get`, the action with the fields appended. -/
structure Form where
  method : Method
  action : String
  target : Except String String
  deriving DecidableEq, Repr

/-- A form of the fetch engine. -/
def fetchForm (form : Form) (snapshotAfter : Bool) (fetched : Fetched) : TabM Unit := do
  match form.method with
  | .get =>
    navigateTab urls (← check form.target)
    if snapshotAfter then discard (captureTabSnapshot urls none fetched)
  | .post =>
    navigateTab urls form.action
    if snapshotAfter then discard (captureTabSnapshot urls (some form.action) fetched)

structure Submit where
  seed : Seed
  form : Except String Form
  submit : Awaited
  capture : LiveCapture
  fetched : Fetched
  deriving DecidableEq, Repr

/-- A live snapshot, and an entry for it if the URL is another one. -/
def captureEntry (capture : LiveCapture) (beforeUrl : String) : TabM Unit := do
  let snapshot ← captureLiveTabSnapshot urls capture
  if snapshot.url ≠ beforeUrl then appendHistoryEntry urls snapshot.url

/-- `liveSubmitForm` -/
def liveSubmitForm (submit : Awaited) : TabM Unit := do
  let t ← get
  ensure (t.page ≠ none) ("live browser page missing for tab " ++ t.id ++ ".")
  await submit

def submitForm (p : Params) (o : Submit) : TabM Unit := do
  let form ← check o.form
  let t ← get
  match ← check (resolveEngine p t) with
  | .live =>
    liveSubmitForm o.submit
    captureEntry urls o.capture t.url
  | .fetch => fetchForm urls form true o.fetched

/-- What a click of the live engine finds: an element, or the URL of a link. -/
inductive LiveTarget where
  | selector
  | link (url : String)
  deriving DecidableEq, Repr

inductive FetchTarget where
  | form (form : Form)
  | link (url : String)
  deriving DecidableEq, Repr

structure Popup where
  url : String
  capture : LiveCapture
  title : Option String := none
  again : LiveCapture
  deriving DecidableEq, Repr

/-- A click: what the parameters find, or the error of a check, and what the click brings. -/
structure Click where
  seed : Seed
  right : Bool := false
  focusPopup : Bool := true
  live : Except String LiveTarget
  fetch : Except String FetchTarget
  load : Awaited
  popup : Option Popup := none
  capture : LiveCapture
  title : Option String := none
  fetched : Fetched
  deriving DecidableEq, Repr

/-- A tab, and the tab that a click on it has opened. -/
structure Scene where
  tab : Tab
  popup : Option Tab := none
  deriving DecidableEq, Repr

abbrev SceneM := Act Scene String

def onTab {α : Type} (m : TabM α) : SceneM α := fun s =>
  let (r, tab) := exec m s.tab
  (r, { s with tab })

def onPopup {α : Type} (m : TabM α) : SceneM (Option α) := fun s =>
  match s.popup with
  | none => (.ok none, s)
  | some popup =>
    let (r, popup) := exec m popup
    (r.map some, { s with popup := some popup })

/-- The popup's tab behind `createBackgroundTab`. -/
def popupRecord (id parentUrl url : String) : Tab :=
  let fallbackUrl := normalizeHttpUrlOrFallback urls parentUrl "https://duckduckgo.com/"
  { buildTabRecord id (normalizeHttpUrlOrFallback urls url fallbackUrl) with page := some url }

/-- The snapshot of a popup: an error of it is let go. -/
def tryPopup (snapshotAfter : Bool) (o : Popup) : TabM (Option Snapshot) :=
  if snapshotAfter then
    tryCatch (do return some (← captureLiveTabSnapshot urls o.capture)) fun _ => pure none
  else pure none

/-- What `registerPopupTabFromLivePage` reads of the popup. -/
def readPopup (snapshotAfter : Bool) (o : Popup) : TabM (Option Snapshot) := do
  match ← tryPopup urls snapshotAfter o with
  | some snapshot => return some snapshot
  | none => do
    modify fun t => t.overwrite (normalizeHttpUrlOrFallback urls (t.page.getD "") t.url)
    failing o.title
    return none

/-- The end of a click that has opened no popup. -/
def finishClick (snapshotAfter : Bool) (o : Click) (beforeUrl : String) : TabM Unit := do
  if snapshotAfter then captureEntry urls o.capture beforeUrl
  else
    let t ← get
    let currentUrl := normalizeHttpUrlOrFallback urls (t.page.getD "") t.url
    onlyIf (currentUrl ≠ beforeUrl) (appendHistoryEntry urls currentUrl)
    modify fun t => t.overwrite currentUrl
    failing o.title

/-- The end of a click that has opened a popup. -/
def finishPopup (p : Params) (snapshotAfter : Bool) (o : Click) (popup : Popup) (id beforeUrl : String) :
    SceneM Unit := do
  modify fun s => { s with popup := some (popupRecord urls id s.tab.url popup.url) }
  let captured ← onPopup (readPopup urls p.snapshotAfter popup)
  if o.focusPopup then
    if snapshotAfter ∧ captured.join = none then
      discard (onPopup (captureLiveTabSnapshot urls popup.again))
  else if snapshotAfter then onTab (captureEntry urls o.capture beforeUrl)

/-- A click on an element. -/
def clickSelector (p : Params) (o : Click) (snapshotAfter : Bool) (popupId beforeUrl : String) :
    SceneM Unit := do
  onTab (await o.load)
  match o.popup with
  | none => onTab (finishClick urls snapshotAfter o beforeUrl)
  | some popup => finishPopup urls p snapshotAfter o popup popupId beforeUrl

/-- A link that has no element to click on. -/
def clickLink (o : Click) (snapshotAfter : Bool) (target beforeUrl : String) : TabM Unit := do
  navigateTab urls target
  await o.load
  finishClick urls snapshotAfter o beforeUrl

def liveClick (p : Params) (o : Click) (popupId : String) : SceneM Unit := do
  let t := (← get).tab
  match t.page with
  | none => throw ("tab " ++ t.id ++ " is not backed by a live browser page.")
  | some url =>
    let snapshotAfter := p.snapshotAfter || o.right
    let beforeUrl := normalizeHttpUrlOrFallback urls url t.url
    match ← check o.live with
    | .selector => clickSelector urls p o snapshotAfter popupId beforeUrl
    | .link target => onTab (clickLink urls o snapshotAfter target beforeUrl)

def fetchClick (p : Params) (o : Click) : TabM Unit := do
  match ← check o.fetch with
  | .form form => fetchForm urls form p.snapshotAfter o.fetched
  | .link url =>
    navigateTab urls url
    if p.snapshotAfter then discard (captureTabSnapshot urls none o.fetched)

def click (p : Params) (o : Click) (popupId : String) : SceneM Unit := do
  match ← check (resolveEngine p (← get).tab) with
  | .live => liveClick urls p o popupId
  | .fetch => onTab (fetchClick urls p o)

end Follows

section Turns
variable (urls : UrlParser)

/-- Going back or forward: whether the page answers, and what it brings. -/
structure Turn where
  response : Bool
  load : Awaited
  capture : LiveCapture
  fetched : Fetched
  deriving DecidableEq, Repr

def nextHistoryIndex (t : Tab) (back : Bool) : Nat :=
  if back then t.historyIndex - 1 else min (t.history.length - 1) (t.historyIndex + 1)

def liveTurn (p : Params) (back : Bool) (o : Turn) : TabM Unit := do
  let t ← get
  ensure (t.page ≠ none) ("tab " ++ t.id ++ " is not backed by a live browser page.")
  await o.load
  if o.response then
    let currentUrl ← check (normalizeHttpUrl urls.parse (orUrl o.load.url t.url))
    modify fun t => { t with historyIndex := nextHistoryIndex t back, url := currentUrl }
    if p.snapshotAfter then discard (captureLiveTabSnapshot urls o.capture)

def fetchTurn (p : Params) (back : Bool) (o : Turn) : TabM Unit := do
  let t ← get
  let nextIndex := nextHistoryIndex t back
  if nextIndex ≠ t.historyIndex then
    set { t with
      historyIndex := nextIndex, url := t.history.getD nextIndex t.url, lastSnapshot := none }
    if p.snapshotAfter then discard (captureTabSnapshot urls none o.fetched)

def turn (p : Params) (back : Bool) (o : Turn) : TabM Unit := do
  match ← check (resolveEngine p (← get)) with
  | .live => liveTurn urls p back o
  | .fetch => fetchTurn urls p back o

end Turns

section Actions
variable (urls : UrlParser)

/-- An action on a tab, with the answers of the page engine. -/
inductive Action where
  | navigate (url : String) (o : Load)
  | reload (o : Load)
  | snapshot (o : Shot)
  | login (o : Login)
  | submit (o : Submit)
  | click (o : Click)
  | back (o : Turn)
  | forward (o : Turn)
  deriving DecidableEq, Repr

/-- What an action does before it follows a link or submits a form. -/
def Action.prepare (p : Params) : Action → TabM Unit
  | .login o => loginPage urls o
  | .submit o => seedSnapshot urls p o.seed
  | .click o => seedSnapshot urls p o.seed
  | _ => pure ()

def Action.proceed (p : Params) (popupId : String) : Action → SceneM Unit
  | .navigate url o => onTab (History.navigate urls p url o)
  | .reload o => onTab (History.reload urls p o)
  | .snapshot o => onTab (History.snapshot urls p o)
  | .login o => onTab (loginSubmit urls p o)
  | .submit o => onTab (submitForm urls p o)
  | .click o => History.click urls p o popupId
  | .back o => onTab (turn urls p true o)
  | .forward o => onTab (turn urls p false o)

def Action.execute (p : Params) (popupId : String) (a : Action) : SceneM Unit := do
  onTab (a.prepare urls p)
  a.proceed urls p popupId

/-- The tabs of the tool. -/
structure BrowserState where
  tabs : List Tab := []
  nextTabIndex : Nat := 1
  deriving DecidableEq, Repr

inductive Event where
  /-- `open` -/
  | opens (p : Params) (url : String) (o : Load)
  /-- `snapshot` of a URL without a tab. -/
  | captures (p : Params) (url : String) (o : Shot)
  | acts (tabId : String) (p : Params) (a : Action)
  /-- The page of a tab goes to another URL by itself. -/
  | drifts (tabId : String) (url : String)
  deriving DecidableEq, Repr

def BrowserState.nextTabId (b : BrowserState) : String := "tab-" ++ toString b.nextTabIndex

/-- `createTab`, and an action on the new tab. -/
def BrowserState.create (b : BrowserState) (rawUrl : String) (m : String → TabM Unit) : BrowserState :=
  match normalizeHttpUrl urls.parse rawUrl with
  | .error _ => b
  | .ok url =>
    let tab := (exec (m url) (buildTabRecord b.nextTabId url)).2
    { tabs := b.tabs ++ [tab], nextTabIndex := b.nextTabIndex + 1 }

/-- The first tab with the id, and its place. -/
def BrowserState.find? (b : BrowserState) (tabId : String) : Option (Nat × Tab) := do
  let i ← b.tabs.findIdx? fun t => t.id = tabId
  let tab ← b.tabs[i]?
  return (i, tab)

def BrowserState.put (b : BrowserState) (i : Nat) (s : Scene) : BrowserState where
  tabs := b.tabs.set i s.tab ++ s.popup.toList
  nextTabIndex := if s.popup.isSome then b.nextTabIndex + 1 else b.nextTabIndex

def step (b : BrowserState) : Event → BrowserState
  | .opens p url o => b.create urls url fun url => openTab urls p url o
  | .captures p url o => b.create urls url fun _ => snapshot urls p o
  | .acts tabId p a =>
    match b.find? tabId with
    | none => b
    | some (i, tab) => b.put i (exec (a.execute urls p b.nextTabId) ⟨tab, none⟩).2
  | .drifts tabId url =>
    match b.find? tabId with
    | none => b
    | some (i, tab) => b.put i ⟨{ tab with page := tab.page.map fun _ => url }, none⟩

end Actions

end T560.Browser.History
