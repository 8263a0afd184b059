import T560.Browser.History

/-!
# The history of a tab is a cursor

The list and the index of a tab show a cursor over the URLs that the tab has been on. Snapshots
and reloads put another URL where the cursor is, navigation goes on to a new one.
-/

namespace T560.Browser.History

open Stateful (Act exec failing Within)
open Visit (Cursor)

/-- The tab shows the cursor. -/
structure Tab.Shows (t : Tab) (c : Cursor String) : Prop where
  places : t.history = c.places
  index : t.historyIndex = c.index
  here : t.url = c.here

/-- The current entry is there, and is the URL of the tab. -/
def Tab.WellFormed (t : Tab) : Prop :=
  t.history ≠ [] ∧ t.historyIndex < t.history.length ∧ t.history[t.historyIndex]? = some t.url

/-- The tab shows what it showed. -/
def Tab.Keeps (t t' : Tab) : Prop := ∀ c, t.Shows c → t'.Shows c

/-- Nothing but the current entry is replaced. -/
def Tab.Revises (t t' : Tab) : Prop := ∀ c, t.Shows c → t'.Shows (c.revise t'.url)

section Shows
variable {t t' : Tab} {c : Cursor String}

theorem Tab.Shows.wellFormed (h : t.Shows c) : t.WellFormed := by
  have hget : t.history[t.historyIndex]? = some t.url := by
    rw [h.places, h.index, h.here]
    exact c.getElem?_index
  obtain ⟨hlt, -⟩ := List.getElem?_eq_some_iff.mp hget
  exact ⟨List.ne_nil_of_length_pos (by omega), hlt, hget⟩

theorem wellFormed_iff : t.WellFormed ↔ ∃ c, t.Shows c := by
  constructor
  · rintro ⟨-, -, hget⟩
    obtain ⟨c, hplaces, hindex, hhere⟩ := Cursor.exists_places hget
    exact ⟨c, hplaces.symm, hindex.symm, hhere.symm⟩
  · rintro ⟨c, h⟩
    exact h.wellFormed

theorem Tab.Shows.current (h : t.Shows c) : t.history[t.historyIndex]? = some t.url :=
  h.wellFormed.2.2

theorem shows_start (id url : String) : (buildTabRecord id url).Shows (Cursor.start url) :=
  ⟨rfl, rfl, rfl⟩

theorem Tab.Shows.overwrite (h : t.Shows c) (url : String) :
    (t.overwrite url).Shows (c.revise url) where
  places := by
    rw [Cursor.places_revise, ← h.places, ← h.index]
    rfl
  index := h.index
  here := rfl

theorem history_push (h : t.historyIndex < t.history.length) (url : String) :
    (t.push url).history = t.history.take (t.historyIndex + 1) ++ [url] := by
  simp only [Tab.push]
  split_ifs with hlast
  · rfl
  · rw [List.take_of_length_le (by omega)]

theorem historyIndex_push (h : t.historyIndex < t.history.length) (url : String) :
    (t.push url).historyIndex = t.historyIndex + 1 := by
  have hindex : (t.push url).historyIndex = (t.push url).history.length - 1 := rfl
  rw [hindex, history_push h, List.length_append, List.length_take, List.length_singleton]
  omega

/-- A new entry, and its URL as the tab's: the cursor goes on. -/
theorem Tab.Shows.push (h : t.Shows c) {url : String} (hhistory : t'.history = (t.push url).history)
    (hindex : t'.historyIndex = (t.push url).historyIndex) (hurl : t'.url = url) :
    t'.Shows (c.visit url) where
  places := by
    rw [hhistory, history_push h.wellFormed.2.1, Cursor.places_visit, h.places, h.index]
  index := by
    rw [hindex, historyIndex_push h.wellFormed.2.1, h.index, Cursor.index_visit]
  here := hurl

instance : Std.Refl Tab.Keeps := ⟨fun _ _ h => h⟩

instance : IsTrans Tab Tab.Keeps := ⟨fun _ _ _ h1 h2 c h => h2 c (h1 c h)⟩

theorem Tab.Keeps.revises (h : t.Keeps t') : t.Revises t' := by
  intro c hc
  have hkept := h c hc
  rw [hkept.here, Cursor.revise_here]
  exact hkept

instance : Std.Refl Tab.Revises := ⟨fun t => (refl_of Tab.Keeps t).revises⟩

instance : IsTrans Tab Tab.Revises where
  trans := by
    intro a b d h1 h2 c hc
    have hb := h2 _ (h1 c hc)
    rwa [Cursor.revise_revise] at hb

theorem Tab.Revises.wellFormed (h : t.Revises t') (ht : t.WellFormed) : t'.WellFormed := by
  obtain ⟨c, hc⟩ := wellFormed_iff.mp ht
  exact (h c hc).wellFormed

/-- What revises the entry that a step has gone on to has gone on to the new URL. -/
theorem Tab.Revises.visit (h : t.Revises t') {url : String} (hc : t.Shows (c.visit url)) :
    t'.Shows (c.visit t'.url) := by
  have hrevised := h _ hc
  rwa [Cursor.revise_visit] at hrevised

end Shows

section Captures
variable (urls : UrlParser)

theorem within_check {R : Tab → Tab → Prop} [Std.Refl R] {α : Type} (x : Except String α) :
    Within R (check x : TabM α) := by
  cases x with
  | ok a => exact Stateful.within_pure a
  | error e => exact Stateful.within_throw e

theorem keeps_await (a : Awaited) : Within Tab.Keeps (await a) := by
  unfold await
  apply Stateful.within_bind
  · exact Stateful.within_modify fun t c h => ⟨h.places, h.index, h.here⟩
  · exact fun _ => Stateful.within_failing _

theorem revises_of_keeps {α : Type} {m : TabM α} (h : Within Tab.Keeps m) : Within Tab.Revises m :=
  ⟨fun t => (h.moves t).revises⟩

theorem revises_overwrite (url : String) (last : Tab → Option Snapshot) :
    Within Tab.Revises
      (modify fun t : Tab => { t.overwrite url with lastSnapshot := last t } : TabM PUnit) :=
  Stateful.within_modify fun t c h =>
    ⟨(h.overwrite url).places, (h.overwrite url).index, rfl⟩

theorem revises_captureLiveTabSnapshot (c : LiveCapture) :
    Within Tab.Revises (captureLiveTabSnapshot urls c) := by
  unfold captureLiveTabSnapshot
  apply Stateful.within_bind Stateful.within_get
  intro t
  apply Stateful.within_bind (Stateful.within_ensure _ _)
  intro _
  apply Stateful.within_bind (revises_of_keeps (keeps_await _))
  intro _
  apply Stateful.within_bind (within_check _)
  intro finalUrl
  apply Stateful.within_bind (Stateful.within_failing _)
  intro _
  apply Stateful.within_bind (revises_overwrite _ _)
  exact fun _ => Stateful.within_pure _

theorem revises_captureTabSnapshot (request : Option String) (fetched : Fetched) :
    Within Tab.Revises (captureTabSnapshot urls request fetched) := by
  unfold captureTabSnapshot
  apply Stateful.within_bind Stateful.within_get
  intro t
  apply Stateful.within_bind (within_check _)
  intro answered
  apply Stateful.within_bind (within_check _)
  intro finalUrl
  apply Stateful.within_bind (revises_overwrite _ _)
  exact fun _ => Stateful.within_pure _

theorem revises_captureTabSnapshotWithRetries (attempts : List Fetched) :
    Within Tab.Revises (captureTabSnapshotWithRetries urls attempts) := by
  induction attempts with
  | nil => exact Stateful.within_throw _
  | cons attempt rest ih =>
    apply Stateful.within_tryCatch (revises_captureTabSnapshot urls none attempt)
    intro e
    split_ifs
    · exact Stateful.within_throw _
    · exact ih

theorem revises_discard {α : Type} {m : TabM α} (h : Within Tab.Revises m) :
    Within Tab.Revises (discard m) :=
  Stateful.within_bind h fun _ => Stateful.within_pure _

theorem revises_captureIf (snapshotAfter : Bool) (c : LiveCapture) :
    Within Tab.Revises (if snapshotAfter then discard (captureLiveTabSnapshot urls c) else pure () : TabM Unit) := by
  cases snapshotAfter with
  | true => exact revises_discard (revises_captureLiveTabSnapshot urls c)
  | false => exact Stateful.within_pure _

/-- A live snapshot returns the URL that it has put into the current entry. -/
theorem of_captureLiveTabSnapshot {c : LiveCapture} {t t' : Tab} {s : Snapshot}
    (h : exec (captureLiveTabSnapshot urls c) t = (.ok s, t')) :
    t'.url = s.url ∧ normalizeHttpUrl urls.parse s.url = .ok s.url := by
  unfold captureLiveTabSnapshot at h
  obtain ⟨_, _, -, h⟩ := Stateful.exists_of_exec_bind h
  obtain ⟨_, _, -, h⟩ := Stateful.exists_of_exec_bind h
  obtain ⟨_, _, -, h⟩ := Stateful.exists_of_exec_bind h
  obtain ⟨finalUrl, _, hcheck, h⟩ := Stateful.exists_of_exec_bind h
  obtain ⟨_, _, -, h⟩ := Stateful.exists_of_exec_bind h
  obtain ⟨hs, rfl⟩ := Prod.mk.inj h
  obtain rfl := Except.ok.inj hs
  refine ⟨rfl, ?_⟩
  cases hnormal : normalizeHttpUrl urls.parse (orUrl c.settled _) with
  | error e =>
    rw [hnormal] at hcheck
    cases hcheck
  | ok url =>
    rw [hnormal] at hcheck
    obtain rfl := Except.ok.inj (Prod.mk.inj hcheck).1
    exact normalizeHttpUrl_idem hnormal

theorem exec_appendHistoryEntry {t : Tab} {url normalized : String}
    (hnormal : normalizeHttpUrl urls.parse url = .ok normalized) :
    exec (appendHistoryEntry urls url) t =
      (.ok .unit, if t.history[t.historyIndex]? = some normalized then t else t.push normalized) := by
  unfold appendHistoryEntry
  rw [hnormal, check, Stateful.exec_bind_ok (Stateful.exec_pure _ t), Stateful.exec_modify]

/-- The URL of the current entry is not appended. -/
theorem exec_appendHistoryEntry_current {t : Tab} {url : String}
    (hnormal : normalizeHttpUrl urls.parse url = .ok url) (hcurrent : t.history[t.historyIndex]? = some url) :
    exec (appendHistoryEntry urls url) t = (.ok .unit, t) := by
  rw [exec_appendHistoryEntry urls hnormal, if_pos hcurrent]

/-- The snapshot has already put its URL into the current entry: none is appended. -/
theorem exec_captureEntry {t : Tab} {cursor : Cursor String} (hshows : t.Shows cursor)
    (c : LiveCapture) (beforeUrl : String) :
    (exec (captureEntry urls c beforeUrl) t).2 = (exec (captureLiveTabSnapshot urls c) t).2 := by
  have hcapture := (revises_captureLiveTabSnapshot urls c).moves t cursor hshows
  unfold captureEntry
  rcases hexec : exec (captureLiveTabSnapshot urls c) t with ⟨e | s, t'⟩
  · rw [Stateful.exec_bind_error hexec]
  · rw [hexec] at hcapture
    replace hcapture : t'.Shows _ := hcapture
    obtain ⟨hurl, hnormal⟩ := of_captureLiveTabSnapshot urls hexec
    have hcurrent : t'.history[t'.historyIndex]? = some s.url := by
      rw [← hurl]
      exact hcapture.current
    rw [Stateful.exec_bind_ok hexec]
    split_ifs
    · rw [exec_appendHistoryEntry_current urls hnormal hcurrent]
    · rfl

theorem revises_captureEntry (c : LiveCapture) (beforeUrl : String) :
    Within Tab.Revises (captureEntry urls c beforeUrl) := by
  constructor
  intro t cursor hshows
  rw [exec_captureEntry urls hshows]
  exact (revises_captureLiveTabSnapshot urls c).moves t cursor hshows

end Captures

section Loads
variable (urls : UrlParser)

theorem keeps_page (page : Tab → Option String) :
    Within Tab.Keeps (modify fun t : Tab => { t with page := page t } : TabM PUnit) :=
  Stateful.within_modify fun _ _ h => ⟨h.places, h.index, h.here⟩

theorem keeps_openPage (runtime : Option String) (goto : Awaited) :
    Within Tab.Keeps (openPage runtime goto) := by
  unfold openPage
  apply Stateful.within_bind (Stateful.within_failing _)
  exact fun _ => keeps_await goto

theorem keeps_loadPage (o : Load) : Within Tab.Keeps (loadPage o) := by
  unfold loadPage
  apply Stateful.within_bind Stateful.within_get
  intro t
  split_ifs
  · exact keeps_openPage _ _
  · exact keeps_await _

theorem revises_readPage (p : Params) (fallback : String) (capture : LiveCapture)
    (title : Option String) : Within Tab.Revises (readPage urls p fallback capture title) := by
  unfold readPage
  split_ifs
  · exact revises_discard (revises_captureLiveTabSnapshot urls capture)
  · apply Stateful.within_bind Stateful.within_get
    intro t
    apply Stateful.within_bind (within_check _)
    intro url
    apply Stateful.within_bind (revises_overwrite url Tab.lastSnapshot)
    exact fun _ => Stateful.within_failing _

theorem revises_orElseFetch (p : Params) {body recover : TabM Unit}
    (hbody : Within Tab.Revises body) (hrecover : Within Tab.Revises recover) :
    Within Tab.Revises (orElseFetch p body recover) := by
  apply Stateful.within_tryCatch hbody
  intro e
  split_ifs
  · apply Stateful.within_bind (revises_of_keeps (keeps_page _))
    exact fun _ => hrecover
  · exact Stateful.within_throw _

theorem revises_fetchAfter (p : Params) (attempts : List Fetched) :
    Within Tab.Revises (fetchAfter urls p attempts) := by
  unfold fetchAfter
  split_ifs
  · exact revises_discard (revises_captureTabSnapshotWithRetries urls attempts)
  · exact Stateful.within_pure _

/-- The engine is chosen, and each of the two revises. -/
theorem revises_engine (p : Params) {live fetch : TabM Unit} (hlive : Within Tab.Revises live)
    (hfetch : Within Tab.Revises fetch) :
    Within Tab.Revises (do
      match ← check (resolveEngine p (← get)) with
      | .live => live
      | .fetch => fetch) := by
  apply Stateful.within_bind Stateful.within_get
  intro t
  apply Stateful.within_bind (within_check _)
  intro engine
  cases engine with
  | fetch => exact hfetch
  | live => exact hlive

theorem revises_openTab (p : Params) (url : String) (o : Load) :
    Within Tab.Revises (openTab urls p url o) := by
  apply revises_engine
  · apply revises_orElseFetch
    · apply Stateful.within_bind (revises_of_keeps (keeps_openPage _ _))
      exact fun _ => revises_readPage urls _ _ _ _
    · exact revises_discard (revises_captureTabSnapshotWithRetries urls _)
  · exact revises_fetchAfter urls _ _

theorem revises_reload (p : Params) (o : Load) : Within Tab.Revises (reload urls p o) := by
  apply revises_engine
  · apply revises_orElseFetch _ _ (revises_fetchAfter urls _ _)
    apply Stateful.within_bind Stateful.within_get
    intro t
    apply Stateful.within_bind (Stateful.within_ensure _ _)
    intro _
    apply Stateful.within_bind (revises_of_keeps (keeps_await _))
    exact fun _ => revises_readPage urls _ _ _ _
  · exact revises_fetchAfter urls _ _

theorem revises_snapshot (p : Params) (o : Shot) : Within Tab.Revises (snapshot urls p o) := by
  apply revises_engine
  · apply revises_orElseFetch
    · exact revises_discard (revises_captureLiveTabSnapshot urls _)
    · exact revises_discard (revises_captureTabSnapshotWithRetries urls _)
  · exact revises_discard (revises_captureTabSnapshotWithRetries urls _)

theorem revises_seedSnapshot (p : Params) (o : Seed) : Within Tab.Revises (seedSnapshot urls p o) := by
  apply Stateful.within_bind Stateful.within_get
  intro t
  split_ifs
  · apply Stateful.within_bind (within_check _)
    intro engine
    cases engine with
    | fetch => exact revises_discard (revises_captureTabSnapshot urls _ _)
    | live => exact revises_discard (revises_captureLiveTabSnapshot urls _)
  · exact Stateful.within_pure _

/-- A login that submits its form leaves the number of entries as it is. -/
theorem revises_loginSubmit (p : Params) (o : Login) : Within Tab.Revises (loginSubmit urls p o) := by
  apply Stateful.within_bind (Stateful.within_failing _)
  intro _
  apply Stateful.within_bind (revises_of_keeps (keeps_await _))
  intro _
  apply Stateful.within_bind (Stateful.within_failing _)
  intro _
  exact revises_captureIf urls _ _

end Loads

end T560.Browser.History
