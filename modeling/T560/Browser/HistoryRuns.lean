import T560.Browser.HistoryClicks
import T560.Foundation.EventRun

/-!
# Runs over the history of tabs

In a run whose actions meet their condition every tab shows a cursor, and every action does to it
what it has to.
-/

namespace T560.Browser.History

open Stateful (Act exec failing Within ensure onlyIf)
open Visit (Cursor)
open EventRun (run Allowed)

section Turns
variable {urls : UrlParser} {p : Params} {popupId : String} {t t' : Tab} {c d : Cursor String}

/-- The current entry and the URL of the tab are what a live snapshot has read. -/
theorem exec_captureLiveTabSnapshot_ok {capture : LiveCapture} {url final : String}
    (hpage : t.page ≠ none) (hurl : t.url = url)
    (hfinal : normalizeHttpUrl urls.parse (orUrl capture.settled url) = .ok final)
    (hcontent : capture.content = none) :
    (exec (captureLiveTabSnapshot urls capture) t).2 =
      { ({ t with page := some capture.settled } : Tab).overwrite final with
        lastSnapshot := some ⟨final⟩ } := by
  subst hurl
  unfold captureLiveTabSnapshot
  rw [Stateful.exec_bind_ok (Stateful.exec_get t), ensure, if_pos hpage,
    Stateful.exec_bind_ok (Stateful.exec_pure _ t), Stateful.exec_bind_ok (exec_await _ t), hfinal, check,
    Stateful.exec_bind_ok (Stateful.exec_pure _ _), hcontent]
  rfl

/-- A live snapshot that fails writes nothing to the tab. -/
theorem keeps_captureLiveTabSnapshot_error {capture : LiveCapture} {url : String}
    (hpage : t.page ≠ none) (hurl : t.url = url)
    (hnot : ¬ (capture.content = none ∧
      ∃ final, normalizeHttpUrl urls.parse (orUrl capture.settled url) = .ok final)) :
    (exec (captureLiveTabSnapshot urls capture) t).2 = { t with page := some capture.settled } := by
  subst hurl
  unfold captureLiveTabSnapshot
  rw [Stateful.exec_bind_ok (Stateful.exec_get t), ensure, if_pos hpage,
    Stateful.exec_bind_ok (Stateful.exec_pure _ t), Stateful.exec_bind_ok (exec_await _ t)]
  cases hfinal : normalizeHttpUrl urls.parse (orUrl capture.settled t.url) with
  | error e => rfl
  | ok final =>
    rw [check, Stateful.exec_bind_ok (Stateful.exec_pure _ _)]
    cases hcontent : capture.content with
    | some e => rfl
    | none => exact absurd ⟨hcontent, final, hfinal⟩ hnot

/-- The cursor behind a move. -/
def turned (back : Bool) : Cursor String → Cursor String := if back then Cursor.back else Cursor.forward

theorem places_turned (back : Bool) (c : Cursor String) : (turned back c).places = c.places := by
  cases back
  · exact c.places_forward
  · exact c.places_back

theorem Tab.Shows.index_turned (hc : t.Shows c) (back : Bool) :
    nextHistoryIndex t back = (turned back c).index := by
  cases back
  · have hforward : (turned false c).index = min (c.places.length - 1) (c.index + 1) := c.index_forward
    rw [hforward, ← hc.places, ← hc.index]
    rfl
  · have hback : (turned true c).index = c.index - 1 := c.index_back
    rw [hback, ← hc.index]
    rfl

/-- The entry that a move leads to. -/
theorem Tab.Shows.entry_turned (hc : t.Shows c) (back : Bool) :
    t.history[nextHistoryIndex t back]? = some (turned back c).here := by
  rw [hc.places, hc.index_turned back, ← places_turned back c]
  exact (turned back c).getElem?_index

/-- A tab on the entry of the move shows the moved cursor, with its own URL in it. -/
theorem Tab.Shows.turned_overwrite (hc : t.Shows c) (back : Bool) (hhistory : t'.history = t.history)
    (hindex : t'.historyIndex = nextHistoryIndex t back) (url : String) :
    (t'.overwrite url).Shows ((turned back c).revise url) where
  places := by
    rw [Cursor.places_revise, places_turned, ← hc.places, ← hc.index_turned, ← hhistory, ← hindex]
    rfl
  index := hindex.trans (hc.index_turned back)
  here := rfl

/-- A tab that has gone to the entry of the move shows a cursor just when the entry has its URL. -/
theorem turns_iff_entry (ht : t.WellFormed) (back : Bool) (t' : Tab) (hhistory : t'.history = t.history)
    (hindex : t'.historyIndex = nextHistoryIndex t back) :
    t.Turns t' (turned back) ↔ t.history[nextHistoryIndex t back]? = some t'.url := by
  obtain ⟨c, hc⟩ := wellFormed_iff.mp ht
  constructor
  · intro h
    have hcurrent : t'.history[t'.historyIndex]? = some t'.url := by
      rcases h c hc with hshows | hshows
      · exact hshows.current
      · exact hshows.current
    rwa [hhistory, hindex] at hcurrent
  · intro h d hd
    have hhere : t'.url = (turned back d).here :=
      Option.some.inj (h.symm.trans (hd.entry_turned back))
    refine Or.inr ⟨?_, hindex.trans (hd.index_turned back), rfl⟩
    rw [hhere, Cursor.revise_here, places_turned, hhistory, hd.places]

theorem turns_refl (back : Bool) (h : t.Keeps t') : t.Turns t' (turned back) := fun c hc => Or.inl (h c hc)

theorem turns_fetchTurn (urls : UrlParser) (p : Params) (back : Bool) (o : Turn) (t : Tab) :
    t.Turns (exec (fetchTurn urls p back o) t).2 (turned back) := by
  intro c hc
  have hurl : t.history.getD (nextHistoryIndex t back) t.url = (turned back c).here := by
    rw [List.getD_eq_getElem?_getD, hc.entry_turned back]
    rfl
  have hset : ({ t with
      historyIndex := nextHistoryIndex t back, url := t.history.getD (nextHistoryIndex t back) t.url,
      lastSnapshot := none } : Tab).Shows (turned back c) :=
    ⟨hc.places.trans (places_turned back c).symm, hc.index_turned back, hurl⟩
  unfold fetchTurn
  rw [Stateful.exec_bind_ok (Stateful.exec_get t)]
  dsimp only
  split_ifs
  · have hcapture := (revises_discard (revises_captureTabSnapshot urls none o.fetched)).moves _ _ hset
    exact Or.inr hcapture
  · have hkept := (refl_of Tab.Revises _) _ hset
    exact Or.inr hkept
  · exact Or.inl hc

/-- The live move up to the snapshot. -/
theorem exec_liveTurn {back : Bool} {o : Turn} {url : String} (hpage : t.page.isSome)
    (herror : o.load.error = none) (hresponse : o.response = true)
    (hnormal : normalizeHttpUrl urls.parse (orUrl o.load.url t.url) = .ok url) :
    (exec (liveTurn urls p back o) t).2 =
      (exec (if p.snapshotAfter then discard (captureLiveTabSnapshot urls o.capture) else pure () : TabM Unit)
        { t with historyIndex := nextHistoryIndex t back, url := url, page := some o.load.url }).2 := by
  have hawait := exec_await o.load t
  rw [herror] at hawait
  have hne : t.page ≠ none := Option.isSome_iff_ne_none.mp hpage
  unfold liveTurn
  rw [Stateful.exec_bind_ok (Stateful.exec_get t), ensure, if_pos hne,
    Stateful.exec_bind_ok (Stateful.exec_pure _ t), Stateful.exec_bind_ok hawait, if_pos hresponse,
    hnormal, check, Stateful.exec_bind_ok (Stateful.exec_pure _ _)]
  rfl

/-- A live move that ends early leaves the entry as it was. -/
theorem keeps_liveTurn {back : Bool} {o : Turn}
    (hnot : ¬ (t.page.isSome ∧ o.load.error = none ∧ o.response = true ∧
      ∃ url, normalizeHttpUrl urls.parse (orUrl o.load.url t.url) = .ok url)) :
    t.Keeps (exec (liveTurn urls p back o) t).2 := by
  have hkeeps := (keeps_await o.load).moves t
  unfold liveTurn
  rw [Stateful.exec_bind_ok (Stateful.exec_get t)]
  by_cases hpage : t.page ≠ none
  · rw [ensure, if_pos hpage, Stateful.exec_bind_ok (Stateful.exec_pure _ t)]
    have hawait := exec_await o.load t
    rw [hawait] at hkeeps
    cases herror : o.load.error with
    | some e =>
      rw [herror] at hawait
      rw [Stateful.exec_bind_error hawait]
      exact hkeeps
    | none =>
      rw [herror] at hawait
      rw [Stateful.exec_bind_ok hawait]
      cases hresponse : o.response with
      | false => exact hkeeps
      | true =>
        cases hnormal : normalizeHttpUrl urls.parse (orUrl o.load.url t.url) with
        | error e => exact hkeeps
        | ok url => exact absurd ⟨Option.isSome_iff_ne_none.mpr hpage, herror, hresponse, url, hnormal⟩ hnot
  · rw [ensure, if_neg hpage, Stateful.exec_bind_error (Stateful.exec_throw _ t)]
    exact refl_of Tab.Keeps t

theorem exec_discard {σ ε α : Type} (m : Act σ ε α) (s : σ) : (exec (discard m) s).2 = (exec m s).2 := by
  have hdiscard : discard m = m >>= fun _ => pure PUnit.unit := rfl
  rw [hdiscard, Stateful.exec_bind]
  rcases exec m s with ⟨e | a, u⟩ <;> rfl

theorem turns_liveTurn_iff (o : Turn) (back : Bool) (ht : t.WellFormed) :
    o.Lands urls p back t ↔ t.Turns (exec (liveTurn urls p back o) t).2 (turned back) := by
  by_cases hmoves : t.page.isSome ∧ o.load.error = none ∧ o.response = true ∧
      ∃ url, normalizeHttpUrl urls.parse (orUrl o.load.url t.url) = .ok url
  · obtain ⟨hpage, herror, hresponse, url, hnormal⟩ := hmoves
    have hlands : o.Lands urls p back t ↔ t.history[nextHistoryIndex t back]? = some url ∨
        p.snapshotAfter ∧ o.capture.content = none ∧
          ∃ final, normalizeHttpUrl urls.parse (orUrl o.capture.settled url) = .ok final := by
      constructor
      · exact fun h => h hpage herror hresponse url hnormal
      · intro h _ _ _ url' hnormal'
        obtain rfl := Except.ok.inj (hnormal.symm.trans hnormal')
        exact h
    rw [hlands, exec_liveTurn hpage herror hresponse hnormal]
    cases hafter : p.snapshotAfter with
    | false =>
      rw [if_neg Bool.false_ne_true, Stateful.exec_pure]
      have hentry := turns_iff_entry ht back { t with
        historyIndex := nextHistoryIndex t back, url := url, page := some o.load.url } rfl rfl
      rw [hentry]
      simp only [Bool.false_eq_true, false_and, or_false]
    | true =>
      obtain ⟨s, hs⟩ : ∃ s : Tab, s = { t with
        historyIndex := nextHistoryIndex t back, url := url, page := some o.load.url } := ⟨_, rfl⟩
      have hpages : s.page ≠ none := by
        rw [hs]
        exact Option.some_ne_none _
      have hurl : s.url = url := by rw [hs]
      have hhistory : s.history = t.history := by rw [hs]
      have hindex : s.historyIndex = nextHistoryIndex t back := by rw [hs]
      rw [if_pos rfl, exec_discard, ← hs]
      by_cases hread : o.capture.content = none ∧
          ∃ final, normalizeHttpUrl urls.parse (orUrl o.capture.settled url) = .ok final
      · refine iff_of_true (Or.inr ⟨rfl, hread⟩) ?_
        obtain ⟨hcontent, final, hfinal⟩ := hread
        rw [exec_captureLiveTabSnapshot_ok hpages hurl hfinal hcontent]
        intro c hc
        have hshows := hc.turned_overwrite back hhistory hindex final
        exact Or.inr ⟨hshows.places, hshows.index, rfl⟩
      · rw [keeps_captureLiveTabSnapshot_error hpages hurl hread]
        have hentry := turns_iff_entry ht back { s with page := some o.capture.settled } hhistory hindex
        rw [hentry, hurl, or_iff_left fun h => hread h.2]
  · refine iff_of_true ?_ (turns_refl back (keeps_liveTurn hmoves))
    intro hpage herror hresponse url hnormal
    exact absurd ⟨hpage, herror, hresponse, url, hnormal⟩ hmoves

theorem turns_turn_iff (o : Turn) (back : Bool) (ht : t.WellFormed) :
    o.Lands urls p back t ↔ t.Turns (exec (turn urls p back o) t).2 (turned back) := by
  unfold turn
  rw [Stateful.exec_bind_ok (Stateful.exec_get t)]
  cases hengine : resolveEngine p t with
  | error e =>
    refine iff_of_true ?_ (turns_refl back (refl_of Tab.Keeps t))
    intro hpage
    cases hengine.symm.trans (resolveEngine_of_page hpage)
  | ok engine =>
    rw [check, Stateful.exec_bind_ok (Stateful.exec_pure _ t)]
    cases engine with
    | live => exact turns_liveTurn_iff o back ht
    | fetch =>
      refine iff_of_true ?_ (turns_fetchTurn urls p back o t)
      intro hpage
      cases hengine.symm.trans (resolveEngine_of_page hpage)

theorem meets_turn_iff (o : Turn) (ht : t.WellFormed) :
    ((Action.back o).Sound urls p popupId t ↔ (Action.back o).Meets urls p popupId t) ∧
      ((Action.forward o).Sound urls p popupId t ↔ (Action.forward o).Meets urls p popupId t) := by
  have hback : (Action.back o).finished urls p popupId t = (exec (turn urls p true o) t).2 :=
    finished_onTab rfl rfl
  have hforward : (Action.forward o).finished urls p popupId t = (exec (turn urls p false o) t).2 :=
    finished_onTab rfl rfl
  simp only [Action.Sound, Action.Meets, hback, hforward]
  exact ⟨turns_turn_iff o true ht, turns_turn_iff o false ht⟩

/-- From a tab that shows a cursor, an action does what it has to just under its condition. -/
theorem meets_iff (a : Action) (ht : t.WellFormed) :
    a.Sound urls p popupId t ↔ a.Meets urls p popupId t := by
  cases a with
  | navigate url o =>
    have hend : (Action.navigate url o).finished urls p popupId t = (exec (navigate urls p url o) t).2 :=
      finished_onTab rfl rfl
    simp only [Action.Sound, Action.Meets, hend, true_iff]
    exact (goes_navigate urls p url o).moves t
  | reload o =>
    have hend : (Action.reload o).finished urls p popupId t = (exec (reload urls p o) t).2 :=
      finished_onTab rfl rfl
    simp only [Action.Sound, Action.Meets, hend, true_iff]
    exact (revises_reload urls p o).moves t
  | snapshot o =>
    have hend : (Action.snapshot o).finished urls p popupId t = (exec (snapshot urls p o) t).2 :=
      finished_onTab rfl rfl
    simp only [Action.Sound, Action.Meets, hend, true_iff]
    exact (revises_snapshot urls p o).moves t
  | login o => exact meets_login_iff o ht
  | submit o => exact meets_submit_iff o ht
  | click o => exact meets_click_iff o ht
  | back o => exact (meets_turn_iff o ht).1
  | forward o => exact (meets_turn_iff o ht).2

end Turns

section States
variable {urls : UrlParser} {p : Params} {popupId : String} {t t' : Tab} {b : BrowserState}

/-- A popup that a click has opened shows a cursor. -/
def Scene.PopupKept (s s' : Scene) : Prop :=
  (∀ tab, s.popup = some tab → tab.WellFormed) → ∀ tab, s'.popup = some tab → tab.WellFormed

instance : Std.Refl Scene.PopupKept := ⟨fun _ h => h⟩

instance : IsTrans Scene Scene.PopupKept := ⟨fun _ _ _ h1 h2 h => h2 (h1 h)⟩

theorem popupKept_onTab {α : Type} (m : TabM α) : Within Scene.PopupKept (onTab m) := ⟨fun _ h => h⟩

theorem popupKept_onPopup {α : Type} {m : TabM α} (hm : Within Tab.Revises m) :
    Within Scene.PopupKept (onPopup m) := by
  constructor
  rintro ⟨tab, popup⟩ h
  cases popup with
  | none => exact h
  | some popup =>
    intro tab htab
    obtain rfl : (exec m popup).2 = tab := Option.some.inj htab
    exact (hm.moves popup).wellFormed (h popup rfl)

theorem revises_tryPopup (urls : UrlParser) (snapshotAfter : Bool) (o : Popup) :
    Within Tab.Revises (tryPopup urls snapshotAfter o) := by
  unfold tryPopup
  split_ifs
  · apply Stateful.within_tryCatch
    · apply Stateful.within_bind (revises_captureLiveTabSnapshot urls _)
      exact fun _ => Stateful.within_pure _
    · exact fun _ => Stateful.within_pure _
  · exact Stateful.within_pure _

theorem revises_readPopup (urls : UrlParser) (snapshotAfter : Bool) (o : Popup) :
    Within Tab.Revises (readPopup urls snapshotAfter o) := by
  unfold readPopup
  apply Stateful.within_bind (revises_tryPopup urls _ _)
  intro captured
  cases captured with
  | some snapshot => exact Stateful.within_pure _
  | none =>
    apply Stateful.within_bind
    · apply Stateful.within_modify
      intro t c hc
      generalize normalizeHttpUrlOrFallback urls (t.page.getD "") t.url = url
      exact hc.overwrite url
    intro _
    apply Stateful.within_bind (Stateful.within_failing _)
    exact fun _ => Stateful.within_pure _

theorem popupKept_finishPopup (snapshotAfter : Bool) (o : Click) (popup : Popup) (id beforeUrl : String) :
    Within Scene.PopupKept (finishPopup urls p snapshotAfter o popup id beforeUrl) := by
  unfold finishPopup
  apply Stateful.within_bind
  · apply Stateful.within_modify
    intro s _ tab htab
    obtain rfl := Option.some.inj htab
    exact ((shows_start id _).page _).wellFormed
  intro _
  apply Stateful.within_bind (popupKept_onPopup (revises_readPopup urls _ _))
  intro captured
  split_ifs
  · apply Stateful.within_bind (popupKept_onPopup (revises_captureLiveTabSnapshot urls _))
    exact fun _ => Stateful.within_pure _
  · exact Stateful.within_pure _
  · exact popupKept_onTab _
  · exact Stateful.within_pure _

theorem popupKept_check {α : Type} (x : Except String α) :
    Within Scene.PopupKept (check x : SceneM α) := by
  cases x with
  | ok a => exact Stateful.within_pure a
  | error e => exact Stateful.within_throw e

theorem popupKept_liveClick (o : Click) : Within Scene.PopupKept (liveClick urls p o popupId) := by
  unfold liveClick
  apply Stateful.within_bind Stateful.within_get
  intro s
  dsimp only
  cases hpage : s.tab.page with
  | none => exact Stateful.within_throw _
  | some url =>
    apply Stateful.within_bind (popupKept_check _)
    intro target
    cases target with
    | link target => exact popupKept_onTab _
    | selector =>
      apply Stateful.within_bind (popupKept_onTab _)
      intro _
      cases hpopup : o.popup with
      | none => exact popupKept_onTab _
      | some popup => exact popupKept_finishPopup _ o popup popupId _

theorem popupKept_execute (a : Action) : Within Scene.PopupKept (a.execute urls p popupId) := by
  apply Stateful.within_bind (popupKept_onTab _)
  intro _
  cases a with
  | click o =>
    apply Stateful.within_bind Stateful.within_get
    intro s
    apply Stateful.within_bind (popupKept_check _)
    intro engine
    cases engine with
    | live => exact popupKept_liveClick o
    | fetch => exact popupKept_onTab _
  | navigate url o => exact popupKept_onTab (navigate urls p url o)
  | reload o => exact popupKept_onTab (reload urls p o)
  | snapshot o => exact popupKept_onTab (snapshot urls p o)
  | login o => exact popupKept_onTab (loginSubmit urls p o)
  | submit o => exact popupKept_onTab (submitForm urls p o)
  | back o => exact popupKept_onTab (turn urls p true o)
  | forward o => exact popupKept_onTab (turn urls p false o)

theorem Tab.Turns.wellFormed {turn : Cursor String → Cursor String} (h : t.Turns t' turn)
    (ht : t.WellFormed) : t'.WellFormed := by
  obtain ⟨c, hc⟩ := wellFormed_iff.mp ht
  rcases h c hc with hkept | hturned
  · exact hkept.wellFormed
  · exact hturned.wellFormed

/-- An action that does what it has to leaves a tab that shows a cursor. -/
theorem wellFormed_of_meets {a : Action} (ht : t.WellFormed) (h : a.Meets urls p popupId t) :
    (a.finished urls p popupId t).WellFormed := by
  cases a with
  | navigate url o => exact Tab.Goes.wellFormed h ht
  | reload o => exact Tab.Revises.wellFormed h ht
  | snapshot o => exact Tab.Revises.wellFormed h ht
  | login o => exact h.2.1
  | submit o => exact h.2.1
  | click o => exact h.2.1
  | back o => exact Tab.Turns.wellFormed h ht
  | forward o => exact Tab.Turns.wellFormed h ht

/-- Every tab shows a cursor. -/
def BrowserState.WellFormed (b : BrowserState) : Prop := ∀ tab ∈ b.tabs, tab.WellFormed

variable (urls) in
def Event.Meets (b : BrowserState) : Event → Prop
  | .acts tabId p a => ∀ i tab, b.find? tabId = some (i, tab) → a.Meets urls p b.nextTabId tab
  | _ => True

variable (urls) in
def Event.Sound (b : BrowserState) : Event → Prop
  | .acts tabId p a => ∀ i tab, b.find? tabId = some (i, tab) → a.Sound urls p b.nextTabId tab
  | _ => True

theorem mem_of_find? {tabId : String} {i : Nat} (h : b.find? tabId = some (i, t)) : t ∈ b.tabs := by
  unfold BrowserState.find? at h
  obtain ⟨j, -, h⟩ := Option.bind_eq_some_iff.mp h
  obtain ⟨tab, htab, h⟩ := Option.bind_eq_some_iff.mp h
  obtain ⟨-, rfl⟩ := Prod.mk.inj (Option.some.inj h)
  exact List.mem_of_getElem? htab

theorem wellFormed_put {i : Nat} {s : Scene} (hb : b.WellFormed) (htab : s.tab.WellFormed)
    (hpopup : ∀ tab, s.popup = some tab → tab.WellFormed) : (b.put i s).WellFormed := by
  intro tab hmem
  rcases List.mem_append.mp hmem with hset | hnew
  · rcases List.mem_or_eq_of_mem_set hset with hold | rfl
    · exact hb tab hold
    · exact htab
  · exact hpopup tab (Option.mem_toList.mp hnew)

theorem wellFormed_create {url : String} {m : String → TabM Unit} (hb : b.WellFormed)
    (hm : ∀ url, Within Tab.Revises (m url)) : (b.create urls url m).WellFormed := by
  unfold BrowserState.create
  cases normalizeHttpUrl urls.parse url with
  | error e => exact hb
  | ok url =>
    intro tab hmem
    rcases List.mem_append.mp hmem with hold | hnew
    · exact hb tab hold
    · obtain rfl := List.mem_singleton.mp hnew
      exact ((hm url).moves _).wellFormed (shows_start _ _).wellFormed

theorem wellFormed_step_acts {tabId : String} {p : Params} {a : Action} (hb : b.WellFormed)
    (h : Event.Meets urls b (.acts tabId p a)) : (step urls b (.acts tabId p a)).WellFormed := by
  simp only [step]
  cases hfind : b.find? tabId with
  | none => exact hb
  | some found =>
    obtain ⟨i, tab⟩ := found
    have htab := hb tab (mem_of_find? hfind)
    apply wellFormed_put hb (wellFormed_of_meets htab (h i tab hfind))
    exact (popupKept_execute a).moves ⟨tab, none⟩ nofun

/-- From a state in which every tab shows a cursor, the condition of a step is what it takes. -/
theorem step_iff (urls : UrlParser) (b : BrowserState) (e : Event) (hb : b.WellFormed) :
    e.Sound urls b ↔ (step urls b e).WellFormed ∧ e.Meets urls b := by
  cases e with
  | opens p url o =>
    refine iff_of_true trivial ⟨?_, trivial⟩
    rw [step]
    exact wellFormed_create hb fun url => revises_openTab urls p url o
  | captures p url o =>
    refine iff_of_true trivial ⟨?_, trivial⟩
    rw [step]
    exact wellFormed_create hb fun _ => revises_snapshot urls p o
  | drifts tabId url =>
    refine iff_of_true trivial ⟨?_, trivial⟩
    simp only [step]
    cases hfind : b.find? tabId with
    | none => exact hb
    | some found =>
      obtain ⟨i, tab⟩ := found
      obtain ⟨c, hc⟩ := wellFormed_iff.mp (hb tab (mem_of_find? hfind))
      exact wellFormed_put hb (hc.page _).wellFormed nofun
  | acts tabId p a =>
    have hiff : Event.Sound urls b (.acts tabId p a) ↔ Event.Meets urls b (.acts tabId p a) :=
      forall₃_congr fun i tab hfind => meets_iff a (hb tab (mem_of_find? hfind))
    rw [hiff]
    exact ⟨fun h => ⟨wellFormed_step_acts hb h, h⟩, And.right⟩

end States

section Results

/-- In every run from the first state, the actions do to the histories what they have to, and every
tab shows a cursor in every state, exactly if every action meets its condition. -/
theorem history_refines_cursor_iff (urls : UrlParser) (events : List Event) :
    Allowed (step urls) (fun b e => Event.Sound urls b e) {} events ↔
      (∀ before after, events = before ++ after → (run (step urls) {} before).WellFormed) ∧
      ∀ before e after, events = before ++ e :: after → Event.Meets urls (run (step urls) {} before) e :=
  EventRun.allowed_iff_of_step (step_iff urls) (fun _ h => absurd h List.not_mem_nil) events

/-- A parser of canonical `http` URLs. -/
def httpParser : UrlParser where
  parse raw :=
    if raw.toList.take 7 = "http://".toList ∧ Js.trim raw = raw then some ⟨"http:", raw⟩ else none
  parse_href := by
    intro raw l h
    split_ifs at h with hraw
    obtain rfl := Option.some.inj h
    rw [if_pos hraw]
  trim_href := by
    intro raw l h
    split_ifs at h with hraw
    obtain rfl := Option.some.inj h
    exact hraw.2
  href_ne := by
    intro raw l h
    split_ifs at h with hraw
    obtain rfl := Option.some.inj h
    rintro rfl
    exact absurd hraw.1 (by decide)

/-- A page is opened in the live engine, and a link on it is clicked. -/
def openAndClick : List Event :=
  [.opens { liveAvailable := true } "http://a.test/"
      { load := ⟨"http://a.test/", none⟩, capture := ⟨"http://a.test/", none⟩, attempts := [] },
    .acts "tab-1" { liveAvailable := true }
      (.click
        { seed := ⟨⟨"http://a.test/", none⟩, .ok "http://a.test/"⟩, live := .ok .selector,
          fetch := .error "selector-based click requires engine=live.", load := ⟨"http://b.test/", none⟩,
          capture := ⟨"http://b.test/", none⟩, fetched := .ok "http://b.test/" })]

/-- The snapshot behind the click puts the new page in the place of the one that it has left. -/
theorem click_forgets_page :
    (run (step httpParser) {} openAndClick).tabs.map (fun t => (t.history, t.historyIndex)) =
      [(["http://b.test/"], 0)] ∧
    ¬ ((∀ before after, openAndClick = before ++ after →
        (run (step httpParser) {} before).WellFormed) ∧
      ∀ before e after, openAndClick = before ++ e :: after →
        Event.Meets httpParser (run (step httpParser) {} before) e) := by
  refine ⟨by decide +kernel, ?_⟩
  rw [← EventRun.allowed_iff_of_step (step_iff httpParser) (fun _ h => absurd h List.not_mem_nil)]
  rintro ⟨-, hclick, -⟩
  have htab : (run (step httpParser) {} (openAndClick.take 1)).find? "tab-1" =
      some (0, { buildTabRecord "tab-1" "http://a.test/" with
        lastSnapshot := some ⟨"http://a.test/"⟩, page := some "http://a.test/" }) := by
    decide +kernel
  obtain ⟨-, henters⟩ := hclick 0 _ htab (by decide) "http://a.test/" "http://b.test/"
    ⟨by decide +kernel, by decide +kernel, by decide⟩
  exact absurd henters.2.2 (by decide)

end Results

end T560.Browser.History
