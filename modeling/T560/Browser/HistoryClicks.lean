import T560.Browser.HistoryActions

/-!
# Clicks and the history of a tab

A click of the live engine keeps the URL that it leaves only without a snapshot and without a popup,
from a tab that knows where its page is.
-/

namespace T560.Browser.History

open Stateful (Act exec failing Within ensure onlyIf)
open Visit (Cursor)

section Clicks
variable {urls : UrlParser} {p : Params} {popupId : String} {t t' : Tab} {c : Cursor String}

/-- The tab of a scene moves along the relation. -/
def Scene.On (R : Tab → Tab → Prop) (s s' : Scene) : Prop := R s.tab s'.tab

instance {R : Tab → Tab → Prop} [Std.Refl R] : Std.Refl (Scene.On R) := ⟨fun s => refl_of R s.tab⟩

instance {R : Tab → Tab → Prop} [IsTrans Tab R] : IsTrans Scene (Scene.On R) :=
  ⟨fun _ _ _ h1 h2 => trans_of R h1 h2⟩

theorem on_onTab {R : Tab → Tab → Prop} {α : Type} {m : TabM α} (h : Within R m) :
    Within (Scene.On R) (onTab m) := ⟨fun s => h.moves s.tab⟩

/-- What is done to the popup leaves the tab alone. -/
theorem on_onPopup {R : Tab → Tab → Prop} [Std.Refl R] {α : Type} (m : TabM α) :
    Within (Scene.On R) (onPopup m) := by
  constructor
  intro s
  unfold Stateful.exec onPopup
  obtain ⟨tab, popup⟩ := s
  cases popup with
  | none => exact refl_of R tab
  | some popup => exact refl_of R tab

theorem on_modify_popup {R : Tab → Tab → Prop} [Std.Refl R] (f : Scene → Option Tab) :
    Within (Scene.On R) (modify fun s : Scene => { s with popup := f s } : SceneM PUnit) :=
  Stateful.within_modify fun s => refl_of R s.tab

theorem revises_finishPopup (urls : UrlParser) (p : Params) (snapshotAfter : Bool) (o : Click) (popup : Popup) (id beforeUrl : String) :
    Within (Scene.On Tab.Revises) (finishPopup urls p snapshotAfter o popup id beforeUrl) := by
  unfold finishPopup
  apply Stateful.within_bind (on_modify_popup _)
  intro _
  apply Stateful.within_bind (on_onPopup _)
  intro captured
  split_ifs
  · apply Stateful.within_bind (on_onPopup _)
    exact fun _ => Stateful.within_pure _
  · exact Stateful.within_pure _
  · exact on_onTab (revises_captureEntry urls _ _)
  · exact Stateful.within_pure _

theorem exec_await (a : Awaited) (t : Tab) :
    exec (await a) t =
      (match a.error with | none => .ok () | some e => .error e, { t with page := some a.url }) := by
  unfold await failing
  cases a.error <;> rfl

theorem Tab.Shows.page (h : t.Shows c) (page : Option String) : ({ t with page := page } : Tab).Shows c :=
  ⟨h.places, h.index, h.here⟩

/-- The end of a click without a snapshot: the URL, and the title. -/
theorem exec_overwrite_title (url : String) (title : Option String) (t : Tab) :
    (exec (do modify fun t => t.overwrite url; failing title : TabM Unit) t).2 = t.overwrite url := by
  rw [Stateful.exec_bind_ok (Stateful.exec_modify _ t)]
  cases title <;> rfl

theorem wellFormed_overwrite (h : t.historyIndex < t.history.length) (url : String) :
    (t.overwrite url).WellFormed := by
  have hlength : t.historyIndex < (t.history.set t.historyIndex url).length := by
    rwa [List.length_set]
  exact ⟨List.ne_nil_of_length_pos (Nat.zero_lt_of_lt hlength), hlength, List.getElem?_set_self h⟩

theorem wellFormed_finishClick (o : Click) (beforeUrl : String) (ht : t.WellFormed) :
    (exec (finishClick urls false o beforeUrl) t).2.WellFormed := by
  have hkept (url : String) := wellFormed_overwrite ht.2.1 url
  unfold finishClick
  rw [if_neg (by decide), Stateful.exec_bind_ok (Stateful.exec_get t)]
  generalize normalizeHttpUrlOrFallback urls (t.page.getD "") t.url = currentUrl
  dsimp only
  by_cases hbefore : currentUrl ≠ beforeUrl
  · rw [Stateful.onlyIf_pos hbefore]
    cases hnormal : normalizeHttpUrl urls.parse currentUrl with
    | error e =>
      have herror : exec (appendHistoryEntry urls currentUrl) t = (.error e, t) := by
        unfold appendHistoryEntry
        rw [hnormal]
        rfl
      rw [Stateful.exec_bind_error herror]
      exact ht
    | ok url =>
      have hpushed : (t.push url).historyIndex < (t.push url).history.length := by
        rw [historyIndex_push ht.2.1, history_push ht.2.1, List.length_append, List.length_take,
          List.length_singleton]
        have hlt := ht.2.1
        omega
      rw [Stateful.exec_bind_ok (exec_appendHistoryEntry urls hnormal), exec_overwrite_title]
      split_ifs
      · exact hkept currentUrl
      · exact wellFormed_overwrite hpushed currentUrl
  · rw [Stateful.onlyIf_neg hbefore, Stateful.exec_bind_ok (Stateful.exec_pure _ t),
      exec_overwrite_title]
    exact hkept currentUrl

/-- Another URL than the one before the click gets an entry. -/
theorem exec_finishClick (o : Click) (beforeUrl : String) {currentUrl : String} (hc : t.Shows c)
    (hcurrent : normalizeHttpUrlOrFallback urls (t.page.getD "") t.url = currentUrl)
    (hnormal : normalizeHttpUrl urls.parse currentUrl = .ok currentUrl) :
    (exec (finishClick urls false o beforeUrl) t).2.page = t.page ∧
      (exec (finishClick urls false o beforeUrl) t).2.Shows
        (if currentUrl = beforeUrl ∨ currentUrl = t.url then c.revise currentUrl
        else c.visit currentUrl) := by
  subst hcurrent
  unfold finishClick
  rw [if_neg (by decide), Stateful.exec_bind_ok (Stateful.exec_get t)]
  generalize normalizeHttpUrlOrFallback urls (t.page.getD "") t.url = currentUrl at hnormal ⊢
  dsimp only
  by_cases hbefore : currentUrl = beforeUrl
  · rw [Stateful.onlyIf_neg (not_not_intro hbefore), if_pos (Or.inl hbefore),
      Stateful.exec_bind_ok (Stateful.exec_pure _ t), exec_overwrite_title]
    exact ⟨rfl, hc.overwrite currentUrl⟩
  · rw [Stateful.onlyIf_pos hbefore]
    by_cases hsame : currentUrl = t.url
    · have hentry : t.history[t.historyIndex]? = some currentUrl := by
        rw [hsame]
        exact hc.current
      rw [Stateful.exec_bind_ok (exec_appendHistoryEntry_current urls hnormal hentry),
        if_pos (Or.inr hsame), exec_overwrite_title]
      exact ⟨rfl, hc.overwrite currentUrl⟩
    · have hentry : t.history[t.historyIndex]? ≠ some currentUrl := by
        rw [hc.current]
        exact fun h => hsame (Option.some.inj h).symm
      rw [Stateful.exec_bind_ok (exec_appendHistoryEntry_new hnormal hentry),
        if_neg (not_or.mpr ⟨hbefore, hsame⟩), exec_overwrite_title]
      have hpushed : ({ t.push currentUrl with url := currentUrl } : Tab).Shows (c.visit currentUrl) :=
        hc.push rfl rfl rfl
      exact ⟨rfl, hpushed.overwrite currentUrl⟩

theorem normalizeHttpUrl_empty : normalizeHttpUrl urls.parse "" = .error "url is required." := by
  have htrim : Js.trim "" = "" := by decide
  simp only [normalizeHttpUrl, htrim, if_true]

theorem orUrl_of_normal {url v : String} (h : normalizeHttpUrl urls.parse url = .ok v) (fallback : String) :
    orUrl url fallback = url := by
  apply if_neg
  rintro rfl
  rw [normalizeHttpUrl_empty] at h
  cases h

theorem normalize_of_pageUrl {url v : String} (hpage : t.page = some url)
    (h : t.pageUrl urls = some v) : normalizeHttpUrl urls.parse url = .ok v := by
  rw [Tab.pageUrl, hpage] at h
  dsimp only at h
  cases hnormal : normalizeHttpUrl urls.parse url with
  | error e =>
    rw [hnormal] at h
    cases h
  | ok w =>
    rw [hnormal] at h
    obtain rfl := Option.some.inj h
    rfl

/-- Where the page is after a live snapshot is what the tab says, if the snapshot could be read. -/
theorem url_captureLiveTabSnapshot {capture : LiveCapture} (hpage : t.page ≠ none) {v : String}
    (hv : (exec (captureLiveTabSnapshot urls capture) t).2.pageUrl urls = some v) :
    (exec (captureLiveTabSnapshot urls capture) t).2.url =
      if capture.content = none then v else t.url := by
  unfold captureLiveTabSnapshot at hv ⊢
  rw [Stateful.exec_bind_ok (Stateful.exec_get t), ensure, if_pos hpage,
    Stateful.exec_bind_ok (Stateful.exec_pure _ t), Stateful.exec_bind_ok (exec_await _ t)] at hv ⊢
  cases hfinal : normalizeHttpUrl urls.parse (orUrl capture.settled t.url) with
  | error e =>
    rw [hfinal] at hv
    have hnormal := normalize_of_pageUrl rfl hv
    rw [orUrl_of_normal hnormal] at hfinal
    cases hnormal.symm.trans hfinal
  | ok final =>
    rw [hfinal, check, Stateful.exec_bind_ok (Stateful.exec_pure _ _)] at hv
    rw [check, Stateful.exec_bind_ok (Stateful.exec_pure _ _)]
    cases hcontent : capture.content with
    | some e => rfl
    | none =>
      rw [hcontent] at hv
      have hnormal := normalize_of_pageUrl rfl hv
      rw [orUrl_of_normal hnormal] at hfinal
      exact Except.ok.inj (hfinal.symm.trans hnormal)

theorem samePage_overwrite (url : String) :
    Within Tab.SamePage (modify fun t => t.overwrite url : TabM PUnit) :=
  Stateful.within_modify fun _ => rfl

theorem samePage_finishClick (urls : UrlParser) (o : Click) (beforeUrl : String) :
    Within Tab.SamePage (finishClick urls false o beforeUrl) := by
  unfold finishClick
  rw [if_neg (by decide)]
  apply Stateful.within_bind Stateful.within_get
  intro t
  apply Stateful.within_bind
  · apply Stateful.within_onlyIf
    apply Stateful.within_bind (within_check _)
    intro normalized
    apply Stateful.within_modify
    intro s
    split_ifs <;> rfl
  · intro _
    apply Stateful.within_bind (samePage_overwrite _)
    exact fun _ => Stateful.within_failing _

theorem orFallback_of_normal {url v : String} (h : normalizeHttpUrl urls.parse url = .ok v)
    (fallback : String) : normalizeHttpUrlOrFallback urls url fallback = v := by
  rw [normalizeHttpUrlOrFallback, h]

/-- Where the page was and is when a click without a snapshot has moved it. -/
theorem moved_finishClick {o : Click} {s : Tab} {beforeUrl url w u v : String}
    (hpage : t.page = some url) (hw : s.page = some w)
    (h : Moved urls t (exec (finishClick urls false o beforeUrl) s).2 u v) :
    normalizeHttpUrl urls.parse url = .ok u ∧ normalizeHttpUrl urls.parse w = .ok v ∧ u ≠ v := by
  obtain ⟨hu, hv, hne⟩ := h
  have hend := ((samePage_finishClick urls o beforeUrl).moves s).trans hw
  exact ⟨normalize_of_pageUrl hpage hu, normalize_of_pageUrl hend hv, hne⟩

/-- A click without a snapshot and without a popup keeps the URL that the tab is on. -/
theorem follows_finishClick_iff (o : Click) {s : Tab} {url w : String} (ht : t.WellFormed)
    (hpage : t.page = some url) (hs : t.Keeps s) (hw : s.page = some w) :
    Follows urls t (exec (finishClick urls false o (normalizeHttpUrlOrFallback urls url t.url)) s).2 ↔
      ∀ u v, Moved urls t
        (exec (finishClick urls false o (normalizeHttpUrlOrFallback urls url t.url)) s).2 u v →
          t.url = u := by
  obtain ⟨c, hc⟩ := wellFormed_iff.mp ht
  have hsc := hs c hc
  have hurl : s.url = t.url := hsc.here.trans hc.here.symm
  cases hnormal : normalizeHttpUrl urls.parse w with
  | error e =>
    have hnot : ∀ u v, ¬ Moved urls t
        (exec (finishClick urls false o (normalizeHttpUrlOrFallback urls url t.url)) s).2 u v := by
      intro u v hm
      cases hnormal.symm.trans (moved_finishClick hpage hw hm).2.1
    refine iff_of_true ⟨wellFormed_finishClick o _ hsc.wellFormed, ?_⟩ ?_
    · exact fun u v hmoved => absurd hmoved (hnot u v)
    · exact fun u v hmoved => absurd hmoved (hnot u v)
  | ok v =>
    have hcurrent : normalizeHttpUrlOrFallback urls (s.page.getD "") s.url = v := by
      rw [hw]
      exact orFallback_of_normal hnormal _
    obtain ⟨-, hshows⟩ := exec_finishClick o (normalizeHttpUrlOrFallback urls url t.url) hsc hcurrent
      (normalizeHttpUrl_idem hnormal)
    by_cases hsame : v = normalizeHttpUrlOrFallback urls url t.url ∨ v = s.url
    · rw [if_pos hsame] at hshows
      rw [follows_iff_of_index hc hshows (by rw [Cursor.index_revise]; omega)]
      constructor
      · exact fun h u v' hm => absurd hm (h u v')
      · intro h u v' hm
        obtain ⟨hu, hv, hne⟩ := moved_finishClick hpage hw hm
        obtain rfl := Except.ok.inj (hnormal.symm.trans hv)
        rcases hsame with hbefore | hstays
        · exact hne ((orFallback_of_normal hu _).symm.trans hbefore.symm)
        · exact hne ((h u v hm).symm.trans (hurl.symm.trans hstays.symm))
    · rw [if_neg hsame] at hshows
      rw [follows_iff_of_visit hc hshows]
      constructor
      · exact fun h u v' hm => (h u v' hm).1
      · intro h u v' hm
        exact ⟨h u v' hm, Except.ok.inj (hnormal.symm.trans (moved_finishClick hpage hw hm).2.1)⟩

/-- A link without an element has its entry before the page is there: a page that ends elsewhere
gets one of its own, unless a snapshot overwrites it. -/
theorem follows_finishLink_iff (o : Click) {s : Tab} {url w n : String} (hc : t.Shows c)
    (hpage : t.page = some url) (hs : s.Shows (c.visit n)) (hw : s.page = some w) :
    Follows urls t (exec (finishClick urls false o (normalizeHttpUrlOrFallback urls url t.url)) s).2 ↔
      ∀ u v, Moved urls t
        (exec (finishClick urls false o (normalizeHttpUrlOrFallback urls url t.url)) s).2 u v →
          t.url = u ∧ n = v := by
  cases hnormal : normalizeHttpUrl urls.parse w with
  | error e =>
    have hnot : ∀ u v, ¬ Moved urls t
        (exec (finishClick urls false o (normalizeHttpUrlOrFallback urls url t.url)) s).2 u v := by
      intro u v hm
      cases hnormal.symm.trans (moved_finishClick hpage hw hm).2.1
    refine iff_of_true ⟨wellFormed_finishClick o _ hs.wellFormed, ?_⟩ ?_
    · exact fun u v hmoved => absurd hmoved (hnot u v)
    · exact fun u v hmoved => absurd hmoved (hnot u v)
  | ok v =>
    have hcurrent : normalizeHttpUrlOrFallback urls (s.page.getD "") s.url = v := by
      rw [hw]
      exact orFallback_of_normal hnormal _
    obtain ⟨-, hshows⟩ := exec_finishClick o (normalizeHttpUrlOrFallback urls url t.url) hs hcurrent
      (normalizeHttpUrl_idem hnormal)
    have hn : s.url = n := hs.here
    by_cases hsame : v = normalizeHttpUrlOrFallback urls url t.url ∨ v = s.url
    · rw [if_pos hsame, Cursor.revise_visit] at hshows
      rw [follows_iff_of_visit hc hshows]
      refine forall₂_congr fun u v' => imp_congr_right fun hm => and_congr_right fun _ => ?_
      obtain ⟨hu, hv, hne⟩ := moved_finishClick hpage hw hm
      obtain rfl := Except.ok.inj (hnormal.symm.trans hv)
      refine iff_of_true rfl ?_
      rcases hsame with hbefore | hstays
      · exact absurd ((orFallback_of_normal hu _).symm.trans hbefore.symm) hne
      · exact hn.symm.trans hstays.symm
    · rw [if_neg hsame] at hshows
      rw [follows_iff_of_index hc hshows (by rw [Cursor.index_visit, Cursor.index_visit]; omega)]
      refine forall₂_congr fun u v' => imp_congr_right fun hm => iff_of_false id ?_
      rintro ⟨-, rfl⟩
      have hv := Except.ok.inj (hnormal.symm.trans (moved_finishClick hpage hw hm).2.1)
      exact hsame (Or.inr (hv.trans hn.symm))

theorem follows_clickLink_iff (o : Click) (snapshotAfter : Bool) (target : String) {url : String}
    (ht : t.WellFormed) (hpage : t.page = some url)
    (ht' : t' = (exec (clickLink urls o snapshotAfter target
      (normalizeHttpUrlOrFallback urls url t.url)) t).2) :
    Follows urls t t' ↔ ∀ u v, Moved urls t t' u v → t.url = u ∧
      (normalizeHttpUrl urls.parse target = .ok v ∨
        o.load.error = none ∧ snapshotAfter = true ∧ o.capture.content = none) := by
  obtain ⟨c, hc⟩ := wellFormed_iff.mp ht
  cases hn : normalizeHttpUrl urls.parse target with
  | error e =>
    have hend : t' = t := by
      simp only [ht', clickLink, Stateful.exec_bind_error (exec_navigateTab_error hn t)]
    rw [hend]
    exact iff_of_true (follows_refl ht) fun u v hm => absurd hm (not_moved_self u v)
  | ok n =>
    have hs : ({ t.push n with url := n, lastSnapshot := none, page := some o.load.url } : Tab).Shows
        (c.visit n) := hc.push rfl rfl rfl
    cases herror : o.load.error with
    | some e =>
      have hend : t' =
          { t.push n with url := n, lastSnapshot := none, page := some o.load.url } := by
        have hawait := exec_await o.load
          { t.push n with url := n, lastSnapshot := none }
        rw [herror] at hawait
        simp only [ht', clickLink, Stateful.exec_bind_ok (exec_navigateTab hn t),
          Stateful.exec_bind_error hawait]
      rw [hend, follows_iff_of_visit hc hs]
      simp only [Except.ok.injEq, reduceCtorEq, false_and, or_false]
    | none =>
      have hend : t' = (exec (finishClick urls snapshotAfter o (normalizeHttpUrlOrFallback urls url t.url))
          { t.push n with url := n, lastSnapshot := none, page := some o.load.url }).2 := by
        have hawait := exec_await o.load
          { t.push n with url := n, lastSnapshot := none }
        rw [herror] at hawait
        simp only [ht', clickLink, Stateful.exec_bind_ok (exec_navigateTab hn t),
          Stateful.exec_bind_ok hawait]
      rw [hend]
      cases snapshotAfter with
      | false =>
        rw [follows_finishLink_iff o hc hpage hs rfl]
        simp only [Except.ok.injEq, Bool.false_eq_true, false_and, and_false, or_false]
      | true =>
        have hfinish : finishClick urls true o (normalizeHttpUrlOrFallback urls url t.url) =
            captureEntry urls o.capture (normalizeHttpUrlOrFallback urls url t.url) := if_pos rfl
        rw [hfinish, exec_captureEntry urls hs]
        have hvisit := ((revises_captureLiveTabSnapshot urls o.capture).moves _).visit hs
        rw [follows_iff_of_visit hc hvisit]
        refine forall₂_congr fun u v => imp_congr_right fun hm => and_congr_right fun _ => ?_
        rw [url_captureLiveTabSnapshot (by exact Option.some_ne_none _) hm.2.1]
        by_cases hcontent : o.capture.content = none
        · rw [if_pos hcontent]
          exact iff_of_true rfl (Or.inr ⟨rfl, rfl, hcontent⟩)
        · rw [if_neg hcontent]
          simp only [Except.ok.injEq, hcontent, and_false, or_false]

theorem revises_finishClick_snapshot (urls : UrlParser) (o : Click) (beforeUrl : String) :
    Within Tab.Revises (finishClick urls true o beforeUrl) :=
  revises_captureEntry urls o.capture beforeUrl

/-- A click that fails, opens a popup or ends with a snapshot puts no entry behind the current one. -/
theorem revises_clickSelector (o : Click) (snapshotAfter : Bool) (beforeUrl : String)
    (hnot : ¬ (o.load.error = none ∧ o.popup = none ∧ snapshotAfter = false)) :
    Within (Scene.On Tab.Revises) (clickSelector urls p o snapshotAfter popupId beforeUrl) := by
  constructor
  intro s
  have hawait := ((keeps_await o.load).moves s.tab).revises
  unfold clickSelector
  cases herror : o.load.error with
  | some e =>
    have hexec := exec_await o.load s.tab
    rw [herror] at hexec
    rw [Stateful.exec_bind_error (exec_onTab_error hexec)]
    rw [hexec] at hawait
    exact hawait
  | none =>
    have hexec := exec_await o.load s.tab
    rw [herror] at hexec
    rw [Stateful.exec_bind_ok (exec_onTab_ok hexec)]
    rw [hexec] at hawait
    cases hpopup : o.popup with
    | some popup =>
      have hrest := revises_finishPopup urls p snapshotAfter o popup popupId beforeUrl
      exact trans_of Tab.Revises hawait (hrest.moves ⟨{ s.tab with page := some o.load.url }, s.popup⟩)
    | none =>
      obtain rfl : snapshotAfter = true := by
        rw [← Bool.not_eq_false]
        exact fun hafter => hnot ⟨herror, hpopup, hafter⟩
      have hrest : Within (Scene.On Tab.Revises) (onTab (finishClick urls true o beforeUrl)) :=
        on_onTab (revises_finishClick_snapshot urls o beforeUrl)
      refine trans_of Tab.Revises hawait ?_
      have hmoves := hrest.moves ⟨{ s.tab with page := some o.load.url }, s.popup⟩
      unfold Scene.On at hmoves
      dsimp only at hmoves ⊢
      exact hmoves

theorem follows_clickSelector_iff (o : Click) (snapshotAfter : Bool) {url : String}
    (ht : t.WellFormed) (hpage : t.page = some url)
    (ht' : t' = (exec (clickSelector urls p o snapshotAfter popupId
      (normalizeHttpUrlOrFallback urls url t.url)) ⟨t, none⟩).2.tab) :
    Follows urls t t' ↔ ∀ u v, Moved urls t t' u v → t.url = u ∧
      (o.load.error = none ∧ o.popup = none ∧ snapshotAfter = false) := by
  by_cases hplain : o.load.error = none ∧ o.popup = none ∧ snapshotAfter = false
  · obtain ⟨herror, hpopup, rfl⟩ := hplain
    have hend : t' = (exec (finishClick urls false o (normalizeHttpUrlOrFallback urls url t.url))
        { t with page := some o.load.url }).2 := by
      have hexec := exec_await o.load t
      rw [herror] at hexec
      have honTab := exec_onTab_ok (s := ⟨t, none⟩) hexec
      simp only [ht', clickSelector, Stateful.exec_bind_ok honTab, hpopup, exec_onTab]
    have hkeeps : t.Keeps { t with page := some o.load.url } := fun c hc => hc.page _
    rw [hend, follows_finishClick_iff o ht hpage hkeeps rfl]
    exact forall₂_congr fun u v => imp_congr_right fun _ => (and_iff_left ⟨herror, hpopup, rfl⟩).symm
  · have hrevises : t.Revises t' := by
      rw [ht']
      exact (revises_clickSelector o snapshotAfter _ hplain).moves ⟨t, none⟩
    rw [follows_iff_of_revises urls ht hrevises]
    refine forall₂_congr fun u v => ?_
    rw [iff_false_intro hplain, and_false]

/-- A click of the live engine follows the page just when it enters. -/
theorem follows_liveClick_iff (o : Click) (ht : t.WellFormed) (hpage : t.page.isSome)
    (ht' : t' = (exec (History.click urls p o popupId) ⟨t, none⟩).2.tab) :
    Follows urls t t' ↔ ∀ u v, Moved urls t t' u v → t.url = u ∧ o.Enters urls p v := by
  obtain ⟨url, hurl⟩ := Option.isSome_iff_exists.mp hpage
  have hclick : exec (History.click urls p o popupId) ⟨t, none⟩ =
      exec (liveClick urls p o popupId) ⟨t, none⟩ := by
    unfold History.click
    rw [Stateful.exec_bind_ok (Stateful.exec_get (⟨t, none⟩ : Scene)), resolveEngine_of_page hpage, check,
      Stateful.exec_bind_ok (Stateful.exec_pure _ _)]
  cases hlive : o.live with
  | error e =>
    have hend : t' = t := by
      simp only [ht', hclick, liveClick, Stateful.exec_bind_ok (Stateful.exec_get (⟨t, none⟩ : Scene)),
        hurl, hlive, check]
      rfl
    rw [hend]
    exact iff_of_true (follows_refl ht) fun u v hm => absurd hm (not_moved_self u v)
  | ok target =>
    cases target with
    | selector =>
      have hend : t' = (exec (clickSelector urls p o (p.snapshotAfter || o.right) popupId
          (normalizeHttpUrlOrFallback urls url t.url)) ⟨t, none⟩).2.tab := by
        simp only [ht', hclick, liveClick, Stateful.exec_bind_ok (Stateful.exec_get (⟨t, none⟩ : Scene)),
          hurl, hlive, check, Stateful.exec_bind_ok (Stateful.exec_pure _ _)]
      rw [follows_clickSelector_iff o _ ht hurl hend]
      simp only [Click.Enters, hlive]
    | link target =>
      have hend : t' = (exec (clickLink urls o (p.snapshotAfter || o.right) target
          (normalizeHttpUrlOrFallback urls url t.url)) t).2 := by
        simp only [ht', hclick, liveClick, Stateful.exec_bind_ok (Stateful.exec_get (⟨t, none⟩ : Scene)),
          hurl, hlive, check, Stateful.exec_bind_ok (Stateful.exec_pure _ _), exec_onTab]
      rw [follows_clickLink_iff o _ target ht hurl hend]
      simp only [Click.Enters, hlive]

theorem follows_click_none (urls : UrlParser) (p : Params) (popupId : String) (o : Click)
    (ht : t.WellFormed) (hpage : t.page = none) :
    Follows urls t (exec (History.click urls p o popupId) ⟨t, none⟩).2.tab := by
  unfold History.click
  rw [Stateful.exec_bind_ok (Stateful.exec_get (⟨t, none⟩ : Scene))]
  cases hengine : resolveEngine p t with
  | error e => exact follows_refl ht
  | ok engine =>
    rw [check, Stateful.exec_bind_ok (Stateful.exec_pure _ _)]
    cases engine with
    | live =>
      have hend : (exec (liveClick urls p o popupId) ⟨t, none⟩).2.tab = t := by
        simp only [liveClick, Stateful.exec_bind_ok (Stateful.exec_get (⟨t, none⟩ : Scene)), hpage,
          Stateful.exec_throw]
      dsimp only
      rw [hend]
      exact follows_refl ht
    | fetch =>
      have hgoes := (goes_fetchClick urls p o).moves t
      have hsame := (samePage_fetchClick urls p o).moves t
      exact hgoes.follows ht hpage (hsame.trans hpage)

theorem meets_click_iff (o : Click) (ht : t.WellFormed) :
    (Action.click o).Sound urls p popupId t ↔ (Action.click o).Meets urls p popupId t := by
  have hseed := prepared_click urls p t o
  have hwf := hseed.wellFormed ht
  simp only [Action.Sound, Action.Meets]
  rw [and_iff_right hseed]
  rcases finished_cases urls p popupId (.click o) t with h | h
  · rw [h]
    exact iff_of_true (fun _ u v hm => absurd hm (not_moved_self u v)) (follows_refl hwf)
  · rw [h]
    cases hpage : ((Action.click o).prepared urls p t).page with
    | none =>
      have hfollows := follows_click_none urls p popupId o hwf hpage
      exact iff_of_true (fun hsome => by cases hsome) hfollows
    | some url =>
      have hproceed : (Action.click o).proceed urls p popupId = History.click urls p o popupId := rfl
      rw [hproceed, follows_liveClick_iff o hwf (by rw [hpage]; rfl) rfl]
      exact ⟨fun hs => hs rfl, fun hf _ => hf⟩

end Clicks

end T560.Browser.History
