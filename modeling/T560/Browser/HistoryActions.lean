import T560.Browser.HistoryCursor

/-!
# What an action does to the cursor of its tab

What an action has to do to the cursor of its tab: navigation, links and forms go on to a new URL,
snapshots and reloads replace the current one, `back` and `forward` move. A live snapshot behind a
click or a submission replaces the URL that was to be kept; a live move without a snapshot leaves
the entry as it was.
-/

namespace T560.Browser.History

open Stateful (Act exec failing Within ensure onlyIf)
open Visit (Cursor)

section Spec
variable (urls : UrlParser)

/-- The URL that the tab's page is on: what the page engine reports, if that is an http(s) URL. -/
def Tab.pageUrl (t : Tab) : Option String :=
  match t.page with
  | none => some t.url
  | some url => (normalizeHttpUrl urls.parse url).toOption

/-- The page went from one URL to another. -/
def Moved (t t' : Tab) (u v : String) : Prop :=
  t.pageUrl urls = some u ∧ t'.pageUrl urls = some v ∧ u ≠ v

/-- A move from `u` to `v` keeps `u`, and the cursor goes on to `v`. -/
def Follows (t t' : Tab) : Prop :=
  t'.WellFormed ∧ ∀ u v, Moved urls t t' u v → ∀ c, t.Shows c → c.here = u ∧ t'.Shows (c.visit v)

/-- Where the cursor stays or goes on to a new URL. -/
def Tab.Goes (t t' : Tab) : Prop := ∀ c, t.Shows c → t'.Shows c ∨ t'.Shows (c.visit t'.url)

/-- Where the cursor stays or moves, to an entry that the page may replace. -/
def Tab.Turns (t t' : Tab) (turn : Cursor String → Cursor String) : Prop :=
  ∀ c, t.Shows c → t'.Shows c ∨ t'.Shows ((turn c).revise t'.url)

/-- The tab when the action is about to follow a link or to submit a form. -/
def Action.prepared (p : Params) (a : Action) (t : Tab) : Tab := (exec (a.prepare urls p) t).2

/-- The tab behind the action. -/
def Action.finished (p : Params) (popupId : String) (a : Action) (t : Tab) : Tab :=
  (exec (a.execute urls p popupId) ⟨t, none⟩).2.tab

/-- What the action does to the cursor of its tab. -/
def Action.Meets (p : Params) (popupId : String) (a : Action) (t : Tab) : Prop :=
  let t' := a.finished urls p popupId t
  match a with
  | .navigate _ _ => t.Goes t'
  | .reload _ | .snapshot _ => t.Revises t'
  | .login _ => t.Goes (a.prepared urls p t) ∧ Follows urls (a.prepared urls p t) t'
  | .submit _ | .click _ => t.Revises (a.prepared urls p t) ∧ Follows urls (a.prepared urls p t) t'
  | .back _ => t.Turns t' Cursor.back
  | .forward _ => t.Turns t' Cursor.forward

/-- The click ends with the page on an entry of its own: no live snapshot and no popup keeps it
from that, and the page of a link is where the link goes. -/
def Click.Enters (p : Params) (o : Click) (v : String) : Prop :=
  match o.live with
  | .error _ => False
  | .ok .selector => o.load.error = none ∧ o.popup = none ∧ (p.snapshotAfter || o.right) = false
  | .ok (.link target) =>
    normalizeHttpUrl urls.parse target = .ok v ∨
      o.load.error = none ∧ (p.snapshotAfter || o.right) = true ∧ o.capture.content = none

/-- A live move that the page answers: a snapshot is taken, or the entry has the URL of the page. -/
def Turn.Lands (p : Params) (back : Bool) (o : Turn) (t : Tab) : Prop :=
  t.page.isSome → o.load.error = none → o.response →
    ∀ url, normalizeHttpUrl urls.parse (orUrl o.load.url t.url) = .ok url →
      t.history[nextHistoryIndex t back]? = some url ∨
        p.snapshotAfter ∧ o.capture.content = none ∧
          ∃ final, normalizeHttpUrl urls.parse (orUrl o.capture.settled url) = .ok final

/-- The condition under which the action does so. -/
def Action.Sound (p : Params) (popupId : String) (a : Action) (t : Tab) : Prop :=
  let t1 := a.prepared urls p t
  let t' := a.finished urls p popupId t
  match a with
  | .login _ => ∀ u v, ¬ Moved urls t1 t' u v
  | .submit _ => t1.page.isSome → ∀ u v, ¬ Moved urls t1 t' u v
  | .click o => t1.page.isSome → ∀ u v, Moved urls t1 t' u v → t1.url = u ∧ o.Enters urls p v
  | .back o => o.Lands urls p true t
  | .forward o => o.Lands urls p false t
  | .navigate _ _ | .reload _ | .snapshot _ => True

end Spec

section Follows
variable {urls : UrlParser} {t t' : Tab} {c c' : Cursor String}

theorem Tab.Shows.unique (h : t.Shows c) (h' : t.Shows c') : c = c' := by
  obtain ⟨past, here, ahead⟩ := c
  obtain ⟨past', here', ahead'⟩ := c'
  have hplaces : past.reverse ++ here :: ahead = past'.reverse ++ here' :: ahead' :=
    h.places.symm.trans h'.places
  have hindex : past.length = past'.length := h.index.symm.trans h'.index
  obtain ⟨hpast, htail⟩ := List.append_inj hplaces (by simpa using hindex)
  obtain ⟨rfl, rfl⟩ := List.cons.inj htail
  obtain rfl := List.reverse_injective hpast
  rfl

/-- A cursor that has not gone on by one entry follows no move. -/
theorem follows_iff_of_index (hc : t.Shows c) (hc' : t'.Shows c') (hindex : c'.index ≠ c.index + 1) :
    Follows urls t t' ↔ ∀ u v, ¬ Moved urls t t' u v := by
  constructor
  · rintro ⟨-, h⟩ u v hmoved
    obtain ⟨-, hvisit⟩ := h u v hmoved c hc
    obtain rfl := hc'.unique hvisit
    exact hindex (c.index_visit v)
  · intro h
    exact ⟨hc'.wellFormed, fun u v hmoved => absurd hmoved (h u v)⟩

theorem follows_iff_of_revises (urls : UrlParser) (ht : t.WellFormed) (h : t.Revises t') :
    Follows urls t t' ↔ ∀ u v, ¬ Moved urls t t' u v := by
  obtain ⟨c, hc⟩ := wellFormed_iff.mp ht
  apply follows_iff_of_index hc (h c hc)
  rw [Cursor.index_revise]
  omega

/-- A cursor that has gone on by one entry follows a move between the two. -/
theorem follows_iff_of_visit (hc : t.Shows c) {w : String} (hw : t'.Shows (c.visit w)) :
    Follows urls t t' ↔ ∀ u v, Moved urls t t' u v → t.url = u ∧ w = v := by
  constructor
  · rintro ⟨-, h⟩ u v hmoved
    obtain ⟨hhere, hvisit⟩ := h u v hmoved c hc
    exact ⟨hc.here.trans hhere, hw.here.symm.trans hvisit.here⟩
  · intro h
    refine ⟨hw.wellFormed, ?_⟩
    intro u v hmoved d hd
    obtain ⟨rfl, rfl⟩ := h u v hmoved
    obtain rfl := hc.unique hd
    exact ⟨hc.here.symm, hw⟩

/-- Without a live page the page is where the tab says. -/
theorem Tab.Goes.follows (h : t.Goes t') (ht : t.WellFormed) (hpage : t.page = none)
    (hpage' : t'.page = none) : Follows urls t t' := by
  obtain ⟨c, hc⟩ := wellFormed_iff.mp ht
  rcases h c hc with hkept | hvisit
  · refine ⟨hkept.wellFormed, ?_⟩
    rintro u v ⟨hu, hv, hne⟩
    rw [Tab.pageUrl, hpage] at hu
    rw [Tab.pageUrl, hpage'] at hv
    obtain rfl := Option.some.inj hu
    obtain rfl := Option.some.inj hv
    exact absurd (hc.here.trans hkept.here.symm) hne
  · rw [follows_iff_of_visit hc hvisit]
    rintro u v ⟨hu, hv, -⟩
    rw [Tab.pageUrl, hpage] at hu
    rw [Tab.pageUrl, hpage'] at hv
    exact ⟨Option.some.inj hu, Option.some.inj hv⟩

theorem follows_refl (ht : t.WellFormed) : Follows urls t t := by
  refine ⟨ht, ?_⟩
  rintro u v ⟨hu, hv, hne⟩
  exact absurd (Option.some.inj (hu.symm.trans hv)) hne

end Follows

section Pages

/-- The page stays where it is. -/
def Tab.SamePage (t t' : Tab) : Prop := t'.page = t.page

instance : Std.Refl Tab.SamePage := ⟨fun _ => rfl⟩

instance : IsTrans Tab Tab.SamePage := ⟨fun _ _ _ h1 h2 => Eq.trans h2 h1⟩

variable (urls : UrlParser)

theorem samePage_navigateTab (url : String) : Within Tab.SamePage (navigateTab urls url) := by
  apply Stateful.within_bind (within_check _)
  exact fun _ => Stateful.within_modify fun _ => rfl

theorem samePage_captureTabSnapshot (request : Option String) (fetched : Fetched) :
    Within Tab.SamePage (captureTabSnapshot urls request fetched) := by
  apply Stateful.within_bind Stateful.within_get
  intro t
  apply Stateful.within_bind (within_check _)
  intro answered
  apply Stateful.within_bind (within_check _)
  intro finalUrl
  apply Stateful.within_bind
  · exact Stateful.within_modify fun _ => rfl
  · exact fun _ => Stateful.within_pure _

/-- Navigation and what revises behind it go on to one new URL. -/
theorem goes_navigateTab {m : TabM Unit} (hm : Within Tab.Revises m) (url : String) :
    Within Tab.Goes (do navigateTab urls url; m) := by
  constructor
  intro t c hc
  cases hnormal : normalizeHttpUrl urls.parse url with
  | error e =>
    rw [Stateful.exec_bind_error (exec_navigateTab_error hnormal t)]
    exact Or.inl hc
  | ok normalized =>
    rw [Stateful.exec_bind_ok (exec_navigateTab hnormal t)]
    exact Or.inr ((hm.moves _).visit (hc.push rfl rfl rfl))

/-- A program that first checks something goes where what follows goes. -/
theorem goes_check {α : Type} {x : Except String α} {f : α → TabM Unit}
    (hf : ∀ a, Within Tab.Goes (f a)) : Within Tab.Goes (check x >>= f) := by
  constructor
  intro t c hc
  cases x with
  | error e => exact Or.inl hc
  | ok a => exact (hf a).moves t c hc

theorem revises_captureTabIf (snapshotAfter : Bool) (request : Option String) (fetched : Fetched) :
    Within Tab.Revises
      (if snapshotAfter then discard (captureTabSnapshot urls request fetched) else pure () : TabM Unit) := by
  cases snapshotAfter with
  | true => exact revises_discard (revises_captureTabSnapshot urls request fetched)
  | false => exact Stateful.within_pure _

theorem goes_fetchForm (form : Form) (snapshotAfter : Bool) (fetched : Fetched) :
    Within Tab.Goes (fetchForm urls form snapshotAfter fetched) := by
  unfold fetchForm
  cases form.method with
  | get => exact goes_check fun _ => goes_navigateTab urls (revises_captureTabIf urls _ _ _) _
  | post => exact goes_navigateTab urls (revises_captureTabIf urls _ _ _) _

theorem goes_fetchClick (p : Params) (o : Click) : Within Tab.Goes (fetchClick urls p o) := by
  unfold fetchClick
  apply goes_check
  intro target
  cases target with
  | form form => exact goes_fetchForm urls form _ _
  | link url => exact goes_navigateTab urls (revises_captureTabIf urls _ _ _) _

theorem goes_navigate (p : Params) (rawUrl : String) (o : Load) :
    Within Tab.Goes (navigate urls p rawUrl o) := by
  apply goes_check
  intro url
  apply goes_navigateTab
  apply revises_engine
  · apply revises_orElseFetch _ _ (revises_fetchAfter urls _ _)
    apply Stateful.within_bind (revises_of_keeps (keeps_loadPage o))
    exact fun _ => revises_readPage urls _ _ _ _
  · exact revises_fetchAfter urls _ _

theorem samePage_captureTabIf (snapshotAfter : Bool) (request : Option String) (fetched : Fetched) :
    Within Tab.SamePage
      (if snapshotAfter then discard (captureTabSnapshot urls request fetched) else pure () : TabM Unit) := by
  cases snapshotAfter with
  | true =>
    apply Stateful.within_bind (samePage_captureTabSnapshot urls request fetched)
    exact fun _ => Stateful.within_pure _
  | false => exact Stateful.within_pure _

theorem samePage_fetchForm (form : Form) (snapshotAfter : Bool) (fetched : Fetched) :
    Within Tab.SamePage (fetchForm urls form snapshotAfter fetched) := by
  unfold fetchForm
  cases form.method with
  | get =>
    apply Stateful.within_bind (within_check _)
    intro target
    apply Stateful.within_bind (samePage_navigateTab urls _)
    exact fun _ => samePage_captureTabIf urls _ _ _
  | post =>
    apply Stateful.within_bind (samePage_navigateTab urls _)
    exact fun _ => samePage_captureTabIf urls _ _ _

theorem samePage_fetchClick (p : Params) (o : Click) : Within Tab.SamePage (fetchClick urls p o) := by
  unfold fetchClick
  apply Stateful.within_bind (within_check _)
  intro target
  cases target with
  | form form => exact samePage_fetchForm urls form _ _
  | link url =>
    apply Stateful.within_bind (samePage_navigateTab urls _)
    exact fun _ => samePage_captureTabIf urls _ _ _

end Pages

section Login
variable {urls : UrlParser}

theorem normalize_of_orFallback_ne (urls : UrlParser) (value fallback : String)
    (h : normalizeHttpUrlOrFallback urls value fallback ≠ fallback) :
    normalizeHttpUrl urls.parse value = .ok (normalizeHttpUrlOrFallback urls value fallback) := by
  unfold normalizeHttpUrlOrFallback at h ⊢
  cases hnormal : normalizeHttpUrl urls.parse value with
  | error e =>
    rw [hnormal] at h
    exact absurd rfl h
  | ok url => rfl

theorem exec_appendHistoryEntry_new {t : Tab} {url : String}
    (hnormal : normalizeHttpUrl urls.parse url = .ok url) (hnew : t.history[t.historyIndex]? ≠ some url) :
    exec (appendHistoryEntry urls url) t = (.ok .unit, t.push url) := by
  rw [exec_appendHistoryEntry urls hnormal, if_neg hnew]

/-- The tab takes over the URL of its page, as a new entry if it is another one. -/
theorem goes_loginPage (o : Login) : Within Tab.Goes (loginPage urls o) := by
  constructor
  intro t c hc
  unfold loginPage
  rw [Stateful.exec_bind_ok (Stateful.exec_get t)]
  have hopen : Within Tab.Keeps (onlyIf (t.page = none) (openPage o.runtime o.goto)) :=
    Stateful.within_onlyIf _ (keeps_openPage _ _)
  have hkept := hopen.moves t c hc
  rcases hexec : exec (onlyIf (t.page = none) (openPage o.runtime o.goto)) t with ⟨e | ⟨⟩, s⟩
  · rw [hexec] at hkept
    rw [Stateful.exec_bind_error hexec]
    exact Or.inl hkept
  rw [hexec] at hkept
  replace hkept : s.Shows c := hkept
  rw [Stateful.exec_bind_ok hexec, Stateful.exec_bind_ok (Stateful.exec_get s)]
  have hnormal := normalize_of_orFallback_ne urls (s.page.getD s.url) s.url
  generalize normalizeHttpUrlOrFallback urls (s.page.getD s.url) s.url = liveUrl at hnormal
  dsimp only
  by_cases hne : liveUrl ≠ s.url
  · have hnew : s.history[s.historyIndex]? ≠ some liveUrl := by
      rw [hkept.current]
      exact fun h => hne (Option.some.inj h).symm
    rw [Stateful.onlyIf_pos hne,
      Stateful.exec_bind_ok (exec_appendHistoryEntry_new (normalizeHttpUrl_idem (hnormal hne)) hnew),
      Stateful.exec_modify]
    exact Or.inr (hkept.push rfl rfl rfl)
  · rw [Stateful.onlyIf_neg hne, Stateful.exec_bind_ok (Stateful.exec_pure _ s), Stateful.exec_modify]
    exact Or.inl ⟨hkept.places, hkept.index, (not_ne_iff.mp hne).trans hkept.here⟩

theorem Tab.Goes.wellFormed {t t' : Tab} (h : t.Goes t') (ht : t.WellFormed) : t'.WellFormed := by
  obtain ⟨c, hc⟩ := wellFormed_iff.mp ht
  rcases h c hc with hkept | hvisit
  · exact hkept.wellFormed
  · exact hvisit.wellFormed

end Login

section Scenes
variable {urls : UrlParser} {p : Params} {popupId : String} {a : Action} {t t1 : Tab}

@[simp] theorem exec_onTab {α : Type} (m : TabM α) (s : Scene) :
    exec (onTab m) s = ((exec m s.tab).1, { s with tab := (exec m s.tab).2 }) := rfl

theorem exec_onTab_ok {α : Type} {m : TabM α} {s : Scene} {x : α} (h : exec m s.tab = (.ok x, t1)) :
    exec (onTab m) s = (.ok x, { s with tab := t1 }) := by
  rw [exec_onTab, h]

theorem exec_onTab_error {α : Type} {m : TabM α} {s : Scene} {e : String}
    (h : exec m s.tab = (.error e, t1)) : exec (onTab m) s = (.error e, { s with tab := t1 }) := by
  rw [exec_onTab, h]

/-- An action either ends before it follows a link or submits a form, or goes on from there. -/
theorem finished_cases (urls : UrlParser) (p : Params) (popupId : String) (a : Action) (t : Tab) :
    a.finished urls p popupId t = a.prepared urls p t ∨
      a.finished urls p popupId t =
        (exec (a.proceed urls p popupId) ⟨a.prepared urls p t, none⟩).2.tab := by
  unfold Action.finished Action.execute Action.prepared
  rcases hexec : exec (a.prepare urls p) t with ⟨e | ⟨⟩, t1⟩
  · rw [Stateful.exec_bind_error (exec_onTab_error hexec)]
    exact Or.inl rfl
  · rw [Stateful.exec_bind_ok (exec_onTab_ok hexec)]
    exact Or.inr rfl

theorem finished_onTab {m : TabM Unit} (hprepare : a.prepare urls p = pure ())
    (hproceed : a.proceed urls p popupId = onTab m) :
    a.finished urls p popupId t = (exec m t).2 := by
  unfold Action.finished Action.execute
  rw [hprepare, hproceed, Stateful.exec_bind_ok (exec_onTab_ok (Stateful.exec_pure () t)), exec_onTab]

theorem prepared_submit (urls : UrlParser) (p : Params) (t : Tab) (o : Submit) :
    t.Revises ((Action.submit o).prepared urls p t) :=
  (revises_seedSnapshot urls p o.seed).moves t

theorem prepared_click (urls : UrlParser) (p : Params) (t : Tab) (o : Click) : t.Revises ((Action.click o).prepared urls p t) :=
  (revises_seedSnapshot urls p o.seed).moves t

theorem prepared_login (urls : UrlParser) (p : Params) (t : Tab) (o : Login) : t.Goes ((Action.login o).prepared urls p t) :=
  (goes_loginPage o).moves t

theorem resolveEngine_of_page (h : t.page.isSome) : resolveEngine p t = .ok .live := by
  rw [resolveEngine, if_pos h]

end Scenes

section Submissions
variable {urls : UrlParser} {p : Params} {popupId : String} {t t' : Tab}

theorem not_moved_self (u v : String) : ¬ Moved urls t t u v := by
  rintro ⟨hu, hv, hne⟩
  exact hne (Option.some.inj (hu.symm.trans hv))

/-- The login form is submitted, and the entry for the page that it leads to takes the place of
the one before. -/
theorem meets_login_iff (o : Login) (ht : t.WellFormed) :
    (Action.login o).Sound urls p popupId t ↔ (Action.login o).Meets urls p popupId t := by
  have hgoes := prepared_login urls p t o
  have hwf := hgoes.wellFormed ht
  have hrevises : ((Action.login o).prepared urls p t).Revises
      ((Action.login o).finished urls p popupId t) := by
    rcases finished_cases urls p popupId (.login o) t with h | h
    · rw [h]
      exact refl_of Tab.Revises _
    · rw [h]
      exact (revises_loginSubmit urls p o).moves _
  simp only [Action.Sound, Action.Meets]
  rw [and_iff_right hgoes, follows_iff_of_revises urls hwf hrevises]

theorem revises_liveSubmit (o : Submit) (beforeUrl : String) :
    Within Tab.Revises (do liveSubmitForm o.submit; captureEntry urls o.capture beforeUrl) := by
  apply Stateful.within_bind
  · apply Stateful.within_bind Stateful.within_get
    intro t
    apply Stateful.within_bind (Stateful.within_ensure _ _)
    exact fun _ => revises_of_keeps (keeps_await _)
  · exact fun _ => revises_captureEntry urls _ _

/-- A submission of the live engine replaces the current entry. -/
theorem revises_submitForm_live (urls : UrlParser) (p : Params) (o : Submit) (hpage : t.page.isSome) :
    t.Revises (exec (submitForm urls p o) t).2 := by
  unfold submitForm
  cases hform : o.form with
  | error e => exact refl_of Tab.Revises t
  | ok form =>
    rw [check, Stateful.exec_bind_ok (Stateful.exec_pure form t),
      Stateful.exec_bind_ok (Stateful.exec_get t), resolveEngine_of_page hpage, check,
      Stateful.exec_bind_ok (Stateful.exec_pure _ t)]
    exact (revises_liveSubmit o t.url).moves t

/-- Without a page there is nothing to submit in the live engine. -/
theorem exec_liveSubmit_none (urls : UrlParser) (o : Submit) (beforeUrl : String) (hpage : t.page = none) :
    (exec (do liveSubmitForm o.submit; captureEntry urls o.capture beforeUrl) t).2 = t := by
  unfold liveSubmitForm
  simp only [bind_assoc]
  rw [Stateful.exec_bind_ok (Stateful.exec_get t), ensure, if_neg (not_not_intro hpage),
    Stateful.exec_bind_error (Stateful.exec_throw _ t)]

theorem follows_submitForm_none (urls : UrlParser) (p : Params) (o : Submit) (ht : t.WellFormed) (hpage : t.page = none) :
    Follows urls t (exec (submitForm urls p o) t).2 := by
  unfold submitForm
  cases hform : o.form with
  | error e => exact follows_refl ht
  | ok form =>
    rw [check, Stateful.exec_bind_ok (Stateful.exec_pure form t),
      Stateful.exec_bind_ok (Stateful.exec_get t)]
    cases hengine : resolveEngine p t with
    | error e => exact follows_refl ht
    | ok engine =>
      rw [check, Stateful.exec_bind_ok (Stateful.exec_pure _ t)]
      cases engine with
      | live =>
        have hsame := exec_liveSubmit_none urls o t.url hpage
        dsimp only
        rw [hsame]
        exact follows_refl ht
      | fetch =>
        have hgoes := (goes_fetchForm urls form true o.fetched).moves t
        have hsame := (samePage_fetchForm urls form true o.fetched).moves t
        exact hgoes.follows ht hpage (hsame.trans hpage)

theorem meets_submit_iff (o : Submit) (ht : t.WellFormed) :
    (Action.submit o).Sound urls p popupId t ↔ (Action.submit o).Meets urls p popupId t := by
  have hseed := prepared_submit urls p t o
  have hwf := hseed.wellFormed ht
  simp only [Action.Sound, Action.Meets]
  rw [and_iff_right hseed]
  rcases finished_cases urls p popupId (.submit o) t with h | h
  · rw [h]
    exact iff_of_true (fun _ => not_moved_self) (follows_refl hwf)
  · rw [h]
    cases hpage : ((Action.submit o).prepared urls p t).page with
    | none =>
      have hfollows := follows_submitForm_none urls p o hwf hpage
      exact iff_of_true (fun hsome => by cases hsome) hfollows
    | some url =>
      have hrevises := revises_submitForm_live urls p o (by rw [hpage]; rfl)
      have hiff := follows_iff_of_revises urls hwf hrevises
      exact ⟨fun hs => hiff.mpr (hs rfl), fun hf _ => hiff.mp hf⟩

end Submissions

end T560.Browser.History
