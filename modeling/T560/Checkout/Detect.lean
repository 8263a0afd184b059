import T560.Checkout.Workflow

/-!
# What the checkout guard reports

The risk is detected on one text joined from all hints. Neither pattern can match across the
joints, so a risk is reported exactly when one of the fields the guard reads names a checkout.
-/

namespace T560.Checkout

open Foundation.Pattern (Separates none_of_all test_empty)
open Js (Value Runtime exists_of_bind_ok ok_bind trim)

theorem keywords_separates : Separates " | ".toList checkoutKeywords where
  nonempty := by decide
  noWord := none_of_all (by decide)
  noStart := none_of_all (by decide)
  noEnd := none_of_all (by decide)
  barrier := ⟨'|', by decide, by decide⟩

theorem urlHint_separates : Separates " | ".toList checkoutUrlHint where
  nonempty := by decide
  noWord := none_of_all (by decide)
  noStart := none_of_all (by decide)
  noEnd := none_of_all (by decide)
  barrier := ⟨'|', by decide, by decide⟩

theorem namesCheckout_join (hints : List String) :
    namesCheckout (String.intercalate " | " hints) = true ↔ ∃ h ∈ hints, namesCheckout h = true := by
  simp only [namesCheckout, Bool.or_eq_true, keywords_separates.test_join, urlHint_separates.test_join]
  constructor
  · rintro (⟨h, hin, hm⟩ | ⟨h, hin, hm⟩)
    · exact ⟨h, hin, .inl hm⟩
    · exact ⟨h, hin, .inr hm⟩
  · rintro ⟨h, hin, hm | hm⟩
    · exact .inl ⟨h, hin, hm⟩
    · exact .inr ⟨h, hin, hm⟩

theorem namesCheckout_empty : namesCheckout "" = false := by
  rw [namesCheckout, test_empty keywords_separates.nonempty, test_empty urlHint_separates.nonempty]
  rfl

variable (rt : Runtime)

/-- The field as the guard reads it names a checkout. -/
def NamesCheckout (value : Option Value) : Prop :=
  ∃ text, compact rt value = .ok text ∧ namesCheckout (rt.toLowerCase text) = true

/-- The field converts to text. -/
def Readable (value : Option Value) : Prop := ∃ text, compact rt value = .ok text

theorem pushHint_ok_iff {value : Option Value} {hints : List String} :
    pushHint rt value = .ok hints ↔
      ∃ text, compact rt value = .ok text ∧ hints = if text = "" then [] else [rt.toLowerCase text] := by
  constructor
  · intro h
    obtain ⟨text, htext, h⟩ := exists_of_bind_ok h
    cases h
    exact ⟨text, htext, rfl⟩
  · rintro ⟨text, htext, rfl⟩
    rw [pushHint, htext, ok_bind]
    rfl

theorem pushed_names_iff {value : Option Value} {hints : List String}
    (h : pushHint rt value = .ok hints) :
    (∃ hint ∈ hints, namesCheckout hint = true) ↔ NamesCheckout rt value := by
  obtain ⟨text, htext, rfl⟩ := (pushHint_ok_iff rt).mp h
  constructor
  · rintro ⟨hint, hin, hm⟩
    split at hin
    · cases hin
    · cases List.mem_singleton.mp hin
      exact ⟨text, htext, hm⟩
  · rintro ⟨text', htext', hm⟩
    rw [htext] at htext'
    cases htext'
    split
    · next hempty =>
      rw [hempty, rt.toLowerCase_empty, namesCheckout_empty] at hm
      cases hm
    · exact ⟨_, List.mem_singleton.mpr rfl, hm⟩

theorem exists_pushed_iff {values : List (Option Value)} {pushed : List (List String)}
    (h : List.Forall₂ (fun v hs => pushHint rt v = .ok hs) values pushed) :
    (∃ hint ∈ pushed.flatten, namesCheckout hint = true) ↔ ∃ v ∈ values, NamesCheckout rt v := by
  induction h with
  | nil => simp
  | cons hv _ ih =>
    simp only [List.flatten_cons, List.mem_append, List.mem_cons, or_and_right, exists_or,
      exists_eq_left, pushed_names_iff rt hv, ih]

theorem readable_iff {value : Option Value} :
    (∃ hints, pushHint rt value = .ok hints) ↔ Readable rt value := by
  constructor
  · rintro ⟨hints, h⟩
    obtain ⟨text, htext, -⟩ := (pushHint_ok_iff rt).mp h
    exact ⟨text, htext⟩
  · rintro ⟨text, htext⟩
    exact ⟨_, (pushHint_ok_iff rt).mpr ⟨text, htext, rfl⟩⟩

theorem collect_names_iff {args : Value} :
    (∃ hints, collectCheckoutHints rt args = .ok hints ∧ ∃ h ∈ hints, namesCheckout h = true) ↔
      (∀ v ∈ hintValues args, Readable rt v) ∧ ∃ v ∈ hintValues args, NamesCheckout rt v := by
  simp only [← readable_iff, ← Js.exists_mapM_ok_iff]
  constructor
  · rintro ⟨hints, hc, hm⟩
    obtain ⟨pushed, hp, h⟩ := exists_of_bind_ok hc
    cases h
    exact ⟨⟨pushed, hp⟩, (exists_pushed_iff rt (Js.mapM_ok_iff.mp hp)).mp hm⟩
  · rintro ⟨⟨pushed, hp⟩, hm⟩
    refine ⟨pushed.flatten, ?_, (exists_pushed_iff rt (Js.mapM_ok_iff.mp hp)).mpr hm⟩
    rw [collectCheckoutHints, hp, ok_bind]
    rfl

/-- The guard watches the action: it is listed, and a press is one of Enter. -/
def Watched (args : Value) : Prop :=
  ∃ action, compact rt (args.get? "action") = .ok action ∧
    rt.toLowerCase action ∈ checkoutActions ∧
    (rt.toLowerCase action = "press" →
      ∃ key, compact rt (args.get? "key") = .ok key ∧
        (rt.toLowerCase key = "enter" ∨ rt.toLowerCase key = "return"))

theorem normalizeToolName_browser : normalizeToolName rt "browser" = "browser" := by
  have hl : rt.toLowerCase (trim "browser") = "browser" := by
    rw [rt.lower_ascii _ (by decide)]
    decide
  rw [normalizeToolName, hl]
  decide

theorem watched_iff {args : Value} :
    (∃ action, watchedAction rt args = .ok (some action)) ↔ Watched rt args := by
  constructor
  · rintro ⟨found, h⟩
    obtain ⟨action, haction, h⟩ := exists_of_bind_ok h
    dsimp only at h
    split at h
    · cases h
    · next hin =>
      refine ⟨action, haction, not_not.mp hin, ?_⟩
      intro hpress
      rw [if_pos hpress] at h
      obtain ⟨key, hkey, h⟩ := exists_of_bind_ok h
      refine ⟨key, hkey, ?_⟩
      split at h
      · cases h
      · next hk => rwa [not_and_or, not_not, not_not] at hk
  · rintro ⟨action, haction, hin, hkey⟩
    refine ⟨rt.toLowerCase action, ?_⟩
    rw [watchedAction, haction, ok_bind, if_neg (not_not.mpr hin)]
    split
    · next hpress =>
      obtain ⟨key, hk, hor⟩ := hkey hpress
      have hneg : ¬ (rt.toLowerCase key ≠ "enter" ∧ rt.toLowerCase key ≠ "return") := by
        rwa [not_and_or, not_not, not_not]
      rw [hk, ok_bind]
      dsimp only
      rw [if_neg hneg]
      rfl
    · rfl

theorem isRecord_of_watched {args : Value} (h : Watched rt args) : args.isRecord = true := by
  by_contra hno
  obtain ⟨action, haction, hin, -⟩ := h
  rw [Js.Value.get?_of_not_record hno] at haction
  cases haction
  have hempty : rt.toLowerCase (compactText "") = "" := rt.toLowerCase_empty
  rw [hempty] at hin
  exact absurd hin (by decide)

theorem riskOfHints_iff {action : String} {args : Value} {hints : List String} :
    (∃ risk, riskOfHints rt action args hints = .ok (some risk)) ↔
      ∃ h ∈ hints, namesCheckout h = true := by
  rw [← namesCheckout_join]
  constructor
  · rintro ⟨risk, h⟩
    by_contra hno
    unfold riskOfHints at h
    dsimp only at h
    rw [if_neg hno] at h
    split at h
    · cases h
    · cases hreq : args.record? "request" with
      | none =>
        rw [hreq] at h
        cases h
      | some req =>
        rw [hreq] at h
        dsimp only at h
        split at h
        · obtain ⟨kind, -, h⟩ := exists_of_bind_ok h
          rw [if_neg (fun hk => hno hk.2)] at h
          cases h
        · cases h
  · intro hyes
    refine ⟨⟨action, checkoutReason, hints.head?⟩, ?_⟩
    unfold riskOfHints
    dsimp only
    rw [if_neg, if_pos hyes]
    · rfl
    · intro hempty
      rw [hempty, namesCheckout_empty] at hyes
      cases hyes

/-- A risk is reported exactly for a watched action with a field that names a checkout. -/
theorem detect_risk_iff {args : Value} :
    (∃ risk, detectCheckoutRisk rt "browser" args = .ok (some risk)) ↔
      Watched rt args ∧ (∀ v ∈ hintValues args, Readable rt v) ∧
        ∃ v ∈ hintValues args, NamesCheckout rt v := by
  rw [← collect_names_iff, ← watched_iff]
  constructor
  · rintro ⟨risk, h⟩
    rw [detectCheckoutRisk, if_neg (not_not.mpr (normalizeToolName_browser rt))] at h
    split at h
    · cases h
    · obtain ⟨found, hfound, h⟩ := exists_of_bind_ok h
      cases found with
      | none => cases h
      | some action =>
        obtain ⟨hints, hhints, h⟩ := exists_of_bind_ok h
        exact ⟨⟨action, hfound⟩, hints, hhints, (riskOfHints_iff rt).mp ⟨risk, h⟩⟩
  · rintro ⟨⟨action, hfound⟩, hints, hhints, hm⟩
    obtain ⟨risk, hrisk⟩ := (riskOfHints_iff rt).mpr hm
    refine ⟨risk, ?_⟩
    have hrec := isRecord_of_watched rt ((watched_iff rt).mp ⟨action, hfound⟩)
    rw [detectCheckoutRisk, if_neg (not_not.mpr (normalizeToolName_browser rt)), if_neg (by simp [hrec]),
      hfound, ok_bind]
    show collectCheckoutHints rt args >>= _ = _
    rw [hhints, ok_bind]
    exact hrisk

end T560.Checkout
