import T560.Foundation.Ranking
import T560.Memory.Titles

/-!
# What a save replaces

The entries a save means to replace are those it contradicts and is related to. The hints that
decide are ranked and cut to eight, and two titles without a letter or digit count as the same
title; both decide which entries are deleted.
-/

namespace T560.Memory

open Js (Runtime)
open Ranking

section Conflicts
variable (rt : Runtime) (title content : String)

/-- How much an entry has in common with a new one. -/
def similarityTo (e : MemoryStoreEntry) : ℚ :=
  jaccardSimilarity (tokenizeForSimilarity rt (title ++ "\n" ++ content))
    (tokenizeForSimilarity rt (e.title ++ "\n" ++ e.content))

/-- The titles have the same nonempty key, or the texts have most of their tokens in common. -/
def Related (e : MemoryStoreEntry) : Prop :=
  (normalizeTitleKey rt e.title = normalizeTitleKey rt title ∧ normalizeTitleKey rt title ≠ "") ∨
    65 / 100 ≤ similarityTo rt title content e

def Contradicts (e : MemoryStoreEntry) : Prop := (detectConflictReason rt e.content content).isSome

/-- The entries that a new one should replace. -/
def Conflicts (e : MemoryStoreEntry) : Prop := Contradicts rt content e ∧ Related rt title content e

/-- An entry that is taken for one of the same title because neither title has a key. -/
def SharesNoKey (e : MemoryStoreEntry) : Prop :=
  Contradicts rt content e ∧ ¬ Related rt title content e ∧
    normalizeTitleKey rt e.title = "" ∧ normalizeTitleKey rt title = ""

instance (e : MemoryStoreEntry) : Decidable (Related rt title content e) :=
  inferInstanceAs (Decidable (_ ∨ _))

instance (e : MemoryStoreEntry) : Decidable (Contradicts rt content e) :=
  inferInstanceAs (Decidable (_ = true))

instance (e : MemoryStoreEntry) : Decidable (Conflicts rt title content e) :=
  inferInstanceAs (Decidable (_ ∧ _))

instance (e : MemoryStoreEntry) : Decidable (SharesNoKey rt title content e) :=
  inferInstanceAs (Decidable (_ ∧ _))

/-- The order in which the hints are ranked. -/
def hintOrder (toFixed3 : ℚ → ℚ) (a b : MemoryStoreEntry) : Bool :=
  toFixed3 (similarityTo rt title content b) ≤ toFixed3 (similarityTo rt title content a)

/-- At most eight entries conflict, and when there are others that share no key with the new
entry, exactly eight do and each ranks before all of those. -/
structure HintsFit (toFixed3 : ℚ → ℚ) (entries : List MemoryStoreEntry) : Prop where
  few : (entries.filter (Conflicts rt title content ·)).length ≤ 8
  first : ∀ x ∈ entries, SharesNoKey rt title content x →
    (entries.filter (Conflicts rt title content ·)).length = 8 ∧
      ∀ e ∈ entries, Conflicts rt title content e →
        RanksBefore (hintOrder rt title content toFixed3) entries e x

/-- An entry that a hint is made for. -/
def Hinted (e : MemoryStoreEntry) : Prop :=
  Conflicts rt title content e ∨ SharesNoKey rt title content e

instance (e : MemoryStoreEntry) : Decidable (Hinted rt title content e) :=
  inferInstanceAs (Decidable (_ ∨ _))

/-- The hint for an entry that gets one. -/
def hintFor (toFixed3 : ℚ → ℚ) (e : MemoryStoreEntry) : MemoryConflictHint where
  id := e.id
  title := e.title
  reason := (detectConflictReason rt e.content content).getD ""
  similarity := toFixed3 (similarityTo rt title content e)

variable {rt title content}

theorem hinted_iff {e : MemoryStoreEntry} :
    Hinted rt title content e ↔ Contradicts rt content e ∧
      (normalizeTitleKey rt e.title = normalizeTitleKey rt title ∨
        65 / 100 ≤ similarityTo rt title content e) := by
  constructor
  · rintro (⟨hc, ⟨hkey, -⟩ | hclose⟩ | ⟨hc, -, he, ht⟩)
    · exact ⟨hc, .inl hkey⟩
    · exact ⟨hc, .inr hclose⟩
    · exact ⟨hc, .inl (he.trans ht.symm)⟩
  · rintro ⟨hc, hnear⟩
    by_cases hr : Related rt title content e
    · exact .inl ⟨hc, hr⟩
    · rcases hnear with hkey | hclose
      · -- The common key is empty, since the entry is not related.
        have hempty : normalizeTitleKey rt title = "" := by
          by_contra hne
          exact hr (.inl ⟨hkey, hne⟩)
        exact .inr ⟨hc, hr, hkey.trans hempty, hempty⟩
      · exact (hr (.inr hclose)).elim

theorem conflictHint_eq (toFixed3 : ℚ → ℚ) (e : MemoryStoreEntry) :
    conflictHint rt toFixed3 title content e =
      if Hinted rt title content e then some (hintFor rt title content toFixed3 e) else none := by
  have hunfold : conflictHint rt toFixed3 title content e =
      if (!decide (normalizeTitleKey rt e.title = normalizeTitleKey rt title) &&
        decide (similarityTo rt title content e < 65 / 100)) = true then none
      else (detectConflictReason rt e.content content).map fun reason =>
        ⟨e.id, e.title, reason, toFixed3 (similarityTo rt title content e)⟩ := rfl
  have hcut : (!decide (normalizeTitleKey rt e.title = normalizeTitleKey rt title) &&
      decide (similarityTo rt title content e < 65 / 100)) = true ↔
      ¬ (normalizeTitleKey rt e.title = normalizeTitleKey rt title ∨
        65 / 100 ≤ similarityTo rt title content e) := by
    simp
  rw [hunfold, if_congr hcut rfl rfl]
  have hiff := @hinted_iff rt title content e
  unfold hintFor
  unfold Contradicts at hiff
  generalize detectConflictReason rt e.content content = reason at hiff ⊢
  by_cases hnear : normalizeTitleKey rt e.title = normalizeTitleKey rt title ∨
      65 / 100 ≤ similarityTo rt title content e
  · rw [if_neg (not_not.mpr hnear)]
    cases reason with
    | none =>
      rw [if_neg (by rw [hiff]; simp)]
      rfl
    | some reason =>
      rw [if_pos (hiff.mpr ⟨rfl, hnear⟩)]
      rfl
  · rw [if_pos hnear, if_neg fun h => hnear (hiff.mp h).2]

theorem filterMap_conflictHint (toFixed3 : ℚ → ℚ) (entries : List MemoryStoreEntry) :
    entries.filterMap (conflictHint rt toFixed3 title content) =
      (entries.filter (Hinted rt title content ·)).map (hintFor rt title content toFixed3) := by
  induction entries with
  | nil => rfl
  | cons e entries ih =>
    by_cases hc : Hinted rt title content e
    · rw [List.filterMap_cons_some (by rw [conflictHint_eq, if_pos hc]),
        List.filter_cons_of_pos (by simpa using hc), List.map_cons, ih]
    · rw [List.filterMap_cons_none (by rw [conflictHint_eq, if_neg hc]),
        List.filter_cons_of_neg (by simpa using hc), ih]

/-- The hints come from the first eight hinted entries of the ranking. -/
theorem findPotentialConflicts_eq (toFixed3 : ℚ → ℚ) (entries : List MemoryStoreEntry) :
    findPotentialConflicts rt toFixed3 entries title content =
      (((entries.filter (Hinted rt title content ·)).mergeSort
        (hintOrder rt title content toFixed3)).take 8).map (hintFor rt title content toFixed3) := by
  have hsorted : ((entries.filter (Hinted rt title content ·)).mergeSort
      (hintOrder rt title content toFixed3)).map (hintFor rt title content toFixed3) =
      ((entries.filter (Hinted rt title content ·)).map
        (hintFor rt title content toFixed3)).mergeSort fun a b => b.similarity ≤ a.similarity :=
    List.map_mergeSort fun a _ b _ => rfl
  rw [findPotentialConflicts, filterMap_conflictHint, List.map_take, hsorted]

section Replaced
variable {toFixed3 : ℚ → ℚ} {entries : List MemoryStoreEntry}

theorem eq_of_id_eq (hids : (entries.map (·.id)).Nodup) {a b : MemoryStoreEntry}
    (ha : a ∈ entries) (hb : b ∈ entries) (h : a.id = b.id) : a = b :=
  List.inj_on_of_nodup_map hids ha hb h

/-- The ids of the hints name the first eight of the ranking. -/
theorem mem_hint_ids_iff (hids : (entries.map (·.id)).Nodup) {e : MemoryStoreEntry}
    (he : e ∈ entries) :
    e.id ∈ (findPotentialConflicts rt toFixed3 entries title content).map (·.id) ↔
      e ∈ ((entries.filter (Hinted rt title content ·)).mergeSort
        (hintOrder rt title content toFixed3)).take 8 := by
  rw [findPotentialConflicts_eq, List.map_map]
  constructor
  · intro h
    obtain ⟨x, hx, hid⟩ := List.mem_map.mp h
    have hin := List.mem_of_mem_filter (List.mem_mergeSort.mp (List.mem_of_mem_take hx))
    rwa [← eq_of_id_eq hids hin he hid]
  · intro h
    exact List.mem_map.mpr ⟨e, h, rfl⟩

theorem hintOrder_trans (a b c : MemoryStoreEntry)
    (h : hintOrder rt title content toFixed3 a b = true)
    (g : hintOrder rt title content toFixed3 b c = true) :
    hintOrder rt title content toFixed3 a c = true := by
  simp only [hintOrder, decide_eq_true_eq] at h g ⊢
  exact g.trans h

theorem hintOrder_total (a b : MemoryStoreEntry) :
    (hintOrder rt title content toFixed3 a b || hintOrder rt title content toFixed3 b a) = true := by
  simp only [hintOrder, Bool.or_eq_true, decide_eq_true_eq]
  exact le_total _ _

/-- Both entries have the property, so that leaving others out does not change their order. -/
theorem ranksBefore_filter {p : MemoryStoreEntry → Bool} {le : MemoryStoreEntry → MemoryStoreEntry → Bool}
    {a b : MemoryStoreEntry} (ha : p a = true) (hb : p b = true) :
    RanksBefore le (entries.filter p) a b ↔ RanksBefore le entries a b := by
  have hpair : [a, b].Sublist (entries.filter p) ↔ [a, b].Sublist entries := by
    constructor
    · exact fun h => h.trans List.filter_sublist
    · intro h
      have := h.filter p
      simpa [ha, hb] using this
  simp only [RanksBefore, hpair]

theorem not_conflicts_of_hinted {e : MemoryStoreEntry} (h : Hinted rt title content e) :
    ¬ Conflicts rt title content e ↔ SharesNoKey rt title content e := by
  constructor
  · exact fun hn => h.resolve_left hn
  · exact fun hs hc => hs.2.1 hc.2

/-- The hints name the conflicting entries exactly when they fit. -/
theorem hint_ids_exact_iff (hids : (entries.map (·.id)).Nodup) :
    (∀ e ∈ entries,
      e.id ∈ (findPotentialConflicts rt toFixed3 entries title content).map (·.id) ↔
        Conflicts rt title content e) ↔ HintsFit rt title content toFixed3 entries := by
  set hinted := entries.filter (Hinted rt title content ·) with hdef
  have hmem : ∀ {e}, e ∈ hinted ↔ e ∈ entries ∧ Hinted rt title content e := by
    intro e
    simp [hdef]
  have hnd : hinted.Nodup := (List.Nodup.of_map _ hids).filter _
  have hconflicts : hinted.filter (Conflicts rt title content ·) =
      entries.filter (Conflicts rt title content ·) := by
    rw [hdef, List.filter_filter]
    apply List.filter_congr
    intro e _
    by_cases hc : Conflicts rt title content e
    · simp [hc, Hinted]
    · simp [hc]
  have hranking := mem_take_mergeSort_iff (@hintOrder_trans rt title content toFixed3)
    hintOrder_total hnd (Conflicts rt title content ·) 8
  rw [hconflicts] at hranking
  have hleft : (∀ e ∈ entries,
      e.id ∈ (findPotentialConflicts rt toFixed3 entries title content).map (·.id) ↔
        Conflicts rt title content e) ↔
      ∀ e ∈ hinted, e ∈ (hinted.mergeSort (hintOrder rt title content toFixed3)).take 8 ↔
        decide (Conflicts rt title content e) = true := by
    constructor
    · intro h e he
      rw [← mem_hint_ids_iff hids (hmem.mp he).1, decide_eq_true_eq]
      exact h e (hmem.mp he).1
    · intro h e he
      rw [mem_hint_ids_iff hids he]
      by_cases hh : Hinted rt title content e
      · rw [h e (hmem.mpr ⟨he, hh⟩), decide_eq_true_eq]
      · refine iff_of_false (fun hin => hh ?_) fun hc => hh (.inl hc)
        exact (hmem.mp (List.mem_mergeSort.mp (List.mem_of_mem_take hin))).2
  rw [hleft, hranking]
  have hothers : ∀ {x}, x ∈ hinted → (decide (Conflicts rt title content x) = false ↔
      SharesNoKey rt title content x) := by
    intro x hx
    rw [decide_eq_false_iff_not, not_conflicts_of_hinted (hmem.mp hx).2]
  have hranks : ∀ {a x}, a ∈ hinted → x ∈ hinted →
      (RanksBefore (hintOrder rt title content toFixed3) hinted a x ↔
        RanksBefore (hintOrder rt title content toFixed3) entries a x) := by
    intro a x ha hx
    exact ranksBefore_filter (by simpa using (hmem.mp ha).2) (by simpa using (hmem.mp hx).2)
  constructor
  · rintro ⟨hfew, hrest⟩
    refine ⟨hfew, fun x hx hs => ?_⟩
    have hxh := hmem.mpr ⟨hx, .inr hs⟩
    obtain ⟨hlen, hfirst⟩ := hrest x hxh ((hothers hxh).mpr hs)
    refine ⟨hlen, fun e he hc => ?_⟩
    have heh := hmem.mpr ⟨he, .inl hc⟩
    exact (hranks heh hxh).mp (hfirst e heh (by simpa using hc))
  · rintro ⟨hfew, hfirst⟩
    refine ⟨hfew, fun x hxh hx => ?_⟩
    obtain ⟨hlen, hbefore⟩ := hfirst x (hmem.mp hxh).1 ((hothers hxh).mp hx)
    refine ⟨hlen, fun e heh hc => ?_⟩
    exact (hranks heh hxh).mpr (hbefore e (hmem.mp heh).1 (by simpa using hc))

end Replaced

end Conflicts

section Save
variable {env : SaveEnv} {call : SaveCall} {file after : Option String} {report : SaveReport}
  {r : SaveRequest}

theorem report_replacedIds (hr : checkRequest env call.params = .ok r)
    (h : memorySave env call file = .ok (report, after)) :
    report.replacedIds = r.replacedIds env (loadStoreEntries env.toStore (some .posInf) file) := by
  unfold memorySave at h
  rw [hr] at h
  dsimp only at h
  unfold performSave at h
  dsimp only at h
  split at h
  · cases h
  · cases h
    rfl

theorem mem_replacedIds {entries : List MemoryStoreEntry} (hreplace : r.onConflict = .replace)
    {id : String} : id ∈ r.replacedIds env entries ↔
      id ∈ (findPotentialConflicts env.rt env.toFixed3 (inNamespace r.memoryNamespace entries)
        r.title r.content).map (·.id) := by
  have hdedup : id ∈ r.conflictIds env entries ↔
      id ∈ (findPotentialConflicts env.rt env.toFixed3 (inNamespace r.memoryNamespace entries)
        r.title r.content).map (·.id) := List.mem_dedup
  rw [← hdedup, SaveRequest.replacedIds, SaveRequest.replaces, hreplace]
  cases hids : r.conflictIds env entries with
  | nil => simp
  | cons x xs => simp

/-- A save that replaces deletes exactly the conflicting entries of its namespace when the hints
fit, and otherwise not. -/
theorem memorySave_replaces_iff (env : SaveEnv) (call : SaveCall) (file after : Option String)
    (report : SaveReport) (r : SaveRequest) (hr : checkRequest env call.params = .ok r)
    (hreplace : r.onConflict = .replace) (h : memorySave env call file = .ok (report, after)) :
    (∀ e ∈ loadStoreEntries env.toStore (some .posInf) file, e.id ∈ report.replacedIds ↔
      e.memoryNamespace = r.memoryNamespace ∧ Conflicts env.rt r.title r.content e) ↔
    HintsFit env.rt r.title r.content env.toFixed3
      (inNamespace r.memoryNamespace (loadStoreEntries env.toStore (some .posInf) file)) := by
  have hloaded := loaded_ids_nodup env.toStore file
  rw [report_replacedIds hr h]
  generalize loadStoreEntries env.toStore (some .posInf) file = entries at hloaded ⊢
  rw [← hint_ids_exact_iff (inNamespace_ids_nodup r.memoryNamespace hloaded)]
  simp only [mem_replacedIds hreplace]
  constructor
  · intro hexact e he
    obtain ⟨hin, hspace⟩ := mem_inNamespace.mp he
    rw [hexact e hin]
    exact ⟨fun hc => hc.2, fun hc => ⟨hspace, hc⟩⟩
  · intro hexact e he
    by_cases hspace : e.memoryNamespace = r.memoryNamespace
    · rw [hexact e (mem_inNamespace.mpr ⟨he, hspace⟩)]
      exact ⟨fun hc => ⟨hspace, hc⟩, fun hc => hc.2⟩
    · -- An entry of another namespace has no hint, and no other entry has its id.
      refine iff_of_false (fun hin => hspace ?_) fun hc => hspace hc.1
      rw [findPotentialConflicts_eq, List.map_map] at hin
      obtain ⟨x, hx, hid⟩ := List.mem_map.mp hin
      have hx' := List.mem_of_mem_filter (List.mem_mergeSort.mp (List.mem_of_mem_take hx))
      obtain ⟨hxin, hxspace⟩ := mem_inNamespace.mp hx'
      rwa [← eq_of_id_eq hloaded hxin he hid]

end Save

section Example

/-- An address, and a save about something else whose title has no Latin letter either. -/
def addressCall : SaveCall :=
  saves "00000000-0000-4000-8000-00000000000a" firstUuid_trimmed
    [("title", .str "住所"), ("content", .str "In Kyoto.")]

def teaCall : SaveCall :=
  saves "00000000-0000-4000-8000-00000000000b" secondUuid_trimmed
    [("title", .str "飲物"), ("content", .str "Black tea."),
      ("onConflict", .str "replace")]

def addressRequest : SaveRequest :=
  ⟨"住所", "In Kyoto.", [], 3, DEFAULT_CONFIDENCE, "user", "global", .verified, .upsert⟩

def teaRequest : SaveRequest :=
  ⟨"飲物", "Black tea.", [], 3, DEFAULT_CONFIDENCE, "user", "global", .verified,
    .replace⟩

theorem addressCall_request (json : Js.Json) (room : Nat) :
    checkRequest (roomyEnv json room).toSaveEnv addressCall.params = .ok addressRequest :=
  @checkRequest_of _ _ addressRequest .upsert rfl (by decide) (by decide)
    (containsLikelySecret_of_not_spelled (by decide))

theorem teaCall_request (json : Js.Json) (room : Nat) :
    checkRequest (roomyEnv json room).toSaveEnv teaCall.params = .ok teaRequest :=
  @checkRequest_of _ _ teaRequest .replace rfl (by decide) (by decide)
    (containsLikelySecret_of_not_spelled (by decide))

/-- A save behind another one, which it replaces. -/
theorem replacing_save {json : Js.Json} {room : Nat} {first second : SaveCall}
    {r s : SaveRequest} (hr : checkRequest (roomyEnv json room).toSaveEnv first.params = .ok r)
    (hs : checkRequest (roomyEnv json room).toSaveEnv second.params = .ok s)
    (hupsert : r.onConflict = .upsert) (hroom : lineBytes json (newEntry first r) ≤ room)
    (hspace : r.memoryNamespace = s.memoryNamespace)
    (hreplace : s.onConflict = .replace)
    (hhint : (conflictHint Js.asciiRuntime roundedTo3 s.title s.content (newEntry first r)).map
      (·.id) = some (newEntry first r).id) :
    loadStoreEntries (roomyEnv json room).toStore (some .posInf)
        (storeStep (roomyEnv json room) none (.save first)) = [newEntry first r] ∧
      ∃ report after, memorySave (roomyEnv json room).toSaveEnv second
          (storeStep (roomyEnv json room) none (.save first)) = .ok (report, after) ∧
        report.replacedIds = [(newEntry first r).id] := by
  have hload := @loaded_new_save json room none first r [] (by rintro raw ⟨⟩) hr rfl
    (pickStoreEntryForUpsert_nil _ _ _) hupsert (by simp) (by simp) (by simpa using hroom)
  rw [List.nil_append] at hload
  have hconflict : s.conflictIds (roomyEnv json room).toSaveEnv [newEntry first r] =
      [(newEntry first r).id] := by
    have := @conflictIds_last json room s [] (newEntry first r)
      (by simpa [newEntry] using hspace) (by simp) hhint
    rwa [List.nil_append] at this
  have hreplaces : s.replaces (roomyEnv json room).toSaveEnv [newEntry first r] = true := by
    rw [SaveRequest.replaces, hreplace, hconflict]
    rfl
  refine ⟨hload, ?_⟩
  obtain ⟨report, after, hsave, -, hids⟩ := @memorySave_of_entry _ _ second s (newEntry second s) hs
    (by rw [hload, hreplaces]; rfl)
  refine ⟨report, after, hsave, ?_⟩
  rw [hids, hload, SaveRequest.replacedIds, if_pos hreplaces, hconflict]

/-- The change of mind about the editor replaces the old entry. -/
theorem editor_replaced_exactly :
    ∃ json room report after,
      memorySave (roomyEnv json room).toSaveEnv emacsCall
        (storeStep (roomyEnv json room) none (.save vimCall)) = .ok (report, after) ∧
      ∀ e ∈ loadStoreEntries (roomyEnv json room).toStore (some .posInf)
          (storeStep (roomyEnv json room) none (.save vimCall)),
        e.id ∈ report.replacedIds ↔ e.memoryNamespace = emacsRequest.memoryNamespace ∧
          Conflicts Js.asciiRuntime emacsRequest.title emacsRequest.content e := by
  obtain ⟨json⟩ := Js.json_nonempty
  obtain ⟨hload, report, after, hsave, -⟩ := replacing_save (vimCall_request json _)
    (emacsCall_request json _) rfl le_rfl rfl rfl (by decide +kernel)
  refine ⟨json, _, report, after, hsave, (memorySave_replaces_iff _ _ _ _ _ _
    (emacsCall_request json _) rfl hsave).mpr ?_⟩
  have hscoped : inNamespace emacsRequest.memoryNamespace [newEntry vimCall vimRequest] =
      [newEntry vimCall vimRequest] := rfl
  rw [hload, hscoped]
  have hconflicts : Conflicts Js.asciiRuntime emacsRequest.title emacsRequest.content
      (newEntry vimCall vimRequest) := by decide +kernel
  refine ⟨(List.length_filter_le _ _).trans (by decide), fun x hx hs => ?_⟩
  rw [List.mem_singleton.mp hx] at hs
  exact (hs.2.1 hconflicts.2).elim

theorem replace_deletes_unrelated :
    ∃ json room report after,
      memorySave (roomyEnv json room).toSaveEnv teaCall
        (storeStep (roomyEnv json room) none (.save addressCall)) = .ok (report, after) ∧
      ¬ ∀ e ∈ loadStoreEntries (roomyEnv json room).toStore (some .posInf)
          (storeStep (roomyEnv json room) none (.save addressCall)),
        e.id ∈ report.replacedIds ↔ e.memoryNamespace = teaRequest.memoryNamespace ∧
          Conflicts Js.asciiRuntime teaRequest.title teaRequest.content e := by
  obtain ⟨json⟩ := Js.json_nonempty
  obtain ⟨hload, report, after, hsave, hids⟩ := replacing_save (addressCall_request json _)
    (teaCall_request json _) rfl le_rfl rfl rfl (by decide +kernel)
  refine ⟨json, _, report, after, hsave, fun hexact => ?_⟩
  rw [hload, hids] at hexact
  have hnot : ¬ Conflicts Js.asciiRuntime teaRequest.title teaRequest.content
      (newEntry addressCall addressRequest) := by decide +kernel
  exact hnot ((hexact _ (List.mem_singleton_self _)).mp (List.mem_singleton_self _)).2

end Example

end T560.Memory

