import T560.Memory.Append
import T560.Memory.Save

/-!
# What a save does to the log

A save appends tombstones for the replaced entries, its entry and tombstones for the evicted
entries. The entry it appends is normalized, so it is read back as it was written.
-/

namespace T560.Memory

open Js (Value Runtime trim exists_of_bind_ok)
open Js.Value (trim_of_trimmedText)
open ReplayLog

section Request
variable {env : SaveEnv}

/-- A text that lacks the characters of every pattern holds no secret. -/
theorem containsLikelySecret_of_not_spelled {source : String}
    (h : (secretNamePattern :: secretPatterns).all (fun r => !r.spelled source.toList) = true) :
    containsLikelySecret source = false := by
  have hnone : ∀ r ∈ secretNamePattern :: secretPatterns, r.test source = false := by
    intro r hr
    exact Foundation.Pattern.test_of_not_spelled (by simpa using List.all_eq_true.mp h r hr)
  have hname := hnone _ List.mem_cons_self
  have hpatterns : secretPatterns.any (·.test source) = false :=
    List.any_eq_false.mpr fun r hr => Bool.eq_false_iff.mp (hnone r (List.mem_cons_of_mem _ hr))
  rw [containsLikelySecret, hpatterns, hname]
  simp

/-- What the checks of the tool leave of a request. -/
structure SaveRequest.Sound (rt : Runtime) (r : SaveRequest) : Prop where
  title : Trimmed r.title
  content : Trimmed r.content
  tags : Tags rt r.tags
  importance : 1 ≤ r.importance ∧ r.importance ≤ 5
  confidence : MIN_CONFIDENCE ≤ r.confidence ∧ r.confidence ≤ 1
  source : isSlug 2 32 r.source = true
  memoryNamespace : isSlug 1 64 r.memoryNamespace = true

theorem readRequest_fields {params : Value} {r : SaveRequest} {strategy : Option ConflictStrategy}
    (h : readRequest env params = .ok (r, strategy)) :
    trim r.title = r.title ∧ trim r.content = r.content ∧ Tags env.rt r.tags ∧
      (1 ≤ r.importance ∧ r.importance ≤ 5) ∧
      (MIN_CONFIDENCE ≤ r.confidence ∧ r.confidence ≤ 1) ∧ isSlug 2 32 r.source = true ∧
      isSlug 1 64 r.memoryNamespace = true := by
  unfold readRequest at h
  obtain ⟨title, htitle, h⟩ := exists_of_bind_ok h
  obtain ⟨content, hcontent, h⟩ := exists_of_bind_ok h
  obtain ⟨tags, htags, h⟩ := exists_of_bind_ok h
  obtain ⟨importance, himportance, h⟩ := exists_of_bind_ok h
  obtain ⟨confidence, hconfidence, h⟩ := exists_of_bind_ok h
  obtain ⟨source, hsource, h⟩ := exists_of_bind_ok h
  obtain ⟨space, hspace, h⟩ := exists_of_bind_ok h
  obtain ⟨tier, -, h⟩ := exists_of_bind_ok h
  obtain ⟨strategyText, -, h⟩ := exists_of_bind_ok h
  cases h
  refine ⟨trim_of_trimmedText htitle, trim_of_trimmedText hcontent, normalizeTags_tags htags,
    clampInt_bounds (by decide) (by decide) himportance, ?_,
    normalizeSlug_isSlug (by decide) hsource, normalizeSlug_isSlug env.defaultNamespace_slug hspace⟩
  exact clampNumber_bounds (by norm_num [MIN_CONFIDENCE, DEFAULT_CONFIDENCE])
    (by norm_num [DEFAULT_CONFIDENCE]) hconfidence

theorem checkRequest_sound {params : Value} {r : SaveRequest}
    (h : checkRequest env params = .ok r) : r.Sound env.rt := by
  unfold checkRequest at h
  split at h
  · cases h
  · rename_i request strategy hread
    obtain ⟨htitle, hcontent, htags, himportance, hconfidence, hsource, hspace⟩ :=
      readRequest_fields hread
    split at h
    · cases h
    · rename_i hne
      split at h
      · cases h
      · rename_i hne'
        split at h
        · cases h
        · split at h
          · cases h
          · cases h
            exact ⟨⟨htitle, hne⟩, ⟨hcontent, hne'⟩, htags, himportance, hconfidence, hsource, hspace⟩

end Request

section Entry
variable {env : SaveEnv}

/-- A text that starts and ends with texts without white space at their ends. -/
theorem trimmed_around {first last : String} (hfirst : Trimmed first) (hlast : Trimmed last)
    (middle : String) : Trimmed (first ++ middle ++ last) := by
  have hf : first.toList ≠ [] := fun h => hfirst.2 (String.toList_inj.mp h)
  have hl : last.toList ≠ [] := fun h => hlast.2 (String.toList_inj.mp h)
  have htrim : ∀ {s : String}, Trimmed s → Js.trimChars s.toList = s.toList := by
    intro s hs
    rw [← Js.toList_trim, hs.1]
  refine ⟨?_, fun h => hf ?_⟩
  · rw [trim, Js.trimChars_eq_self, String.ofList_toList]
    · intro c hc
      rw [String.toList_append, String.toList_append, List.append_assoc,
        List.head?_append_of_ne_nil _ hf, ← htrim hfirst] at hc
      exact Js.head?_trimChars hc
    · intro c hc
      rw [String.toList_append, List.getLast?_append_of_ne_nil _ hl, ← htrim hlast] at hc
      exact Js.getLast?_trimChars hc
  · have := congrArg String.toList h
    simp only [String.toList_append, String.toList_empty, List.append_eq_nil_iff] at this
    exact this.1.1

theorem mergeMemoryContent_trimmed (today : String) {existing incoming : String}
    (he : Trimmed existing) (hi : Trimmed incoming) :
    Trimmed (mergeMemoryContent today existing incoming) := by
  unfold mergeMemoryContent
  simp only [he.1, hi.1, he.2, hi.2, if_false]
  split_ifs
  · exact he
  · exact hi
  · exact he
  · have := trimmed_around he hi ("\n\nUpdate (" ++ today ++ "): ")
    simpa only [String.append_assoc] using this

theorem newEntry_normalized {call : SaveCall} {r : SaveRequest} (h : r.Sound env.rt) :
    Normalized env.rt (newEntry call r) where
  id := call.uuid_trimmed
  title := h.title
  content := h.content
  createdAt := call.now_trimmed
  updatedAt := call.now_trimmed
  lastAccessedAt := call.now_trimmed
  reinforceCount := by simp [newEntry]
  tags := h.tags.isTag
  tags_nodup := h.tags.nodup
  tags_length := h.tags.length
  importance := h.importance
  confidence := h.confidence
  source := h.source
  memoryNamespace := h.memoryNamespace

theorem updatedEntry_normalized {call : SaveCall} {r : SaveRequest} (h : r.Sound env.rt)
    {existing e : MemoryStoreEntry} (hx : Normalized env.rt existing)
    (he : updatedEntry env call r existing = .ok e) : Normalized env.rt e := by
  obtain ⟨tags, htags, he⟩ := exists_of_bind_ok he
  cases he
  have htags := normalizeTags_tags htags
  have hx1 := hx.importance
  have hr1 := h.importance
  refine {
    id := hx.id
    title := h.title
    content := ?_
    createdAt := hx.createdAt
    updatedAt := call.now_trimmed
    lastAccessedAt := hx.lastAccessedAt
    reinforceCount := hx.reinforceCount
    tags := htags.isTag
    tags_nodup := htags.nodup
    tags_length := htags.length
    importance := ?_
    confidence := ?_
    source := ?_
    memoryNamespace := hx.memoryNamespace }
  · dsimp only
    exact mergeMemoryContent_trimmed call.today hx.content h.content
  · dsimp only
    omega
  · exact ⟨le_max_left _ _, max_le (by norm_num [MIN_CONFIDENCE]) (min_le_left _ _)⟩
  · dsimp only
    split_ifs
    · exact hx.source
    · exact h.source

/-- The entry of a save: normalized, in the namespace of the request, and under the random id
or the id of the entry it updates. -/
theorem savedEntry_spec {call : SaveCall} {r : SaveRequest} (h : r.Sound env.rt) {replaces : Bool}
    {existing : Option MemoryStoreEntry} (hx : ∀ x ∈ existing, Normalized env.rt x)
    {e : MemoryStoreEntry} (he : savedEntry env call r replaces existing = .ok e) :
    Normalized env.rt e ∧ e.title = r.title ∧
      ((e.id = call.uuid ∧ e.memoryNamespace = r.memoryNamespace) ∨
        ∃ x ∈ existing, x.id = e.id ∧ e.memoryNamespace = x.memoryNamespace) := by
  unfold savedEntry at he
  split at he
  · rename_i x
    have hn := updatedEntry_normalized h (hx x rfl) he
    obtain ⟨tags, -, he⟩ := exists_of_bind_ok he
    cases he
    exact ⟨hn, rfl, Or.inr ⟨x, rfl, rfl, rfl⟩⟩
  · cases he
    exact ⟨newEntry_normalized h, rfl, Or.inl ⟨rfl, rfl⟩⟩

end Entry

section Picked
variable {rt : Runtime} {entries : List MemoryStoreEntry}

theorem foldl_bestMatch_mem {tokens : List String} {best : Option (MemoryStoreEntry × ℚ)}
    {x : MemoryStoreEntry × ℚ} (h : entries.foldl (bestMatch rt tokens) best = some x) :
    x.1 ∈ entries ∨ best = some x := by
  induction entries generalizing best with
  | nil => exact Or.inr h
  | cons entry entries ih =>
    rw [List.foldl_cons] at h
    rcases ih h with hmem | hbest
    · exact Or.inl (by simp [hmem])
    · unfold bestMatch at hbest
      dsimp only at hbest
      split at hbest
      · exact Or.inr hbest
      · split at hbest
        · cases hbest
          exact Or.inl (by simp)
        · split at hbest
          · cases hbest
            exact Or.inl (by simp)
          · exact Or.inr hbest

/-- The entry a save updates is one of the entries it chose among. -/
theorem pickStoreEntryForUpsert_mem {title content : String} {x : MemoryStoreEntry}
    (h : pickStoreEntryForUpsert rt entries title content = some x) : x ∈ entries := by
  unfold pickStoreEntryForUpsert at h
  dsimp only at h
  split at h
  · cases h
  · split at h
    · rename_i hfind
      cases h
      exact List.mem_of_find?_eq_some hfind
    · split at h
      · cases h
      · obtain ⟨y, hy, rfl⟩ := Option.map_eq_some_iff.mp h
        rcases foldl_bestMatch_mem hy with hmem | hnone
        · exact hmem
        · cases hnone

theorem pickStoreEntryForUpsert_nil (rt : Runtime) (title content : String) :
    pickStoreEntryForUpsert rt [] title content = none :=
  Option.eq_none_iff_forall_not_mem.mpr fun _ hx =>
    List.not_mem_nil (pickStoreEntryForUpsert_mem hx)

/-- Where an entry has the title of a save, the save updates one with that title. -/
theorem pickStoreEntryForUpsert_title {title : String} (content : String) {e : MemoryStoreEntry}
    (he : e ∈ entries) (hkey : normalizeTitleKey rt e.title = normalizeTitleKey rt title)
    (hne : normalizeTitleKey rt e.title ≠ "") :
    ∃ x ∈ entries, pickStoreEntryForUpsert rt entries title content = some x ∧
      normalizeTitleKey rt x.title = normalizeTitleKey rt title := by
  unfold pickStoreEntryForUpsert
  dsimp only
  rw [if_neg (hkey ▸ hne)]
  cases hfind : entries.find? fun entry =>
      normalizeTitleKey rt entry.title = normalizeTitleKey rt title with
  | none =>
    have hno := List.find?_eq_none.mp hfind e he
    exact absurd (decide_eq_true hkey) hno
  | some x =>
    have hx := List.find?_some hfind
    exact ⟨x, List.mem_of_find?_eq_some hfind, rfl, of_decide_eq_true hx⟩

/-- Every reported contradiction is with an entry it was looked for in. -/
theorem findPotentialConflicts_mem {toFixed3 : ℚ → ℚ} {title content : String}
    {hint : MemoryConflictHint}
    (h : hint ∈ findPotentialConflicts rt toFixed3 entries title content) :
    ∃ e ∈ entries, e.id = hint.id := by
  have hmem := List.mem_mergeSort.mp (List.mem_of_mem_take h)
  obtain ⟨e, he, hhint⟩ := List.mem_filterMap.mp hmem
  unfold conflictHint at hhint
  dsimp only at hhint
  split at hhint
  · cases hhint
  · obtain ⟨reason, -, rfl⟩ := Option.map_eq_some_iff.mp hhint
    exact ⟨e, he, rfl⟩

end Picked

section Save
variable {env : SaveEnv} {call : SaveCall} {file after : Option String} {report : SaveReport}

/-- The entries alive when the quota is looked at: what the tombstones left, and the entry. -/
def beforeQuota (report : SaveReport) (entries : List MemoryStoreEntry) : List MemoryStoreEntry :=
  entries.filter (fun e => e.id ∉ report.replacedIds ∧ e.id ≠ report.entry.id) ++ [report.entry]

/-- The file the quota is looked at in: the replaced entries are deleted, the entry is appended. -/
def writtenFile (env : SaveEnv) (call : SaveCall) (report : SaveReport) (file : Option String) :
    Option String :=
  appendStoreEntry env.toWriteEnv (appendStoreDeleteMarkers env.toWriteEnv file
    (replaceMarkers call report.entry.title report.replacedIds)) report.entry

/-- What a successful save says about itself and leaves in the file. -/
structure Saved (env : SaveEnv) (call : SaveCall) (file after : Option String)
    (report : SaveReport) : Prop where
  normalized : Normalized env.rt report.entry
  entryId : report.entry.id = call.uuid ∨ ∃ x ∈ loadStoreEntries env.toStore (some .posInf) file,
    x.id = report.entry.id ∧ x.memoryNamespace = report.entry.memoryNamespace
  replaced : ∀ id ∈ report.replacedIds, ∃ x ∈ loadStoreEntries env.toStore (some .posInf) file,
    x.id = id ∧ x.memoryNamespace = report.entry.memoryNamespace
  file_eq : after = appendStoreDeleteMarkers env.toWriteEnv (writtenFile env call report file)
    (report.evictedIds.map fun id => ⟨id, call.evictedAt, some ("Namespace quota eviction (" ++
      policyText env report.entry.memoryNamespace ++ ")")⟩)
  evicted : report.evictedIds = (evictedEntries env report.entry.memoryNamespace [report.entry.id]
    (writtenFile env call report file)).map (·.id)

theorem mem_inNamespace {memoryNamespace : String} {entries : List MemoryStoreEntry}
    {e : MemoryStoreEntry} : e ∈ inNamespace memoryNamespace entries ↔
      e ∈ entries ∧ e.memoryNamespace = memoryNamespace := by
  simp [inNamespace]

/-- The entry a save updates was loaded, in the namespace of the request. -/
theorem picked_loaded {memoryNamespace title content : String} {x : MemoryStoreEntry}
    (h : x ∈ pickStoreEntryForUpsert env.rt (inNamespace memoryNamespace
      (loadStoreEntries env.toStore (some .posInf) file)) title content) :
    x ∈ loadStoreEntries env.toStore (some .posInf) file ∧ x.memoryNamespace = memoryNamespace :=
  mem_inNamespace.mp (pickStoreEntryForUpsert_mem h)

/-- So were the entries it replaces. -/
theorem conflict_loaded {memoryNamespace title content id : String} {replaces : Bool}
    (h : id ∈ if replaces then ((findPotentialConflicts env.rt env.toFixed3
      (inNamespace memoryNamespace (loadStoreEntries env.toStore (some .posInf) file)) title
      content).map (·.id)).dedup else []) :
    ∃ e ∈ loadStoreEntries env.toStore (some .posInf) file,
      e.id = id ∧ e.memoryNamespace = memoryNamespace := by
  split at h
  · obtain ⟨hint, hhint, rfl⟩ := List.mem_map.mp (List.mem_dedup.mp h)
    obtain ⟨e, he, hid⟩ := findPotentialConflicts_mem hhint
    obtain ⟨hload, hspace⟩ := mem_inNamespace.mp he
    exact ⟨e, hload, hid, hspace⟩
  · cases h

theorem performSave_saved {request : SaveRequest} (hr : request.Sound env.rt)
    (h : performSave env call request file = .ok (report, after)) :
    Saved env call file after report := by
  unfold performSave at h
  dsimp only at h
  split at h
  · cases h
  · rename_i entry hentry
    obtain ⟨hnorm, htitle, hid⟩ := savedEntry_spec hr
      (fun x hx => loaded_normalized file x (picked_loaded hx).1) hentry
    have hspace : entry.memoryNamespace = request.memoryNamespace := by
      rcases hid with ⟨-, hspace⟩ | ⟨x, hx, -, hspace⟩
      · exact hspace
      · rw [hspace, (picked_loaded hx).2]
    cases h
    refine ⟨hnorm, ?_, ?_, by rw [writtenFile, htitle]; rfl, by rw [writtenFile, htitle]; rfl⟩
    · rcases hid with ⟨hid, -⟩ | ⟨x, hx, hid, hsame⟩
      · exact Or.inl hid
      · exact Or.inr ⟨x, (picked_loaded hx).1, hid, hsame.symm⟩
    · intro id hid
      obtain ⟨e, hload, heid, hns⟩ := conflict_loaded hid
      exact ⟨e, hload, heid, hns.trans hspace.symm⟩

theorem memorySave_saved (h : memorySave env call file = .ok (report, after)) :
    Saved env call file after report := by
  unfold memorySave at h
  split at h
  · cases h
  · rename_i request hrequest
    exact performSave_saved (checkRequest_sound hrequest) h

/-- A save that matches no entry succeeds with a new one. -/
theorem performSave_new {request : SaveRequest}
    (h : pickStoreEntryForUpsert env.rt (inNamespace request.memoryNamespace
      (loadStoreEntries env.toStore (some .posInf) file)) request.title request.content = none) :
    ∃ report after, performSave env call request file = .ok (report, after) ∧
      report.entry = newEntry call request ∧
      (request.onConflict = .upsert → report.replacedIds = []) := by
  have hnew : ∀ replaces, savedEntry env call request replaces none =
      .ok (newEntry call request) := by
    intro replaces
    cases replaces <;> rfl
  unfold performSave
  simp only [h, hnew]
  refine ⟨_, _, rfl, rfl, fun hupsert => ?_⟩
  simp [hupsert]

theorem memorySave_new {request : SaveRequest} (hr : checkRequest env call.params = .ok request)
    (h : pickStoreEntryForUpsert env.rt (inNamespace request.memoryNamespace
      (loadStoreEntries env.toStore (some .posInf) file)) request.title request.content = none) :
    ∃ report after, memorySave env call file = .ok (report, after) ∧
      report.entry = newEntry call request ∧
      (request.onConflict = .upsert → report.replacedIds = []) := by
  obtain ⟨report, after, hsave, hspec⟩ := performSave_new h
  exact ⟨report, after, by rw [memorySave, hr]; exact hsave, hspec⟩

/-- Ids of loaded entries make sound tombstones. -/
theorem sound_markers {ids : List String} {entries : List MemoryStoreEntry} {at_ reason : String}
    (hn : ∀ e ∈ entries, Normalized env.rt e) (hids : ∀ id ∈ ids, ∃ e ∈ entries, e.id = id)
    (hat : Trimmed at_) :
    ∀ m ∈ ids.map fun id => (⟨id, at_, some reason⟩ : MemoryStoreDeleteMarker), m.Sound := by
  intro m hm
  obtain ⟨id, hid, rfl⟩ := List.mem_map.mp hm
  obtain ⟨e, he, rfl⟩ := hids id hid
  exact ⟨(hn e he).id, hat⟩

end Save

/-! ## Texts of fixed saves -/

theorem newYear_trimmed : Trimmed "2026-01-01T00:00:00.000Z" := by decide

theorem afterNewYear_trimmed : Trimmed "2026-01-01T00:00:00.001Z" := by decide

theorem global_slug : isSlug 1 64 "global" = true := by decide

end T560.Memory
