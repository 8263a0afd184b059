import T560.Foundation.Suffix
import T560.Memory.Calls

/-!
# Reads of one namespace

A list loads the whole log before it keeps the entries of its scope, so it shows the same of two
logs with the same entries in the scope. A search loads only the newest entries of all namespaces:
entries of other namespaces can push an entry of the scope out of what it loads.
-/

namespace T560.Memory

open Js (Value Runtime exists_of_bind_ok)
open ReplayLog

variable (env : ReadEnv)

/-- The live entries of the scope. -/
def scopedEntries (scope : MemoryScope) (file : Option String) : List MemoryStoreEntry :=
  (loadStoreEntries env.toStore (some .posInf) file).filter (entryMatchesScope · scope)

/-- How many live entries of all namespaces stand behind the entry. -/
def newerEntries (file : Option String) (e : MemoryStoreEntry) : Nat :=
  (loadStoreEntries env.toStore (some .posInf) file).reverse.idxOf e

/-- The results of a list, and their number before the limit; or its error. -/
def listResults (params : Value) (file : Option String) : Except SaveError (Nat × List ListRow) :=
  (memoryList env params file).map fun report => (report.total, report.results)

/-- The hits of a search in the store, or its error. -/
def searchHits (now : Int) (params : Value) (file : Option String) :
    Except SaveError (List StoreSearchHit) :=
  (readSearch env params).map fun r => (r.storeHits env now file).1

variable {env} {scope : MemoryScope} {file file' : Option String}

section List

theorem readList_scope {params : Value} {r : ListRequest} {order : Option ListOrder}
    (h : readList env params = .ok (r, order)) :
    resolveScope env.toToolEnv params = .ok r.scope := by
  obtain ⟨query, -, h⟩ := exists_of_bind_ok h
  obtain ⟨tags, -, h⟩ := exists_of_bind_ok h
  obtain ⟨limit, -, h⟩ := exists_of_bind_ok h
  obtain ⟨importance, -, h⟩ := exists_of_bind_ok h
  obtain ⟨source, -, h⟩ := exists_of_bind_ok h
  obtain ⟨scope, hscope, h⟩ := exists_of_bind_ok h
  obtain ⟨maxContentChars, -, h⟩ := exists_of_bind_ok h
  obtain ⟨orderText, -, h⟩ := exists_of_bind_ok h
  cases h
  exact hscope

/-- A list depends on the log only through the entries of its scope. -/
theorem listResults_scoped {params : Value} (h : resolveScope env.toToolEnv params = .ok scope)
    (hscoped : scopedEntries env scope file = scopedEntries env scope file') :
    listResults env params file = listResults env params file' := by
  unfold listResults memoryList
  cases hread : readList env params with
  | error e => rfl
  | ok request =>
    obtain ⟨r, order⟩ := request
    cases order with
    | none => rfl
    | some order =>
      obtain rfl := Except.ok.inj (h.symm.trans (readList_scope hread))
      have hfilter : ∀ file, (loadStoreEntries env.toStore (some .posInf) file).filter (fun entry =>
          entryMatchesScope entry r.scope && ({ r with order } : ListRequest).keeps env entry) =
            (scopedEntries env r.scope file).filter (({ r with order } : ListRequest).keeps env) := by
        intro file
        rw [scopedEntries, List.filter_filter]
        apply List.filter_congr
        intro entry _
        rw [Bool.and_comm]
      simp only [Except.map, hfilter, hscoped]

end List

section Search

theorem readSearch_scope {params : Value} {r : SearchRequest}
    (h : readSearch env params = .ok r) : resolveScope env.toToolEnv params = .ok r.scope := by
  unfold readSearch at h
  cases hquery : loweredText env.rt (params.get? "query") with
  | error e =>
    rw [hquery] at h
    cases h
  | ok query =>
    rw [hquery] at h
    dsimp only at h
    split at h
    · cases h
    · cases hlimit : clampInt env.rt (params.get? "limit") 1 20 DEFAULT_SEARCH_LIMIT with
      | error e =>
        rw [hlimit] at h
        cases h
      | ok limit =>
        cases hscope : resolveScope env.toToolEnv params with
        | error e =>
          rw [hlimit, hscope] at h
          cases h
        | ok scope =>
          rw [hlimit, hscope] at h
          cases h
          rfl

theorem loaded_nodup (file : Option String) :
    (loadStoreEntries env.toStore (some .posInf) file).Nodup :=
  (loaded_ids_nodup env.toStore file).of_map

/-- A search loads the newest entries. -/
theorem loadStoreEntries_search (file : Option String) :
    loadStoreEntries env.toStore none file =
      (loadStoreEntries env.toStore (some .posInf) file).rtake MAX_STORE_SCAN := by
  rw [loadStoreEntries_live]
  exact loadStoreEntries_limit rfl (by decide) file

/-- A store of one entry. -/
theorem loadStoreEntries_one {e : MemoryStoreEntry} (h : Normalized env.rt e) :
    loadStoreEntries env.toStore none (appendStoreEntry env.toWriteEnv none e) = [e] := by
  have hlog : storeLog env.toStore (appendStoreEntry env.toWriteEnv none e) = [.put e] :=
    (@appendStoreEntry_log env.toWriteEnv none (fun raw hraw => by cases hraw) e h).1
  rw [loadStoreEntries_search, loadStoreEntries_live, hlog, ReplayLog.live_single]
  simp [ReplayLog.Record.value?, List.rtake, MAX_STORE_SCAN]

/-- The hits of a search: the matching entries of its scope that are among the newest. -/
theorem storeHits_eq {r : SearchRequest} (hr : r.includeStore = true) (now : Int)
    (file : Option String) :
    (r.storeHits env now file).1 = (((scopedEntries env r.scope file).filter (r.finds env)).filter
      (newerEntries env file · < MAX_STORE_SCAN)).map (r.hit env now) := by
  unfold SearchRequest.storeHits SearchRequest.searchStoreEntries
  rw [if_pos hr]
  dsimp only
  have hboth : (scopedEntries env r.scope file).filter (r.finds env) =
      (loadStoreEntries env.toStore (some .posInf) file).filter fun e =>
        r.finds env e && entryMatchesScope e r.scope := List.filter_filter
  rw [loadStoreEntries_search, List.filter_filter, hboth, Suffix.filter_rtake (loaded_nodup file)]
  refine congrArg (List.map (r.hit env now)) (List.filter_congr fun e he => ?_)
  have hmem : e ∈ loadStoreEntries env.toStore (some .posInf) file := List.mem_of_mem_filter he
  rw [Bool.eq_iff_iff, decide_eq_true_iff, decide_eq_true_iff]
  exact Suffix.mem_rtake_iff hmem MAX_STORE_SCAN

/-- Hits of different entries of a log are different. -/
theorem hit_injective {r : SearchRequest} {now : Int} {e e' : MemoryStoreEntry}
    (he : e ∈ scopedEntries env scope file) (he' : e' ∈ scopedEntries env scope file)
    (h : r.hit env now e = r.hit env now e') : e = e' :=
  List.inj_on_of_nodup_map (loaded_ids_nodup env.toStore file) (List.mem_of_mem_filter he)
    (List.mem_of_mem_filter he') (congrArg StoreSearchHit.id h)

/-- With the same entries in the scope, the hits are the same exactly when every matching entry is
among the newest of both logs or of none. -/
theorem storeHits_eq_iff {r : SearchRequest} (hr : r.includeStore = true) (now : Int)
    (hscoped : scopedEntries env r.scope file = scopedEntries env r.scope file') :
    (r.storeHits env now file).1 = (r.storeHits env now file').1 ↔
      ∀ e ∈ scopedEntries env r.scope file, r.finds env e = true →
        (newerEntries env file e < MAX_STORE_SCAN ↔ newerEntries env file' e < MAX_STORE_SCAN) := by
  have hmember : ∀ (f f' : Option String), scopedEntries env r.scope f = scopedEntries env r.scope f' →
      (r.storeHits env now f).1 = (r.storeHits env now f').1 →
      ∀ e ∈ scopedEntries env r.scope f, r.finds env e = true →
        newerEntries env f e < MAX_STORE_SCAN → newerEntries env f' e < MAX_STORE_SCAN := by
    intro f f' hsame hhits e he hfinds hnew
    have hhit : r.hit env now e ∈ (r.storeHits env now f).1 := by
      rw [storeHits_eq hr]
      exact List.mem_map_of_mem (List.mem_filter.mpr
        ⟨List.mem_filter.mpr ⟨he, hfinds⟩, decide_eq_true hnew⟩)
    rw [hhits, storeHits_eq hr] at hhit
    obtain ⟨e', he', heq⟩ := List.mem_map.mp hhit
    obtain ⟨hfound, hnew'⟩ := List.mem_filter.mp he'
    have hsame' : e' = e :=
      hit_injective (List.mem_of_mem_filter hfound) (hsame ▸ he) heq
    exact hsame' ▸ of_decide_eq_true hnew'
  constructor
  · intro hhits e he hfinds
    exact ⟨hmember file file' hscoped hhits e he hfinds,
      hmember file' file hscoped.symm hhits.symm e (hscoped ▸ he) hfinds⟩
  · intro h
    rw [storeHits_eq hr, storeHits_eq hr, ← hscoped]
    refine congrArg (List.map (r.hit env now)) (List.filter_congr fun e he => ?_)
    obtain ⟨hmem, hfinds⟩ := List.mem_filter.mp he
    rw [Bool.eq_iff_iff, decide_eq_true_iff, decide_eq_true_iff]
    exact h e hmem hfinds

theorem searchHits_eq_iff {params : Value}
    (hsearch : resolveScope env.toToolEnv params = .ok scope) (now : Int)
    (hscoped : scopedEntries env scope file = scopedEntries env scope file') :
    searchHits env now params file = searchHits env now params file' ↔
      ∀ r, readSearch env params = .ok r → r.includeStore = true →
        ∀ e ∈ scopedEntries env scope file, r.finds env e = true →
          (newerEntries env file e < MAX_STORE_SCAN ↔
            newerEntries env file' e < MAX_STORE_SCAN) := by
  unfold searchHits
  cases hread : readSearch env params with
  | error e =>
    refine ⟨fun _ r hr => ?_, fun _ => rfl⟩
    cases hr
  | ok r =>
    obtain rfl := Except.ok.inj (hsearch.symm.trans (readSearch_scope hread))
    cases hstore : r.includeStore with
    | false =>
      have hnone : ∀ file, (r.storeHits env now file).1 = [] := by
        intro file
        rw [SearchRequest.storeHits, hstore]
        rfl
      refine ⟨fun _ r' hr' hstore' => ?_, fun _ => ?_⟩
      · obtain rfl := Except.ok.inj hr'
        rw [hstore] at hstore'
        cases hstore'
      · simp only [Except.map, hnone]
    | true =>
      have hiff := storeHits_eq_iff hstore now hscoped
      constructor
      · intro hhits r' hr' _
        obtain rfl := Except.ok.inj hr'
        exact hiff.mp (Except.ok.inj hhits)
      · intro h
        exact congrArg Except.ok (hiff.mpr (h r rfl hstore))

/-- What a search shows of the store are its hits there. -/
theorem memorySearch_results (documents : SearchRequest → List FileSearchHit × Nat) (now : Int)
    {params : Value} (h : searchHits env now params file = searchHits env now params file') :
    (memorySearch env documents now params file).map
        (fun report => (report.results, report.storeEntriesMatchedScope)) =
      (memorySearch env documents now params file').map
        fun report => (report.results, report.storeEntriesMatchedScope) := by
  unfold searchHits at h
  unfold memorySearch
  cases hread : readSearch env params with
  | error e => rfl
  | ok r =>
    rw [hread] at h
    have hhits : (r.storeHits env now file).1 = (r.storeHits env now file').1 := Except.ok.inj h
    simp only [Except.map, hhits]

end Search

/-- Two logs with the same live entries in a scope: lists and searches under it show the same
exactly when every entry of the scope that the search matches has fewer than `MAX_STORE_SCAN` live
entries of all namespaces behind it in both logs or in none. -/
theorem scoped_reads_same_iff (env : ReadEnv) (scope : MemoryScope) (file file' : Option String)
    (hscoped : scopedEntries env scope file = scopedEntries env scope file')
    (listParams searchParams : Value) (now : Int)
    (hlist : resolveScope env.toToolEnv listParams = .ok scope)
    (hsearch : resolveScope env.toToolEnv searchParams = .ok scope) :
    (listResults env listParams file = listResults env listParams file' ∧
        searchHits env now searchParams file = searchHits env now searchParams file') ↔
      ∀ r, readSearch env searchParams = .ok r → r.includeStore = true →
        ∀ e ∈ scopedEntries env scope file, r.finds env e = true →
          (newerEntries env file e < MAX_STORE_SCAN ↔
            newerEntries env file' e < MAX_STORE_SCAN) := by
  rw [← searchHits_eq_iff hsearch now hscoped]
  exact and_iff_right (listResults_scoped hlist hscoped)

section Example

/-- A file of normalized entries with different ids is loaded as it was written. -/
theorem loaded_fileText {env : WriteEnv} {entries : List MemoryStoreEntry}
    (hnorm : ∀ e ∈ entries, Normalized env.rt e) (hids : (entries.map (·.id)).Nodup) :
    loadStoreEntries env.toStore (some .posInf)
      (some (fileText (entries.map (entryLine env)))) = entries := by
  rw [loadStoreEntries_live, storeLog_entries hnorm, live_puts hids]

/-- A note of the global namespace. -/
def inkNote : MemoryStoreEntry where
  id := "00000000-0000-4000-8000-00000000000a"
  title := "Ink"
  content := "Blue"
  tags := []
  createdAt := newYear
  updatedAt := newYear
  lastAccessedAt := newYear
  reinforceCount := 0
  importance := 3
  confidence := 1
  source := "user"
  memoryNamespace := "global"
  trustTier := .verified

theorem inkNote_normalized (rt : Runtime) : Normalized rt inkNote where
  id := by decide
  title := by decide
  content := by decide
  createdAt := by decide
  updatedAt := by decide
  lastAccessedAt := by decide
  reinforceCount := by decide
  tags := by simp [inkNote]
  tags_nodup := by decide
  tags_length := by decide
  importance := by decide
  confidence := ⟨by norm_num [MIN_CONFIDENCE, inkNote], le_rfl⟩
  source := by decide
  memoryNamespace := by decide

/-- An entry of another namespace, under an id of its own. -/
def workNote (i : Nat) : MemoryStoreEntry :=
  { inkNote with id := String.ofList (List.replicate (i + 1) 'x'), memoryNamespace := "work" }

theorem workNote_normalized (rt : Runtime) (i : Nat) : Normalized rt (workNote i) where
  id := by
    refine ⟨Js.trim_eq_self_of_noSpace fun c hc => ?_, fun h => ?_⟩
    · rw [workNote, String.toList_ofList] at hc
      rw [List.eq_of_mem_replicate hc]
      decide
    · have hlength := congrArg (fun s => s.toList.length) h
      simp [workNote] at hlength
  title := (inkNote_normalized rt).title
  content := (inkNote_normalized rt).content
  createdAt := (inkNote_normalized rt).createdAt
  updatedAt := (inkNote_normalized rt).updatedAt
  lastAccessedAt := (inkNote_normalized rt).lastAccessedAt
  reinforceCount := (inkNote_normalized rt).reinforceCount
  tags := (inkNote_normalized rt).tags
  tags_nodup := (inkNote_normalized rt).tags_nodup
  tags_length := (inkNote_normalized rt).tags_length
  importance := (inkNote_normalized rt).importance
  confidence := (inkNote_normalized rt).confidence
  source := (inkNote_normalized rt).source
  memoryNamespace := by
    change isSlug 1 64 "work" = true
    decide

/-- The note, with entries of the other namespace behind it. -/
def notes (count : Nat) : List MemoryStoreEntry := inkNote :: (List.range count).map workNote

def notesFile (json : Js.Json) (count : Nat) : Option String :=
  some (fileText ((notes count).map (entryLine (roomyEnv json 0).toWriteEnv)))

theorem loaded_notes (json : Js.Json) (count : Nat) :
    loadStoreEntries (roomyEnv json 0).toStore (some .posInf) (notesFile json count) =
      notes count := by
  refine loaded_fileText (fun e he => ?_) ?_
  · rcases List.mem_cons.mp he with rfl | he
    · exact inkNote_normalized _
    · obtain ⟨i, -, rfl⟩ := List.mem_map.mp he
      exact workNote_normalized _ i
  · rw [notes, List.map_cons, List.map_map, List.nodup_cons]
    constructor
    · intro hmem
      obtain ⟨i, -, hid⟩ := List.mem_map.mp hmem
      have hhead := congrArg (fun s => s.toList.head?) hid
      revert hhead
      simp [workNote, inkNote, List.replicate_succ]
    · refine List.nodup_range.map fun i j hij => ?_
      have hlength := congrArg (fun s => s.toList.length) hij
      simpa [workNote] using hlength

def globalScope : MemoryScope := ⟨"global", .unverified⟩

theorem scoped_notes (json : Js.Json) (count : Nat) :
    scopedEntries (roomyEnv json 0) globalScope (notesFile json count) = [inkNote] := by
  have hothers : ((List.range count).map workNote).filter (entryMatchesScope · globalScope) = [] := by
    refine List.filter_eq_nil_iff.mpr fun e he => ?_
    obtain ⟨i, -, rfl⟩ := List.mem_map.mp he
    simp [entryMatchesScope, workNote, globalScope]
  rw [scopedEntries, loaded_notes, notes, List.filter_cons_of_pos (by decide), hothers]

theorem newer_notes (json : Js.Json) (count : Nat) :
    newerEntries (roomyEnv json 0) (notesFile json count) inkNote = count := by
  have hothers : inkNote ∉ ((List.range count).map workNote).reverse := by
    intro hmem
    obtain ⟨i, -, hi⟩ := List.mem_map.mp (List.mem_reverse.mp hmem)
    have hspace : "work" = "global" := congrArg MemoryStoreEntry.memoryNamespace hi
    exact absurd hspace (by decide)
  rw [newerEntries, loaded_notes, notes, List.reverse_cons, List.idxOf_append_of_notMem hothers]
  simp

def inkSearch : Value := .obj [("query", .str "ink")]

def inkRequest : SearchRequest := ⟨"ink", 8, true, true, true, globalScope⟩

theorem inkSearch_read (json : Js.Json) :
    readSearch (roomyEnv json 0) inkSearch = .ok inkRequest := rfl

theorem inkRequest_finds (json : Js.Json) : inkRequest.finds (roomyEnv json 0) inkNote = true := by
  have hscore : 0 < computeScore Js.asciiRuntime (haystack inkNote) "ink"
      (tokenizeQuery Js.asciiRuntime "ink") := by
    decide +kernel
  exact decide_eq_true hscore

/-- Entries of another namespace do not show as long as they are few. -/
theorem scoped_reads_same_few :
    ∃ json, scopedEntries (roomyEnv json 0) globalScope (notesFile json 0) =
        scopedEntries (roomyEnv json 0) globalScope (notesFile json 3) ∧
      listResults (roomyEnv json 0) (.obj []) (notesFile json 0) =
        listResults (roomyEnv json 0) (.obj []) (notesFile json 3) ∧
      searchHits (roomyEnv json 0) 1767225600000 inkSearch (notesFile json 0) =
        searchHits (roomyEnv json 0) 1767225600000 inkSearch (notesFile json 3) := by
  obtain ⟨json⟩ := Js.json_nonempty
  have hscoped := (scoped_notes json 0).trans (scoped_notes json 3).symm
  refine ⟨json, hscoped, (scoped_reads_same_iff (roomyEnv json 0) globalScope _ _ hscoped (.obj [])
    inkSearch 1767225600000 rfl rfl).mpr ?_⟩
  intro r _ _ e he _
  rw [scoped_notes] at he
  obtain rfl := List.mem_singleton.mp he
  rw [newer_notes, newer_notes]
  decide

/-- Behind enough entries of another namespace the search does not find the note any more. -/
theorem search_misses_scoped_entry :
    ∃ json, scopedEntries (roomyEnv json 0) globalScope (notesFile json 0) =
        scopedEntries (roomyEnv json 0) globalScope (notesFile json MAX_STORE_SCAN) ∧
      resolveScope (roomyEnv json 0).toToolEnv inkSearch = .ok globalScope ∧
      searchHits (roomyEnv json 0) 1767225600000 inkSearch (notesFile json 0) ≠
        searchHits (roomyEnv json 0) 1767225600000 inkSearch (notesFile json MAX_STORE_SCAN) := by
  obtain ⟨json⟩ := Js.json_nonempty
  have hscoped := (scoped_notes json 0).trans (scoped_notes json MAX_STORE_SCAN).symm
  refine ⟨json, hscoped, rfl, fun hhits => ?_⟩
  have hiff := (searchHits_eq_iff rfl 1767225600000 hscoped).mp hhits inkRequest
    (inkSearch_read json) rfl inkNote (by rw [scoped_notes]; simp) (inkRequest_finds json)
  rw [newer_notes, newer_notes] at hiff
  exact absurd (hiff.mp (by decide)) (Nat.lt_irrefl _)

end Example

end T560.Memory
