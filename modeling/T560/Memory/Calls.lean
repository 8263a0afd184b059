import Mathlib.Algebra.Order.BigOperators.Group.List
import T560.Memory.CompactRuns
import T560.Memory.Reads

/-!
# One call after the other

The calls that change the store, each with the file to itself. What a call does to the loaded
entries is said once: it takes some out, writes one back under the same text, or saves one.
-/

namespace T560.Memory

open Js (Value JsError)
open Js.Value (trimmedText)
open ReplayLog

section Prune

structure PruneCall where
  params : Value
  nowMillis : Int
  deletedAt : String
  deletedAt_trimmed : Trimmed deletedAt

structure PruneRequest where
  maxEntries : Option Int
  olderThanDays : Option Int
  dryRun : Bool
  reason : String
  scope : MemoryScope

structure PruneReport where
  request : PruneRequest
  scanned : Nat
  kept : Nat
  pruned : Nat
  wouldPrune : Nat
  samples : List MemoryStoreEntry

variable (env : ReadEnv)

/-- A criterion that is given as a finite number. -/
def pruneCriterion (value : Option Value) (max_ fallback : Int) : Except JsError (Option Int) := do
  match ← Value.number env.rt value with
  | .fin _ => return some (← clampInt env.rt value 1 max_ fallback)
  | _ => return none

/-- The criteria are looked at before the rest of the parameters. -/
def readPrune (params : Value) : Except SaveError PruneRequest :=
  let criteria : Except JsError (Option Int × Option Int) := do
    let maxEntries ← pruneCriterion env (params.get? "maxEntries") 10000 1000
    let olderThanDays ← pruneCriterion env (params.get? "olderThanDays") 3650 365
    return (maxEntries, olderThanDays)
  match criteria with
  | .error e => .error (.conversion e)
  | .ok (none, none) =>
    .error (.rejected "Provide at least one prune criterion: maxEntries or olderThanDays.")
  | .ok (maxEntries, olderThanDays) =>
    let rest : Except JsError PruneRequest := do
      let reason ← trimmedText env.rt [params.get? "reason"]
      let scope ← resolveScope env.toToolEnv params
      return {
        maxEntries, olderThanDays, scope
        dryRun := params.get? "dryRun" ≠ some (.bool false)
        reason := if reason = "" then "Pruned by retention policy" else reason }
    rest.mapError .conversion

/-- Beyond the count, or not updated for too long. -/
def PruneRequest.prunes (r : PruneRequest) (nowMillis : Int) (entry : MemoryStoreEntry)
    (idx : Nat) : Bool :=
  r.maxEntries.any (fun count => count ≤ (idx : Int)) || r.olderThanDays.any fun days =>
    0 < updatedMillis env.toSaveEnv entry &&
      updatedMillis env.toSaveEnv entry ≤ nowMillis - days * 86400000

def PruneRequest.sorted (r : PruneRequest) (file : Option String) : List MemoryStoreEntry :=
  ((loadStoreEntries env.toStore (some .posInf) file).filter (entryMatchesScope · r.scope)).mergeSort
    fun a b => ListOrder.before env a b .updatedDesc

def PruneRequest.candidates (r : PruneRequest) (nowMillis : Int) (file : Option String) :
    List MemoryStoreEntry :=
  (((r.sorted env file).zipIdx).filter fun x => r.prunes env nowMillis x.1 x.2).map Prod.fst

/-- `memory_prune`: its report and the file it leaves. -/
def memoryPrune (call : PruneCall) (file : Option String) :
    Except SaveError (PruneReport × Option String) :=
  match readPrune env call.params with
  | .error e => .error e
  | .ok r =>
    let candidates := r.candidates env call.nowMillis file
    .ok (
      { request := r
        scanned := (r.sorted env file).length
        kept := (r.sorted env file).length - candidates.length
        pruned := if r.dryRun then 0 else candidates.length
        wouldPrune := candidates.length
        samples := candidates.take 25 },
      if r.dryRun then file
      else appendStoreDeleteMarkers env.toWriteEnv file
        (candidates.map fun entry => ⟨entry.id, call.deletedAt, some r.reason⟩))

end Prune

section Calls

/-- The calls that may change the store. -/
inductive StoreCall where
  | save (call : SaveCall)
  | delete (call : DeleteCall)
  | feedback (call : FeedbackCall)
  | get (call : GetCall)
  | prune (call : PruneCall)
  | compact (dryRun : Bool)

/-- A call that fails leaves the file. -/
def fileAfter {α : Type} (file : Option String) :
    Except SaveError (α × Option String) → Option String
  | .error _ => file
  | .ok (_, after) => after

variable (env : ReadEnv)

def storeStep (file : Option String) : StoreCall → Option String
  | .save call => ((saveProgram env.toSaveEnv call).runAlone env.toWriteEnv file).2
  | .delete call => ((deleteProgram env.toToolEnv call).runAlone env.toWriteEnv file).2
  | .feedback call => ((feedbackProgram env.toToolEnv call).runAlone env.toWriteEnv file).2
  | .get call => fileAfter file (memoryGet env call file)
  | .prune call => fileAfter file (memoryPrune env call file)
  | .compact dryRun => (memoryCompact env.toWriteEnv dryRun file).1

end Calls

section Request
variable (env : SaveEnv) (r : SaveRequest) (entries : List MemoryStoreEntry)

/-- The entry a save updates, unless it replaces. -/
def SaveRequest.existing : Option MemoryStoreEntry :=
  pickStoreEntryForUpsert env.rt (inNamespace r.memoryNamespace entries) r.title r.content

def SaveRequest.conflictIds : List String :=
  ((findPotentialConflicts env.rt env.toFixed3 (inNamespace r.memoryNamespace entries) r.title
    r.content).map (·.id)).dedup

/-- The save replaces what it contradicts. -/
def SaveRequest.replaces : Bool := r.onConflict = .replace && !(r.conflictIds env entries).isEmpty

def SaveRequest.replacedIds : List String :=
  if r.replaces env entries then r.conflictIds env entries else []

end Request

/-- The same entry up to the times and counts of its use. -/
structure SameText (x y : MemoryStoreEntry) : Prop where
  id : y.id = x.id
  title : y.title = x.title
  content : y.content = x.content
  tags : y.tags = x.tags
  source : y.source = x.source
  memoryNamespace : y.memoryNamespace = x.memoryNamespace
  trustTier : y.trustTier = x.trustTier

/-- What a call makes of the loaded entries. -/
inductive StoreEffect (env : SaveEnv) (entries : List MemoryStoreEntry) :
    StoreCall → List MemoryStoreEntry → Prop
  | removes (call : StoreCall) (after : List MemoryStoreEntry) (h : after.Sublist entries) :
    StoreEffect env entries call after
  | touches (call : StoreCall) (x y : MemoryStoreEntry) (hx : x ∈ entries) (hy : SameText x y) :
    StoreEffect env entries call (entries.filter (·.id ≠ x.id) ++ [y])
  | saves (call : SaveCall) (r : SaveRequest) (entry : MemoryStoreEntry)
    (after : List MemoryStoreEntry) (hr : checkRequest env call.params = .ok r)
    (hentry : savedEntry env call r (r.replaces env entries) (r.existing env entries) = .ok entry)
    (hafter : after.Sublist (entries.filter (fun e => e.id ∉ r.replacedIds env entries ∧
      e.id ≠ entry.id) ++ [entry])) :
    StoreEffect env entries (.save call) after

section Lookup
variable {env : StoreEnv}

/-- A scope only drops what the search finds. -/
theorem searchLine_scope (targetId : String) (scope : MemoryScope) (line : String) :
    searchLine env targetId (some scope) line =
      (searchLine env targetId none line).map (Option.filter (entryMatchesScope · scope)) := by
  unfold searchLine
  dsimp only
  split
  · rfl
  · cases env.parse (Js.trim line) with
    | none => rfl
    | some parsed =>
      dsimp only
      cases parseStoreDeleteMarker env.rt parsed with
      | error e => rfl
      | ok deleted =>
        dsimp only
        split
        · rfl
        · cases parseStoreEntry env.rt parsed with
          | error e => rfl
          | ok entry =>
            cases entry with
            | none => rfl
            | some entry =>
              dsimp only
              by_cases hid : entry.id = targetId
              · by_cases hscope : entryMatchesScope entry scope = true <;>
                  simp [hid, hscope, Option.filter]
              · simp [hid]

theorem findStoreEntryById_scope (targetId : String) (scope : MemoryScope) (file : Option String) :
    findStoreEntryById env targetId (some scope) file =
      (findStoreEntryById env targetId none file).filter (entryMatchesScope · scope) := by
  cases file with
  | none => rfl
  | some raw =>
    rw [findStoreEntryById, findStoreEntryById]
    generalize (Js.normalizeLineBreaks raw).reverse = lines
    induction lines with
    | nil => rfl
    | cons line rest ih =>
      rw [searchLines, searchLines, searchLine_scope]
      cases searchLine env targetId none line with
      | none => exact ih
      | some result => rfl

/-- What the search finds is loaded, and in the scope. -/
theorem findStoreEntryById_loaded {targetId : String} {scope : MemoryScope} {file : Option String}
    {e : MemoryStoreEntry} (h : findStoreEntryById env targetId (some scope) file = some e) :
    e ∈ loadStoreEntries env (some .posInf) file ∧ entryMatchesScope e scope = true := by
  rw [findStoreEntryById_scope] at h
  obtain ⟨hfound, hscope⟩ := Option.filter_eq_some_iff.mp h
  rw [findStoreEntryById_replay, ← find?_live, ← loadStoreEntries_live] at hfound
  exact ⟨List.mem_of_find?_eq_some hfound, hscope⟩

end Lookup

section Effects
variable {env : SaveEnv} {file : Option String} {call : StoreCall}

/-- The call leaves the lines of the file ended, and has its effect on the entries. -/
def Steps (env : SaveEnv) (file : Option String) (call : StoreCall) (after : Option String) : Prop :=
  LineEnded after ∧ StoreEffect env (loadStoreEntries env.toStore (some .posInf) file) call
    (loadStoreEntries env.toStore (some .posInf) after)

theorem steps_same (hfile : LineEnded file) : Steps env file call file :=
  ⟨hfile, .removes call _ (List.Sublist.refl _)⟩

theorem steps_markers (hfile : LineEnded file) {markers : List MemoryStoreDeleteMarker}
    (h : ∀ m ∈ markers, m.Sound) :
    Steps env file call (appendStoreDeleteMarkers env.toWriteEnv file markers) := by
  obtain ⟨hlog, hended⟩ := appendStoreDeleteMarkers_log hfile h
  have hids : markers.map (fun m => (.del m.id : StoreRecord)) = (markers.map (·.id)).map .del := by
    rw [List.map_map]
    rfl
  refine ⟨hended, .removes call _ ?_⟩
  rw [loadStoreEntries_live, hlog, hids, live_append_dels, ← loadStoreEntries_live]
  exact List.filter_sublist

theorem steps_touch (hfile : LineEnded file) {x y : MemoryStoreEntry}
    (hx : x ∈ loadStoreEntries env.toStore (some .posInf) file) (hy : SameText x y)
    (hnorm : Normalized env.rt y) :
    Steps env file call (appendStoreEntry env.toWriteEnv file y) := by
  obtain ⟨hlog, hended⟩ := appendStoreEntry_log hfile hnorm
  refine ⟨hended, ?_⟩
  have hentries : loadStoreEntries env.toStore (some .posInf)
      (appendStoreEntry env.toWriteEnv file y) =
        (loadStoreEntries env.toStore (some .posInf) file).filter (·.id ≠ x.id) ++ [y] := by
    rw [loadStoreEntries_live, hlog, live_snoc, ← loadStoreEntries_live]
    have hkey : (Record.put y : StoreRecord).keyOf (·.id) = x.id := hy.id
    rw [hkey]
    rfl
  rw [hentries]
  exact .touches call x y hx hy

/-- A request that passes the checks is saved once its entry is. -/
theorem memorySave_of_entry {call : SaveCall} {r : SaveRequest} {entry : MemoryStoreEntry}
    (hr : checkRequest env call.params = .ok r)
    (hentry : savedEntry env call r
      (r.replaces env (loadStoreEntries env.toStore (some .posInf) file))
      (r.existing env (loadStoreEntries env.toStore (some .posInf) file)) = .ok entry) :
    ∃ report after, memorySave env call file = .ok (report, after) ∧ report.entry = entry ∧
      report.replacedIds =
        r.replacedIds env (loadStoreEntries env.toStore (some .posInf) file) := by
  unfold SaveRequest.replaces SaveRequest.existing SaveRequest.conflictIds at hentry
  unfold memorySave
  rw [hr]
  dsimp only
  unfold performSave
  dsimp only
  rw [hentry]
  exact ⟨_, _, rfl, rfl, rfl⟩

theorem saved_of_entry {call : SaveCall} {r : SaveRequest} {entry : MemoryStoreEntry}
    (hr : checkRequest env call.params = .ok r)
    (hentry : savedEntry env call r
      (r.replaces env (loadStoreEntries env.toStore (some .posInf) file))
      (r.existing env (loadStoreEntries env.toStore (some .posInf) file)) = .ok entry) :
    ∃ report,
      Saved env call file ((saveProgram env call).runAlone env.toWriteEnv file).2 report ∧
        report.entry = entry ∧
        report.replacedIds =
          r.replacedIds env (loadStoreEntries env.toStore (some .posInf) file) := by
  obtain ⟨report, after, hsave, hreport, hreplaced⟩ := memorySave_of_entry hr hentry
  refine ⟨report, ?_, hreport, hreplaced⟩
  rw [runAlone_saveProgram hsave]
  exact memorySave_saved hsave

theorem steps_save (call : SaveCall) (hfile : LineEnded file) :
    Steps env file (.save call) ((saveProgram env call).runAlone env.toWriteEnv file).2 := by
  cases hr : checkRequest env call.params with
  | error e =>
    unfold saveProgram
    rw [hr]
    exact steps_same hfile
  | ok r =>
    cases hentry : savedEntry env call r
        (r.replaces env (loadStoreEntries env.toStore (some .posInf) file))
        (r.existing env (loadStoreEntries env.toStore (some .posInf) file)) with
    | error e =>
      unfold saveProgram
      rw [hr]
      dsimp only [ToolProgram.runAlone]
      unfold saveLoaded
      rw [runAlone_appendMarkers]
      unfold SaveRequest.replaces SaveRequest.existing SaveRequest.conflictIds at hentry
      rw [hentry]
      refine steps_markers hfile (sound_markers (@loaded_normalized env.toWriteEnv file)
        (fun id hid => ?_) call.now_trimmed)
      obtain ⟨e, hload, heid, -⟩ := conflict_loaded hid
      exact ⟨e, hload, heid⟩
    | ok entry =>
      obtain ⟨report, hsaved, hreport, hreplaced⟩ := saved_of_entry hr hentry
      refine ⟨(hsaved.log hfile).2, .saves call r entry _ hr hentry ?_⟩
      rw [hsaved.entries hfile, beforeQuota, hreport, hreplaced]
      exact List.filter_sublist

end Effects

section Step
variable {env : ReadEnv} {file : Option String}

theorem steps_delete (call : DeleteCall) (hfile : LineEnded file) :
    Steps env.toSaveEnv file (.delete call)
      ((deleteProgram env.toToolEnv call).runAlone env.toWriteEnv file).2 := by
  have hfound : ∀ reason found, (∀ e ∈ found, Normalized env.rt e) →
      Steps env.toSaveEnv file (.delete call)
        ((deleteFound call reason found).runAlone env.toWriteEnv file).2 := by
    intro reason found hnorm
    cases found with
    | none => exact steps_same hfile
    | some entry =>
      dsimp only [deleteFound, ToolProgram.runAlone, applyWrite]
      refine steps_markers hfile fun m hm => ?_
      obtain rfl := List.mem_singleton.mp hm
      exact ⟨(hnorm entry rfl).id, call.deletedAt_trimmed⟩
  unfold deleteProgram
  cases readDelete env.toToolEnv call.params with
  | error e => exact steps_same hfile
  | ok r =>
    dsimp only
    split_ifs
    · exact steps_same hfile
    · exact hfound _ _ fun e he => findStoreEntryById_normalized he
    · exact steps_same hfile
    · exact hfound _ _ fun e he => findStoreEntryByTitle_normalized he
    · exact steps_same hfile

theorem steps_feedback (call : FeedbackCall) (hfile : LineEnded file) :
    Steps env.toSaveEnv file (.feedback call)
      ((feedbackProgram env.toToolEnv call).runAlone env.toWriteEnv file).2 := by
  unfold feedbackProgram
  cases hread : readFeedback env.toToolEnv call.params with
  | error e => exact steps_same hfile
  | ok r =>
    dsimp only
    split_ifs
    · exact steps_same hfile
    · exact steps_same hfile
    · dsimp only [ToolProgram.runAlone]
      cases hfound : findStoreEntryById env.toStore (targetIdOf r.ref r.explicitId) (some r.scope)
          file with
      | none => exact steps_same hfile
      | some entry =>
        exact steps_touch hfile (findStoreEntryById_loaded hfound).1
          ⟨rfl, rfl, rfl, rfl, rfl, rfl, rfl⟩
          (feedbackEntry_normalized env.toToolEnv call _ (readFeedback_weight hread)
            (findStoreEntryById_normalized hfound))

theorem reinforcedEntry_normalized (call : GetCall) {entry : MemoryStoreEntry}
    (h : Normalized env.rt entry) : Normalized env.rt (reinforcedEntry env call.now entry) where
  id := h.id
  title := h.title
  content := h.content
  createdAt := h.createdAt
  updatedAt := call.now_trimmed
  lastAccessedAt := call.now_trimmed
  reinforceCount := by
    obtain ⟨hlow, hhigh⟩ := h.reinforceCount
    simp only [reinforcedEntry]
    omega
  tags := h.tags
  tags_nodup := h.tags_nodup
  tags_length := h.tags_length
  importance := h.importance
  confidence := ⟨le_max_left _ _, max_le (by norm_num [MIN_CONFIDENCE]) (min_le_left _ _)⟩
  source := h.source
  memoryNamespace := h.memoryNamespace

theorem steps_get (call : GetCall) (hfile : LineEnded file) :
    Steps env.toSaveEnv file (.get call) (fileAfter file (memoryGet env call file)) := by
  unfold memoryGet
  cases readGet env call.params with
  | error e => exact steps_same hfile
  | ok r =>
    dsimp only
    split_ifs with htarget hreinforce
    · exact steps_same hfile
    · cases hfound : findStoreEntryById env.toStore (targetIdOf r.ref r.explicitId) (some r.scope)
          file with
      | none => exact steps_same hfile
      | some entry =>
        exact steps_touch hfile (findStoreEntryById_loaded hfound).1
          ⟨rfl, rfl, rfl, rfl, rfl, rfl, rfl⟩
          (reinforcedEntry_normalized call (findStoreEntryById_normalized hfound))
    · cases findStoreEntryById env.toStore (targetIdOf r.ref r.explicitId) (some r.scope) file with
      | none => exact steps_same hfile
      | some entry => exact steps_same hfile

theorem candidates_loaded {r : PruneRequest} {nowMillis : Int} {e : MemoryStoreEntry}
    (h : e ∈ r.candidates env nowMillis file) :
    e ∈ loadStoreEntries env.toStore (some .posInf) file := by
  obtain ⟨⟨entry, idx⟩, hx, rfl⟩ := List.mem_map.mp h
  have hsorted := List.fst_mem_of_mem_zipIdx (List.mem_of_mem_filter hx)
  exact List.mem_of_mem_filter (List.mem_mergeSort.mp hsorted)

theorem steps_prune (call : PruneCall) (hfile : LineEnded file) :
    Steps env.toSaveEnv file (.prune call) (fileAfter file (memoryPrune env call file)) := by
  unfold memoryPrune
  cases readPrune env call.params with
  | error e => exact steps_same hfile
  | ok r =>
    dsimp only [fileAfter]
    split
    · exact steps_same hfile
    · refine steps_markers hfile fun m hm => ?_
      obtain ⟨entry, hentry, rfl⟩ := List.mem_map.mp hm
      have hnorm := @loaded_normalized env.toWriteEnv file entry (candidates_loaded hentry)
      exact ⟨hnorm.id, call.deletedAt_trimmed⟩

theorem steps_compact (dryRun : Bool) (hfile : LineEnded file) :
    Steps env.toSaveEnv file (.compact dryRun) (memoryCompact env.toWriteEnv dryRun file).1 := by
  cases file with
  | none => exact steps_same hfile
  | some raw =>
    cases dryRun with
    | true => exact steps_same hfile
    | false =>
      have hnorm := @loaded_normalized env.toWriteEnv (some raw)
      obtain ⟨hlog, hended⟩ := @serializeEntries_log env.toWriteEnv _ hnorm
      refine ⟨hended, .removes _ _ ?_⟩
      have hsame : loadStoreEntries env.toStore (some .posInf)
          (memoryCompact env.toWriteEnv false (some raw)).1 =
            loadStoreEntries env.toStore (some .posInf) (some raw) := by
        rw [loadStoreEntries_live]
        change live (·.id) (storeLog env.toStore (some (serializeEntries env.toWriteEnv
          (loadStoreEntries env.toStore (some .posInf) (some raw))))) = _
        rw [hlog, live_puts (loaded_ids_nodup env.toStore (some raw))]
      rw [hsame]

/-- What any call does to a store whose lines are ended. -/
theorem storeStep_steps (call : StoreCall) (hfile : LineEnded file) :
    Steps env.toSaveEnv file call (storeStep env file call) := by
  cases call with
  | save call => exact steps_save call hfile
  | delete call => exact steps_delete call hfile
  | feedback call => exact steps_feedback call hfile
  | get call => exact steps_get call hfile
  | prune call => exact steps_prune call hfile
  | compact dryRun => exact steps_compact dryRun hfile

end Step

section Room
variable {env : SaveEnv} {file : Option String}

/-- Nothing is evicted from a namespace within its budgets. -/
theorem evictedEntries_room {memoryNamespace : String} {ids : List String}
    (h : ∀ quota ∈ resolveNamespaceQuota env.quotaConfig memoryNamespace,
      (inNamespace memoryNamespace (loadStoreEntries env.toStore (some .posInf) file)).length ≤
          quota.maxEntries ∧
        bytesOf env (inNamespace memoryNamespace
          (loadStoreEntries env.toStore (some .posInf) file)) ≤ quota.maxBytes) :
    evictedEntries env memoryNamespace ids file = [] := by
  unfold evictedEntries
  cases hquota : resolveNamespaceQuota env.quotaConfig memoryNamespace with
  | none => rfl
  | some quota =>
    obtain ⟨hentries, hbytes⟩ := h quota hquota
    dsimp only
    unfold evictFrom
    generalize inNamespace memoryNamespace (loadStoreEntries env.toStore (some .posInf) file) =
      entries at hentries hbytes ⊢
    have hstop : evictStep env quota ids ⟨entries, bytesOf env entries, []⟩ = none := by
      unfold evictStep
      rw [if_neg]
      simp only [Bool.or_eq_true, decide_eq_true_eq]
      omega
    cases entries with
    | nil => rfl
    | cons e entries =>
      rw [List.length_cons, evictLoop, hstop]

/-- With room for it, a save leaves what it does not replace, and its entry. -/
theorem save_entries_room (hfile : LineEnded file) {call : SaveCall} {r : SaveRequest}
    {entry : MemoryStoreEntry} (hr : checkRequest env call.params = .ok r)
    (hentry : savedEntry env call r
      (r.replaces env (loadStoreEntries env.toStore (some .posInf) file))
      (r.existing env (loadStoreEntries env.toStore (some .posInf) file)) = .ok entry)
    (after : List MemoryStoreEntry)
    (hafter : (loadStoreEntries env.toStore (some .posInf) file).filter (fun e =>
      e.id ∉ r.replacedIds env (loadStoreEntries env.toStore (some .posInf) file) ∧
        e.id ≠ entry.id) ++ [entry] = after)
    (hroom : ∀ quota ∈ resolveNamespaceQuota env.quotaConfig entry.memoryNamespace,
      (inNamespace entry.memoryNamespace after).length ≤ quota.maxEntries ∧
        bytesOf env (inNamespace entry.memoryNamespace after) ≤ quota.maxBytes) :
    loadStoreEntries env.toStore (some .posInf)
      ((saveProgram env call).runAlone env.toWriteEnv file).2 = after := by
  obtain ⟨report, hsaved, hreport, hreplaced⟩ := saved_of_entry hr hentry
  have hwritten := hsaved.written_entries hfile
  rw [beforeQuota, hreport, hreplaced, hafter] at hwritten
  have hevicted : report.evictedIds = [] := by
    rw [hsaved.evicted, hreport, evictedEntries_room]
    · rfl
    · rw [hwritten]
      exact hroom
  rw [hsaved.entries hfile, beforeQuota, hreport, hreplaced, hafter, hevicted]
  simp

end Room

section Example

/-- How much two embeddings have in common, on a scale of 30 and rounded. -/
def cosinePoints (a b : Nat → Nat) : Int :=
  let sum := fun f : Nat → Nat => ((List.range VECTOR_DIM).map f).sum
  let normA := sum fun i => a i * a i
  let normB := sum fun i => b i * b i
  if normA = 0 ∨ normB = 0 then 0
  else (Nat.sqrt ((60 * sum fun i => a i * b i) ^ 2 / (normA * normB)) + 1) / 2

def newYear : String := "2026-01-01T00:00:00.000Z"

def newYearMillis (date : String) : Option Int := if date = newYear then some 1767225600000 else none

def roundedTo3 (q : ℚ) : ℚ := (⌊q * 1000 + 1 / 2⌋ : ℚ) / 1000

/-- A store with the given room for a namespace, in a runtime of ASCII texts. -/
def roomyEnv (json : Js.Json) (room : Nat) : ReadEnv where
  rt := Js.asciiRuntime
  json := json
  defaultNamespace := "global"
  defaultNamespace_slug := global_slug
  quotaConfig := ⟨⟨2000, room, .staleLowSignal⟩, []⟩
  parseIsoMillis date := (newYearMillis (Js.trim date)).getD 0
  score _ _ _ := 0
  toFixed3 := roundedTo3
  blendConfidence a b := (a + b) / 2 + MIN_CONFIDENCE
  defaultMinTrustTier := .unverified
  newestFirst entries := entries
  newestFirst_perm _ := List.Perm.refl _
  reinforce useful confidence weight :=
    if useful then confidence + 7 / 100 * weight else confidence - 8 / 100 * weight
  parseDate := newYearMillis
  parseIsoMillis_eq _ := rfl
  recalledConfidence q := q + 2 / 100
  confidencePoints q := ⌊q * 10 + 1 / 2⌋
  semanticPoints := cosinePoints

/-- A save at the turn of the year. -/
def saves (uuid : String) (h : Trimmed uuid) (params : List (String × Value)) : SaveCall where
  params := .obj params
  now := newYear
  today := "2026-01-01"
  evictedAt := newYear
  uuid := uuid
  now_trimmed := newYear_trimmed
  evictedAt_trimmed := newYear_trimmed
  uuid_trimmed := h

theorem firstUuid_trimmed : Trimmed "00000000-0000-4000-8000-00000000000a" := by decide

theorem secondUuid_trimmed : Trimmed "00000000-0000-4000-8000-00000000000b" := by decide

theorem thirdUuid_trimmed : Trimmed "00000000-0000-4000-8000-00000000000c" := by decide

/-- A request that passes the checks, read from the parameters. -/
theorem checkRequest_of {env : SaveEnv} {params : Value} {r : SaveRequest}
    {strategy : ConflictStrategy}
    (hread : readRequest env params = .ok ({ r with onConflict := .upsert }, some strategy))
    (htitle : r.title ≠ "") (hcontent : r.content ≠ "")
    (hsecret : containsLikelySecret (r.title ++ "\n" ++ r.content ++ "\n" ++
      String.intercalate " " r.tags) = false) :
    checkRequest env params = .ok { r with onConflict := strategy } := by
  rw [checkRequest, hread]
  simp only [htitle, hcontent, hsecret, if_false, Bool.false_eq_true]

def lineBytes (json : Js.Json) (entry : MemoryStoreEntry) : Nat :=
  (json.stringify entry.toValue ++ "\n").utf8ByteSize

/-- Entries within the room are within the budgets of their namespaces. -/
theorem roomy {json : Js.Json} {room : Nat} {memoryNamespace : String}
    {after : List MemoryStoreEntry} (hentries : after.length ≤ 2000)
    (hbytes : (after.map (lineBytes json)).sum ≤ room) :
    ∀ quota ∈ resolveNamespaceQuota (roomyEnv json room).quotaConfig memoryNamespace,
      (inNamespace memoryNamespace after).length ≤ quota.maxEntries ∧
        bytesOf (roomyEnv json room).toSaveEnv (inNamespace memoryNamespace after) ≤
          quota.maxBytes := by
  intro quota hquota
  have hsub : (inNamespace memoryNamespace after).Sublist after := List.filter_sublist
  have hsum : bytesOf (roomyEnv json room).toSaveEnv (inNamespace memoryNamespace after) ≤ room :=
    ((hsub.map (lineBytes json)).sum_le_sum (by simp)).trans hbytes
  unfold resolveNamespaceQuota at hquota
  have hdefaults : quota = ⟨2000, room, .staleLowSignal⟩ := by
    rw [show List.lookup memoryNamespace (roomyEnv json room).quotaConfig.perNamespace = none from
      rfl] at hquota
    dsimp only at hquota
    split at hquota
    · cases hquota
    · exact (Option.some.inj hquota).symm
  subst hdefaults
  exact ⟨hsub.length_le.trans hentries, hsum⟩

section Saves
variable {json : Js.Json} {room : Nat} {file : Option String} {call : SaveCall} {r : SaveRequest}
  {entries : List MemoryStoreEntry}

/-- A save that matches no entry adds one. -/
theorem loaded_new_save (hended : LineEnded file)
    (hr : checkRequest (roomyEnv json room).toSaveEnv call.params = .ok r)
    (hload : loadStoreEntries (roomyEnv json room).toStore (some .posInf) file = entries)
    (hpick : pickStoreEntryForUpsert Js.asciiRuntime (inNamespace r.memoryNamespace entries) r.title
      r.content = none) (hupsert : r.onConflict = .upsert) (hfresh : ∀ e ∈ entries, e.id ≠ call.uuid)
    (hlength : entries.length < 2000)
    (hroom : ((entries ++ [newEntry call r]).map (lineBytes json)).sum ≤ room) :
    loadStoreEntries (roomyEnv json room).toStore (some .posInf)
      (storeStep (roomyEnv json room) file (.save call)) = entries ++ [newEntry call r] := by
  have hkeep : r.replaces (roomyEnv json room).toSaveEnv entries = false := by
    rw [SaveRequest.replaces, hupsert]
    rfl
  have hexisting : r.existing (roomyEnv json room).toSaveEnv entries = none := hpick
  subst hload
  refine save_entries_room hended hr (by rw [hkeep, hexisting]; rfl) _ ?_
    (roomy (by rw [List.length_append]; exact hlength) hroom)
  rw [SaveRequest.replacedIds, hkeep]
  refine congrArg (· ++ [newEntry call r]) (List.filter_eq_self.mpr fun e he => ?_)
  exact decide_eq_true ⟨List.not_mem_nil, hfresh e he⟩

/-- A save with the title of the only entry updates it. -/
theorem loaded_updating_save (hended : LineEnded file)
    (hr : checkRequest (roomyEnv json room).toSaveEnv call.params = .ok r) {x y : MemoryStoreEntry}
    (hload : loadStoreEntries (roomyEnv json room).toStore (some .posInf) file = [x])
    (hspace : x.memoryNamespace = r.memoryNamespace)
    (hkey : normalizeTitleKey Js.asciiRuntime x.title = normalizeTitleKey Js.asciiRuntime r.title)
    (hne : normalizeTitleKey Js.asciiRuntime x.title ≠ "") (hupsert : r.onConflict = .upsert)
    (hy : updatedEntry (roomyEnv json room).toSaveEnv call r x = .ok y)
    (hroom : lineBytes json y ≤ room) :
    loadStoreEntries (roomyEnv json room).toStore (some .posInf)
      (storeStep (roomyEnv json room) file (.save call)) = [y] := by
  have hkeep : r.replaces (roomyEnv json room).toSaveEnv [x] = false := by
    rw [SaveRequest.replaces, hupsert]
    rfl
  have hexisting : r.existing (roomyEnv json room).toSaveEnv [x] = some x := by
    obtain ⟨z, hz, hpick, -⟩ := pickStoreEntryForUpsert_title r.content
      (mem_inNamespace.mpr ⟨List.mem_singleton_self x, hspace⟩) hkey hne
    obtain rfl := List.mem_singleton.mp (mem_inNamespace.mp hz).1
    exact hpick
  have hid : y.id = x.id := by
    obtain ⟨tags, -, htags⟩ := Js.exists_of_bind_ok hy
    exact (congrArg MemoryStoreEntry.id (Except.ok.inj htags)).symm
  have hgone : [x].filter (fun e => e.id ∉ r.replacedIds (roomyEnv json room).toSaveEnv [x] ∧
      e.id ≠ y.id) = [] :=
    List.filter_eq_nil_iff.mpr fun e he => by
      obtain rfl := List.mem_singleton.mp he
      simp [hid]
  refine save_entries_room hended hr (by rw [hload, hkeep, hexisting]; exact hy) [y] ?_
    (roomy (by simp) (by simpa using hroom))
  rw [hload, hgone]
  rfl

/-- A save that replaces takes the contradicted entries out and adds one. -/
theorem loaded_replacing_save (hended : LineEnded file)
    (hr : checkRequest (roomyEnv json room).toSaveEnv call.params = .ok r)
    (hload : loadStoreEntries (roomyEnv json room).toStore (some .posInf) file = entries)
    {ids : List String} (hids : r.conflictIds (roomyEnv json room).toSaveEnv entries = ids)
    (hne : ids.isEmpty = false) (hreplace : r.onConflict = .replace)
    (after : List MemoryStoreEntry)
    (hafter : entries.filter (fun e => e.id ∉ ids ∧ e.id ≠ call.uuid) ++ [newEntry call r] = after)
    (hlength : after.length ≤ 2000) (hroom : (after.map (lineBytes json)).sum ≤ room) :
    loadStoreEntries (roomyEnv json room).toStore (some .posInf)
      (storeStep (roomyEnv json room) file (.save call)) = after := by
  have hreplaces : r.replaces (roomyEnv json room).toSaveEnv entries = true := by
    rw [SaveRequest.replaces, hreplace, hids, hne]
    rfl
  subst hload
  refine save_entries_room hended hr (by rw [hreplaces]; rfl) after ?_ (roomy hlength hroom)
  rw [SaveRequest.replacedIds, if_pos hreplaces, hids]
  exact hafter

end Saves

end Example

end T560.Memory
