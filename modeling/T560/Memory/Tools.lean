import T560.Memory.Quota

/-!
# The tools that write to the store

`memory_save`, `memory_delete` and `memory_feedback` as the file steps they make: they read the
whole file and append lines to it. Whatever a tool read before, and whatever other tools have
done since, it only appends entries and tombstones that are read back as written.
-/

namespace T560.Memory

open Js (Value Runtime JsError trim exists_of_bind_ok)
open Js.Value (trimmedText)

inductive ToolOutcome where
  | failed (error : SaveError)
  | saved (report : SaveReport)
  | deleted (marker : MemoryStoreDeleteMarker)
  | updated (entry : MemoryStoreEntry)

/-- A tool call as the file steps it has ahead. -/
inductive ToolProgram where
  | finish (outcome : ToolOutcome)
  | read (next : Option String → ToolProgram)
  | append (write : StoreWrite) (next : ToolProgram)

/-- The program run with the file to itself. -/
def ToolProgram.runAlone (env : WriteEnv) : ToolProgram → Option String → ToolOutcome × Option String
  | .finish outcome, file => (outcome, file)
  | .read next, file => (next file).runAlone env file
  | .append write next, file => next.runAlone env (applyWrite env file write)

/-- What the tools need beyond a save: the default scope, the order of `Date.parse` and the
floating-point arithmetic of a feedback. -/
structure ToolEnv extends SaveEnv where
  defaultMinTrustTier : TrustTier
  newestFirst : List MemoryStoreEntry → List MemoryStoreEntry
  newestFirst_perm : ∀ entries, (newestFirst entries).Perm entries
  reinforce : Bool → ℚ → Int → ℚ

section Save
variable (env : SaveEnv)

/-- Nothing is appended for an empty batch. -/
def appendMarkers (markers : List MemoryStoreDeleteMarker) (next : ToolProgram) : ToolProgram :=
  if markers.isEmpty then next else .append (.deletes markers) next

/-- The rest of a save once its entry is appended and the file is read again for the quota. -/
def saveWritten (call : SaveCall) (report : SaveReport) (written : Option String) : ToolProgram :=
  let memoryNamespace := report.entry.memoryNamespace
  let evicted := (evictedEntries env memoryNamespace [report.entry.id] written).map (·.id)
  appendMarkers (evicted.map fun id => ⟨id, call.evictedAt,
      some ("Namespace quota eviction (" ++ policyText env memoryNamespace ++ ")")⟩) <|
    .finish (.saved { report with evictedIds := evicted })

/-- The rest of a save once the store is loaded. -/
def saveLoaded (call : SaveCall) (request : SaveRequest) (file : Option String) : ToolProgram :=
  let scopedEntries := inNamespace request.memoryNamespace
    (loadStoreEntries env.toStore (some .posInf) file)
  let existing := pickStoreEntryForUpsert env.rt scopedEntries request.title request.content
  let conflicts := findPotentialConflicts env.rt env.toFixed3 scopedEntries request.title request.content
  let conflictIds := (conflicts.map (·.id)).dedup
  let replaces := request.onConflict = .replace && !conflictIds.isEmpty
  let replacedIds := if replaces then conflictIds else []
  appendMarkers (replaceMarkers call request.title replacedIds) <|
    match savedEntry env call request replaces existing with
    | .error e => .finish (.failed (.conversion e))
    | .ok entry => .append (.entry entry) <| .read <| saveWritten env call
        { entry := entry
          onConflict := request.onConflict
          upserted := existing.isSome && !replaces
          conflicts := conflicts
          replacedIds := replacedIds
          evictedIds := [] }

def saveProgram (call : SaveCall) : ToolProgram :=
  match checkRequest env call.params with
  | .error e => .finish (.failed e)
  | .ok request => .read (saveLoaded env call request)

end Save

section Delete
variable (env : ToolEnv)

def resolveScope (params : Value) : Except JsError MemoryScope := do
  let memoryNamespace ← normalizeNamespace env.rt (params.get? "namespace") env.defaultNamespace
  let minTrustTier ← normalizeTrustTier env.rt (params.get? "minTrustTier") env.defaultMinTrustTier
  return ⟨memoryNamespace, minTrustTier⟩

/-- The trimmed rest of a text that starts with `head`. -/
def textAfter (head text : String) : Option String :=
  if head.toList.isPrefixOf text.toList then
    some (trim (String.ofList (text.toList.drop head.length)))
  else none

/-- The id a call names by `id` or `ref`. -/
def targetIdOf (ref explicitId : String) : String :=
  match textAfter "store:" explicitId with
  | some id => id
  | none => if explicitId ≠ "" then explicitId else (textAfter "store:" ref).getD ""

def findStoreEntryByTitle (title : String) (scope : MemoryScope) (file : Option String) :
    Option MemoryStoreEntry :=
  let titleKey := normalizeTitleKey env.rt title
  let matching := (loadStoreEntries env.toStore (some .posInf) file).filter fun entry =>
    normalizeTitleKey env.rt entry.title = titleKey
  (env.newestFirst (matching.filter (entryMatchesScope · scope))).head?

structure DeleteCall where
  params : Value
  deletedAt : String
  deletedAt_trimmed : Trimmed deletedAt

def rejected (message : String) : ToolProgram := .finish (.failed (.rejected message))

/-- The tombstone of the entry that was found. -/
def deleteFound (call : DeleteCall) (reason : String) : Option MemoryStoreEntry → ToolProgram
  | none => rejected "Memory entry not found or already deleted."
  | some entry =>
    let marker : MemoryStoreDeleteMarker :=
      ⟨entry.id, call.deletedAt, if reason = "" then none else some reason⟩
    .append (.deletes [marker]) (.finish (.deleted marker))

structure DeleteRequest where
  ref : String
  explicitId : String
  title : String
  reason : String
  scope : MemoryScope

def readDelete (params : Value) : Except JsError DeleteRequest := do
  let ref ← trimmedText env.rt [params.get? "ref"]
  let explicitId ← trimmedText env.rt [params.get? "id"]
  let title ← trimmedText env.rt [params.get? "title"]
  let reason ← trimmedText env.rt [params.get? "reason"]
  let scope ← resolveScope env params
  return ⟨ref, explicitId, title, reason, scope⟩

def deleteProgram (call : DeleteCall) : ToolProgram :=
  match readDelete env call.params with
  | .error e => .finish (.failed (.conversion e))
  | .ok r =>
    if (textAfter "file:" r.ref).isSome then
      rejected "memory_delete only supports durable store entries (store:<id>), not file refs."
    else if targetIdOf r.ref r.explicitId ≠ "" then .read fun file =>
      deleteFound call r.reason
        (findStoreEntryById env.toStore (targetIdOf r.ref r.explicitId) (some r.scope) file)
    else if r.title ≠ "" then
      -- A title without a letter or digit is not looked for.
      if normalizeTitleKey env.rt r.title = "" then deleteFound call r.reason none
      else .read fun file =>
        deleteFound call r.reason (findStoreEntryByTitle env r.title r.scope file)
    else rejected "Provide one of: ref, id, or title."

end Delete

section Feedback
variable (env : ToolEnv)

structure FeedbackCall where
  params : Value
  now : String
  now_trimmed : Trimmed now

structure FeedbackRequest where
  ref : String
  explicitId : String
  signal : String
  weight : Int
  scope : MemoryScope

def readFeedback (params : Value) : Except JsError FeedbackRequest := do
  let ref ← trimmedText env.rt [params.get? "ref"]
  let explicitId ← trimmedText env.rt [params.get? "id"]
  let signal ← loweredText env.rt (params.get? "signal")
  let weight ← clampInt env.rt (params.get? "weight") 1 3 1
  let _note ← trimmedText env.rt [params.get? "note"]
  let scope ← resolveScope env params
  return ⟨ref, explicitId, signal, weight, scope⟩

def feedbackEntry (call : FeedbackCall) (useful : Bool) (weight : Int) (entry : MemoryStoreEntry) :
    MemoryStoreEntry :=
  { entry with
    updatedAt := call.now
    lastAccessedAt := call.now
    reinforceCount := if useful then min 10000 (entry.reinforceCount + weight)
      else max 0 (entry.reinforceCount - weight)
    importance := max 1 (min 5 (if useful then entry.importance + weight
      else entry.importance - weight))
    confidence := max MIN_CONFIDENCE (min 1 (env.reinforce useful entry.confidence weight)) }

def feedbackProgram (call : FeedbackCall) : ToolProgram :=
  match readFeedback env call.params with
  | .error e => .finish (.failed (.conversion e))
  | .ok r =>
    if r.signal ≠ "useful" && r.signal ≠ "not_useful" then
      rejected "signal must be one of: useful, not_useful."
    else if targetIdOf r.ref r.explicitId = "" then rejected "Provide one of: ref or id."
    else .read fun file =>
      match findStoreEntryById env.toStore (targetIdOf r.ref r.explicitId) (some r.scope) file with
      | none => rejected ("Memory entry not found: " ++ targetIdOf r.ref r.explicitId)
      | some entry =>
        let updated := feedbackEntry env call (r.signal = "useful") r.weight entry
        .append (.entry updated) (.finish (.updated updated))

end Feedback

section Sound

/-- A write that is read back as written. -/
def StoreWrite.Sound (rt : Runtime) : StoreWrite → Prop
  | .entry e => Normalized rt e
  | .deletes markers => ∀ m ∈ markers, m.Sound

/-- Whatever the program reads, it appends sound writes. -/
inductive ToolProgram.Sound (rt : Runtime) : ToolProgram → Prop where
  | finish (outcome : ToolOutcome) : Sound rt (.finish outcome)
  | read {next : Option String → ToolProgram} (h : ∀ file, Sound rt (next file)) :
    Sound rt (.read next)
  | append {write : StoreWrite} {next : ToolProgram} (hw : write.Sound rt) (hn : Sound rt next) :
    Sound rt (.append write next)

theorem sound_appendMarkers {rt : Runtime} {markers : List MemoryStoreDeleteMarker}
    {next : ToolProgram} (hm : ∀ m ∈ markers, m.Sound) (hn : next.Sound rt) :
    (appendMarkers markers next).Sound rt := by
  unfold appendMarkers
  split
  · exact hn
  · exact .append hm hn

theorem sound_saveWritten (env : SaveEnv) (call : SaveCall) (report : SaveReport)
    (written : Option String) : (saveWritten env call report written).Sound env.rt := by
  refine sound_appendMarkers ?_ (.finish _)
  refine sound_markers (@loaded_normalized env.toWriteEnv written) (fun id hid => ?_)
    call.evictedAt_trimmed
  obtain ⟨e, he, rfl⟩ := List.mem_map.mp hid
  exact ⟨e, (mem_inNamespace.mp (evictedEntries_mem he).1).1, rfl⟩

theorem sound_saveLoaded (env : SaveEnv) (call : SaveCall) {request : SaveRequest}
    (hr : request.Sound env.rt) (file : Option String) :
    (saveLoaded env call request file).Sound env.rt := by
  refine sound_appendMarkers ?_ ?_
  · refine sound_markers (@loaded_normalized env.toWriteEnv file) (fun id hid => ?_)
      call.now_trimmed
    obtain ⟨e, hload, heid, -⟩ := conflict_loaded hid
    exact ⟨e, hload, heid⟩
  · split
    · exact .finish _
    · rename_i entry hentry
      have hentry := savedEntry_spec hr
        (fun x hx => loaded_normalized file x (picked_loaded hx).1) hentry
      exact .append hentry.1
        (.read fun written => sound_saveWritten env call _ written)

theorem sound_saveProgram (env : SaveEnv) (call : SaveCall) :
    (saveProgram env call).Sound env.rt := by
  unfold saveProgram
  split
  · exact .finish _
  · rename_i request hrequest
    exact .read fun file => sound_saveLoaded env call (checkRequest_sound hrequest) file

variable {env : ToolEnv}

theorem searchLine_normalized {targetId line : String} {scope : Option MemoryScope}
    {e : MemoryStoreEntry} (h : searchLine env.toStore targetId scope line = some (some e)) :
    Normalized env.rt e := by
  unfold searchLine at h
  dsimp only at h
  split at h
  · cases h
  · split at h
    · cases h
    · split at h
      · cases h
      · split at h
        · cases h
        · split at h
          · cases h
          · cases h
          · rename_i entry he
            split at h
            · split at h
              · cases h
                exact normalized_of_entry he
              · cases h
            · cases h

theorem findStoreEntryById_normalized {targetId : String} {scope : Option MemoryScope}
    {file : Option String} {e : MemoryStoreEntry}
    (h : findStoreEntryById env.toStore targetId scope file = some e) : Normalized env.rt e := by
  cases file with
  | none => cases h
  | some raw =>
    rw [findStoreEntryById] at h
    generalize (Js.normalizeLineBreaks raw).reverse = lines at h
    induction lines with
    | nil => cases h
    | cons line rest ih =>
      rw [searchLines] at h
      split at h
      · rename_i result hresult
        subst h
        exact searchLine_normalized hresult
      · exact ih h

theorem findStoreEntryByTitle_normalized {title : String} {scope : MemoryScope}
    {file : Option String} {e : MemoryStoreEntry}
    (h : findStoreEntryByTitle env title scope file = some e) : Normalized env.rt e := by
  have hmem := (env.newestFirst_perm _).mem_iff.mp (List.mem_of_head? h)
  exact loaded_normalized file e (List.mem_of_mem_filter (List.mem_of_mem_filter hmem))

theorem sound_deleteFound (call : DeleteCall) (reason : String) {found : Option MemoryStoreEntry}
    (h : ∀ e ∈ found, Normalized env.rt e) : (deleteFound call reason found).Sound env.rt := by
  cases found with
  | none => exact .finish _
  | some entry =>
    refine .append (fun m hm => ?_) (.finish _)
    obtain rfl := List.mem_singleton.mp hm
    exact ⟨(h entry rfl).id, call.deletedAt_trimmed⟩

theorem sound_deleteProgram (env : ToolEnv) (call : DeleteCall) :
    (deleteProgram env call).Sound env.rt := by
  unfold deleteProgram
  split
  · exact .finish _
  · split_ifs
    · exact .finish _
    · exact .read fun file =>
        sound_deleteFound call _ fun e he => findStoreEntryById_normalized he
    · exact sound_deleteFound call _ (by rintro e ⟨⟩)
    · exact .read fun file =>
        sound_deleteFound call _ fun e he => findStoreEntryByTitle_normalized he
    · exact .finish _

theorem feedbackEntry_normalized (env : ToolEnv) (call : FeedbackCall) (useful : Bool)
    {weight : Int} (hw : 1 ≤ weight) {entry : MemoryStoreEntry} (h : Normalized env.rt entry) :
    Normalized env.rt (feedbackEntry env call useful weight entry) where
  id := h.id
  title := h.title
  content := h.content
  createdAt := h.createdAt
  updatedAt := call.now_trimmed
  lastAccessedAt := call.now_trimmed
  reinforceCount := by
    obtain ⟨hlow, hhigh⟩ := h.reinforceCount
    cases useful with
    | true =>
      simp only [feedbackEntry, if_true]
      omega
    | false =>
      simp only [feedbackEntry, Bool.false_eq_true, if_false]
      omega
  tags := h.tags
  tags_nodup := h.tags_nodup
  tags_length := h.tags_length
  importance := by
    simp only [feedbackEntry]
    omega
  confidence := ⟨le_max_left _ _, max_le (by norm_num [MIN_CONFIDENCE]) (min_le_left _ _)⟩
  source := h.source
  memoryNamespace := h.memoryNamespace

theorem readFeedback_weight {params : Value} {r : FeedbackRequest}
    (h : readFeedback env params = .ok r) : 1 ≤ r.weight := by
  obtain ⟨ref, -, h⟩ := exists_of_bind_ok h
  obtain ⟨explicitId, -, h⟩ := exists_of_bind_ok h
  obtain ⟨signal, -, h⟩ := exists_of_bind_ok h
  obtain ⟨weight, hweight, h⟩ := exists_of_bind_ok h
  obtain ⟨note, -, h⟩ := exists_of_bind_ok h
  obtain ⟨scope, -, h⟩ := exists_of_bind_ok h
  cases h
  exact (clampInt_bounds (by decide) (by decide) hweight).1

theorem sound_feedbackProgram (env : ToolEnv) (call : FeedbackCall) :
    (feedbackProgram env call).Sound env.rt := by
  unfold feedbackProgram
  split
  · exact .finish _
  · rename_i r hread
    split_ifs
    · exact .finish _
    · exact .finish _
    · refine .read fun file => ?_
      split
      · exact .finish _
      · rename_i entry hfound
        exact .append (feedbackEntry_normalized env call _ (readFeedback_weight hread)
          (findStoreEntryById_normalized hfound)) (.finish _)

end Sound

section Alone
variable {env : SaveEnv}

theorem runAlone_appendMarkers (markers : List MemoryStoreDeleteMarker) (next : ToolProgram)
    (file : Option String) :
    (appendMarkers markers next).runAlone env.toWriteEnv file =
      next.runAlone env.toWriteEnv (appendStoreDeleteMarkers env.toWriteEnv file markers) := by
  unfold appendMarkers appendStoreDeleteMarkers
  split
  · rfl
  · rename_i hne
    rw [ToolProgram.runAlone, applyWrite, appendStoreDeleteMarkers, if_neg hne]

/-- With the file to itself the program of a save is `memorySave`. -/
theorem runAlone_saveProgram {call : SaveCall} {file after : Option String} {report : SaveReport}
    (h : memorySave env call file = .ok (report, after)) :
    (saveProgram env call).runAlone env.toWriteEnv file = (.saved report, after) := by
  unfold memorySave at h
  unfold saveProgram
  cases hrequest : checkRequest env call.params with
  | error e =>
    rw [hrequest] at h
    cases h
  | ok request =>
    rw [hrequest] at h
    dsimp only at h ⊢
    unfold performSave at h
    dsimp only at h
    split at h
    · cases h
    · rename_i entry hentry
      cases h
      simp only [ToolProgram.runAlone, saveLoaded, saveWritten, runAlone_appendMarkers, hentry,
        applyWrite]
      rfl

end Alone

end T560.Memory
