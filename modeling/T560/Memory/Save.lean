import T560.Memory.Compact
import T560.Memory.Similarity

/-!
# Saving to the store

`memory_save` loads the store, may append tombstones for contradicted entries, appends its
entry, and appends tombstones for the entries it evicts to meet the quota of the namespace.
-/

namespace T560.Memory

open Js (Value Runtime JsError trim includes)
open Js.Value (trimmedText)

inductive MemoryEvictionPolicy where
  | staleLowSignal
  | lowSignalFirst
  | oldest
  deriving DecidableEq, Repr

def MemoryEvictionPolicy.text : MemoryEvictionPolicy → String
  | .staleLowSignal => "stale_low_signal"
  | .lowSignalFirst => "low_signal_first"
  | .oldest => "oldest"

structure NamespaceQuota where
  maxEntries : Nat
  maxBytes : Nat
  evictionPolicy : MemoryEvictionPolicy

def EVICTION_POLICIES : List MemoryEvictionPolicy := [.staleLowSignal, .lowSignalFirst, .oldest]

def normalizeEvictionPolicy (rt : Runtime) (value : Option Value)
    (fallback : MemoryEvictionPolicy) : Except JsError MemoryEvictionPolicy := do
  let normalized ← loweredText rt value
  return (EVICTION_POLICIES.find? fun policy => policy.text == normalized).getD fallback

def parseNamespaceQuotaValue (rt : Runtime) (raw : Value) (defaults : NamespaceQuota) :
    Except JsError NamespaceQuota := do
  let row := if raw.isRecord then raw else .obj []
  let maxEntries ← clampInt rt (row.get? "maxEntries") 1 100000 defaults.maxEntries
  let maxBytes ← clampInt rt (row.get? "maxBytes") 8000 200000000 defaults.maxBytes
  let evictionPolicy ← normalizeEvictionPolicy rt (row.get? "evictionPolicy") defaults.evictionPolicy
  return ⟨maxEntries.toNat, maxBytes.toNat, evictionPolicy⟩

structure NamespaceQuotaConfig where
  defaults : NamespaceQuota
  perNamespace : List (String × NamespaceQuota)

/-- The names an empty object already answers to, among those a namespace may have. -/
def INHERITED_NAMES : List String := ["constructor", "__proto__"]

/-- `config.perNamespace[namespace] ?? config.defaults`; an inherited property is no quota, and
its bounds are undefined. -/
def resolveNamespaceQuota (config : NamespaceQuotaConfig) (memoryNamespace : String) :
    Option NamespaceQuota :=
  match config.perNamespace.lookup memoryNamespace with
  | some quota => some quota
  | none => if INHERITED_NAMES.contains memoryNamespace then none else some config.defaults

/-- What is fixed for a store: its configuration, the scores that rank victims in each turn of
the eviction (they read the clock anew), and the floating-point arithmetic of `toFixed` and of
the mean of two confidences. -/
structure SaveEnv extends WriteEnv where
  defaultNamespace : String
  defaultNamespace_slug : isSlug 1 64 defaultNamespace = true
  quotaConfig : NamespaceQuotaConfig
  parseIsoMillis : String → Int
  score : Nat → MemoryEvictionPolicy → MemoryStoreEntry → ℚ
  toFixed3 : ℚ → ℚ
  blendConfidence : ℚ → ℚ → ℚ

/-- One call: its parameters, the readings of the clock and the random id. -/
structure SaveCall where
  params : Value
  now : String
  today : String
  evictedAt : String
  uuid : String
  now_trimmed : Trimmed now
  evictedAt_trimmed : Trimmed evictedAt
  uuid_trimmed : Trimmed uuid

inductive ConflictStrategy where
  | upsert
  | replace
  deriving DecidableEq

inductive SaveError where
  | conversion (error : JsError)
  | rejected (message : String)

/-- The parameters as the tool reads them. -/
structure SaveRequest where
  title : String
  content : String
  tags : List String
  importance : Int
  confidence : ℚ
  source : String
  memoryNamespace : String
  trustTier : TrustTier
  onConflict : ConflictStrategy

variable (env : SaveEnv)

def effectiveTrustTier (source : String) (tier : TrustTier) : TrustTier :=
  if source ≠ "system" && tier = .system then .verified else tier

def conflictStrategy : String → Option ConflictStrategy
  | "upsert" => some .upsert
  | "replace" => some .replace
  | _ => none

def readRequest (params : Value) : Except JsError (SaveRequest × Option ConflictStrategy) := do
  let title ← trimmedText env.rt [params.get? "title"]
  let content ← trimmedText env.rt [params.get? "content"]
  let tags ← normalizeTags env.rt (params.get? "tags")
  let importance ← clampInt env.rt (params.get? "importance") 1 5 DEFAULT_IMPORTANCE
  let confidence ← clampNumber env.rt (params.get? "confidence") MIN_CONFIDENCE 1 DEFAULT_CONFIDENCE
  let source ← normalizeSource env.rt (params.get? "source") "user"
  let memoryNamespace ← normalizeNamespace env.rt (params.get? "namespace") env.defaultNamespace
  let tier ← normalizeTrustTier env.rt (params.get? "trustTier")
    (if source = "user" then .verified else .observed)
  let strategyText ← trimmedText env.rt [params.get? "onConflict", some (.str "upsert")]
  let lowered := env.rt.toLowerCase strategyText
  return (
    { title, content, tags, importance, confidence, source, memoryNamespace
      trustTier := effectiveTrustTier source tier
      onConflict := .upsert },
    conflictStrategy (if lowered = "" then "upsert" else lowered))

/-- The request, once it passed the checks of the tool. -/
def checkRequest (params : Value) : Except SaveError SaveRequest :=
  match readRequest env params with
  | .error e => .error (.conversion e)
  | .ok (request, strategy) =>
    if request.title = "" then .error (.rejected "title is required.")
    else if request.content = "" then .error (.rejected "content is required.")
    else
      match strategy with
      | none => .error (.rejected "onConflict must be one of: upsert, replace.")
      | some strategy =>
        if containsLikelySecret (request.title ++ "\n" ++ request.content ++ "\n" ++
            String.intercalate " " request.tags) then
          .error (.rejected ("memory_save blocked: suspected secret/credential content. " ++
            "Do not store secrets in memory."))
        else .ok { request with onConflict := strategy }

/-- `mergeMemoryContent` of trimmed texts; `today` is the date of the update. -/
def mergeMemoryContent (today existing incoming : String) : String :=
  let oldText := trim existing
  let newText := trim incoming
  if oldText = "" then newText
  else if newText = "" then oldText
  else if oldText = newText then oldText
  else if includes newText oldText then newText
  else if includes oldText newText then oldText
  else oldText ++ "\n\nUpdate (" ++ today ++ "): " ++ newText

def mergeMemoryTags (existing incoming : List String) : Except JsError (List String) :=
  normalizeTags env.rt (some (.arr ((existing ++ incoming).map .str)))

def newEntry (call : SaveCall) (request : SaveRequest) : MemoryStoreEntry where
  id := call.uuid
  title := request.title
  content := request.content
  tags := request.tags
  createdAt := call.now
  updatedAt := call.now
  lastAccessedAt := call.now
  reinforceCount := 0
  importance := request.importance
  confidence := request.confidence
  source := request.source
  memoryNamespace := request.memoryNamespace
  trustTier := request.trustTier

def updatedEntry (call : SaveCall) (request : SaveRequest) (existing : MemoryStoreEntry) :
    Except JsError MemoryStoreEntry := do
  let tags ← mergeMemoryTags env existing.tags request.tags
  return {
    id := existing.id
    title := request.title
    content := mergeMemoryContent call.today existing.content request.content
    tags := tags
    createdAt := existing.createdAt
    updatedAt := call.now
    lastAccessedAt := existing.lastAccessedAt
    reinforceCount := existing.reinforceCount
    importance := max existing.importance request.importance
    confidence := max MIN_CONFIDENCE
      (min 1 (env.blendConfidence existing.confidence request.confidence))
    source := if request.source = "user" then existing.source else request.source
    memoryNamespace := existing.memoryNamespace
    trustTier := if request.trustTier.rank ≤ existing.trustTier.rank then existing.trustTier
      else request.trustTier }

/-- The entry a save appends: a new one, or an update of the entry it matches. -/
def savedEntry (call : SaveCall) (request : SaveRequest) (replaces : Bool)
    (existing : Option MemoryStoreEntry) : Except JsError MemoryStoreEntry :=
  match replaces, existing with
  | false, some entry => updatedEntry env call request entry
  | _, _ => return newEntry call request

section Quota

def estimateEntryBytes (entry : MemoryStoreEntry) : Nat :=
  (entryLine env.toWriteEnv entry ++ "\n").utf8ByteSize

def updatedMillis (entry : MemoryStoreEntry) : Int :=
  env.parseIsoMillis (if entry.updatedAt = "" then entry.createdAt else entry.updatedAt)

def pickEvictionCandidate (turn : Nat) (entries : List MemoryStoreEntry) :
    MemoryEvictionPolicy → Option MemoryStoreEntry
  | .oldest => (entries.mergeSort fun a b => updatedMillis env a ≤ updatedMillis env b).head?
  | policy => (entries.mergeSort fun a b => env.score turn policy a < env.score turn policy b ||
      (env.score turn policy a = env.score turn policy b &&
        updatedMillis env a ≤ updatedMillis env b)).head?

structure EvictState where
  active : List MemoryStoreEntry
  totalBytes : Nat
  evicted : List MemoryStoreEntry := []

/-- One turn of the eviction loop; `none` leaves the loop. -/
def evictStep (quota : NamespaceQuota) (protectedIds : List String) (st : EvictState) :
    Option EvictState :=
  if quota.maxEntries < st.active.length || quota.maxBytes < st.totalBytes then
    match pickEvictionCandidate env st.evicted.length
        (st.active.filter fun e => !protectedIds.contains e.id) quota.evictionPolicy with
    | none => none
    | some victim =>
      if st.active.any (·.id = victim.id) then
        some {
          active := st.active.eraseP (·.id = victim.id)
          totalBytes := st.totalBytes - estimateEntryBytes env victim
          evicted := st.evicted ++ [victim] }
      else none
  else none

def evictLoop (quota : NamespaceQuota) (protectedIds : List String) : Nat → EvictState → EvictState
  | 0, st => st
  | turns + 1, st =>
    match evictStep env quota protectedIds st with
    | none => st
    | some next => evictLoop quota protectedIds turns next

def bytesOf (entries : List MemoryStoreEntry) : Nat := (entries.map (estimateEntryBytes env)).sum

def inNamespace (memoryNamespace : String) (entries : List MemoryStoreEntry) :
    List MemoryStoreEntry :=
  entries.filter fun entry => entry.memoryNamespace = memoryNamespace

/-- The loop over the entries of a namespace: every turn evicts one of them, so their number
bounds the turns. -/
def evictFrom (quota : NamespaceQuota) (protectedIds : List String)
    (scopedEntries : List MemoryStoreEntry) : EvictState :=
  evictLoop env quota protectedIds scopedEntries.length ⟨scopedEntries, bytesOf env scopedEntries, []⟩

/-- The entries to evict; an undefined bound is never exceeded. -/
def evictedEntries (memoryNamespace : String) (protectedIds : List String) (file : Option String) :
    List MemoryStoreEntry :=
  match resolveNamespaceQuota env.quotaConfig memoryNamespace with
  | none => []
  | some quota => (evictFrom env quota protectedIds
      (inNamespace memoryNamespace (loadStoreEntries env.toStore (some .posInf) file))).evicted

def policyText (memoryNamespace : String) : String :=
  match resolveNamespaceQuota env.quotaConfig memoryNamespace with
  | none => "undefined"
  | some quota => quota.evictionPolicy.text

def enforceNamespaceQuota (call : SaveCall) (memoryNamespace : String) (protectedIds : List String)
    (file : Option String) : List String × Option String :=
  let evicted := (evictedEntries env memoryNamespace protectedIds file).map (·.id)
  (evicted, appendStoreDeleteMarkers env.toWriteEnv file (evicted.map fun id =>
    ⟨id, call.evictedAt,
      some ("Namespace quota eviction (" ++ policyText env memoryNamespace ++ ")")⟩))

end Quota

structure SaveReport where
  entry : MemoryStoreEntry
  onConflict : ConflictStrategy
  upserted : Bool
  conflicts : List MemoryConflictHint
  replacedIds : List String
  evictedIds : List String

/-- The tombstones of a save that replaces contradicted entries. -/
def replaceMarkers (call : SaveCall) (title : String) (ids : List String) :
    List MemoryStoreDeleteMarker :=
  ids.map fun id =>
    ⟨id, call.now, some ("Replaced by newer conflicting memory for \"" ++ title ++ "\"")⟩

/-- The part of a save behind the checks. -/
def performSave (call : SaveCall) (request : SaveRequest) (file : Option String) :
    Except SaveError (SaveReport × Option String) :=
  let scopedEntries := inNamespace request.memoryNamespace
    (loadStoreEntries env.toStore (some .posInf) file)
  let existing := pickStoreEntryForUpsert env.rt scopedEntries request.title request.content
  let conflicts := findPotentialConflicts env.rt env.toFixed3 scopedEntries request.title request.content
  let conflictIds := (conflicts.map (·.id)).dedup
  let replaces := request.onConflict = .replace && !conflictIds.isEmpty
  let replacedIds := if replaces then conflictIds else []
  let replaced := appendStoreDeleteMarkers env.toWriteEnv file
    (replaceMarkers call request.title replacedIds)
  match savedEntry env call request replaces existing with
  | .error e => .error (.conversion e)
  | .ok entry =>
    let enforced := enforceNamespaceQuota env call entry.memoryNamespace [entry.id]
      (appendStoreEntry env.toWriteEnv replaced entry)
    .ok (
      { entry := entry
        onConflict := request.onConflict
        upserted := existing.isSome && !replaces
        conflicts := conflicts
        replacedIds := replacedIds
        evictedIds := enforced.1 }, enforced.2)

/-- `memory_save`: its report and the file it leaves. -/
def memorySave (call : SaveCall) (file : Option String) :
    Except SaveError (SaveReport × Option String) :=
  match checkRequest env call.params with
  | .error e => .error e
  | .ok request => performSave env call request file

end T560.Memory
