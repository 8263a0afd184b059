import T560.Js.Text
import T560.Memory.Tools

/-!
# The tools that read the store

`memory_list` and `memory_search` load the entries of all namespaces and keep those of their
scope; `memory_search` loads the newest entries only. `memory_get` looks one id up and may write
it back as used again. Lengths and positions in texts count UTF-16 units.
-/

namespace T560.Memory

open Js (Value Runtime JsError Units trim collapse units includes)
open Js.Value (trimmedText)

def DEFAULT_SEARCH_LIMIT : Int := 8
def DEFAULT_GET_MAX_CHARS : Int := 12000
def VECTOR_DIM : Nat := 128

section Texts

/-- The white space of the runtime is in its first plane. -/
def isSpaceUnit (u : UInt16) : Bool := Js.isSpace (Char.ofNat u.toNat)

def trimUnits (text : Units) : Units := (text.dropWhile isSpaceUnit).rdropWhile isSpaceUnit

def clipText (text : String) (maxChars : Nat) : Units × Bool :=
  if (units text).length ≤ maxChars then (units text, false)
  else ((units text).take maxChars ++ units "\n\n[truncated]", true)

/-- The place of the last blank. -/
def lastBlank (text : Units) : Option Nat :=
  if 32 ∈ text then some (text.length - 1 - text.reverse.idxOf 32) else none

def compactPreview (text : String) (maxChars : Nat) : Units :=
  let compact := units (trim (collapse text))
  if compact.length ≤ maxChars then compact
  else
    let end_ := ((lastBlank (compact.take maxChars)).filter (maxChars * 6 / 10 ≤ ·)).getD
      (maxChars - 1)
    trimUnits (compact.take end_) ++ units "..."

/-- `text.indexOf(part)`. -/
def indexOf (part text : Units) : Option Nat := text.tails.findIdx? (part.isPrefixOf ·)

def buildPreviewAroundQuery (rt : Runtime) (content query : String) : Units :=
  let compact := trim (collapse content)
  if compact = "" then []
  else if query = "" then compactPreview compact 280
  else
    match indexOf (units query) (units (rt.toLowerCase compact)) with
    | none => compactPreview compact 280
    | some idx =>
      let text := units compact
      let start := idx - 90
      let end_ := min text.length (idx + max 140 ((units query).length + 90))
      (if 0 < start then units "..." else []) ++ (text.drop start).take (end_ - start) ++
        if end_ < text.length then units "..." else []

end Texts

section Query
variable (rt : Runtime)

/-- The tokens of a query, the first of equal ones kept. -/
def tokenizeQuery (query : String) : List String :=
  ((((alnumWords rt query).filterMap canonicalizeToken).filter fun t => 1 < t.length).eraseDups).take 24

def countMatchedTokens (haystack : String) (tokens : List String) : Nat :=
  tokens.countP (includes (rt.toLowerCase haystack))

def computeScore (haystack query : String) (tokens : List String) : Int :=
  (if query ≠ "" && includes (rt.toLowerCase haystack) query then 70 else 0) +
    8 * countMatchedTokens rt haystack tokens

/-- The hash of a token: 32 bits, one multiplication for every unit. -/
def tokenHash (token : String) : BitVec 32 :=
  (units token).foldl (fun hash unit => (hash ^^^ BitVec.ofNat 32 unit.toNat) * 16777619#32)
    2166136261#32

/-- How many tokens fall into each bucket. -/
def embedTokens (tokens : List String) (bucket : Nat) : Nat :=
  tokens.countP fun token => token ≠ "" && (tokenHash token).toInt.natAbs % VECTOR_DIM = bucket

end Query

/-- What the reads need beyond the other tools: `Date.parse`, which gives nothing for a text that
is no date, the points for a confidence and for two embeddings (they are computed in floating
point), and the confidence of an entry that was recalled. -/
structure ReadEnv extends ToolEnv where
  parseDate : String → Option Int
  parseIsoMillis_eq : ∀ s, parseIsoMillis s = (parseDate (trim s)).getD 0
  recalledConfidence : ℚ → ℚ
  confidencePoints : ℚ → Int
  semanticPoints : (Nat → Nat) → (Nat → Nat) → Int

variable (env : ReadEnv)

def haystack (entry : MemoryStoreEntry) : String :=
  entry.title ++ "\n" ++ entry.content ++ "\n" ++ String.intercalate " " entry.tags

section List

inductive ListOrder where
  | updatedDesc
  | updatedAsc
  | createdDesc
  | createdAsc
  deriving DecidableEq, Repr

def listOrder : String → Option ListOrder
  | "updated_desc" => some .updatedDesc
  | "updated_asc" => some .updatedAsc
  | "created_desc" => some .createdDesc
  | "created_asc" => some .createdAsc
  | _ => none

structure ListRequest where
  query : String
  tags : List String
  limit : Int
  importanceAtLeast : Int
  sourceFilter : String
  scope : MemoryScope
  includeContent : Bool
  maxContentChars : Int
  order : ListOrder

def readList (params : Value) : Except JsError (ListRequest × Option ListOrder) := do
  let query ← loweredText env.rt (params.get? "query")
  let tags ← normalizeTags env.rt (params.get? "tags")
  let limit ← clampInt env.rt (params.get? "limit") 1 500 50
  let importanceAtLeast ← clampInt env.rt (params.get? "importanceAtLeast") 1 5 1
  let sourceFilter ← normalizeSource env.rt (params.get? "source") ""
  let scope ← resolveScope env.toToolEnv params
  let maxContentChars ← clampInt env.rt (params.get? "maxContentChars") 200 60000
    DEFAULT_GET_MAX_CHARS
  let orderText ← trimmedText env.rt [params.get? "order", some (.str "updated_desc")]
  return (
    { query, tags, limit, importanceAtLeast, sourceFilter, scope, maxContentChars
      includeContent := params.get? "includeContent" = some (.bool true)
      order := .updatedDesc },
    listOrder (env.rt.toLowerCase orderText))

/-- The filters of a list behind its scope. -/
def ListRequest.keeps (r : ListRequest) (entry : MemoryStoreEntry) : Bool :=
  r.tags.all entry.tags.contains && r.importanceAtLeast ≤ entry.importance &&
    (r.sourceFilter = "" || entry.source = r.sourceFilter) &&
    (r.query = "" ||
      0 < computeScore env.rt (haystack entry) r.query (tokenizeQuery env.rt r.query))

/-- Whether `a` may stand in front of `b`. -/
def ListOrder.before (a b : MemoryStoreEntry) : ListOrder → Bool
  | .updatedDesc => env.parseIsoMillis b.updatedAt ≤ env.parseIsoMillis a.updatedAt
  | .updatedAsc => env.parseIsoMillis a.updatedAt ≤ env.parseIsoMillis b.updatedAt
  | .createdDesc => env.parseIsoMillis b.createdAt ≤ env.parseIsoMillis a.createdAt
  | .createdAsc => env.parseIsoMillis a.createdAt ≤ env.parseIsoMillis b.createdAt

structure ListRow where
  ref : String
  id : String
  title : String
  preview : Units
  tags : List String
  createdAt : String
  updatedAt : String
  lastAccessedAt : String
  reinforceCount : Int
  importance : Int
  confidence : ℚ
  memorySource : String
  memoryNamespace : String
  trustTier : TrustTier
  content : Option (Units × Bool)

structure ListReport where
  request : ListRequest
  total : Nat
  scanned : Nat
  results : List ListRow

def ListRequest.row (r : ListRequest) (entry : MemoryStoreEntry) : ListRow where
  ref := "store:" ++ entry.id
  id := entry.id
  title := entry.title
  preview := compactPreview entry.content 240
  tags := entry.tags
  createdAt := entry.createdAt
  updatedAt := entry.updatedAt
  lastAccessedAt := entry.lastAccessedAt
  reinforceCount := entry.reinforceCount
  importance := entry.importance
  confidence := entry.confidence
  memorySource := entry.source
  memoryNamespace := entry.memoryNamespace
  trustTier := entry.trustTier
  content := if r.includeContent then some (clipText entry.content r.maxContentChars.toNat) else none

def memoryList (params : Value) (file : Option String) : Except SaveError ListReport :=
  match readList env params with
  | .error e => .error (.conversion e)
  | .ok (_, none) =>
    .error (.rejected "order must be one of: updated_desc, updated_asc, created_desc, created_asc.")
  | .ok (request, some order) =>
    let r := { request with order }
    let scanned := loadStoreEntries env.toStore (some .posInf) file
    let filtered := scanned.filter fun entry => entryMatchesScope entry r.scope && r.keeps env entry
    .ok {
      request := r
      total := filtered.length
      scanned := scanned.length
      results := ((filtered.mergeSort fun a b => r.order.before env a b).take r.limit.toNat).map r.row }

end List

section Search

structure StoreSearchHit where
  ref : String
  id : String
  title : String
  preview : Units
  tags : List String
  createdAt : String
  updatedAt : String
  importance : Int
  confidence : ℚ
  source : String
  memoryNamespace : String
  trustTier : TrustTier
  score : Int
  exactMatch : Bool
  matchedTokens : Nat

structure FileSearchHit where
  ref : String
  path : String
  line : Nat
  preview : Units
  score : Int
  exactMatch : Bool
  matchedTokens : Nat

inductive MemorySearchHit where
  | store (hit : StoreSearchHit)
  | file (hit : FileSearchHit)

def MemorySearchHit.score : MemorySearchHit → Int
  | .store hit => hit.score
  | .file hit => hit.score

/-- The points for a date, one fewer for every `days` days that have passed since. -/
def agePoints (now top days : Int) : Option Int → Int
  | none => 0
  | some millis => max 0 (top - max 0 ((now - millis) / 86400000) / days)

structure SearchRequest where
  query : String
  limit : Int
  includeStore : Bool
  includeFiles : Bool
  includeSurrounding : Bool
  scope : MemoryScope

def SearchRequest.tokens (r : SearchRequest) : List String := tokenizeQuery env.rt r.query

/-- An entry without the query and without any of its tokens is no hit. -/
def SearchRequest.finds (r : SearchRequest) (entry : MemoryStoreEntry) : Bool :=
  0 < computeScore env.rt (haystack entry) r.query (r.tokens env)

def SearchRequest.hit (r : SearchRequest) (now : Int) (entry : MemoryStoreEntry) : StoreSearchHit where
  ref := "store:" ++ entry.id
  id := entry.id
  title := entry.title
  preview := buildPreviewAroundQuery env.rt entry.content r.query
  tags := entry.tags
  createdAt := entry.createdAt
  updatedAt := entry.updatedAt
  importance := entry.importance
  confidence := entry.confidence
  source := entry.source
  memoryNamespace := entry.memoryNamespace
  trustTier := entry.trustTier
  score := computeScore env.rt (haystack entry) r.query (r.tokens env) +
    agePoints now 18 14 (env.parseDate
      (if entry.updatedAt = "" then entry.createdAt else entry.updatedAt)) +
    agePoints now 12 21 (env.parseDate (if entry.lastAccessedAt ≠ "" then entry.lastAccessedAt
      else if entry.updatedAt = "" then entry.createdAt else entry.updatedAt)) +
    entry.importance * 6 + env.confidencePoints entry.confidence +
    min 24 (entry.reinforceCount * 3) + entry.trustTier.rank * 2 +
    env.semanticPoints (embedTokens (r.tokens env))
      (embedTokens (tokenizeForSimilarity env.rt (haystack entry)))
  exactMatch := r.query ≠ "" && includes (env.rt.toLowerCase (haystack entry)) r.query
  matchedTokens := countMatchedTokens env.rt (haystack entry) (r.tokens env)

def SearchRequest.searchStoreEntries (r : SearchRequest) (now : Int)
    (entries : List MemoryStoreEntry) : List StoreSearchHit :=
  (entries.filter (r.finds env)).map (r.hit env now)

def readSearch (params : Value) : Except SaveError SearchRequest :=
  match loweredText env.rt (params.get? "query") with
  | .error e => .error (.conversion e)
  | .ok query =>
    if query = "" then .error (.rejected "query is required.")
    else
      let rest : Except JsError SearchRequest := do
        let limit ← clampInt env.rt (params.get? "limit") 1 20 DEFAULT_SEARCH_LIMIT
        let scope ← resolveScope env.toToolEnv params
        let includeFiles : Bool := params.get? "includeFiles" ≠ some (.bool false)
        return {
          query, limit, scope, includeFiles
          includeStore := params.get? "includeStore" ≠ some (.bool false)
          includeSurrounding :=
            includeFiles && params.get? "includeSurrounding" ≠ some (.bool false) }
      rest.mapError .conversion

structure SearchReport where
  request : SearchRequest
  results : List MemorySearchHit
  storeEntriesScanned : Nat
  storeEntriesMatchedScope : Nat
  filesScanned : Nat

/-- The hits among the loaded entries of the scope, and the number of loaded entries. -/
def SearchRequest.storeHits (r : SearchRequest) (now : Int) (file : Option String) :
    List StoreSearchHit × Nat :=
  if r.includeStore then
    let entries := loadStoreEntries env.toStore none file
    (r.searchStoreEntries env now (entries.filter (entryMatchesScope · r.scope)), entries.length)
  else ([], 0)

/-- `documents` is the search through the documents of the workspace. -/
def memorySearch (documents : SearchRequest → List FileSearchHit × Nat) (now : Int) (params : Value)
    (file : Option String) : Except SaveError SearchReport :=
  match readSearch env params with
  | .error e => .error e
  | .ok r =>
    let (hits, scanned) := r.storeHits env now file
    let (fileHits, filesScanned) := if r.includeFiles then documents r else ([], 0)
    .ok {
      request := r
      results := ((hits.map MemorySearchHit.store ++ fileHits.map MemorySearchHit.file).mergeSort
        fun a b => b.score ≤ a.score).take r.limit.toNat
      storeEntriesScanned := scanned
      storeEntriesMatchedScope := hits.length
      filesScanned }

end Search

section Get

structure GetCall where
  params : Value
  now : String
  now_trimmed : Trimmed now

structure GetRequest where
  maxChars : Int
  reinforce : Bool
  scope : MemoryScope
  ref : String
  explicitId : String

def readGet (params : Value) : Except JsError GetRequest := do
  let _contextLines ← clampInt env.rt (params.get? "contextLines") 0 20 3
  let maxChars ← clampInt env.rt (params.get? "maxChars") 200 60000 DEFAULT_GET_MAX_CHARS
  let scope ← resolveScope env.toToolEnv params
  let ref ← trimmedText env.rt [params.get? "ref"]
  let explicitId ← trimmedText env.rt [params.get? "id"]
  return {
    maxChars, scope, ref, explicitId
    reinforce := params.get? "reinforce" ≠ some (.bool false) }

structure GetReport where
  ref : String
  id : String
  title : String
  content : Units
  truncated : Bool
  tags : List String
  createdAt : String
  updatedAt : String
  lastAccessedAt : String
  reinforceCount : Int
  importance : Int
  confidence : ℚ
  memorySource : String
  memoryNamespace : String
  trustTier : TrustTier
  reinforced : Bool

/-- An entry of the store, or the rest of the call on a document of the workspace. -/
inductive GetResult where
  | store (report : GetReport)
  | document

def reinforcedEntry (now : String) (entry : MemoryStoreEntry) : MemoryStoreEntry :=
  { entry with
    updatedAt := now
    lastAccessedAt := now
    reinforceCount := min 10000 (entry.reinforceCount + 1)
    confidence := max MIN_CONFIDENCE (min 1 (env.recalledConfidence entry.confidence)) }

def GetRequest.report (r : GetRequest) (entry materialized : MemoryStoreEntry) : GetReport where
  ref := "store:" ++ entry.id
  id := entry.id
  title := entry.title
  content := (clipText entry.content r.maxChars.toNat).1
  truncated := (clipText entry.content r.maxChars.toNat).2
  tags := entry.tags
  createdAt := entry.createdAt
  updatedAt := materialized.updatedAt
  lastAccessedAt := materialized.lastAccessedAt
  reinforceCount := materialized.reinforceCount
  importance := materialized.importance
  confidence := materialized.confidence
  memorySource := materialized.source
  memoryNamespace := materialized.memoryNamespace
  trustTier := materialized.trustTier
  reinforced := r.reinforce

/-- `memory_get`: its result and the file it leaves. -/
def memoryGet (call : GetCall) (file : Option String) :
    Except SaveError (GetResult × Option String) :=
  match readGet env call.params with
  | .error e => .error (.conversion e)
  | .ok r =>
    let targetId := targetIdOf r.ref r.explicitId
    if targetId = "" then .ok (.document, file)
    else
      match findStoreEntryById env.toStore targetId (some r.scope) file with
      | none => .error (.rejected ("Memory entry not found: " ++ targetId))
      | some entry =>
        let materialized := if r.reinforce then reinforcedEntry env call.now entry else entry
        .ok (.store (r.report entry materialized),
          if r.reinforce then appendStoreEntry env.toWriteEnv file materialized else file)

end Get

end T560.Memory
