import T560.Js.Lines
import T560.Js.Value

/-!
# The memory store file

Entries and tombstones of `memory.jsonl`: how a line is parsed, how the store is loaded by a
scan from the end of the file, and how one id is looked up. An exception inside the parsing
of a line skips that line.
-/

namespace T560.Memory

open Js (Value Runtime JsError trim normalizeLineBreaks)
open Js.Value (trimmedText)

def MAX_STORE_SCAN : Nat := 2000
def DEFAULT_IMPORTANCE : Int := 3
def DEFAULT_NAMESPACE : String := "global"
def MAX_TAGS : Nat := 20

/-- The doubles nearest to 0.8 and 0.05. -/
def DEFAULT_CONFIDENCE : ℚ := 3602879701896397 / 4503599627370496
def MIN_CONFIDENCE : ℚ := 3602879701896397 / 72057594037927936

inductive TrustTier where
  | unverified
  | observed
  | verified
  | system
  deriving DecidableEq, Repr

def TrustTier.text : TrustTier → String
  | .unverified => "unverified"
  | .observed => "observed"
  | .verified => "verified"
  | .system => "system"

def TRUST_TIERS : List TrustTier := [.unverified, .observed, .verified, .system]

def TrustTier.rank : TrustTier → Nat
  | .unverified => 0
  | .observed => 1
  | .verified => 2
  | .system => 3

structure MemoryStoreEntry where
  id : String
  title : String
  content : String
  tags : List String
  createdAt : String
  updatedAt : String
  lastAccessedAt : String
  reinforceCount : Int
  importance : Int
  confidence : ℚ
  source : String
  memoryNamespace : String
  trustTier : TrustTier
  deriving DecidableEq, Repr

structure MemoryStoreDeleteMarker where
  id : String
  deletedAt : String
  reason : Option String

structure MemoryScope where
  memoryNamespace : String
  minTrustTier : TrustTier

section Normalize
variable (rt : Runtime)

def clampInt (value : Option Value) (min_ max_ fallback : Int) : Except JsError Int := do
  match ← Value.number rt value with
  | .fin parsed => return max min_ (min max_ ⌊parsed⌋)
  | _ => return fallback

def clampNumber (value : Option Value) (min_ max_ fallback : ℚ) : Except JsError ℚ := do
  match ← Value.number rt value with
  | .fin parsed => return max min_ (min max_ parsed)
  | _ => return fallback

/-- `String(value ?? "").trim().toLowerCase()`. -/
def loweredText (value : Option Value) : Except JsError String := do
  return rt.toLowerCase (← trimmedText rt [value])

/-- The tags kept so far serve as the set of seen ones. -/
def collectTags : List Value → List String → Except JsError (List String)
  | [], out => return out
  | row :: rest, out => do
    let normalized ← loweredText rt (some row)
    if normalized = "" || out.contains normalized then collectTags rest out
    else if MAX_TAGS ≤ (out ++ [normalized]).length then return out ++ [normalized]
    else collectTags rest (out ++ [normalized])

def normalizeTags (value : Option Value) : Except JsError (List String) :=
  match value with
  | some (.arr rows) => collectTags rt rows []
  | _ => return []

/-- Lower-case letters, digits, dot, underscore, slash and hyphen. -/
def isSlugChar (c : Char) : Bool :=
  (97 ≤ c.toNat && c.toNat ≤ 122) || (48 ≤ c.toNat && c.toNat ≤ 57) || c == '.' || c == '_' ||
    c == '/' || c == '-'

/-- A text of `low` to `high` slug characters. -/
def isSlug (low high : Nat) (s : String) : Bool :=
  low ≤ s.toList.length && s.toList.length ≤ high && s.toList.all isSlugChar

def normalizeSlug (low high : Nat) (fallback : String) (value : Option Value) :
    Except JsError String := do
  let normalized ← loweredText rt value
  return if normalized ≠ "" && isSlug low high normalized then normalized else fallback

def normalizeSource (value : Option Value) (fallback : String) : Except JsError String :=
  normalizeSlug rt 2 32 fallback value

def normalizeNamespace (value : Option Value) (fallback : String) : Except JsError String :=
  normalizeSlug rt 1 64 fallback value

def normalizeTrustTier (value : Option Value) (fallback : TrustTier) : Except JsError TrustTier := do
  let normalized ← loweredText rt value
  return (TRUST_TIERS.find? fun tier => tier.text == normalized).getD fallback

def parseStoreEntry (raw : Value) : Except JsError (Option MemoryStoreEntry) := do
  if !raw.isRecord then return none
  let id ← trimmedText rt [raw.get? "id"]
  let title ← trimmedText rt [raw.get? "title"]
  let content ← trimmedText rt [raw.get? "content"]
  let createdAt ← trimmedText rt [raw.get? "createdAt"]
  let updatedAt ← trimmedText rt [raw.get? "updatedAt", some (.str createdAt)]
  let lastAccessedAt ← trimmedText rt [raw.get? "lastAccessedAt", some (.str updatedAt)]
  let reinforceCount ← clampInt rt (raw.get? "reinforceCount") 0 10000 0
  let tags ← normalizeTags rt (raw.get? "tags")
  let importance ← clampInt rt (raw.get? "importance") 1 5 DEFAULT_IMPORTANCE
  let confidence ← clampNumber rt (raw.get? "confidence") MIN_CONFIDENCE 1 DEFAULT_CONFIDENCE
  let source ← normalizeSource rt (raw.get? "source") "user"
  let memoryNamespace ← normalizeNamespace rt (raw.get? "namespace") DEFAULT_NAMESPACE
  let trustTier ← normalizeTrustTier rt (raw.get? "trustTier") .verified
  if id = "" || title = "" || content = "" || createdAt = "" then return none
  let updatedAt := if updatedAt = "" then createdAt else updatedAt
  return some {
    id, title, content, tags, createdAt, updatedAt
    lastAccessedAt := if lastAccessedAt = "" then updatedAt else lastAccessedAt
    reinforceCount, importance, confidence, source, memoryNamespace, trustTier }

def parseStoreDeleteMarker (raw : Value) : Except JsError (Option MemoryStoreDeleteMarker) := do
  if !raw.isRecord then return none
  let type ← loweredText rt (raw.get? "type")
  if type ≠ "delete" then return none
  let id ← trimmedText rt [raw.get? "id"]
  let deletedAt ← trimmedText rt [raw.get? "deletedAt"]
  let reason ← trimmedText rt [raw.get? "reason"]
  if id = "" || deletedAt = "" then return none
  return some ⟨id, deletedAt, if reason = "" then none else some reason⟩

end Normalize

/-- The runtime and its `JSON.parse`; a text it rejects gives `none`. -/
structure StoreEnv where
  rt : Runtime
  parse : String → Option Value

variable (env : StoreEnv)

structure LoadState where
  out : List MemoryStoreEntry := []
  seenIds : List String := []
  deletedIds : List String := []

/-- One turn of the scan, with whether it ended in `continue`. -/
def readLine (st : LoadState) (line : String) : LoadState × Bool :=
  let trimmed := trim line
  if trimmed = "" then (st, true)
  else
    match env.parse trimmed with
    | none => (st, false)
    | some parsed =>
      match parseStoreDeleteMarker env.rt parsed with
      | .error _ => (st, false)
      | .ok (some deleted) => ({ st with deletedIds := deleted.id :: st.deletedIds }, true)
      | .ok none =>
        match parseStoreEntry env.rt parsed with
        | .error _ | .ok none => (st, false)
        | .ok (some entry) =>
          if entry.id ∈ st.deletedIds then (st, true)
          else if entry.id ∈ st.seenIds then (st, true)
          else ({ st with out := st.out ++ [entry], seenIds := entry.id :: st.seenIds }, false)

/-- The scan over the lines, last line first, until `maxEntries` entries are found. -/
def scanLines (maxEntries : Option Nat) : List String → LoadState → LoadState
  | [], st => st
  | line :: rest, st =>
    let (next, continued) := readLine env st line
    if !continued && maxEntries.any (· ≤ next.out.length) then next
    else scanLines maxEntries rest next

/-- The limit the `maxEntries` option stands for; `none` is no limit. -/
def resolveMaxEntries : Option Js.Num → Option Nat
  | some .posInf => none
  | some (.fin n) => some (max 1 ⌊n⌋.toNat)
  | _ => some MAX_STORE_SCAN

/-- The entries of a store file, which may be absent. -/
def loadStoreEntries (maxEntries : Option Js.Num) (file : Option String) : List MemoryStoreEntry :=
  match file with
  | none => []
  | some raw =>
    (scanLines env (resolveMaxEntries maxEntries) (normalizeLineBreaks raw).reverse {}).out.reverse

def entryMatchesScope (entry : MemoryStoreEntry) (scope : MemoryScope) : Bool :=
  entry.memoryNamespace = scope.memoryNamespace && scope.minTrustTier.rank ≤ entry.trustTier.rank

/-- What a line says about the searched id: nothing, or that the search ends. -/
def searchLine (targetId : String) (scope : Option MemoryScope) (line : String) :
    Option (Option MemoryStoreEntry) :=
  let trimmed := trim line
  if trimmed = "" then none
  else
    match env.parse trimmed with
    | none => none
    | some parsed =>
      match parseStoreDeleteMarker env.rt parsed with
      | .error _ => none
      | .ok deleted =>
        if deleted.any (·.id = targetId) then some none
        else
          match parseStoreEntry env.rt parsed with
          | .error _ | .ok none => none
          | .ok (some entry) =>
            if entry.id = targetId then
              if scope.all (entryMatchesScope entry) then some (some entry) else some none
            else none

def searchLines (targetId : String) (scope : Option MemoryScope) :
    List String → Option MemoryStoreEntry
  | [] => none
  | line :: rest =>
    match searchLine env targetId scope line with
    | some result => result
    | none => searchLines targetId scope rest

def findStoreEntryById (targetId : String) (scope : Option MemoryScope) (file : Option String) :
    Option MemoryStoreEntry :=
  match file with
  | none => none
  | some raw => searchLines env targetId scope (normalizeLineBreaks raw).reverse

end T560.Memory
