import T560.Js.Json
import T560.Memory.Normalized

/-!
# Compaction of the store file

`memory_compact` rewrites the file to one line per active entry. The log of the new file is
the list of live entries, so it means the same under every later append.
-/

namespace T560.Memory

open Js (Value Json Runtime trim trimChars splitLines normalizeLineBreaks)
open ReplayLog

structure WriteEnv where
  rt : Runtime
  json : Json

variable (env : WriteEnv)

def WriteEnv.toStore : StoreEnv := ⟨env.rt, env.json.parse⟩

def MemoryStoreDeleteMarker.toValue (m : MemoryStoreDeleteMarker) : Value :=
  .obj ([("type", .str "delete"), ("id", .str m.id), ("deletedAt", .str m.deletedAt)] ++
    match m.reason with
    | some reason => [("reason", .str reason)]
    | none => [])

def entryLine (e : MemoryStoreEntry) : String := env.json.stringify e.toValue

structure CompactReport where
  dryRun : Bool
  compacted : Bool
  linesBefore : Nat
  linesAfter : Nat
  reclaimedLines : Nat
  bytesBefore : Nat
  bytesAfter : Nat

def serializeEntries (entries : List MemoryStoreEntry) : String :=
  let compactBody := String.intercalate "\n" (entries.map (entryLine env))
  if compactBody = "" then "" else compactBody ++ "\n"

/-- `memory_compact`: the file it leaves and its report. -/
def memoryCompact (dryRun : Bool) (file : Option String) : Option String × CompactReport :=
  match file with
  | none => (none, ⟨dryRun, false, 0, 0, 0, 0, 0⟩)
  | some raw =>
    let linesBefore := ((normalizeLineBreaks raw).filter fun line => trim line ≠ "").length
    let activeEntries := loadStoreEntries env.toStore (some .posInf) file
    let serialized := serializeEntries env activeEntries
    let linesAfter := activeEntries.length
    (if dryRun then file else some serialized,
      { dryRun := dryRun
        compacted := !dryRun && linesAfter ≠ linesBefore
        linesBefore := linesBefore
        linesAfter := linesAfter
        reclaimedLines := linesBefore - linesAfter
        bytesBefore := raw.utf8ByteSize
        bytesAfter := serialized.utf8ByteSize })

/-- The file a compaction that is no dry run leaves. -/
def compactStore (file : Option String) : Option String := (memoryCompact env false file).1

/-- The writes other tools make to the store: an entry, or a batch of tombstones. -/
inductive StoreWrite where
  | entry (e : MemoryStoreEntry)
  | deletes (markers : List MemoryStoreDeleteMarker)

def appendFile (file : Option String) (text : String) : Option String := some (file.getD "" ++ text)

def appendStoreEntry (file : Option String) (e : MemoryStoreEntry) : Option String :=
  appendFile file (entryLine env e ++ "\n")

def appendStoreDeleteMarkers (file : Option String) (markers : List MemoryStoreDeleteMarker) :
    Option String :=
  if markers.isEmpty then file
  else appendFile file
    (String.intercalate "\n" (markers.map fun m => env.json.stringify m.toValue) ++ "\n")

def applyWrite (file : Option String) : StoreWrite → Option String
  | .entry e => appendStoreEntry env file e
  | .deletes markers => appendStoreDeleteMarkers env file markers

/-- A file of lines, each ended by a line feed. -/
def fileText : List String → String
  | [] => ""
  | line :: rest => line ++ "\n" ++ fileText rest

section Log
variable (env : StoreEnv)

/-- The record of a line given by its characters. -/
def charsRecord (line : List Char) : Option StoreRecord :=
  lineRecord env (String.ofList (trimChars line))

theorem lineRecord_trim (line : String) : lineRecord env (trim line) = lineRecord env line := by
  simp only [lineRecord, Js.trim_trim]

theorem storeLog_splitLines (raw : String) :
    storeLog env (some raw) = (splitLines raw.toList).filterMap (charsRecord env) := by
  have h := congrArg (List.filterMap (lineRecord env)) (Js.map_trim_normalizeLineBreaks raw)
  rw [List.filterMap_map, List.filterMap_map] at h
  simp only [Function.comp_def, lineRecord_trim] at h
  exact h

theorem lineRecord_blank {line : String} (h : trim line = "") : lineRecord env line = none := by
  rw [lineRecord, if_pos h]

theorem storeLog_empty : storeLog env (some "") = [] := by
  have hblank : charsRecord env [] = none := lineRecord_blank env (by decide)
  rw [storeLog_splitLines, show splitLines "".toList = [[]] from rfl, List.filterMap_cons, hblank]
  rfl

/-- A line feed separates two logs. -/
theorem storeLog_line (line rest : String) :
    storeLog env (some (line ++ "\n" ++ rest)) =
      storeLog env (some line) ++ storeLog env (some rest) := by
  simp only [storeLog_splitLines, String.toList_append]
  rw [List.append_assoc, show "\n".toList ++ rest.toList = '\n' :: rest.toList from rfl,
    Js.splitLines_append, List.filterMap_append]

/-- What is appended to a file of lines is a log of its own. -/
theorem storeLog_append (lines : List String) (text : String) :
    storeLog env (some (fileText lines ++ text)) =
      storeLog env (some (fileText lines)) ++ storeLog env (some text) := by
  induction lines with
  | nil => simp [fileText, storeLog_empty]
  | cons line lines ih =>
    rw [fileText, String.append_assoc, storeLog_line, ih, storeLog_line, List.append_assoc]

end Log

variable {env}

theorem entry_isPlain (e : MemoryStoreEntry) : e.toValue.isPlain = true := by
  have hkeys : (["id", "title", "content", "tags", "createdAt", "updatedAt", "lastAccessedAt",
      "reinforceCount", "importance", "confidence", "source", "namespace", "trustTier"] :
      List String).Nodup := by decide
  have hkey : ∀ key ∈ (["id", "title", "content", "tags", "createdAt", "updatedAt",
      "lastAccessedAt", "reinforceCount", "importance", "confidence", "source", "namespace",
      "trustTier"] : List String), Js.isPlainKey key = true := by decide
  simp only [List.forall_mem_cons] at hkey
  simp [MemoryStoreEntry.toValue, Value.isPlain, Value.arePlainFields, Value.arePlain_strs, hkey]

/-- The line of a normalized entry holds that entry. -/
theorem storeLog_entryLine {e : MemoryStoreEntry} (h : Normalized env.rt e) :
    storeLog env.toStore (some (entryLine env e)) = [.put e] := by
  have hline : splitLines (entryLine env e).toList = [(entryLine env e).toList] :=
    Js.splitLines_single (env.json.stringify_line _)
  have htrim : trim (entryLine env e) = entryLine env e := env.json.trim_stringify _
  have hne : entryLine env e ≠ "" := env.json.stringify_ne _
  have hparse : env.json.parse (entryLine env e) = some e.toValue :=
    env.json.parse_stringify _ (entry_isPlain e)
  have hrecord : lineRecord env.toStore (entryLine env e) = some (.put e) := by
    unfold lineRecord
    rw [htrim, if_neg hne]
    simp only [WriteEnv.toStore, hparse, parseStoreDeleteMarker_toValue, parseStoreEntry_toValue h]
  rw [storeLog_splitLines, hline, List.filterMap_cons, charsRecord]
  have hchars : String.ofList (trimChars (entryLine env e).toList) = entryLine env e := htrim
  rw [hchars, hrecord]
  rfl

theorem storeLog_entries {entries : List MemoryStoreEntry}
    (h : ∀ e ∈ entries, Normalized env.rt e) :
    storeLog env.toStore (some (fileText (entries.map (entryLine env)))) = entries.map .put := by
  induction entries with
  | nil => exact storeLog_empty _
  | cons e entries ih =>
    rw [List.map_cons, fileText, storeLog_line, storeLog_entryLine (h e (by simp)),
      ih fun x hx => h x (by simp [hx])]
    rfl

theorem intercalate_lines (line : String) (lines : List String) :
    String.intercalate "\n" (line :: lines) ++ "\n" = fileText (line :: lines) := by
  induction lines generalizing line with
  | nil => simp [fileText]
  | cons next lines ih =>
    rw [String.intercalate_cons_cons, fileText, ← ih next]
    simp [String.append_assoc]

theorem serializeEntries_fileText (entries : List MemoryStoreEntry) :
    serializeEntries env entries = fileText (entries.map (entryLine env)) := by
  cases entries with
  | nil => simp [serializeEntries, fileText]
  | cons e entries =>
    have hline : entryLine env e ≠ "" := env.json.stringify_ne _
    have hne : String.intercalate "\n" ((e :: entries).map (entryLine env)) ≠ "" := by
      cases entries with
      | nil => simpa using hline
      | cons x entries => simp [String.intercalate_cons_cons, hline]
    rw [serializeEntries]
    simp only [hne, if_false]
    exact intercalate_lines _ _

theorem lineRecord_normalized {env : StoreEnv} {line : String} {e : MemoryStoreEntry}
    (h : lineRecord env line = some (.put e)) : Normalized env.rt e := by
  unfold lineRecord at h
  split at h
  · cases h
  · split at h
    · cases h
    · split at h
      · cases h
      · cases h
      · split at h
        · cases h
        · cases h
        · rename_i entry he
          cases h
          exact normalized_of_entry he

theorem loaded_normalized (file : Option String) :
    ∀ e ∈ loadStoreEntries env.toStore (some .posInf) file, Normalized env.rt e := by
  intro e he
  rw [loadStoreEntries_live] at he
  have hput : Record.put e ∈ storeLog env.toStore file := mem_log_of_live he
  cases file with
  | none => cases hput
  | some raw =>
    obtain ⟨line, -, hline⟩ := List.mem_filterMap.mp hput
    exact lineRecord_normalized hline

theorem compactStore_some (raw : String) :
    compactStore env (some raw) =
      some (fileText ((loadStoreEntries env.toStore (some .posInf) (some raw)).map
        (entryLine env))) := by
  rw [← serializeEntries_fileText]
  rfl

/-- The log of a compacted file is the list of live entries. -/
theorem storeLog_compactStore (env : WriteEnv) (raw : String) :
    storeLog env.toStore (compactStore env (some raw)) =
      (live (·.id) (storeLog env.toStore (some raw))).map .put := by
  rw [compactStore_some, storeLog_entries (loaded_normalized _), loadStoreEntries_live]

theorem applyWrite_some (env : WriteEnv) (w : StoreWrite) :
    ∃ text, ∀ raw, applyWrite env (some raw) w = some (raw ++ text) := by
  cases w with
  | entry e => exact ⟨_, fun raw => rfl⟩
  | deletes markers =>
    by_cases h : markers.isEmpty = true
    · refine ⟨"", fun raw => ?_⟩
      simp [applyWrite, appendStoreDeleteMarkers, h]
    · refine ⟨String.intercalate "\n" (markers.map fun m => env.json.stringify m.toValue) ++ "\n",
        fun raw => ?_⟩
      simp only [applyWrite, appendStoreDeleteMarkers, h, Bool.false_eq_true, if_false]
      rfl

/-- Later writes append one text, whatever the file holds. -/
theorem applyWrites_some (env : WriteEnv) (writes : List StoreWrite) :
    ∃ text, ∀ raw, writes.foldl (applyWrite env) (some raw) = some (raw ++ text) := by
  induction writes with
  | nil => exact ⟨"", fun raw => by simp⟩
  | cons w writes ih =>
    obtain ⟨first, hfirst⟩ := applyWrite_some env w
    obtain ⟨rest, hrest⟩ := ih
    refine ⟨first ++ rest, fun raw => ?_⟩
    rw [List.foldl_cons, hfirst, hrest, String.append_assoc]

theorem compactStore_compactStore (file : Option String) :
    compactStore env (compactStore env file) = compactStore env file := by
  cases file with
  | none => rfl
  | some raw =>
    have hload : loadStoreEntries env.toStore (some .posInf) (compactStore env (some raw)) =
        loadStoreEntries env.toStore (some .posInf) (some raw) := by
      rw [loadStoreEntries_live, loadStoreEntries_live, storeLog_compactStore,
        live_puts (live_keys_nodup _)]
    rw [compactStore_some raw] at hload ⊢
    rw [compactStore_some, hload]

/-- Compaction changes no later load, and a second compaction changes nothing. -/
theorem compact_preserves_loads (env : WriteEnv) (lines : List String)
    (writes : List StoreWrite) :
    loadStoreEntries env.toStore (some .posInf)
        (writes.foldl (applyWrite env) (compactStore env (some (fileText lines)))) =
      loadStoreEntries env.toStore (some .posInf)
        (writes.foldl (applyWrite env) (some (fileText lines))) ∧
      compactStore env (compactStore env (some (fileText lines))) =
        compactStore env (some (fileText lines)) := by
  refine ⟨?_, compactStore_compactStore _⟩
  obtain ⟨text, htext⟩ := applyWrites_some env writes
  have hlog := storeLog_compactStore env (fileText lines)
  rw [compactStore_some] at hlog ⊢
  rw [htext, htext, loadStoreEntries_live (some (fileText _ ++ text)), storeLog_append, hlog,
    loadStoreEntries_live, storeLog_append]
  exact live_compact_append _ _

end T560.Memory
