import T560.Foundation.ReplayLog
import T560.Memory.Store

/-!
# Loading the store is replaying its log

Every line of the store file holds at most one record. The scan from the end of the file and
the search for one id agree with the forward replay of these records.
-/

namespace T560.Memory

open Js (Value Runtime trim normalizeLineBreaks exists_of_bind_ok)
open Js.Value (trimmedText)
open ReplayLog

abbrev StoreRecord := Record String MemoryStoreEntry

section Parse
variable {rt : Runtime} {raw : Value}

/-- What a parsed entry owes to the fields of its line. -/
structure EntryOf (rt : Runtime) (raw : Value) (e : MemoryStoreEntry) : Prop where
  id : trimmedText rt [raw.get? "id"] = .ok e.id
  id_ne : e.id ≠ ""
  title : trimmedText rt [raw.get? "title"] = .ok e.title
  title_ne : e.title ≠ ""
  content : trimmedText rt [raw.get? "content"] = .ok e.content
  content_ne : e.content ≠ ""
  createdAt : trimmedText rt [raw.get? "createdAt"] = .ok e.createdAt
  createdAt_ne : e.createdAt ≠ ""
  updatedAt : e.updatedAt = e.createdAt ∨
    ∃ vs, trimmedText rt vs = .ok e.updatedAt ∧ e.updatedAt ≠ ""
  lastAccessedAt : e.lastAccessedAt = e.updatedAt ∨
    ∃ vs, trimmedText rt vs = .ok e.lastAccessedAt ∧ e.lastAccessedAt ≠ ""
  reinforceCount : clampInt rt (raw.get? "reinforceCount") 0 10000 0 = .ok e.reinforceCount
  tags : normalizeTags rt (raw.get? "tags") = .ok e.tags
  importance : clampInt rt (raw.get? "importance") 1 5 DEFAULT_IMPORTANCE = .ok e.importance
  confidence : clampNumber rt (raw.get? "confidence") MIN_CONFIDENCE 1 DEFAULT_CONFIDENCE =
    .ok e.confidence
  source : normalizeSource rt (raw.get? "source") "user" = .ok e.source
  memoryNamespace : normalizeNamespace rt (raw.get? "namespace") DEFAULT_NAMESPACE =
    .ok e.memoryNamespace

theorem parseStoreEntry_fields {e : MemoryStoreEntry} (h : parseStoreEntry rt raw = .ok (some e)) :
    EntryOf rt raw e := by
  unfold parseStoreEntry at h
  split at h
  · cases h
  · obtain ⟨id, hid, h⟩ := exists_of_bind_ok h
    obtain ⟨title, htitle, h⟩ := exists_of_bind_ok h
    obtain ⟨content, hcontent, h⟩ := exists_of_bind_ok h
    obtain ⟨createdAt, hcreated, h⟩ := exists_of_bind_ok h
    obtain ⟨updatedAt, hupdated, h⟩ := exists_of_bind_ok h
    obtain ⟨lastAccessedAt, haccessed, h⟩ := exists_of_bind_ok h
    obtain ⟨reinforceCount, hreinforce, h⟩ := exists_of_bind_ok h
    obtain ⟨tags, htags, h⟩ := exists_of_bind_ok h
    obtain ⟨importance, himportance, h⟩ := exists_of_bind_ok h
    obtain ⟨confidence, hconfidence, h⟩ := exists_of_bind_ok h
    obtain ⟨source, hsource, h⟩ := exists_of_bind_ok h
    obtain ⟨space, hspace, h⟩ := exists_of_bind_ok h
    obtain ⟨tier, htier, h⟩ := exists_of_bind_ok h
    split at h
    · cases h
    · rename_i hne
      simp only [Bool.or_eq_true, decide_eq_true_eq, not_or] at hne
      obtain ⟨⟨⟨hid', htitle'⟩, hcontent'⟩, hcreated'⟩ := hne
      cases h
      refine ⟨hid, hid', htitle, htitle', hcontent, hcontent', hcreated, hcreated', ?_, ?_,
        hreinforce, htags, himportance, hconfidence, hsource, hspace⟩
      · by_cases hu : updatedAt = ""
        · exact Or.inl (if_pos hu)
        · refine Or.inr ⟨[raw.get? "updatedAt", some (.str createdAt)], ?_, ?_⟩
          · simpa only [if_neg hu] using hupdated
          · simpa only [if_neg hu] using hu
      · by_cases hl : lastAccessedAt = ""
        · exact Or.inl (if_pos hl)
        · refine Or.inr ⟨[raw.get? "lastAccessedAt", some (.str updatedAt)], ?_, ?_⟩
          · simpa only [if_neg hl] using haccessed
          · simpa only [if_neg hl] using hl

theorem parseStoreDeleteMarker_id {m : MemoryStoreDeleteMarker}
    (h : parseStoreDeleteMarker rt raw = .ok (some m)) :
    trimmedText rt [raw.get? "id"] = .ok m.id := by
  unfold parseStoreDeleteMarker at h
  split at h
  · cases h
  · obtain ⟨type, -, h⟩ := exists_of_bind_ok h
    split at h
    · cases h
    · obtain ⟨id, hid, h⟩ := exists_of_bind_ok h
      obtain ⟨deletedAt, -, h⟩ := exists_of_bind_ok h
      obtain ⟨reason, -, h⟩ := exists_of_bind_ok h
      split at h
      · cases h
      · cases h
        exact hid

end Parse

variable (env : StoreEnv)

/-- The record a line holds. A tombstone takes precedence over an entry. -/
def lineRecord (line : String) : Option StoreRecord :=
  if trim line = "" then none
  else
    match env.parse (trim line) with
    | none => none
    | some parsed =>
      match parseStoreDeleteMarker env.rt parsed with
      | .error _ => none
      | .ok (some deleted) => some (.del deleted.id)
      | .ok none =>
        match parseStoreEntry env.rt parsed with
        | .error _ | .ok none => none
        | .ok (some entry) => some (.put entry)

/-- The log of a store file, which may be absent. -/
def storeLog (file : Option String) : List StoreRecord :=
  match file with
  | none => []
  | some raw => (normalizeLineBreaks raw).filterMap (lineRecord env)

variable {env}

/-- What a line does to the scan, by the record it holds. -/
theorem readLine_record (st : LoadState) (line : String) :
    (readLine env st line).1 =
      match lineRecord env line with
      | none => st
      | some (.del k) => { st with deletedIds := k :: st.deletedIds }
      | some (.put e) =>
        if e.id ∈ st.deletedIds ∨ e.id ∈ st.seenIds then st
        else { st with out := st.out ++ [e], seenIds := e.id :: st.seenIds } := by
  unfold readLine lineRecord
  dsimp only
  split
  · rfl
  · cases env.parse (trim line) with
    | none => rfl
    | some parsed =>
      dsimp only
      cases parseStoreDeleteMarker env.rt parsed with
      | error e => rfl
      | ok deleted =>
        cases deleted with
        | some m => rfl
        | none =>
          dsimp only
          cases parseStoreEntry env.rt parsed with
          | error e => rfl
          | ok entry =>
            cases entry with
            | none => rfl
            | some e =>
              dsimp only
              by_cases hd : e.id ∈ st.deletedIds
              · simp [hd]
              · by_cases hs : e.id ∈ st.seenIds
                · simp [hs]
                · simp [hd, hs]

/-- Without a limit the scan over the lines is the scan over their records. -/
theorem scanLines_out (lines : List String) (st : LoadState) :
    (scanLines env none lines st).out =
      st.out ++ scan (·.id) (lines.filterMap (lineRecord env)) st.seenIds st.deletedIds := by
  induction lines generalizing st with
  | nil => simp [scanLines, scan]
  | cons line rest ih =>
    have hstep : scanLines env none (line :: rest) st =
        scanLines env none rest (readLine env st line).1 := by
      simp [scanLines]
    rw [hstep, ih, readLine_record, List.filterMap_cons]
    cases lineRecord env line with
    | none => rfl
    | some r =>
      cases r with
      | del k => rfl
      | put e =>
        dsimp only
        rw [scan]
        by_cases h : e.id ∈ st.deletedIds ∨ e.id ∈ st.seenIds
        · rw [if_pos h, if_pos h]
        · rw [if_neg h, if_neg h]
          simp

theorem searchLine_record (targetId : String) (line : String) :
    searchLine env targetId none line =
      match lineRecord env line with
      | none => none
      | some r => if r.keyOf (·.id) = targetId then some r.value? else none := by
  unfold searchLine lineRecord
  dsimp only
  split
  · rfl
  · cases env.parse (trim line) with
    | none => rfl
    | some parsed =>
      dsimp only
      cases hm : parseStoreDeleteMarker env.rt parsed with
      | error e => rfl
      | ok deleted =>
        cases deleted with
        | some m =>
          by_cases hk : m.id = targetId
          · simp [hk, Record.keyOf, Record.value?]
          · cases he : parseStoreEntry env.rt parsed with
            | error e => simp [hk, Record.keyOf]
            | ok entry =>
              cases entry with
              | none => simp [hk, Record.keyOf]
              | some e =>
                have hid : e.id = m.id := by
                  have h1 := (parseStoreEntry_fields he).id
                  rw [parseStoreDeleteMarker_id hm] at h1
                  exact (Except.ok.inj h1).symm
                simp [hk, hid, Record.keyOf]
        | none =>
          cases parseStoreEntry env.rt parsed with
          | error e => rfl
          | ok entry =>
            cases entry with
            | none => rfl
            | some e =>
              by_cases hk : e.id = targetId
              · simp [hk, Record.keyOf, Record.value?]
              · simp [hk, Record.keyOf]

theorem searchLines_find (targetId : String) (lines : List String) :
    searchLines env targetId none lines =
      find (·.id) targetId (lines.filterMap (lineRecord env)) := by
  induction lines with
  | nil => rfl
  | cons line rest ih =>
    rw [searchLines, searchLine_record, List.filterMap_cons]
    cases lineRecord env line with
    | none => exact ih
    | some r =>
      dsimp only
      rw [find]
      by_cases hk : r.keyOf (·.id) = targetId
      · rw [if_pos hk, if_pos hk]
      · rw [if_neg hk, if_neg hk, ih]

theorem loadStoreEntries_live (file : Option String) :
    loadStoreEntries env (some .posInf) file = live (·.id) (storeLog env file) := by
  cases file with
  | none => rfl
  | some raw =>
    simp only [loadStoreEntries, resolveMaxEntries, storeLog, scanLines_out, List.nil_append,
      List.filterMap_reverse]
    exact scan_reverse _

theorem readLine_continued {st : LoadState} {line : String} (h : (readLine env st line).2 = true) :
    (readLine env st line).1.out = st.out := by
  unfold readLine at h ⊢
  dsimp only at h ⊢
  split
  · rfl
  · next hblank =>
    rw [if_neg hblank] at h
    cases hparse : env.parse (trim line) with
    | none => rfl
    | some parsed =>
      rw [hparse] at h
      dsimp only at h ⊢
      cases hmarker : parseStoreDeleteMarker env.rt parsed with
      | error e => rfl
      | ok deleted =>
        cases deleted with
        | some m => rfl
        | none =>
          rw [hmarker] at h
          dsimp only at h ⊢
          cases hentry : parseStoreEntry env.rt parsed with
          | error e => rfl
          | ok entry =>
            cases entry with
            | none => rfl
            | some e =>
              rw [hentry] at h
              dsimp only at h ⊢
              by_cases hd : e.id ∈ st.deletedIds
              · simp [hd]
              · by_cases hs : e.id ∈ st.seenIds
                · simp [hs]
                · simp [hd, hs] at h

theorem length_readLine (st : LoadState) (line : String) :
    (readLine env st line).1.out.length ≤ st.out.length + 1 := by
  rw [readLine_record]
  split
  · omega
  · exact Nat.le_succ _
  · split
    · exact Nat.le_succ _
    · simp

/-- With a limit the scan stops at the first entries the whole scan finds. -/
theorem scanLines_limit (n : Nat) (lines : List String) {st : LoadState} (hst : st.out.length < n) :
    (scanLines env (some n) lines st).out = (scanLines env none lines st).out.take n := by
  induction lines generalizing st with
  | nil => exact (List.take_of_length_le hst.le).symm
  | cons line rest ih =>
    have hall : scanLines env none (line :: rest) st =
        scanLines env none rest (readLine env st line).1 := by
      simp [scanLines]
    have hlength := @length_readLine env st line
    have hcontinued := @readLine_continued env st line
    rw [hall, scanLines]
    rcases hread : readLine env st line with ⟨next, continued⟩
    rw [hread] at hlength hcontinued
    dsimp only at hlength hcontinued ⊢
    by_cases hstop : (!continued && (some n).any (· ≤ next.out.length)) = true
    · rw [if_pos hstop]
      have hfull : next.out.length = n := by
        simp only [Option.any_some, Bool.and_eq_true, decide_eq_true_eq] at hstop
        omega
      rw [scanLines_out, ← hfull, List.take_left]
    · rw [if_neg hstop]
      apply ih
      cases continued with
      | true =>
        rw [hcontinued rfl]
        exact hst
      | false => simpa using hstop

/-- Loading with a limit gives the last live entries. -/
theorem loadStoreEntries_limit {limit : Option Js.Num} {n : Nat}
    (hlimit : resolveMaxEntries limit = some n) (hn : 0 < n) (file : Option String) :
    loadStoreEntries env limit file = (live (·.id) (storeLog env file)).rtake n := by
  rw [← loadStoreEntries_live]
  cases file with
  | none => simp [loadStoreEntries]
  | some raw =>
    have hall : resolveMaxEntries (some .posInf) = none := rfl
    rw [loadStoreEntries, loadStoreEntries, hlimit, hall, scanLines_limit n _ (by simpa using hn),
      List.rtake_eq_reverse_take_reverse, List.reverse_reverse]

/-- Whatever the limit, only live entries are loaded. -/
theorem loadStoreEntries_subset (limit : Option Js.Num) (file : Option String) :
    loadStoreEntries env limit file ⊆ loadStoreEntries env (some .posInf) file := by
  cases hlimit : resolveMaxEntries limit with
  | none =>
    have hsame : loadStoreEntries env limit file = loadStoreEntries env (some .posInf) file := by
      unfold loadStoreEntries
      rw [hlimit]
      rfl
    rw [hsame]
    exact List.Subset.refl _
  | some n =>
    have hn : 0 < n := by
      unfold resolveMaxEntries at hlimit
      split at hlimit
      · cases hlimit
      · obtain rfl := Option.some.inj hlimit
        omega
      · obtain rfl := Option.some.inj hlimit
        decide
    rw [loadStoreEntries_limit hlimit hn, loadStoreEntries_live]
    exact List.drop_subset _ _

theorem findStoreEntryById_replay (targetId : String) (file : Option String) :
    findStoreEntryById env targetId none file = replay (·.id) (storeLog env file) targetId := by
  cases file with
  | none => rfl
  | some raw =>
    simp only [findStoreEntryById, storeLog, searchLines_find, List.filterMap_reverse]
    exact find_reverse _ _

/-- Loading without a limit gives the live entries of the forward replay, each id once and in
the order of the records that decide them, and the search by id agrees with that list. -/
theorem load_replays_log (env : StoreEnv) (file : Option String) :
    loadStoreEntries env (some .posInf) file = live (·.id) (storeLog env file) ∧
      (∀ e, e ∈ loadStoreEntries env (some .posInf) file ↔
        replay (·.id) (storeLog env file) e.id = some e) ∧
      ((loadStoreEntries env (some .posInf) file).map (·.id)).Nodup ∧
      ∀ targetId, findStoreEntryById env targetId none file =
        (loadStoreEntries env (some .posInf) file).find? fun e => e.id = targetId := by
  rw [loadStoreEntries_live]
  refine ⟨rfl, fun e => mem_live_iff, live_keys_nodup _, fun targetId => ?_⟩
  rw [findStoreEntryById_replay, find?_live]

end T560.Memory
