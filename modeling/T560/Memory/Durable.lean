import Mathlib.Algebra.Order.BigOperators.Group.List
import T560.Memory.Quota

/-!
# Durability of a save

A save appends to the store file without looking at its end. Behind a last line that is ended
nothing is lost; behind an open one the first appended record is glued to it, and both are
unreadable.
-/

namespace T560.Memory

open Js (Value Runtime trim)
open ReplayLog

/-- What a save must leave: its entry is found, and what it does not report gone is there. -/
structure Durable (env : StoreEnv) (report : SaveReport) (file after : Option String) : Prop where
  found : findStoreEntryById env report.entry.id none after = some report.entry
  kept : ∀ e ∈ loadStoreEntries env (some .posInf) file, e.id ≠ report.entry.id →
    e.id ∉ report.evictedIds → e.id ∉ report.replacedIds →
    e ∈ loadStoreEntries env (some .posInf) after

section Ended
variable {env : SaveEnv} {call : SaveCall} {file after : Option String} {report : SaveReport}

theorem Saved.durable (h : Saved env call file after report) (hfile : LineEnded file) :
    Durable env.toStore report file after where
  found := by
    rw [findStoreEntryById_replay, ← mem_live_iff, ← loadStoreEntries_live]
    exact h.entry_live hfile
  kept e he hid hevicted hreplaced := (h.mem_after hfile hid).mpr ⟨he, hreplaced, hevicted⟩

end Ended

section Open
variable {env : SaveEnv} {call : SaveCall} {raw : String} {after : Option String}
  {report : SaveReport}

/-- An object behind an open line is no record, and the open line is none any more. -/
theorem storeLog_glued (hglued : env.json.RejectsGlued) (hopen : trim (openLine raw) ≠ "")
    (fields : List (String × Value)) :
    ∀ r ∈ storeLog env.toStore (some (raw ++ (env.json.stringify (.obj fields) ++ "\n"))),
      r ∈ storeLog env.toStore (some raw) := by
  obtain ⟨lines, hlines⟩ := exists_fileText_openLine raw
  have hline : ∀ c ∈ (openLine raw ++ env.json.stringify (.obj fields)).toList, c ≠ '\n' := by
    intro c hc
    rw [String.toList_append] at hc
    rcases List.mem_append.mp hc with hc | hc
    · exact openLine_noFeed raw c hc
    · exact env.json.stringify_line _ c hc
  have hnone : lineRecord env.toStore (openLine raw ++ env.json.stringify (.obj fields)) = none := by
    unfold lineRecord
    split
    · rfl
    · simp only [WriteEnv.toStore, hglued _ fields hopen]
  have hfeed : raw ++ (env.json.stringify (.obj fields) ++ "\n") =
      fileText lines ++ (openLine raw ++ env.json.stringify (.obj fields) ++ "\n" ++ "") := by
    conv_lhs => rw [hlines]
    simp only [String.append_assoc, String.append_empty]
  intro r hr
  rw [hfeed, storeLog_append, storeLog_line, storeLog_single _ hline, hnone, storeLog_empty] at hr
  rw [hlines, storeLog_append]
  exact List.mem_append_left _ (by simpa using hr)

/-- A save that replaces nothing and takes a fresh id loses its entry behind an open line. -/
theorem Saved.lost (h : Saved env call (some raw) after report) (hglued : env.json.RejectsGlued)
    (hopen : trim (openLine raw) ≠ "") (hreplaced : report.replacedIds = [])
    (hfresh : ∀ e, Record.put e ∈ storeLog env.toStore (some raw) → e.id ≠ report.entry.id) :
    findStoreEntryById env.toStore report.entry.id none after = none := by
  have hwritten : writtenFile env call report (some raw) =
      some (raw ++ (env.json.stringify report.entry.toValue ++ "\n")) := by
    rw [writtenFile, hreplaced]
    rfl
  have hended : LineEnded (writtenFile env call report (some raw)) := by
    rw [hwritten]
    rintro _ ⟨⟩
    rw [← String.append_assoc, openLine_feed]
    decide
  rw [findStoreEntryById_replay, (h.evicted_log hended).1, hwritten]
  cases hfound : replay (·.id) (storeLog env.toStore (some (raw ++
      (env.json.stringify report.entry.toValue ++ "\n"))) ++ report.evictedIds.map .del)
      report.entry.id with
  | none => rfl
  | some e =>
    have hid : e.id = report.entry.id := replay_key hfound
    have hput : Record.put e ∈ storeLog env.toStore (some (raw ++
        (env.json.stringify report.entry.toValue ++ "\n"))) ++ report.evictedIds.map .del :=
      mem_log_of_live (mem_live_iff.mpr (hid ▸ hfound))
    rcases List.mem_append.mp hput with hput | hput
    · exact absurd hid (hfresh e (storeLog_glued hglued hopen _ _ hput))
    · obtain ⟨id, -, hdel⟩ := List.mem_map.mp hput
      cases hdel

/-- Some trimmed text is not in a list. -/
theorem exists_trimmed_not_mem (ids : List String) : ∃ id, Trimmed id ∧ id ∉ ids := by
  have hlong : ∃ n, ∀ id ∈ ids, id.toList.length ≤ n := by
    refine ⟨(ids.map fun id => id.toList.length).sum, fun id hid => ?_⟩
    exact List.single_le_sum (by simp) _ (List.mem_map_of_mem hid)
  obtain ⟨n, hn⟩ := hlong
  have hspace : ∀ c ∈ (String.ofList (List.replicate (n + 1) 'x')).toList, Js.isSpace c = false := by
    intro c hc
    rw [String.toList_ofList] at hc
    rw [List.eq_of_mem_replicate hc]
    decide
  refine ⟨String.ofList (List.replicate (n + 1) 'x'), ⟨Js.trim_eq_self_of_noSpace hspace, ?_⟩, ?_⟩
  · intro h
    have := congrArg (fun s => s.toList.length) h
    simp at this
  · intro hmem
    have := hn _ hmem
    simp at this

end Open

section Plain

/-- A call whose title has no letter or digit, and so matches no entry. -/
def plainCall (uuid : String) (h : Trimmed uuid) : SaveCall where
  params := .obj [("title", .str "!"), ("content", .str "!")]
  now := "2026-01-01T00:00:00.000Z"
  today := "2026-01-01"
  evictedAt := "2026-01-01T00:00:00.001Z"
  uuid := uuid
  now_trimmed := newYear_trimmed
  evictedAt_trimmed := afterNewYear_trimmed
  uuid_trimmed := h

def plainRequest (env : SaveEnv) : SaveRequest where
  title := "!"
  content := "!"
  tags := []
  importance := DEFAULT_IMPORTANCE
  confidence := DEFAULT_CONFIDENCE
  source := "user"
  memoryNamespace := env.defaultNamespace
  trustTier := .verified
  onConflict := .upsert

theorem loweredText_absent (rt : Runtime) : loweredText rt none = .ok "" := by
  rw [loweredText, Js.Value.trimmedText_absent, Js.ok_bind, rt.toLowerCase_empty]
  rfl

theorem normalizeSlug_absent (rt : Runtime) (low high : Nat) (fallback : String) :
    normalizeSlug rt low high fallback none = .ok fallback := by
  rw [normalizeSlug, loweredText_absent, Js.ok_bind]
  rfl

theorem readRequest_plain (env : SaveEnv) (uuid : String) (h : Trimmed uuid) :
    readRequest env (plainCall uuid h).params = .ok (plainRequest env, some .upsert) := by
  have hupsert : env.rt.toLowerCase "upsert" = "upsert" := by
    rw [env.rt.lower_ascii _ (by decide)]
    decide
  have htier : normalizeTrustTier env.rt none .verified = .ok .verified := by
    rw [normalizeTrustTier, loweredText_absent, Js.ok_bind]
    rfl
  have htitle : (plainCall uuid h).params.get? "title" = some (.str "!") := rfl
  have hcontent : (plainCall uuid h).params.get? "content" = some (.str "!") := rfl
  have habsent : ∀ key ∈ ["tags", "importance", "confidence", "source", "namespace", "trustTier",
      "onConflict"], (plainCall uuid h).params.get? key = none := by
    have hlookup : ∀ key ∈ ["tags", "importance", "confidence", "source", "namespace", "trustTier",
        "onConflict"], [("title", Value.str "!"), ("content", .str "!")].lookup key = none := by
      decide
    exact hlookup
  simp only [List.forall_mem_cons] at habsent
  obtain ⟨htags, himportance, hconfidence, hsource, hspace, htrust, hconflict, -⟩ := habsent
  have hstrategy : Js.Value.trimmedText env.rt [none, some (.str "upsert")] = .ok "upsert" := by
    rfl
  unfold readRequest
  rw [htitle, hcontent, htags, himportance, hconfidence, hsource, hspace, htrust, hconflict, hstrategy,
    normalizeSource, normalizeNamespace, normalizeSlug_absent, normalizeSlug_absent,
    Js.Value.trimmedText_str]
  simp only [Js.ok_bind, if_true, htier, hupsert]
  rfl

theorem checkRequest_plain (env : SaveEnv) (uuid : String) (h : Trimmed uuid) :
    checkRequest env (plainCall uuid h).params = .ok (plainRequest env) := by
  have hsecret : containsLikelySecret "!\n!\n" = false := by decide
  have htext : (plainRequest env).title ++ "\n" ++ (plainRequest env).content ++ "\n" ++
      String.intercalate " " (plainRequest env).tags = "!\n!\n" := by
    change "!" ++ "\n" ++ "!" ++ "\n" ++ String.intercalate " " [] = "!\n!\n"
    decide
  rw [checkRequest, readRequest_plain]
  simp only [htext, hsecret]
  rfl

theorem pickStoreEntryForUpsert_plain (rt : Runtime) (entries : List MemoryStoreEntry)
    (content : String) : pickStoreEntryForUpsert rt entries "!" content = none := by
  have hkey : normalizeTitleKey rt "!" = "" := by
    rw [normalizeTitleKey, rt.lower_ascii _ (by decide)]
    decide
  rw [pickStoreEntryForUpsert]
  simp only [hkey, if_true]

/-- On a file with an open last line some call loses the entry it reports as saved. -/
theorem exists_lost_save {env : SaveEnv} (hglued : env.json.RejectsGlued) {raw : String}
    (hopen : trim (openLine raw) ≠ "") :
    ∃ call report after, memorySave env call (some raw) = .ok (report, after) ∧
      findStoreEntryById env.toStore report.entry.id none after = none := by
  obtain ⟨uuid, huuid, hfresh⟩ :=
    exists_trimmed_not_mem ((storeLog env.toStore (some raw)).map (Record.keyOf (·.id)))
  obtain ⟨report, after, hsave, hentry, hreplaced⟩ := memorySave_new
    (checkRequest_plain env uuid huuid) (pickStoreEntryForUpsert_plain env.rt _ _)
  refine ⟨_, report, after, hsave, (memorySave_saved hsave).lost hglued hopen (hreplaced rfl) ?_⟩
  intro e he hid
  rw [hentry] at hid
  exact hfresh (List.mem_map.mpr ⟨_, he, hid⟩)

end Plain

/-- Every save to a file is durable exactly when nothing but white space stands behind the last
line feed of the file. -/
theorem memorySave_durable_iff (env : SaveEnv) (hglued : env.json.RejectsGlued)
    (file : Option String) :
    (∀ call report after, memorySave env call file = .ok (report, after) →
      Durable env.toStore report file after) ↔ LineEnded file := by
  constructor
  · intro hdurable raw hraw
    by_contra hopen
    cases hraw
    obtain ⟨call, report, after, hsave, hlost⟩ := exists_lost_save hglued hopen
    have hfound := (hdurable call report after hsave).found
    rw [hlost] at hfound
    cases hfound
  · intro hfile call report after hsave
    exact (memorySave_saved hsave).durable hfile

theorem memorySave_durable_work :
    ∃ (env : SaveEnv) (file : Option String),
      loadStoreEntries env.toStore (some .posInf) file = [workEntry] ∧
      ∀ call report after, memorySave env call file = .ok (report, after) →
        Durable env.toStore report file after := by
  obtain ⟨json, hglued⟩ := Js.exists_json_rejectsGlued
  refine ⟨_, _, workFile_entries json, ?_⟩
  exact (memorySave_durable_iff (oneEntryEnv json) hglued _).mpr (workFile_log json).2

/-- A save behind an entry whose line is not ended: both entries are unreadable afterwards. -/
theorem save_behind_open_line_lost :
    (∃ json : Js.Json, json.RejectsGlued) ∧
    ∀ json : Js.Json, json.RejectsGlued →
      ∃ report after,
        memorySave (oneEntryEnv json) firstCall
          (some (entryLine (oneEntryEnv json).toWriteEnv workEntry)) = .ok (report, after) ∧
        findStoreEntryById (oneEntryEnv json).toStore report.entry.id none after = none ∧
        ¬ Durable (oneEntryEnv json).toStore report
          (some (entryLine (oneEntryEnv json).toWriteEnv workEntry)) after := by
  refine ⟨Js.exists_json_rejectsGlued, fun json hglued => ?_⟩
  have hlog := @storeLog_entryLine (oneEntryEnv json).toWriteEnv workEntry
    (workEntry_normalized Js.asciiRuntime)
  have hnone : pickStoreEntryForUpsert Js.asciiRuntime (inNamespace firstRequest.memoryNamespace
      (loadStoreEntries (oneEntryEnv json).toStore (some .posInf)
        (some (entryLine (oneEntryEnv json).toWriteEnv workEntry)))) firstRequest.title
      firstRequest.content = none := by
    rw [loadStoreEntries_live, hlog]
    exact pickStoreEntryForUpsert_nil _ _ _
  obtain ⟨report, after, hsave, hentry, hreplaced⟩ := memorySave_new (firstCall_request json) hnone
  have hopen : trim (openLine (entryLine (oneEntryEnv json).toWriteEnv workEntry)) ≠ "" := by
    have hline : ∀ c ∈ (entryLine (oneEntryEnv json).toWriteEnv workEntry).toList, c ≠ '\n' :=
      json.stringify_line _
    rw [openLine_self hline]
    exact (json.trim_stringify _).trans_ne (json.stringify_ne _)
  have hlost := (memorySave_saved hsave).lost hglued hopen (hreplaced rfl) (by
    intro e he
    rw [hlog] at he
    cases List.mem_singleton.mp he
    rw [hentry]
    decide)
  refine ⟨report, after, hsave, hlost, fun hdurable => ?_⟩
  have hfound := hdurable.found
  rw [hlost] at hfound
  cases hfound

end T560.Memory
