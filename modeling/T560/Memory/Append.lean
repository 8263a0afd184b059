import T560.Memory.Compact

/-!
# Appending to a store file

A line appended to a file is read as a line of its own when nothing but white space stands
behind the last line feed of the file; otherwise it is glued to what stands there.
-/

namespace T560.Memory

open Js (Value Runtime trim trimChars)
open Js.Value (trimmedText)
open ReplayLog

/-- What stands behind the last line feed. -/
def openLine (raw : String) : String := String.ofList (raw.toList.rtakeWhile (· ≠ '\n'))

/-- Nothing but white space stands behind the last line feed of the file. -/
def LineEnded (file : Option String) : Prop := ∀ raw ∈ file, trim (openLine raw) = ""

section Lines

theorem openLine_noFeed (raw : String) : ∀ c ∈ (openLine raw).toList, c ≠ '\n' := by
  intro c hc
  rw [openLine, String.toList_ofList] at hc
  simpa using List.mem_rtakeWhile_imp hc

theorem openLine_self {raw : String} (h : ∀ c ∈ raw.toList, c ≠ '\n') : openLine raw = raw := by
  have hself : raw.toList.rtakeWhile (fun c => decide (c ≠ '\n')) = raw.toList :=
    List.rtakeWhile_eq_self_iff.mpr fun c hc => decide_eq_true (h c hc)
  rw [openLine, hself, String.ofList_toList]

theorem openLine_feed (raw : String) : openLine (raw ++ "\n") = "" := by
  have hneg : List.rtakeWhile (fun c => decide (c ≠ '\n')) (raw.toList ++ ['\n']) = [] :=
    List.rtakeWhile_concat_neg _ _ _ (by simp)
  rw [openLine, String.toList_append, show "\n".toList = ['\n'] from rfl, hneg, String.ofList_nil]

theorem fileText_append (xs ys : List String) : fileText (xs ++ ys) = fileText xs ++ fileText ys := by
  induction xs with
  | nil => simp [fileText]
  | cons line xs ih => simp only [List.cons_append, fileText, ih, String.append_assoc]

theorem openLine_append_fileText (raw line : String) (lines : List String) :
    openLine (raw ++ fileText (line :: lines)) = "" := by
  obtain ⟨front, last, hlast⟩ : ∃ front last, line :: lines = front ++ [last] :=
    ⟨_, _, (List.dropLast_append_getLast (List.cons_ne_nil line lines)).symm⟩
  have hend : fileText [last] = last ++ "\n" := by simp [fileText]
  rw [hlast, fileText_append, hend, ← String.append_assoc, ← String.append_assoc, openLine_feed]

/-- A file is a list of ended lines and an open one. -/
theorem exists_fileText_openLine (raw : String) : ∃ lines, raw = fileText lines ++ openLine raw := by
  obtain ⟨cs, rfl⟩ : ∃ cs, raw = String.ofList cs := ⟨raw.toList, by simp⟩
  induction cs using List.reverseRecOn with
  | nil => exact ⟨[], by simp [openLine, fileText]⟩
  | append_singleton cs c ih =>
    obtain ⟨lines, hlines⟩ := ih
    by_cases hc : c = '\n'
    · subst hc
      refine ⟨lines ++ [openLine (String.ofList cs)], ?_⟩
      rw [String.ofList_append, show String.ofList ['\n'] = "\n" from rfl, openLine_feed,
        fileText_append, fileText, fileText, String.append_empty, String.append_empty,
        ← String.append_assoc, ← hlines]
    · have hopen : openLine (String.ofList (cs ++ [c])) =
          openLine (String.ofList cs) ++ String.ofList [c] := by
        rw [openLine, openLine, String.toList_ofList, String.toList_ofList,
          List.rtakeWhile_concat_pos _ _ _ (by simpa using hc), String.ofList_append]
      exact ⟨lines, by rw [hopen, ← String.append_assoc, ← hlines, String.ofList_append]⟩

end Lines

section Log
variable (env : StoreEnv)

/-- A text of one line holds the record of that line. -/
theorem storeLog_single {line : String} (h : ∀ c ∈ line.toList, c ≠ '\n') :
    storeLog env (some line) = (lineRecord env line).toList := by
  rw [storeLog_splitLines, Js.splitLines_single h, List.filterMap_cons, charsRecord]
  have htrim : lineRecord env (String.ofList (trimChars line.toList)) = lineRecord env line :=
    lineRecord_trim env line
  rw [htrim]
  cases lineRecord env line <;> rfl

/-- White space in front of a line does not show. -/
theorem trim_append_blank {blank line : String} (h : trim blank = "") :
    trim (blank ++ line) = trim line := by
  have hspace : ∀ c ∈ blank.toList, Js.isSpace c = true := by
    apply Js.isSpace_of_trimChars_nil
    rw [← Js.toList_trim, h]
    rfl
  rw [trim, trim, String.toList_append, trimChars, trimChars,
    List.dropWhile_append_of_pos hspace]

/-- A line appended behind white space is read as it stands. -/
theorem storeLog_append_ended {raw : String} (hraw : trim (openLine raw) = "") {line : String}
    (h : ∀ c ∈ line.toList, c ≠ '\n') :
    storeLog env (some (raw ++ line)) = storeLog env (some raw) ++ storeLog env (some line) := by
  obtain ⟨lines, hlines⟩ := exists_fileText_openLine raw
  have hopen := openLine_noFeed raw
  have hglued : ∀ c ∈ (openLine raw ++ line).toList, c ≠ '\n' := by
    intro c hc
    rw [String.toList_append] at hc
    rcases List.mem_append.mp hc with hc | hc
    · exact hopen c hc
    · exact h c hc
  have hblank : lineRecord env (openLine raw) = none := lineRecord_blank env hraw
  have hline : lineRecord env (openLine raw ++ line) = lineRecord env line := by
    rw [← lineRecord_trim, trim_append_blank hraw, lineRecord_trim]
  rw [hlines, String.append_assoc, storeLog_append, storeLog_append, storeLog_single env hglued,
    storeLog_single env hopen, storeLog_single env h, hblank, hline]
  simp

/-- So are all lines of an appended text. -/
theorem storeLog_append_fileText {raw : String} (hraw : trim (openLine raw) = "")
    (lines : List String) (h : ∀ line ∈ lines, ∀ c ∈ line.toList, c ≠ '\n') :
    storeLog env (some (raw ++ fileText lines)) =
      storeLog env (some raw) ++ storeLog env (some (fileText lines)) := by
  cases lines with
  | nil => simp [fileText, storeLog_empty]
  | cons line lines =>
    have hsplit : raw ++ fileText (line :: lines) = raw ++ line ++ "\n" ++ fileText lines := by
      simp only [fileText, String.append_assoc]
    rw [hsplit, storeLog_line, storeLog_append_ended env hraw (h line (by simp)), fileText,
      storeLog_line, List.append_assoc]

end Log

section Writes
variable {env : WriteEnv}

/-- A tombstone as the tools write it. -/
structure MemoryStoreDeleteMarker.Sound (m : MemoryStoreDeleteMarker) : Prop where
  id : Trimmed m.id
  deletedAt : Trimmed m.deletedAt

theorem marker_isPlain (m : MemoryStoreDeleteMarker) : m.toValue.isPlain = true := by
  have hkey : Js.isPlainKey "type" = true ∧ Js.isPlainKey "id" = true ∧
      Js.isPlainKey "deletedAt" = true ∧ Js.isPlainKey "reason" = true := by decide
  obtain ⟨h1, h2, h3, h4⟩ := hkey
  cases hr : m.reason with
  | none => simp [MemoryStoreDeleteMarker.toValue, hr, Value.isPlain, Value.arePlainFields, h1, h2, h3]
  | some reason =>
    simp [MemoryStoreDeleteMarker.toValue, hr, Value.isPlain, Value.arePlainFields, h1, h2, h3, h4]

theorem parseStoreDeleteMarker_marker (rt : Runtime) {m : MemoryStoreDeleteMarker} (h : m.Sound) :
    ∃ parsed, parseStoreDeleteMarker rt m.toValue = .ok (some parsed) ∧ parsed.id = m.id := by
  have htype : loweredText rt (some (.str "delete")) = .ok "delete" := by
    rw [loweredText_str, lower_trim_slug (by decide)]
  obtain ⟨reason, hreason⟩ : ∃ reason, trimmedText rt [m.toValue.get? "reason"] = .ok reason := by
    cases hr : m.reason with
    | none =>
      rw [show m.toValue.get? "reason" = none by
        simp [MemoryStoreDeleteMarker.toValue, hr, Value.get?, List.lookup_cons]]
      exact ⟨_, Js.Value.trimmedText_absent rt⟩
    | some text =>
      rw [show m.toValue.get? "reason" = some (.str text) by
        simp [MemoryStoreDeleteMarker.toValue, hr, Value.get?, List.lookup_cons]]
      exact ⟨_, Js.Value.trimmedText_str rt text _⟩
  have hfields : m.toValue.get? "type" = some (.str "delete") ∧
      m.toValue.get? "id" = some (.str m.id) ∧
      m.toValue.get? "deletedAt" = some (.str m.deletedAt) := by
    simp [MemoryStoreDeleteMarker.toValue, Value.get?, List.lookup_cons]
  unfold parseStoreDeleteMarker
  rw [hreason, hfields.1, hfields.2.1, hfields.2.2, htype,
    show m.toValue.isRecord = true from rfl]
  simp only [Bool.not_true, Bool.false_eq_true, if_false, Js.Value.trimmedText_str, Js.ok_bind,
    h.id.1, h.deletedAt.1, h.id.2, h.deletedAt.2, decide_false, Bool.or_self]
  exact ⟨_, rfl, rfl⟩

theorem lineRecord_marker {m : MemoryStoreDeleteMarker} (h : m.Sound) :
    lineRecord env.toStore (env.json.stringify m.toValue) = some (.del m.id) := by
  obtain ⟨parsed, hparsed, hid⟩ := parseStoreDeleteMarker_marker env.rt h
  unfold lineRecord
  rw [MemoryStoreDeleteMarker.toValue, env.json.trim_stringify, if_neg (env.json.stringify_ne _),
    ← MemoryStoreDeleteMarker.toValue]
  simp only [WriteEnv.toStore, env.json.parse_stringify _ (marker_isPlain m), hparsed, hid]

theorem storeLog_markers {markers : List MemoryStoreDeleteMarker} (h : ∀ m ∈ markers, m.Sound) :
    storeLog env.toStore (some (fileText (markers.map fun m => env.json.stringify m.toValue))) =
      markers.map fun m => .del m.id := by
  induction markers with
  | nil => exact storeLog_empty _
  | cons m markers ih =>
    rw [List.map_cons, fileText, storeLog_line, ih fun x hx => h x (by simp [hx]),
      storeLog_single _ (env.json.stringify_line _), lineRecord_marker (h m (by simp))]
    rfl

/-- Lines appended to a file whose last line is ended. -/
theorem appendFile_fileText {file : Option String} (hfile : LineEnded file) (line : String)
    (lines : List String) (h : ∀ l ∈ line :: lines, ∀ c ∈ l.toList, c ≠ '\n') :
    storeLog env.toStore (appendFile file (fileText (line :: lines))) =
        storeLog env.toStore file ++ storeLog env.toStore (some (fileText (line :: lines))) ∧
      LineEnded (appendFile file (fileText (line :: lines))) := by
  refine ⟨?_, ?_⟩
  · cases file with
    | none => simp [appendFile, storeLog]
    | some raw => exact storeLog_append_fileText _ (hfile raw rfl) _ h
  · rintro raw ⟨⟩
    rw [openLine_append_fileText]
    decide

theorem appendStoreEntry_log {file : Option String} (hfile : LineEnded file) {e : MemoryStoreEntry}
    (h : Normalized env.rt e) :
    storeLog env.toStore (appendStoreEntry env file e) = storeLog env.toStore file ++ [.put e] ∧
      LineEnded (appendStoreEntry env file e) := by
  have htext : entryLine env e ++ "\n" = fileText [entryLine env e] := by simp [fileText]
  have hlog : storeLog env.toStore (some (fileText [entryLine env e])) = [.put e] :=
    @storeLog_entries env [e] (by simpa using h)
  rw [appendStoreEntry, htext]
  rw [← hlog]
  refine appendFile_fileText hfile _ _ fun l hl => ?_
  obtain rfl := List.mem_singleton.mp hl
  exact env.json.stringify_line _

theorem appendStoreDeleteMarkers_log {file : Option String} (hfile : LineEnded file)
    {markers : List MemoryStoreDeleteMarker} (h : ∀ m ∈ markers, m.Sound) :
    storeLog env.toStore (appendStoreDeleteMarkers env file markers) =
        storeLog env.toStore file ++ markers.map (fun m => .del m.id) ∧
      LineEnded (appendStoreDeleteMarkers env file markers) := by
  cases markers with
  | nil => exact ⟨by simp [appendStoreDeleteMarkers], by simpa [appendStoreDeleteMarkers] using hfile⟩
  | cons m markers =>
    rw [← storeLog_markers h, appendStoreDeleteMarkers, List.isEmpty_cons]
    simp only [Bool.false_eq_true, if_false, List.map_cons, intercalate_lines]
    refine appendFile_fileText hfile _ _ fun l hl => ?_
    obtain ⟨x, -, rfl⟩ : ∃ x ∈ m :: markers, env.json.stringify x.toValue = l := by
      simpa [eq_comm] using hl
    exact env.json.stringify_line _

end Writes

end T560.Memory
