import T560.Memory.Tools

/-!
# Compaction among other tools

Calls on one store, with their file steps in any order. A compaction loads the entries, writes
them to a temporary file and renames it over the store. As long as nothing is appended between
its load and its rename, the store is at every moment what the acknowledged appends make of
the first file.
-/

namespace T560.Memory

open ReplayLog

/-- Where a compaction stands; the phase names the step it made last. -/
inductive CompactPhase where
  | called (dryRun : Bool)
  | found (dryRun : Bool)
  | measured (dryRun : Bool) (raw : String)
  | loaded (raw : String) (entries : List MemoryStoreEntry)
  | written (raw : String) (entries : List MemoryStoreEntry) (temp : String)
  | finished (report : CompactReport)

inductive Process where
  | compact (phase : CompactPhase)
  | tool (program : ToolProgram)

/-- The store file, the calls, and the appends that were made, oldest first. -/
structure StoreState (ι : Type) where
  store : Option String
  procs : ι → Process
  acknowledged : List StoreWrite

/-- The report of a compaction of `raw` to `entries`. -/
def compactReport (env : WriteEnv) (dryRun : Bool) (raw : String)
    (entries : List MemoryStoreEntry) : CompactReport :=
  let linesBefore := ((Js.normalizeLineBreaks raw).filter fun line => Js.trim line ≠ "").length
  { dryRun := dryRun
    compacted := !dryRun && entries.length ≠ linesBefore
    linesBefore := linesBefore
    linesAfter := entries.length
    reclaimedLines := linesBefore - entries.length
    bytesBefore := raw.utf8ByteSize
    bytesAfter := (serializeEntries env entries).utf8ByteSize }

section Machine
variable {ι : Type} [DecidableEq ι]

def StoreState.setProc (s : StoreState ι) (i : ι) (p : Process) : StoreState ι :=
  { s with procs := Function.update s.procs i p }

/-- One file step of a call. -/
inductive Step (env : WriteEnv) (s : StoreState ι) (i : ι) : StoreState ι → Prop where
  | absent {dryRun : Bool} (hp : s.procs i = .compact (.called dryRun)) (hs : s.store = none) :
    Step env s i (s.setProc i (.compact (.finished ⟨dryRun, false, 0, 0, 0, 0, 0⟩)))
  | found {dryRun : Bool} {raw : String} (hp : s.procs i = .compact (.called dryRun))
    (hs : s.store = some raw) : Step env s i (s.setProc i (.compact (.found dryRun)))
  | measure {dryRun : Bool} {raw : String} (hp : s.procs i = .compact (.found dryRun))
    (hs : s.store = some raw) : Step env s i (s.setProc i (.compact (.measured dryRun raw)))
  | loadDry {raw : String} (hp : s.procs i = .compact (.measured true raw)) :
    Step env s i (s.setProc i (.compact (.finished
      (compactReport env true raw (loadStoreEntries env.toStore (some .posInf) s.store)))))
  | load {raw : String} (hp : s.procs i = .compact (.measured false raw)) :
    Step env s i (s.setProc i (.compact (.loaded raw
      (loadStoreEntries env.toStore (some .posInf) s.store))))
  | writeTemp {raw : String} {entries : List MemoryStoreEntry}
    (hp : s.procs i = .compact (.loaded raw entries)) :
    Step env s i (s.setProc i (.compact (.written raw entries (serializeEntries env entries))))
  | rename {raw temp : String} {entries : List MemoryStoreEntry}
    (hp : s.procs i = .compact (.written raw entries temp)) :
    Step env s i { s.setProc i (.compact (.finished (compactReport env false raw entries))) with
      store := some temp }
  | read {next : Option String → ToolProgram} (hp : s.procs i = .tool (.read next)) :
    Step env s i (s.setProc i (.tool (next s.store)))
  | append {write : StoreWrite} {next : ToolProgram}
    (hp : s.procs i = .tool (.append write next)) :
    Step env s i { s.setProc i (.tool next) with
      store := applyWrite env s.store write
      acknowledged := s.acknowledged ++ [write] }

/-- Steps one after the other, each allowed by `ok`. -/
inductive Run (env : WriteEnv) (ok : StoreState ι → ι → Prop) (s : StoreState ι) :
    StoreState ι → Prop where
  | refl : Run env ok s s
  | step {t u : StoreState ι} {i : ι} (h : Run env ok s t) (hok : ok t i) (hs : Step env t i u) :
    Run env ok s u

/-- A compaction that has loaded the entries and not yet renamed its file. -/
def Process.Compacting : Process → Prop
  | .compact (.loaded _ _) | .compact (.written _ _ _) => True
  | _ => False

/-- Nothing is appended while a compaction is between its load and its rename. -/
def NotOverlapping (s : StoreState ι) (i : ι) : Prop :=
  ∀ write next, s.procs i = .tool (.append write next) → ∀ j, ¬ (s.procs j).Compacting

/-- A call before its first step. -/
inductive Started (env : ToolEnv) : Process → Prop where
  | compact (dryRun : Bool) : Started env (.compact (.called dryRun))
  | save (call : SaveCall) : Started env (.tool (saveProgram env.toSaveEnv call))
  | delete (call : DeleteCall) : Started env (.tool (deleteProgram env call))
  | feedback (call : FeedbackCall) : Started env (.tool (feedbackProgram env call))

end Machine

section Writes
variable {env : WriteEnv}

/-- The records a write appends. -/
def StoreWrite.records : StoreWrite → List StoreRecord
  | .entry e => [.put e]
  | .deletes markers => markers.map fun m => .del m.id

theorem applyWrite_log {file : Option String} (hfile : LineEnded file) {w : StoreWrite}
    (h : w.Sound env.rt) :
    storeLog env.toStore (applyWrite env file w) = storeLog env.toStore file ++ w.records ∧
      LineEnded (applyWrite env file w) := by
  cases w with
  | entry e => exact appendStoreEntry_log hfile h
  | deletes markers => exact appendStoreDeleteMarkers_log hfile h

/-- The log of the file a compaction renames over the store. -/
theorem serializeEntries_log {entries : List MemoryStoreEntry}
    (h : ∀ e ∈ entries, Normalized env.rt e) :
    storeLog env.toStore (some (serializeEntries env entries)) = entries.map .put ∧
      LineEnded (some (serializeEntries env entries)) := by
  rw [serializeEntries_fileText]
  refine ⟨storeLog_entries h, ?_⟩
  rintro _ ⟨⟩
  cases entries with
  | nil =>
    change Js.trim (openLine "") = ""
    decide
  | cons e entries =>
    have hend := openLine_append_fileText "" (entryLine env e) (entries.map (entryLine env))
    rw [String.empty_append] at hend
    rw [List.map_cons, hend]
    decide

end Writes

section Invariant
variable {ι : Type} {env : WriteEnv} {log : List StoreRecord} {s t : StoreState ι} {i : ι}

/-- The log the acknowledged appends make of the first one. -/
def StoreState.history (log : List StoreRecord) (s : StoreState ι) : List StoreRecord :=
  log ++ s.acknowledged.flatMap StoreWrite.records

/-- The snapshot a process holds is up to date, and what it will append is sound. -/
def Process.Current (env : WriteEnv) (entries : List MemoryStoreEntry) : Process → Prop
  | .compact (.loaded _ loaded) => loaded = entries
  | .compact (.written _ _ temp) => temp = serializeEntries env entries
  | .compact _ => True
  | .tool program => program.Sound env.rt

structure Reflected (env : WriteEnv) (log : List StoreRecord) (s : StoreState ι) : Prop where
  ended : LineEnded s.store
  live_eq : live (·.id) (storeLog env.toStore s.store) = live (·.id) (s.history log)
  current : ∀ i, (s.procs i).Current env (live (·.id) (s.history log))

theorem Reflected.loaded (h : Reflected env log s) :
    loadStoreEntries env.toStore (some .posInf) s.store = live (·.id) (s.history log) := by
  rw [loadStoreEntries_live, h.live_eq]

variable [DecidableEq ι]

theorem current_update {procs : ι → Process} {entries : List MemoryStoreEntry} {p : Process}
    (h : ∀ j, (procs j).Current env entries) (hp : p.Current env entries) (j : ι) :
    (Function.update procs i p j).Current env entries := by
  by_cases hj : j = i
  · subst hj
    rw [Function.update_self]
    exact hp
  · rw [Function.update_of_ne hj]
    exact h j

/-- A step that changes neither the store nor the appends. -/
theorem Reflected.setProc (h : Reflected env log s) {p : Process}
    (hp : p.Current env (live (·.id) (s.history log))) : Reflected env log (s.setProc i p) :=
  ⟨h.ended, h.live_eq, current_update h.current hp⟩

theorem current_of_not_compacting {p : Process} {entries entries' : List MemoryStoreEntry}
    (h : p.Current env entries) (hp : ¬ p.Compacting) : p.Current env entries' := by
  cases p with
  | tool program => exact h
  | compact phase =>
    cases phase with
    | loaded raw loaded => exact absurd trivial hp
    | written raw loaded temp => exact absurd trivial hp
    | called dryRun => trivial
    | found dryRun => trivial
    | measured dryRun raw => trivial
    | finished report => trivial

/-- The snapshot of a compaction takes the place of the store. -/
theorem Reflected.rename (h : Reflected env log s) (report : CompactReport) :
    Reflected env log { s.setProc i (.compact (.finished report)) with
      store := some (serializeEntries env (live (·.id) (s.history log))) } := by
  have hnormal : ∀ e ∈ live (·.id) (s.history log), Normalized env.rt e := by
    rw [← h.loaded]
    exact loaded_normalized s.store
  obtain ⟨hlog, hended⟩ := serializeEntries_log hnormal
  have hlive : live (·.id) (storeLog env.toStore
      (some (serializeEntries env (live (·.id) (s.history log))))) = live (·.id) (s.history log) := by
    rw [hlog]
    exact live_puts (live_keys_nodup _)
  exact ⟨hended, hlive, current_update h.current trivial⟩

/-- An append while nobody holds a snapshot that it could make stale. -/
theorem Reflected.append (h : Reflected env log s) {write : StoreWrite} {next : ToolProgram}
    (hwrite : write.Sound env.rt) (hnext : next.Sound env.rt)
    (hfree : ∀ j, ¬ (s.procs j).Compacting) :
    Reflected env log { s.setProc i (.tool next) with
      store := applyWrite env s.store write
      acknowledged := s.acknowledged ++ [write] } := by
  obtain ⟨hlog, hended⟩ := applyWrite_log h.ended hwrite
  have hhistory : log ++ (s.acknowledged ++ [write]).flatMap StoreWrite.records =
      s.history log ++ write.records := by
    simp [StoreState.history]
  have hlive : live (·.id) (storeLog env.toStore (applyWrite env s.store write)) =
      live (·.id) (log ++ (s.acknowledged ++ [write]).flatMap StoreWrite.records) := by
    rw [hlog, hhistory, live_append, live_append, h.live_eq]
  refine ⟨hended, hlive, current_update (fun j => ?_) hnext⟩
  exact current_of_not_compacting (h.current j) (hfree j)

theorem reflected_step (h : Reflected env log s) (hok : NotOverlapping s i) (hs : Step env s i t) :
    Reflected env log t := by
  cases hs with
  | absent hp hstore => exact h.setProc trivial
  | found hp hstore => exact h.setProc trivial
  | measure hp hstore => exact h.setProc trivial
  | loadDry hp => exact h.setProc trivial
  | load hp => exact h.setProc h.loaded
  | writeTemp hp =>
    have hcurrent := h.current i
    rw [hp] at hcurrent
    exact h.setProc (congrArg (serializeEntries env) hcurrent)
  | rename hp =>
    have hcurrent := h.current i
    rw [hp] at hcurrent
    obtain rfl := hcurrent
    exact h.rename _
  | read hp =>
    have hcurrent := h.current i
    rw [hp] at hcurrent
    cases hcurrent with
    | read hnext => exact h.setProc (hnext s.store)
  | @append write next hp =>
    have hcurrent := h.current i
    rw [hp] at hcurrent
    cases hcurrent with
    | append hwrite hnext => exact h.append hwrite hnext (hok write next hp)

theorem reflected_run (h : Reflected env log s) (hrun : Run env NotOverlapping s t) :
    Reflected env log t := by
  induction hrun with
  | refl => exact h
  | step _ hok hs ih => exact reflected_step ih hok hs

omit [DecidableEq ι] in
theorem reflected_started {env : ToolEnv} (hstart : ∀ i, Started env (s.procs i))
    (hack : s.acknowledged = []) (hended : LineEnded s.store) :
    Reflected env.toWriteEnv (storeLog env.toStore s.store) s := by
  refine ⟨hended, by simp [StoreState.history, hack], fun i => ?_⟩
  cases hp : s.procs i with
  | compact phase =>
    have hi := hstart i
    rw [hp] at hi
    cases hi
    trivial
  | tool program =>
    have hi := hstart i
    rw [hp] at hi
    cases hi with
    | save call => exact sound_saveProgram env.toSaveEnv call
    | delete call => exact sound_deleteProgram env call
    | feedback call => exact sound_feedbackProgram env call

/-- Whatever the order of the steps, as long as no append falls between the load and the rename
of a compaction, the store is what the acknowledged appends make of the first file. -/
theorem acknowledged_appends_reflected {ι : Type} [DecidableEq ι] (env : ToolEnv)
    (s t : StoreState ι) (hstart : ∀ i, Started env (s.procs i)) (hack : s.acknowledged = [])
    (hended : LineEnded s.store) (hrun : Run env.toWriteEnv NotOverlapping s t) :
    loadStoreEntries env.toStore (some .posInf) t.store =
        live (·.id) (t.history (storeLog env.toStore s.store)) ∧
      ∀ id, findStoreEntryById env.toStore id none t.store =
        replay (·.id) (t.history (storeLog env.toStore s.store)) id := by
  have h := reflected_run (reflected_started hstart hack hended) hrun
  refine ⟨h.loaded, fun id => ?_⟩
  rw [findStoreEntryById_replay, ← find?_live, ← find?_live, h.live_eq]

end Invariant

section Runs

/-- The store of the first save, with the scope and the arithmetic of the other tools. -/
def toolEnv (json : Js.Json) : ToolEnv where
  toSaveEnv := oneEntryEnv json
  defaultMinTrustTier := .observed
  newestFirst entries := entries
  newestFirst_perm _ := List.Perm.refl _
  reinforce useful confidence weight :=
    if useful then confidence + 7 / 100 * weight else confidence - 8 / 100 * weight

def firstReport : SaveReport := ⟨newEntry firstCall firstRequest, .upsert, false, [], [], []⟩

variable (json : Js.Json)

theorem firstEntry_normalized : Normalized (oneEntryEnv json).rt firstReport.entry :=
  newEntry_normalized (checkRequest_sound (firstCall_request json))

/-- The first save to a namespace without entries appends its entry. -/
theorem saveLoaded_first {file : Option String}
    (hscoped : inNamespace firstRequest.memoryNamespace
      (loadStoreEntries (oneEntryEnv json).toStore (some .posInf) file) = []) :
    saveLoaded (oneEntryEnv json) firstCall firstRequest file =
      .append (.entry firstReport.entry)
        (.read (saveWritten (oneEntryEnv json) firstCall firstReport)) := by
  have hpick := pickStoreEntryForUpsert_nil Js.asciiRuntime firstRequest.title firstRequest.content
  have hconflicts : findPotentialConflicts Js.asciiRuntime (oneEntryEnv json).toFixed3 []
      firstRequest.title firstRequest.content = [] := by
    refine List.eq_nil_iff_forall_not_mem.mpr fun hint hhint => ?_
    obtain ⟨e, he, -⟩ := findPotentialConflicts_mem hhint
    cases he
  have hrt : (oneEntryEnv json).rt = Js.asciiRuntime := rfl
  simp only [saveLoaded, hscoped, hrt, hpick, hconflicts]
  rfl

/-- Its quota evicts nothing. -/
theorem saveWritten_first {written : Option String}
    (hload : loadStoreEntries (oneEntryEnv json).toStore (some .posInf) written =
      [firstReport.entry]) :
    saveWritten (oneEntryEnv json) firstCall firstReport written = .finish (.saved firstReport) := by
  have hnone : evictedEntries (oneEntryEnv json) firstReport.entry.memoryNamespace
      [firstReport.entry.id] written = [] := by
    refine List.eq_nil_iff_forall_not_mem.mpr fun e he => ?_
    obtain ⟨hmem, hid⟩ := evictedEntries_mem he
    rw [hload] at hmem
    have heq : e = firstReport.entry := by simpa using (mem_inNamespace.mp hmem).1
    exact hid (by simp [heq])
  simp only [saveWritten, hnone]
  rfl

/-- A compaction and a save that have been called. -/
def twoCalls (store : Option String) : StoreState Bool where
  store := store
  procs
    | false => .compact (.called false)
    | true => .tool (saveProgram (oneEntryEnv json) firstCall)
  acknowledged := []

theorem twoCalls_started (store : Option String) (i : Bool) :
    Started (toolEnv json) ((twoCalls json store).procs i) := by
  cases i with
  | false => exact .compact false
  | true => exact .save firstCall

theorem twoCalls_save (store : Option String) :
    (twoCalls json store).procs true =
      .tool (.read (saveLoaded (oneEntryEnv json) firstCall firstRequest)) := by
  simp only [twoCalls, saveProgram, firstCall_request]

/-- A save to a store with an entry is done when the compaction that was called before it loads the
entries; the compaction then writes its file and renames it. -/
theorem acknowledged_appends_reflected_in_turn :
    ∃ (env : ToolEnv) (s t : StoreState Bool),
      loadStoreEntries env.toStore (some .posInf) s.store = [workEntry] ∧
      Run env.toWriteEnv NotOverlapping s t ∧
      (∃ raw entries, t.procs false = .compact (.finished (compactReport env.toWriteEnv false raw entries))) ∧
      t.acknowledged = [.entry firstReport.entry] ∧
      loadStoreEntries env.toStore (some .posInf) t.store = [workEntry, firstReport.entry] := by
  obtain ⟨json⟩ := Js.json_nonempty
  obtain ⟨hlog, hended⟩ := workFile_log json
  have hentries := workFile_entries json
  obtain ⟨raw, hraw⟩ : ∃ raw, workFile json = some raw := ⟨_, rfl⟩
  generalize workFile json = file at hlog hended hentries hraw
  have hsave := twoCalls_save json file
  have hempty : inNamespace firstRequest.memoryNamespace
      (loadStoreEntries (oneEntryEnv json).toStore (some .posInf) file) = [] := by
    rw [hentries]
    rfl
  -- A compaction and a read append nothing.
  have hcompact : ∀ (t : StoreState Bool) phase, t.procs false = .compact phase → NotOverlapping t false := by
    intro t phase hp write next hw
    rw [hp] at hw
    cases hw
  have hread : ∀ (t : StoreState Bool) next, t.procs true = .tool (.read next) → NotOverlapping t true := by
    intro t next hp write rest hw
    rw [hp] at hw
    cases hw
  have h0 : Run (toolEnv json).toWriteEnv NotOverlapping (twoCalls json file)
    (twoCalls json file) := .refl
  have h1 := h0.step (i := false) (hcompact _ _ rfl) (.found rfl hraw)
  have h2 := h1.step (i := false) (hcompact _ _ rfl) (.measure rfl hraw)
  have h3 := h2.step (i := true) (hread _ _ hsave) (.read hsave)
  have h4 := h3.step (i := true) (by
    rintro write next - (_ | _) hj
    · exact hj
    · exact hj) (.append (congrArg Process.tool (saveLoaded_first json hempty)))
  have h5 := h4.step (i := false) (hcompact _ _ rfl) (.load rfl)
  have h6 := h5.step (i := false) (hcompact _ _ rfl) (.writeTemp rfl)
  have h7 := h6.step (i := true) (hread _ _ rfl) (.read rfl)
  have h8 := h7.step (i := false) (hcompact _ _ rfl) (.rename rfl)
  refine ⟨toolEnv json, twoCalls json file, _, hentries, h8, ⟨_, _, rfl⟩, rfl, ?_⟩
  refine (acknowledged_appends_reflected (toolEnv json) _ _ (twoCalls_started json file) rfl hended
    h8).1.trans ?_
  change live (·.id) (storeLog (oneEntryEnv json).toStore file ++ [.put firstReport.entry]) = _
  rw [hlog]
  rfl

/-- The save starts after the compaction loaded the store and is done before its rename: it is
acknowledged and lost. -/
theorem save_during_compaction_lost :
    ∃ (env : ToolEnv) (s t : StoreState Bool) (report : SaveReport),
      (∀ i, Started env (s.procs i)) ∧ s.acknowledged = [] ∧ LineEnded s.store ∧
      Run env.toWriteEnv (fun _ _ => True) s t ∧
      (∃ compaction, t.procs false = .compact (.finished compaction)) ∧
      t.procs true = .tool (.finish (.saved report)) ∧
      t.acknowledged = [.entry report.entry] ∧
      findStoreEntryById env.toStore report.entry.id none t.store = none := by
  obtain ⟨json⟩ := Js.json_nonempty
  have hload : loadStoreEntries (oneEntryEnv json).toStore (some .posInf) (some "") = [] := by
    rw [loadStoreEntries_live, storeLog_empty]
    rfl
  have hempty : inNamespace firstRequest.memoryNamespace
      (loadStoreEntries (oneEntryEnv json).toStore (some .posInf) (some "")) = [] := by
    rw [hload]
    rfl
  have hended : LineEnded (some "") := by
    rintro _ ⟨⟩
    decide
  obtain ⟨hlog, -⟩ := appendStoreEntry_log hended (firstEntry_normalized json)
  have hwritten : loadStoreEntries (oneEntryEnv json).toStore (some .posInf)
      (applyWrite (oneEntryEnv json).toWriteEnv (some "") (.entry firstReport.entry)) =
      [firstReport.entry] := by
    rw [loadStoreEntries_live, applyWrite, hlog, storeLog_empty]
    rfl
  have h0 : Run (toolEnv json).toWriteEnv (fun _ _ => True) (twoCalls json (some ""))
    (twoCalls json (some "")) := .refl
  have h1 := h0.step (i := false) trivial
    (.found rfl (rfl : (twoCalls json (some "")).store = some ""))
  have h2 := h1.step (i := false) trivial
    (.measure rfl (rfl : (twoCalls json (some "")).store = some ""))
  have h3 := h2.step (i := false) trivial (.load rfl)
  have h4 := h3.step (i := true) trivial (.read (twoCalls_save json (some "")))
  have h5 := h4.step (i := true) trivial
    (.append (congrArg Process.tool (saveLoaded_first json hempty)))
  have h6 := h5.step (i := true) trivial (.read rfl)
  have h7 := h6.step (i := false) trivial (.writeTemp rfl)
  have h8 := h7.step (i := false) trivial (.rename rfl)
  refine ⟨toolEnv json, _, _, firstReport, twoCalls_started json _, rfl, hended, h8, ⟨_, rfl⟩,
    congrArg Process.tool (saveWritten_first json hwritten), rfl, ?_⟩
  have hwrites : serializeEntries (oneEntryEnv json).toWriteEnv
      (loadStoreEntries (oneEntryEnv json).toStore (some .posInf) (some "")) = "" := by
    rw [hload]
    rfl
  have hfind : findStoreEntryById (oneEntryEnv json).toStore firstReport.entry.id none (some "") =
      none := by
    rw [findStoreEntryById_replay, storeLog_empty]
    rfl
  rw [← hwrites] at hfind
  exact hfind

end Runs

end T560.Memory
