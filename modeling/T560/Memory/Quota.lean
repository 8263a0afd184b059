import T560.Memory.SaveSpec

/-!
# The quota of a namespace

Every turn of the eviction loop takes one entry out of the active ones and never the entry
being written. The loop ends within as many turns as there are entries, with both budgets met
or with only the written entry left.
-/

namespace T560.Memory

open Js (Value Runtime exists_of_bind_ok)
open ReplayLog

section Loop
variable {env : SaveEnv}

theorem pickEvictionCandidate_mem {turn : Nat} {entries : List MemoryStoreEntry}
    {policy : MemoryEvictionPolicy} {victim : MemoryStoreEntry}
    (h : pickEvictionCandidate env turn entries policy = some victim) : victim ∈ entries := by
  cases policy with
  | oldest => exact List.mem_mergeSort.mp (List.mem_of_head? h)
  | staleLowSignal => exact List.mem_mergeSort.mp (List.mem_of_head? h)
  | lowSignalFirst => exact List.mem_mergeSort.mp (List.mem_of_head? h)

theorem pickEvictionCandidate_none {turn : Nat} {entries : List MemoryStoreEntry}
    {policy : MemoryEvictionPolicy} (h : pickEvictionCandidate env turn entries policy = none) :
    entries = [] := by
  have hlen : ∀ le, (entries.mergeSort le).head? = none → entries = [] := by
    intro le hnone
    have hlen : (entries.mergeSort le).length = entries.length := List.length_mergeSort entries
    rw [List.head?_eq_none_iff.mp hnone] at hlen
    exact List.length_eq_zero_iff.mp hlen.symm
  cases policy with
  | oldest => exact hlen _ h
  | staleLowSignal => exact hlen _ h
  | lowSignalFirst => exact hlen _ h

/-- Erasing an entry by its id takes out that entry and no other. -/
theorem perm_eraseP {entries : List MemoryStoreEntry} (hids : (entries.map (·.id)).Nodup)
    {victim : MemoryStoreEntry} (h : victim ∈ entries) :
    entries.Perm (victim :: entries.eraseP (·.id = victim.id)) := by
  obtain ⟨a, before, after, -, ha, hsplit, herase⟩ :=
    List.exists_of_eraseP (p := fun e => decide (e.id = victim.id)) h (by simp)
  have hav : a = victim :=
    List.inj_on_of_nodup_map hids (by simp [hsplit]) h (by simpa using ha)
  rw [herase]
  subst hav
  rw [hsplit]
  exact List.perm_middle

/-- What holds at the head of every turn: the active and the evicted entries are the entries of
the namespace, the byte count is that of the active ones, and no protected entry was evicted. -/
structure Evicting (env : SaveEnv) (scopedEntries : List MemoryStoreEntry)
    (protectedIds : List String) (st : EvictState) : Prop where
  perm : (st.active ++ st.evicted).Perm scopedEntries
  bytes : st.totalBytes = bytesOf env st.active
  kept : ∀ e ∈ st.evicted, e.id ∉ protectedIds

variable {quota : NamespaceQuota} {protectedIds : List String}
  {scopedEntries : List MemoryStoreEntry} {st next : EvictState}

theorem Evicting.nodup (h : Evicting env scopedEntries protectedIds st)
    (hids : (scopedEntries.map (·.id)).Nodup) : ((st.active ++ st.evicted).map (·.id)).Nodup :=
  ((h.perm.map _).nodup_iff).mpr hids

/-- A turn of the loop evicts an unprotected active entry. -/
theorem evictStep_victim (h : evictStep env quota protectedIds st = some next) :
    ∃ victim ∈ st.active, victim.id ∉ protectedIds ∧
      next = ⟨st.active.eraseP (·.id = victim.id), st.totalBytes - estimateEntryBytes env victim,
        st.evicted ++ [victim]⟩ := by
  unfold evictStep at h
  split at h
  · split at h
    · cases h
    · rename_i victim hpick
      have hmem := List.mem_filter.mp (pickEvictionCandidate_mem hpick)
      split at h
      · cases h
        exact ⟨victim, hmem.1, by simpa using hmem.2, rfl⟩
      · cases h
  · cases h

theorem Evicting.step (h : Evicting env scopedEntries protectedIds st)
    (hids : (scopedEntries.map (·.id)).Nodup)
    (hs : evictStep env quota protectedIds st = some next) :
    Evicting env scopedEntries protectedIds next ∧ next.active.length + 1 = st.active.length := by
  obtain ⟨victim, hv, hfree, rfl⟩ := evictStep_victim hs
  have hactive : (st.active.map (·.id)).Nodup := by
    have := h.nodup hids
    rw [List.map_append] at this
    exact this.of_append_left
  have herase := perm_eraseP hactive hv
  have hbytes : bytesOf env st.active =
      estimateEntryBytes env victim + bytesOf env (st.active.eraseP (·.id = victim.id)) := by
    have := (herase.map (estimateEntryBytes env)).sum_eq
    simpa [bytesOf] using this
  refine ⟨⟨?_, ?_, ?_⟩, ?_⟩
  · refine List.Perm.trans ?_ h.perm
    have hmove := (herase.append_right st.evicted).symm
    refine List.Perm.trans ?_ hmove
    rw [List.cons_append, ← List.append_assoc]
    exact List.perm_append_singleton victim _
  · have := h.bytes
    dsimp only
    omega
  · intro e he
    rcases List.mem_append.mp he with he | he
    · exact h.kept e he
    · obtain rfl := List.mem_singleton.mp he
      exact hfree
  · have := herase.length_eq
    simp only [List.length_cons] at this
    exact this.symm

/-- The loop keeps its invariant, and with a turn for every active entry it ends by itself. -/
theorem evictLoop_spec (turns : Nat) (h : Evicting env scopedEntries protectedIds st)
    (hids : (scopedEntries.map (·.id)).Nodup) (hturns : st.active.length ≤ turns) :
    Evicting env scopedEntries protectedIds (evictLoop env quota protectedIds turns st) ∧
      evictStep env quota protectedIds (evictLoop env quota protectedIds turns st) = none := by
  induction turns generalizing st with
  | zero =>
    refine ⟨h, ?_⟩
    cases hs : evictStep env quota protectedIds st with
    | none => exact hs
    | some next =>
      have := (h.step hids hs).2
      omega
  | succ turns ih =>
    rw [evictLoop]
    cases hs : evictStep env quota protectedIds st with
    | none => exact ⟨h, hs⟩
    | some next =>
      obtain ⟨hnext, hlen⟩ := h.step hids hs
      exact ih hnext (by omega)

/-- The loop stops when the budgets are met or only protected entries are left. -/
theorem evictStep_none (hs : evictStep env quota protectedIds st = none) :
    (st.active.length ≤ quota.maxEntries ∧ st.totalBytes ≤ quota.maxBytes) ∨
      ∀ e ∈ st.active, e.id ∈ protectedIds := by
  unfold evictStep at hs
  split at hs
  · refine Or.inr ?_
    split at hs
    · rename_i hpick
      intro e he
      by_contra hfree
      have hmem : e ∈ st.active.filter fun e => !protectedIds.contains e.id :=
        List.mem_filter.mpr ⟨he, by simpa using hfree⟩
      rw [pickEvictionCandidate_none hpick] at hmem
      cases hmem
    · rename_i victim hpick
      have hmem := (List.mem_filter.mp (pickEvictionCandidate_mem hpick)).1
      split at hs
      · cases hs
      · rename_i hany
        exact absurd (List.any_eq_true.mpr ⟨victim, hmem, by simp⟩) hany
  · rename_i hover
    simp only [Bool.or_eq_true, decide_eq_true_eq, not_or, Nat.not_lt] at hover
    exact Or.inl hover

theorem evictFrom_spec (env : SaveEnv) (quota : NamespaceQuota) (protectedIds : List String)
    (hids : (scopedEntries.map (·.id)).Nodup) :
    Evicting env scopedEntries protectedIds (evictFrom env quota protectedIds scopedEntries) ∧
      evictStep env quota protectedIds (evictFrom env quota protectedIds scopedEntries) = none :=
  evictLoop_spec _ ⟨by simp, rfl, by simp⟩ hids le_rfl

end Loop

section Save
variable {env : SaveEnv} {call : SaveCall} {file after : Option String} {report : SaveReport}

theorem loaded_ids_nodup (env : StoreEnv) (file : Option String) :
    ((loadStoreEntries env (some .posInf) file).map (·.id)).Nodup := by
  rw [loadStoreEntries_live]
  exact live_keys_nodup _

theorem inNamespace_ids_nodup (memoryNamespace : String) {entries : List MemoryStoreEntry}
    (h : (entries.map (·.id)).Nodup) : ((inNamespace memoryNamespace entries).map (·.id)).Nodup :=
  h.sublist (List.filter_sublist.map _)

/-- Victims are entries of the namespace, and not protected. -/
theorem evictedEntries_mem {memoryNamespace : String} {protectedIds : List String}
    {e : MemoryStoreEntry} (h : e ∈ evictedEntries env memoryNamespace protectedIds file) :
    e ∈ inNamespace memoryNamespace (loadStoreEntries env.toStore (some .posInf) file) ∧
      e.id ∉ protectedIds := by
  unfold evictedEntries at h
  split at h
  · cases h
  · rename_i quota _
    obtain ⟨hspec, -⟩ := evictFrom_spec env quota protectedIds
      (inNamespace_ids_nodup memoryNamespace (loaded_ids_nodup env.toStore file))
    exact ⟨hspec.perm.mem_iff.mp (List.mem_append_right _ h), hspec.kept e h⟩

/-- The log a save leaves when the last line of the file is ended. -/
theorem Saved.written_log (h : Saved env call file after report) (hfile : LineEnded file) :
    storeLog env.toStore (writtenFile env call report file) =
        storeLog env.toStore file ++ report.replacedIds.map .del ++ [.put report.entry] ∧
      LineEnded (writtenFile env call report file) := by
  have hmarkers : ∀ m ∈ replaceMarkers call report.entry.title report.replacedIds, m.Sound :=
    sound_markers (loaded_normalized file)
      (fun id hid => (h.replaced id hid).imp fun x hx => ⟨hx.1, hx.2.1⟩) call.now_trimmed
  obtain ⟨hlog, hended⟩ := appendStoreDeleteMarkers_log hfile hmarkers
  obtain ⟨hlog', hended'⟩ := appendStoreEntry_log hended h.normalized
  refine ⟨?_, hended'⟩
  rw [writtenFile, hlog', hlog, replaceMarkers, List.map_map]
  rfl

/-- The tombstones of the evicted entries stand on lines of their own. -/
theorem Saved.evicted_log (h : Saved env call file after report)
    (hended : LineEnded (writtenFile env call report file)) :
    storeLog env.toStore after = storeLog env.toStore (writtenFile env call report file) ++
        report.evictedIds.map .del ∧ LineEnded after := by
  have hvictims : ∀ id ∈ report.evictedIds, ∃ e ∈ loadStoreEntries env.toStore (some .posInf)
      (writtenFile env call report file), e.id = id := by
    intro id hid
    rw [h.evicted] at hid
    obtain ⟨e, he, rfl⟩ := List.mem_map.mp hid
    exact ⟨e, (mem_inNamespace.mp (evictedEntries_mem he).1).1, rfl⟩
  obtain ⟨hlog, hended'⟩ := appendStoreDeleteMarkers_log hended
    (sound_markers (loaded_normalized _) hvictims call.evictedAt_trimmed)
  rw [h.file_eq]
  refine ⟨?_, hended'⟩
  rw [hlog, List.map_map]
  rfl

theorem Saved.log (h : Saved env call file after report) (hfile : LineEnded file) :
    storeLog env.toStore after =
        storeLog env.toStore file ++ report.replacedIds.map .del ++ [.put report.entry] ++
          report.evictedIds.map .del ∧
      LineEnded after := by
  obtain ⟨hlog, hended⟩ := h.written_log hfile
  obtain ⟨hlog', hended'⟩ := h.evicted_log hended
  exact ⟨by rw [hlog', hlog], hended'⟩

/-- The entries the quota is looked at for. -/
theorem Saved.written_entries (h : Saved env call file after report) (hfile : LineEnded file) :
    loadStoreEntries env.toStore (some .posInf) (writtenFile env call report file) =
      beforeQuota report (loadStoreEntries env.toStore (some .posInf) file) := by
  rw [loadStoreEntries_live, (h.written_log hfile).1, live_snoc, live_append_dels,
    ← loadStoreEntries_live, List.filter_filter]
  refine congrArg (· ++ [report.entry]) ?_
  apply List.filter_congr
  intro e _
  rw [Bool.eq_iff_iff, Bool.and_eq_true, decide_eq_true_iff, decide_eq_true_iff,
    decide_eq_true_iff, and_comm]
  rfl

/-- The entries a save leaves. -/
theorem Saved.entries (h : Saved env call file after report) (hfile : LineEnded file) :
    loadStoreEntries env.toStore (some .posInf) after =
      (beforeQuota report (loadStoreEntries env.toStore (some .posInf) file)).filter
        fun e => e.id ∉ report.evictedIds := by
  rw [loadStoreEntries_live, (h.log hfile).1, live_append_dels, ← (h.written_log hfile).1,
    ← loadStoreEntries_live, h.written_entries hfile]

theorem mem_beforeQuota {entries : List MemoryStoreEntry} {e : MemoryStoreEntry} :
    e ∈ beforeQuota report entries ↔
      (e ∈ entries ∧ e.id ∉ report.replacedIds ∧ e.id ≠ report.entry.id) ∨ e = report.entry := by
  simp [beforeQuota]

/-- What the quota promises of a save, with the entries alive before and after it. -/
structure QuotaKept (env : SaveEnv) (quota : NamespaceQuota) (report : SaveReport)
    (before after : List MemoryStoreEntry) : Prop where
  saved : report.entry ∈ after
  entries : (inNamespace report.entry.memoryNamespace after).length ≤ quota.maxEntries
  bytes : bytesOf env (inNamespace report.entry.memoryNamespace after) ≤ quota.maxBytes ∨
    inNamespace report.entry.memoryNamespace after = [report.entry]
  evicted_nodup : report.evictedIds.Nodup
  evicted : ∀ id, id ∈ report.evictedIds ↔
    ∃ e ∈ before, e.id = id ∧ e.memoryNamespace = report.entry.memoryNamespace ∧
      id ≠ report.entry.id ∧ id ∉ report.replacedIds ∧ e ∉ after
  others : ∀ e, e.memoryNamespace ≠ report.entry.memoryNamespace → (e ∈ after ↔ e ∈ before)

/-- The loop over the namespace of a saved entry. -/
def quotaLoop (env : SaveEnv) (quota : NamespaceQuota) (report : SaveReport)
    (before : List MemoryStoreEntry) : EvictState :=
  evictFrom env quota [report.entry.id]
    (inNamespace report.entry.memoryNamespace (beforeQuota report before))

variable {quota : NamespaceQuota}

/-- The evicted entries are those of the loop over the namespace. -/
theorem Saved.evicted_loop (h : Saved env call file after report) (hfile : LineEnded file)
    (hquota : resolveNamespaceQuota env.quotaConfig report.entry.memoryNamespace = some quota) :
    report.evictedIds = ((quotaLoop env quota report
      (loadStoreEntries env.toStore (some .posInf) file)).evicted.map (·.id)) := by
  rw [h.evicted, evictedEntries, hquota, quotaLoop, ← h.written_entries hfile]

theorem Saved.beforeQuota_nodup (h : Saved env call file after report) (hfile : LineEnded file) :
    ((beforeQuota report (loadStoreEntries env.toStore (some .posInf) file)).map (·.id)).Nodup := by
  rw [← h.written_entries hfile]
  exact loaded_ids_nodup _ _

/-- What is left of the namespace are the active entries of the loop. -/
theorem Saved.active_perm (h : Saved env call file after report) (hfile : LineEnded file)
    (hquota : resolveNamespaceQuota env.quotaConfig report.entry.memoryNamespace = some quota) :
    (inNamespace report.entry.memoryNamespace
      (loadStoreEntries env.toStore (some .posInf) after)).Perm
      (quotaLoop env quota report (loadStoreEntries env.toStore (some .posInf) file)).active := by
  have hnodup := inNamespace_ids_nodup report.entry.memoryNamespace (h.beforeQuota_nodup hfile)
  obtain ⟨hspec, -⟩ := evictFrom_spec env quota [report.entry.id] hnodup
  have hdisj := List.nodup_append.mp (by simpa only [List.map_append] using hspec.nodup hnodup)
  have hactive : (quotaLoop env quota report (loadStoreEntries env.toStore (some .posInf)
      file)).active.filter (fun e => e.id ∉ report.evictedIds) =
      (quotaLoop env quota report (loadStoreEntries env.toStore (some .posInf) file)).active := by
    apply List.filter_eq_self.mpr
    intro e he
    rw [decide_eq_true_iff, h.evicted_loop hfile hquota]
    intro hmem
    exact hdisj.2.2 e.id (List.mem_map_of_mem he) e.id hmem rfl
  have hevicted : (quotaLoop env quota report (loadStoreEntries env.toStore (some .posInf)
      file)).evicted.filter (fun e => e.id ∉ report.evictedIds) = [] := by
    apply List.filter_eq_nil_iff.mpr
    intro e he
    rw [decide_eq_true_iff, not_not, h.evicted_loop hfile hquota]
    exact List.mem_map_of_mem he
  have hfilter := hspec.perm.filter fun e => e.id ∉ report.evictedIds
  rw [List.filter_append] at hfilter
  rw [quotaLoop] at hactive hevicted
  rw [hactive, hevicted, List.append_nil] at hfilter
  refine List.Perm.trans (List.Perm.of_eq ?_) hfilter.symm
  rw [h.entries hfile, inNamespace, inNamespace, List.filter_filter, List.filter_filter]
  apply List.filter_congr
  intro e _
  exact Bool.and_comm _ _

/-- The saved entry is not evicted. -/
theorem Saved.entry_kept (h : Saved env call file after report) :
    report.entry.id ∉ report.evictedIds := by
  intro hid
  rw [h.evicted] at hid
  obtain ⟨e, he, hid⟩ := List.mem_map.mp hid
  exact (evictedEntries_mem he).2 (by simp [hid])

theorem Saved.entry_live (h : Saved env call file after report) (hfile : LineEnded file) :
    report.entry ∈ loadStoreEntries env.toStore (some .posInf) after := by
  rw [h.entries hfile]
  exact List.mem_filter.mpr ⟨mem_beforeQuota.mpr (Or.inr rfl), by simpa using h.entry_kept⟩

/-- Either both budgets are met or only the saved entry is left. -/
theorem Saved.budgets (h : Saved env call file after report) (hfile : LineEnded file)
    (hquota : resolveNamespaceQuota env.quotaConfig report.entry.memoryNamespace = some quota) :
    ((inNamespace report.entry.memoryNamespace
          (loadStoreEntries env.toStore (some .posInf) after)).length ≤ quota.maxEntries ∧
        bytesOf env (inNamespace report.entry.memoryNamespace
          (loadStoreEntries env.toStore (some .posInf) after)) ≤ quota.maxBytes) ∨
      inNamespace report.entry.memoryNamespace
        (loadStoreEntries env.toStore (some .posInf) after) = [report.entry] := by
  have hperm := h.active_perm hfile hquota
  obtain ⟨hspec, hend⟩ := evictFrom_spec env quota [report.entry.id]
    (inNamespace_ids_nodup report.entry.memoryNamespace (h.beforeQuota_nodup hfile))
  rcases evictStep_none hend with ⟨hlen, hbytes⟩ | hprotected
  · have hsum := (hperm.map (estimateEntryBytes env)).sum_eq
    rw [hspec.bytes] at hbytes
    refine Or.inl ⟨hperm.length_eq ▸ hlen, ?_⟩
    rw [bytesOf, hsum]
    exact hbytes
  · have hmem : report.entry ∈ inNamespace report.entry.memoryNamespace
        (loadStoreEntries env.toStore (some .posInf) after) :=
      mem_inNamespace.mpr ⟨h.entry_live hfile, rfl⟩
    have hids := inNamespace_ids_nodup report.entry.memoryNamespace
      (loaded_ids_nodup env.toStore after)
    have hall : ∀ e ∈ inNamespace report.entry.memoryNamespace
        (loadStoreEntries env.toStore (some .posInf) after), e = report.entry := by
      intro e he
      have hid : e.id = report.entry.id := by simpa using hprotected e (hperm.mem_iff.mp he)
      exact List.inj_on_of_nodup_map hids he hmem hid
    refine Or.inr (List.perm_singleton.mp ?_)
    exact (List.perm_ext_iff_of_nodup hids.of_map (by simp)).mpr fun e =>
      ⟨fun he => by simp [hall e he], fun he => by simpa [List.mem_singleton.mp he] using hmem⟩

/-- An entry that was there and is not replaced, with an id of its own, goes only by eviction. -/
theorem Saved.mem_after (h : Saved env call file after report) (hfile : LineEnded file)
    {e : MemoryStoreEntry} (he : e.id ≠ report.entry.id) :
    e ∈ loadStoreEntries env.toStore (some .posInf) after ↔
      e ∈ loadStoreEntries env.toStore (some .posInf) file ∧ e.id ∉ report.replacedIds ∧
        e.id ∉ report.evictedIds := by
  have hne : e ≠ report.entry := fun heq => he (congrArg MemoryStoreEntry.id heq)
  rw [h.entries hfile, List.mem_filter, mem_beforeQuota, decide_eq_true_iff]
  simp [hne, he, and_assoc]

theorem Saved.evicted_iff (h : Saved env call file after report) (hfile : LineEnded file)
    (id : String) :
    id ∈ report.evictedIds ↔
      ∃ e ∈ loadStoreEntries env.toStore (some .posInf) file, e.id = id ∧
        e.memoryNamespace = report.entry.memoryNamespace ∧ id ≠ report.entry.id ∧
        id ∉ report.replacedIds ∧ e ∉ loadStoreEntries env.toStore (some .posInf) after := by
  constructor
  · intro hid
    have hne : id ≠ report.entry.id := fun heq => h.entry_kept (heq ▸ hid)
    obtain ⟨e, he, rfl⟩ := List.mem_map.mp (h.evicted ▸ hid)
    obtain ⟨hmem, hspace⟩ := mem_inNamespace.mp (evictedEntries_mem he).1
    rw [h.written_entries hfile] at hmem
    rcases mem_beforeQuota.mp hmem with ⟨hbefore, hkept, -⟩ | heq
    · refine ⟨e, hbefore, rfl, hspace, hne, hkept, fun hafter => ?_⟩
      exact ((h.mem_after hfile hne).mp hafter).2.2 hid
    · exact absurd (congrArg MemoryStoreEntry.id heq) hne
  · rintro ⟨e, hbefore, rfl, -, hne, hkept, hgone⟩
    by_contra hid
    exact hgone ((h.mem_after hfile hne).mpr ⟨hbefore, hkept, hid⟩)

/-- Entries of other namespaces have other ids than the saved, replaced and evicted ones. -/
theorem Saved.other_iff (h : Saved env call file after report) (hfile : LineEnded file)
    (hfresh : ∀ e ∈ loadStoreEntries env.toStore (some .posInf) file, e.id ≠ call.uuid)
    {e : MemoryStoreEntry} (he : e.memoryNamespace ≠ report.entry.memoryNamespace) :
    e ∈ loadStoreEntries env.toStore (some .posInf) after ↔
      e ∈ loadStoreEntries env.toStore (some .posInf) file := by
  have hids := loaded_ids_nodup env.toStore file
  have hapart : ∀ x ∈ loadStoreEntries env.toStore (some .posInf) file,
      x.memoryNamespace = report.entry.memoryNamespace →
      e ∈ loadStoreEntries env.toStore (some .posInf) file → e.id ≠ x.id := by
    intro x hx hspace hmem hid
    exact he (List.inj_on_of_nodup_map hids hmem hx hid ▸ hspace)
  by_cases hid : e.id = report.entry.id
  · -- Both sides are false: the id belongs to the saved entry.
    constructor
    · intro hafter
      have heq := List.inj_on_of_nodup_map (loaded_ids_nodup env.toStore after) hafter
        (h.entry_live hfile) hid
      exact absurd (congrArg MemoryStoreEntry.memoryNamespace heq) he
    · intro hmem
      rcases h.entryId with huuid | ⟨x, hx, hxid, hspace⟩
      · exact absurd (hid.trans huuid) (hfresh e hmem)
      · exact absurd (hid.trans hxid.symm) (hapart x hx hspace hmem)
  · rw [h.mem_after hfile hid]
    refine ⟨fun hmem => hmem.1, fun hmem => ⟨hmem, fun hrep => ?_, fun hevict => ?_⟩⟩
    · obtain ⟨x, hx, hxid, hspace⟩ := h.replaced _ hrep
      exact hapart x hx hspace hmem hxid.symm
    · obtain ⟨x, hx, hxid, hspace, -⟩ := (h.evicted_iff hfile e.id).mp hevict
      exact hapart x hx hspace hmem hxid.symm

theorem Saved.evicted_nodup (h : Saved env call file after report) (hfile : LineEnded file)
    (hquota : resolveNamespaceQuota env.quotaConfig report.entry.memoryNamespace = some quota) :
    report.evictedIds.Nodup := by
  have hnodup := inNamespace_ids_nodup report.entry.memoryNamespace (h.beforeQuota_nodup hfile)
  obtain ⟨hspec, -⟩ := evictFrom_spec env quota [report.entry.id] hnodup
  have hall := hspec.nodup hnodup
  rw [List.map_append] at hall
  rw [h.evicted_loop hfile hquota]
  exact hall.of_append_right

/-- After a save to a file whose lines are ended the quota of the namespace is kept, nothing
else is touched, and the loop came to its own end. -/
theorem memorySave_keeps_quota (env : SaveEnv) (call : SaveCall) (file after : Option String)
    (report : SaveReport) (quota : NamespaceQuota) (hfile : LineEnded file)
    (hsave : memorySave env call file = .ok (report, after))
    (hquota : resolveNamespaceQuota env.quotaConfig report.entry.memoryNamespace = some quota)
    (hmax : 1 ≤ quota.maxEntries)
    (hfresh : ∀ e ∈ loadStoreEntries env.toStore (some .posInf) file, e.id ≠ call.uuid) :
    QuotaKept env quota report (loadStoreEntries env.toStore (some .posInf) file)
        (loadStoreEntries env.toStore (some .posInf) after) ∧
      evictStep env quota [report.entry.id] (quotaLoop env quota report
        (loadStoreEntries env.toStore (some .posInf) file)) = none := by
  have h := memorySave_saved hsave
  refine ⟨?_, ?_⟩
  · refine {
      saved := h.entry_live hfile
      entries := ?_
      bytes := (h.budgets hfile hquota).imp_left And.right
      evicted_nodup := h.evicted_nodup hfile hquota
      evicted := h.evicted_iff hfile
      others := fun e he => h.other_iff hfile hfresh he }
    rcases h.budgets hfile hquota with ⟨hlen, -⟩ | honly
    · exact hlen
    · rw [honly]
      exact hmax
  · exact (evictFrom_spec env quota [report.entry.id]
      (inNamespace_ids_nodup report.entry.memoryNamespace (h.beforeQuota_nodup hfile))).2

/-- A store with room for one entry in a namespace. -/
def oneEntryEnv (json : Js.Json) : SaveEnv where
  rt := Js.asciiRuntime
  json := json
  defaultNamespace := "global"
  defaultNamespace_slug := global_slug
  quotaConfig := ⟨⟨1, 8000, .oldest⟩, []⟩
  parseIsoMillis _ := 0
  score _ _ _ := 0
  toFixed3 q := q
  blendConfidence a b := (a + b) / 2 + MIN_CONFIDENCE

def firstCall : SaveCall where
  params := .obj [("title", .str "Editor"), ("content", .str "Uses two spaces.")]
  now := "2026-01-01T00:00:00.000Z"
  today := "2026-01-01"
  evictedAt := "2026-01-01T00:00:00.001Z"
  uuid := "7f1a2b3c-0d1e-4f2a-8b3c-4d5e6f708192"
  now_trimmed := newYear_trimmed
  evictedAt_trimmed := afterNewYear_trimmed
  uuid_trimmed := by decide

def firstRequest : SaveRequest :=
  ⟨"Editor", "Uses two spaces.", [], 3, DEFAULT_CONFIDENCE, "user", "global", .verified, .upsert⟩

theorem firstCall_request (json : Js.Json) :
    checkRequest (oneEntryEnv json) firstCall.params = .ok firstRequest := by
  have hread : readRequest (oneEntryEnv json) firstCall.params =
      .ok (firstRequest, some .upsert) := rfl
  have htext : firstRequest.title ++ "\n" ++ firstRequest.content ++ "\n" ++
      String.intercalate " " firstRequest.tags = "Editor\nUses two spaces.\n" := by decide
  have hsecret : containsLikelySecret "Editor\nUses two spaces.\n" = false := by decide
  rw [checkRequest, hread]
  simp only [htext, hsecret]
  rfl

/-- An entry as another namespace may hold it. -/
def workEntry : MemoryStoreEntry where
  id := "c0ffee00-0000-4000-8000-000000000001"
  title := "Release"
  content := "Fridays."
  tags := []
  createdAt := "2025-12-01T00:00:00.000Z"
  updatedAt := "2025-12-01T00:00:00.000Z"
  lastAccessedAt := "2025-12-01T00:00:00.000Z"
  reinforceCount := 0
  importance := 3
  confidence := 1
  source := "user"
  memoryNamespace := "work"
  trustTier := .verified

theorem workEntry_normalized (rt : Runtime) : Normalized rt workEntry where
  id := by decide
  title := by decide
  content := by decide
  createdAt := by decide
  updatedAt := by decide
  lastAccessedAt := by decide
  reinforceCount := by decide
  tags := by simp [workEntry]
  tags_nodup := by decide
  tags_length := by decide
  importance := by decide
  confidence := ⟨by norm_num [MIN_CONFIDENCE, workEntry], le_rfl⟩
  source := by decide
  memoryNamespace := by decide

/-- An entry that fills the quota of the namespace of the first call. -/
def shellEntry : MemoryStoreEntry :=
  { workEntry with
    id := "c0ffee00-0000-4000-8000-000000000002"
    title := "Shell"
    content := "Runs fish."
    memoryNamespace := "global" }

theorem shellEntry_normalized (rt : Runtime) : Normalized rt shellEntry :=
  { workEntry_normalized rt with
    id := by decide
    title := by decide
    content := by decide
    memoryNamespace := by decide }

section Files
variable (json : Js.Json)

/-- The store with the entry of another namespace. -/
def workFile : Option String := appendStoreEntry (oneEntryEnv json).toWriteEnv none workEntry

theorem workFile_log :
    storeLog (oneEntryEnv json).toStore (workFile json) = [.put workEntry] ∧ LineEnded (workFile json) :=
  appendStoreEntry_log (by rintro raw ⟨⟩) (workEntry_normalized Js.asciiRuntime)

theorem workFile_entries :
    loadStoreEntries (oneEntryEnv json).toStore (some .posInf) (workFile json) = [workEntry] := by
  rw [loadStoreEntries_live, (workFile_log json).1]
  rfl

/-- The store with one entry more, in the namespace of the first call. -/
def fullFile : Option String := appendStoreEntry (oneEntryEnv json).toWriteEnv (workFile json) shellEntry

theorem fullFile_log : storeLog (oneEntryEnv json).toStore (fullFile json) =
    [.put workEntry, .put shellEntry] ∧ LineEnded (fullFile json) := by
  obtain ⟨hlog, hended⟩ := workFile_log json
  have hfull := @appendStoreEntry_log (oneEntryEnv json).toWriteEnv _ hended _
    (shellEntry_normalized Js.asciiRuntime)
  rw [hlog] at hfull
  exact hfull

theorem fullFile_entries : loadStoreEntries (oneEntryEnv json).toStore (some .posInf) (fullFile json) =
    [workEntry, shellEntry] := by
  rw [loadStoreEntries_live, (fullFile_log json).1]
  rfl

end Files

/-- The namespace is full, so the save evicts its other entry and leaves the other namespace alone. -/
theorem memorySave_keeps_quota_full :
    ∃ env call file report after,
      loadStoreEntries env.toStore (some .posInf) file = [workEntry, shellEntry] ∧
      memorySave env call file = .ok (report, after) ∧
      (∀ id, id ∈ report.evictedIds ↔ id = shellEntry.id) ∧
      QuotaKept env ⟨1, 8000, .oldest⟩ report [workEntry, shellEntry]
        (loadStoreEntries env.toStore (some .posInf) after) := by
  obtain ⟨json⟩ := Js.json_nonempty
  have hload := fullFile_entries json
  have hpick : pickStoreEntryForUpsert Js.asciiRuntime (inNamespace firstRequest.memoryNamespace
      (loadStoreEntries (oneEntryEnv json).toStore (some .posInf) (fullFile json))) firstRequest.title
      firstRequest.content = none := by
    rw [hload]
    decide +kernel
  obtain ⟨report, after, hsave, hentry, hreplaced⟩ := memorySave_new (firstCall_request json) hpick
  have hspace : report.entry.memoryNamespace = shellEntry.memoryNamespace := by rw [hentry]; rfl
  have hkept := (memorySave_keeps_quota _ _ _ after report ⟨1, 8000, .oldest⟩ (fullFile_log json).2 hsave
    (by rw [hentry]; rfl) le_rfl (by rw [hload]; decide)).1
  rw [hload] at hkept
  refine ⟨_, _, _, report, after, hload, hsave, fun id => ?_, hkept⟩
  have hid : shellEntry.id ≠ report.entry.id := by
    rw [hentry]
    decide
  -- One entry is left in the namespace, and it is the saved one.
  have hgone : shellEntry ∉ loadStoreEntries (oneEntryEnv json).toStore (some .posInf) after := by
    intro hshell
    have hsaved := mem_inNamespace.mpr ⟨hkept.saved, rfl⟩
    have hother := mem_inNamespace.mpr ⟨hshell, hspace.symm⟩
    obtain ⟨e, he⟩ : ∃ e, inNamespace report.entry.memoryNamespace
        (loadStoreEntries (oneEntryEnv json).toStore (some .posInf) after) = [e] :=
      List.length_eq_one_iff.mp (Nat.le_antisymm hkept.entries (List.length_pos_of_mem hsaved))
    rw [he, List.mem_singleton] at hsaved hother
    exact hid (congrArg (·.id) (hother.trans hsaved.symm))
  rw [hkept.evicted]
  constructor
  · rintro ⟨e, he, rfl, hnamespace, -⟩
    rcases List.mem_cons.mp he with rfl | he
    · rw [hspace] at hnamespace
      exact absurd hnamespace (by decide)
    · rw [List.mem_singleton.mp he]
  · rintro rfl
    exact ⟨shellEntry, by simp, rfl, hspace.symm, hid, by rw [hreplaced rfl]; exact List.not_mem_nil, hgone⟩

end Save

/-- The bounds a configured quota gets. -/
theorem parseNamespaceQuotaValue_bounds {rt : Runtime} {raw : Value} {defaults quota : NamespaceQuota}
    (hentries : 1 ≤ defaults.maxEntries ∧ defaults.maxEntries ≤ 100000)
    (hbytes : 8000 ≤ defaults.maxBytes ∧ defaults.maxBytes ≤ 200000000)
    (h : parseNamespaceQuotaValue rt raw defaults = .ok quota) :
    1 ≤ quota.maxEntries ∧ 8000 ≤ quota.maxBytes := by
  obtain ⟨maxEntries, hmaxEntries, h⟩ := exists_of_bind_ok h
  obtain ⟨maxBytes, hmaxBytes, h⟩ := exists_of_bind_ok h
  obtain ⟨policy, -, h⟩ := exists_of_bind_ok h
  cases h
  have h1 := clampInt_bounds (by omega) (by omega) hmaxEntries
  have h2 := clampInt_bounds (by omega) (by omega) hmaxBytes
  dsimp only
  omega

end T560.Memory
