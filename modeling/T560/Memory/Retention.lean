import T560.Foundation.Retention
import T560.Memory.Isolation
import T560.Memory.Trust

/-!
# Pruning

A prune ranks the entries of its scope by their update times and cuts those beyond the count or
too old. A dry run reports how many it would cut; a real run appends their tombstones.
-/

namespace T560.Memory

open Js (Value)
open Retention

variable (env : ReadEnv)

/-- The update time of the entry is known and at or before the threshold. -/
def PruneRequest.TooOld (r : PruneRequest) (nowMillis : Int) (e : MemoryStoreEntry) : Prop :=
  ∃ days ∈ r.olderThanDays, 0 < updatedMillis env.toSaveEnv e ∧
    updatedMillis env.toSaveEnv e ≤ nowMillis - days * 86400000

/-- What a prune leaves of the entries, `before` it and `after` it. -/
structure PruneRequest.Retained (r : PruneRequest) (nowMillis : Int)
    (before after : List MemoryStoreEntry) : Prop where
  few : ∀ count ∈ r.maxEntries, ((after.filter (entryMatchesScope · r.scope)).length : Int) ≤ count
  young : ∀ e ∈ after, entryMatchesScope e r.scope = true → ¬ r.TooOld env nowMillis e
  recent : ∀ e ∈ after, entryMatchesScope e r.scope = true →
    ∀ x ∈ before, x ∉ after → ¬ r.TooOld env nowMillis x →
      updatedMillis env.toSaveEnv x ≤ updatedMillis env.toSaveEnv e
  outside : after.filter (fun e => !entryMatchesScope e r.scope) =
    before.filter fun e => !entryMatchesScope e r.scope

variable {env} {r : PruneRequest} {nowMillis : Int} {file : Option String} {e : MemoryStoreEntry}

theorem prunes_iff {idx : Nat} : r.prunes env nowMillis e idx = true ↔
    (∃ count ∈ r.maxEntries, count ≤ (idx : Int)) ∨ r.TooOld env nowMillis e := by
  simp [PruneRequest.prunes, PruneRequest.TooOld, Option.any_eq_true]

theorem candidates_eq_cut :
    r.candidates env nowMillis file = cut (r.prunes env nowMillis) (r.sorted env file) := rfl

theorem mem_sorted_iff : e ∈ r.sorted env file ↔
    e ∈ loadStoreEntries env.toStore (some .posInf) file ∧ entryMatchesScope e r.scope = true := by
  rw [PruneRequest.sorted, List.mem_mergeSort, List.mem_filter]

theorem sorted_nodup : (r.sorted env file).Nodup :=
  (List.mergeSort_perm _ _).nodup_iff.mpr ((loaded_nodup file).filter _)

/-- A loaded entry has an update time of its own, by which the entries are ranked. -/
theorem sorted_ranked : (r.sorted env file).Pairwise fun a b =>
    updatedMillis env.toSaveEnv b ≤ updatedMillis env.toSaveEnv a := by
  have hmillis : ∀ e ∈ r.sorted env file,
      updatedMillis env.toSaveEnv e = env.parseIsoMillis e.updatedAt := by
    intro e he
    have hnorm := @loaded_normalized env.toWriteEnv file e (mem_sorted_iff.mp he).1
    rw [updatedMillis, if_neg hnorm.updatedAt.2]
  have hsorted : (r.sorted env file).Pairwise fun a b =>
      ListOrder.before env a b .updatedDesc = true := by
    refine List.pairwise_mergeSort ?_ ?_ _
    · intro a b c hab hbc
      simp only [ListOrder.before, decide_eq_true_eq] at hab hbc ⊢
      exact hbc.trans hab
    · intro a b
      simp only [ListOrder.before, Bool.or_eq_true, decide_eq_true_eq]
      exact (le_total _ _).symm
  refine hsorted.imp_of_mem fun ha hb hab => ?_
  rw [hmillis _ ha, hmillis _ hb]
  simpa [ListOrder.before] using hab

theorem mem_ids_iff (he : e ∈ loadStoreEntries env.toStore (some .posInf) file) :
    e.id ∈ (r.candidates env nowMillis file).map (·.id) ↔ e ∈ r.candidates env nowMillis file := by
  constructor
  · intro h
    obtain ⟨x, hx, hid⟩ := List.mem_map.mp h
    have hsame : x = e := List.inj_on_of_nodup_map (loaded_ids_nodup env.toStore file)
      (candidates_loaded hx) he hid
    exact hsame ▸ hx
  · intro h
    exact List.mem_map_of_mem h

/-- The tombstones of the candidates take the candidates out of the store. -/
theorem loaded_pruned (hfile : LineEnded file) (deletedAt reason : String)
    (hdeleted : Trimmed deletedAt) :
    loadStoreEntries env.toStore (some .posInf) (appendStoreDeleteMarkers env.toWriteEnv file
        ((r.candidates env nowMillis file).map fun entry => ⟨entry.id, deletedAt, some reason⟩)) =
      (loadStoreEntries env.toStore (some .posInf) file).filter
        (· ∉ r.candidates env nowMillis file) := by
  let marker (entry : MemoryStoreEntry) : MemoryStoreDeleteMarker :=
    ⟨entry.id, deletedAt, some reason⟩
  have hsound : ∀ m ∈ (r.candidates env nowMillis file).map marker, m.Sound := by
    intro m hm
    obtain ⟨entry, hentry, rfl⟩ := List.mem_map.mp hm
    exact ⟨(@loaded_normalized env.toWriteEnv file entry (candidates_loaded hentry)).id, hdeleted⟩
  have hlog := (@appendStoreDeleteMarkers_log env.toWriteEnv file hfile _ hsound).1
  have hids : ((r.candidates env nowMillis file).map marker).map (fun m => (.del m.id : StoreRecord)) =
      ((r.candidates env nowMillis file).map (·.id)).map .del := by
    rw [List.map_map, List.map_map]
    rfl
  rw [loadStoreEntries_live, hlog, hids, ReplayLog.live_append_dels, ← loadStoreEntries_live]
  refine List.filter_congr fun e he => ?_
  rw [decide_eq_decide]
  exact not_congr (mem_ids_iff he)

/-- The entries of the scope that are left are those the cut of the ranking keeps. -/
theorem scoped_kept_perm :
    (((loadStoreEntries env.toStore (some .posInf) file).filter
        (· ∉ r.candidates env nowMillis file)).filter (entryMatchesScope · r.scope)).Perm
      (kept (r.prunes env nowMillis) (r.sorted env file)) := by
  rw [List.filter_filter, kept, ← candidates_eq_cut]
  have hswap : (loadStoreEntries env.toStore (some .posInf) file).filter (fun e =>
        entryMatchesScope e r.scope && decide (e ∉ r.candidates env nowMillis file)) =
      ((loadStoreEntries env.toStore (some .posInf) file).filter
        (entryMatchesScope · r.scope)).filter (· ∉ r.candidates env nowMillis file) := by
    rw [List.filter_filter]
    refine List.filter_congr fun e _ => ?_
    rw [Bool.and_comm]
  rw [hswap]
  exact (List.mergeSort_perm _ _).symm.filter _

theorem retained_of_cut (file : Option String) (hcounts : ∀ count ∈ r.maxEntries, 0 ≤ count) :
    r.Retained env nowMillis (loadStoreEntries env.toStore (some .posInf) file)
      ((loadStoreEntries env.toStore (some .posInf) file).filter
        (· ∉ r.candidates env nowMillis file)) := by
  have hkept : ∀ e ∈ (loadStoreEntries env.toStore (some .posInf) file).filter
      (· ∉ r.candidates env nowMillis file), entryMatchesScope e r.scope = true →
        e ∈ kept (r.prunes env nowMillis) (r.sorted env file) := by
    intro e he hscope
    exact scoped_kept_perm.mem_iff.mp (List.mem_filter.mpr ⟨he, hscope⟩)
  have hbeyond : ∀ count ∈ r.maxEntries, ∀ (a : MemoryStoreEntry) (i : Nat), count.toNat ≤ i →
      r.prunes env nowMillis a i = true := by
    intro count hcount a i hi
    exact prunes_iff.mpr (.inl ⟨count, hcount, by omega⟩)
  refine ⟨fun count hcount => ?_, fun e he hscope hold => ?_,
    fun e he hscope x hx hgone hyoung => ?_, ?_⟩
  · have hlength := @length_kept_le _ _ (r.sorted env file) _ _ (hbeyond count hcount)
    have hpos := hcounts count hcount
    rw [scoped_kept_perm.length_eq]
    omega
  · obtain ⟨hmem, hleft⟩ := List.mem_filter.mp (hkept e he hscope)
    obtain ⟨i, hi⟩ := List.mem_iff_getElem?.mp hmem
    have hcut : e ∈ cut (r.prunes env nowMillis) (r.sorted env file) :=
      mem_cut_iff.mpr ⟨i, hi, prunes_iff.mpr (.inr hold)⟩
    simp [hcut] at hleft
  · have hcut : x ∈ r.candidates env nowMillis file := by
      by_contra hout
      exact hgone (List.mem_filter.mpr ⟨hx, by simpa using hout⟩)
    -- A young entry is cut for its place, so there is a count.
    obtain ⟨i, -, hprunes⟩ := mem_cut_iff.mp (candidates_eq_cut ▸ hcut)
    rcases prunes_iff.mp hprunes with ⟨count, hcount, -⟩ | hold
    · refine rank_of_kept (hbeyond count hcount) sorted_ranked (hkept e he hscope) hcut ?_
      intro j hj
      rcases prunes_iff.mp hj with ⟨count', hcount', hle⟩ | hold
      · obtain rfl := Option.some.inj (hcount.symm.trans hcount')
        omega
      · exact (hyoung hold).elim
    · exact (hyoung hold).elim
  · rw [List.filter_filter]
    refine List.filter_congr fun e he => ?_
    cases hscope : entryMatchesScope e r.scope with
    | true => rfl
    | false =>
      have hout : e ∉ r.candidates env nowMillis file := by
        intro hcut
        have hin := (mem_sorted_iff.mp (cut_sublist.subset (candidates_eq_cut ▸ hcut))).2
        rw [hscope] at hin
        cases hin
      simp [hout]

/-- As many entries are left as there were besides the candidates. -/
theorem length_pruned : ((loadStoreEntries env.toStore (some .posInf) file).filter
      (· ∉ r.candidates env nowMillis file)).length + (r.candidates env nowMillis file).length =
    (loadStoreEntries env.toStore (some .posInf) file).length :=
  length_filter_not_mem (loaded_nodup file) (sorted_nodup.sublist cut_sublist)
    fun _ he => candidates_loaded he

section Read

theorem pruneCriterion_bound {value : Option Value} {max_ fallback n : Int} (hfallback : 1 ≤ fallback)
    (hmax : fallback ≤ max_) (h : pruneCriterion env value max_ fallback = .ok (some n)) : 1 ≤ n := by
  obtain ⟨x, -, h⟩ := Js.exists_of_bind_ok h
  cases x with
  | fin q =>
    obtain ⟨m, hm, h⟩ := Js.exists_of_bind_ok h
    obtain rfl := Option.some.inj (Except.ok.inj h)
    exact (clampInt_bounds hfallback hmax hm).1
  | posInf => cases h
  | negInf => cases h
  | nan => cases h

/-- What an accepted request has read from its parameters. -/
theorem readPrune_ok_iff {params : Value} : readPrune env params = .ok r ↔ ∃ reason,
    pruneCriterion env (params.get? "maxEntries") 10000 1000 = .ok r.maxEntries ∧
    pruneCriterion env (params.get? "olderThanDays") 3650 365 = .ok r.olderThanDays ∧
    ¬ (r.maxEntries = none ∧ r.olderThanDays = none) ∧
    Value.trimmedText env.rt [params.get? "reason"] = .ok reason ∧
    resolveScope env.toToolEnv params = .ok r.scope ∧
    r.dryRun = decide (params.get? "dryRun" ≠ some (.bool false)) ∧
    r.reason = if reason = "" then "Pruned by retention policy" else reason := by
  have hread : ∀ {count days reason scope},
      pruneCriterion env (params.get? "maxEntries") 10000 1000 = .ok count →
      pruneCriterion env (params.get? "olderThanDays") 3650 365 = .ok days →
      Value.trimmedText env.rt [params.get? "reason"] = .ok reason →
      resolveScope env.toToolEnv params = .ok scope → ¬ (count = none ∧ days = none) →
      readPrune env params = .ok ⟨count, days, params.get? "dryRun" ≠ some (.bool false),
        if reason = "" then "Pruned by retention policy" else reason, scope⟩ := by
    intro count days reason scope hcount hdays hreason hscope hsome
    simp only [readPrune, hcount, hdays, hreason, hscope, bind, Except.bind, pure, Except.pure]
    cases count with
    | some count => rfl
    | none =>
      cases days with
      | some days => rfl
      | none => exact (hsome ⟨rfl, rfl⟩).elim
  constructor
  · intro h
    cases hcount : pruneCriterion env (params.get? "maxEntries") 10000 1000 with
    | error e => simp [readPrune, hcount, bind, Except.bind] at h
    | ok count =>
      cases hdays : pruneCriterion env (params.get? "olderThanDays") 3650 365 with
      | error e => simp [readPrune, hcount, hdays, bind, Except.bind] at h
      | ok days =>
        by_cases hnone : count = none ∧ days = none
        · obtain ⟨rfl, rfl⟩ := hnone
          simp [readPrune, hcount, hdays, bind, Except.bind, pure, Except.pure] at h
        · cases hreason : Value.trimmedText env.rt [params.get? "reason"] with
          | error e =>
            simp only [readPrune, hcount, hdays, hreason, bind, Except.bind, pure, Except.pure] at h
            split at h <;> cases h
          | ok reason =>
            cases hscope : resolveScope env.toToolEnv params with
            | error e =>
              simp only [readPrune, hcount, hdays, hreason, hscope, bind, Except.bind, pure,
                Except.pure] at h
              split at h <;> cases h
            | ok scope =>
              rw [hread hcount hdays hreason hscope hnone] at h
              obtain rfl := Except.ok.inj h
              exact ⟨reason, rfl, rfl, hnone, rfl, rfl, rfl, rfl⟩
  · rintro ⟨reason, hcount, hdays, hsome, hreason, hscope, hdry, htext⟩
    rw [hread hcount hdays hreason hscope hsome, ← hdry, ← htext]

theorem readPrune_count {params : Value} (h : readPrune env params = .ok r) :
    ∀ count ∈ r.maxEntries, 0 ≤ count := by
  intro count hcount
  obtain ⟨reason, hread, -⟩ := readPrune_ok_iff.mp h
  rw [hcount] at hread
  have hbound := pruneCriterion_bound (by decide) (by decide) hread
  omega

/-- Parameters that differ in `dryRun` only make the same request, for a dry run. -/
theorem readPrune_dry {dry real : Value} (hsame : ∀ key, key ≠ "dryRun" → real.get? key = dry.get? key)
    (hdry : dry.get? "dryRun" ≠ some (.bool false)) (h : readPrune env real = .ok r) :
    readPrune env dry = .ok { r with dryRun := true } := by
  have hscope : resolveScope env.toToolEnv dry = resolveScope env.toToolEnv real := by
    unfold resolveScope
    rw [hsame "namespace" (by decide), hsame "minTrustTier" (by decide)]
  obtain ⟨reason, hcount, hdays, hsome, hreason, hreal, -, htext⟩ := readPrune_ok_iff.mp h
  refine readPrune_ok_iff.mpr ⟨reason, ?_, ?_, hsome, ?_, ?_, (decide_eq_true hdry).symm, htext⟩
  · rw [← hsame "maxEntries" (by decide)]
    exact hcount
  · rw [← hsame "olderThanDays" (by decide)]
    exact hdays
  · rw [← hsame "reason" (by decide)]
    exact hreason
  · rw [hscope]
    exact hreal

end Read

/-- A dry run leaves the file and reports the candidates that a real run of the same request takes
out; what the real run leaves is within the criteria. -/
theorem prune_retains (env : ReadEnv) {file : Option String} (hfile : LineEnded file)
    {dry real : PruneCall}
    (hsame : ∀ key, key ≠ "dryRun" → real.params.get? key = dry.params.get? key)
    (hdry : dry.params.get? "dryRun" ≠ some (.bool false))
    (hreal : real.params.get? "dryRun" = some (.bool false)) (hnow : real.nowMillis = dry.nowMillis)
    {report : PruneReport} {after : Option String}
    (h : memoryPrune env real file = .ok (report, after)) :
    ∃ preview, memoryPrune env dry file = .ok (preview, file) ∧
      report.pruned = preview.wouldPrune ∧
      loadStoreEntries env.toStore (some .posInf) after =
        (loadStoreEntries env.toStore (some .posInf) file).filter
          (· ∉ preview.request.candidates env dry.nowMillis file) ∧
      (loadStoreEntries env.toStore (some .posInf) after).length + report.pruned =
        (loadStoreEntries env.toStore (some .posInf) file).length ∧
      report.request.Retained env real.nowMillis
        (loadStoreEntries env.toStore (some .posInf) file)
        (loadStoreEntries env.toStore (some .posInf) after) := by
  unfold memoryPrune at h
  cases hread : readPrune env real.params with
  | error e =>
    rw [hread] at h
    cases h
  | ok r =>
    have hpreview := readPrune_dry hsame hdry hread
    obtain ⟨reason, -, -, -, -, -, hdryRun, -⟩ := readPrune_ok_iff.mp hread
    have hrun : r.dryRun = false := by
      rw [hdryRun, hreal]
      decide
    rw [hread] at h
    simp only [hrun, Bool.false_eq_true, if_false] at h
    obtain ⟨rfl, rfl⟩ := Prod.mk.inj (Except.ok.inj h)
    have hloaded := @loaded_pruned env r real.nowMillis file hfile real.deletedAt r.reason
      real.deletedAt_trimmed
    refine ⟨_, by rw [memoryPrune, hpreview]; rfl, ?_, ?_, ?_, ?_⟩
    · rw [← hnow]
      rfl
    · rw [hloaded, ← hnow]
      rfl
    · rw [hloaded]
      exact length_pruned
    · rw [hloaded]
      exact retained_of_cut file (readPrune_count hread)

section Example

/-- A prune of what is older than a day, two days after the turn of the year. -/
def twoDaysLater (params : List (String × Value)) : PruneCall where
  params := .obj params
  nowMillis := 1767225600000 + 2 * 86400000
  deletedAt := newYear
  deletedAt_trimmed := newYear_trimmed

def dryPrune : PruneCall := twoDaysLater [("olderThanDays", .num (.fin 1))]

def realPrune : PruneCall :=
  twoDaysLater [("dryRun", .bool false), ("olderThanDays", .num (.fin 1))]

def dayOld : PruneRequest :=
  ⟨none, some 1, false, "Pruned by retention policy", ⟨"global", .unverified⟩⟩

theorem prune_retains_nothing_old :
    ∃ json room report after, memoryPrune (roomyEnv json room) realPrune
        (storeStep (roomyEnv json room) none (.save ruleCall)) = .ok (report, after) ∧
      report.pruned = 1 ∧ loadStoreEntries (roomyEnv json room).toStore (some .posInf) after = [] := by
  obtain ⟨json⟩ := Js.json_nonempty
  have hload := loaded_rule json (lineBytes json rule) le_rfl
  have hended := (@storeStep_steps (roomyEnv json (lineBytes json rule)) none (.save ruleCall)
    (by rintro raw ⟨⟩)).1
  generalize hfile : storeStep (roomyEnv json (lineBytes json rule)) none (.save ruleCall) = file
    at hload hended
  have hsorted : dayOld.sorted (roomyEnv json (lineBytes json rule)) file = [rule] := by
    rw [PruneRequest.sorted, hload]
    exact List.mergeSort_singleton rule
  have hcandidates : dayOld.candidates (roomyEnv json (lineBytes json rule)) realPrune.nowMillis
      file = [rule] := by
    rw [PruneRequest.candidates, hsorted]
    rfl
  obtain ⟨after, hprune⟩ : ∃ after, memoryPrune (roomyEnv json (lineBytes json rule)) realPrune file =
      .ok (⟨dayOld, 1, 0, 1, 1, [rule]⟩, after) := by
    rw [memoryPrune, show readPrune _ realPrune.params = .ok dayOld from rfl]
    dsimp only
    rw [hcandidates, hsorted]
    exact ⟨_, rfl⟩
  obtain ⟨preview, -, -, -, hlength, -⟩ := @prune_retains (roomyEnv json (lineBytes json rule)) file
    hended dryPrune realPrune (by
      intro key hkey
      exact (Value.lookup_cons_if _ _ _ _).trans (if_neg hkey))
    (by decide) rfl rfl _ _ hprune
  refine ⟨json, _, _, _, hfile ▸ hprune, rfl, List.length_eq_zero_iff.mp ?_⟩
  rw [hload] at hlength
  simpa using hlength

end Example

end T560.Memory
