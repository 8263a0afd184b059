import Mathlib.Data.List.Induction
import Mathlib.Data.List.Nodup
import Mathlib.Logic.Function.Basic

/-!
# Replay of a keyed log

A log of puts and deletes. Its meaning is the forward replay; a reader may instead scan it
from its end, and a writer may compact it to its live values.
-/

namespace ReplayLog

inductive Record (κ ν : Type) where
  | put (value : ν)
  | del (key : κ)

variable {κ ν : Type} (key : ν → κ)

def Record.keyOf : Record κ ν → κ
  | .put v => key v
  | .del k => k

def Record.value? : Record κ ν → Option ν
  | .put v => some v
  | .del _ => none

theorem key_of_value {r : Record κ ν} {v : ν} (h : r.value? = some v) : r.keyOf key = key v := by
  cases r with
  | put w =>
    obtain rfl := Option.some.inj h
    rfl
  | del k => cases h

variable [DecidableEq κ]

/-- The forward replay: the last record of a key decides. -/
def replay (log : List (Record κ ν)) : κ → Option ν :=
  log.foldl (fun s r => Function.update s (r.keyOf key) r.value?) fun _ => none

/-- The records that no later record of their key supersedes, in log order. -/
def decisive : List (Record κ ν) → List (Record κ ν)
  | [] => []
  | r :: rest =>
    if rest.any (fun x => x.keyOf key = r.keyOf key) then decisive rest else r :: decisive rest

/-- The values of the deciding records. -/
def live (log : List (Record κ ν)) : List ν := (decisive key log).filterMap Record.value?

/-- The values a scan from the end keeps, newest first. -/
def scan : List (Record κ ν) → List κ → List κ → List ν
  | [], _, _ => []
  | .del k :: rest, seen, deleted => scan rest seen (k :: deleted)
  | .put v :: rest, seen, deleted =>
    if key v ∈ deleted ∨ key v ∈ seen then scan rest seen deleted
    else v :: scan rest (key v :: seen) deleted

/-- The search for one key from the end. -/
def find (k : κ) : List (Record κ ν) → Option ν
  | [] => none
  | r :: rest => if r.keyOf key = k then r.value? else find k rest

variable {key}

theorem mem_of_mem_decisive {log : List (Record κ ν)} {r : Record κ ν}
    (h : r ∈ decisive key log) : r ∈ log := by
  induction log with
  | nil => exact h
  | cons x rest ih =>
    rw [decisive] at h
    split at h
    · exact List.mem_cons_of_mem _ (ih h)
    · rcases List.mem_cons.mp h with rfl | h
      · exact List.mem_cons_self
      · exact List.mem_cons_of_mem _ (ih h)

/-- A live value was put. -/
theorem mem_log_of_live {log : List (Record κ ν)} {v : ν} (h : v ∈ live key log) :
    Record.put v ∈ log := by
  obtain ⟨r, hr, hv⟩ := List.mem_filterMap.mp h
  cases r with
  | put w =>
    obtain rfl := Option.some.inj hv
    exact mem_of_mem_decisive hr
  | del k => cases hv

/-- A later part of the log supersedes the records of its keys. -/
theorem decisive_append (xs ys : List (Record κ ν)) :
    decisive key (xs ++ ys) =
      (decisive key xs).filter (fun r => !ys.any fun x => x.keyOf key = r.keyOf key) ++
        decisive key ys := by
  induction xs with
  | nil => rfl
  | cons r xs ih =>
    by_cases hx : xs.any (fun x => x.keyOf key = r.keyOf key) = true
    · simp [decisive, hx, ih]
    · by_cases hy : ys.any (fun x => x.keyOf key = r.keyOf key) = true
      · simp [decisive, hx, hy, ih]
      · simp [decisive, hx, hy, ih]

/-- On values: what a later part of the log leaves of the live values before it. -/
theorem live_append (xs ys : List (Record κ ν)) :
    live key (xs ++ ys) =
      (live key xs).filter (fun v => !ys.any fun x => x.keyOf key = key v) ++ live key ys := by
  rw [live, decisive_append, List.filterMap_append, live, live, List.filter_filterMap,
    List.filterMap_filter]
  congr 1
  apply List.filterMap_congr
  intro r _
  cases r with
  | put v =>
    simp only [Record.value?, Record.keyOf, Option.filter_some]
    rfl
  | del k => simp [Record.value?]

theorem live_single (r : Record κ ν) : live key [r] = r.value?.toList := by
  cases r <;> rfl

theorem live_snoc (log : List (Record κ ν)) (r : Record κ ν) :
    live key (log ++ [r]) =
      (live key log).filter (fun v => key v ≠ r.keyOf key) ++ r.value?.toList := by
  rw [live_append, live_single]
  congr 1
  apply List.filter_congr
  intro v _
  simp [eq_comm]

/-- Deletions take the values of their keys out. -/
theorem live_append_dels (log : List (Record κ ν)) (keys : List κ) :
    live key (log ++ keys.map .del) = (live key log).filter fun v => key v ∉ keys := by
  have hnone : live key (keys.map (Record.del : κ → Record κ ν)) = [] := by
    refine List.eq_nil_iff_forall_not_mem.mpr fun v hv => ?_
    obtain ⟨k, -, hk⟩ := List.mem_map.mp (mem_log_of_live hv)
    cases hk
  rw [live_append, hnone, List.append_nil]
  apply List.filter_congr
  intro v _
  rw [Bool.eq_iff_iff, Bool.not_eq_true', ← Bool.not_eq_true, List.any_eq_true, decide_eq_true_iff]
  refine not_congr ⟨?_, fun hv => ⟨.del (key v), List.mem_map_of_mem hv, by simp [Record.keyOf]⟩⟩
  rintro ⟨r, hr, hkey⟩
  obtain ⟨k, hk, rfl⟩ := List.mem_map.mp hr
  have heq : k = key v := of_decide_eq_true hkey
  exact heq ▸ hk

theorem replay_snoc (log : List (Record κ ν)) (r : Record κ ν) :
    replay key (log ++ [r]) = Function.update (replay key log) (r.keyOf key) r.value? := by
  simp [replay]

/-- The live values are the values of the replay. -/
theorem mem_live_iff {log : List (Record κ ν)} {v : ν} :
    v ∈ live key log ↔ replay key log (key v) = some v := by
  induction log using List.reverseRecOn with
  | nil => simp [live, decisive, replay]
  | append_singleton log r ih =>
    rw [live_snoc, replay_snoc, List.mem_append, List.mem_filter, ih]
    by_cases hk : key v = r.keyOf key
    · rw [hk, Function.update_self]
      simp
    · rw [Function.update_of_ne hk]
      have hr : ¬ r.value? = some v := fun h => hk (key_of_value key h).symm
      simp [hk, hr]

theorem live_keys_nodup (log : List (Record κ ν)) : ((live key log).map key).Nodup := by
  induction log using List.reverseRecOn with
  | nil => exact List.nodup_nil
  | append_singleton log r ih =>
    rw [live_snoc, List.map_append, List.nodup_append]
    refine ⟨ih.sublist (List.filter_sublist.map key), ?_, ?_⟩
    · cases r <;> simp [Record.value?]
    · intro a ha b hb
      obtain ⟨v, hv, rfl⟩ := List.mem_map.mp ha
      obtain ⟨w, hw, rfl⟩ := List.mem_map.mp hb
      have hk : r.keyOf key = key w := key_of_value key (by simpa using hw)
      have hne := (List.mem_filter.mp hv).2
      simpa [hk] using hne

theorem replay_key {log : List (Record κ ν)} {k : κ} {v : ν} (h : replay key log k = some v) :
    key v = k := by
  induction log using List.reverseRecOn with
  | nil => cases h
  | append_singleton log r ih =>
    rw [replay_snoc] at h
    by_cases hk : k = r.keyOf key
    · rw [hk, Function.update_self] at h
      rw [hk, key_of_value key h]
    · rw [Function.update_of_ne hk] at h
      exact ih h

/-- Looking a key up among the live values gives its replay. -/
theorem find?_live (log : List (Record κ ν)) (k : κ) :
    (live key log).find? (fun v => key v = k) = replay key log k := by
  cases hf : (live key log).find? fun v => key v = k with
  | some v =>
    have hv : key v = k := by simpa using List.find?_some hf
    rw [← hv]
    exact (mem_live_iff.mp (List.mem_of_find?_eq_some hf)).symm
  | none =>
    cases hr : replay key log k with
    | none => rfl
    | some v =>
      have hv := replay_key hr
      have hmem : v ∈ live key log := mem_live_iff.mpr (by rw [hv, hr])
      have := List.find?_eq_none.mp hf v hmem
      simp [hv] at this

/-- The search from the end finds the replay of its key. -/
theorem find_reverse (log : List (Record κ ν)) (k : κ) :
    find key k log.reverse = replay key log k := by
  induction log using List.reverseRecOn with
  | nil => rfl
  | append_singleton log r ih =>
    rw [List.reverse_append, List.reverse_singleton, List.singleton_append, find, replay_snoc, ih]
    by_cases hk : r.keyOf key = k
    · subst hk
      simp
    · rw [if_neg hk, Function.update_of_ne (Ne.symm hk)]

theorem scan_eq (log : List (Record κ ν)) (seen deleted : List κ) :
    (scan key log.reverse seen deleted).reverse =
      (live key log).filter fun v => key v ∉ seen ∧ key v ∉ deleted := by
  induction log using List.reverseRecOn generalizing seen deleted with
  | nil => rfl
  | append_singleton log r ih =>
    rw [List.reverse_append, List.reverse_singleton, List.singleton_append, live_snoc,
      List.filter_append, List.filter_filter]
    cases r with
    | del k =>
      rw [scan, ih]
      simp only [Record.value?, Option.toList_none, List.filter_nil, List.append_nil]
      apply List.filter_congr
      intro v _
      by_cases hv : key v = k <;> simp [Record.keyOf, hv]
    | put w =>
      rw [scan]
      by_cases hw : key w ∈ deleted ∨ key w ∈ seen
      · rw [if_pos hw, ih]
        have hdrop : List.filter (fun v => decide (key v ∉ seen ∧ key v ∉ deleted))
            (Record.put w : Record κ ν).value?.toList = [] := by
          simp only [Record.value?, Option.toList_some, List.filter_singleton]
          rcases hw with hw | hw <;> simp [hw]
        rw [hdrop, List.append_nil]
        apply List.filter_congr
        intro v _
        by_cases hv : key v = key w
        · rcases hw with hw | hw <;> simp [hv, hw]
        · simp [Record.keyOf, hv]
      · rw [if_neg hw, List.reverse_cons, ih]
        rw [not_or] at hw
        have hkeep : List.filter (fun v => decide (key v ∉ seen ∧ key v ∉ deleted))
            (Record.put w : Record κ ν).value?.toList = [w] := by
          simp [Record.value?, hw]
        rw [hkeep]
        congr 1
        apply List.filter_congr
        intro v _
        by_cases hv : key v = key w <;> simp [Record.keyOf, hv]

/-- The scan from the end collects the live values. -/
theorem scan_reverse (log : List (Record κ ν)) :
    (scan key log.reverse [] []).reverse = live key log := by
  rw [scan_eq]
  simp

theorem live_puts {vs : List ν} (h : (vs.map key).Nodup) :
    live key (vs.map (Record.put : ν → Record κ ν)) = vs := by
  induction vs with
  | nil => rfl
  | cons v vs ih =>
    rw [List.map_cons, List.nodup_cons] at h
    have hlast : (vs.map (Record.put : ν → Record κ ν)).any (fun x => x.keyOf key = key v) = false := by
      rw [List.any_eq_false]
      intro x hx
      obtain ⟨w, hw, rfl⟩ := List.mem_map.mp hx
      have hne : key w ≠ key v := fun he => h.1 (he ▸ List.mem_map_of_mem hw)
      simp [Record.keyOf, hne]
    have hhead : decisive key (Record.put v :: vs.map (Record.put : ν → Record κ ν)) =
        Record.put v :: decisive key (vs.map (Record.put : ν → Record κ ν)) := by
      rw [decisive]
      exact if_neg (by rw [Bool.not_eq_true]; exact hlast)
    have := ih h.2
    rw [live] at this
    rw [List.map_cons, live, hhead, List.filterMap_cons, this]
    rfl

/-- A compacted log means the same under every continuation. -/
theorem live_compact_append (xs ys : List (Record κ ν)) :
    live key ((live key xs).map Record.put ++ ys) = live key (xs ++ ys) := by
  rw [live_append, live_puts (live_keys_nodup xs), ← live_append]

end ReplayLog
