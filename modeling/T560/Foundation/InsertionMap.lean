import Mathlib.Data.List.Nodup

/-!
# Maps that iterate in insertion order

A key has at most one entry. Writing a key that is there keeps its place; a new key goes to the
end.
-/

structure InsertionMap (κ α : Type) where
  entries : List (κ × α)
  nodup : (entries.map Prod.fst).Nodup

namespace InsertionMap

variable {κ α : Type} [DecidableEq κ]

def empty : InsertionMap κ α := ⟨[], List.nodup_nil⟩

def get (m : InsertionMap κ α) (key : κ) : Option α :=
  (m.entries.find? fun f => f.1 = key).map Prod.snd

def values (m : InsertionMap κ α) : List α := m.entries.map Prod.snd

/-- The entries that a test keeps. -/
def filter (m : InsertionMap κ α) (keep : κ × α → Bool) : InsertionMap κ α :=
  ⟨m.entries.filter keep, m.nodup.sublist (List.filter_sublist.map _)⟩

def erase (m : InsertionMap κ α) (key : κ) : InsertionMap κ α := m.filter fun f => f.1 ≠ key

section Set

variable (m : InsertionMap κ α) (key : κ) (x : α)

def setEntries : List (κ × α) :=
  if key ∈ m.entries.map Prod.fst then m.entries.map fun f => if f.1 = key then (key, x) else f
  else m.entries ++ [(key, x)]

theorem nodup_setEntries : ((m.setEntries key x).map Prod.fst).Nodup := by
  unfold setEntries
  split
  · have hkeys : (m.entries.map fun f => if f.1 = key then (key, x) else f).map Prod.fst =
        m.entries.map Prod.fst := by
      rw [List.map_map]
      apply List.map_congr_left
      intro f _
      simp only [Function.comp_apply]
      split
      · next h => exact h.symm
      · rfl
    rw [hkeys]
    exact m.nodup
  · next hnew =>
    rw [List.map_append, List.nodup_append]
    refine ⟨m.nodup, by simp, ?_⟩
    rintro a ha b hb rfl
    exact hnew (by simpa [List.mem_singleton.mp hb] using ha)

def set : InsertionMap κ α := ⟨m.setEntries key x, m.nodup_setEntries key x⟩

end Set

variable {m : InsertionMap κ α} {key other : κ} {x y : α}

theorem get_eq_some_iff : m.get key = some x ↔ (key, x) ∈ m.entries := by
  obtain ⟨entries, nodup⟩ := m
  unfold get
  induction entries with
  | nil => simp
  | cons f entries ih =>
    obtain ⟨k, y⟩ := f
    obtain ⟨hk, hrest⟩ := List.nodup_cons.mp nodup
    by_cases hkey : k = key
    · subst hkey
      have habsent : (k, x) ∉ entries := fun hmem => hk (List.mem_map.mpr ⟨_, hmem, rfl⟩)
      simp [habsent, eq_comm]
    · have hne : (key, x) ≠ (k, y) := fun heq => hkey (Prod.mk.inj heq).1.symm
      simpa [List.find?_cons, hkey, hne] using ih hrest

theorem mem_values_iff : x ∈ m.values ↔ ∃ key, m.get key = some x := by
  simp [values, get_eq_some_iff]

/-- The entries behind a write: the new one, and the others as they were. -/
theorem get_set_eq_some_iff :
    (m.set key x).get other = some y ↔ if other = key then y = x else m.get other = some y := by
  rw [get_eq_some_iff, get_eq_some_iff]
  unfold set setEntries
  dsimp only
  split
  · next hkey =>
    obtain ⟨⟨k, z⟩, hz, rfl⟩ := List.mem_map.mp hkey
    constructor
    · intro hmem
      obtain ⟨f, hf, heq⟩ := List.mem_map.mp hmem
      split at heq
      · cases heq
        simp
      · next hne =>
        subst heq
        rw [if_neg hne]
        exact hf
    · intro h
      split at h
      · next ho =>
        subst ho h
        exact List.mem_map.mpr ⟨_, hz, by simp⟩
      · next ho => exact List.mem_map.mpr ⟨_, h, by simp [ho]⟩
  · next hnew =>
    rw [List.mem_append, List.mem_singleton, Prod.mk.injEq]
    split
    · next ho =>
      subst ho
      have habsent : (other, y) ∉ m.entries := fun hmem => hnew (List.mem_map.mpr ⟨_, hmem, rfl⟩)
      simp [habsent]
    · next ho => simp [ho]

theorem get_set (m : InsertionMap κ α) (key : κ) (x : α) : (m.set key x).get key = some x :=
  get_set_eq_some_iff.mpr (by rw [if_pos rfl])

theorem get_eq_none_iff : m.get key = none ↔ key ∉ m.entries.map Prod.fst := by
  rw [Option.eq_none_iff_forall_ne_some]
  simp [get_eq_some_iff]

theorem get_set_ne (hne : other ≠ key) : (m.set key x).get other = m.get other := by
  apply Option.ext
  intro y
  rw [get_set_eq_some_iff, if_neg hne]

/-- A new key goes to the end. -/
theorem entries_set_new (h : m.get key = none) : (m.set key x).entries = m.entries ++ [(key, x)] :=
  if_neg (get_eq_none_iff.mp h)

/-- Of two writes the second stays, where the first one was. -/
theorem set_set (m : InsertionMap κ α) (key : κ) (x y : α) : (m.set key x).set key y = m.set key y := by
  have hmem : key ∈ ((m.set key x).entries).map Prod.fst := by
    rw [← not_not (a := key ∈ _), ← get_eq_none_iff, get_set]
    exact Option.some_ne_none x
  have hentries : (m.set key x).setEntries key y = m.setEntries key y := by
    rw [setEntries, if_pos hmem]
    unfold set setEntries
    dsimp only
    split
    · rw [List.map_map]
      apply List.map_congr_left
      intro f _
      simp only [Function.comp_apply]
      split
      · rw [if_pos rfl]
      · rfl
    · next hnew =>
      rw [List.map_append, List.map_singleton, if_pos rfl]
      congr 1
      conv_rhs => rw [← List.map_id m.entries]
      apply List.map_congr_left
      intro f hf
      rw [if_neg, id]
      rintro rfl
      exact hnew (List.mem_map_of_mem hf)
  unfold set at hentries ⊢
  simp only [InsertionMap.mk.injEq]
  exact hentries

theorem get_filter_eq_some_iff {keep : κ × α → Bool} :
    (m.filter keep).get key = some x ↔ m.get key = some x ∧ keep (key, x) = true := by
  rw [get_eq_some_iff, get_eq_some_iff]
  exact List.mem_filter

theorem get_erase_eq_some_iff :
    (m.erase key).get other = some x ↔ m.get other = some x ∧ other ≠ key := by
  unfold erase
  rw [get_filter_eq_some_iff]
  simp

end InsertionMap
