import Mathlib.Data.List.Sort
import T560.Js.Ascii

/-!
# Plain objects used as records

A record keeps its properties in the order they were made. Reading its entries gives the
array indices first, in ascending order, and then the other properties. Nothing written to
`__proto__` becomes a property: a text is dropped, and an object becomes the prototype.
-/

namespace T560.Js

abbrev PropertyMap (α : Type) := List (String × α)

/-- The number a property name stands for when it is an array index. -/
def arrayIndex? (key : String) : Option Nat :=
  let digits := key.toList
  if digits ≠ [] ∧ digits.all isDigit = true ∧ (digits = ['0'] ∨ digits.head? ≠ some '0') ∧
      decimalValue digits < 2 ^ 32 - 1 then
    some (decimalValue digits)
  else none

namespace PropertyMap

variable {α : Type}

/-- The properties behind `record[key] = x`. -/
def put (record : PropertyMap α) (key : String) (x : α) : PropertyMap α :=
  if key = "__proto__" then record
  else if record.any fun f => f.1 == key then
    record.map fun f => if f.1 == key then (f.1, x) else f
  else record ++ [(key, x)]

/-- `delete record[key]`. -/
def remove (record : PropertyMap α) (key : String) : PropertyMap α := record.filter fun f => f.1 != key

/-- `Object.entries(record)`. -/
def entries (record : PropertyMap α) : List (String × α) :=
  (record.filter fun f => (arrayIndex? f.1).isSome).insertionSort
      (fun a b : String × α => (arrayIndex? a.1).getD 0 ≤ (arrayIndex? b.1).getD 0) ++
    record.filter fun f => (arrayIndex? f.1).isNone

theorem mem_entries {record : PropertyMap α} {f : String × α} : f ∈ entries record ↔ f ∈ record := by
  rw [entries, List.mem_append, List.mem_insertionSort, List.mem_filter, List.mem_filter]
  cases h : arrayIndex? f.1 <;> simp

theorem mem_of_lookup {record : PropertyMap α} {key : String} {x : α} (h : record.lookup key = some x) :
    (key, x) ∈ record := by
  induction record with
  | nil => cases h
  | cons f record ih =>
    obtain ⟨k, y⟩ := f
    rw [List.lookup_cons] at h
    cases hk : key == k with
    | true =>
      rw [hk] at h
      cases h
      rw [beq_iff_eq.mp hk]
      exact List.mem_cons_self
    | false =>
      rw [hk] at h
      exact List.mem_cons_of_mem _ (ih h)

theorem mem_put {record : PropertyMap α} {key : String} {x : α} {f : String × α}
    (h : f ∈ put record key x) : f ∈ record ∨ f = (key, x) := by
  unfold put at h
  split at h
  · exact .inl h
  · split at h
    · obtain ⟨g, hg, rfl⟩ := List.mem_map.mp h
      split
      · next hk =>
        right
        rw [beq_iff_eq.mp hk]
      · exact .inl hg
    · rcases List.mem_append.mp h with h | h
      · exact .inl h
      · exact .inr (List.mem_singleton.mp h)

theorem mem_remove {record : PropertyMap α} {key : String} {f : String × α}
    (h : f ∈ remove record key) : f ∈ record := List.mem_of_mem_filter h

section Keys

/-- Every property has one value. -/
def Keyed (record : PropertyMap α) : Prop := (record.map Prod.fst).Nodup

variable {record : PropertyMap α}

theorem Keyed.lookup_iff (h : Keyed record) {key : String} {x : α} :
    record.lookup key = some x ↔ (key, x) ∈ record := by
  refine ⟨mem_of_lookup, fun hmem => ?_⟩
  induction record with
  | nil => cases hmem
  | cons f record ih =>
    obtain ⟨k, y⟩ := f
    obtain ⟨hk, hrest⟩ := List.nodup_cons.mp h
    rcases List.mem_cons.mp hmem with heq | hmem'
    · cases heq
      exact List.lookup_cons_self
    · have hne : (key == k) = false := by
        rw [beq_eq_false_iff_ne]
        intro hkey
        subst hkey
        exact hk (List.mem_map.mpr ⟨_, hmem', rfl⟩)
      rw [List.lookup_cons, hne]
      exact ih hrest hmem'

theorem entries_perm (record : PropertyMap α) : (entries record).Perm record := by
  have hsplit := List.filter_append_perm (fun f : String × α => (arrayIndex? f.1).isSome) record
  have hrest : (record.filter fun f => !(arrayIndex? f.1).isSome) =
      record.filter fun f => (arrayIndex? f.1).isNone := by simp
  rw [hrest] at hsplit
  exact ((List.perm_insertionSort _ _).append_right _).trans hsplit

/-- The order of the entries depends on the keys alone. -/
theorem entries_mapWith {β : Type} (g : String × α → β) (record : PropertyMap α) :
    entries (record.map fun f => (f.1, g f)) = (entries record).map fun f => (f.1, g f) := by
  have hsort : ∀ l : List (String × α),
      (l.insertionSort fun a b => (arrayIndex? a.1).getD 0 ≤ (arrayIndex? b.1).getD 0).map
          (fun f => (f.1, g f)) =
        (l.map fun f => (f.1, g f)).insertionSort
          fun a b => (arrayIndex? a.1).getD 0 ≤ (arrayIndex? b.1).getD 0 := by
    intro l
    exact List.map_insertionSort _ _ _ _ fun _ _ _ _ => Iff.rfl
  unfold entries
  rw [List.map_append, List.filter_map, List.filter_map, hsort]
  rfl

theorem entries_map {β : Type} (g : α → β) (record : PropertyMap α) :
    entries (record.map fun f => (f.1, g f.2)) = (entries record).map fun f => (f.1, g f.2) :=
  entries_mapWith (fun f => g f.2) record

theorem Keyed.entries (h : Keyed record) : Keyed (entries record) :=
  ((entries_perm record).map _).nodup_iff.mpr h

/-- Reading the entries changes no value. -/
theorem Keyed.lookup_entries (h : Keyed record) (key : String) :
    (PropertyMap.entries record).lookup key = record.lookup key := by
  apply Option.ext
  intro x
  rw [h.lookup_iff, h.entries.lookup_iff, mem_entries]

/-- A written property reads back, and the others keep their values. -/
theorem lookup_put {key : String} (hkey : key ≠ "__proto__") (x : α) (other : String) :
    (put record key x).lookup other = if other = key then some x else record.lookup other := by
  rw [put, if_neg hkey]
  split
  · next hany =>
    obtain ⟨f, hf, hfk⟩ := List.any_eq_true.mp hany
    have hsome : (record.lookup key).isSome = true := by
      rw [List.lookup_isSome_iff]
      exact ⟨f, hf, beq_iff_eq.mpr (beq_iff_eq.mp hfk).symm⟩
    obtain ⟨y, hy⟩ := Option.isSome_iff_exists.mp hsome
    rw [Value.lookup_map_set, hy]
    rfl
  · next hnone =>
    rw [List.lookup_append]
    by_cases ho : other = key
    · subst ho
      have habsent : record.lookup other = none := by
        rw [List.lookup_eq_none_iff]
        intro f hf
        rw [bne_iff_ne]
        rintro rfl
        exact hnone (List.any_eq_true.mpr ⟨f, hf, by simp⟩)
      simp [habsent]
    · have hb : (other == key) = false := by simp [ho]
      simp [List.lookup_cons, hb, ho]

theorem lookup_remove (key other : String) :
    (remove record key).lookup other = if other = key then none else record.lookup other := by
  induction record with
  | nil => simp [remove]
  | cons f record ih =>
    obtain ⟨k, y⟩ := f
    unfold remove at ih ⊢
    by_cases hk : k = key
    · subst hk
      rw [List.filter_cons_of_neg (by simp), ih]
      by_cases ho : other = k
      · simp [ho]
      · have hb : (other == k) = false := by simp [ho]
        simp [ho, List.lookup_cons, hb]
    · rw [List.filter_cons_of_pos (by simp [hk]), List.lookup_cons, List.lookup_cons, ih]
      by_cases hok : other = k
      · simp [hok, hk]
      · have hb : (other == k) = false := by simp [hok]
        simp [hb]

theorem Keyed.put (h : Keyed record) (key : String) (x : α) : Keyed (put record key x) := by
  unfold PropertyMap.put
  split
  · exact h
  · split
    · have hkeys : (record.map fun f => if (f.1 == key) = true then (f.1, x) else f).map Prod.fst =
          record.map Prod.fst := by
        rw [List.map_map]
        apply List.map_congr_left
        intro f _
        simp only [Function.comp_apply]
        split <;> rfl
      rw [Keyed, hkeys]
      exact h
    · next hnone =>
      rw [Keyed, List.map_append, List.nodup_append]
      refine ⟨h, by simp, ?_⟩
      rintro a ha b hb rfl
      obtain ⟨f, hf, rfl⟩ := List.mem_map.mp ha
      have hkey : f.1 = key := by simpa using hb
      exact hnone (List.any_eq_true.mpr ⟨f, hf, by simp [hkey]⟩)

theorem Keyed.remove (h : Keyed record) (key : String) : Keyed (remove record key) :=
  h.sublist (List.filter_sublist.map _)

end Keys

end PropertyMap

/-- `Object.entries(v)` of an object or an array. -/
def Value.entries : Value → List (String × Value)
  | .obj fields => PropertyMap.entries fields
  | .arr xs => xs.zipIdx.map fun x => (toString x.2, x.1)
  | _ => []

end T560.Js
