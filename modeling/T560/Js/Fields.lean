import T560.Js.Serial

/-!
# Objects from fields

Object literals whose fields may be undefined, and objects that hold the entries of a record,
with what is left of them in their JSON text.
-/

namespace T560.Js

namespace PropertyMap

variable {α : Type}

theorem entries_of_sorted {indices others : PropertyMap α}
    (hindices : ∀ f ∈ indices, (arrayIndex? f.1).isSome = true)
    (hsorted : indices.Pairwise fun a b => (arrayIndex? a.1).getD 0 ≤ (arrayIndex? b.1).getD 0)
    (hothers : ∀ f ∈ others, (arrayIndex? f.1).isNone = true) :
    entries (indices ++ others) = indices ++ others := by
  have hfirst : (indices ++ others).filter (fun f => (arrayIndex? f.1).isSome) = indices := by
    have hnone : others.filter (fun f => (arrayIndex? f.1).isSome) = [] :=
      List.filter_eq_nil_iff.mpr fun f hf => by simpa using hothers f hf
    rw [List.filter_append, List.filter_eq_self.mpr hindices, hnone, List.append_nil]
  have hlast : (indices ++ others).filter (fun f => (arrayIndex? f.1).isNone) = others := by
    have hnone : indices.filter (fun f => (arrayIndex? f.1).isNone) = [] :=
      List.filter_eq_nil_iff.mpr fun f hf => by
        simpa using Option.isSome_iff_ne_none.mp (hindices f hf)
    rw [List.filter_append, List.filter_eq_self.mpr hothers, hnone, List.nil_append]
  rw [entries, hfirst, hlast, hsorted.insertionSort_eq]

/-- The entries of an object are in the engine's order. -/
theorem entries_entries (record : PropertyMap α) : entries (entries record) = entries record := by
  apply entries_of_sorted
  · intro f hf
    rw [List.mem_insertionSort, List.mem_filter] at hf
    exact hf.2
  · exact List.pairwise_insertionSort _ _
  · intro f hf
    exact (List.mem_filter.mp hf).2

end PropertyMap

namespace Value

/-- An object literal; a property whose value is undefined reads like an absent one. -/
def ofFields (fields : List (String × Option Value)) : Value :=
  .obj (fields.filterMap fun f => f.2.map fun v => (f.1, v))

/-- The object that holds the entries of a record. -/
def ofRecord {α : Type} (g : α → Value) (record : PropertyMap α) : Value :=
  .obj (record.map fun f => (f.1, g f.2))

def ofTexts (texts : List String) : Value := .arr (texts.map .str)

@[simp]
theorem isObject_ofFields (fields : List (String × Option Value)) :
    (ofFields fields).isObject = true := rfl

@[simp]
theorem isObject_ofRecord {α : Type} (g : α → Value) (record : PropertyMap α) :
    (ofRecord g record).isObject = true := rfl

@[simp]
theorem get?_ofFields_nil (key : String) : (ofFields []).get? key = none := rfl

@[simp]
theorem get?_ofFields_cons (key other : String) (v : Option Value)
    (fields : List (String × Option Value)) :
    (ofFields ((key, v) :: fields)).get? other =
      if other = key then v.or ((ofFields fields).get? other) else (ofFields fields).get? other := by
  cases v with
  | none =>
    simp only [Option.none_or, ite_self]
    rfl
  | some x =>
    simp only [Option.some_or]
    exact lookup_cons_if key other x _

theorem serialized_ofFields {fields : List (String × Option Value)}
    (h : ∀ f ∈ fields, isPlainKey f.1 = true) :
    (ofFields fields).serialized = ofFields (fields.map fun f => (f.1, f.2.map serialized)) := by
  rw [ofFields, serialized, serializedFields_eq_map, entries_of_plainKeys, ofFields,
    List.map_filterMap, List.filterMap_map]
  · congr 2
    funext f
    rcases f with ⟨key, _ | v⟩ <;> rfl
  · intro f hf
    obtain ⟨g, hg, rfl⟩ := List.mem_map.mp hf
    obtain ⟨e, he, hev⟩ := List.mem_filterMap.mp hg
    rcases e with ⟨key, _ | v⟩
    · cases hev
    · cases hev
      exact h _ he

theorem serialized_ofRecord {α : Type} (g : α → Value) (record : PropertyMap α) :
    (ofRecord g record).serialized =
      ofRecord (fun x => (g x).serialized) (PropertyMap.entries record) := by
  rw [ofRecord, serialized, serializedFields_eq_map, List.map_map, ofRecord]
  exact congrArg obj (PropertyMap.entries_map (fun x => (g x).serialized) record)

@[simp]
theorem serialized_ofTexts (texts : List String) : (ofTexts texts).serialized = ofTexts texts := by
  rw [ofTexts, serialized, serializedList_eq_map, List.map_map]
  rfl

theorem entries_ofRecord {α : Type} (g : α → Value) (record : PropertyMap α) :
    (ofRecord g record).entries = (PropertyMap.entries record).map fun f => (f.1, g f.2) :=
  PropertyMap.entries_map g record

end Value

end T560.Js
