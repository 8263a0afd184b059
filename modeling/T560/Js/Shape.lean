import T560.Js.Fields

/-!
# Records by a table of fields

A table says for each of its fields what becomes of the value that an object has there. An object
literal is built from the fields of a table; a spread keeps the other fields of the object. When every
field of a second table leaves what the first one gives, the second table changes nothing.
-/

namespace T560.Js.Shape

/-- What becomes of the value of a field: another value, or none. -/
abbrev Conversion := Option Value → Except JsError (Option Value)

abbrev Table := List (String × Conversion)

def convert (table : Table) (row : Value) : Except JsError (List (String × Option Value)) :=
  table.mapM fun field => do
    let converted ← field.2 (row.get? field.1)
    return (field.1, converted)

/-- `{ key: convert(row.key), … }` -/
def build (table : Table) (row : Value) : Except JsError Value := do
  let fields ← convert table row
  return .ofFields fields

def write (out : Value) (field : String × Option Value) : Value :=
  match field.2 with
  | some x => out.set field.1 x
  | none => out

/-- `{ ...row, key: convert(row.key), … }`; a field without a value stays as it is. -/
def overwrite (table : Table) (row : Value) : Except JsError Value := do
  let fields ← convert table row
  return fields.foldl write row

/-- `array.map(entry).filter(Boolean)` -/
def collect (entry : Value → Except JsError (Option Value)) (xs : List Value) : Except JsError (List Value) := do
  let entries ← xs.mapM entry
  return entries.filterMap id

/-- The second conversion leaves what the first one gives, and gives nothing where it gave nothing. -/
structure Keeps (first second : Conversion) : Prop where
  given : ∀ {v x}, first v = .ok (some x) → second (some x) = .ok (some x)
  absent : ∀ {v}, first v = .ok none → second none = .ok none ∧ second v = .ok none

/-- Two tables of the same fields, each of which the second one keeps. -/
def KeepsTable (first second : Table) : Prop :=
  List.Forall₂ (fun f g => f.1 = g.1 ∧ Keeps f.2 g.2) first second

section Holds
variable {v : Value} {key other : String} {x y : Value}

/-- Every property of the name has the value, and there is one. -/
def Holds (v : Value) (key : String) (x : Value) : Prop :=
  ∃ fields, v = .obj fields ∧ (fields.lookup key).isSome ∧ ∀ f ∈ fields, f.1 = key → f.2 = x

theorem set_of_holds (h : Holds v key x) : v.set key x = v := by
  obtain ⟨fields, rfl, hsome, hall⟩ := h
  rw [Value.set, if_pos hsome]
  congr 1
  refine (List.map_congr_left fun f hf => ?_).trans (List.map_id _)
  by_cases hkey : f.1 = key
  · rw [if_pos (beq_iff_eq.mpr hkey), ← hall f hf hkey]
    rfl
  · rw [if_neg (by simpa using hkey)]
    rfl

theorem holds_set (h : v.isRecord = true) (key : String) (x : Value) : Holds (v.set key x) key x := by
  have hget : (v.set key x).get? key = some x := by rw [Value.get?_set h, if_pos rfl]
  cases v with
  | obj fields =>
    rw [Value.set] at hget ⊢
    split at hget
    · rename_i hsome
      rw [if_pos hsome]
      refine ⟨_, rfl, by rw [Value.get?] at hget; rw [hget]; rfl, ?_⟩
      intro f hf hkey
      obtain ⟨g, -, rfl⟩ := List.mem_map.mp hf
      split at hkey
      · rename_i heq
        rw [if_pos heq]
      · rename_i hne
        exact absurd (beq_iff_eq.mpr hkey) hne
    · rename_i hnone
      rw [if_neg hnone]
      refine ⟨_, rfl, by rw [Value.get?] at hget; rw [hget]; rfl, ?_⟩
      intro f hf hkey
      rcases List.mem_append.mp hf with hold | hnew
      · refine absurd ?_ hnone
        rw [List.lookup_isSome_iff]
        exact ⟨f, hold, by simp [hkey]⟩
      · rw [List.mem_singleton.mp hnew]
  | _ => cases h

theorem Holds.set (h : Holds v key x) (hne : other ≠ key) (y : Value) : Holds (v.set other y) key x := by
  obtain ⟨fields, rfl, hsome, hall⟩ := h
  have hget : ((Value.obj fields).set other y).get? key = (Value.obj fields).get? key := by
    rw [Value.get?_set rfl, if_neg (Ne.symm hne)]
  rw [Value.set] at hget ⊢
  split at hget
  · rename_i hother
    rw [if_pos hother]
    refine ⟨_, rfl, by rw [Value.get?, Value.get?] at hget; rwa [hget], ?_⟩
    intro f hf hkey
    obtain ⟨g, hg, rfl⟩ := List.mem_map.mp hf
    split at hkey
    · rename_i heq
      exact absurd ((beq_iff_eq.mp heq).symm.trans hkey) hne
    · rename_i hne'
      rw [if_neg hne']
      exact hall g hg hkey
  · rename_i hother
    rw [if_neg hother]
    refine ⟨_, rfl, by rw [Value.get?, Value.get?] at hget; rwa [hget], ?_⟩
    intro f hf hkey
    rcases List.mem_append.mp hf with hold | hnew
    · exact hall f hold hkey
    · rw [List.mem_singleton.mp hnew] at hkey
      exact absurd hkey hne

end Holds

section Again
variable {table later : Table} {row : Value} {fields : List (String × Option Value)}

theorem convert_iff : convert table row = .ok fields ↔
    List.Forall₂ (fun t f => t.1 = f.1 ∧ t.2 (row.get? t.1) = .ok f.2) table fields := by
  rw [convert, mapM_ok_iff]
  constructor
  · refine List.Forall₂.imp fun t f h => ?_
    obtain ⟨x, hx, h⟩ := exists_of_bind_ok h
    cases h
    exact ⟨rfl, hx⟩
  · refine List.Forall₂.imp fun t f h => ?_
    rw [h.2, ok_bind, h.1]
    rfl

theorem keys_of_convert (h : convert table row = .ok fields) : fields.map Prod.fst = table.map Prod.fst := by
  have hall := convert_iff.mp h
  clear h
  induction hall with
  | nil => rfl
  | cons hhead _ ih => rw [List.map_cons, List.map_cons, ih, hhead.1]

/-- A second table reads the same fields off an object that has those that the first one gave, and
what it had before where the first one gave none. -/
theorem convert_again (hkeeps : KeepsTable table later) (h : convert table row = .ok fields) {out : Value}
    (hout : ∀ f ∈ fields, out.get? f.1 = f.2 ∨ f.2 = none ∧ out.get? f.1 = row.get? f.1) :
    convert later out = .ok fields := by
  rw [convert_iff] at h ⊢
  induction hkeeps generalizing fields with
  | nil =>
    cases h
    exact .nil
  | @cons t u table later hhead _ ih =>
    cases h with
    | @cons _ f _ fields hfield hrest =>
      obtain ⟨hfirst, hothers⟩ := List.forall_mem_cons.mp hout
      refine .cons ⟨hhead.1.symm.trans hfield.1, ?_⟩ (ih hrest hothers)
      have hconverts := hfield.2
      rw [hfield.1] at hconverts
      rw [← hhead.1, hfield.1]
      rcases hfirst with hget | ⟨hnone, hget⟩
      · rw [hget]
        cases hvalue : f.2 with
        | some x =>
          rw [hvalue] at hconverts
          exact hhead.2.given hconverts
        | none =>
          rw [hvalue] at hconverts
          exact (hhead.2.absent hconverts).1
      · rw [hnone] at hconverts
        rw [hget, hnone]
        exact (hhead.2.absent hconverts).2

theorem get?_ofFields_of_not_mem {key : String} (hkey : key ∉ fields.map Prod.fst) :
    (Value.ofFields fields).get? key = none := by
  rw [Value.ofFields, Value.get?, List.lookup_eq_none_iff]
  rintro e he
  obtain ⟨g, hg, hge⟩ := List.mem_filterMap.mp he
  obtain ⟨x, -, rfl⟩ := Option.map_eq_some_iff.mp hge
  have hne : key ≠ g.1 := fun heq => hkey (heq ▸ List.mem_map_of_mem hg)
  simpa using hne

theorem get?_ofFields_of_nodup (hkeys : (fields.map Prod.fst).Nodup) {f : String × Option Value}
    (hf : f ∈ fields) : (Value.ofFields fields).get? f.1 = f.2 := by
  induction fields with
  | nil => exact absurd hf List.not_mem_nil
  | cons g fields ih =>
    obtain ⟨hnew, hrest⟩ := List.nodup_cons.mp hkeys
    have hsplit := Value.get?_ofFields_cons g.1 f.1 g.2 fields
    rw [Prod.mk.eta] at hsplit
    rw [hsplit]
    rcases List.mem_cons.mp hf with rfl | hmem
    · rw [if_pos rfl, get?_ofFields_of_not_mem hnew, Option.or_none]
    · have hne : f.1 ≠ g.1 := fun heq => hnew (heq ▸ List.mem_map_of_mem hmem)
      rw [if_neg hne]
      exact ih hrest hmem

theorem exists_field (h : List.Forall₂ (fun t f => t.1 = f.1 ∧ t.2 (row.get? t.1) = .ok f.2) table fields)
    {t : String × Conversion} (ht : t ∈ table) :
    ∃ f ∈ fields, t.1 = f.1 ∧ t.2 (row.get? t.1) = .ok f.2 := by
  induction h with
  | nil => exact absurd ht List.not_mem_nil
  | @cons u f table fields hhead _ ih =>
    rcases List.mem_cons.mp ht with rfl | hmem
    · exact ⟨f, List.mem_cons_self, hhead⟩
    · obtain ⟨g, hg, hfield⟩ := ih hmem
      exact ⟨g, List.mem_cons_of_mem _ hg, hfield⟩

theorem isObject_build {out : Value} (h : build table row = .ok out) : out.isObject = true := by
  obtain ⟨fields, -, h⟩ := exists_of_bind_ok h
  cases h
  exact Value.isObject_ofFields fields

/-- A field of what was built is the converted one. -/
theorem get?_build (hkeys : (table.map Prod.fst).Nodup) {out : Value} (h : build table row = .ok out)
    {t : String × Conversion} (ht : t ∈ table) : t.2 (row.get? t.1) = .ok (out.get? t.1) := by
  obtain ⟨fields, hfields, h⟩ := exists_of_bind_ok h
  cases h
  have hnodup : (fields.map Prod.fst).Nodup := by rwa [keys_of_convert hfields]
  obtain ⟨f, hf, hkey, hconverts⟩ := exists_field (convert_iff.mp hfields) ht
  rw [hconverts, hkey, get?_ofFields_of_nodup hnodup hf]

theorem get?_build_of_not_mem {out : Value} (h : build table row = .ok out) {key : String}
    (hkey : key ∉ table.map Prod.fst) : out.get? key = none := by
  obtain ⟨fields, hfields, h⟩ := exists_of_bind_ok h
  cases h
  exact get?_ofFields_of_not_mem (by rwa [keys_of_convert hfields])

/-- What a table has built, a table that keeps its fields builds again. -/
theorem build_again (hkeeps : KeepsTable table later) (hkeys : (table.map Prod.fst).Nodup) {out : Value}
    (h : build table row = .ok out) : build later out = .ok out := by
  obtain ⟨fields, hfields, h⟩ := exists_of_bind_ok h
  cases h
  have hnodup : (fields.map Prod.fst).Nodup := by rwa [keys_of_convert hfields]
  have hagain : convert later (.ofFields fields) = .ok fields :=
    convert_again hkeeps hfields fun f hf => Or.inl (get?_ofFields_of_nodup hnodup hf)
  rw [build, hagain]
  rfl

theorem isRecord_write {v : Value} (h : v.isRecord = true) (f : String × Option Value) :
    (write v f).isRecord = true := by
  unfold write
  split
  · exact Value.isRecord_set h _ _
  · exact h

theorem get?_write_ne {v : Value} (h : v.isRecord = true) {f : String × Option Value} {key : String}
    (hne : key ≠ f.1) : (write v f).get? key = v.get? key := by
  unfold write
  split
  · rw [Value.get?_set h, if_neg hne]
  · rfl

theorem get?_writes_of_not_mem {v : Value} (h : v.isRecord = true) {key : String}
    (hkey : key ∉ fields.map Prod.fst) : (fields.foldl write v).get? key = v.get? key := by
  induction fields generalizing v with
  | nil => rfl
  | cons f fields ih =>
    rw [List.map_cons, List.mem_cons, not_or] at hkey
    rw [List.foldl_cons, ih (isRecord_write h f) hkey.2, get?_write_ne h hkey.1]

theorem holds_writes {v : Value} {key : String} {x : Value} (hv : Holds v key x)
    (hkey : key ∉ fields.map Prod.fst) : Holds (fields.foldl write v) key x := by
  induction fields generalizing v with
  | nil => exact hv
  | cons f fields ih =>
    rw [List.map_cons, List.mem_cons, not_or] at hkey
    refine ih ?_ hkey.2
    unfold write
    split
    · exact hv.set (Ne.symm hkey.1) _
    · exact hv

/-- Every field that was written holds its value, and the others are as they were. -/
theorem writes_spec {v : Value} (h : v.isRecord = true) (hkeys : (fields.map Prod.fst).Nodup) :
    ∀ f ∈ fields, (∀ x, f.2 = some x → Holds (fields.foldl write v) f.1 x) ∧
      (f.2 = none → (fields.foldl write v).get? f.1 = v.get? f.1) := by
  induction fields generalizing v with
  | nil => exact fun f hf => absurd hf List.not_mem_nil
  | cons g fields ih =>
    obtain ⟨hnew, hrest⟩ := List.nodup_cons.mp hkeys
    intro f hf
    rw [List.foldl_cons]
    rcases List.mem_cons.mp hf with rfl | hmem
    · refine ⟨?_, ?_⟩
      · intro x hx
        refine holds_writes ?_ hnew
        rw [write, hx]
        exact holds_set h f.1 x
      · intro hnone
        rw [get?_writes_of_not_mem (isRecord_write h f) hnew, write, hnone]
    · obtain ⟨hsome, hnone⟩ := ih (isRecord_write h g) hrest f hmem
      refine ⟨hsome, fun hf' => (hnone hf').trans ?_⟩
      exact get?_write_ne h fun heq => hnew (heq ▸ List.mem_map_of_mem hmem)

theorem get?_of_holds {v : Value} {key : String} {x : Value} (h : Holds v key x) : v.get? key = some x := by
  obtain ⟨fields, rfl, hsome, hall⟩ := h
  obtain ⟨y, hy⟩ := Option.isSome_iff_exists.mp hsome
  obtain rfl : y = x := hall _ (PropertyMap.mem_of_lookup hy) rfl
  exact hy

theorem writes_of_holds {v : Value} (h : ∀ f ∈ fields, ∀ x, f.2 = some x → Holds v f.1 x) :
    fields.foldl write v = v := by
  induction fields with
  | nil => rfl
  | cons f fields ih =>
    obtain ⟨hfirst, hrest⟩ := List.forall_mem_cons.mp h
    have hwrite : write v f = v := by
      unfold write
      split
      · rename_i x hx
        exact set_of_holds (hfirst x hx)
      · rfl
    rw [List.foldl_cons, hwrite, ih hrest]

/-- A field of an overwritten object is the converted one, or the old one when there is none. -/
theorem get?_overwrite (hkeys : (table.map Prod.fst).Nodup) (hrow : row.isRecord = true) {out : Value}
    (h : overwrite table row = .ok out) {t : String × Conversion} (ht : t ∈ table) :
    ∃ w, t.2 (row.get? t.1) = .ok w ∧ out.get? t.1 = w.or (row.get? t.1) := by
  obtain ⟨fields, hfields, h⟩ := exists_of_bind_ok h
  cases h
  have hnodup : (fields.map Prod.fst).Nodup := by rwa [keys_of_convert hfields]
  obtain ⟨f, hf, hkey, hconverts⟩ := exists_field (convert_iff.mp hfields) ht
  refine ⟨f.2, hconverts, ?_⟩
  obtain ⟨hsome, hnone⟩ := writes_spec hrow hnodup f hf
  rw [hkey]
  cases hvalue : f.2 with
  | some x => exact get?_of_holds (hsome x hvalue)
  | none => exact hnone hvalue

theorem get?_overwrite_of_not_mem (hrow : row.isRecord = true) {out : Value} (h : overwrite table row = .ok out)
    {key : String} (hkey : key ∉ table.map Prod.fst) : out.get? key = row.get? key := by
  obtain ⟨fields, hfields, h⟩ := exists_of_bind_ok h
  cases h
  exact get?_writes_of_not_mem hrow (by rwa [keys_of_convert hfields])

/-- The conversion throws on no value. -/
def Total (conversion : Conversion) : Prop := ∀ value, ∃ w, conversion value = .ok w

theorem convert_total (h : ∀ t ∈ table, Total t.2) (row : Value) : ∃ fields, convert table row = .ok fields := by
  rw [convert, exists_mapM_ok_iff]
  intro t ht
  obtain ⟨w, hw⟩ := h t ht (row.get? t.1)
  exact ⟨(t.1, w), by rw [hw]; rfl⟩

theorem build_total (h : ∀ t ∈ table, Total t.2) (row : Value) : ∃ out, build table row = .ok out := by
  obtain ⟨fields, hfields⟩ := convert_total h row
  exact ⟨_, by rw [build, hfields]; rfl⟩

theorem overwrite_total (h : ∀ t ∈ table, Total t.2) (row : Value) : ∃ out, overwrite table row = .ok out := by
  obtain ⟨fields, hfields⟩ := convert_total h row
  exact ⟨_, by rw [overwrite, hfields]; rfl⟩

/-- A table that keeps what another one has overwritten changes nothing. -/
theorem overwrite_again (hkeeps : KeepsTable table later) (hkeys : (table.map Prod.fst).Nodup)
    (hrow : row.isRecord = true) {out : Value} (h : overwrite table row = .ok out) :
    overwrite later out = .ok out := by
  obtain ⟨fields, hfields, h⟩ := exists_of_bind_ok h
  cases h
  have hnodup : (fields.map Prod.fst).Nodup := by rwa [keys_of_convert hfields]
  have hspec := writes_spec hrow hnodup
  have hagain : convert later (fields.foldl write row) = .ok fields := by
    refine convert_again hkeeps hfields fun f hf => ?_
    cases hvalue : f.2 with
    | some x => exact Or.inl (get?_of_holds ((hspec f hf).1 x hvalue))
    | none => exact Or.inr ⟨rfl, (hspec f hf).2 hvalue⟩
  rw [overwrite, hagain, ok_bind, writes_of_holds fun f hf x hx => (hspec f hf).1 x hx]
  rfl

/-- Entries that stay as they are, are all collected. -/
theorem collect_again {entry later : Value → Except JsError (Option Value)}
    (hkeeps : ∀ x y, entry x = .ok (some y) → later y = .ok (some y)) {xs ys : List Value}
    (h : collect entry xs = .ok ys) : collect later ys = .ok ys := by
  obtain ⟨entries, hentries, h⟩ := exists_of_bind_ok h
  cases h
  have hall : (entries.filterMap id).mapM later = .ok ((entries.filterMap id).map some) := by
    rw [mapM_ok_iff, List.forall₂_map_right_iff, List.forall₂_same]
    intro y hy
    obtain ⟨e, he, rfl⟩ := List.mem_filterMap.mp hy
    obtain ⟨x, -, hx⟩ := exists_of_mem_mapM hentries he
    exact hkeeps x y hx
  rw [collect, hall, ok_bind, List.filterMap_map, Function.id_comp, List.filterMap_some]
  rfl

end Again

end T560.Js.Shape
