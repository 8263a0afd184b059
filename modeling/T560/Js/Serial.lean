import T560.Js.Json
import T560.Js.PropertyMap

/-!
# Values through their JSON text

What `JSON.parse` reads back from `JSON.stringify`: a number that is not finite comes back as
null, and an object comes back with its properties in the order of its entries. A value of
finite numbers and ordered properties comes back as it was.
-/

namespace T560.Js

namespace Value

mutual
/-- No object has two properties of one name. -/
def isKeyed : Value → Bool
  | .null | .bool _ | .num _ | .str _ => true
  | .arr xs => areKeyed xs
  | .obj fields => areKeyedFields fields && decide (fields.map Prod.fst).Nodup

def areKeyed : List Value → Bool
  | [] => true
  | x :: xs => isKeyed x && areKeyed xs

def areKeyedFields : List (String × Value) → Bool
  | [] => true
  | (_, x) :: rest => isKeyed x && areKeyedFields rest
end

mutual
/-- `JSON.parse(JSON.stringify(v))`. -/
def serialized : Value → Value
  | .null => .null
  | .bool b => .bool b
  | .num (.fin q) => .num (.fin q)
  | .num _ => .null
  | .str s => .str s
  | .arr xs => .arr (serializedList xs)
  | .obj fields => .obj (PropertyMap.entries (serializedFields fields))

def serializedList : List Value → List Value
  | [] => []
  | x :: xs => serialized x :: serializedList xs

def serializedFields : List (String × Value) → List (String × Value)
  | [] => []
  | (key, x) :: rest => (key, serialized x) :: serializedFields rest
end

mutual
/-- A value a JSON text denotes, with its properties in the engine's order. -/
def isJson : Value → Bool
  | .null | .bool _ | .str _ | .num (.fin _) => true
  | .num _ => false
  | .arr xs => areJson xs
  | .obj fields =>
    areJsonFields fields && decide (fields.map Prod.fst).Nodup &&
      decide (PropertyMap.entries fields = fields)

def areJson : List Value → Bool
  | [] => true
  | x :: xs => isJson x && areJson xs

def areJsonFields : List (String × Value) → Bool
  | [] => true
  | (_, x) :: rest => isJson x && areJsonFields rest
end

theorem serializedList_eq_map (xs : List Value) : serializedList xs = xs.map serialized := by
  induction xs with
  | nil => rfl
  | cons x xs ih => simp [serializedList, ih]

theorem serializedFields_eq_map (fields : List (String × Value)) :
    serializedFields fields = fields.map fun f => (f.1, serialized f.2) := by
  induction fields with
  | nil => rfl
  | cons f fields ih => simp [serializedFields, ih]

theorem areKeyedFields_iff {fields : List (String × Value)} :
    areKeyedFields fields = true ↔ ∀ f ∈ fields, isKeyed f.2 = true := by
  induction fields with
  | nil => simp [areKeyedFields]
  | cons f fields ih => simp [areKeyedFields, ih]

theorem areJson_iff {xs : List Value} : areJson xs = true ↔ ∀ x ∈ xs, isJson x = true := by
  induction xs with
  | nil => simp [areJson]
  | cons x xs ih => simp [areJson, ih]

theorem areJsonFields_iff {fields : List (String × Value)} :
    areJsonFields fields = true ↔ ∀ f ∈ fields, isJson f.2 = true := by
  induction fields with
  | nil => simp [areJsonFields]
  | cons f fields ih => simp [areJsonFields, ih]

theorem isJson_obj_iff {fields : List (String × Value)} :
    isJson (.obj fields) = true ↔ (∀ f ∈ fields, isJson f.2 = true) ∧
      (fields.map Prod.fst).Nodup ∧ PropertyMap.entries fields = fields := by
  simp only [isJson, Bool.and_eq_true, areJsonFields_iff, decide_eq_true_eq, and_assoc]

mutual
theorem isKeyed_of_isJson : ∀ v : Value, isJson v = true → isKeyed v = true
  | .null, _ | .bool _, _ | .num _, _ | .str _, _ => by simp [isKeyed]
  | .arr xs, h => by
    rw [isJson] at h
    rw [isKeyed]
    exact areKeyed_of_areJson xs h
  | .obj fields, h => by
    simp only [isJson, Bool.and_eq_true] at h
    rw [isKeyed, areKeyedFields_of_areJsonFields fields h.1.1, h.1.2]
    rfl

theorem areKeyed_of_areJson : ∀ xs : List Value, areJson xs = true → areKeyed xs = true
  | [], _ => by simp [areKeyed]
  | x :: xs, h => by
    simp only [areJson, Bool.and_eq_true] at h
    rw [areKeyed, isKeyed_of_isJson x h.1, areKeyed_of_areJson xs h.2]
    rfl

theorem areKeyedFields_of_areJsonFields :
    ∀ fields : List (String × Value), areJsonFields fields = true → areKeyedFields fields = true
  | [], _ => by simp [areKeyedFields]
  | (_, x) :: rest, h => by
    simp only [areJsonFields, Bool.and_eq_true] at h
    rw [areKeyedFields, isKeyed_of_isJson x h.1, areKeyedFields_of_areJsonFields rest h.2]
    rfl
end

mutual
theorem serialized_of_isJson : ∀ v : Value, isJson v = true → serialized v = v
  | .null, _ | .bool _, _ | .num (.fin _), _ | .str _, _ => by simp [serialized]
  | .num .posInf, h | .num .negInf, h | .num .nan, h => by simp [isJson] at h
  | .arr xs, h => by
    rw [isJson] at h
    rw [serialized, serializedList_of_areJson xs h]
  | .obj fields, h => by
    simp only [isJson, Bool.and_eq_true, decide_eq_true_eq] at h
    rw [serialized, serializedFields_of_areJsonFields fields h.1.1, h.2]

theorem serializedList_of_areJson : ∀ xs : List Value, areJson xs = true → serializedList xs = xs
  | [], _ => rfl
  | x :: xs, h => by
    simp only [areJson, Bool.and_eq_true] at h
    rw [serializedList, serialized_of_isJson x h.1, serializedList_of_areJson xs h.2]

theorem serializedFields_of_areJsonFields : ∀ fields : List (String × Value),
    areJsonFields fields = true → serializedFields fields = fields
  | [], _ => rfl
  | (key, x) :: rest, h => by
    simp only [areJsonFields, Bool.and_eq_true] at h
    rw [serializedFields, serialized_of_isJson x h.1, serializedFields_of_areJsonFields rest h.2]
end

end Value

/-- A parser that reads back every value an engine can write. -/
def RoundTrips (parse : String → Option Value) (stringify : Value → String) : Prop :=
  ∀ v : Value, v.isKeyed = true → parse (stringify v) = some v.serialized

theorem RoundTrips.parse_json {parse : String → Option Value} {stringify : Value → String}
    (h : RoundTrips parse stringify) {v : Value} (hv : v.isJson = true) :
    parse (stringify v) = some v := by
  rw [h v (Value.isKeyed_of_isJson v hv), Value.serialized_of_isJson v hv]

section Consistent

theorem arrayIndex?_of_plainKey {key : String} (h : isPlainKey key = true) :
    arrayIndex? key = none := by
  unfold arrayIndex?
  apply if_neg
  rintro ⟨hne, hdigits, -⟩
  cases hk : key.toList with
  | nil => exact hne hk
  | cons c rest =>
    rw [hk] at hdigits
    have hc := (List.all_eq_true.mp hdigits) c (by simp)
    simp only [isPlainKey, hk, List.head?_cons, Option.all_some, Bool.not_eq_true'] at h
    rw [isDigit, h] at hc
    cases hc

theorem entries_of_plainKeys {fields : List (String × Value)}
    (h : ∀ f ∈ fields, isPlainKey f.1 = true) : PropertyMap.entries fields = fields := by
  have hnone : ∀ f ∈ fields, arrayIndex? f.1 = none := fun f hf => arrayIndex?_of_plainKey (h f hf)
  rw [PropertyMap.entries, List.filter_eq_nil_iff.mpr, List.filter_eq_self.mpr]
  · rfl
  · intro f hf
    rw [hnone f hf]
    rfl
  · intro f hf
    rw [hnone f hf]
    simp

namespace Value

mutual
theorem isJson_of_isPlain : ∀ v : Value, isPlain v = true → isJson v = true
  | .null, _ | .bool _, _ | .num (.fin _), _ | .str _, _ => by simp [isJson]
  | .num .posInf, h | .num .negInf, h | .num .nan, h => by simp [isPlain] at h
  | .arr xs, h => by
    rw [isPlain] at h
    rw [isJson]
    exact areJson_of_arePlain xs h
  | .obj fields, h => by
    simp only [isPlain, Bool.and_eq_true, decide_eq_true_eq] at h
    obtain ⟨hjson, hkeys⟩ := areJsonFields_of_arePlainFields fields h.1
    rw [isJson_obj_iff]
    exact ⟨areJsonFields_iff.mp hjson, h.2, entries_of_plainKeys hkeys⟩

theorem areJson_of_arePlain : ∀ xs : List Value, arePlain xs = true → areJson xs = true
  | [], _ => by simp [areJson]
  | x :: xs, h => by
    simp only [arePlain, Bool.and_eq_true] at h
    rw [areJson, isJson_of_isPlain x h.1, areJson_of_arePlain xs h.2]
    rfl

theorem areJsonFields_of_arePlainFields :
    ∀ fields : List (String × Value), arePlainFields fields = true →
      areJsonFields fields = true ∧ ∀ f ∈ fields, isPlainKey f.1 = true
  | [], _ => by simp [areJsonFields]
  | (key, x) :: rest, h => by
    simp only [arePlainFields, Bool.and_eq_true] at h
    obtain ⟨hrest, hkeys⟩ := areJsonFields_of_arePlainFields rest h.2
    refine ⟨?_, ?_⟩
    · rw [areJsonFields, isJson_of_isPlain x h.1.2, hrest]
      rfl
    · intro f hf
      rcases List.mem_cons.mp hf with rfl | hf
      · exact h.1.1
      · exact hkeys f hf
end

end Value

/-- The law is consistent: the value a text stands for can be read off it. -/
theorem exists_roundTrips : ∃ parse stringify, RoundTrips parse stringify := by
  classical
  refine ⟨fun s => if h : ∃ v : Value, codeText v = s then some h.choose else none,
    fun v => codeText v.serialized, ?_⟩
  intro v _
  have h : ∃ w : Value, codeText w = codeText v.serialized := ⟨_, rfl⟩
  dsimp only
  rw [dif_pos h, codeText_injective h.choose_spec]

end Consistent

end T560.Js
