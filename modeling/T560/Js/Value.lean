import Mathlib.Data.Rat.Floor
import T560.Js.Text

/-!
# Dynamic values of the ECMAScript runtime

The values `JSON.parse` can return, with the conversions `String(x)` and `Number(x)`.
A property that is absent reads as `none`; the operations below treat it as
`undefined`.
-/

namespace T560.Js

/-- A finite double as the rational it denotes, or one of the three other values. -/
inductive Num where
  | fin (q : ℚ)
  | posInf
  | negInf
  | nan
  deriving DecidableEq, Repr

inductive Value where
  | null
  | bool (b : Bool)
  | num (n : Num)
  | str (s : String)
  | arr (xs : List Value)
  | obj (fields : List (String × Value))
  deriving Repr

/-- The exceptions the modelled conversions can raise. -/
inductive JsError where
  | typeError
  deriving DecidableEq, Repr

/-- A computation that succeeds ran its first part to a value. -/
theorem exists_of_bind_ok {ε α β : Type} {first : Except ε α} {next : α → Except ε β}
    {r : β} (h : first >>= next = .ok r) : ∃ x, first = .ok x ∧ next x = .ok r :=
  match first, h with
  | .ok x, h => ⟨x, rfl, h⟩

theorem ok_bind {α β : Type} (x : α) (next : α → Except JsError β) :
    (Except.ok x >>= next) = next x := rfl

/-- A traversal succeeds when every element does, and gives the results in order. -/
theorem mapM_ok_iff {α β : Type} {f : α → Except JsError β} {xs : List α} {ys : List β} :
    xs.mapM f = .ok ys ↔ List.Forall₂ (fun x y => f x = .ok y) xs ys := by
  induction xs generalizing ys with
  | nil =>
    rw [List.mapM_nil, List.forall₂_nil_left_iff]
    constructor
    · intro h
      cases h
      rfl
    · rintro rfl
      rfl
  | cons x xs ih =>
    rw [List.mapM_cons]
    constructor
    · intro h
      obtain ⟨y, hy, h⟩ := exists_of_bind_ok h
      obtain ⟨ys', hys, h⟩ := exists_of_bind_ok h
      cases h
      exact .cons hy (ih.mp hys)
    · intro h
      cases h with
      | cons hy hys => rw [hy, ok_bind, ih.mpr hys, ok_bind]; rfl

theorem exists_of_mem_mapM {α β : Type} {f : α → Except JsError β} {xs : List α} {ys : List β}
    (h : xs.mapM f = .ok ys) {y : β} (hy : y ∈ ys) : ∃ x ∈ xs, f x = .ok y := by
  have hall := mapM_ok_iff.mp h
  clear h
  induction hall with
  | nil => cases hy
  | @cons x z xs ys hx _ ih =>
    rcases List.mem_cons.mp hy with rfl | hy
    · exact ⟨x, by simp, hx⟩
    · obtain ⟨x', hx', hfx⟩ := ih hy
      exact ⟨x', by simp [hx'], hfx⟩

theorem exists_mapM_ok_iff {α β : Type} {f : α → Except JsError β} {xs : List α} :
    (∃ ys, xs.mapM f = .ok ys) ↔ ∀ x ∈ xs, ∃ y, f x = .ok y := by
  simp only [mapM_ok_iff]
  induction xs with
  | nil => exact ⟨fun _ _ h => absurd h List.not_mem_nil, fun _ => ⟨[], .nil⟩⟩
  | cons x xs ih =>
    rw [List.forall_mem_cons, ← ih]
    constructor
    · rintro ⟨ys, h⟩
      cases h with
      | cons hy hys => exact ⟨⟨_, hy⟩, _, hys⟩
    · rintro ⟨⟨y, hy⟩, ys, hys⟩
      exact ⟨y :: ys, .cons hy hys⟩

def isAscii (c : Char) : Bool := c.toNat < 128

/-- The table-driven operations of the runtime, with the laws the standard gives them:
lower-casing is idempotent, agrees with the ASCII table on ASCII text, and neither
makes nor removes white space at the ends of a text. -/
structure Runtime where
  toLowerCase : String → String
  numberText : Num → String
  textNumber : String → Num
  lower_lower : ∀ s, toLowerCase (toLowerCase s) = toLowerCase s
  lower_ascii : ∀ s : String, s.toList.all isAscii →
    toLowerCase s = String.ofList (s.toList.map Char.toLower)
  trim_lower : ∀ s, trim (toLowerCase s) = toLowerCase (trim s)

theorem Runtime.toLowerCase_empty (rt : Runtime) : rt.toLowerCase "" = "" := rt.lower_ascii "" rfl

namespace Value

mutual
def decEq : (a b : Value) → Decidable (a = b)
  | .null, .null => isTrue rfl
  | .bool a, .bool b => decidable_of_iff (a = b) (by simp)
  | .num a, .num b => decidable_of_iff (a = b) (by simp)
  | .str a, .str b => decidable_of_iff (a = b) (by simp)
  | .arr xs, .arr ys =>
    match decEqList xs ys with
    | isTrue h => isTrue (h ▸ rfl)
    | isFalse h => isFalse (fun he => h (Value.arr.inj he))
  | .obj xs, .obj ys =>
    match decEqFields xs ys with
    | isTrue h => isTrue (h ▸ rfl)
    | isFalse h => isFalse (fun he => h (Value.obj.inj he))
  | .null, .bool _ | .null, .num _ | .null, .str _ | .null, .arr _ | .null, .obj _
  | .bool _, .null | .bool _, .num _ | .bool _, .str _ | .bool _, .arr _ | .bool _, .obj _
  | .num _, .null | .num _, .bool _ | .num _, .str _ | .num _, .arr _ | .num _, .obj _
  | .str _, .null | .str _, .bool _ | .str _, .num _ | .str _, .arr _ | .str _, .obj _
  | .arr _, .null | .arr _, .bool _ | .arr _, .num _ | .arr _, .str _ | .arr _, .obj _
  | .obj _, .null | .obj _, .bool _ | .obj _, .num _ | .obj _, .str _ | .obj _, .arr _ =>
    isFalse (by intro h; cases h)

def decEqList : (xs ys : List Value) → Decidable (xs = ys)
  | [], [] => isTrue rfl
  | [], _ :: _ | _ :: _, [] => isFalse (by intro h; cases h)
  | x :: xs, y :: ys =>
    match decEq x y, decEqList xs ys with
    | isTrue hx, isTrue hs => isTrue (by rw [hx, hs])
    | isFalse hx, _ => isFalse (fun he => hx (List.cons.inj he).1)
    | _, isFalse hs => isFalse (fun he => hs (List.cons.inj he).2)

def decEqFields : (xs ys : List (String × Value)) → Decidable (xs = ys)
  | [], [] => isTrue rfl
  | [], _ :: _ | _ :: _, [] => isFalse (by intro h; cases h)
  | (k, x) :: xs, (l, y) :: ys =>
    match decEq x y, decEqFields xs ys with
    | isTrue hx, isTrue hs =>
      decidable_of_iff (k = l) (by rw [hx, hs]; simp)
    | isFalse hx, _ => isFalse (fun he => hx (Prod.mk.inj (List.cons.inj he).1).2)
    | _, isFalse hs => isFalse (fun he => hs (List.cons.inj he).2)
end

instance : DecidableEq Value := decEq

/-- `typeof x === "object"` of a value that is not null. -/
def isObject : Value → Bool
  | .arr _ | .obj _ => true
  | _ => false

/-- `Boolean(value)`, of a property that may be absent. -/
def truthy : Option Value → Bool
  | none | some .null | some (.bool false) | some (.num .nan) => false
  | some (.num (.fin q)) => q ≠ 0
  | some (.str s) => s ≠ ""
  | _ => true

/-- An object that is not an array. -/
def isRecord : Value → Bool
  | .obj _ => true
  | _ => false

/-- The own property `key`. -/
def get? (v : Value) (key : String) : Option Value :=
  match v with
  | .obj fields => fields.lookup key
  | _ => none

/-- The own property `key` when it is an object and not an array. -/
def record? (v : Value) (key : String) : Option Value := (v.get? key).filter isRecord

/-- `{ ...v, [key]: x }`: a property that exists keeps its place. -/
def set (v : Value) (key : String) (x : Value) : Value :=
  match v with
  | .obj fields =>
    if (fields.lookup key).isSome then
      .obj (fields.map fun f => if f.1 == key then (f.1, x) else f)
    else .obj (fields ++ [(key, x)])
  | v => v

/-- `delete v[key]`. -/
def erase (v : Value) (key : String) : Value :=
  match v with
  | .obj fields => .obj (fields.filter fun f => f.1 != key)
  | v => v

/-- `v[key] = x`, where an undefined value reads like an absent property. -/
def assign (v : Value) (key : String) : Option Value → Value
  | some x => v.set key x
  | none => v.erase key

def str? : Option Value → Option String
  | some (.str s) => some s
  | _ => none

variable (rt : Runtime)

mutual
/-- `String(x)`: an object whose own `toString` is not callable has no primitive value. -/
def text : Value → Except JsError String
  | .null => .ok "null"
  | .bool b => .ok (if b then "true" else "false")
  | .num n => .ok (rt.numberText n)
  | .str s => .ok s
  | .arr xs => do
    let parts ← elementTexts xs
    return String.intercalate "," parts
  | .obj fields => if (fields.lookup "toString").isSome then .error .typeError else .ok "[object Object]"

/-- The elements as `Array.prototype.join` writes them: null is the empty text. -/
def elementTexts : List Value → Except JsError (List String)
  | [] => .ok []
  | .null :: xs => do
    let rest ← elementTexts xs
    return "" :: rest
  | x :: xs => do
    let first ← text x
    let rest ← elementTexts xs
    return first :: rest
end

/-- `String(x ?? "")`. -/
def textOrEmpty : Option Value → Except JsError String
  | none | some .null => .ok ""
  | some v => v.text rt

/-- The first of `a ?? b ?? …` that is neither null nor undefined. -/
def coalesce : List (Option Value) → Option Value
  | [] => none
  | none :: rest | some .null :: rest => coalesce rest
  | some v :: _ => some v

/-- `String(a ?? b ?? "").trim()`. -/
def trimmedText (vs : List (Option Value)) : Except JsError String := do
  return trim (← textOrEmpty rt (coalesce vs))

/-- `Number(x)`. -/
def number : Option Value → Except JsError Num
  | none => .ok .nan
  | some .null => .ok (.fin 0)
  | some (.bool b) => .ok (.fin (if b then 1 else 0))
  | some (.num n) => .ok n
  | some (.str s) => .ok (rt.textNumber s)
  | some v => do
    let t ← v.text rt
    return rt.textNumber t

theorem get?_of_not_record {v : Value} (h : ¬ v.isRecord = true) (key : String) : v.get? key = none := by
  cases v with
  | obj fields => exact absurd rfl h
  | _ => rfl

theorem lookup_cons_if {α : Type} (k other : String) (y : α) (fields : List (String × α)) :
    ((k, y) :: fields).lookup other = if other = k then some y else fields.lookup other := by
  rw [List.lookup_cons]
  by_cases h : other = k
  · rw [if_pos h, beq_iff_eq.mpr h]
  · rw [if_neg h, beq_eq_false_iff_ne.mpr h]

theorem lookup_map_set {α : Type} (fields : List (String × α)) (key other : String) (x : α) :
    (fields.map fun f => if f.1 == key then (f.1, x) else f).lookup other =
      if other = key then (fields.lookup key).map (fun _ => x) else fields.lookup other := by
  induction fields with
  | nil => simp
  | cons f fields ih =>
    obtain ⟨k, y⟩ := f
    rw [List.map_cons, lookup_cons_if, lookup_cons_if]
    by_cases hk : k = key
    · rw [if_pos (beq_iff_eq.mpr hk), lookup_cons_if, ih]
      by_cases ho : other = key
      · simp [ho, hk]
      · simp [ho, hk]
    · have hb : ¬ ((k == key) = true) := by simp [hk]
      rw [if_neg hb, lookup_cons_if, ih]
      by_cases ho : other = key
      · have hne : ¬ key = k := fun h => hk h.symm
        simp [ho, hne]
      · simp [ho]

/-- A written property reads back, and the others keep their values. -/
theorem get?_set {v : Value} (h : v.isRecord = true) (key other : String) (x : Value) :
    (v.set key x).get? other = if other = key then some x else v.get? other := by
  cases v with
  | obj fields =>
    rw [set]
    split
    · next hsome =>
      obtain ⟨y, hy⟩ := Option.isSome_iff_exists.mp hsome
      rw [get?, lookup_map_set, hy]
      rfl
    · next hnone =>
      rw [Bool.not_eq_true, Option.isSome_eq_false_iff, Option.isNone_iff_eq_none] at hnone
      rw [get?, get?, List.lookup_append]
      by_cases ho : other = key
      · subst ho
        simp [hnone]
      · have : (other == key) = false := by simp [ho]
        simp [List.lookup_cons, this, ho]
  | _ => cases h

theorem isRecord_set {v : Value} (h : v.isRecord = true) (key : String) (x : Value) :
    (v.set key x).isRecord = true := by
  cases v with
  | obj fields =>
    rw [set]
    split
    · rfl
    · rfl
  | _ => cases h

theorem isRecord_of_get? {v : Value} {key : String} {x : Value} (h : v.get? key = some x) :
    v.isRecord = true := by
  cases v with
  | obj fields => rfl
  | _ => cases h

/-- One value with the empty text behind it converts as `String(x ?? "")` does. -/
theorem trimmedText_single (v : Option Value) :
    trimmedText rt [v] = (do return trim (← textOrEmpty rt v)) := by
  rcases v with _ | v
  · rfl
  · cases v <;> rfl

@[simp]
theorem textOrEmpty_str (s : String) : textOrEmpty rt (some (.str s)) = .ok s := by
  simp [textOrEmpty, text]

@[simp]
theorem trimmedText_str (s : String) (rest : List (Option Value)) :
    trimmedText rt (some (.str s) :: rest) = .ok (trim s) := by
  simp [trimmedText, coalesce]

@[simp]
theorem trimmedText_absent : trimmedText rt [none] = .ok "" := rfl

variable {rt} in
theorem trim_of_trimmedText {vs : List (Option Value)} {s : String}
    (h : trimmedText rt vs = .ok s) : trim s = s := by
  obtain ⟨text, -, h⟩ := exists_of_bind_ok h
  obtain rfl := Except.ok.inj h
  exact trim_trim text

end Value

end T560.Js
