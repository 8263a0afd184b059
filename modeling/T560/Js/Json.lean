import Mathlib.Data.Nat.Pairing
import Mathlib.Data.Rat.Encodable
import Mathlib.Logic.Equiv.List
import T560.Js.Value

/-!
# JSON texts

What the modelled code relies on in `JSON.parse` and `JSON.stringify`: parsing inverts
writing on values whose numbers are finite and whose keys are distinct and no array indices,
and a written object is one trimmed line.
-/

namespace T560.Js

/-- A key that keeps its place among the properties of an object. -/
def isPlainKey (key : String) : Bool := key.toList.head?.all fun c => !(48 ≤ c.toNat && c.toNat ≤ 57)

namespace Value

mutual
def isPlain : Value → Bool
  | .null | .bool _ | .str _ | .num (.fin _) => true
  | .num _ => false
  | .arr xs => arePlain xs
  | .obj fields => arePlainFields fields && decide (fields.map Prod.fst).Nodup

def arePlain : List Value → Bool
  | [] => true
  | x :: xs => isPlain x && arePlain xs

def arePlainFields : List (String × Value) → Bool
  | [] => true
  | (key, x) :: rest => isPlainKey key && isPlain x && arePlainFields rest
end

theorem arePlain_strs (texts : List String) : arePlain (texts.map .str) = true := by
  induction texts with
  | nil => simp [arePlain]
  | cons s texts ih => simp [arePlain, isPlain, ih]

end Value

structure Json where
  parse : String → Option Value
  stringify : Value → String
  parse_stringify : ∀ v : Value, v.isPlain = true → parse (stringify v) = some v
  stringify_line : ∀ v, ∀ c ∈ (stringify v).toList, c ≠ '\n'
  trim_stringify : ∀ fields, trim (stringify (.obj fields)) = stringify (.obj fields)
  stringify_ne : ∀ fields, stringify (.obj fields) ≠ ""

/-- `JSON.parse` takes no text that ends in an object and has more than white space in front of
it: what is open in front stays open, and a quote in front turns the object inside out. -/
def Json.RejectsGlued (json : Json) : Prop :=
  ∀ (front : String) (fields : List (String × Value)), trim front ≠ "" →
    json.parse (trim (front ++ json.stringify (.obj fields))) = none

section Consistent

def textCode (s : String) : ℕ := Encodable.encode (s.toList.map Char.toNat)

theorem textCode_injective {s t : String} (h : textCode s = textCode t) : s = t := by
  have hinj : Function.Injective Char.toNat := fun a b hab => by
    rw [← Char.ofNat_toNat a, hab, Char.ofNat_toNat]
  exact String.toList_inj.mp (List.map_injective_iff.mpr hinj (Encodable.encode_injective h))

def Num.code : Num → ℕ
  | .fin q => Nat.pair 0 (Encodable.encode q)
  | .posInf => Nat.pair 1 0
  | .negInf => Nat.pair 2 0
  | .nan => Nat.pair 3 0

theorem Num.code_injective {a b : Num} (h : a.code = b.code) : a = b := by
  cases a <;> cases b <;> simp [Num.code] at h ⊢
  exact h

namespace Value

mutual
/-- A number for every value. -/
def code : Value → ℕ
  | .null => Nat.pair 0 0
  | .bool b => Nat.pair 1 b.toNat
  | .num n => Nat.pair 2 n.code
  | .str s => Nat.pair 3 (textCode s)
  | .arr xs => Nat.pair 4 (codeList xs)
  | .obj fields => Nat.pair 5 (codeFields fields)

def codeList : List Value → ℕ
  | [] => 0
  | x :: xs => Nat.pair (code x) (codeList xs) + 1

def codeFields : List (String × Value) → ℕ
  | [] => 0
  | (key, x) :: rest => Nat.pair (textCode key) (Nat.pair (code x) (codeFields rest)) + 1
end

mutual
theorem code_injective : ∀ a b : Value, code a = code b → a = b
  | .null, b, h => by cases b <;> simp [code] at h ⊢
  | .bool x, b, h => by
    cases b with
    | bool y => cases x <;> cases y <;> simp [code] at h ⊢
    | _ => simp [code] at h
  | .num n, b, h => by cases b <;> simp [code] at h ⊢; exact Num.code_injective h
  | .str s, b, h => by cases b <;> simp [code] at h ⊢; exact textCode_injective h
  | .arr xs, b, h => by cases b <;> simp [code] at h ⊢; exact codeList_injective _ _ h
  | .obj fs, b, h => by cases b <;> simp [code] at h ⊢; exact codeFields_injective _ _ h

theorem codeList_injective : ∀ xs ys : List Value, codeList xs = codeList ys → xs = ys
  | [], [], _ => rfl
  | [], _ :: _, h => by simp [codeList] at h
  | _ :: _, [], h => by simp [codeList] at h
  | x :: xs, y :: ys, h => by
    simp only [codeList, Nat.add_right_cancel_iff, Nat.pair_eq_pair] at h
    rw [code_injective x y h.1, codeList_injective xs ys h.2]

theorem codeFields_injective :
    ∀ xs ys : List (String × Value), codeFields xs = codeFields ys → xs = ys
  | [], [], _ => rfl
  | [], _ :: _, h => by simp [codeFields] at h
  | _ :: _, [], h => by simp [codeFields] at h
  | (k, x) :: xs, (l, y) :: ys, h => by
    simp only [codeFields, Nat.add_right_cancel_iff, Nat.pair_eq_pair] at h
    rw [textCode_injective h.1, code_injective x y h.2.1, codeFields_injective xs ys h.2.2]
end

end Value

theorem count_trimChars {c : Char} (hc : isSpace c = false) (cs : List Char) :
    (trimChars cs).count c = cs.count c := by
  have hdrop : ∀ l : List Char, (l.dropWhile isSpace).count c = l.count c := by
    intro l
    have hnone : (l.takeWhile isSpace).count c = 0 := by
      refine List.count_eq_zero.mpr fun hmem => ?_
      have := List.mem_takeWhile_imp hmem
      rw [hc] at this
      cases this
    have hsplit := congrArg (List.count c) (List.takeWhile_append_dropWhile (p := isSpace) (l := l))
    rw [List.count_append, hnone] at hsplit
    omega
  rw [trimChars, List.rdropWhile, List.count_reverse, hdrop, List.count_reverse, hdrop]

/-- A text that starts with the only brace in it, so that none can stand in front of it. -/
def codeText (v : Value) : String := String.ofList ('\x7b' :: List.replicate v.code 'x')

theorem codeText_injective {v w : Value} (h : codeText v = codeText w) : v = w := by
  have hlen := congrArg (fun s => s.toList.length) h
  simp only [codeText, String.toList_ofList, List.length_cons, List.length_replicate] at hlen
  exact Value.code_injective v w (by omega)

theorem mem_codeText {v : Value} {c : Char} (h : c ∈ (codeText v).toList) : c = '\x7b' ∨ c = 'x' := by
  simp only [codeText, String.toList_ofList, List.mem_cons, List.mem_replicate] at h
  exact h.imp_right And.right

theorem count_codeText (v : Value) : (codeText v).toList.count '\x7b' = 1 := by
  rw [codeText, String.toList_ofList, List.count_cons_self]
  have : List.count '\x7b' (List.replicate v.code 'x') = 0 := by
    refine List.count_eq_zero.mpr fun h => ?_
    have := List.eq_of_mem_replicate h
    revert this
    decide
  omega

/-- No code stands behind another text. -/
theorem codeText_not_glued {front : String} (h : trim front ≠ "") (v w : Value) :
    codeText w ≠ trim (front ++ codeText v) := by
  intro heq
  have hbrace : isSpace '\x7b' = false := by decide
  have hcount := congrArg (fun s => s.toList.count '\x7b') heq
  simp only [count_codeText, toList_trim, count_trimChars hbrace, String.toList_append,
    List.count_append] at hcount
  -- The first character is the brace, and it comes from the front.
  obtain ⟨c, rest, hfront⟩ : ∃ c rest, front.toList.dropWhile isSpace = c :: rest := by
    cases hd : front.toList.dropWhile isSpace with
    | nil =>
      refine absurd ?_ h
      rw [trim, trimChars, hd]
      rfl
    | cons c rest => exact ⟨c, rest, rfl⟩
  have hdrop : (front.toList ++ (codeText v).toList).dropWhile isSpace =
      c :: (rest ++ (codeText v).toList) := by
    rw [List.dropWhile_append, hfront]
    rfl
  have hhead : (trim (front ++ codeText v)).toList.head? = some c := by
    rw [toList_trim, String.toList_append, trimChars,
      head?_rdropWhile fun d hd => head?_dropWhile_false hd, hdrop, List.head?_cons]
  rw [← heq, codeText, String.toList_ofList, List.head?_cons, Option.some.injEq] at hhead
  have hmem : '\x7b' ∈ front.toList := by
    have : c ∈ front.toList := (List.dropWhile_suffix isSpace).subset (by rw [hfront]; simp)
    exact hhead ▸ this
  have := List.count_pos_iff.mpr hmem
  omega

/-- The assumptions on JSON are consistent: values can be written injectively on one line. -/
theorem exists_json_rejectsGlued : ∃ json : Json, json.RejectsGlued := by
  classical
  have hspace : ∀ v, ∀ c ∈ (codeText v).toList, isSpace c = false := by
    intro v c hc
    rcases mem_codeText hc with rfl | rfl <;> decide
  refine ⟨{
    parse := fun s => if h : ∃ v, codeText v = s then some h.choose else none
    stringify := codeText
    parse_stringify := ?_
    stringify_line := ?_
    trim_stringify := ?_
    stringify_ne := ?_ }, ?_⟩
  · intro v _
    have h : ∃ w, codeText w = codeText v := ⟨v, rfl⟩
    rw [dif_pos h, codeText_injective h.choose_spec]
  · intro v c hc
    rcases mem_codeText hc with rfl | rfl <;> decide
  · intro fields
    exact trim_eq_self_of_noSpace (hspace _)
  · intro fields h
    have hlen := congrArg (fun s => s.toList.length) h
    simp [codeText] at hlen
  · intro front fields hfront
    refine dif_neg ?_
    rintro ⟨w, hw⟩
    exact codeText_not_glued hfront _ w hw

theorem json_nonempty : Nonempty Json := by
  obtain ⟨json, -⟩ := exists_json_rejectsGlued
  exact ⟨json⟩

end Consistent

end T560.Js
