import Mathlib.Data.List.Basic
import Mathlib.Tactic.SplitIfs

/-!
# UTF-8

The bytes of a text, and the reader that takes one character after the other from them.
-/

namespace T560.Js

def utf8 (text : List Char) : List UInt8 := text.flatMap String.utf8EncodeChar

/-- The number of bytes that the first byte of a character announces. -/
def announced (b : UInt8) : Nat :=
  if b.toNat < 0x80 then 1 else if b.toNat < 0xE0 then 2 else if b.toNat < 0xF0 then 3 else 4

def scalarOf : List UInt8 → Nat
  | [a] => a.toNat
  | [a, b] => a.toNat % 32 * 64 + b.toNat % 64
  | [a, b, c] => a.toNat % 16 * 4096 + b.toNat % 64 * 64 + c.toNat % 64
  | [a, b, c, d] => a.toNat % 8 * 262144 + b.toNat % 64 * 4096 + c.toNat % 64 * 64 + d.toNat % 64
  | _ => 0

/-- The first character of the bytes, and the bytes behind it. -/
def readUtf8 : List UInt8 → Option (Char × List UInt8)
  | [] => none
  | b :: rest =>
    let front := (b :: rest).take (announced b)
    let c := Char.ofNat (scalarOf front)
    if String.utf8EncodeChar c = front then some (c, (b :: rest).drop (announced b)) else none

variable {c : Char} {b : UInt8} {bytes rest : List UInt8} {text : List Char}

@[simp]
theorem utf8_cons (c : Char) (text : List Char) :
    utf8 (c :: text) = String.utf8EncodeChar c ++ utf8 text := rfl

@[simp]
theorem utf8_append (s t : List Char) : utf8 (s ++ t) = utf8 s ++ utf8 t := List.flatMap_append

theorem toNat_byte {n : Nat} (h : n < 256) : (UInt8.ofNat n).toNat = n := by
  rw [UInt8.toNat_ofNat']
  omega

theorem encodeChar_ascii (h : c.toNat < 0x80) : String.utf8EncodeChar c = [UInt8.ofNat c.toNat] := by
  unfold String.utf8EncodeChar
  exact if_pos (Nat.le_of_lt_succ h)

theorem toNat_lt (c : Char) : c.toNat < 0x110000 := by
  rcases c.valid with h | h
  · exact Nat.lt_trans h (by decide)
  · exact h.2

/-- The bytes of a character outside of ASCII: the first announces how many there are, and they
hold its code. -/
theorem encodeChar_spec (h : 0x80 ≤ c.toNat) :
    ∃ b rest, String.utf8EncodeChar c = b :: rest ∧ announced b = rest.length + 1 ∧
      (∀ d ∈ b :: rest, 0x80 ≤ d.toNat) ∧ scalarOf (b :: rest) = c.toNat := by
  have hbound := toNat_lt c
  unfold String.utf8EncodeChar
  dsimp only
  rw [show c.toNat = c.val.toNat from rfl] at h hbound ⊢
  generalize c.val.toNat = n at h hbound ⊢
  rw [if_neg (by omega)]
  by_cases h2 : n ≤ 0x7ff
  · rw [if_pos h2]
    refine ⟨_, _, rfl, ?_⟩
    simp only [announced, scalarOf, List.forall_mem_cons, List.length_cons, List.length_nil]
    repeat rw [toNat_byte (by omega)]
    refine ⟨?_, ⟨by omega, by omega, by simp⟩, by omega⟩
    rw [if_neg (by omega), if_pos (by omega)]
  · rw [if_neg h2]
    by_cases h3 : n ≤ 0xffff
    · rw [if_pos h3]
      refine ⟨_, _, rfl, ?_⟩
      simp only [announced, scalarOf, List.forall_mem_cons, List.length_cons, List.length_nil]
      repeat rw [toNat_byte (by omega)]
      refine ⟨?_, ⟨by omega, by omega, by omega, by simp⟩, by omega⟩
      rw [if_neg (by omega), if_neg (by omega), if_pos (by omega)]
    · rw [if_neg h3]
      refine ⟨_, _, rfl, ?_⟩
      simp only [announced, scalarOf, List.forall_mem_cons, List.length_cons, List.length_nil]
      repeat rw [toNat_byte (by omega)]
      refine ⟨?_, ⟨by omega, by omega, by omega, by omega, by simp⟩, by omega⟩
      rw [if_neg (by omega), if_neg (by omega), if_neg (by omega)]

/-- The bytes of a character are read as the character. -/
theorem readUtf8_encodeChar (c : Char) (rest : List UInt8) :
    readUtf8 (String.utf8EncodeChar c ++ rest) = some (c, rest) := by
  have hread : ∀ b tail, String.utf8EncodeChar c = b :: tail → announced b = tail.length + 1 →
      scalarOf (b :: tail) = c.toNat → readUtf8 (b :: tail ++ rest) = some (c, rest) := by
    intro b tail henc hann hscalar
    have htake : (b :: (tail ++ rest)).take (announced b) = b :: tail := by
      rw [hann, List.take_succ_cons, List.take_left]
    have hdrop : (b :: (tail ++ rest)).drop (announced b) = rest := by
      rw [hann, List.drop_succ_cons, List.drop_left]
    rw [List.cons_append, readUtf8]
    rw [htake, hdrop, hscalar, Char.ofNat_toNat, if_pos henc]
  by_cases h : c.toNat < 0x80
  · have hbyte := toNat_byte (show c.toNat < 256 by omega)
    have henc := encodeChar_ascii h
    rw [henc]
    apply hread _ _ henc
    · unfold announced
      rw [hbyte, if_pos h]
      rfl
    · exact hbyte
  · obtain ⟨b, tail, henc, hann, -, hscalar⟩ := encodeChar_spec (Nat.le_of_not_lt h)
    rw [henc]
    exact hread b tail henc hann hscalar

/-- A byte of ASCII is a character of its own. -/
theorem encodeChar_of_byte (hb : b ∈ String.utf8EncodeChar c) (h : b.toNat < 0x80) :
    c.toNat = b.toNat ∧ String.utf8EncodeChar c = [b] := by
  by_cases hc : c.toNat < 0x80
  · rw [encodeChar_ascii hc, List.mem_singleton] at hb
    subst hb
    exact ⟨(toNat_byte (by omega)).symm, encodeChar_ascii hc⟩
  · obtain ⟨d, tail, henc, -, hhigh, -⟩ := encodeChar_spec (Nat.le_of_not_lt hc)
    have := hhigh b (henc ▸ hb)
    omega

theorem encodeChar_ne_nil (c : Char) : String.utf8EncodeChar c ≠ [] := by
  by_cases hc : c.toNat < 0x80
  · rw [encodeChar_ascii hc]
    exact List.cons_ne_nil _ _
  · obtain ⟨d, tail, henc, -⟩ := encodeChar_spec (Nat.le_of_not_lt hc)
    rw [henc]
    exact List.cons_ne_nil _ _

/-! ## Texts that are not well formed -/

/-- The characters of at most so many reads; a byte that starts no character is replaced. -/
def decodeUtf8From : Nat → List UInt8 → List Char
  | 0, _ => []
  | _ + 1, [] => []
  | left + 1, b :: rest =>
    match readUtf8 (b :: rest) with
    | some (c, behind) => c :: decodeUtf8From left behind
    | none => Char.ofNat 0xFFFD :: decodeUtf8From left rest

def decodeUtf8 (bytes : List UInt8) : List Char := decodeUtf8From bytes.length bytes

theorem length_decodeUtf8 (bytes : List UInt8) : (decodeUtf8 bytes).length ≤ bytes.length := by
  have hfrom : ∀ left bytes, (decodeUtf8From left bytes).length ≤ left := by
    intro left
    induction left with
    | zero => simp [decodeUtf8From]
    | succ left ih =>
      intro bytes
      cases bytes with
      | nil => exact Nat.zero_le _
      | cons b rest =>
        rw [decodeUtf8From]
        split
        · exact Nat.succ_le_succ (ih _)
        · exact Nat.succ_le_succ (ih _)
  exact hfrom _ _

theorem decodeUtf8From_utf8 (text : List Char) (left : Nat) (h : text.length ≤ left) :
    decodeUtf8From left (utf8 text) = text := by
  induction text generalizing left with
  | nil => cases left <;> rfl
  | cons c text ih =>
    obtain ⟨more, rfl⟩ : ∃ more, left = more + 1 := ⟨left - 1, by simp only [List.length_cons] at h; omega⟩
    obtain ⟨b, rest, hbytes⟩ := List.exists_cons_of_ne_nil
      (show utf8 (c :: text) ≠ [] from fun hnil => encodeChar_ne_nil c (List.append_eq_nil_iff.mp hnil).1)
    have hread := readUtf8_encodeChar c (utf8 text)
    rw [← utf8_cons, hbytes] at hread
    rw [hbytes, decodeUtf8From, hread]
    dsimp only
    rw [ih more (by simpa using h)]

theorem length_utf8 (text : List Char) : text.length ≤ (utf8 text).length := by
  induction text with
  | nil => exact Nat.zero_le _
  | cons c text ih =>
    have := List.length_pos_iff.mpr (encodeChar_ne_nil c)
    rw [utf8_cons, List.length_append, List.length_cons]
    omega

theorem decodeUtf8_utf8 (text : List Char) : decodeUtf8 (utf8 text) = text :=
  decodeUtf8From_utf8 text _ (length_utf8 text)

end T560.Js
