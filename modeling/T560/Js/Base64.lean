import Mathlib.Data.List.Basic

/-!
# Base64

Three bytes are four digits of six bits. The reader passes over what is no digit.
-/

namespace T560.Js

def base64Digit (n : Nat) : Char :=
  Char.ofNat (if n < 26 then n + 65 else if n < 52 then n + 71 else if n < 62 then n - 4
    else if n = 62 then 43 else 47)

def toBase64 : List UInt8 → List Char
  | a :: b :: c :: rest =>
    base64Digit (a.toNat / 4) :: base64Digit (a.toNat % 4 * 16 + b.toNat / 16) ::
      base64Digit (b.toNat % 16 * 4 + c.toNat / 64) :: base64Digit (c.toNat % 64) :: toBase64 rest
  | [a, b] =>
    [base64Digit (a.toNat / 4), base64Digit (a.toNat % 4 * 16 + b.toNat / 16),
      base64Digit (b.toNat % 16 * 4), '=']
  | [a] => [base64Digit (a.toNat / 4), base64Digit (a.toNat % 4 * 16), '=', '=']
  | [] => []

/-- The two digits that a file name or an address cannot hold may be written with others. -/
def base64Value (c : Char) : Option Nat :=
  let n := c.toNat
  if 65 ≤ n ∧ n ≤ 90 then some (n - 65)
  else if 97 ≤ n ∧ n ≤ 122 then some (n - 71)
  else if 48 ≤ n ∧ n ≤ 57 then some (n + 4)
  else if c = '+' ∨ c = '-' then some 62
  else if c = '/' ∨ c = '_' then some 63
  else none

def bytesOfSextets : List Nat → List UInt8
  | a :: b :: c :: d :: rest =>
    UInt8.ofNat (a * 4 + b / 16) :: UInt8.ofNat (b % 16 * 16 + c / 4) :: UInt8.ofNat (c % 4 * 64 + d) ::
      bytesOfSextets rest
  | [a, b, c] => [UInt8.ofNat (a * 4 + b / 16), UInt8.ofNat (b % 16 * 16 + c / 4)]
  | [a, b] => [UInt8.ofNat (a * 4 + b / 16)]
  | _ => []

def fromBase64 (text : List Char) : List UInt8 := bytesOfSextets (text.filterMap base64Value)

theorem base64Value_digit {n : Nat} (h : n < 64) : base64Value (base64Digit n) = some n := by
  have hall : ∀ n < 64, base64Value (base64Digit n) = some n := by decide
  exact hall n h

theorem base64Value_padding : base64Value '=' = none := by decide

theorem base64Digit_ne_question (n : Nat) : base64Digit n ≠ '?' := by
  by_cases h : n < 64
  · have hall : ∀ n < 64, base64Digit n ≠ '?' := by decide
    exact hall n h
  · unfold base64Digit
    rw [if_neg (by omega), if_neg (by omega), if_neg (by omega), if_neg (by omega)]
    decide

theorem question_not_mem_toBase64 (bytes : List UInt8) : '?' ∉ toBase64 bytes := by
  induction bytes using toBase64.induct with
  | case1 a b c rest ih => simp [toBase64, ih, Ne.symm (base64Digit_ne_question _)]
  | case2 a b => simp [toBase64, Ne.symm (base64Digit_ne_question _)]
  | case3 a => simp [toBase64, Ne.symm (base64Digit_ne_question _)]
  | case4 => simp [toBase64]

theorem ofNat_eq {n : Nat} {a : UInt8} (h : n = a.toNat) : UInt8.ofNat n = a := by
  rw [h, UInt8.ofNat_toNat]

theorem fromBase64_toBase64 (bytes : List UInt8) : fromBase64 (toBase64 bytes) = bytes := by
  unfold fromBase64
  induction bytes using toBase64.induct with
  | case1 a b c rest ih =>
    have ha := a.toNat_lt
    have hb := b.toNat_lt
    have hc := c.toNat_lt
    rw [toBase64, List.filterMap_cons_some (base64Value_digit (by omega)),
      List.filterMap_cons_some (base64Value_digit (by omega)),
      List.filterMap_cons_some (base64Value_digit (by omega)),
      List.filterMap_cons_some (base64Value_digit (by omega)), bytesOfSextets, ih,
      ofNat_eq (show _ = a.toNat by omega), ofNat_eq (show _ = b.toNat by omega),
      ofNat_eq (show _ = c.toNat by omega)]
  | case2 a b =>
    have ha := a.toNat_lt
    have hb := b.toNat_lt
    rw [toBase64, List.filterMap_cons_some (base64Value_digit (by omega)),
      List.filterMap_cons_some (base64Value_digit (by omega)),
      List.filterMap_cons_some (base64Value_digit (by omega)),
      List.filterMap_cons_none base64Value_padding, List.filterMap_nil, bytesOfSextets,
      ofNat_eq (show _ = a.toNat by omega), ofNat_eq (show _ = b.toNat by omega)]
  | case3 a =>
    have ha := a.toNat_lt
    rw [toBase64, List.filterMap_cons_some (base64Value_digit (by omega)),
      List.filterMap_cons_some (base64Value_digit (by omega)),
      List.filterMap_cons_none base64Value_padding, List.filterMap_cons_none base64Value_padding,
      List.filterMap_nil, bytesOfSextets, ofNat_eq (show _ = a.toNat by omega)]
  | case4 => rfl

theorem length_fromBase64 (text : List Char) : (fromBase64 text).length ≤ text.length := by
  have hbytes : ∀ sextets, (bytesOfSextets sextets).length ≤ sextets.length := by
    intro sextets
    induction sextets using bytesOfSextets.induct with
    | case1 a b c d rest ih =>
      simp only [bytesOfSextets, List.length_cons]
      omega
    | case2 | case3 => simp [bytesOfSextets]
    | case4 sextets h1 h2 h3 =>
      rw [bytesOfSextets]
      · exact Nat.zero_le _
      · exact h1
      · exact h2
      · exact h3
  exact Nat.le_trans (hbytes _) (List.length_filterMap_le _ _)

end T560.Js
