import T560.Js.Utf8

/-!
# Percent escapes

`encodeURIComponent` and `decodeURIComponent`. The decoder takes every escape for a byte of a
character, and throws when the bytes are none.
-/

namespace T560.Js

def hexValue (c : Char) : Option Nat :=
  if '0' ≤ c ∧ c ≤ '9' then some (c.toNat - 48)
  else if 'a' ≤ c ∧ c ≤ 'f' then some (c.toNat - 87)
  else if 'A' ≤ c ∧ c ≤ 'F' then some (c.toNat - 55)
  else none

def hexDigit (n : Nat) : Char := Char.ofNat (if n < 10 then n + 48 else n + 55)

/-- The characters that are not escaped. -/
def isUnreserved (c : Char) : Bool :=
  let n := c.toNat
  (48 ≤ n && n ≤ 57) || (65 ≤ n && n ≤ 90) || (97 ≤ n && n ≤ 122) ||
    c ∈ ['-', '_', '.', '!', '~', '*', '\'', '(', ')']

def percentByte (b : UInt8) : List Char := ['%', hexDigit (b.toNat / 16), hexDigit (b.toNat % 16)]

def encodeURIComponent (text : List Char) : List Char :=
  text.flatMap fun c => if isUnreserved c then [c] else (String.utf8EncodeChar c).flatMap percentByte

/-- The byte of the escape that the text starts with, and the text behind it. -/
def percentOctet : List Char → Option (UInt8 × List Char)
  | '%' :: a :: b :: rest => do
    let high ← hexValue a
    let low ← hexValue b
    return (UInt8.ofNat (16 * high + low), rest)
  | _ => none

def percentOctets : Nat → List Char → Option (List UInt8 × List Char)
  | 0, text => some ([], text)
  | n + 1, text => do
    let (b, rest) ← percentOctet text
    let (bytes, rest) ← percentOctets n rest
    return (b :: bytes, rest)

/-- The decoder with the number of characters that it may still write. -/
def decodeFrom : Nat → List Char → Option (List Char)
  | _, [] => some []
  | 0, _ :: _ => none
  | left + 1, c :: rest =>
    if c = '%' then do
      let (b, behind) ← percentOctet (c :: rest)
      let (bytes, behind) ← percentOctets (announced b - 1) behind
      let (d, _) ← readUtf8 (b :: bytes)
      let more ← decodeFrom left behind
      return d :: more
    else (decodeFrom left rest).map (c :: ·)

/-- `decodeURIComponent`; nothing when it throws. -/
def decodeURIComponent (text : List Char) : Option (List Char) := decodeFrom text.length text

/-- The bytes of a text whose escapes are bytes; what is no escape stays. -/
def percentBytes : List Char → List UInt8
  | '%' :: a :: b :: rest =>
    match hexValue a, hexValue b with
    | some high, some low => UInt8.ofNat (16 * high + low) :: percentBytes rest
    | _, _ => 37 :: percentBytes (a :: b :: rest)
  | c :: rest => String.utf8EncodeChar c ++ percentBytes rest
  | [] => []

/-- What a URL parser makes of the value of a parameter. -/
def percentDecode (text : List Char) : List Char := decodeUtf8 (percentBytes text)

section Encoded

variable {c : Char} {b : UInt8} {text rest out : List Char} {n left : Nat}

theorem hexValue_lt {c : Char} {n : Nat} (h : hexValue c = some n) : n < 16 := by
  unfold hexValue at h
  have hcode : ∀ {lo hi : Char}, lo ≤ c ∧ c ≤ hi → lo.toNat ≤ c.toNat ∧ c.toNat ≤ hi.toNat := fun h => h
  split_ifs at h with hdigit hsmall hlarge
  · have : 48 ≤ c.toNat ∧ c.toNat ≤ 57 := hcode hdigit
    have := Option.some.inj h
    omega
  · have : 97 ≤ c.toNat ∧ c.toNat ≤ 102 := hcode hsmall
    have := Option.some.inj h
    omega
  · have : 65 ≤ c.toNat ∧ c.toNat ≤ 70 := hcode hlarge
    have := Option.some.inj h
    omega

theorem hexValue_hexDigit (h : n < 16) : hexValue (hexDigit n) = some n := by
  have hall : ∀ n < 16, hexValue (hexDigit n) = some n := by decide
  exact hall n h

theorem encodeChar_announced (c : Char) :
    ∃ b bytes, String.utf8EncodeChar c = b :: bytes ∧ announced b = bytes.length + 1 := by
  by_cases h : c.toNat < 0x80
  · refine ⟨_, [], encodeChar_ascii h, ?_⟩
    unfold announced
    rw [toNat_byte (show c.toNat < 256 by omega), if_pos h]
    rfl
  · obtain ⟨b, bytes, henc, hann, -⟩ := encodeChar_spec (Nat.le_of_not_lt h)
    exact ⟨b, bytes, henc, hann⟩

theorem percent_reserved : isUnreserved '%' = false := by decide

theorem length_encodeURIComponent (text : List Char) : text.length ≤ (encodeURIComponent text).length := by
  induction text with
  | nil => exact Nat.zero_le _
  | cons c text ih =>
    have hpos : 0 < (if isUnreserved c then [c] else (String.utf8EncodeChar c).flatMap percentByte).length := by
      split_ifs
      · exact Nat.one_pos
      · obtain ⟨b, bytes, henc, -⟩ := encodeChar_announced c
        rw [henc, List.flatMap_cons, List.length_append]
        exact Nat.lt_of_lt_of_le (by decide : 0 < 3) (Nat.le_add_right _ _)
    rw [encodeURIComponent, List.flatMap_cons, ← encodeURIComponent, List.length_append, List.length_cons]
    omega

theorem percentBytes_percentByte (b : UInt8) (rest : List Char) :
    percentBytes (percentByte b ++ rest) = b :: percentBytes rest := by
  have hb := b.toNat_lt
  simp only [percentByte, List.cons_append, List.nil_append, percentBytes,
    hexValue_hexDigit (show b.toNat / 16 < 16 by omega), hexValue_hexDigit (show b.toNat % 16 < 16 by omega)]
  rw [show 16 * (b.toNat / 16) + b.toNat % 16 = b.toNat by omega, UInt8.ofNat_toNat]

theorem percentBytes_octets (bytes : List UInt8) (rest : List Char) :
    percentBytes (bytes.flatMap percentByte ++ rest) = bytes ++ percentBytes rest := by
  induction bytes with
  | nil => rfl
  | cons b bytes ih => rw [List.flatMap_cons, List.append_assoc, percentBytes_percentByte, ih, List.cons_append]

theorem percentBytes_plain (hc : c ≠ '%') (rest : List Char) :
    percentBytes (c :: rest) = String.utf8EncodeChar c ++ percentBytes rest := by
  rw [percentBytes]
  intro a b behind heq
  exact absurd heq hc

/-- A parameter that is escaped once is read back. -/
theorem percentDecode_encodeURIComponent (text : List Char) :
    percentDecode (encodeURIComponent text) = text := by
  have hbytes : percentBytes (encodeURIComponent text) = utf8 text := by
    induction text with
    | nil => rfl
    | cons c text ih =>
      rw [encodeURIComponent, List.flatMap_cons, ← encodeURIComponent, utf8_cons, ← ih]
      split_ifs with hc
      · apply percentBytes_plain
        rintro rfl
        rw [percent_reserved] at hc
        cases hc
      · exact percentBytes_octets _ _
  rw [percentDecode, hbytes, decodeUtf8_utf8]

end Encoded

/-! ## Decoding twice -/

section Decoded

variable {c : Char} {b : UInt8} {bytes : List UInt8} {text rest out : List Char} {n left : Nat}

theorem percentOctet_length (h : percentOctet text = some (b, rest)) : rest.length + 3 = text.length := by
  unfold percentOctet at h
  split at h
  · obtain ⟨high, -, h⟩ := Option.bind_eq_some_iff.mp h
    obtain ⟨low, -, h⟩ := Option.bind_eq_some_iff.mp h
    obtain ⟨-, rfl⟩ := Prod.mk.inj (Option.some.inj h)
    rfl
  · cases h

theorem percentOctets_length (h : percentOctets n text = some (bytes, rest)) : rest.length ≤ text.length := by
  induction n generalizing text bytes with
  | zero =>
    obtain ⟨-, rfl⟩ := Prod.mk.inj (Option.some.inj h)
    exact Nat.le_refl _
  | succ n ih =>
    obtain ⟨⟨b, behind⟩, hfirst, h⟩ := Option.bind_eq_some_iff.mp h
    obtain ⟨⟨more, last⟩, hmore, h⟩ := Option.bind_eq_some_iff.mp h
    obtain ⟨-, rfl⟩ := Prod.mk.inj (Option.some.inj h)
    have := percentOctet_length hfirst
    have := ih hmore
    omega

/-- Every escape makes the text shorter. -/
theorem decodeFrom_length (h : decodeFrom left text = some out) :
    out.length ≤ text.length ∧ ('%' ∈ text → out.length < text.length) := by
  induction left generalizing text out with
  | zero =>
    cases text with
    | nil =>
      obtain rfl := Option.some.inj h
      simp
    | cons c rest => cases h
  | succ left ih =>
    cases text with
    | nil =>
      obtain rfl := Option.some.inj h
      simp
    | cons c rest =>
      rw [decodeFrom] at h
      by_cases hc : c = '%'
      · rw [if_pos hc] at h
        obtain ⟨⟨b, behind⟩, hfirst, h⟩ := Option.bind_eq_some_iff.mp h
        obtain ⟨⟨bytes, last⟩, hbytes, h⟩ := Option.bind_eq_some_iff.mp h
        obtain ⟨⟨d, extra⟩, -, h⟩ := Option.bind_eq_some_iff.mp h
        obtain ⟨more, hmore, h⟩ := Option.bind_eq_some_iff.mp h
        obtain rfl := Option.some.inj h
        have := percentOctet_length hfirst
        have := percentOctets_length hbytes
        have hle := (ih hmore).1
        simp only [List.length_cons] at *
        omega
      · rw [if_neg hc] at h
        obtain ⟨more, hmore, rfl⟩ := Option.map_eq_some_iff.mp h
        obtain ⟨hle, hlt⟩ := ih hmore
        simp only [List.length_cons, List.mem_cons, Ne.symm hc, false_or]
        refine ⟨by omega, ?_⟩
        intro hmem
        have := hlt hmem
        omega

theorem decodeFrom_plain (hplain : '%' ∉ text) (h : text.length ≤ left) : decodeFrom left text = some text := by
  induction text generalizing left with
  | nil => cases left <;> rfl
  | cons c text ih =>
    rw [List.length_cons] at h
    obtain ⟨more, rfl⟩ : ∃ more, left = more + 1 := ⟨left - 1, by omega⟩
    rw [List.mem_cons, not_or] at hplain
    rw [decodeFrom, if_neg (Ne.symm hplain.1), ih hplain.2 (by omega)]
    rfl

/-- Decoding leaves a text alone exactly when it has no percent sign. -/
theorem decodeURIComponent_eq_self_iff (text : List Char) :
    decodeURIComponent text = some text ↔ '%' ∉ text := by
  constructor
  · intro h hmem
    have := (decodeFrom_length h).2 hmem
    omega
  · exact fun hplain => decodeFrom_plain hplain (Nat.le_refl _)

end Decoded

end T560.Js
