import T560.Foundation.Rewrite
import T560.Js.Base64
import T560.Js.Text
import T560.Js.UriComponent
import T560.Mail.Smtp

/-!
# Texts of a header

A text of printable ASCII is put into a header as it stands, any other as one encoded word. The
reader decodes every encoded word that it finds in a header, whoever wrote it.
-/

namespace T560.Mail

open Js (utf8 trimChars charUnits hexValue replaceRuns)
open Rewrite

/-- Runs of line breaks become one blank. -/
def sanitizeHeaderValue (value : List Char) : List Char :=
  trimChars (replaceRuns (fun c => c = '\r' ∨ c = '\n') ' ' false value)

/-- Buffers of the runtime. Base64 writes its own alphabet, a digit of it holds less than a byte,
and a character has at least one byte. -/
structure MimeCodec where
  toBase64 : Bytes → List Char
  fromBase64 : List Char → Bytes
  fromUtf8 : Bytes → List Char
  alphabet : ∀ bytes, '?' ∉ toBase64 bytes
  fromBase64_toBase64 : ∀ bytes, fromBase64 (toBase64 bytes) = bytes
  fromUtf8_utf8 : ∀ text, fromUtf8 (utf8 text) = text
  length_fromBase64 : ∀ text, (fromBase64 text).length ≤ text.length
  length_fromUtf8 : ∀ bytes, (fromUtf8 bytes).length ≤ bytes.length

/-- Buffers that replace every byte of text that is not well formed. -/
def bufferCodec : MimeCodec where
  toBase64 := Js.toBase64
  fromBase64 := Js.fromBase64
  fromUtf8 := Js.decodeUtf8
  alphabet := Js.question_not_mem_toBase64
  fromBase64_toBase64 := Js.fromBase64_toBase64
  fromUtf8_utf8 := Js.decodeUtf8_utf8
  length_fromBase64 := Js.length_fromBase64
  length_fromUtf8 := Js.length_decodeUtf8

section Encode

variable (codec : MimeCodec)

def encodeHeaderValue (value : List Char) : List Char :=
  let safe := sanitizeHeaderValue value
  if safe = [] then []
  else if ∀ c ∈ safe, Printable c then safe
  else "=?UTF-8?B?".toList ++ codec.toBase64 (utf8 safe) ++ "?=".toList

end Encode

/-- What `=\?([^?]+)\?([bBqQ])\?([^?]+)\?=` captures. -/
structure EncodedWord where
  charset : List Char
  mode : Char
  encoded : List Char
  deriving DecidableEq

def EncodedWord.text (w : EncodedWord) : List Char :=
  '=' :: '?' :: (w.charset ++ '?' :: w.mode :: '?' :: (w.encoded ++ ['?', '=']))

structure EncodedWord.Valid (w : EncodedWord) : Prop where
  charset_ne : w.charset ≠ []
  charset_plain : '?' ∉ w.charset
  mode_mem : w.mode ∈ ['b', 'B', 'q', 'Q']
  encoded_ne : w.encoded ≠ []
  encoded_plain : '?' ∉ w.encoded

/-- The text up to the first question mark, and the text behind it. -/
def field : List Char → Option (List Char × List Char)
  | [] => none
  | c :: rest => if c = '?' then some ([], rest) else (field rest).map fun found => (c :: found.1, found.2)

def findWord : Finder Char EncodedWord := fun _ text => do
  let (start, rest) ← field text
  let (charset, rest) ← field rest
  let (mode, rest) ← field rest
  let (encoded, rest) ← field rest
  if start = ['='] ∧ charset ≠ [] ∧ mode.length = 1 ∧ mode.all (· ∈ ['b', 'B', 'q', 'Q']) = true ∧
      encoded ≠ [] ∧ rest.head? = some '=' then
    some (⟨charset, mode.headD ' ', encoded⟩, charset.length + encoded.length + 7)
  else none

/-- `.replace(/=([A-Fa-f0-9]{2})/g, …)` with the character of the code. -/
def hexEscapes : List Char → List Char
  | '=' :: a :: b :: rest =>
    match hexValue a, hexValue b with
    | some x, some y => Char.ofNat (16 * x + y) :: hexEscapes rest
    | _, _ => '=' :: hexEscapes (a :: b :: rest)
  | c :: rest => c :: hexEscapes rest
  | [] => []

/-- `Buffer.from(text, "binary")`: the low byte of every code unit. -/
def binaryBytes (text : List Char) : Bytes := (text.flatMap charUnits).map UInt16.toUInt8

section Decode

variable (codec : MimeCodec)

/-- Neither decoding throws, so the `catch` is not reached. -/
def decodeWord (w : EncodedWord) : List Char :=
  if w.mode.toUpper = 'B' then codec.fromUtf8 (codec.fromBase64 w.encoded)
  else
    let qp := hexEscapes (w.encoded.map fun c => if c = '_' then ' ' else c)
    codec.fromUtf8 (binaryBytes qp)

def decodeMimeEncodedWords (input : List Char) : List Char :=
  replaceAll findWord (decodeWord codec) input

end Decode

/-- A part of the text has the form of an encoded word. -/
def HasEncodedWord (text : List Char) : Prop := ∃ w : EncodedWord, w.Valid ∧ w.text <:+: text

section Find

variable {text run rest : List Char} {w : EncodedWord} {n : Nat} {prev : Option Char}

theorem field_eq_some_iff : field text = some (run, rest) ↔ text = run ++ '?' :: rest ∧ '?' ∉ run := by
  induction text generalizing run with
  | nil => simp [field]
  | cons c text ih =>
    rw [field]
    by_cases hc : c = '?'
    · rw [if_pos hc]
      cases run with
      | nil => simp [hc, eq_comm]
      | cons d run =>
        subst hc
        constructor
        · intro h
          cases h
        · rintro ⟨heq, hplain⟩
          rw [List.cons_append, List.cons.injEq] at heq
          exact absurd (heq.1 ▸ List.mem_cons_self ..) hplain
    · rw [if_neg hc, Option.map_eq_some_iff]
      constructor
      · rintro ⟨⟨run', rest'⟩, hfield, heq⟩
        obtain ⟨rfl, rfl⟩ := Prod.mk.inj heq
        obtain ⟨htext, hplain⟩ := ih.mp hfield
        exact ⟨by rw [htext]; rfl, by simp [Ne.symm hc, hplain]⟩
      · rintro ⟨heq, hplain⟩
        cases run with
        | nil => exact absurd (List.cons.inj heq).1 hc
        | cons d run =>
          obtain ⟨rfl, htext⟩ := List.cons.inj heq
          refine ⟨(run, rest), ih.mpr ⟨htext, ?_⟩, rfl⟩
          exact fun hmem => hplain (List.mem_cons_of_mem _ hmem)

theorem field_append (hplain : '?' ∉ run) : field (run ++ '?' :: rest) = some (run, rest) :=
  field_eq_some_iff.mpr ⟨rfl, hplain⟩

theorem EncodedWord.length_text (w : EncodedWord) :
    w.text.length = w.charset.length + w.encoded.length + 7 := by
  simp only [EncodedWord.text, List.length_cons, List.length_append, List.length_nil]
  omega

/-- An encoded word is found where it stands. -/
theorem findWord_text (h : w.Valid) (rest : List Char) :
    findWord prev (w.text ++ rest) = some (w, w.text.length) := by
  have hmode : '?' ∉ [w.mode] := by
    intro hmem
    have hmark : ∀ c ∈ ['b', 'B', 'q', 'Q'], c ≠ '?' := by decide
    exact hmark w.mode h.mode_mem (List.mem_singleton.mp hmem).symm
  have hwhole : w.text ++ rest =
      ['='] ++ '?' :: (w.charset ++ '?' :: ([w.mode] ++ '?' :: (w.encoded ++ '?' :: ('=' :: rest)))) := by
    simp [EncodedWord.text]
  unfold findWord
  rw [hwhole, field_append (by decide)]
  simp only [bind, Option.bind, field_append h.charset_plain, field_append hmode, field_append h.encoded_plain]
  have hmodes : ([w.mode].all (· ∈ ['b', 'B', 'q', 'Q'])) = true := by simpa using h.mode_mem
  rw [if_pos ⟨trivial, h.charset_ne, rfl, hmodes, h.encoded_ne, rfl⟩, w.length_text]
  rfl

/-- What is found is an encoded word. -/
theorem findWord_some (h : findWord prev text = some (w, n)) :
    w.Valid ∧ n = w.text.length ∧ w.text <+: text := by
  unfold findWord at h
  obtain ⟨⟨start, rest1⟩, hstart, h1⟩ := Option.bind_eq_some_iff.mp h
  obtain ⟨⟨charset, rest2⟩, hcharset, h2⟩ := Option.bind_eq_some_iff.mp h1
  obtain ⟨⟨mode, rest3⟩, hmode, h3⟩ := Option.bind_eq_some_iff.mp h2
  obtain ⟨⟨encoded, rest4⟩, hencoded, h4⟩ := Option.bind_eq_some_iff.mp h3
  clear h h1 h2 h3
  dsimp only at h4
  split_ifs at h4 with hform
  obtain ⟨rfl, hcharset_ne, hone, hmodes, hencoded_ne, hclose⟩ := hform
  obtain ⟨m, rfl⟩ := List.length_eq_one_iff.mp hone
  obtain ⟨rest5, rfl⟩ := List.head?_eq_some_iff.mp hclose
  obtain ⟨rfl, rfl⟩ := Prod.mk.inj (Option.some.inj h4)
  obtain ⟨rfl, -⟩ := field_eq_some_iff.mp hstart
  obtain ⟨rfl, hcharset_plain⟩ := field_eq_some_iff.mp hcharset
  obtain ⟨rfl, -⟩ := field_eq_some_iff.mp hmode
  obtain ⟨rfl, hencoded_plain⟩ := field_eq_some_iff.mp hencoded
  refine ⟨⟨hcharset_ne, hcharset_plain, by simpa using hmodes, hencoded_ne, hencoded_plain⟩, ?_, rest5, ?_⟩
  · rw [EncodedWord.length_text]
  · simp [EncodedWord.text]

theorem forward_findWord : Forward findWord := fun _ _ _ => rfl

end Find

section RoundTrip

variable {text : List Char} {w : EncodedWord}

theorem hexEscapes_spec (text : List Char) :
    (hexEscapes text).length ≤ text.length ∧ ∀ c ∈ hexEscapes text, c ∈ text ∨ c.toNat < 256 := by
  have keep {c : Char} {more rest : List Char} (ih : more.length ≤ rest.length ∧
      ∀ d ∈ more, d ∈ rest ∨ d.toNat < 256) :
      (c :: more).length ≤ (c :: rest).length ∧ ∀ d ∈ c :: more, d ∈ c :: rest ∨ d.toNat < 256 := by
    refine ⟨Nat.succ_le_succ ih.1, ?_⟩
    intro d hd
    rcases List.mem_cons.mp hd with rfl | hd
    · exact Or.inl (List.mem_cons_self ..)
    · exact (ih.2 d hd).imp_left (List.mem_cons_of_mem _)
  induction text using hexEscapes.induct with
  | case1 a b rest x y ha hb ih =>
    rw [hexEscapes, ha, hb]
    dsimp only
    have hx := Js.hexValue_lt ha
    have hy := Js.hexValue_lt hb
    refine ⟨by simp only [List.length_cons]; omega, ?_⟩
    intro d hd
    rcases List.mem_cons.mp hd with rfl | hd
    · have hvalid : (16 * x + y).isValidChar := Or.inl (by omega)
      right
      unfold Char.ofNat
      rw [dif_pos hvalid]
      exact Nat.lt_of_lt_of_le (show 16 * x + y < 256 by omega) (Nat.le_refl _)
    · refine (ih.2 d hd).imp_left ?_
      intro hmem
      simp [hmem]
  | case2 a b rest hnot ih =>
    rw [hexEscapes]
    split
    · next x y ha hb => exact absurd hb (hnot x y ha)
    · exact keep ih
  | case3 c rest hnot ih =>
    rw [hexEscapes]
    · exact keep ih
    · exact hnot
  | case4 => simp [hexEscapes]

/-- A decoded word of printable characters is shorter than the word. -/
theorem length_decodeWord (codec : MimeCodec) (h : ∀ c ∈ w.encoded, Printable c) :
    (decodeWord codec w).length ≤ w.encoded.length := by
  unfold decodeWord
  split_ifs
  · exact Nat.le_trans (codec.length_fromUtf8 _) (codec.length_fromBase64 _)
  · obtain ⟨hlength, hmem⟩ := hexEscapes_spec (w.encoded.map fun c => if c = '_' then ' ' else c)
    rw [List.length_map] at hlength
    have hplane : ∀ c ∈ hexEscapes (w.encoded.map fun c => if c = '_' then ' ' else c), c.toNat < 0x10000 := by
      intro c hc
      rcases hmem c hc with hc | hc
      · obtain ⟨d, hd, rfl⟩ := List.mem_map.mp hc
        have := (h d hd).2
        split_ifs
        · decide
        · omega
      · omega
    have hbytes : (binaryBytes (hexEscapes (w.encoded.map fun c => if c = '_' then ' ' else c))).length =
        (hexEscapes (w.encoded.map fun c => if c = '_' then ' ' else c)).length := by
      rw [binaryBytes, List.length_map, Js.length_flatMap_charUnits hplane]
    have := codec.length_fromUtf8 (binaryBytes (hexEscapes (w.encoded.map fun c => if c = '_' then ' ' else c)))
    dsimp only
    omega

/-- Decoding leaves a printable text alone exactly when it has no encoded word. -/
theorem decode_printable_iff (codec : MimeCodec) (h : ∀ c ∈ text, Printable c) :
    decodeMimeEncodedWords codec text = text ↔ ¬ HasEncodedWord text := by
  have hshort : ∀ back w n, back <:+ text → findWord none back = some (w, n) →
      (decodeWord codec w).length < n ∧ n ≤ back.length := by
    intro back w n hback hfind
    obtain ⟨-, rfl, hprefix⟩ := findWord_some hfind
    have hinside : ∀ c ∈ w.encoded, Printable c := by
      intro c hc
      apply h c
      apply hback.subset
      apply hprefix.subset
      simp [EncodedWord.text, hc]
    have := length_decodeWord codec hinside
    rw [EncodedWord.length_text]
    refine ⟨by omega, ?_⟩
    rw [← EncodedWord.length_text]
    exact hprefix.length_le
  rcases length_replaceAll forward_findWord text hshort with ⟨hsame, hnone⟩ | ⟨hless, back, w, n, hback, hfind⟩
  · refine iff_of_true hsame ?_
    rintro ⟨w, hw, front, back, heq⟩
    have hsuffix : w.text ++ back <:+ text := ⟨front, by rw [← heq, List.append_assoc]⟩
    have := hnone _ hsuffix
    rw [findWord_text hw] at this
    cases this
  · apply iff_of_false
    · intro heq
      unfold decodeMimeEncodedWords at heq
      rw [heq] at hless
      omega
    · obtain ⟨hw, -, hprefix⟩ := findWord_some hfind
      exact fun hnot => hnot ⟨w, hw, hprefix.isInfix.trans hback.isInfix⟩

/-- One encoded word is decoded as a whole. -/
theorem decode_word (codec : MimeCodec) (hw : w.Valid) :
    decodeMimeEncodedWords codec w.text = decodeWord codec w := by
  obtain ⟨rest, hrest⟩ : ∃ rest, w.text = '=' :: rest := ⟨_, rfl⟩
  have hfind := @findWord_text w none hw []
  have hlength := congrArg List.length hrest
  rw [List.append_nil, hrest, List.length_cons] at hfind
  unfold decodeMimeEncodedWords
  rw [hrest, replaceAll_match forward_findWord hfind, List.drop_length]
  exact List.append_nil _

/-- A header text is read back exactly when it is encoded, or has no encoded word of its own. -/
theorem header_text_read_back_iff (codec : MimeCodec) (s : List Char) :
    decodeMimeEncodedWords codec (encodeHeaderValue codec s) = sanitizeHeaderValue s ↔
      (∃ c ∈ sanitizeHeaderValue s, ¬ Printable c) ∨ ¬ HasEncodedWord (sanitizeHeaderValue s) := by
  unfold encodeHeaderValue
  dsimp only
  generalize sanitizeHeaderValue s = safe
  by_cases hprintable : ∀ c ∈ safe, Printable c
  · have hnone : ¬ ∃ c ∈ safe, ¬ Printable c := fun ⟨c, hc, hnot⟩ => hnot (hprintable c hc)
    rw [if_pos hprintable, or_iff_right hnone, ← decode_printable_iff codec hprintable]
    split_ifs with hempty
    · rw [hempty]
    · rfl
  · have hsome : ∃ c ∈ safe, ¬ Printable c := by
      by_contra hnone
      exact hprintable fun c hc => by_contra fun hnot => hnone ⟨c, hc, hnot⟩
    have hne : safe ≠ [] := by
      rintro rfl
      obtain ⟨c, hc, -⟩ := hsome
      cases hc
    refine iff_of_true ?_ (Or.inl hsome)
    rw [if_neg hne, if_neg hprintable]
    have hencoded : codec.toBase64 (utf8 safe) ≠ [] := by
      intro hnil
      have hback := codec.fromBase64_toBase64 (utf8 safe)
      have hlength := codec.length_fromBase64 []
      rw [hnil] at hback
      rw [hback] at hlength
      have := Js.length_utf8 safe
      have := List.length_pos_iff.mpr hne
      simp only [List.length_nil] at hlength
      omega
    have hcharset : "UTF-8".toList ≠ [] ∧ '?' ∉ "UTF-8".toList := by decide
    have hmode : 'B' ∈ ['b', 'B', 'q', 'Q'] := by decide
    have hword : EncodedWord.Valid ⟨"UTF-8".toList, 'B', codec.toBase64 (utf8 safe)⟩ :=
      ⟨hcharset.1, hcharset.2, hmode, hencoded, codec.alphabet _⟩
    have htext : "=?UTF-8?B?".toList ++ codec.toBase64 (utf8 safe) ++ "?=".toList =
        EncodedWord.text ⟨"UTF-8".toList, 'B', codec.toBase64 (utf8 safe)⟩ := by
      simp [EncodedWord.text]
    rw [htext, decode_word codec hword]
    unfold decodeWord
    rw [if_pos (show 'B'.toUpper = 'B' by decide), codec.fromBase64_toBase64, codec.fromUtf8_utf8]

/-- A printable text with an encoded word in it is sent as it stands and decoded by the reader. -/
theorem encoded_word_lost :
    decodeMimeEncodedWords bufferCodec
        (encodeHeaderValue bufferCodec "Re: =?UTF-8?B?aGk=?=".toList) = "Re: hi".toList ∧
      sanitizeHeaderValue "Re: =?UTF-8?B?aGk=?=".toList = "Re: =?UTF-8?B?aGk=?=".toList ∧
      decodeMimeEncodedWords bufferCodec (encodeHeaderValue bufferCodec "Re: =?UTF-8?B?aGk=?=".toList) ≠
        sanitizeHeaderValue "Re: =?UTF-8?B?aGk=?=".toList := by
  decide

end RoundTrip

end T560.Mail
