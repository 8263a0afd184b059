import T560.Mail.Imap

/-!
# Reading from chunks

The reader sees the bytes of the stream, not the chunks that they come in: what it takes from the
front depends on the bytes alone. So a response of lines with their literals is read back as these
lines and literals, whatever bytes the literals have and wherever the stream is cut.
-/

namespace T560.Mail

variable {env : ImapEnv} {ending : Ending} {reader : Reader} {line rest : Bytes}

/-- All bytes that the reader has and still gets. -/
def Reader.bytes (reader : Reader) : Bytes := reader.buffer ++ reader.chunks.flatten

section Take

/-- A byte that starts no line break belongs to the line. -/
theorem takeLine_cons {b : UInt8} {bytes : Bytes} (h : bytes.head? ≠ some 10) :
    takeLine (b :: bytes) = (takeLine bytes).map fun (line, behind) => (b :: line, behind) := by
  rw [takeLine]
  rintro behind - rfl
  exact h rfl

theorem takeLine_append {buffer behind : Bytes} (h : takeLine buffer = some (line, behind))
    (more : Bytes) : takeLine (buffer ++ more) = some (line, behind ++ more) := by
  induction buffer using takeLine.induct generalizing line with
  | case1 rest =>
    simp only [takeLine, Option.some.injEq, Prod.mk.injEq] at h
    obtain ⟨rfl, rfl⟩ := h
    simp [takeLine]
  | case2 b rest hnot ih =>
    have hstep : takeLine (b :: rest) = (takeLine rest).map fun (line, behind) => (b :: line, behind) := by
      rw [takeLine]
      exact hnot
    rw [hstep] at h
    obtain ⟨⟨front, back⟩, hfront, hpair⟩ := Option.map_eq_some_iff.mp h
    obtain ⟨rfl, rfl⟩ := Prod.mk.inj hpair
    have hrest : rest ≠ [] := by
      rintro rfl
      cases hfront
    obtain ⟨c, rest, rfl⟩ := List.exists_cons_of_ne_nil hrest
    rw [List.cons_append, takeLine, ih hfront]
    · rfl
    · rintro more' rfl hmore
      obtain ⟨rfl, -⟩ := List.cons.inj hmore
      exact hnot rest rfl rfl
  | case3 => cases h

theorem takeLine_line (h : 10 ∉ line) : takeLine (line ++ 13 :: 10 :: rest) = some (line, rest) := by
  induction line with
  | nil => rfl
  | cons b line ih =>
    rw [List.mem_cons, not_or] at h
    have hhead : (line ++ 13 :: 10 :: rest).head? ≠ some 10 := by
      cases line with
      | nil => simp
      | cons c line =>
        intro hc
        obtain rfl := Option.some.inj hc
        exact h.2 (List.mem_cons_self ..)
    rw [List.cons_append, takeLine_cons hhead, ih h.2]
    rfl

end Take

section Read

/-- A line is read as it stands in the bytes. -/
theorem readLine_bytes (h : reader.bytes = line ++ 13 :: 10 :: rest) (hline : 10 ∉ line) :
    ∃ behind, readLine env ending reader = .ok (env.decode line, behind) ∧ behind.bytes = rest := by
  obtain ⟨buffer, chunks⟩ := reader
  unfold readLine
  unfold Reader.bytes at h
  dsimp only at h ⊢
  -- what is found in the buffer is found in all bytes
  have hfound : ∀ {buffer front behind : Bytes} {chunks : List Bytes},
      buffer ++ chunks.flatten = line ++ 13 :: 10 :: rest → takeLine buffer = some (front, behind) →
        front = line ∧ behind ++ chunks.flatten = rest := by
    intro buffer front behind chunks hbytes htake
    have hall := takeLine_append htake chunks.flatten
    rw [hbytes, takeLine_line hline] at hall
    obtain ⟨hfront, hbehind⟩ := Prod.mk.inj (Option.some.inj hall)
    exact ⟨hfront.symm, hbehind.symm⟩
  induction chunks generalizing buffer with
  | nil =>
    rw [readLineFrom]
    cases htake : takeLine buffer with
    | none =>
      rw [List.flatten_nil, List.append_nil] at h
      rw [h, takeLine_line hline] at htake
      cases htake
    | some found =>
      obtain ⟨rfl, hbehind⟩ := hfound h htake
      exact ⟨_, rfl, hbehind⟩
  | cons chunk chunks ih =>
    rw [readLineFrom]
    cases htake : takeLine buffer with
    | none =>
      apply ih
      rw [List.append_assoc, ← List.flatten_cons]
      exact h
    | some found =>
      obtain ⟨rfl, hbehind⟩ := hfound h htake
      exact ⟨_, rfl, hbehind⟩

/-- A literal is read by its length. -/
theorem readBytes_bytes {data : Bytes} (h : reader.bytes = data ++ rest) :
    ∃ behind, readBytes ending data.length reader = .ok (data, behind) ∧ behind.bytes = rest := by
  obtain ⟨buffer, chunks⟩ := reader
  unfold readBytes
  unfold Reader.bytes at h
  dsimp only at h ⊢
  have hfound : ∀ {buffer : Bytes} {chunks : List Bytes}, buffer ++ chunks.flatten = data ++ rest →
      data.length ≤ buffer.length →
        buffer.take data.length = data ∧ buffer.drop data.length ++ chunks.flatten = rest := by
    intro buffer chunks hbytes hlength
    have htake := congrArg (List.take data.length) hbytes
    have hdrop := congrArg (List.drop data.length) hbytes
    rw [List.take_append_of_le_length hlength, List.take_left] at htake
    rw [List.drop_append_of_le_length hlength, List.drop_left] at hdrop
    exact ⟨htake, hdrop⟩
  induction chunks generalizing buffer with
  | nil =>
    have hlength : data.length ≤ buffer.length := by
      have := congrArg List.length h
      simp only [List.flatten_nil, List.append_nil, List.length_append] at this
      omega
    obtain ⟨htake, hdrop⟩ := hfound h hlength
    rw [readBytesFrom, if_pos hlength, htake]
    exact ⟨_, rfl, hdrop⟩
  | cons chunk chunks ih =>
    rw [readBytesFrom]
    by_cases hlength : data.length ≤ buffer.length
    · obtain ⟨htake, hdrop⟩ := hfound h hlength
      rw [if_pos hlength, htake]
      exact ⟨_, rfl, hdrop⟩
    · rw [if_neg hlength]
      apply ih
      rw [List.append_assoc, ← List.flatten_cons]
      exact h

/-- Bytes that do not come are waited for in vain. -/
theorem readBytes_short {need : Nat} (h : reader.bytes.length < need) :
    readBytes ending need reader = .error (literalCut ending) := by
  obtain ⟨buffer, chunks⟩ := reader
  unfold readBytes
  unfold Reader.bytes at h
  dsimp only at h ⊢
  induction chunks generalizing buffer with
  | nil =>
    rw [List.flatten_nil, List.append_nil] at h
    rw [readBytesFrom, if_neg (by omega)]
  | cons chunk chunks ih =>
    rw [List.length_append] at h
    rw [readBytesFrom, if_neg (by omega)]
    apply ih
    rw [List.append_assoc, ← List.flatten_cons, List.length_append]
    exact h

theorem consumeOptionalCrlf_bytes (h : reader.bytes.head? ≠ some 13) :
    reader.consumeOptionalCrlf = reader := by
  obtain ⟨buffer, chunks⟩ := reader
  unfold Reader.consumeOptionalCrlf
  dsimp only
  split
  · next more hbuffer =>
    exact (h (by simp [Reader.bytes])).elim
  · rfl

end Read

/-! ## Responses -/

def Printable (c : Char) : Prop := 32 ≤ c.toNat ∧ c.toNat < 127

instance (c : Char) : Decidable (Printable c) := inferInstanceAs (Decidable (_ ∧ _))

/-- A line of a response with the literal that it announces. -/
structure ResponseItem where
  line : List Char
  literal : Option Bytes

def ResponseItem.bytes (item : ResponseItem) : Bytes :=
  encodeAscii item.line ++ 13 :: 10 :: item.literal.getD []

def ResponseItem.parts (item : ResponseItem) : List ResponsePart :=
  .line (String.ofList item.line) :: item.literal.toList.map (.literal (String.ofList item.line) ·)

def ResponseItem.size (item : ResponseItem) : Nat := (item.literal.getD []).length

/-- The line is a plain text without the tag, and announces the literal if there is one. -/
structure ResponseItem.Good (env : ImapEnv) (tag : String) (item : ResponseItem) : Prop where
  ne_nil : item.line ≠ []
  printable : ∀ c ∈ item.line, Printable c
  untagged : ¬ (tag ++ " ").toList <+: item.line
  announced : literalLength env (String.ofList item.line) = item.literal.map List.length

section Command

variable {tag command : String} {text : List Char} {item : ResponseItem} {lines literalBytes : Nat}
  {parts : List ResponsePart}

theorem byte_of_printable {c : Char} (h : Printable c) :
    UInt8.ofNat c.toNat ≠ 10 ∧ UInt8.ofNat c.toNat ≠ 13 := by
  obtain ⟨hlow, hhigh⟩ := h
  constructor <;> intro hbyte <;>
    · have hnat := congrArg UInt8.toNat hbyte
      rw [UInt8.toNat_ofNat'] at hnat
      simp at hnat
      omega

theorem encodeAscii_printable (h : ∀ c ∈ text, Printable c) :
    10 ∉ encodeAscii text ∧ 13 ∉ encodeAscii text := by
  constructor <;>
    · intro hmem
      obtain ⟨c, hc, hbyte⟩ := List.mem_map.mp hmem
      have := byte_of_printable (h c hc)
      simp_all

theorem decode_printable (h : ∀ c ∈ text, Printable c) :
    env.decode (encodeAscii text) = String.ofList text :=
  env.decode_ascii text fun c hc => by
    have := (h c hc).2
    omega

/-- A line that is plain text is read as it was written. -/
theorem readLine_text (h : reader.bytes = encodeAscii text ++ 13 :: 10 :: rest)
    (htext : ∀ c ∈ text, Printable c) :
    ∃ behind, readLine env ending reader = .ok (String.ofList text, behind) ∧ behind.bytes = rest := by
  rw [← decode_printable htext]
  exact readLine_bytes h (encodeAscii_printable htext).1

/-- One round of the loop takes one item. -/
theorem commandLoop_item (hgood : item.Good env tag) (h : reader.bytes = item.bytes ++ rest)
    (hrest : rest.head? ≠ some 13) (hsize : literalBytes + item.size ≤ MAX_IMAP_LITERAL_BYTES) :
    ∃ behind, behind.bytes = rest ∧
      commandLoop env ending tag command (lines + 1) literalBytes parts reader =
        commandLoop env ending tag command lines (literalBytes + item.size) (parts ++ item.parts)
          behind := by
  have hbytes : reader.bytes =
      encodeAscii item.line ++ 13 :: 10 :: (item.literal.getD [] ++ rest) := by
    rw [h, ResponseItem.bytes, List.append_assoc]
    rfl
  obtain ⟨behind, hread, hbehind⟩ := @readLine_text env ending _ _ _ hbytes hgood.printable
  have huntagged : ¬ (tag ++ " ").toList <+: (String.ofList item.line).toList := by
    rw [String.toList_ofList]
    exact hgood.untagged
  have hliteral : ∃ after, after.bytes = rest ∧
      readLiteral env ending command (String.ofList item.line) literalBytes behind =
        .ok (item.parts, literalBytes + item.size, after) := by
    unfold readLiteral
    rw [hgood.announced]
    unfold ResponseItem.parts ResponseItem.size at *
    cases hdata : item.literal with
    | none =>
      rw [hdata] at hbehind
      exact ⟨behind, hbehind, rfl⟩
    | some data =>
      rw [hdata, Option.getD_some] at hbehind hsize
      obtain ⟨after, hdata, hafter⟩ := @readBytes_bytes ending _ _ _ hbehind
      refine ⟨after, hafter, ?_⟩
      have hcrlf : after.consumeOptionalCrlf = after :=
        consumeOptionalCrlf_bytes (by rw [hafter]; exact hrest)
      dsimp only [Option.map_some, Option.getD_some]
      rw [if_neg (by omega), hdata]
      simp [bind, Except.bind, hcrlf]
  obtain ⟨after, hafter, hliteral⟩ := hliteral
  refine ⟨after, hafter, ?_⟩
  rw [commandLoop, hread]
  simp only [bind, Except.bind, hliteral, if_neg huntagged]

def itemsBytes (items : List ResponseItem) : Bytes := items.flatMap ResponseItem.bytes

def itemsSize (items : List ResponseItem) : Nat := (items.map ResponseItem.size).sum

theorem head?_itemsBytes {items : List ResponseItem} (hgood : ∀ item ∈ items, item.Good env tag)
    (hrest : rest.head? ≠ some 13) : (itemsBytes items ++ rest).head? ≠ some 13 := by
  cases items with
  | nil => exact hrest
  | cons item items =>
    have hitem := hgood item (List.mem_cons_self ..)
    obtain ⟨c, line, hline⟩ := List.exists_cons_of_ne_nil hitem.ne_nil
    intro hhead
    have hc := hitem.printable c (by rw [hline]; exact List.mem_cons_self ..)
    rw [itemsBytes, List.flatMap_cons, ResponseItem.bytes, hline] at hhead
    exact (byte_of_printable hc).2 (Option.some.inj hhead)

/-- The loop takes the items one after the other. -/
theorem commandLoop_items {items : List ResponseItem} (hgood : ∀ item ∈ items, item.Good env tag)
    (h : reader.bytes = itemsBytes items ++ rest) (hrest : rest.head? ≠ some 13)
    (hsize : literalBytes + itemsSize items ≤ MAX_IMAP_LITERAL_BYTES) :
    ∃ behind, behind.bytes = rest ∧
      commandLoop env ending tag command (items.length + lines) literalBytes parts reader =
        commandLoop env ending tag command lines (literalBytes + itemsSize items)
          (parts ++ items.flatMap ResponseItem.parts) behind := by
  induction items generalizing reader literalBytes parts with
  | nil =>
    refine ⟨reader, h, ?_⟩
    simp [itemsSize]
  | cons item items ih =>
    obtain ⟨hitem, hitems⟩ := List.forall_mem_cons.mp hgood
    have hbytes : reader.bytes = item.bytes ++ (itemsBytes items ++ rest) := by
      rw [h, itemsBytes, List.flatMap_cons, List.append_assoc]
      rfl
    have hsum : itemsSize (item :: items) = item.size + itemsSize items := by
      simp [itemsSize]
    rw [hsum] at hsize
    obtain ⟨between, hbetween, hfirst⟩ := @commandLoop_item env ending reader _ tag command item
      (items.length + lines) literalBytes parts hitem hbytes (head?_itemsBytes hitems hrest) (by omega)
    obtain ⟨behind, hbehind, hmore⟩ := @ih between (literalBytes + item.size) (parts ++ item.parts)
      hitems hbetween (by omega)
    refine ⟨behind, hbehind, ?_⟩
    rw [List.length_cons, Nat.add_right_comm, hfirst, hmore, hsum, Nat.add_assoc, List.append_assoc,
      List.flatMap_cons]

/-- The tagged line ends the response, unless it announces a literal. -/
theorem commandLoop_tagged (h : reader.bytes = encodeAscii text ++ 13 :: 10 :: [])
    (htext : ∀ c ∈ text, Printable c) (htag : (tag ++ " ").toList <+: text)
    (hsize : literalBytes ≤ MAX_IMAP_LITERAL_BYTES) :
    ((literalLength env (String.ofList text)).getD 0 = 0 ∧
      ∃ more behind, commandLoop env ending tag command (lines + 1) literalBytes parts reader =
          .ok (⟨statusOf env tag (String.ofList text), String.ofList text, parts ++ more⟩, behind) ∧
        ∀ part ∈ more, part.text = String.ofList text) ∨
    ((literalLength env (String.ofList text)).getD 0 ≠ 0 ∧ ∃ message,
      commandLoop env ending tag command (lines + 1) literalBytes parts reader = .error message) := by
  obtain ⟨behind, hread, hbehind⟩ := @readLine_text env ending _ _ _ h htext
  have htagged : (tag ++ " ").toList <+: (String.ofList text).toList := by
    rw [String.toList_ofList]
    exact htag
  rw [commandLoop, hread]
  simp only [bind, Except.bind]
  unfold readLiteral
  cases hlength : literalLength env (String.ofList text) with
  | none =>
    refine Or.inl ⟨rfl, ?_⟩
    dsimp only
    rw [if_pos htagged]
    refine ⟨_, behind, rfl, ?_⟩
    simp [ResponsePart.text]
  | some length =>
    rw [Option.getD_some]
    by_cases hzero : length = 0
    · subst hzero
      obtain ⟨after, hdata, -⟩ := @readBytes_bytes ending behind [] [] hbehind
      rw [List.length_nil] at hdata
      refine Or.inl ⟨rfl, ?_⟩
      dsimp only
      rw [if_neg (by omega), hdata]
      simp only [bind, Except.bind]
      rw [if_pos htagged]
      refine ⟨_, after.consumeOptionalCrlf, rfl, ?_⟩
      simp [ResponsePart.text]
    · refine Or.inr ⟨hzero, ?_⟩
      have hshort : behind.bytes.length < length := by
        rw [hbehind, List.length_nil]
        omega
      dsimp only
      by_cases hlimit : literalBytes + length > MAX_IMAP_LITERAL_BYTES
      · rw [if_pos hlimit]
        exact ⟨_, rfl⟩
      · rw [if_neg hlimit, readBytes_short hshort]
        exact ⟨_, rfl⟩

end Command

end T560.Mail
