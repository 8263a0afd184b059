import T560.Mail.FetchReading

/-!
# The order of the data items

A message is given as it was sent when its items stand in front of the literal and its flags do not
read like other items. Items behind the literal are lost, so that no message is read alike in all
orders.
-/

namespace T560.Mail

open Foundation (joined)

section Kept

variable {env : ImapEnv} {m : FetchMessage} {before : List FetchItem}

/-- The number that the items in front of the literal give to the search for one. -/
def FetchMessage.numberFound (env : ImapEnv) (m : FetchMessage) (sought : FetchItem)
    (before : List FetchItem) : Option Nat :=
  (before.findSome? (m.found sought)).bind fun digits => env.number (String.ofList digits)

/-- The items in front of the literal give the message. -/
structure Kept (env : ImapEnv) (m : FetchMessage) (before : List FetchItem) : Prop where
  uid : m.numberFound env .uid before = some m.uid
  flags : .flags ∈ before ∨ m.flags = []
  internalDate : .internalDate ∈ before
  size : (m.numberFound env .size before).getD 0 = m.size
  literal : m.part.isHeader = true ∨ .flags ∉ before ∨ m.flagged = false ∨ env.decode m.data = ""

theorem row_uid_iff : (m.row env before).uid = some m.uid ↔ m.numberFound env .uid before = some m.uid := by
  have hrow : (m.row env before).uid = (before.findSome? (m.found .uid)).bind fun digits =>
    (env.number (String.ofList digits)).filter (0 < ·) := rfl
  rw [hrow, FetchMessage.numberFound]
  cases before.findSome? (m.found .uid) with
  | none => rfl
  | some digits =>
    rw [Option.bind_some, Option.bind_some, Option.filter_eq_some_iff]
    exact and_iff_left (decide_eq_true m.uid_pos)

theorem row_flags_iff : (m.row env before).flags = (m.described env).flags ↔ .flags ∈ before ∨ m.flags = [] := by
  have hrow : (m.row env before).flags =
    if .flags ∈ before then m.flags.map fun flag => String.ofList flag.text else [] := rfl
  rw [hrow, FetchMessage.described]
  by_cases hmem : .flags ∈ before
  · rw [if_pos hmem]
    exact iff_of_true rfl (Or.inl hmem)
  · rw [if_neg hmem]
    constructor
    · intro heq
      exact Or.inr (List.map_eq_nil_iff.mp heq.symm)
    · rintro (hin | hempty)
      · exact absurd hin hmem
      · rw [hempty]
        rfl

theorem row_date_iff :
    (m.row env before).internalDate = (m.described env).internalDate ↔ .internalDate ∈ before := by
  have hrow : (m.row env before).internalDate =
    if .internalDate ∈ before then String.ofList (joined m.date.words) else "" := rfl
  rw [hrow, FetchMessage.described]
  by_cases hmem : .internalDate ∈ before
  · rw [if_pos hmem]
    exact iff_of_true rfl hmem
  · rw [if_neg hmem]
    refine iff_of_false ?_ hmem
    intro heq
    have hdate : "" = String.ofList (joined m.date.words) := heq
    apply m.date.given
    rw [← String.toList_ofList (l := joined m.date.words), ← hdate]
    rfl

theorem row_literal_iff :
    ((m.row env before).headersRaw = (m.described env).headersRaw ∧
      (m.row env before).bodyRaw = (m.described env).bodyRaw) ↔
    (m.part.isHeader = true ∨ .flags ∉ before ∨ m.flagged = false ∨ env.decode m.data = "") := by
  unfold FetchMessage.row FetchMessage.described
  dsimp only
  cases hpart : m.part.isHeader with
  | true => simp
  | false =>
    by_cases hmem : .flags ∈ before
    · cases hflagged : m.flagged with
      | true =>
        simp only [hmem, decide_true, Bool.true_and, Bool.or_false, if_true, Bool.false_eq_true, if_false,
          not_true_eq_false, false_or]
        constructor
        · rintro ⟨hheader, -⟩
          exact Or.inr hheader
        · rintro (hno | hempty)
          · cases hno
          · exact ⟨hempty, hempty.symm⟩
      | false => simp
    · simp [hmem]

/-- The row of a message is the message exactly when the items in front of the literal give it. -/
theorem row_eq_described_iff (env : ImapEnv) (m : FetchMessage) (before : List FetchItem) :
    m.row env before = m.described env ↔ Kept env m before := by
  have hfields : m.row env before = m.described env ↔
      (m.row env before).uid = some m.uid ∧ (m.row env before).flags = (m.described env).flags ∧
        (m.row env before).internalDate = (m.described env).internalDate ∧
        (m.row env before).size = m.size ∧
        ((m.row env before).headersRaw = (m.described env).headersRaw ∧
          (m.row env before).bodyRaw = (m.described env).bodyRaw) := by
    constructor
    · intro heq
      rw [heq]
      exact ⟨rfl, rfl, rfl, rfl, rfl, rfl⟩
    · rintro ⟨huid, hflags, hdate, hsize, hheader, hbody⟩
      have hsequence : (m.row env before).sequence = (m.described env).sequence := rfl
      cases hrow : m.row env before
      rw [hrow] at hsequence huid hflags hdate hsize hheader hbody
      dsimp only at hsequence huid hflags hdate hsize hheader hbody
      subst hsequence huid hflags hdate hsize hheader hbody
      rfl
  rw [hfields, row_uid_iff, row_flags_iff, row_date_iff, row_literal_iff]
  constructor
  · rintro ⟨huid, hflags, hdate, hsize, hliteral⟩
    exact ⟨huid, hflags, hdate, hsize, hliteral⟩
  · rintro ⟨huid, hflags, hdate, hsize, hliteral⟩
    exact ⟨huid, hflags, hdate, hsize, hliteral⟩

end Kept

section Orders

/-- The messages of a response with one message. -/
def fetched (env : ImapEnv) (f : Fetched) : List ParsedMessage :=
  parseFetchedMessages env (f.items.flatMap ResponseItem.parts)

theorem sortMessages_singleton (message : ParsedMessage) : sortMessages [message] = [message] :=
  List.mergeSort_singleton message

theorem fetched_eq (env : ImapEnv) (f : Fetched) : fetched env f = [f.row env] := by
  have hparts := @parseFetchedMessages_parts env [f] (List.nodup_singleton _) [] (by simp)
  rw [List.flatMap_singleton, List.append_nil, List.map_singleton, sortMessages_singleton] at hparts
  exact hparts

def leading : FetchOrder := ⟨FetchItem.all, [], by decide⟩

def trailing : FetchOrder := ⟨[], FetchItem.all, by decide⟩

/-- The UID is found in front of the literal, and not behind it. -/
theorem leading_ne_trailing (env : ImapEnv) (m : FetchMessage) :
    fetched env (m, leading) ≠ fetched env (m, trailing) := by
  rw [fetched_eq, fetched_eq]
  intro heq
  have huid := congrArg ParsedMessage.uid (List.cons.inj heq).1
  have hkept : m.numberFound env .uid FetchItem.all = some m.uid := by
    have hdigits : String.ofList (joined (m.body .uid)) = toString m.uid := String.ofList_toList
    have hnumber := env.number_decimal m.uid m.exact.2.1
    rw [← hdigits] at hnumber
    exact hnumber
  have hleading : (Fetched.row env (m, leading)).uid = some m.uid := row_uid_iff.mpr hkept
  rw [hleading] at huid
  cases huid

/-- The message of a response is given as it was sent exactly when the items in front of the literal
give it; and for every message there are two orders in which it is read differently. -/
theorem fetch_order_iff (env : ImapEnv) (m : FetchMessage) :
    (∀ (order : FetchOrder) (ending : Ending) (tagCounter : Nat) (command : String) (text : List Char)
        (reader : Reader),
      (∀ c ∈ text, Printable c) → literalLength env (String.ofList (okLine tagCounter text)) = none →
      m.data.length ≤ MAX_IMAP_LITERAL_BYTES →
      reader.bytes = responseBytes tagCounter [(m, order)] text →
      ((∃ response behind, imapResponse env ending tagCounter command reader = .ok (response, behind) ∧
        parseFetchedMessages env response.parts = [m.described env]) ↔ Kept env m order.before)) ∧
    ∃ order order', fetched env (m, order) ≠ fetched env (m, order') := by
  refine ⟨?_, leading, trailing, leading_ne_trailing env m⟩
  intro order ending tagCounter command text reader htext hquiet hsize hbytes
  have hlines : 2 * 1 + 1 ≤ MAX_IMAP_COMMAND_LINES := by decide
  have hresponse := @imapResponse_messages env ending tagCounter command reader [(m, order)] text htext
    hlines hsize hbytes
  rw [hquiet] at hresponse
  rcases hresponse with ⟨-, response, behind, hread, hanswers⟩ | ⟨hlength, -⟩
  · have hmessages := hanswers.messages htext (List.nodup_singleton _)
    rw [List.map_singleton, sortMessages_singleton] at hmessages
    rw [← row_eq_described_iff]
    constructor
    · rintro ⟨other, after, hother, hparsed⟩
      rw [hread, Except.ok.injEq, Prod.mk.injEq] at hother
      rw [← hother.1, hmessages] at hparsed
      exact (List.cons.inj hparsed).1
    · intro hrow
      refine ⟨response, behind, hread, ?_⟩
      rw [hmessages, ← hrow]
      rfl
  · exact absurd rfl hlength

end Orders

section RoundTrip

theorem sortMessages_perm (messages : List ParsedMessage) : (sortMessages messages).Perm messages :=
  List.mergeSort_perm messages _

/-- Messages with different numbers are sorted strictly. -/
theorem sortMessages_sorted {messages : List ParsedMessage}
    (hdistinct : (messages.map ParsedMessage.sequence).Nodup) :
    (sortMessages messages).Pairwise fun a b => b.sequence < a.sequence := by
  have hsorted : (sortMessages messages).Pairwise fun a b => decide (b.sequence ≤ a.sequence) = true := by
    apply List.pairwise_mergeSort
    · intro a b c hab hbc
      simp only [decide_eq_true_eq] at hab hbc ⊢
      omega
    · intro a b
      simp only [Bool.or_eq_true, decide_eq_true_eq]
      omega
  have hnodup : (sortMessages messages).Pairwise fun a b => a.sequence ≠ b.sequence := by
    have hperm := (sortMessages_perm messages).map ParsedMessage.sequence
    exact List.pairwise_map.mp (hperm.nodup_iff.mpr hdistinct)
  refine (hsorted.and hnodup).imp ?_
  rintro a b ⟨hle, hne⟩
  simp only [decide_eq_true_eq] at hle
  omega

/-- No flag of the message reads like another item. -/
structure Clear (env : ImapEnv) (m : FetchMessage) (before : List FetchItem) : Prop where
  uid : m.numberFound env .uid before = some m.uid
  size : (m.numberFound env .size before).getD 0 = m.size
  literal : m.part.isHeader = true ∨ m.flagged = false ∨ env.decode m.data = ""

/-- With the literal at the end, all items stand in front of it. -/
theorem kept_iff_clear {env : ImapEnv} {m : FetchMessage} {order : FetchOrder} (hlast : order.after = []) :
    Kept env m order.before ↔ Clear env m order.before := by
  have hall : ∀ item, item ∈ order.before := by
    intro item
    have hperm := order.perm
    rw [hlast, List.append_nil] at hperm
    rw [hperm.mem_iff]
    cases item <;> decide
  constructor
  · intro h
    refine ⟨h.uid, h.size, ?_⟩
    rcases h.literal with hheader | hout | hclear
    · exact Or.inl hheader
    · exact absurd (hall .flags) hout
    · exact Or.inr hclear
  · intro h
    refine ⟨h.uid, Or.inl (hall .flags), hall .internalDate, h.size, ?_⟩
    rcases h.literal with hheader | hclear
    · exact Or.inl hheader
    · exact Or.inr (Or.inr hclear)

/-- Messages whose literals come last are given back exactly when the tagged line announces no
literal and the flags of no message read like another item. -/
theorem fetch_round_trip_iff (env : ImapEnv) (ending : Ending) (tagCounter : Nat) (command : String)
    (ms : List Fetched) (text : List Char) (reader : Reader)
    (hlast : ∀ f ∈ ms, f.2.after = []) (hdistinct : (ms.map fun f => f.1.sequence).Nodup)
    (htext : ∀ c ∈ text, Printable c) (hlines : 2 * ms.length + 1 ≤ MAX_IMAP_COMMAND_LINES)
    (hsize : (ms.map fun f => f.1.data.length).sum ≤ MAX_IMAP_LITERAL_BYTES)
    (hbytes : reader.bytes = responseBytes tagCounter ms text) :
    (∃ response behind, imapResponse env ending tagCounter command reader = .ok (response, behind) ∧
        (parseFetchedMessages env response.parts).Perm (ms.map fun f => f.1.described env) ∧
        (parseFetchedMessages env response.parts).Pairwise fun a b => b.sequence < a.sequence) ↔
      (literalLength env (String.ofList (okLine tagCounter text))).getD 0 = 0 ∧
        ∀ f ∈ ms, Clear env f.1 f.2.before := by
  have hsequences : (ms.map (Fetched.row env)).map ParsedMessage.sequence = ms.map fun f => f.1.sequence := by
    rw [List.map_map]
    rfl
  rcases @imapResponse_messages env ending tagCounter command reader ms text htext hlines hsize hbytes with
    ⟨hlength, response, behind, hread, hanswers⟩ | ⟨hlength, message, hread⟩
  · have hmessages := hanswers.messages htext hdistinct
    constructor
    · rintro ⟨other, after, hother, hperm, -⟩
      rw [hread, Except.ok.injEq, Prod.mk.injEq] at hother
      rw [← hother.1, hmessages] at hperm
      refine ⟨hlength, fun f hf => ?_⟩
      -- a row is found among the messages under its own number only
      have hmem : f.row env ∈ ms.map fun f => f.1.described env :=
        ((sortMessages_perm _).symm.trans hperm).subset (List.mem_map_of_mem hf)
      obtain ⟨g, hg, heq⟩ := List.mem_map.mp hmem
      have hsame : g.1.sequence = f.1.sequence := congrArg ParsedMessage.sequence heq
      obtain rfl : g = f := List.inj_on_of_nodup_map hdistinct hg hf hsame
      rw [← kept_iff_clear (hlast g hf), ← row_eq_described_iff]
      exact heq.symm
    · rintro ⟨-, hclear⟩
      have hrows : ms.map (Fetched.row env) = ms.map fun f => f.1.described env := by
        apply List.map_congr_left
        intro f hf
        rw [Fetched.row, row_eq_described_iff, kept_iff_clear (hlast f hf)]
        exact hclear f hf
      refine ⟨response, behind, hread, ?_, ?_⟩
      · rw [hmessages, ← hrows]
        exact sortMessages_perm _
      · rw [hmessages]
        exact sortMessages_sorted (hsequences ▸ hdistinct)
  · refine iff_of_false ?_ fun h => hlength h.1
    rintro ⟨response, behind, hother, -⟩
    rw [hread] at hother
    cases hother

end RoundTrip

section Samples

def plainWord (text : String) (h : text.toList ≠ [] ∧ ∀ c ∈ text.toList, ItemChar c) : ItemWord :=
  ⟨text.toList, h.1, h.2⟩

/-- A message with the flags. -/
def sampleMessage (flags : List ItemWord) : FetchMessage where
  sequence := 7
  uid := 42
  flags := flags
  date :=
    { words := ["17-Jul-1996".toList, "02:44:25".toList, "-0700".toList]
      given := by decide
      inner := by decide
      plain := by decide
      ends := by decide }
  size := 4423
  part := .header []
  data := encodeAscii "Subject: hi\r\n\r\n".toList
  sequence_pos := by decide
  uid_pos := by decide
  exact := by decide

/-- The same message, with the UID in front of the literal and behind it. -/
theorem uid_behind_literal_lost :
    (fetched asciiEnv (sampleMessage [], leading)).map ParsedMessage.uid = [some 42] ∧
      (fetched asciiEnv (sampleMessage [], trailing)).map ParsedMessage.uid = [none] ∧
      ¬ ∀ order order', fetched asciiEnv (sampleMessage [], order) = fetched asciiEnv (sampleMessage [], order') := by
  refine ⟨?_, ?_, ?_⟩
  · rw [fetched_eq]
    decide
  · rw [fetched_eq]
    decide
  · intro hall
    exact leading_ne_trailing asciiEnv (sampleMessage []) (hall leading trailing)

def seen : ItemWord := plainWord "\\Seen" (by decide)

/-- The response to a fetch of the message, in two chunks. -/
def sampleReader (f : Fetched) : Reader :=
  ⟨(responseBytes 1 [f] "done".toList).take 20, [(responseBytes 1 [f] "done".toList).drop 20]⟩

theorem sampleReader_bytes (f : Fetched) : (sampleReader f).bytes = responseBytes 1 [f] "done".toList := by
  unfold sampleReader Reader.bytes
  rw [List.flatten_singleton, List.take_append_drop]

theorem fetch_order_iff_leading :
    ∃ response behind, imapResponse asciiEnv .silent 1 "FETCH 7" (sampleReader (sampleMessage [seen], leading)) =
        .ok (response, behind) ∧
      parseFetchedMessages asciiEnv response.parts = [(sampleMessage [seen]).described asciiEnv] := by
  have hkept : Kept asciiEnv (sampleMessage [seen]) leading.before := by
    constructor <;> decide
  exact ((fetch_order_iff asciiEnv (sampleMessage [seen])).1 leading .silent 1 "FETCH 7" "done".toList
    (sampleReader (sampleMessage [seen], leading)) (by decide) (by decide) (by decide)
    (sampleReader_bytes _)).mpr hkept

/-- Two keywords of a message that read like its size. -/
def sizeFlags : List ItemWord :=
  [plainWord "RFC822.SIZE" (by decide), plainWord "5" (by decide)]

theorem flags_read_as_size :
    (fetched asciiEnv (sampleMessage sizeFlags, leading)).map ParsedMessage.size = [5] ∧
    ¬ ∃ response behind, imapResponse asciiEnv .silent 1 "FETCH 7" (sampleReader (sampleMessage sizeFlags, leading)) =
        .ok (response, behind) ∧
      (parseFetchedMessages asciiEnv response.parts).Perm [(sampleMessage sizeFlags).described asciiEnv] ∧
      (parseFetchedMessages asciiEnv response.parts).Pairwise fun a b => b.sequence < a.sequence := by
  have hrow : (Fetched.row asciiEnv (sampleMessage sizeFlags, leading)).size = 5 := by decide
  have htext : ∀ c ∈ "done".toList, Printable c := by decide
  refine ⟨by rw [fetched_eq, List.map_singleton, hrow], ?_⟩
  rintro ⟨response, behind, hread, hperm, -⟩
  have hresponse := @imapResponse_messages asciiEnv .silent 1 "FETCH 7" _ [(sampleMessage sizeFlags, leading)]
    "done".toList htext (by decide) (by decide) (sampleReader_bytes _)
  rcases hresponse with ⟨-, other, after, hother, hanswers⟩ | ⟨-, message, hother⟩
  · rw [hread, Except.ok.injEq, Prod.mk.injEq] at hother
    have hmessages := hanswers.messages htext (List.nodup_singleton _)
    rw [List.map_singleton, sortMessages_singleton] at hmessages
    rw [hother.1, hmessages] at hperm
    have hsame := List.cons.inj (List.perm_singleton.mp hperm)
    have hsize := congrArg ParsedMessage.size hsame.1
    rw [hrow] at hsize
    cases hsize
  · rw [hread] at hother
    cases hother

/-- A second message, with flags of its own. -/
def laterMessage : FetchMessage :=
  { sampleMessage [seen, plainWord "\\Flagged" (by decide)] with
    sequence := 9
    uid := 57
    size := 15
    sequence_pos := by decide
    uid_pos := by decide
    exact := by decide }

def sampleMessages : List Fetched := [(sampleMessage [seen], leading), (laterMessage, leading)]

/-- The response to a fetch of both, each byte a chunk of its own. -/
def trickledReader : Reader := ⟨[], (responseBytes 1 sampleMessages "done".toList).map fun b => [b]⟩

theorem trickledReader_bytes : trickledReader.bytes = responseBytes 1 sampleMessages "done".toList := by
  rw [trickledReader, Reader.bytes, List.nil_append, ← List.flatMap_def, List.flatMap_singleton']

theorem fetch_round_trip_iff_sample :
    ∃ response behind, imapResponse asciiEnv .silent 1 "FETCH 7,9" trickledReader = .ok (response, behind) ∧
      (parseFetchedMessages asciiEnv response.parts).Perm
        [(sampleMessage [seen]).described asciiEnv, laterMessage.described asciiEnv] ∧
      (parseFetchedMessages asciiEnv response.parts).Pairwise fun a b => b.sequence < a.sequence := by
  have hclear : ∀ f ∈ sampleMessages, Clear asciiEnv f.1 f.2.before := by
    intro f hf
    simp only [sampleMessages, List.mem_cons, List.not_mem_nil, or_false] at hf
    rcases hf with rfl | rfl <;> constructor <;> decide
  exact (fetch_round_trip_iff asciiEnv .silent 1 "FETCH 7,9" sampleMessages "done".toList trickledReader
    (by decide) (by decide) (by decide) (by decide) (by decide) trickledReader_bytes).mpr
    ⟨by decide, hclear⟩

end Samples

end T560.Mail
