import T560.Mail.Fetch

/-!
# Reading fetched messages

The first line of a message names it, so that its fields and the literal go to its row. The line
behind the literal has no sequence number: what stands there is lost.
-/

namespace T560.Mail

open Foundation (isWordChar wordAt stripName searchField containsName joined)
open Js (isSpace isDigit trimChars)

section Values

variable {m : FetchMessage} {before : List FetchItem} {env : ImapEnv}

theorem findSome?_own {sought : FetchItem} (hnext : ∀ word, sought.next word = none) :
    before.findSome? (m.found sought) =
      if sought ∈ before then some (joined (m.body sought)) else none := by
  have hfound : ∀ item, m.found sought item = if item = sought then some (joined (m.body item)) else none := by
    intro item
    rw [FetchMessage.found, Foundation.searchWords_none fun word _ => hnext word]
  induction before with
  | nil => rfl
  | cons item before ih =>
    rw [List.findSome?_cons, hfound, ih]
    by_cases hsame : item = sought
    · subst hsame
      rw [if_pos rfl, if_pos (List.mem_cons_self ..)]
    · rw [if_neg hsame]
      by_cases hmem : sought ∈ before
      · rw [if_pos hmem, if_pos (List.mem_cons_of_mem _ hmem)]
      · have hout : sought ∉ item :: before := by
          rw [List.mem_cons, not_or]
          exact ⟨fun heq => hsame heq.symm, hmem⟩
        rw [if_neg hmem, if_neg hout]

theorem splitOnP_joined {words : List (List Char)} (hne : words ≠ [])
    (hwords : ∀ word ∈ words, ∀ c ∈ word, isSpace c = false) : (joined words).splitOnP isSpace = words := by
  induction words using T560.Foundation.joined.induct with
  | case1 => exact absurd rfl hne
  | case2 word => exact List.splitOnP_eq_singleton (hwords word (List.mem_singleton_self _))
  | case3 word follower words ih =>
    obtain ⟨hword, hrest⟩ := List.forall_mem_cons.mp hwords
    rw [joined, List.splitOnP_append_cons_of_forall_mem hword ' ' (by decide), ih (by simp) hrest]

theorem joined_ends {words : List (List Char)} (hne : words ≠ []) (hwords : ∀ word ∈ words, word ≠ []) :
    (∃ word ∈ words, (joined words).head? = word.head?) ∧
      ∃ word ∈ words, (joined words).getLast? = word.getLast? := by
  induction words using T560.Foundation.joined.induct with
  | case1 => exact absurd rfl hne
  | case2 word =>
    exact ⟨⟨word, List.mem_singleton_self _, rfl⟩, word, List.mem_singleton_self _, rfl⟩
  | case3 word follower words ih =>
    obtain ⟨hword, hrest⟩ := List.forall_mem_cons.mp hwords
    obtain ⟨-, last, hmem, hlast⟩ := ih (by simp) hrest
    constructor
    · refine ⟨word, List.mem_cons_self .., ?_⟩
      rw [joined, List.head?_append_of_ne_nil _ hword]
    · refine ⟨last, List.mem_cons_of_mem _ hmem, ?_⟩
      have hne : joined (follower :: words) ≠ [] := by
        intro hnil
        rw [hnil] at hlast
        exact hrest last hmem (List.getLast?_eq_none_iff.mp hlast.symm)
      rw [joined, List.getLast?_append_of_ne_nil _ (by simp), List.getLast?_cons_of_ne_nil hne, hlast]

/-- The flags of a message are read as they were written. -/
theorem parseFlags_flags (m : FetchMessage) :
    parseFlags (joined (m.body .flags)) = m.flags.map fun flag => String.ofList flag.text := by
  have hbody : m.body .flags = m.flags.map ItemWord.text := rfl
  by_cases hempty : m.flags = []
  · rw [hbody, hempty]
    rfl
  · have hne : m.body .flags ≠ [] := by
      rw [hbody]
      simpa using hempty
    have hwords : ∀ word ∈ m.body .flags, word ≠ [] ∧ ∀ c ∈ word, isSpace c = false := by
      intro word hword
      obtain ⟨flag, -, rfl⟩ := List.mem_map.mp hword
      exact ⟨flag.ne_nil, fun c hc => (flag.plain c hc).spec.1⟩
    obtain ⟨⟨first, hfirst, hhead⟩, last, hlast, htail⟩ :=
      joined_ends hne fun word hword => (hwords word hword).1
    have htrim : trimChars (joined (m.body .flags)) = joined (m.body .flags) := by
      apply Js.trimChars_eq_self
      · intro c hc
        rw [hhead] at hc
        exact (hwords first hfirst).2 c (List.mem_of_mem_head? hc)
      · intro c hc
        rw [htail] at hc
        exact (hwords last hlast).2 c (List.mem_of_getLast? hc)
    have hkeep : (m.body .flags).filter (· ≠ []) = m.body .flags := by
      rw [List.filter_eq_self]
      exact fun word hword => decide_eq_true (hwords word hword).1
    unfold parseFlags
    rw [htrim, splitOnP_joined hne fun word hword => (hwords word hword).2, hkeep, hbody, List.map_map]
    rfl

end Values

section Literal

def headerName : List Char := "BODY[HEADER".toList

variable {m : FetchMessage} {before : List FetchItem} {text front back : List Char}

/-- Some flag of the message looks like the name of a header. -/
def FetchMessage.flagged (m : FetchMessage) : Bool := m.flags.any fun flag => containsName headerName flag.text

theorem contains_plain (h : '[' ∉ text) : containsName headerName text = false := by
  apply @Foundation.containsName_missing _ _ '[' (by decide)
  intro hmem
  exact h (Js.mem_of_mem_map_toLower hmem (by decide))

theorem contains_blank (front back : List Char) : containsName headerName (front ++ ' ' :: back) =
    (containsName headerName front || containsName headerName back) :=
  Foundation.containsName_separator (by decide) front back

theorem contains_joined (words : List (List Char)) :
    containsName headerName (joined words) = words.any (containsName headerName) := by
  induction words using T560.Foundation.joined.induct with
  | case1 => exact contains_plain (by decide)
  | case2 word => simp [joined]
  | case3 word follower words ih =>
    rw [joined, contains_blank, ih]
    rfl

theorem contains_item (m : FetchMessage) (item : FetchItem) (rest : List Char) :
    containsName headerName (m.itemText item ++ ' ' :: rest) =
      ((decide (item = .flags) && m.flagged) || containsName headerName rest) := by
  have hdigits : ∀ (label : List Char) (n : Nat), '[' ∉ label → '[' ∉ label ++ ' ' :: (digits n ++ []) := by
    intro label n hlabel hmem
    rcases List.mem_append.mp hmem with hmem | hmem
    · exact hlabel hmem
    · rcases List.mem_cons.mp hmem with hmem | hmem
      · exact absurd hmem (by decide)
      · rw [List.append_nil] at hmem
        exact (isDigit_spec ((digits_spec n).2 _ hmem)).2.1 rfl
  have hitem : containsName headerName (m.itemText item) = (decide (item = .flags) && m.flagged) := by
    cases item with
    | uid => exact contains_plain (hdigits "UID".toList m.uid (by decide))
    | size => exact contains_plain (hdigits "RFC822.SIZE".toList m.size (by decide))
    | internalDate =>
      apply contains_plain
      intro hmem
      rcases List.mem_append.mp hmem with hmem | hmem
      · exact absurd hmem (by decide)
      · rcases List.mem_cons.mp hmem with hmem | hmem
        · exact absurd hmem (by decide)
        · rcases List.mem_append.mp hmem with hmem | hmem
          · exact absurd hmem (by decide)
          · rcases List.mem_append.mp hmem with hmem | hmem
            · rcases Foundation.mem_joined hmem with hmem | ⟨word, hword, hmem⟩
              · exact absurd hmem (by decide)
              · exact (m.date.plain word hword _ hmem).2 rfl
            · exact absurd hmem (by decide)
    | flags =>
      have htext : m.itemText .flags = "FLAGS".toList ++ ' ' ::
          ([] ++ '(' :: (joined (m.body .flags) ++ ')' :: [])) := rfl
      have hround : Char.toLower '(' ∉ headerName.map Char.toLower := by decide
      have hclose : Char.toLower ')' ∉ headerName.map Char.toLower := by decide
      have hempty : containsName headerName [] = false := contains_plain (by decide)
      have hlabel : containsName headerName "FLAGS".toList = false := contains_plain (by decide)
      rw [htext, contains_blank, Foundation.containsName_separator hround,
        Foundation.containsName_separator hclose, contains_joined, hempty, hlabel]
      simp [FetchMessage.body, FetchMessage.flagged, List.any_map, Function.comp_def]
  rw [contains_blank, hitem]

theorem contains_items (m : FetchMessage) (items : List FetchItem) (rest : List Char) :
    containsName headerName (items.flatMap (fun item => m.itemText item ++ [' ']) ++ rest) =
      ((decide (.flags ∈ items) && m.flagged) || containsName headerName rest) := by
  induction items with
  | nil => simp
  | cons item items ih =>
    rw [List.flatMap_cons, List.append_assoc, List.append_assoc, List.singleton_append, contains_item, ih,
      ← Bool.or_assoc, ← Bool.and_or_distrib_right]
    congr 2
    rw [← Bool.decide_or]
    apply decide_eq_decide.mpr
    rw [List.mem_cons]
    exact or_congr_left ⟨Eq.symm, Eq.symm⟩

theorem contains_numeral {mark : Char} (hmark : mark ≠ '[') (n : Nat) (close : Char) (hclose : close ≠ '[') :
    containsName headerName (mark :: (digits n ++ [close])) = false := by
  apply contains_plain
  intro hmem
  rcases List.mem_cons.mp hmem with hmem | hmem
  · exact hmark hmem.symm
  · rcases List.mem_append.mp hmem with hmem | hmem
    · exact (isDigit_spec ((digits_spec n).2 _ hmem)).2.1 rfl
    · exact hclose (List.mem_singleton.mp hmem).symm

theorem contains_section (part : FetchSection) (length : Nat) :
    containsName headerName (part.written ++ ' ' :: '\x7b' :: (digits length ++ ['\x7d'])) = part.isHeader := by
  have hlast := @contains_numeral '\x7b' (by decide) length '\x7d' (by decide)
  rw [contains_blank, hlast, Bool.or_false]
  have hbracket : Char.toLower ']' ∉ headerName.map Char.toLower := by decide
  have hbody : ∀ origin, containsName headerName origin = false →
      containsName headerName ("BODY[TEXT".toList ++ ']' :: origin) = false := by
    intro origin horigin
    have hname : containsName headerName "BODY[TEXT".toList = false := by decide
    rw [Foundation.containsName_separator hbracket, horigin, hname]
    rfl
  cases part with
  | header names =>
    cases names with
    | nil => exact (by decide : containsName headerName "BODY[HEADER]".toList = true)
    | cons name names =>
      have hname : containsName headerName "BODY[HEADER.FIELDS".toList = true := by decide
      have hwritten := contains_blank "BODY[HEADER.FIELDS".toList
        ('(' :: (joined ((name :: names).map fun name => name.text) ++ [')', ']']))
      rw [hname, Bool.true_or] at hwritten
      exact hwritten
  | body origin =>
    cases origin with
    | none => exact hbody [] (contains_plain (by decide))
    | some n => exact hbody _ (contains_numeral (by decide) n '>' (by decide))

/-- The literal is taken for a header when it is one, or when a flag says so. -/
theorem contains_firstLine (m : FetchMessage) (before : List FetchItem) :
    containsName headerName (m.firstLine before) =
      ((decide (.flags ∈ before) && m.flagged) || m.part.isHeader) := by
  have hround : Char.toLower '(' ∉ headerName.map Char.toLower := by decide
  have hline : m.firstLine before = ['*'] ++ ' ' :: (digits m.sequence ++ ' ' :: ("FETCH".toList ++ ' ' ::
      ([] ++ '(' :: (before.flatMap (fun item => m.itemText item ++ [' ']) ++
        (m.part.written ++ ' ' :: '\x7b' :: (digits m.data.length ++ ['\x7d'])))))) := rfl
  have hsequence : containsName headerName (digits m.sequence) = false := by
    apply contains_plain
    intro hmem
    exact (isDigit_spec ((digits_spec _).2 _ hmem)).2.1 rfl
  have hfetch : containsName headerName "FETCH".toList = false := contains_plain (by decide)
  have hstar : containsName headerName ['*'] = false := contains_plain (by decide)
  have hempty : containsName headerName [] = false := contains_plain (by decide)
  rw [hline, contains_blank, contains_blank, contains_blank, Foundation.containsName_separator hround,
    contains_items, contains_section, hsequence, hfetch, hstar, hempty]
  rfl

/-- The name of a text literal is found in the line. -/
theorem contains_body (m : FetchMessage) (before : List FetchItem) (h : m.part.isHeader = false) :
    containsName "BODY[TEXT".toList (m.firstLine before) = true := by
  have hwritten : "BODY[TEXT".toList <:+: m.part.written := by
    cases hpart : m.part with
    | header names =>
      rw [hpart] at h
      cases h
    | body origin => exact ⟨[], ']' :: origin.elim [] fun n => '<' :: (digits n ++ ['>']), rfl⟩
  have hinside : m.part.written <:+: m.firstLine before := by
    refine ⟨'*' :: ' ' :: (digits m.sequence ++ ' ' :: ("FETCH".toList ++ ' ' :: '(' ::
      before.flatMap (fun item => m.itemText item ++ [' ']))),
      ' ' :: '\x7b' :: (digits m.data.length ++ ['\x7d']), ?_⟩
    simp [FetchMessage.firstLine]
  rw [Foundation.containsName_iff]
  exact (hwritten.trans hinside).map Char.toLower

end Literal

section Rows

variable {env : ImapEnv} {m : FetchMessage} {before after : List FetchItem}
  {rows : InsertionMap Nat ParsedMessage}

/-- The message as it is given: what the line in front of the literal has of it. -/
def FetchMessage.row (env : ImapEnv) (m : FetchMessage) (before : List FetchItem) : ParsedMessage where
  sequence := m.sequence
  uid := (before.findSome? (m.found .uid)).bind fun digits =>
    (env.number (String.ofList digits)).filter (0 < ·)
  flags := if .flags ∈ before then m.flags.map fun flag => String.ofList flag.text else []
  internalDate := if .internalDate ∈ before then String.ofList (joined m.date.words) else ""
  size := ((before.findSome? (m.found .size)).bind fun digits => env.number (String.ofList digits)).getD 0
  headersRaw :=
    if (decide (.flags ∈ before) && m.flagged) || m.part.isHeader then env.decode m.data else ""
  bodyRaw :=
    if (decide (.flags ∈ before) && m.flagged) || m.part.isHeader then "" else env.decode m.data

theorem readFields_twice (env : ImapEnv) (line : List Char) (target : ParsedMessage) :
    readFields env line (readFields env line target) = readFields env line target := by
  unfold readFields
  dsimp only
  congr 1
  · cases (searchField "UID".toList numberField false line).bind fun digits =>
      (env.number (String.ofList digits)).filter (0 < ·) <;> rfl
  · cases (searchField "FLAGS".toList flagsField false line).map parseFlags <;> rfl
  · cases (searchField "INTERNALDATE".toList dateField false line).map String.ofList <;> rfl
  · cases (searchField "RFC822.SIZE".toList numberField false line).bind fun digits =>
      env.number (String.ofList digits) <;> rfl

theorem readFields_firstLine (env : ImapEnv) (m : FetchMessage) (before : List FetchItem) :
    readFields env (m.firstLine before) { sequence := m.sequence } =
      { m.row env before with headersRaw := "", bodyRaw := "" } := by
  have huid : searchField "UID".toList numberField false (m.firstLine before) = _ :=
    search_firstLine m .uid before
  have hsize : searchField "RFC822.SIZE".toList numberField false (m.firstLine before) = _ :=
    search_firstLine m .size before
  have hdate : searchField "INTERNALDATE".toList dateField false (m.firstLine before) = _ :=
    (search_firstLine m .internalDate before).trans (findSome?_own fun _ => rfl)
  have hflags : searchField "FLAGS".toList flagsField false (m.firstLine before) = _ :=
    (search_firstLine m .flags before).trans (findSome?_own fun _ => rfl)
  unfold readFields FetchMessage.row
  rw [huid, hsize, hdate, hflags]
  dsimp only
  congr 1
  · cases (before.findSome? (m.found .uid)).bind fun digits =>
      (env.number (String.ofList digits)).filter (0 < ·) <;> rfl
  · by_cases hmem : .flags ∈ before
    · rw [if_pos hmem, if_pos hmem, ← parseFlags_flags]
      rfl
    · rw [if_neg hmem, if_neg hmem]
      rfl
  · by_cases hmem : .internalDate ∈ before
    · rw [if_pos hmem, if_pos hmem]
      rfl
    · rw [if_neg hmem, if_neg hmem]
      rfl

theorem applyPart_message (env : ImapEnv) (m : FetchMessage) (before : List FetchItem) :
    applyPart env (.literal (String.ofList (m.firstLine before)) m.data)
      (applyPart env (.line (String.ofList (m.firstLine before))) { sequence := m.sequence }) =
      m.row env before := by
  unfold applyPart
  simp only [ResponsePart.text, String.toList_ofList]
  rw [readFields_twice, readFields_firstLine]
  have hheader : containsName "BODY[HEADER".toList (m.firstLine before) = _ := contains_firstLine m before
  unfold readLiteralText
  rw [hheader]
  by_cases htaken : ((decide (.flags ∈ before) && m.flagged) || m.part.isHeader) = true
  · rw [if_pos htaken]
    simp only [FetchMessage.row, htaken, if_true]
  · have hpart : m.part.isHeader = false := by
      rw [Bool.not_eq_true, Bool.or_eq_false_iff] at htaken
      exact htaken.2
    rw [if_neg htaken, contains_body m before hpart, Bool.true_or, Bool.true_or, if_pos rfl]
    simp only [FetchMessage.row, htaken, Bool.false_eq_true, if_false]

theorem extractFetchSequence_first (env : ImapEnv) (m : FetchMessage) (before : List FetchItem) :
    extractFetchSequence env (String.ofList (m.firstLine before)) = some m.sequence := by
  obtain ⟨hne, hdigits⟩ := digits_spec m.sequence
  obtain ⟨c, more, hcons⟩ := List.exists_cons_of_ne_nil hne
  have hc : isSpace c = false := (isDigit_spec (hdigits c (hcons ▸ List.mem_cons_self ..))).2.2
  generalize hinner : before.flatMap (fun item => m.itemText item ++ [' ']) ++
    (m.part.written ++ ' ' :: '\x7b' :: (digits m.data.length ++ ['\x7d'])) = inner
  have hline : m.firstLine before =
      '*' :: ' ' :: (digits m.sequence ++ ' ' :: ("FETCH".toList ++ ' ' :: '(' :: inner)) := by
    rw [← hinner]
    rfl
  have hstart : blanks (' ' :: (digits m.sequence ++ ' ' :: ("FETCH".toList ++ ' ' :: '(' :: inner))) =
      some (digits m.sequence ++ ' ' :: ("FETCH".toList ++ ' ' :: '(' :: inner)) := by
    rw [hcons]
    exact blanks_word hc _
  have hname : blanks (' ' :: ("FETCH".toList ++ ' ' :: '(' :: inner)) =
      some ("FETCH".toList ++ ' ' :: '(' :: inner) := blanks_word (by decide) _
  have htake : (digits m.sequence ++ ' ' :: ("FETCH".toList ++ ' ' :: '(' :: inner)).takeWhile isDigit =
      digits m.sequence := by
    rw [List.takeWhile_append_of_pos hdigits]
    simp [(by decide : isDigit ' ' = false)]
  have hdrop : (digits m.sequence ++ ' ' :: ("FETCH".toList ++ ' ' :: '(' :: inner)).dropWhile isDigit =
      ' ' :: ("FETCH".toList ++ ' ' :: '(' :: inner) := by
    rw [List.dropWhile_append_of_pos hdigits]
    simp [(by decide : isDigit ' ' = false)]
  have hnumber : env.number (String.ofList (digits m.sequence)) = some m.sequence := by
    rw [digits, String.ofList_toList]
    exact env.number_decimal _ m.exact.1
  have hword : wordAt (some ' ') = false := by decide
  unfold extractFetchSequence
  rw [String.toList_ofList, hline]
  simp only [hstart, Option.bind_eq_bind, Option.bind_some, htake, hdrop, hname,
    Foundation.stripName_self, List.head?_cons, hword, hnumber]
  rw [if_pos ⟨hne, trivial⟩, Option.filter_some, if_pos (decide_eq_true m.sequence_pos)]

theorem extractFetchSequence_last (env : ImapEnv) (m : FetchMessage) (after : List FetchItem) :
    extractFetchSequence env (String.ofList (m.lastLine after)) = none := by
  unfold extractFetchSequence
  rw [String.toList_ofList]
  cases after <;> rfl

/-- The parts of a message make its row. -/
theorem parts_message (hnew : rows.get m.sequence = none) (order : FetchOrder) :
    ((m.items order).flatMap ResponseItem.parts).foldl (parsePart env) rows =
      rows.set m.sequence (m.row env order.before) := by
  have hparts : (m.items order).flatMap ResponseItem.parts =
      [.line (String.ofList (m.firstLine order.before)),
        .literal (String.ofList (m.firstLine order.before)) m.data,
        .line (String.ofList (m.lastLine order.after))] := rfl
  have hfirst := extractFetchSequence_first env m order.before
  have hlast := extractFetchSequence_last env m order.after
  rw [hparts]
  simp only [List.foldl_cons, List.foldl_nil, parsePart, ResponsePart.text, hfirst, hlast]
  rw [InsertionMap.get_set, Option.getD_some, InsertionMap.set_set, hnew, Option.getD_none,
    applyPart_message]

/-- A message in the order in which its items come. -/
abbrev Fetched := FetchMessage × FetchOrder

def Fetched.items (f : Fetched) : List ResponseItem := f.1.items f.2

def Fetched.row (env : ImapEnv) (f : Fetched) : ParsedMessage := f.1.row env f.2.before

theorem parts_messages {ms : List Fetched} (hdistinct : (ms.map fun f => f.1.sequence).Nodup)
    (hnew : ∀ f ∈ ms, rows.get f.1.sequence = none) :
    (((ms.flatMap Fetched.items).flatMap ResponseItem.parts).foldl (parsePart env) rows).values =
      rows.values ++ ms.map (Fetched.row env) := by
  induction ms generalizing rows with
  | nil => simp
  | cons f ms ih =>
    obtain ⟨hhere, hrest⟩ := List.forall_mem_cons.mp hnew
    obtain ⟨hfresh, hdistinct⟩ := List.nodup_cons.mp hdistinct
    rw [List.flatMap_cons, List.flatMap_append, List.foldl_append]
    have hparts : (f.items.flatMap ResponseItem.parts).foldl (parsePart env) rows =
        rows.set f.1.sequence (f.row env) := parts_message hhere f.2
    have hothers : ∀ g ∈ ms, (rows.set f.1.sequence (f.row env)).get g.1.sequence = none := by
      intro g hg
      have hne : g.1.sequence ≠ f.1.sequence := by
        intro heq
        exact hfresh (List.mem_map.mpr ⟨g, hg, heq⟩)
      rw [InsertionMap.get_set_ne hne]
      exact hrest g hg
    rw [hparts, ih hdistinct hothers]
    unfold InsertionMap.values
    rw [InsertionMap.entries_set_new hhere]
    simp

/-- Parts whose lines have no sequence number are passed over. -/
theorem foldl_unnumbered {parts : List ResponsePart}
    (h : ∀ part ∈ parts, extractFetchSequence env part.text = none) :
    parts.foldl (parsePart env) rows = rows := by
  induction parts with
  | nil => rfl
  | cons part parts ih =>
    obtain ⟨hhere, hrest⟩ := List.forall_mem_cons.mp h
    rw [List.foldl_cons, parsePart, hhere]
    exact ih hrest

def sortMessages (messages : List ParsedMessage) : List ParsedMessage :=
  messages.mergeSort fun a b => b.sequence ≤ a.sequence

theorem parseFetchedMessages_parts {ms : List Fetched} (hdistinct : (ms.map fun f => f.1.sequence).Nodup)
    {more : List ResponsePart} (hmore : ∀ part ∈ more, extractFetchSequence env part.text = none) :
    parseFetchedMessages env ((ms.flatMap Fetched.items).flatMap ResponseItem.parts ++ more) =
      sortMessages (ms.map (Fetched.row env)) := by
  have hvalues := @parts_messages env InsertionMap.empty ms hdistinct fun f _ => rfl
  unfold parseFetchedMessages sortMessages
  rw [List.foldl_append, foldl_unnumbered hmore, hvalues]
  rfl

end Rows

section Lines

variable {env : ImapEnv} {m : FetchMessage}

theorem printable_digits (n : Nat) : ∀ c ∈ digits n, Printable c :=
  fun c hc => (isDigit_spec ((digits_spec n).2 c hc)).1.1

theorem printable_joined {words : List (List Char)} (h : ∀ word ∈ words, ∀ c ∈ word, ItemChar c) :
    ∀ c ∈ joined words, Printable c := by
  intro c hc
  rcases Foundation.mem_joined hc with rfl | ⟨word, hword, hmem⟩
  · decide
  · exact (h word hword c hmem).1

theorem printable_item (m : FetchMessage) (item : FetchItem) : ∀ c ∈ m.itemText item, Printable c := by
  have hlabel : ∀ c ∈ item.label ++ [' '] ++ item.opening ++ item.closing, Printable c := by
    cases item <;> decide
  intro c hc
  rcases List.mem_append.mp hc with hc | hc
  · exact hlabel c (by simp [hc])
  · rcases List.mem_cons.mp hc with rfl | hc
    · decide
    · rcases List.mem_append.mp hc with hc | hc
      · exact hlabel c (by simp [hc])
      · rcases List.mem_append.mp hc with hc | hc
        · exact printable_joined (body_words m item).1 c hc
        · exact hlabel c (by simp [hc])

theorem printable_section (part : FetchSection) : ∀ c ∈ part.written, Printable c := by
  cases part with
  | header names =>
    cases names with
    | nil => exact (by decide : ∀ c ∈ "BODY[HEADER]".toList, Printable c)
    | cons name names =>
      have hlabel : ∀ c ∈ "BODY[HEADER.FIELDS".toList, Printable c := by decide
      have hmarks : ∀ c ∈ [' ', '(', ')', ']'], Printable c := by decide
      intro c hc
      rcases List.mem_append.mp hc with hc | hc
      · exact hlabel c hc
      · simp only [List.mem_cons, List.mem_append, List.not_mem_nil, or_false] at hc
        rcases hc with rfl | rfl | hc | rfl | rfl
        · decide
        · decide
        · apply printable_joined _ c hc
          intro word hword
          obtain ⟨name, -, rfl⟩ := List.mem_map.mp hword
          exact name.plain
        · decide
        · decide
  | body origin =>
    have hlabel : ∀ c ∈ "BODY[TEXT]".toList, Printable c := by decide
    intro c hc
    rcases List.mem_append.mp hc with hc | hc
    · exact hlabel c hc
    · cases origin with
      | none => cases hc
      | some n =>
        simp only [Option.elim_some, List.mem_cons, List.mem_append, List.not_mem_nil, or_false] at hc
        rcases hc with rfl | hc | rfl
        · decide
        · exact printable_digits n c hc
        · decide

theorem printable_firstLine (m : FetchMessage) (before : List FetchItem) :
    ∀ c ∈ m.firstLine before, Printable c := by
  have hfetch : ∀ c ∈ "FETCH".toList, Printable c := by decide
  intro c hc
  simp only [FetchMessage.firstLine, List.mem_cons, List.mem_append, List.mem_flatMap, List.not_mem_nil,
    or_false] at hc
  rcases hc with rfl | rfl | hc | rfl | hc | rfl | rfl | ⟨item, -, hc | rfl⟩ | hc | rfl | rfl | hc | rfl
  · decide
  · decide
  · exact printable_digits _ c hc
  · decide
  · exact hfetch c hc
  · decide
  · decide
  · exact printable_item m item c hc
  · decide
  · exact printable_section m.part c hc
  · decide
  · decide
  · exact printable_digits _ c hc
  · decide

theorem printable_lastLine (m : FetchMessage) (after : List FetchItem) :
    ∀ c ∈ m.lastLine after, Printable c := by
  intro c hc
  simp only [FetchMessage.lastLine, List.mem_append, List.mem_flatMap, List.mem_cons, List.not_mem_nil,
    or_false] at hc
  rcases hc with ⟨item, -, rfl | hc⟩ | rfl
  · decide
  · exact printable_item m item c hc
  · decide

theorem literalDigits_announced (front : List Char) (n : Nat) :
    literalDigits (String.ofList (front ++ '\x7b' :: (digits n ++ ['\x7d']))) =
      some (String.ofList (digits n)) := by
  obtain ⟨hne, hdigits⟩ := digits_spec n
  have hall : ∀ c ∈ (digits n).reverse, isDigit c = true := fun c hc => hdigits c (List.mem_reverse.mp hc)
  have hbrace : isDigit '\x7b' = false := by decide
  have hreverse : (front ++ '\x7b' :: (digits n ++ ['\x7d'])).reverse =
      '\x7d' :: ((digits n).reverse ++ '\x7b' :: front.reverse) := by simp
  have htake : ((digits n).reverse ++ '\x7b' :: front.reverse).takeWhile isDigit = (digits n).reverse := by
    rw [List.takeWhile_append_of_pos hall]
    simp [hbrace]
  have hdrop : ((digits n).reverse ++ '\x7b' :: front.reverse).dropWhile isDigit = '\x7b' :: front.reverse := by
    rw [List.dropWhile_append_of_pos hall]
    simp [hbrace]
  have hrun : literalDigits (String.ofList (front ++ '\x7b' :: (digits n ++ ['\x7d']))) =
      if ((digits n).reverse ++ '\x7b' :: front.reverse).takeWhile isDigit ≠ [] ∧
          (((digits n).reverse ++ '\x7b' :: front.reverse).dropWhile isDigit).head? = some '\x7b' then
        some (String.ofList (((digits n).reverse ++ '\x7b' :: front.reverse).takeWhile isDigit).reverse)
      else none := by
    unfold literalDigits
    rw [String.toList_ofList, hreverse]
    rfl
  rw [hrun, htake, hdrop, if_pos ⟨by simpa using hne, rfl⟩, List.reverse_reverse]

theorem head?_tag (tagCounter : Nat) : (nextTag tagCounter).toList.head? = some 'A' := by
  simp [nextTag]

/-- Both lines of a message are lines of a response. -/
theorem items_good (env : ImapEnv) (tagCounter : Nat) (f : Fetched)
    (hsize : f.1.data.length ≤ MAX_IMAP_LITERAL_BYTES) :
    ∀ item ∈ f.items, item.Good env (nextTag tagCounter) := by
  have huntagged : ∀ line : List Char, line.head? ≠ some 'A' →
      ¬ (nextTag tagCounter ++ " ").toList <+: line := by
    rintro line hline ⟨rest, rfl⟩
    apply hline
    rw [String.toList_append, List.append_assoc, List.head?_append, head?_tag]
    rfl
  have hlength : f.1.data.length < 2 ^ 53 ∧ min f.1.data.length 50000000 = f.1.data.length := by
    have hbound : MAX_IMAP_LITERAL_BYTES = 8000000 := rfl
    omega
  have hannounced : literalLength env (String.ofList (f.1.firstLine f.2.before)) = some f.1.data.length := by
    obtain ⟨front, hfront⟩ : ∃ front, f.1.firstLine f.2.before =
        front ++ '\x7b' :: (digits f.1.data.length ++ ['\x7d']) := by
      refine ⟨'*' :: ' ' :: (digits f.1.sequence ++ ' ' :: ("FETCH".toList ++ ' ' :: '(' ::
        (f.2.before.flatMap (fun item => f.1.itemText item ++ [' ']) ++ (f.1.part.written ++ [' '])))), ?_⟩
      simp [FetchMessage.firstLine]
    have hnumber : env.number (String.ofList (digits f.1.data.length)) = some f.1.data.length := by
      rw [digits, String.ofList_toList]
      exact env.number_decimal _ hlength.1
    unfold literalLength
    rw [hfront, literalDigits_announced, Option.map_some, hnumber]
    exact congrArg some hlength.2
  have hsilent : literalLength env (String.ofList (f.1.lastLine f.2.after)) = none := by
    have hreverse : (f.1.lastLine f.2.after).reverse =
        ')' :: (f.2.after.flatMap fun item => ' ' :: f.1.itemText item).reverse := by
      simp [FetchMessage.lastLine]
    unfold literalLength literalDigits
    rw [String.toList_ofList, hreverse]
    rfl
  intro item hitem
  rcases List.mem_cons.mp hitem with rfl | hitem
  · exact {
      ne_nil := List.cons_ne_nil _ _
      printable := printable_firstLine f.1 f.2.before
      untagged := huntagged _ (by simp [FetchMessage.firstLine])
      announced := hannounced }
  · obtain rfl := List.mem_singleton.mp hitem
    exact {
      ne_nil := by simp [FetchMessage.lastLine]
      printable := printable_lastLine f.1 f.2.after
      untagged := by
        apply huntagged
        cases hafter : f.2.after <;> simp [FetchMessage.lastLine]
      announced := hsilent }

end Lines

section Responses

variable {env : ImapEnv} {ending : Ending} {tagCounter : Nat} {command : String} {reader : Reader}
  {ms : List Fetched} {text : List Char}

def okLine (tagCounter : Nat) (text : List Char) : List Char :=
  (nextTag tagCounter ++ " ").toList ++ ("OK ".toList ++ text)

/-- What the server sends: the messages and the tagged line. -/
def responseBytes (tagCounter : Nat) (ms : List Fetched) (text : List Char) : Bytes :=
  itemsBytes (ms.flatMap Fetched.items) ++ (encodeAscii (okLine tagCounter text) ++ [13, 10])

theorem itemsSize_messages (ms : List Fetched) :
    itemsSize (ms.flatMap Fetched.items) = (ms.map fun f => f.1.data.length).sum := by
  induction ms with
  | nil => rfl
  | cons f ms ih =>
    unfold itemsSize at *
    rw [List.flatMap_cons, List.map_append, List.sum_append, ih, List.map_cons, List.sum_cons]
    congr 1

theorem length_le_sum {f : Fetched} (hf : f ∈ ms) :
    f.1.data.length ≤ (ms.map fun f => f.1.data.length).sum := by
  induction ms with
  | nil => cases hf
  | cons g ms ih =>
    rw [List.map_cons, List.sum_cons]
    rcases List.mem_cons.mp hf with rfl | hf
    · omega
    · have := ih hf
      omega

theorem length_messages (ms : List Fetched) : (ms.flatMap Fetched.items).length = 2 * ms.length := by
  induction ms with
  | nil => rfl
  | cons f ms ih =>
    have hitems : f.items.length = 2 := rfl
    rw [List.flatMap_cons, List.length_append, ih, List.length_cons, hitems]
    omega

theorem head?_okLine (tagCounter : Nat) (text : List Char) :
    (okLine tagCounter text).head? = some 'A' := by
  unfold okLine
  rw [String.toList_append, List.append_assoc, List.head?_append, head?_tag]
  rfl

theorem okLine_spec (htext : ∀ c ∈ text, Printable c) :
    (∀ c ∈ okLine tagCounter text, Printable c) ∧
      extractFetchSequence env (String.ofList (okLine tagCounter text)) = none := by
  constructor
  · have htag : ∀ c ∈ (nextTag tagCounter).toList, Printable c := by
      intro c hc
      simp only [nextTag, String.toList_append, List.mem_append, String.toList_ofList,
        List.mem_replicate] at hc
      rcases hc with (hc | ⟨-, rfl⟩) | hc
      · obtain rfl : c = 'A' := by simpa using hc
        decide
      · decide
      · exact printable_digits tagCounter c hc
    have hok : ∀ c ∈ " ".toList ++ "OK ".toList, Printable c := by decide
    intro c hc
    simp only [okLine, String.toList_append, List.mem_append] at hc
    rcases hc with (hc | hc) | hc | hc
    · exact htag c hc
    · exact hok c (List.mem_append_left _ hc)
    · exact hok c (List.mem_append_right _ hc)
    · exact htext c hc
  · obtain ⟨rest, hrest⟩ := List.head?_eq_some_iff.mp (head?_okLine tagCounter text)
    unfold extractFetchSequence
    rw [String.toList_ofList, hrest]
    rfl

/-- The parts of a response: those of the messages, and behind them those of the tagged line. -/
structure Answers (env : ImapEnv) (tagCounter : Nat) (ms : List Fetched) (text : List Char)
    (response : ImapResponse) : Prop where
  parts : ∃ more, response.parts = (ms.flatMap Fetched.items).flatMap ResponseItem.parts ++ more ∧
    ∀ part ∈ more, part.text = String.ofList (okLine tagCounter text)

theorem Answers.messages {response : ImapResponse} (h : Answers env tagCounter ms text response)
    (htext : ∀ c ∈ text, Printable c) (hdistinct : (ms.map fun f => f.1.sequence).Nodup) :
    parseFetchedMessages env response.parts = sortMessages (ms.map (Fetched.row env)) := by
  obtain ⟨more, hparts, hmore⟩ := h.parts
  rw [hparts]
  apply parseFetchedMessages_parts hdistinct
  intro part hpart
  rw [hmore part hpart]
  exact (okLine_spec htext).2

/-- The response to a fetch, in any chunks: it is given exactly when the tagged line announces no
literal. -/
theorem imapResponse_messages (htext : ∀ c ∈ text, Printable c)
    (hlines : 2 * ms.length + 1 ≤ MAX_IMAP_COMMAND_LINES)
    (hsize : (ms.map fun f => f.1.data.length).sum ≤ MAX_IMAP_LITERAL_BYTES)
    (hbytes : reader.bytes = responseBytes tagCounter ms text) :
    ((literalLength env (String.ofList (okLine tagCounter text))).getD 0 = 0 ∧
      ∃ response behind, imapResponse env ending tagCounter command reader = .ok (response, behind) ∧
        Answers env tagCounter ms text response) ∨
    ((literalLength env (String.ofList (okLine tagCounter text))).getD 0 ≠ 0 ∧
      ∃ message, imapResponse env ending tagCounter command reader = .error message) := by
  obtain ⟨left, hleft⟩ := Nat.exists_eq_add_of_le hlines
  have hgood : ∀ item ∈ ms.flatMap Fetched.items, item.Good env (nextTag tagCounter) := by
    intro item hitem
    obtain ⟨f, hf, hitem⟩ := List.mem_flatMap.mp hitem
    exact items_good env tagCounter f (Nat.le_trans (length_le_sum hf) hsize) item hitem
  have hprintable := (@okLine_spec env tagCounter text htext).1
  have hhead : (encodeAscii (okLine tagCounter text) ++ [13, 10]).head? ≠ some 13 := by
    rw [List.head?_append, encodeAscii, List.head?_map, head?_okLine]
    decide
  have htag : (nextTag tagCounter ++ " ").toList <+: okLine tagCounter text :=
    List.prefix_append _ _
  rw [← itemsSize_messages] at hsize
  obtain ⟨middle, hmiddle, hitems⟩ := @commandLoop_items env ending reader _ (nextTag tagCounter) command
    (left + 1) 0 [] _ hgood hbytes hhead (by rw [Nat.zero_add]; exact hsize)
  have hrun : imapResponse env ending tagCounter command reader =
      commandLoop env ending (nextTag tagCounter) command (left + 1)
        (itemsSize (ms.flatMap Fetched.items))
        ((ms.flatMap Fetched.items).flatMap ResponseItem.parts) middle := by
    rw [Nat.zero_add, List.nil_append] at hitems
    rw [← hitems, length_messages, imapResponse]
    congr 1
    omega
  rw [hrun]
  have htagged := @commandLoop_tagged env ending middle (nextTag tagCounter) command _ left
    (itemsSize (ms.flatMap Fetched.items)) ((ms.flatMap Fetched.items).flatMap ResponseItem.parts)
    hmiddle hprintable htag hsize
  rcases htagged with ⟨hlength, more, behind, hend, hmore⟩ | herror
  · exact Or.inl ⟨hlength, _, behind, hend, ⟨more, rfl, hmore⟩⟩
  · exact Or.inr herror

end Responses

end T560.Mail