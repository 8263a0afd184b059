import T560.Guard.Operands

/-!
# The words of a piece

The splitter and the tokenizer follow quotes and backslashes alike, so at the end of a piece the
tokenizer is outside quotes when the splitter is. Where no word is open there, it reads on as at a
new start.
-/

namespace T560.Guard

open Js (isSpace trimChars)

/-! ## The two automata in step -/

section Mode

variable {s : SplitState} {t : TokenState} {ch : Char}

def tokenRun (piece : List Char) : TokenState := piece.foldl tokenStep {}

def TokenState.Outside (t : TokenState) : Prop := t.quote = none ∧ t.escaped = false

/-- Both follow the same quote and the same backslash. -/
def SameMode (s : SplitState) (t : TokenState) : Prop := t.quote = s.quote ∧ t.escaped = s.escaped

theorem mode_flush (t : TokenState) : t.flush.quote = t.quote ∧ t.flush.escaped = t.escaped := by
  unfold TokenState.flush
  split <;> exact ⟨rfl, rfl⟩

theorem sameMode_step (hskip : s.skip ≠ some ch) (h : SameMode s t)
    (hch : ¬ (s.Outside ∧ isBreak ch = true)) : SameMode (splitStep s ch) (tokenStep t ch) := by
  obtain ⟨sout, scurrent, squote, sescaped, sskip⟩ := s
  obtain ⟨ttokens, tcurrent, tquote, tescaped⟩ := t
  obtain ⟨hquote, hescaped⟩ := h
  dsimp only at hskip hquote hescaped
  subst hquote hescaped
  unfold splitStep tokenStep
  rw [if_neg hskip]
  dsimp only
  cases tescaped with
  | true => exact ⟨rfl, rfl⟩
  | false =>
    simp only [Bool.false_eq_true, if_false]
    by_cases hback : ch = '\\' ∧ tquote ≠ some '\''
    · rw [if_pos hback, if_pos hback]
      exact ⟨rfl, rfl⟩
    · rw [if_neg hback, if_neg hback]
      cases tquote with
      | some q => by_cases hclose : ch = q <;> simp [SameMode, hclose]
      | none =>
        have hbreak : ¬ isBreak ch = true := fun hbreak => hch ⟨⟨rfl, rfl⟩, hbreak⟩
        dsimp only
        by_cases hopen : ch = '\'' ∨ ch = '"'
        · rw [if_pos hopen, if_pos hopen]
          exact ⟨rfl, rfl⟩
        · rw [if_neg hopen, if_neg hopen, if_neg hbreak]
          split
          · exact mode_flush _
          · exact ⟨rfl, rfl⟩

/-- The tokenizer on the current piece is in the mode of the splitter. -/
theorem sameMode_splitRun (command : List Char) :
    SameMode (splitRun command) (tokenRun (splitRun command).current) := by
  suffices h : ∀ s : SplitState, s.Fresh → SameMode s (tokenRun s.current) →
      SameMode (command.foldl splitStep s) (tokenRun (command.foldl splitStep s).current) from
    h {} (fresh_of_skip_none rfl) ⟨rfl, rfl⟩
  intro s hfresh hsame
  induction command generalizing s with
  | nil => exact hsame
  | cons ch command ih =>
    rw [List.foldl_cons]
    refine ih _ (splitStep_fresh hfresh ch) ?_
    by_cases hch : s.Outside ∧ isBreak ch = true
    · obtain ⟨-, hcurrent, ⟨hquote, hescaped⟩, -⟩ := splitStep_break hch.1 hfresh hch.2
      rw [hcurrent]
      exact ⟨hquote.symm, hescaped.symm⟩
    · have hskip : s.skip ≠ some ch := by
        intro hskip
        obtain ⟨hbreak, -, hout⟩ := hfresh ch hskip
        exact hch ⟨hout, hbreak⟩
      rw [(splitStep_other hfresh hch).2.1, tokenRun, List.foldl_append]
      exact sameMode_step hskip hsame hch

theorem outside_lastPiece {first : String} (h : EndsOutside first) :
    (tokenRun (lastPiece first)).Outside := by
  obtain ⟨hquote, hescaped⟩ := sameMode_splitRun first.toList
  exact ⟨hquote.trans h.1, hescaped.trans h.2⟩

end Mode

/-! ## The tokenizer across a boundary -/

section Tokens

variable {piece rest : List Char} {t : TokenState}

/-- The words of a piece as it is kept. -/
def pieceWords (piece : List Char) : List String := tokenizeShell (trimChars piece)

/-- No word is open, or a blank ends it. -/
def BetweenWords (piece rest : List Char) : Prop :=
  (tokenRun piece).current = [] ∨ ∀ ch, rest.head? = some ch → isSpace ch = true

/-- Outside quotes a word is closed by the end or by the blank that comes next. -/
theorem flush_foldl_close (hout : t.Outside)
    (h : t.current = [] ∨ ∀ ch, rest.head? = some ch → isSpace ch = true) :
    (rest.foldl tokenStep t).flush = (rest.foldl tokenStep { tokens := t.flush.tokens }).flush := by
  obtain ⟨tokens, current, quote, escaped⟩ := t
  obtain ⟨rfl, rfl⟩ := hout
  dsimp only at h
  by_cases hcurrent : current = []
  · subst hcurrent
    rfl
  · have hflush : TokenState.flush { tokens := tokens, current := current } =
        { tokens := tokens ++ [current] } := by
      simp [TokenState.flush, hcurrent]
    rw [hflush]
    cases rest with
    | nil => exact hflush
    | cons ch rest =>
      have hch := (h.resolve_left hcurrent) ch rfl
      rw [List.foldl_cons, List.foldl_cons, tokenStep_space hch, tokenStep_space hch, hflush]
      rfl

theorem tokenizeShell_append (hout : (tokenRun piece).Outside) (h : BetweenWords piece rest) :
    tokenizeShell (piece ++ rest) = tokenizeShell piece ++ tokenizeShell rest := by
  have hclose := flush_foldl_close hout h
  calc tokenizeShell (piece ++ rest)
      = (rest.foldl tokenStep (tokenRun piece)).flush.tokens.map String.ofList := by
        unfold tokenizeShell tokenRun
        rw [List.foldl_append]
    _ = (rest.foldl tokenStep { tokens := (tokenRun piece).flush.tokens }).flush.tokens.map
          String.ofList := by rw [hclose]
    _ = tokenizeShell piece ++ tokenizeShell rest := flush_foldl_tokenStep rest

/-- A piece with words behind the boundary has the words of both sides. -/
theorem pieceWords_append (hout : (tokenRun piece).Outside) (h : BetweenWords piece rest)
    (hrest : trimChars rest ≠ []) :
    pieceWords (piece ++ rest) = tokenizeShell piece ++ pieceWords rest := by
  obtain ⟨lead, trail, hsplit, hlead, htrail⟩ := exists_trim rest
  have hlast : ∀ ch, (piece ++ (lead ++ trimChars rest)).getLast? = some ch → isSpace ch = false := by
    intro ch hch
    rw [← List.append_assoc, List.getLast?_append_of_ne_nil _ hrest] at hch
    exact Js.getLast?_trimChars hch
  have htrim : trimChars (piece ++ rest) = trimChars (piece ++ (lead ++ trimChars rest)) := by
    conv_lhs => rw [hsplit, ← List.append_assoc lead, ← List.append_assoc,
      trimChars_append_blank htrail]
  have hbetween : BetweenWords piece (lead ++ trimChars rest) := by
    refine h.imp id fun hblank ch hch => hblank ch ?_
    rw [hsplit, ← List.append_assoc, List.head?_append, hch]
    rfl
  calc pieceWords (piece ++ rest)
      = tokenizeShell (trimChars (piece ++ (lead ++ trimChars rest))) := by rw [pieceWords, htrim]
    _ = tokenizeShell (piece ++ (lead ++ trimChars rest)) := tokenizeShell_trim hlast
    _ = tokenizeShell piece ++ tokenizeShell (lead ++ trimChars rest) :=
        tokenizeShell_append hout hbetween
    _ = tokenizeShell piece ++ pieceWords rest := by rw [tokenizeShell_blank hlead, pieceWords]

theorem trimChars_cons_blank {ch : Char} (hch : isSpace ch = true) (rest : List Char) :
    trimChars (ch :: rest) = trimChars rest := by
  rw [← List.singleton_append, trimChars_blank_append (List.forall_mem_singleton.mpr hch)]

theorem pieceWords_append_blank {ch : Char} (hch : isSpace ch = true) (hout : (tokenRun piece).Outside)
    (hrest : trimChars rest ≠ []) :
    pieceWords (piece ++ ch :: rest) = tokenizeShell piece ++ pieceWords rest := by
  have hbetween : BetweenWords piece (ch :: rest) := by
    right
    rintro first hfirst
    obtain rfl := Option.some.inj hfirst
    exact hch
  have hfilled : trimChars (ch :: rest) ≠ [] := by rwa [trimChars_cons_blank hch]
  rw [pieceWords_append hout hbetween hfilled]
  unfold pieceWords
  rw [trimChars_cons_blank hch]

/-- The plain text in front is open as the first word, or closed as one. -/
def LeadsWith (lead : List Char) (t : TokenState) : Prop :=
  (t.tokens = [] ∧ ∃ more, t.current = lead ++ more) ∨
    ∃ more tokens, t.tokens = (lead ++ more) :: tokens

theorem leadsWith_flush {lead : List Char} (h : LeadsWith lead t) : LeadsWith lead t.flush := by
  unfold TokenState.flush
  split
  · exact h
  · rcases h with ⟨htokens, more, hcurrent⟩ | ⟨more, tokens, htokens⟩
    · exact Or.inr ⟨more, [], by rw [htokens, hcurrent]; rfl⟩
    · exact Or.inr ⟨more, tokens ++ [t.current], by rw [htokens]; rfl⟩

theorem leadsWith_step {lead : List Char} {ch : Char} (h : LeadsWith lead t) :
    LeadsWith lead (tokenStep t ch) := by
  have happend : ∀ u : TokenState, u.tokens = t.tokens → u.current = t.current ++ [ch] →
      LeadsWith lead u := by
    rintro u htokens hcurrent
    rcases h with ⟨hnone, more, hopen⟩ | ⟨more, tokens, hclosed⟩
    · exact Or.inl ⟨htokens.trans hnone, more ++ [ch], by rw [hcurrent, hopen, List.append_assoc]⟩
    · exact Or.inr ⟨more, tokens, htokens.trans hclosed⟩
  unfold tokenStep
  split
  · exact happend _ rfl rfl
  · split
    · exact h
    · split
      · split
        · exact h
        · exact happend _ rfl rfl
      · split
        · exact h
        · split
          · exact leadsWith_flush h
          · exact happend _ rfl rfl

/-- A piece that starts with plain characters has a word that starts with them in front. -/
theorem pieceWords_lead {lead : List Char} (hne : lead ≠ []) (hlead : ∀ ch ∈ lead, IsPlain ch)
    (rest : List Char) :
    ∃ more words, pieceWords (lead ++ rest) = String.ofList (lead ++ more) :: words := by
  have hspace : ∀ ch ∈ lead, isSpace ch = false := fun ch hch => (hlead ch hch).1
  have hhead : ∀ text ch, (lead ++ text).head? = some ch → isSpace ch = false := by
    intro text ch hch
    rw [List.head?_append_of_ne_nil _ hne] at hch
    exact hspace ch (List.mem_of_mem_head? hch)
  have htrim : ∃ kept, trimChars (lead ++ rest) = lead ++ kept := by
    by_cases hblank : trimChars rest = []
    · refine ⟨[], ?_⟩
      rw [trimChars_append_blank (Js.isSpace_of_trimChars_nil hblank), List.append_nil]
      exact Js.trimChars_eq_self (by simpa using hhead [])
        fun ch hch => hspace ch (List.mem_of_mem_getLast? hch)
    · obtain ⟨blanks, trail, hsplit, -, htrail⟩ := exists_trim rest
      refine ⟨blanks ++ trimChars rest, ?_⟩
      conv_lhs => rw [hsplit, ← List.append_assoc blanks, ← List.append_assoc,
        trimChars_append_blank htrail]
      refine Js.trimChars_eq_self (hhead _) ?_
      intro ch hch
      rw [← List.append_assoc, List.getLast?_append_of_ne_nil _ hblank] at hch
      exact Js.getLast?_trimChars hch
  obtain ⟨kept, htrim⟩ := htrim
  have hread : lead.foldl tokenStep {} = { current := lead } := by
    have hword := @Word.foldl_tokenStep [] [] (Word.plain (String.ofList lead) (by simpa using hlead))
    rwa [Word.text_plain, Word.value_plain, String.toList_ofList, List.nil_append] at hword
  have hrun : LeadsWith lead (kept.foldl tokenStep { current := lead }) := by
    suffices h : ∀ t : TokenState, LeadsWith lead t → LeadsWith lead (kept.foldl tokenStep t) from
      h _ (Or.inl ⟨rfl, [], (List.append_nil _).symm⟩)
    clear htrim
    intro t ht
    induction kept generalizing t with
    | nil => exact ht
    | cons ch kept ih => exact ih _ (leadsWith_step ht)
  unfold pieceWords tokenizeShell
  rw [htrim, List.foldl_append, hread]
  -- the end closes the word that is open
  rcases hrun with ⟨htokens, more, hcurrent⟩ | ⟨more, tokens, htokens⟩
  · refine ⟨more, [], ?_⟩
    have hopen : lead ++ more ≠ [] := by simp [hne]
    unfold TokenState.flush
    rw [hcurrent, if_neg hopen, htokens]
    rfl
  · rcases leadsWith_flush (Or.inr ⟨more, tokens, htokens⟩) with ⟨hnone, -⟩ | ⟨more', tokens', hfirst⟩
    · unfold TokenState.flush at hnone
      split at hnone <;> simp [htokens] at hnone
    · exact ⟨more', tokens'.map String.ofList, by rw [hfirst]; rfl⟩

end Tokens

/-! ## The verdict on words -/

section Verdict

variable {env : GuardEnv} {cwd : String} {policy : SelfProtectionPolicy} {tokens front arguments : List String}
  {name : String}

/-- The guard finds a command among the words, and has a reason to refuse it. -/
def RefusedCommand (env : GuardEnv) (cwd : String) (policy : SelfProtectionPolicy)
    (tokens : List String) : Prop :=
  ∃ front name arguments, tokens = front ++ name :: arguments ∧
    commandWords tokens = name :: arguments ∧ Reason env cwd policy front name arguments

theorem refusedCommand_behind (h : commandWords (front ++ name :: arguments) = name :: arguments) :
    RefusedCommand env cwd policy (front ++ name :: arguments) ↔
      Reason env cwd policy front name arguments := by
  constructor
  · rintro ⟨front', name', arguments', htokens, hwords, hrefused⟩
    obtain ⟨rfl, rfl⟩ := List.cons.inj (h.symm.trans hwords)
    obtain rfl := List.append_cancel_right htokens
    exact hrefused
  · exact fun hrefused => ⟨front, name, arguments, rfl, h, hrefused⟩

theorem not_refusedCommand (h : commandWords tokens = []) : ¬ RefusedCommand env cwd policy tokens := by
  rintro ⟨front, name, arguments, -, hwords, -⟩
  rw [h] at hwords
  cases hwords

theorem refusesSegment_words (segment : List Char) :
    RefusesSegment env cwd policy segment ↔ RefusedCommand env cwd policy (tokenizeShell segment) := by
  cases hwords : commandWords (tokenizeShell segment) with
  | nil =>
    have hindex : findCommandTokenIndex (tokenizeShell segment) = none := by
      rw [findCommandTokenIndex_eq, if_pos hwords]
    refine iff_of_false ?_ (not_refusedCommand hwords)
    unfold RefusesSegment assertSegmentAllowed
    dsimp only
    rw [hindex]
    exact not_throws_ok
  | cons name arguments =>
    obtain ⟨front, hfront⟩ := commandWords_suffix (tokenizeShell segment)
    rw [hwords] at hfront
    rw [← hfront] at hwords ⊢
    rw [refusedCommand_behind hwords, ← refusesWords_iff]
    exact refusesSegment_iff hfront.symm (findCommandTokenIndex_behind hwords)

/-- A piece is refused when its words are; a blank piece has none. -/
theorem refuses_cleaned (piece : List Char) :
    (∃ segment ∈ cleaned piece, RefusesSegment env cwd policy segment) ↔
      RefusedCommand env cwd policy (pieceWords piece) := by
  rw [exists_cleaned, refusesSegment_words]
  refine and_iff_right_of_imp ?_
  rintro hrefused hblank
  rw [hblank] at hrefused
  exact not_refusedCommand rfl hrefused

end Verdict

/-! ## Texts between two parts of a command -/

section Parts

variable {env : GuardEnv} {cwd : String} {policy : SelfProtectionPolicy} {first second : String}
  {text more : List Char}

/-- The splitter keeps the text in the piece that it is in. -/
def StaysInPiece (text : List Char) : Prop :=
  ∀ out current, text.foldl splitStep { out := out, current := current } =
    { out := out, current := current ++ text }

theorem StaysInPiece.append (h : StaysInPiece text) (hmore : StaysInPiece more) :
    StaysInPiece (text ++ more) := by
  intro out current
  rw [List.foldl_append, h, hmore, List.append_assoc]

theorem StaysInPiece.of_chars (h : ∀ ch ∈ text, IsPlain ch ∨ isSpace ch = true) :
    StaysInPiece text := by
  intro out current
  induction text generalizing current with
  | nil => simp
  | cons ch text ih =>
    have hstep : splitStep { out := out, current := current } ch =
        { out := out, current := current ++ [ch] } :=
      (h ch (List.mem_cons_self ..)).elim splitStep_plain splitStep_space
    rw [List.foldl_cons, hstep, ih fun c hc => h c (List.mem_cons_of_mem _ hc), List.append_assoc]
    rfl

theorem Word.staysInPiece (word : Word) : StaysInPiece word.text :=
  fun _ _ => word.foldl_splitStep

/-- Such a text leaves the tokenizer outside quotes. -/
theorem StaysInPiece.outside (h : StaysInPiece text) : (tokenRun text).Outside := by
  have hrun : splitRun text = { current := text } := h [] []
  have hmode := sameMode_splitRun text
  rw [hrun] at hmode
  exact hmode

theorem splitStep_blank {s : SplitState} (hout : s.Outside) (hfresh : s.Fresh) :
    splitStep s ' ' = { out := s.out, current := s.current ++ [' '] } := by
  have hskip : s.skip ≠ some ' ' := fun hskip => absurd (hfresh _ hskip).1 (by decide)
  obtain ⟨out, current, quote, escaped, skip⟩ := s
  obtain ⟨rfl, rfl⟩ := hout
  dsimp only at hskip
  simp [splitStep, hskip, isBreak]

/-- The splitter behind the first part, with a blank and a text behind it. -/
theorem splitRun_text (h : EndsOutside first) (htext : StaysInPiece text) :
    splitRun (first.toList ++ ' ' :: text) =
      { out := (splitRun first.toList).out, current := lastPiece first ++ ' ' :: text } := by
  have hblank := splitStep_blank h (splitRun_fresh first.toList)
  unfold lastPiece
  rw [splitRun, List.foldl_append, List.foldl_cons]
  change text.foldl splitStep (splitStep (splitRun first.toList) ' ') = _
  rw [hblank, htext, List.append_assoc]
  rfl

/-- Behind a text the splitter reads the rest from its current piece on. -/
theorem segments_behind {out : List (List Char)} {current : List Char} (second : String) :
    (second.toList.foldl splitStep { out := out, current := current }).segments =
      out ++ cleaned (current ++ firstPiece second) ++
        splitShellSegments (cutFirst {} second.toList).2 := by
  have hcut := @cutFirst_congr { out := out, current := current } {} rfl rfl rfl rfl second.toList
  rw [segments_cutFirst rfl, hcut]
  rfl

theorem segments_parts (h : EndsOutside first) (second : String) :
    splitShellSegments (first ++ second).toList =
      (splitRun first.toList).out ++ cleaned (lastPiece first ++ firstPiece second) ++
        splitShellSegments (cutFirst {} second.toList).2 := by
  have hout : (splitRun first.toList).Outside := h
  have hfresh := splitRun_fresh first.toList
  have hbehind := @segments_behind (splitRun first.toList).out (lastPiece first) second
  rw [String.toList_append, splitShellSegments_append, ← hbehind]
  unfold lastPiece
  generalize splitRun first.toList = s at hout hfresh
  cases hskip : s.skip with
  | none =>
    obtain ⟨out, current, quote, escaped, skip⟩ := s
    obtain ⟨rfl, rfl⟩ := hout
    obtain rfl : skip = none := hskip
    rfl
  | some ch =>
    -- the operator is behind the first part, so its piece is empty
    obtain ⟨-, hcurrent, -⟩ := hfresh ch hskip
    rw [hcurrent]
    exact @segments_idle s { out := s.out } hout ⟨rfl, rfl⟩ hfresh (fresh_of_skip_none rfl) hcurrent
      rfl rfl second.toList

/-- The command is refused for a segment that the boundary does not touch, or for the words at the
boundary. -/
theorem refuses_parts (henabled : policy.enabled = true) (h : EndsOutside first) (second : String) :
    Refuses env cwd policy (first ++ second) ↔
      (∃ segment ∈ otherSegments first second, RefusesSegment env cwd policy segment) ∨
        RefusedCommand env cwd policy (pieceWords (lastPiece first ++ firstPiece second)) := by
  rw [refuses_iff henabled, segments_parts h, exists_segment, refuses_cleaned]
  rfl

/-- A text that stays in its piece joins the words on both sides. -/
theorem refuses_joined (henabled : policy.enabled = true) (h : EndsOutside first)
    (htext : StaysInPiece text) (second : String) :
    Refuses env cwd policy (first ++ " " ++ String.ofList text ++ " " ++ second) ↔
      (∃ segment ∈ otherSegments first second, RefusesSegment env cwd policy segment) ∨
        RefusedCommand env cwd policy
          (pieceWords (lastPiece first ++ ' ' :: (text ++ ' ' :: firstPiece second))) := by
  have htoList : (first ++ " " ++ String.ofList text ++ " " ++ second).toList =
      (first.toList ++ ' ' :: (text ++ [' '])) ++ second.toList := by
    simp
  have hblank : StaysInPiece [' '] := StaysInPiece.of_chars (by decide)
  rw [refuses_iff henabled, htoList, splitShellSegments_append, splitRun_text h (htext.append hblank),
    segments_behind, exists_segment, refuses_cleaned]
  simp [otherSegments]

/-- An operator in the text parts the words. -/
theorem refuses_parted (henabled : policy.enabled = true) (h : EndsOutside first)
    (htext : StaysInPiece text) {ch : Char} (hch : isBreak ch = true) (hmore : StaysInPiece more)
    (second : String) :
    Refuses env cwd policy (first ++ " " ++ String.ofList (text ++ ch :: more) ++ " " ++ second) ↔
      (∃ segment ∈ otherSegments first second, RefusesSegment env cwd policy segment) ∨
        RefusedCommand env cwd policy (pieceWords (lastPiece first ++ ' ' :: text)) ∨
          RefusedCommand env cwd policy (pieceWords (more ++ ' ' :: firstPiece second)) := by
  have htoList : (first ++ " " ++ String.ofList (text ++ ch :: more) ++ " " ++ second).toList =
      (first.toList ++ ' ' :: text) ++ ch :: ((more ++ [' ']) ++ second.toList) := by
    simp
  have hblank : StaysInPiece [' '] := StaysInPiece.of_chars (by decide)
  have hrun := splitRun_text h htext
  have hrest : splitShellSegments ((more ++ [' ']) ++ second.toList) =
      cleaned (more ++ ' ' :: firstPiece second) ++
        splitShellSegments (cutFirst {} second.toList).2 := by
    have hmoreRun := (hmore.append hblank) [] []
    rw [splitShellSegments_append, splitRun, hmoreRun, segments_behind]
    simp
  have hsegments : splitShellSegments ((first.toList ++ ' ' :: text) ++
        ch :: ((more ++ [' ']) ++ second.toList)) =
      (splitRun first.toList).out ++ cleaned (lastPiece first ++ ' ' :: text) ++
        (cleaned (more ++ ' ' :: firstPiece second) ++
          splitShellSegments (cutFirst {} second.toList).2) := by
    rw [splitShellSegments_append, segments_break (hrun ▸ ⟨rfl, rfl⟩) (splitRun_fresh _) hch, hrest,
      hrun]
    rfl
  rw [refuses_iff henabled, htoList, hsegments, exists_segment, ← List.append_assoc, exists_segment,
    refuses_cleaned, refuses_cleaned, or_assoc, or_comm (a := RefusedCommand _ _ _ _)]
  rfl

end Parts

end T560.Guard
