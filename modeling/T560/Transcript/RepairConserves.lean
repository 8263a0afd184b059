import T560.Transcript.RepairStable

/-!
# What the repair keeps

The repair moves and drops results only. Every other message stays in its place among
the others, and a result of the rebuilt list stood in the input or is one that the
repair made and lists.
-/

namespace T560.Transcript

variable {allow : Bool} {clock : Nat → ℚ}

/-- The results made for some calls, one after the other, behind `n` made before. -/
def syntheticResults (clock : Nat → ℚ) : Nat → List ToolCallLike → List Message
  | _, [] => []
  | n, c :: calls =>
    makeMissingToolResult (clock n) c.id c.name :: syntheticResults clock (n + 1) calls

@[simp]
theorem length_syntheticResults (clock : Nat → ℚ) (n : Nat) (calls : List ToolCallLike) :
    (syntheticResults clock n calls).length = calls.length := by
  induction calls generalizing n with
  | nil => rfl
  | cons c calls ih => simp [syntheticResults, ih]

theorem syntheticResults_append (clock : Nat → ℚ) (n : Nat) (cs ds : List ToolCallLike) :
    syntheticResults clock n (cs ++ ds) =
      syntheticResults clock n cs ++ syntheticResults clock (n + cs.length) ds := by
  induction cs generalizing n with
  | nil => rfl
  | cons c cs ih =>
    have hn : n + 1 + cs.length = n + (c :: cs).length := by
      simp only [List.length_cons]
      omega
    rw [List.cons_append, syntheticResults, ih, hn, syntheticResults, List.cons_append]

theorem mem_syntheticResults {n : Nat} {calls : List ToolCallLike} {m : Message}
    (h : m ∈ syntheticResults clock n calls) :
    ∃ k c, n ≤ k ∧ c ∈ calls ∧ m = makeMissingToolResult (clock k) c.id c.name := by
  induction calls generalizing n with
  | nil => cases h
  | cons c calls ih =>
    rcases List.mem_cons.mp h with rfl | h
    · exact ⟨n, c, le_refl n, List.mem_cons_self, rfl⟩
    · obtain ⟨k, d, hk, hd, rfl⟩ := ih h
      exact ⟨k, d, by omega, List.mem_cons_of_mem c hd, rfl⟩

theorem made_mem_syntheticResults (clock : Nat → ℚ) (n : Nat) {calls : List ToolCallLike}
    {c : ToolCallLike} (h : c ∈ calls) :
    ∃ k, n ≤ k ∧
      makeMissingToolResult (clock k) c.id c.name ∈ syntheticResults clock n calls := by
  induction calls generalizing n with
  | nil => cases h
  | cons d calls ih =>
    rcases List.mem_cons.mp h with rfl | h
    · exact ⟨n, le_refl n, List.mem_cons_self⟩
    · obtain ⟨k, hk, hin⟩ := ih (n + 1) h
      exact ⟨k, by omega, List.mem_cons_of_mem _ hin⟩

section Push
variable {results : List (String × Message)}

@[simp]
theorem pushToolResult_added (st : PairingState) (m : Message) :
    (st.pushToolResult m).added = st.added := by
  unfold PairingState.pushToolResult
  split
  · split_ifs <;> rfl
  · rfl

theorem pushToolResult_out (st : PairingState) (m : Message) :
    (st.pushToolResult m).out = st.out ∨ (st.pushToolResult m).out = st.out ++ [m] := by
  unfold PairingState.pushToolResult
  split
  · split_ifs
    · exact .inl rfl
    · exact .inr rfl
  · exact .inr rfl

/-- The calls without a result in the span, when missing results are made. -/
def lacking (allow : Bool) (results : List (String × Message)) (calls : List ToolCallLike) :
    List ToolCallLike :=
  if allow then calls.filter fun c => (results.lookup c.id).isNone else []

theorem pushResultOf_added (st : PairingState) (c : ToolCallLike) :
    (pushResultOf allow clock results st c).added =
      st.added ++ syntheticResults clock st.added.length (lacking allow results [c]) := by
  unfold pushResultOf
  cases hl : results.lookup c.id with
  | some m => simp [lacking, hl, syntheticResults]
  | none => cases allow <;> simp [lacking, hl, syntheticResults]

theorem foldl_pushResultOf_added (calls : List ToolCallLike) (st : PairingState) :
    (calls.foldl (pushResultOf allow clock results) st).added =
      st.added ++ syntheticResults clock st.added.length (lacking allow results calls) := by
  induction calls generalizing st with
  | nil => simp [lacking, syntheticResults]
  | cons c calls ih =>
    have hcons : lacking allow results (c :: calls) =
        lacking allow results [c] ++ lacking allow results calls := by
      unfold lacking
      split_ifs
      · rw [← List.filter_append, List.singleton_append]
      · rfl
    rw [List.foldl_cons, ih, pushResultOf_added, hcons, syntheticResults_append,
      List.length_append, length_syntheticResults, List.append_assoc]

/-- The output grew by messages that were found in the span or are listed as added. -/
def GrewBy (results : List (String × Message)) (st res : PairingState) : Prop :=
  ∃ rs, res.out = st.out ++ rs ∧ ∀ r ∈ rs, (∃ id, results.lookup id = some r) ∨ r ∈ res.added

theorem grewBy_pushToolResult {st st' : PairingState} {m : Message} (hout : st'.out = st.out)
    (hm : (∃ id, results.lookup id = some m) ∨ m ∈ st'.added) :
    GrewBy results st (st'.pushToolResult m) := by
  rcases pushToolResult_out st' m with h | h
  · exact ⟨[], by rw [h, hout, List.append_nil], by simp⟩
  · refine ⟨[m], by rw [h, hout], ?_⟩
    simpa using hm

theorem grewBy_pushResultOf (st : PairingState) (c : ToolCallLike) :
    GrewBy results st (pushResultOf allow clock results st c) := by
  unfold pushResultOf
  cases hl : results.lookup c.id with
  | some m => exact grewBy_pushToolResult rfl (.inl ⟨c.id, hl⟩)
  | none =>
    cases allow with
    | true =>
      -- The missing result is listed before it is pushed.
      exact grewBy_pushToolResult rfl (.inr (by simp))
    | false => exact ⟨[], by simp, by simp⟩

theorem grewBy_foldl (calls : List ToolCallLike) (st : PairingState) :
    GrewBy results st (calls.foldl (pushResultOf allow clock results) st) := by
  induction calls generalizing st with
  | nil => exact ⟨[], by simp, by simp⟩
  | cons c calls ih =>
    obtain ⟨xs, hxs, hx⟩ := @grewBy_pushResultOf allow clock results st c
    obtain ⟨ys, hys, hy⟩ := ih (pushResultOf allow clock results st c)
    rw [List.foldl_cons]
    refine ⟨xs ++ ys, by rw [hys, hxs, List.append_assoc], fun r hr => ?_⟩
    rcases List.mem_append.mp hr with hr | hr
    · rcases hx r hr with hfound | hadded
      · exact .inl hfound
      · refine .inr ?_
        rw [foldl_pushResultOf_added]
        exact List.mem_append_left _ hadded
    · exact hy r hr

end Push

section Turn
variable {caller : Message} {st : PairingState} {span : List Message}

theorem openTurn_added (caller : Message) (st : PairingState) (span : List Message) :
    (openTurn caller (scanTurn caller st span)).added = st.added := by
  have hs : ScanSpec (callIds caller) { state := st } span (scanTurn caller st span) :=
    scan_spec _ _ _
  unfold openTurn
  split_ifs <;> exact hs.added

/-- The calls of a turn for which results are made. -/
def lackingCalls (allow : Bool) (caller : Message) (seen : List String) (span : List Message) :
    List ToolCallLike :=
  if allow then
    (extractToolCallsFromAssistant caller).filter fun c =>
      (firstResult (callIds caller) seen span c.id).isNone
  else []

theorem closeTurn_added (allow : Bool) (clock : Nat → ℚ) (caller : Message) (st : PairingState)
    (span : List Message) :
    (closeTurn allow clock caller (extractToolCallsFromAssistant caller)
        (scanTurn caller st span)).added =
      st.added ++ syntheticResults clock st.added.length
        (lackingCalls allow caller st.seenToolResultIds span) := by
  have hlack : lacking allow (scanTurn caller st span).spanResultsById
      (extractToolCallsFromAssistant caller) =
        lackingCalls allow caller st.seenToolResultIds span := by
    simp only [lacking, lackingCalls, scanTurn_lookup]
  simp only [closeTurn]
  rw [foldl_pushResultOf_added, openTurn_added, hlack]

/-- A result of a closed turn stood in the span or is listed as added. -/
theorem closeTurn_result {rs : List Message}
    (h : ClosedTurn allow caller st span
      (closeTurn allow clock caller (extractToolCallsFromAssistant caller)
        (scanTurn caller st span)) rs) {r : Message} (hr : r ∈ rs) :
    r ∈ span ∨ r ∈ (closeTurn allow clock caller (extractToolCallsFromAssistant caller)
      (scanTurn caller st span)).added := by
  have hs : ScanSpec (callIds caller) { state := st } span (scanTurn caller st span) :=
    scan_spec _ _ _
  obtain ⟨xs, hxs, hx⟩ := @grewBy_foldl allow clock (scanTurn caller st span).spanResultsById
    (extractToolCallsFromAssistant caller) (openTurn caller (scanTurn caller st span))
  have heq : xs = rs := by
    have hout := h.out
    simp only [closeTurn] at hout
    rw [hxs, (openTurn_spec caller hs).1, hs.remainder] at hout
    simpa using hout
  subst heq
  rcases hx r hr with ⟨id, hl⟩ | hadded
  · rw [scanTurn_lookup] at hl
    exact .inl (firstResult_spec hl).1
  · exact .inr hadded

end Turn

/-- The messages that are no results. -/
def others (ms : List Message) : List Message := ms.filter fun m => !isToolResult m

theorem others_of_results {rs : List Message} (h : ∀ r ∈ rs, isToolResult r = true) :
    others rs = [] := by
  apply List.filter_eq_nil_iff.mpr
  intro r hr
  simp [h r hr]

theorem others_append (xs ys : List Message) : others (xs ++ ys) = others xs ++ others ys :=
  List.filter_append _ _

@[simp]
theorem others_others (ms : List Message) : others (others ms) = others ms := by
  simp [others]

theorem otherStep_added (st : PairingState) (m : Message) :
    (if isToolResult m then st.dropOrphan else st.push m).added = st.added := by
  split_ifs <;> rfl

theorem otherStep_seen (st : PairingState) (m : Message) :
    (if isToolResult m then st.dropOrphan else st.push m).seenToolResultIds =
      st.seenToolResultIds := by
  split_ifs <;> rfl

/-- The results made in a run, with the message that called for each. -/
theorem repairFrom_added (allow : Bool) (clock : Nat → ℚ) (ms : List Message)
    (st : PairingState) :
    ∃ calls, (repairFrom allow clock ms 0 st).added =
        st.added ++ syntheticResults clock st.added.length calls ∧
      ∀ c ∈ calls, allow = true ∧
        ∃ caller ∈ ms, isCalling caller = true ∧ c ∈ extractToolCallsFromAssistant caller := by
  induction ms using turn_induction generalizing st with
  | nil => exact ⟨[], by simp [repairFrom, syntheticResults], by simp⟩
  | other m rest hm ih =>
    rw [repairFrom_other hm]
    obtain ⟨calls, hcalls, hof⟩ := ih (if isToolResult m then st.dropOrphan else st.push m)
    rw [otherStep_added] at hcalls
    refine ⟨calls, hcalls, fun c hc => ?_⟩
    obtain ⟨ha, caller, hin, hcaller⟩ := hof c hc
    exact ⟨ha, caller, List.mem_cons_of_mem m hin, hcaller⟩
  | turn caller span rest hc hspan hrest ih =>
    rw [repairFrom_turn hspan hrest hc]
    obtain ⟨calls, hcalls, hof⟩ := ih (closeTurn allow clock caller
      (extractToolCallsFromAssistant caller) (scanTurn caller st span))
    refine ⟨lackingCalls allow caller st.seenToolResultIds span ++ calls, ?_, fun c hmem => ?_⟩
    · rw [hcalls, closeTurn_added, List.length_append, length_syntheticResults, List.append_assoc,
        syntheticResults_append]
    · rcases List.mem_append.mp hmem with hmem | hmem
      · unfold lackingCalls at hmem
        split_ifs at hmem with ha
        · exact ⟨ha, caller, by simp, hc, (List.mem_filter.mp hmem).1⟩
        · cases hmem
      · obtain ⟨ha, x, hin, hx⟩ := hof c hmem
        exact ⟨ha, x, by simp [hin], hx⟩

/-- The rebuilt list, up to the results: nothing is lost, changed or reordered, and each
result has a source. -/
theorem repairFrom_conserves (allow : Bool) (clock : Nat → ℚ) (ms : List Message)
    (st : PairingState) :
    ∃ t, (repairFrom allow clock ms 0 st).out = st.out ++ t ∧ others t = others ms ∧
      ∀ r ∈ t, isToolResult r = true → r ∈ ms ∨ r ∈ (repairFrom allow clock ms 0 st).added := by
  induction ms using turn_induction generalizing st with
  | nil => exact ⟨[], by simp [repairFrom], rfl, by simp⟩
  | other m rest hm ih =>
    rw [repairFrom_other hm]
    by_cases hr : isToolResult m = true
    · rw [if_pos hr]
      obtain ⟨t, hout, hothers, hfrom⟩ := ih st.dropOrphan
      refine ⟨t, hout, by simpa [others, hr] using hothers, fun r hin hres => ?_⟩
      rcases hfrom r hin hres with h | h
      · exact .inl (List.mem_cons_of_mem m h)
      · exact .inr h
    · rw [if_neg hr]
      obtain ⟨t, hout, hothers, hfrom⟩ := ih (st.push m)
      refine ⟨m :: t, by rw [hout]; simp [PairingState.push], by simpa [others, hr] using hothers,
        fun r hin hres => ?_⟩
      rcases List.mem_cons.mp hin with rfl | hin
      · exact (hr hres).elim
      · rcases hfrom r hin hres with h | h
        · exact .inl (List.mem_cons_of_mem m h)
        · exact .inr h
  | turn caller span rest hc hspan hrest ih =>
    rw [repairFrom_turn hspan hrest hc]
    obtain ⟨rs, hs⟩ := closeTurn_closed allow clock caller st span
    have hsource := fun r hr => closeTurn_result hs (r := r) hr
    generalize closeTurn allow clock caller (extractToolCallsFromAssistant caller)
      (scanTurn caller st span) = mid at hs hsource ⊢
    obtain ⟨t, hout, hothers, hfrom⟩ := ih mid
    obtain ⟨calls, hadded, -⟩ := repairFrom_added allow clock rest mid
    have hcaller := not_toolResult_of_assistant (isCalling_isAssistant hc)
    refine ⟨caller :: (rs ++ (others span ++ t)), ?_, ?_, fun r hin hres => ?_⟩
    · rw [hout, hs.out]
      simp [others]
    · have hcons : ∀ xs, others (caller :: xs) = caller :: others xs := by
        intro xs
        simp [others, hcaller]
      rw [hcons, hcons, others_append, others_append, others_append, others_others, hothers,
        others_of_results fun x hx => (hs.results.result x hx).1, List.nil_append]
    · rcases List.mem_cons.mp hin with rfl | hin
      · rw [hcaller] at hres
        cases hres
      · rcases List.mem_append.mp hin with hin | hin
        · rcases hsource r hin with h | h
          · exact .inl (by simp [h])
          · refine .inr ?_
            rw [hadded]
            exact List.mem_append_left _ h
        · rcases List.mem_append.mp hin with hin | hin
          · exact .inl (by simp [(List.mem_filter.mp hin).1])
          · rcases hfrom r hin hres with h | h
            · exact .inl (by simp [h])
            · exact .inr h

/-- A result that the repair made for a call of the transcript. -/
def IsSynthesized (clock : Nat → ℚ) (ms : List Message) (r : Message) : Prop :=
  ∃ caller ∈ ms, ∃ c ∈ extractToolCallsFromAssistant caller, ∃ n,
    r = makeMissingToolResult (clock n) c.id c.name

/-- The repair keeps every message that is no result in its order, takes its results from the
input or makes them, and leaves alone what it returned. -/
theorem repair_conserves (allow : Bool) (clock clock' : Nat → ℚ) (ms : List Message) :
    others (repairToolUseResultPairing allow clock ms).messages = others ms ∧
    (∀ r ∈ (repairToolUseResultPairing allow clock ms).messages, isToolResult r = true →
      r ∈ ms ∨ allow = true ∧ IsSynthesized clock ms r) ∧
    (repairToolUseResultPairing allow clock'
        (repairToolUseResultPairing allow clock ms).messages).messages =
      (repairToolUseResultPairing allow clock ms).messages := by
  refine ⟨?_, ?_, repair_idempotent allow clock clock' ms⟩ <;> rw [repair_messages] <;> split_ifs
  · obtain ⟨t, hout, hothers, -⟩ := repairFrom_conserves allow clock ms {}
    rw [hout, List.nil_append, hothers]
  · rfl
  · obtain ⟨t, hout, -, hfrom⟩ := repairFrom_conserves allow clock ms {}
    obtain ⟨calls, hadded, hof⟩ := repairFrom_added allow clock ms {}
    intro r hr hres
    rw [hout, List.nil_append] at hr
    rcases hfrom r hr hres with h | h
    · exact .inl h
    · rw [hadded] at h
      obtain ⟨k, c, -, hc, rfl⟩ := mem_syntheticResults (by simpa using h)
      obtain ⟨ha, caller, hin, -, hcall⟩ := hof c hc
      exact .inr ⟨ha, caller, hin, c, hcall, k, rfl⟩
  · intro r hr _
    exact .inl hr

end T560.Transcript
