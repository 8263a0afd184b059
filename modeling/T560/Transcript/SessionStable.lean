import T560.Js.Serial
import T560.Transcript.SessionFile

/-!
# Saving and loading a session

A sanitized transcript is a fixed point of the sanitizer, so that loading a saved session
returns what was written. Cutting the front of a paired transcript orphans at most the
results it then starts with.
-/

namespace T560.Transcript

open Js (Value)

/-- What `repairToolCallInputs` makes of one message: nothing is left of a message all of whose
blocks are malformed calls. -/
def repairedInput (msg : Message) : Option Message :=
  if isAssistant msg = true ∧ callsWellFormed msg = false then
    let nextContent := ((contentBlocks msg).getD []).filter fun b => !isMalformedCall b
    if nextContent.isEmpty then none else some (msg.set "content" (.arr nextContent))
  else some msg

section Inputs

theorem repairedInput_wellFormed {msg : Message}
    (h : isAssistant msg = true → callsWellFormed msg = true) : repairedInput msg = some msg := by
  apply if_neg
  rintro ⟨ha, hw⟩
  rw [h ha] at hw
  cases hw

theorem repairInputStep_malformed {st : InputRepair} {msg : Message} (ha : isAssistant msg = true)
    (hw : callsWellFormed msg = false) :
    (repairInputStep st msg).report.messages = st.report.messages ++ (repairedInput msg).toList ∧
      (repairInputStep st msg).changed = true := by
  cases hb : contentBlocks msg with
  | none => simp [callsWellFormed, hb] at hw
  | some blocks =>
    have hdropped : 0 < (blocks.filter isMalformedCall).length := by
      rw [List.length_pos_iff, Ne, List.filter_eq_nil_iff]
      intro hnone
      rw [callsWellFormed, hb, Option.getD_some, List.all_eq_false] at hw
      obtain ⟨b, hbm, hmal⟩ := hw
      exact hnone b hbm (by simpa using hmal)
    simp only [repairInputStep, ha, hb, Bool.not_true, Bool.false_eq_true, if_false, gt_iff_lt,
      hdropped, if_true, repairedInput, hw, and_self, Option.getD_some]
    split
    · exact ⟨by simp [InputRepair.dropMessage, InputRepair.dropCalls], rfl⟩
    · exact ⟨by simp [InputRepair.push, InputRepair.dropCalls], rfl⟩

theorem foldl_repairInputStep_messages (ms : List Message) (st : InputRepair) :
    (ms.foldl repairInputStep st).report.messages =
      st.report.messages ++ ms.filterMap repairedInput := by
  induction ms generalizing st with
  | nil => simp
  | cons m ms ih =>
    rw [List.foldl_cons, ih]
    by_cases hbad : isAssistant m = true ∧ callsWellFormed m = false
    · rw [(repairInputStep_malformed hbad.1 hbad.2).1, List.append_assoc]
      cases hr : repairedInput m <;> simp [hr]
    · have hfine : isAssistant m = true → callsWellFormed m = true := by
        intro ha
        simpa using fun hw => hbad ⟨ha, hw⟩
      rw [repairInputStep_wellFormed hfine]
      simp [repairedInput_wellFormed hfine, InputRepair.push]

theorem foldl_repairInputStep_changed (ms : List Message) {st : InputRepair}
    (h : st.changed = true) : (ms.foldl repairInputStep st).changed = true := by
  induction ms generalizing st with
  | nil => exact h
  | cons m ms ih =>
    rw [List.foldl_cons]
    apply ih
    by_cases hbad : isAssistant m = true ∧ callsWellFormed m = false
    · exact (repairInputStep_malformed hbad.1 hbad.2).2
    · rw [repairInputStep_wellFormed fun ha => by simpa using fun hw => hbad ⟨ha, hw⟩]
      exact h

/-- With nothing malformed the original list is returned, and the repaired one equals it. -/
theorem repairToolCallInputs_messages (ms : List Message) :
    (repairToolCallInputs ms).messages = ms.filterMap repairedInput := by
  by_cases hall : ∀ m ∈ ms, isAssistant m = true → callsWellFormed m = true
  · rw [repairToolCallInputs_wellFormed hall, eq_comm]
    have hsome : ∀ m ∈ ms, repairedInput m = some m :=
      fun m hm => repairedInput_wellFormed (hall m hm)
    rw [List.filterMap_congr hsome, List.filterMap_some]
  · have hchanged : ∀ st : InputRepair, (ms.foldl repairInputStep st).changed = true := by
      intro st
      push Not at hall
      obtain ⟨m, hm, ha, hw⟩ := hall
      obtain ⟨before, after, rfl⟩ := List.append_of_mem hm
      rw [List.foldl_append, List.foldl_cons]
      exact foldl_repairInputStep_changed _ (repairInputStep_malformed ha (by simpa using hw)).2
    rw [repairToolCallInputs]
    dsimp only
    rw [hchanged, if_pos rfl, foldl_repairInputStep_messages]
    rfl

/-- A repaired message is the message itself, or the message with the part of its blocks that
is well formed. -/
theorem repairedInput_cases {x m : Message} (h : repairedInput x = some m) :
    (m = x ∧ (isAssistant x = true → callsWellFormed x = true)) ∨
      ∃ blocks next, contentBlocks x = some blocks ∧ next ≠ [] ∧
        next = (blocks.filter fun b => !isMalformedCall b) ∧ m = x.set "content" (.arr next) := by
  unfold repairedInput at h
  split at h
  · next hbad =>
    right
    cases hb : contentBlocks x with
    | none => simp [callsWellFormed, hb] at hbad
    | some blocks =>
      rw [hb, Option.getD_some] at h
      dsimp only at h
      split at h
      · cases h
      · next hne =>
        exact ⟨blocks, _, rfl, by simpa using hne, rfl, (Option.some.inj h).symm⟩
  · next hfine =>
    left
    refine ⟨(Option.some.inj h).symm, fun ha => ?_⟩
    simpa using fun hw => hfine ⟨ha, hw⟩

/-- Repairing leaves neither a stub nor a malformed call. -/
theorem repairedInput_clean {x m : Message} (hx : isProviderErrorAssistantStub x = false)
    (h : repairedInput x = some m) :
    isProviderErrorAssistantStub m = false ∧ (isAssistant m = true → callsWellFormed m = true) := by
  rcases repairedInput_cases h with ⟨rfl, hw⟩ | ⟨blocks, next, hb, hne, hnext, rfl⟩
  · exact ⟨hx, hw⟩
  · have hcontent := contentBlocks_set (isRecord_of_contentBlocks hb) next
    constructor
    · simp [isProviderErrorAssistantStub, hcontent, hne]
    · intro _
      rw [callsWellFormed, hcontent, Option.getD_some, List.all_eq_true, hnext]
      exact fun b hbm => (List.mem_filter.mp hbm).2

end Inputs

section Sanitize

theorem sanitize_eq (ms : List Message) :
    sanitizeSessionTranscript ms =
      (repairToolUseResultPairing false (fun _ => 0)
        ((ms.filter fun m => !isProviderErrorAssistantStub m).filterMap repairedInput)).messages := by
  rw [sanitizeSessionTranscript, repairToolCallInputs_messages]
  exact dropWhile_of_answered (repair_answered _ _ _)

theorem repair_messages_subperm (clock : Nat → ℚ) (ms : List Message) :
    (repairToolUseResultPairing false clock ms).messages.Subperm ms := by
  rw [repair_messages]
  split
  · obtain ⟨t, hout, ht⟩ := repairFrom_out_subperm clock ms {}
    rw [hout]
    exact ht
  · exact .refl _

theorem mem_sanitize {ms : List Message} {m : Message} (h : m ∈ sanitizeSessionTranscript ms) :
    ∃ x ∈ ms, isProviderErrorAssistantStub x = false ∧ repairedInput x = some m := by
  rw [sanitize_eq] at h
  obtain ⟨x, hx, hm⟩ := List.mem_filterMap.mp ((repair_messages_subperm _ _).subset h)
  rw [List.mem_filter, Bool.not_eq_true'] at hx
  exact ⟨x, hx.1, hx.2, hm⟩

theorem length_sanitize_le (ms : List Message) :
    (sanitizeSessionTranscript ms).length ≤ ms.length := by
  rw [sanitize_eq]
  calc (repairToolUseResultPairing false (fun _ => 0)
          ((ms.filter fun m => !isProviderErrorAssistantStub m).filterMap
            repairedInput)).messages.length
      ≤ ((ms.filter fun m => !isProviderErrorAssistantStub m).filterMap repairedInput).length :=
        (repair_messages_subperm _ _).length_le
    _ ≤ (ms.filter fun m => !isProviderErrorAssistantStub m).length := List.length_filterMap_le _ _
    _ ≤ ms.length := List.length_filter_le _ _

/-- A sanitized transcript has no stub and no malformed call, and its pairing is settled. -/
theorem sanitize_idempotent (ms : List Message) :
    sanitizeSessionTranscript (sanitizeSessionTranscript ms) = sanitizeSessionTranscript ms := by
  have hclean : ∀ m ∈ sanitizeSessionTranscript ms, isProviderErrorAssistantStub m = false ∧
      (isAssistant m = true → callsWellFormed m = true) := by
    intro m hm
    obtain ⟨x, -, hx, hxm⟩ := mem_sanitize hm
    exact repairedInput_clean hx hxm
  rw [sanitize_eq_repair (fun m hm => (hclean m hm).1) (fun m hm => (hclean m hm).2), sanitize_eq,
    repair_idempotent]

end Sanitize

section Cut

theorem answeredFrom_of_append {ids : List String} (before : List Message) {ms : List Message}
    (h : answeredFrom ids (before ++ ms)) : ∃ ids', answeredFrom ids' ms := by
  induction before generalizing ids with
  | nil => exact ⟨ids, h⟩
  | cons m before ih =>
    rw [List.cons_append, answeredFrom] at h
    split at h
    · exact ih h.2
    · exact ih h

theorem answeredFrom_of_head {ids : List String} {ms : List Message} (h : answeredFrom ids ms)
    (hhead : ∀ m, ms.head? = some m → isToolResult m = false) : answeredFrom [] ms := by
  cases ms with
  | nil => trivial
  | cons m ms =>
    rw [answeredFrom, hhead m rfl] at h ⊢
    exact h

theorem runs_suffix (before ms : List Message) : runs ms <:+ runs (before ++ ms) := by
  induction before with
  | nil => exact List.suffix_rfl
  | cons m before ih =>
    rw [List.cons_append, runs]
    split
    · exact ih.trans (List.suffix_cons _ _)
    · exact ih

/-- What is left of a paired transcript behind a cut is paired, if it starts with no result. -/
theorem PairedInOrder.of_append {before ms : List Message} (h : PairedInOrder (before ++ ms))
    (hhead : ∀ m, ms.head? = some m → isToolResult m = false) : PairedInOrder ms := by
  have hsuffix := runs_suffix before ms
  obtain ⟨ids, hans⟩ :=
    answeredFrom_of_append before ((answered_iff_answeredFrom _).mp h.answered)
  refine ⟨fun m hm => h.noStub m (List.mem_append_right _ hm),
    fun m hm => h.wellFormed m (List.mem_append_right _ hm),
    (answered_iff_answeredFrom _).mpr (answeredFrom_of_head hans hhead),
    fun t ht => h.inOrder t (hsuffix.subset ht), ?_⟩
  obtain ⟨front, hfront⟩ := hsuffix
  have hunique := h.unique
  rw [allCallIds, ← hfront, List.flatMap_append] at hunique
  exact (List.nodup_append.mp hunique).2.1

/-- Leading results are orphans: the repair drops them and goes on as before. -/
theorem repairFrom_leading_results {clock : Nat → ℚ} (lead rest : List Message)
    (hlead : ∀ m ∈ lead, isToolResult m = true) (st : PairingState) :
    ∃ st' : PairingState, st'.out = st.out ∧ st'.seenToolResultIds = st.seenToolResultIds ∧
      repairFrom false clock (lead ++ rest) 0 st = repairFrom false clock rest 0 st' := by
  induction lead generalizing st with
  | nil => exact ⟨st, rfl, rfl, rfl⟩
  | cons m lead ih =>
    have hm := hlead m (by simp)
    have hquiet : isCalling m = false := by
      by_contra hc
      rw [not_toolResult_of_assistant (isCalling_isAssistant (by simpa using hc))] at hm
      cases hm
    obtain ⟨st', hout, hseen, hrun⟩ := ih (fun x hx => hlead x (by simp [hx])) st.dropOrphan
    refine ⟨st', hout, hseen, ?_⟩
    rw [List.cons_append, repairFrom_other hquiet, if_pos hm, hrun]

theorem sanitize_of_suffix {before ms : List Message} (h : PairedInOrder (before ++ ms)) :
    sanitizeSessionTranscript ms = ms.dropWhile isToolResult := by
  have hstub : ∀ m ∈ ms, isProviderErrorAssistantStub m = false :=
    fun m hm => h.noStub m (List.mem_append_right _ hm)
  have hwell : ∀ m ∈ ms, isAssistant m = true → callsWellFormed m = true :=
    fun m hm => h.wellFormed m (List.mem_append_right _ hm)
  rw [sanitize_eq_repair hstub hwell]
  have hanswered := repair_answered false (fun _ => 0) ms
  rw [repair_messages] at hanswered ⊢
  by_cases hc : (repairFrom false (fun _ => 0) ms 0 {}).changed = true
  · rw [if_pos hc]
    set lead := ms.takeWhile isToolResult with hlead
    set rest := ms.dropWhile isToolResult with hrest
    have hms : lead ++ rest = ms := List.takeWhile_append_dropWhile
    have hpaired : PairedInOrder rest := by
      rw [← hms, ← List.append_assoc] at h
      apply h.of_append
      intro m hm
      have := List.head?_dropWhile_not isToolResult ms
      rw [← hrest, hm] at this
      simpa using this
    obtain ⟨st', hout, hseen, hrun⟩ := @repairFrom_leading_results (fun _ => 0) lead rest
      (fun m hm => List.mem_takeWhile_imp hm) {}
    rw [← hms, hrun, repairFrom_settled hpaired.settled st' hseen, hout]
    rfl
  · rw [if_neg hc] at hanswered ⊢
    exact (dropWhile_of_answered hanswered).symm

end Cut

/-- A JSON object with a role. -/
def isJsonMessage (msg : Message) : Bool :=
  msg.isJson && msg.isRecord && (msg.get? "role").isSome

/-- Session files whose parser reads back every value that can be written. -/
structure JsonSessionEnv extends SessionEnv where
  round_trip : Js.RoundTrips parse pretty

section Json

theorem isJson_set_content {x : Message} {blocks next : List Value} (hx : x.isJson = true)
    (hb : contentBlocks x = some blocks) (hnext : ∀ b ∈ next, b.isJson = true) :
    (x.set "content" (.arr next)).isJson = true := by
  have harr : (Value.arr next).isJson = true := by
    rw [Value.isJson]
    exact Value.areJson_iff.mpr hnext
  have hrecord := isRecord_of_contentBlocks hb
  cases x with
  | obj fields =>
    rw [Value.isJson_obj_iff] at hx
    have hsome : (fields.lookup "content").isSome = true := by
      cases hl : fields.lookup "content" with
      | some v => rfl
      | none => simp [contentBlocks, Value.get?, hl] at hb
    have hmap : (fields.map fun f => if f.1 == "content" then (f.1, Value.arr next) else f) =
        fields.map fun f => (f.1, if f.1 == "content" then Value.arr next else f.2) := by
      apply List.map_congr_left
      intro f _
      split <;> rfl
    rw [Value.set, if_pos hsome, hmap, Value.isJson_obj_iff]
    refine ⟨?_, ?_, ?_⟩
    · intro f hf
      obtain ⟨g, hg, rfl⟩ := List.mem_map.mp hf
      dsimp only
      split
      · exact harr
      · exact hx.1 g hg
    · rw [List.map_map]
      exact hx.2.1
    · rw [Js.PropertyMap.entries_mapWith, hx.2.2]
  | _ => cases hrecord

theorem isJson_of_contentBlocks {x : Message} {blocks : List Value} (hx : x.isJson = true)
    (hb : contentBlocks x = some blocks) : ∀ b ∈ blocks, b.isJson = true := by
  have hrecord := isRecord_of_contentBlocks hb
  cases x with
  | obj fields =>
    rw [Value.isJson_obj_iff] at hx
    rw [contentBlocks, Value.get?] at hb
    cases hl : fields.lookup "content" with
    | none =>
      rw [hl] at hb
      cases hb
    | some v =>
      rw [hl] at hb
      have hv := hx.1 _ (Js.PropertyMap.mem_of_lookup hl)
      cases v with
      | arr items =>
        cases hb
        rw [Value.isJson] at hv
        exact Value.areJson_iff.mp hv
      | _ => cases hb
  | _ => cases hrecord

theorem isJsonMessage_repairedInput {x m : Message} (hx : isJsonMessage x = true)
    (h : repairedInput x = some m) : isJsonMessage m = true := by
  rcases repairedInput_cases h with ⟨rfl, -⟩ | ⟨blocks, next, hb, -, hnext, rfl⟩
  · exact hx
  · simp only [isJsonMessage, Bool.and_eq_true] at hx ⊢
    obtain ⟨⟨hjson, hrecord⟩, hrole⟩ := hx
    refine ⟨⟨isJson_set_content hjson hb ?_, ?_⟩, ?_⟩
    · intro b hbm
      rw [hnext] at hbm
      exact isJson_of_contentBlocks hjson hb b (List.mem_filter.mp hbm).1
    · cases x with
      | obj fields =>
        rw [Value.set]
        split <;> rfl
      | _ => cases hrecord
    · rw [Value.get?_set hrecord, if_neg (by decide)]
      exact hrole

theorem isJsonMessage_sanitize {ms : List Message} (h : ∀ m ∈ ms, isJsonMessage m = true) :
    ∀ m ∈ sanitizeSessionTranscript ms, isJsonMessage m = true := by
  intro m hm
  obtain ⟨x, hx, -, hxm⟩ := mem_sanitize hm
  exact isJsonMessage_repairedInput (h x hx) hxm

theorem coerceMessageArray_messages {ms : List Message}
    (h : ∀ m ∈ ms, isJsonMessage m = true) : coerceMessageArray (.arr ms) = ms := by
  rw [coerceMessageArray, List.filter_eq_self]
  intro m hm
  have hmsg := h m hm
  simp only [isJsonMessage, Bool.and_eq_true] at hmsg
  cases m with
  | obj fields => exact hmsg.2
  | _ => cases hmsg.1.2

end Json

theorem trimTranscript_suffix (ms : List Message) : trimTranscript ms <:+ ms := by
  unfold trimTranscript
  split
  · exact List.drop_suffix _ _
  · exact List.suffix_rfl

theorem length_trimTranscript_le (ms : List Message) :
    (trimTranscript ms).length ≤ MAX_SESSION_MESSAGES := by
  unfold trimTranscript
  split
  · rw [List.length_drop]
    omega
  · omega

theorem isJsonMessage_persisted {ms : List Message} (h : ∀ m ∈ ms, isJsonMessage m = true) :
    ∀ m ∈ persistedMessages ms, isJsonMessage m = true :=
  isJsonMessage_sanitize fun m hm =>
    isJsonMessage_sanitize h m ((trimTranscript_suffix _).subset hm)

theorem load_saved (env : JsonSessionEnv) (sessionId : String) (files : Files) {ms : List Message}
    (h : ∀ m ∈ ms, isJsonMessage m = true) :
    loadSession env.toSessionEnv sessionId
        (saveSessionMessages env.toSessionEnv sessionId ms files) = persistedMessages ms := by
  have hpersisted := isJsonMessage_persisted h
  have hjson : (Value.arr (persistedMessages ms)).isJson = true := by
    rw [Value.isJson]
    apply Value.areJson_iff.mpr
    intro m hm
    have := hpersisted m hm
    simp only [isJsonMessage, Bool.and_eq_true] at this
    exact this.1.1
  have hparse : env.parse (sessionText env.toSessionEnv ms) =
      some (.arr (persistedMessages ms)) := env.round_trip.parse_json hjson
  rw [loadSession, saveSessionMessages, Function.update_self, loadSessionMessages,
    Option.bind_some, hparse]
  dsimp only
  rw [coerceMessageArray_messages hpersisted]
  exact sanitize_idempotent _

theorem persisted_suffix {ms : List Message} (h : PairedInOrder ms) :
    persistedMessages ms <:+ ms := by
  have hself : sanitizeSessionTranscript ms = ms := by
    have hms : PairedInOrder ([] ++ ms) := h
    rw [sanitize_of_suffix hms, dropWhile_of_answered h.answered]
  obtain ⟨before, hbefore⟩ := trimTranscript_suffix ms
  have hcut : PairedInOrder (before ++ trimTranscript ms) := hbefore.symm ▸ h
  rw [persistedMessages, hself, sanitize_of_suffix hcut]
  exact (List.dropWhile_suffix _).trans (trimTranscript_suffix ms)

/-- A saved session is loaded as it was written: at most forty messages, the first of them no
tool result, and the end of the transcript when that was paired in call order. -/
theorem saved_session_loads_unchanged (env : JsonSessionEnv) (sessionId : String) (files : Files)
    (xs : List Message) (hxs : ∀ m ∈ xs, isJsonMessage m = true) :
    loadSession env.toSessionEnv sessionId
        (saveSessionMessages env.toSessionEnv sessionId xs files) = persistedMessages xs ∧
      (persistedMessages xs).length ≤ MAX_SESSION_MESSAGES ∧
      (∀ m, (persistedMessages xs).head? = some m → isToolResult m = false) ∧
      (PairedInOrder xs → persistedMessages xs <:+ xs) := by
  refine ⟨load_saved env sessionId files hxs, ?_, ?_, persisted_suffix⟩
  · exact (length_sanitize_le _).trans (length_trimTranscript_le _)
  · intro m hm
    exact answeredFrom_nil_head ((answered_iff_answeredFrom _).mp (sanitize_answered _)) hm

theorem jsonSessionEnv_nonempty : Nonempty JsonSessionEnv := by
  obtain ⟨parse, stringify, h⟩ := Js.exists_roundTrips
  exact ⟨{
    sessionsDir := "sessions"
    parse := parse
    pretty := stringify
    parse_pretty := fun v hv => h.parse_json (Value.isJson_of_isPlain v hv)
    round_trip := h }⟩

/-- A turn and a greeting are saved and loaded. -/
theorem saved_turns_load_unchanged :
    ∃ env : JsonSessionEnv, PairedInOrder [callMessage "a", resultMessage "a", greeting] ∧
      loadSession env.toSessionEnv "webchat:a"
          (saveSessionMessages env.toSessionEnv "webchat:a"
            [callMessage "a", resultMessage "a", greeting] fun _ => none) =
        persistedMessages [callMessage "a", resultMessage "a", greeting] ∧
      persistedMessages [callMessage "a", resultMessage "a", greeting] <:+
        [callMessage "a", resultMessage "a", greeting] := by
  obtain ⟨env⟩ := jsonSessionEnv_nonempty
  have hhealthy : Healthy [callMessage "a", resultMessage "a", greeting] := by decide
  have hpaired := hhealthy.pairedInOrder (by decide)
  obtain ⟨hload, -, -, hsuffix⟩ := saved_session_loads_unchanged env "webchat:a" (fun _ => none)
    [callMessage "a", resultMessage "a", greeting] (by decide)
  exact ⟨env, hpaired, hload, hsuffix hpaired⟩

end T560.Transcript
