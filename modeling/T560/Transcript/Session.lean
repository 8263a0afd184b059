import T560.Transcript.RepairStable

/-!
# Session transcripts

`sanitizeSessionTranscript` and the loading of a stored session. Without synthetic
results the repair never reads the clock.
-/

namespace T560.Transcript

open Js (Value)

def isProviderErrorAssistantStub (msg : Message) : Bool :=
  isAssistant msg && msg.get? "stopReason" == some (.str "error") &&
    !(match contentBlocks msg with
      | some blocks => !blocks.isEmpty
      | none => false)

def sanitizeSessionTranscript (messages : List Message) : List Message :=
  let withoutErrorStubs := messages.filter fun m => !isProviderErrorAssistantStub m
  let repairedInputs := (repairToolCallInputs withoutErrorStubs).messages
  let repairedPairing := (repairToolUseResultPairing false (fun _ => 0) repairedInputs).messages
  repairedPairing.dropWhile isToolResult

def coerceMessageArray (raw : Value) : List Message :=
  match raw with
  | .arr items => items.filter fun item =>
      match item with
      | .obj fields => (fields.lookup "role").isSome
      | _ => false
  | _ => []

/-- The session file is absent or holds a text; a text `parse` rejects counts as no session. -/
def loadSessionMessages (parse : String → Option Value) (file : Option String) : List Message :=
  match file.bind parse with
  | some raw => sanitizeSessionTranscript (coerceMessageArray raw)
  | none => []

/-- No call of the message lacks its input, its id or its name. -/
def callsWellFormed (msg : Message) : Bool :=
  ((contentBlocks msg).getD []).all fun b => !isMalformedCall b

/-- A transcript without damage: no stub, well-formed calls with ids distinct within their
message, and behind every assistant message one result per call, in call order. -/
structure Healthy (ms : List Message) : Prop where
  noStub : ∀ m ∈ ms, isAssistant m = true → stoppedEarly m = false
  wellFormed : ∀ m ∈ ms, isAssistant m = true → callsWellFormed m = true
  distinct : ∀ t ∈ runs ms, (callIds t.1).Nodup
  inOrder : ∀ t ∈ runs ms, t.2.map extractToolResultId = (callIds t.1).map some
  answered : Answered ms

/-- The ids of every call of every assistant message, in order. -/
def allCallIds (ms : List Message) : List String := (runs ms).flatMap fun t => callIds t.1

/-- A paired transcript in call order: no empty error stub, well-formed calls, every result in
the run of its caller, no run out of call order, and no call id twice. -/
structure PairedInOrder (ms : List Message) : Prop where
  noStub : ∀ m ∈ ms, isProviderErrorAssistantStub m = false
  wellFormed : ∀ m ∈ ms, isAssistant m = true → callsWellFormed m = true
  answered : Answered ms
  inOrder : ∀ t ∈ runs ms, (resultIds t.2).Sublist (callIds t.1)
  unique : (allCallIds ms).Nodup

theorem repairInputStep_wellFormed {st : InputRepair} {msg : Message}
    (h : isAssistant msg = true → callsWellFormed msg = true) :
    repairInputStep st msg = st.push msg := by
  by_cases ha : isAssistant msg = true
  · cases hb : contentBlocks msg with
    | none => simp [repairInputStep, ha, hb]
    | some blocks =>
      have hnone : blocks.filter isMalformedCall = [] :=
        List.filter_eq_nil_iff.mpr fun b hbm => by
          have := h ha
          simp only [callsWellFormed, hb, Option.getD_some, List.all_eq_true] at this
          simpa using this b hbm
      simp [repairInputStep, ha, hb, hnone]
  · simp [repairInputStep, ha]

theorem repairToolCallInputs_wellFormed {ms : List Message}
    (h : ∀ m ∈ ms, isAssistant m = true → callsWellFormed m = true) :
    (repairToolCallInputs ms).messages = ms := by
  have hfold : ∀ st : InputRepair, (ms.foldl repairInputStep st).changed = st.changed := by
    induction ms with
    | nil => intro st; rfl
    | cons m ms ih =>
      intro st
      rw [List.foldl_cons, repairInputStep_wellFormed (h m (by simp)),
        ih (fun x hx => h x (by simp [hx]))]
      rfl
  simp [repairToolCallInputs, hfold]

theorem not_stub_of_not_stopped {m : Message}
    (h : isAssistant m = true → stoppedEarly m = false) :
    isProviderErrorAssistantStub m = false := by
  by_cases ha : isAssistant m = true
  · have hs := h ha
    simp only [stoppedEarly, Bool.or_eq_false_iff] at hs
    simp [isProviderErrorAssistantStub, hs.1]
  · simp [isProviderErrorAssistantStub, ha]

theorem filter_stubs_eq_self {ms : List Message}
    (h : ∀ m ∈ ms, isProviderErrorAssistantStub m = false) :
    ms.filter (fun m => !isProviderErrorAssistantStub m) = ms := by
  apply List.filter_eq_self.mpr
  intro m hm
  rw [h m hm]
  rfl

theorem dropWhile_of_answered {ms : List Message} (h : Answered ms) :
    ms.dropWhile isToolResult = ms := by
  have hhead := fun m hm =>
    answeredFrom_nil_head ((answered_iff_answeredFrom _).mp h) (m := m) hm
  cases ms with
  | nil => rfl
  | cons m ms => simp [hhead m rfl]

theorem repair_answered (allow : Bool) (clock : Nat → ℚ) (ms : List Message) :
    Answered (repairToolUseResultPairing allow clock ms).messages := by
  rw [repair_messages]
  by_cases hc : (repairFrom allow clock ms 0 {}).changed = true
  · simpa only [hc, if_true] using (repair_rebuilt_wellPaired ms).1
  · have hu := (repair_unchanged_iff allow clock ms).mp (by simpa using hc)
    simpa only [hc, Bool.false_eq_true, if_false] using hu.answered

/-- Every result of a sanitized transcript stands in the run of its caller, so the final
strip of leading results removes nothing. -/
theorem sanitize_answered (ms : List Message) : Answered (sanitizeSessionTranscript ms) := by
  unfold sanitizeSessionTranscript
  rw [dropWhile_of_answered (repair_answered _ _ _)]
  exact repair_answered _ _ _

theorem answered_nil : Answered [] := (answered_iff_answeredFrom _).mpr trivial

theorem load_answered (parse : String → Option Value) (file : Option String) :
    Answered (loadSessionMessages parse file) := by
  unfold loadSessionMessages
  split
  · exact sanitize_answered _
  · exact answered_nil

/-- On a transcript without stubs and malformed calls only the pairing repair is left. -/
theorem sanitize_eq_repair {ms : List Message}
    (hs : ∀ m ∈ ms, isProviderErrorAssistantStub m = false)
    (hw : ∀ m ∈ ms, isAssistant m = true → callsWellFormed m = true) :
    sanitizeSessionTranscript ms =
      (repairToolUseResultPairing false (fun _ => 0) ms).messages := by
  simp only [sanitizeSessionTranscript, filter_stubs_eq_self hs,
    repairToolCallInputs_wellFormed hw]
  exact dropWhile_of_answered (repair_answered _ _ _)

theorem healthy_iff (ms : List Message) :
    Healthy ms ↔ (∀ m ∈ ms, isAssistant m = true → stoppedEarly m = false) ∧
      (∀ m ∈ ms, isAssistant m = true → callsWellFormed m = true) ∧
      (∀ t ∈ runs ms, (callIds t.1).Nodup) ∧
      (∀ t ∈ runs ms, t.2.map extractToolResultId = (callIds t.1).map some) ∧ Answered ms :=
  ⟨fun ⟨h1, h2, h3, h4, h5⟩ => ⟨h1, h2, h3, h4, h5⟩, fun ⟨h1, h2, h3, h4, h5⟩ => ⟨h1, h2, h3, h4, h5⟩⟩

instance (ms : List Message) : Decidable (Healthy ms) := decidable_of_iff _ (healthy_iff ms).symm

theorem resultIds_inOrder {run : List Message} {ids : List String}
    (h : run.map extractToolResultId = ids.map some) : resultIds run = ids := by
  have : resultIds run = (run.map extractToolResultId).filterMap id := by
    simp [resultIds, List.filterMap_map]
  rw [this, h]
  simp [List.filterMap_map]

/-- In an answered transcript the results are those of the runs. -/
theorem allResultIds_eq_runs {ids : List String} {ms : List Message} (h : answeredFrom ids ms) :
    allResultIds ms =
      resultIds (ms.takeWhile isToolResult) ++ (runs ms).flatMap fun t => resultIds t.2 := by
  induction ms generalizing ids with
  | nil => rfl
  | cons m ms ih =>
    rw [← List.singleton_append, allResultIds_append]
    by_cases hm : isToolResult m = true
    · simp only [answeredFrom, hm, if_true] at h
      have he : expectsResults m = false := by
        by_contra he
        simp only [Bool.not_eq_false] at he
        simp [expectsResults_not_toolResult he] at hm
      rw [ih h.2, allResultIds_of_results (by simpa using hm)]
      obtain ⟨id, -, hid⟩ := h.1
      simp [runs, he, hm, resultIds, hid]
    · simp only [answeredFrom, hm, Bool.false_eq_true, if_false] at h
      have hm' : isToolResult m = false := by simpa using hm
      rw [ih h, allResultIds_eq_nil (by simpa using hm')]
      by_cases he : expectsResults m = true
      · simp [runs, he, hm', resultIds]
      · simp only [he, Bool.false_eq_true, if_false] at h
        have hrun := takeWhile_eq_nil_of_head fun x hx => answeredFrom_nil_head h hx
        simp [runs, he, hm', hrun, resultIds]

theorem allResultIds_healthy {ms : List Message} (h : Healthy ms) :
    allResultIds ms = allCallIds ms := by
  have hans := (answered_iff_answeredFrom _).mp h.answered
  have hrun := takeWhile_eq_nil_of_head fun x hx => answeredFrom_nil_head hans hx
  rw [allResultIds_eq_runs hans, hrun, allCallIds]
  simp only [resultIds, List.filterMap_nil, List.nil_append]
  exact List.flatMap_congr fun t ht => resultIds_inOrder (h.inOrder t ht)

/-- Behind its run an answered span holds no further result. -/
theorem not_result_after_run {ids : List String} {span : List Message}
    (hspan : ∀ m ∈ span, isAssistant m = false) (h : answeredFrom ids span) :
    ∀ m ∈ span.dropWhile isToolResult, isToolResult m = false := by
  induction span generalizing ids with
  | nil => simp
  | cons x span ih =>
    have ih' := fun {ids} h => @ih ids (fun y hy => hspan y (by simp [hy])) h
    by_cases hx : isToolResult x = true
    · simp only [answeredFrom, hx, if_true] at h
      simpa [hx] using ih' h.2
    · have he : expectsResults x = false := by simp [expectsResults, hspan x (by simp)]
      simp only [answeredFrom, hx, he, Bool.false_eq_true, if_false] at h
      have hrun : span.dropWhile isToolResult = span := by
        have hhead := fun y hy => answeredFrom_nil_head h (m := y) hy
        cases span with
        | nil => rfl
        | cons y span => simp [hhead y rfl]
      have := ih' h
      rw [hrun] at this
      simpa [hx] using this

theorem answers_of_run {ids : List String} {span : List Message} (h : answeredFrom ids span) :
    ∀ r ∈ span.takeWhile isToolResult, isToolResult r = true ∧ Answers ids r := by
  induction span with
  | nil => simp
  | cons m span ih =>
    intro r hr
    by_cases hm : isToolResult m = true
    · simp only [answeredFrom, hm, if_true] at h
      rw [List.takeWhile_cons_of_pos hm] at hr
      rcases List.mem_cons.mp hr with rfl | hr
      · exact ⟨hm, h.1⟩
      · exact ih h.2 r hr
    · rw [List.takeWhile_cons_of_neg hm] at hr
      cases hr

/-- Results whose ids are a part of the distinct call ids stand in call order. -/
theorem inCallOrder_of_sublist {ids : List String} {rs : List Message} (hnd : ids.Nodup)
    (hids : ∀ r ∈ rs, ∃ id, extractToolResultId r = some id)
    (h : (resultIds rs).Sublist ids) : InCallOrder ids rs := by
  induction ids generalizing rs with
  | nil =>
    cases rs with
    | nil => exact .nil
    | cons r rs =>
      obtain ⟨id, hid⟩ := hids r (by simp)
      rw [resultIds_cons rs hid] at h
      cases h
  | cons id ids ih =>
    obtain ⟨hnew, hnd'⟩ := List.nodup_cons.mp hnd
    by_cases hin : id ∈ resultIds rs
    · cases rs with
      | nil => simp [resultIds] at hin
      | cons r rs =>
        obtain ⟨id', hid'⟩ := hids r (by simp)
        rw [resultIds_cons rs hid'] at h hin
        cases h with
        | cons _ h => exact (hnew (h.subset hin)).elim
        | cons_cons _ h => exact .take hid' (ih hnd' (fun x hx => hids x (by simp [hx])) h)
    · refine .skip hin (ih hnd' hids ?_)
      rcases List.sublist_cons_iff.mp h with h | ⟨tail, heq, -⟩
      · exact h
      · rw [heq] at hin
        exact (hin List.mem_cons_self).elim

/-- A paired transcript in call order is settled. -/
theorem settled_of_answered {seen : List String} (ms : List Message) (hans : answeredFrom [] ms)
    (horder : ∀ t ∈ runs ms, (resultIds t.2).Sublist (callIds t.1))
    (hnd : (allCallIds ms).Nodup) (hfresh : ∀ id ∈ allCallIds ms, id ∉ seen) :
    Settled false seen ms := by
  induction ms using turn_induction generalizing seen with
  | nil => exact .nil
  | other m rest hm ih =>
    have hr := answeredFrom_nil_head hans (m := m) rfl
    have hcall : (if expectsResults m then callIds m else []) = [] := by
      by_cases he : expectsResults m = true
      · simp [he, callIds_eq_nil_of_not_calling hm he]
      · simp [he]
    have hrest : answeredFrom [] rest := by simpa [answeredFrom, hr, hcall] using hans
    have hsub : ∀ t ∈ runs rest, t ∈ runs (m :: rest) := by
      intro t ht
      by_cases he : expectsResults m = true <;> simp [runs, he, ht]
    have hids : allCallIds (m :: rest) = allCallIds rest := by
      by_cases he : expectsResults m = true
      · simp [allCallIds, runs, he, callIds_eq_nil_of_not_calling hm he]
      · simp [allCallIds, runs, he]
    rw [hids] at hnd hfresh
    exact .other hm hr (ih hrest (fun t ht => horder t (hsub t ht)) hnd hfresh)
  | turn caller span rest hc hspan hrest ih =>
    have he := isCalling_expectsResults hc
    have hruns := runs_turn hspan hrest hc
    simp only [answeredFrom, expectsResults_not_toolResult he, he, Bool.false_eq_true, if_false,
      if_true, answeredFrom_append_rest hspan hrest] at hans
    rw [hruns] at horder
    obtain ⟨ho, horder⟩ := List.forall_mem_cons.mp horder
    have hids : allCallIds (caller :: (span ++ rest)) = callIds caller ++ allCallIds rest := by
      simp [allCallIds, hruns]
    rw [hids] at hnd hfresh
    obtain ⟨hndc, hndr, hdisj⟩ := List.nodup_append.mp hnd
    have hrun := answers_of_run hans.1
    rw [← List.takeWhile_append_dropWhile (p := isToolResult) (l := span), List.append_assoc]
    refine .turn hc ⟨hrun, hndc.sublist ho, ?_, ?_, by simp⟩ ?_ hrest
      (ih hans.2 horder hndr ?_)
    · exact fun id hid => hfresh id (List.mem_append_left _ (ho.subset hid))
    · refine inCallOrder_of_sublist hndc (fun r hr => ?_) ho
      obtain ⟨-, id, -, hid⟩ := hrun r hr
      exact ⟨id, hid⟩
    · intro m hm
      exact ⟨not_result_after_run hspan hans.1 m hm,
        hspan m ((List.dropWhile_suffix _).subset hm)⟩
    · intro id hid hin
      rcases List.mem_append.mp hin with hin | hin
      · exact hfresh id (List.mem_append_right _ hid) hin
      · exact hdisj id (ho.subset hin) id hid rfl

theorem PairedInOrder.settled {ms : List Message} (h : PairedInOrder ms) : Settled false [] ms :=
  settled_of_answered ms ((answered_iff_answeredFrom _).mp h.answered) h.inOrder h.unique (by simp)

theorem Healthy.pairedInOrder {ms : List Message} (h : Healthy ms) (hu : (allCallIds ms).Nodup) :
    PairedInOrder ms := by
  refine ⟨fun m hm => not_stub_of_not_stopped (h.noStub m hm), h.wellFormed, h.answered, ?_, hu⟩
  intro t ht
  rw [resultIds_inOrder (h.inOrder t ht)]

/-- On a healthy transcript the sanitizer is the identity exactly when no id recurs: the
repair drops every result whose id an earlier turn already answered. -/
theorem sanitize_healthy_iff {ms : List Message} (h : Healthy ms) :
    sanitizeSessionTranscript ms = ms ↔ (allCallIds ms).Nodup := by
  rw [sanitize_eq_repair (fun m hm => not_stub_of_not_stopped (h.noStub m hm)) h.wellFormed,
    repair_messages]
  constructor
  · intro heq
    by_cases hc : (repairFrom false (fun _ => 0) ms 0 {}).changed = true
    · simp only [hc, if_true] at heq
      obtain ⟨t, hout, -, hnd, -⟩ :=
        repairFrom_out false (fun _ => 0) ms {}
      rw [heq, List.nil_append] at hout
      rwa [← hout, allResultIds_healthy h] at hnd
    · have hu := (repair_unchanged_iff false (fun _ => 0) ms).mp
        (by simpa using hc)
      rw [allCallIds, List.nodup_flatMap]
      refine ⟨h.distinct, hu.once.imp_of_mem fun {t u} ht hu' hdisj => ?_⟩
      rw [resultIds_inOrder (h.inOrder t ht), resultIds_inOrder (h.inOrder u hu')] at hdisj
      exact fun id hid hid' => hdisj id hid hid'
  · intro hnd
    split_ifs
    · simpa using repairFrom_settled (h.pairedInOrder hnd).settled {} rfl
    · rfl

def callMessage (id : String) : Message :=
  .obj [("role", .str "assistant"),
    ("content", .arr [.obj [("type", .str "toolCall"), ("id", .str id), ("name", .str "exec"),
      ("arguments", .obj [])]])]

def resultMessage (id : String) : Message :=
  .obj [("role", .str "toolResult"), ("toolCallId", .str id), ("toolName", .str "exec"),
    ("content", .arr []), ("isError", .bool false)]

theorem sanitize_healthy_two_turns :
    Healthy [callMessage "a", resultMessage "a", callMessage "b", resultMessage "b"] ∧
      sanitizeSessionTranscript
          [callMessage "a", resultMessage "a", callMessage "b", resultMessage "b"] =
        [callMessage "a", resultMessage "a", callMessage "b", resultMessage "b"] :=
  ⟨by decide, (sanitize_healthy_iff (by decide)).mpr (by decide)⟩

/-- The second turn reuses an id and loses its result. -/
theorem sanitize_drops_recurring_id :
    Healthy [callMessage "a", resultMessage "a", callMessage "a", resultMessage "a"] ∧
      sanitizeSessionTranscript
          [callMessage "a", resultMessage "a", callMessage "a", resultMessage "a"] =
        [callMessage "a", resultMessage "a", callMessage "a"] := by
  decide

end T560.Transcript
