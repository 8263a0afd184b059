import T560.Transcript.RepairConserves

/-!
# Every call answered

With synthetic results allowed the repair answers every call exactly when no id is called
by two messages: a result made for an id that was answered before is dropped as a
duplicate, although the report lists it. Inside one message the same happens to an id that
is called twice and answered nowhere.
-/

namespace T560.Transcript

variable {clock : Nat → ℚ}

/-- Every call has its result in the run directly behind the message that makes it. -/
def AnswersEveryCall (ms : List Message) : Prop :=
  ∀ t ∈ runs ms, ∀ id ∈ callIds t.1, id ∈ resultIds t.2

instance (ms : List Message) : Decidable (AnswersEveryCall ms) :=
  inferInstanceAs (Decidable (∀ t ∈ runs ms, ∀ id ∈ callIds t.1, id ∈ resultIds t.2))

/-- Each message that expects results, with everything up to the next assistant message. -/
def spans : List Message → List (Message × List Message)
  | [] => []
  | m :: rest => if expectsResults m then (m, spanOf rest) :: spans rest else spans rest

/-- The ids of the results of a span. -/
def answeredIds (span : List Message) : List String := resultIds (span.filter isToolResult)

/-- The calls of a message that no result of its span answers. -/
def unansweredCalls (t : Message × List Message) : List ToolCallLike :=
  (extractToolCallsFromAssistant t.1).filter fun c => c.id ∉ answeredIds t.2

/-- Two messages call no id in common. -/
def CallsApart (a b : Message) : Prop := ∀ id ∈ callIds a, id ∉ callIds b

/-- No id is called by two messages, and an id that one message calls twice has a result in
its span. -/
structure DistinctCalls (ms : List Message) : Prop where
  acrossTurns : (ms.filter expectsResults).Pairwise CallsApart
  withinTurn : ∀ t ∈ spans ms, ((unansweredCalls t).map (·.id)).Nodup

theorem map_fst_runs (ms : List Message) : (runs ms).map Prod.fst = ms.filter expectsResults := by
  induction ms with
  | nil => rfl
  | cons m ms ih =>
    by_cases he : expectsResults m = true
    · simp [runs, he, ih]
    · simp [runs, he, ih]

theorem filter_expectsResults_others (ms : List Message) :
    (others ms).filter expectsResults = ms.filter expectsResults := by
  rw [others, List.filter_filter]
  apply List.filter_congr
  intro m _
  by_cases he : expectsResults m = true
  · simp [he, expectsResults_not_toolResult he]
  · simp [he]

theorem takeWhile_results_append {rs ms : List Message} (hr : ∀ r ∈ rs, isToolResult r = true)
    (hm : ∀ m ∈ ms, isToolResult m = false) : (rs ++ ms).takeWhile isToolResult = rs := by
  rw [List.takeWhile_append_of_pos hr,
    takeWhile_eq_nil_of_head fun m h => hm m (List.mem_of_head? h), List.append_nil]

theorem filter_expectsResults_turn {caller : Message} {span rest : List Message}
    (hc : isCalling caller = true) (hspan : ∀ m ∈ span, isAssistant m = false) :
    (caller :: (span ++ rest)).filter expectsResults = caller :: rest.filter expectsResults := by
  have hnone : span.filter expectsResults = [] := by
    apply List.filter_eq_nil_iff.mpr
    intro m hm
    simp [expectsResults, hspan m hm]
  rw [List.filter_cons_of_pos (isCalling_expectsResults hc), List.filter_append, hnone,
    List.nil_append]

/-- Behind the given ids every turn calls new ids. -/
structure FreshCalls (seen : List String) (ms : List Message) : Prop where
  apart : (ms.filter expectsResults).Pairwise CallsApart
  fresh : ∀ m ∈ ms.filter expectsResults, ∀ id ∈ callIds m, id ∉ seen

theorem freshCalls_iff {seen : List String} {ms : List Message} :
    FreshCalls seen ms ↔ (ms.filter expectsResults).Pairwise CallsApart ∧
      ∀ m ∈ ms.filter expectsResults, ∀ id ∈ callIds m, id ∉ seen :=
  ⟨fun h => ⟨h.apart, h.fresh⟩, fun h => ⟨h.1, h.2⟩⟩

/-- A settled transcript answers every call when its messages call nothing in common with each
other or with what was answered before. -/
theorem answersEveryCall_settled {seen : List String} {ms : List Message}
    (h : Settled true seen ms) :
    AnswersEveryCall ms ↔ FreshCalls seen ms := by
  induction h with
  | nil => exact iff_of_true (by simp [AnswersEveryCall, runs]) ⟨by simp, by simp⟩
  | @other seen m rest hm hr _ ih =>
    by_cases he : expectsResults m = true
    · have hids := callIds_eq_nil_of_not_calling hm he
      have hruns : AnswersEveryCall (m :: rest) ↔ AnswersEveryCall rest := by
        simp [AnswersEveryCall, runs, he, hids]
      rw [hruns, ih, freshCalls_iff, freshCalls_iff, List.filter_cons_of_pos he,
        List.pairwise_cons, List.forall_mem_cons]
      simp [CallsApart, hids]
    · have hruns : AnswersEveryCall (m :: rest) ↔ AnswersEveryCall rest := by
        simp [AnswersEveryCall, runs, he]
      rw [hruns, ih, freshCalls_iff, freshCalls_iff, List.filter_cons_of_neg he]
  | @turn seen caller rs quiet rest hc hrs hq hnext _ ih =>
    have he := isCalling_expectsResults hc
    have hspan : ∀ m ∈ rs ++ quiet, isAssistant m = false := by
      intro m hm
      rcases List.mem_append.mp hm with hm | hm
      · exact not_assistant_of_toolResult (hrs.result m hm).1
      · exact (hq m hm).2
    have hruns : runs (caller :: (rs ++ (quiet ++ rest))) = (caller, rs) :: runs rest := by
      rw [← List.append_assoc, runs_turn hspan hnext hc,
        takeWhile_results_append (fun r hr => (hrs.result r hr).1) fun m hm => (hq m hm).1]
    have hfilter : (caller :: (rs ++ (quiet ++ rest))).filter expectsResults =
        caller :: rest.filter expectsResults := by
      rw [← List.append_assoc, filter_expectsResults_turn hc hspan]
    have hcalled : ∀ id ∈ resultIds rs, id ∈ callIds caller := by
      intro id hid
      obtain ⟨r, hr, hrid⟩ := List.mem_filterMap.mp hid
      obtain ⟨-, id', hin, hid'⟩ := hrs.result r hr
      rw [hrid] at hid'
      obtain rfl := Option.some.inj hid'
      exact hin
    have hall : AnswersEveryCall (caller :: (rs ++ (quiet ++ rest))) ↔
        (∀ id ∈ callIds caller, id ∈ resultIds rs) ∧ AnswersEveryCall rest := by
      rw [AnswersEveryCall, hruns, List.forall_mem_cons]
      rfl
    rw [hall, ih, freshCalls_iff, freshCalls_iff, hfilter, List.pairwise_cons, List.forall_mem_cons]
    constructor
    · rintro ⟨hcomplete, hapart, hfresh⟩
      refine ⟨⟨fun m hm id hid hin => ?_, hapart⟩, fun id hid => hrs.fresh id (hcomplete id hid),
        fun m hm id hid hin => hfresh m hm id hid (List.mem_append_left _ hin)⟩
      exact hfresh m hm id hin (List.mem_append_right _ (hcomplete id hid))
    · rintro ⟨⟨hcaller, hapart⟩, hnew, hfresh⟩
      refine ⟨fun id hid => (hrs.complete rfl id hid).resolve_right (hnew id hid), hapart,
        fun m hm id hid hin => ?_⟩
      rcases List.mem_append.mp hin with hin | hin
      · exact hfresh m hm id hid hin
      · exact hcaller m hm id (hcalled id hin) hid

section Span
variable {span rest : List Message} (hspan : ∀ m ∈ span, isAssistant m = false)
  (hrest : ∀ m, rest.head? = some m → isAssistant m = true)
include hspan hrest

theorem spans_turn {caller : Message} (hc : isCalling caller = true) :
    spans (caller :: (span ++ rest)) = (caller, span) :: spans rest := by
  have hskip : spans (span ++ rest) = spans rest := by
    clear hrest
    induction span with
    | nil => rfl
    | cons m span ih =>
      have hm : expectsResults m = false := by
        simp [expectsResults, hspan m (by simp)]
      simp [spans, hm, ih (fun x hx => hspan x (by simp [hx]))]
  simp [spans, isCalling_expectsResults hc, hskip, spanOf_append hspan hrest]

end Span

theorem spans_other {m : Message} {rest : List Message} (hm : isCalling m = false) :
    (spans (m :: rest)).flatMap unansweredCalls = (spans rest).flatMap unansweredCalls := by
  by_cases he : expectsResults m = true
  · have hnone : extractToolCallsFromAssistant m = [] := by
      have := callIds_eq_nil_of_not_calling hm he
      simpa [callIds] using this
    simp [spans, he, unansweredCalls, hnone]
  · simp [spans, he]

theorem mem_answeredIds {span : List Message} {id : String} :
    id ∈ answeredIds span ↔
      ∃ m ∈ span, isToolResult m = true ∧ extractToolResultId m = some id := by
  simp only [answeredIds, resultIds, List.mem_filterMap, List.mem_filter, and_assoc]

/-- While its ids are new, a message lacks exactly the results that its span does not hold. -/
theorem lackingCalls_of_fresh {caller : Message} {seen : List String} {span : List Message}
    (hfresh : ∀ id ∈ callIds caller, id ∉ seen) :
    lackingCalls true caller seen span = unansweredCalls (caller, span) := by
  simp only [lackingCalls, unansweredCalls, if_true]
  apply List.filter_congr
  intro c hc
  have hid : c.id ∈ callIds caller := List.mem_map_of_mem hc
  have hiff : (firstResult (callIds caller) seen span c.id).isSome = true ↔
      c.id ∈ answeredIds span := by
    rw [firstResult_isSome_iff, mem_answeredIds]
    exact ⟨fun h => h.2.2, fun h => ⟨hid, hfresh c.id hid, h⟩⟩
  rw [← Option.not_isSome]
  by_cases h : c.id ∈ answeredIds span
  · simp [h, hiff.mpr h]
  · have : (firstResult (callIds caller) seen span c.id).isSome = false := by
      rw [← Bool.not_eq_true, hiff]
      exact h
    simp [h, this]

theorem FreshCalls.other {seen : List String} {m : Message} {rest : List Message}
    (h : FreshCalls seen (m :: rest)) : FreshCalls seen rest := by
  obtain ⟨h1, h2⟩ := h
  by_cases he : expectsResults m = true
  · rw [List.filter_cons_of_pos he] at h1 h2
    exact ⟨(List.pairwise_cons.mp h1).2, (List.forall_mem_cons.mp h2).2⟩
  · rw [List.filter_cons_of_neg he] at h1 h2
    exact ⟨h1, h2⟩

/-- The rest of the transcript stays fresh behind a turn, which answers only what it called. -/
theorem FreshCalls.turn {caller : Message} {span rest : List Message} {st res : PairingState}
    {rs : List Message} (hc : isCalling caller = true)
    (hspan : ∀ m ∈ span, isAssistant m = false)
    (h : FreshCalls st.seenToolResultIds (caller :: (span ++ rest)))
    (hs : ClosedTurn true caller st span res rs) :
    (∀ id ∈ callIds caller, id ∉ st.seenToolResultIds) ∧ FreshCalls res.seenToolResultIds rest := by
  obtain ⟨h1, h2⟩ := h
  rw [filter_expectsResults_turn hc hspan] at h1 h2
  obtain ⟨hcaller, hapart⟩ := List.pairwise_cons.mp h1
  obtain ⟨hnew, hfresh⟩ := List.forall_mem_cons.mp h2
  refine ⟨hnew, hapart, fun m hm id hid hin => ?_⟩
  rw [hs.seen] at hin
  rcases List.mem_append.mp hin with hin | hin
  · exact hfresh m hm id hid hin
  · obtain ⟨r, hr, hrid⟩ := List.mem_filterMap.mp hin
    obtain ⟨-, id', hcalled, hid'⟩ := hs.results.result r hr
    rw [hrid] at hid'
    obtain rfl := Option.some.inj hid'
    exact hcaller m hm id hcalled hid

/-- The results the repair lists, while every turn calls new ids. -/
theorem repairFrom_added_of_fresh (clock : Nat → ℚ) (ms : List Message) (st : PairingState)
    (h : FreshCalls st.seenToolResultIds ms) :
    (repairFrom true clock ms 0 st).added =
      st.added ++ syntheticResults clock st.added.length ((spans ms).flatMap unansweredCalls) := by
  induction ms using turn_induction generalizing st with
  | nil => simp [repairFrom, spans, syntheticResults]
  | other m rest hm ih =>
    rw [repairFrom_other hm, ih _ (otherStep_seen st m ▸ h.other), otherStep_added, spans_other hm]
  | turn caller span rest hc hspan hrest ih =>
    obtain ⟨rs, hs⟩ := closeTurn_closed true clock caller st span
    obtain ⟨hnew, hnext⟩ := h.turn hc hspan hs
    rw [repairFrom_turn hspan hrest hc, ih _ hnext, closeTurn_added, lackingCalls_of_fresh hnew,
      spans_turn hspan hrest hc, List.flatMap_cons, syntheticResults_append, List.length_append,
      length_syntheticResults, List.append_assoc]

section Listed
variable {results : List (String × Message)}

theorem pushToolResult_seen {st : PairingState} {m : Message} {id : String}
    (h : extractToolResultId m = some id) :
    ∀ x ∈ (st.pushToolResult m).seenToolResultIds, x ∈ st.seenToolResultIds ∨ x = id := by
  intro x hx
  rw [pushToolResult_eq h] at hx
  split_ifs at hx
  · exact .inl hx
  · simpa using hx

/-- Made results with new and different ids are all pushed. -/
theorem mem_foldl_pushResultOf (hres : ∀ id m, results.lookup id = some m →
      extractToolResultId m = some id)
    (calls : List ToolCallLike) (hcalls : ∀ c ∈ calls, c.id ≠ "") (st : PairingState)
    (hfresh : ∀ c ∈ lacking true results calls, c.id ∉ st.seenToolResultIds)
    (hnd : ((lacking true results calls).map (·.id)).Nodup) :
    ∀ m ∈ syntheticResults clock st.added.length (lacking true results calls),
      m ∈ (calls.foldl (pushResultOf true clock results) st).out := by
  induction calls generalizing st with
  | nil => simp [lacking, syntheticResults]
  | cons c calls ih =>
    have hcalls' : ∀ x ∈ calls, x.id ≠ "" := fun x hx => hcalls x (by simp [hx])
    rw [List.foldl_cons]
    cases hl : results.lookup c.id with
    | some m =>
      have hlack : lacking true results (c :: calls) = lacking true results calls := by
        simp [lacking, hl]
      have hstep : pushResultOf true clock results st c = st.pushToolResult m := by
        simp [pushResultOf, hl]
      rw [hlack] at hfresh hnd ⊢
      rw [hstep]
      have hadded := pushToolResult_added st m
      rw [← hadded]
      refine ih hcalls' _ (fun d hd hin => ?_) hnd
      rcases pushToolResult_seen (hres _ _ hl) d.id hin with h | h
      · exact hfresh d hd h
      · -- The call that was answered is not among those that lack a result.
        have hnone := (List.mem_filter.mp hd).2
        rw [h, hl] at hnone
        cases hnone
    | none =>
      have hlack : lacking true results (c :: calls) = c :: lacking true results calls := by
        simp [lacking, hl]
      rw [hlack] at hfresh hnd ⊢
      have hid := extract_makeMissingToolResult (clock st.added.length) (hcalls c (by simp)) c.name
      have hnew : c.id ∉ st.seenToolResultIds := hfresh c List.mem_cons_self
      have hstep : pushResultOf true clock results st c =
          { st with
            added := st.added ++ [makeMissingToolResult (clock st.added.length) c.id c.name]
            changed := true
            seenToolResultIds := st.seenToolResultIds ++ [c.id]
            out := st.out ++ [makeMissingToolResult (clock st.added.length) c.id c.name] } := by
        simp [pushResultOf, hl, pushToolResult_eq hid, hnew]
      obtain ⟨hhead, htail⟩ := List.nodup_cons.mp hnd
      intro m hm
      rcases List.mem_cons.mp hm with rfl | hm
      · obtain ⟨rs, hrs, -⟩ := @grewBy_foldl true clock results calls
          (pushResultOf true clock results st c)
        rw [hrs, hstep]
        simp
      · refine ih hcalls' _ ?_ htail m ?_
        · intro d hd hin
          rw [hstep] at hin
          rcases List.mem_append.mp hin with hin | hin
          · exact hfresh d (List.mem_cons_of_mem c hd) hin
          · have hid : d.id ∈ (lacking true results calls).map (·.id) := List.mem_map_of_mem hd
            rw [List.mem_singleton.mp hin] at hid
            exact hhead hid
        · rw [hstep]
          simpa using hm

end Listed

theorem mem_closeTurn {caller : Message} {st : PairingState} {span : List Message}
    (hnew : ∀ id ∈ callIds caller, id ∉ st.seenToolResultIds)
    (hnd : ((unansweredCalls (caller, span)).map (·.id)).Nodup) :
    ∀ m ∈ syntheticResults clock st.added.length (unansweredCalls (caller, span)),
      m ∈ (closeTurn true clock caller (extractToolCallsFromAssistant caller)
        (scanTurn caller st span)).out := by
  have hs : ScanSpec (callIds caller) { state := st } span (scanTurn caller st span) :=
    scan_spec _ _ _
  have hlack : lacking true (scanTurn caller st span).spanResultsById
      (extractToolCallsFromAssistant caller) = unansweredCalls (caller, span) := by
    rw [← lackingCalls_of_fresh hnew]
    simp only [lacking, lackingCalls, scanTurn_lookup]
  have hres : ∀ id m, (scanTurn caller st span).spanResultsById.lookup id = some m →
      extractToolResultId m = some id := by
    intro id m hl
    rw [scanTurn_lookup] at hl
    exact (firstResult_spec hl).2.2.1
  intro m hm
  simp only [closeTurn]
  apply List.mem_append_left
  refine mem_foldl_pushResultOf hres (extractToolCallsFromAssistant caller)
    (fun c hc => mem_calls_id_ne hc) (openTurn caller (scanTurn caller st span)) ?_ ?_ m ?_
  · intro c hc
    rw [hlack] at hc
    rw [(openTurn_spec caller hs).2]
    exact hnew c.id (List.mem_map_of_mem (List.mem_filter.mp hc).1)
  · rwa [hlack]
  · rwa [hlack, openTurn_added]

/-- Every listed result is in the output, when the calls are distinct. -/
theorem repairFrom_lists (clock : Nat → ℚ) (ms : List Message) (st : PairingState)
    (h : FreshCalls st.seenToolResultIds ms)
    (hnd : ∀ t ∈ spans ms, ((unansweredCalls t).map (·.id)).Nodup) :
    ∀ m ∈ syntheticResults clock st.added.length ((spans ms).flatMap unansweredCalls),
      m ∈ (repairFrom true clock ms 0 st).out := by
  induction ms using turn_induction generalizing st with
  | nil => simp [spans, syntheticResults]
  | other m rest hm ih =>
    rw [repairFrom_other hm, spans_other hm, ← otherStep_added st m]
    refine ih _ (otherStep_seen st m ▸ h.other) fun t ht => hnd t ?_
    unfold spans
    split_ifs
    · exact List.mem_cons_of_mem _ ht
    · exact ht
  | turn caller span rest hc hspan hrest ih =>
    obtain ⟨rs, hs⟩ := closeTurn_closed true clock caller st span
    obtain ⟨hnew, hnext⟩ := h.turn hc hspan hs
    rw [spans_turn hspan hrest hc] at hnd ⊢
    obtain ⟨hcaller, hnd⟩ := List.forall_mem_cons.mp hnd
    intro m hm
    rw [repairFrom_turn hspan hrest hc]
    rw [List.flatMap_cons, syntheticResults_append] at hm
    rcases List.mem_append.mp hm with hm | hm
    · obtain ⟨t, hout, -⟩ := repairFrom_out_settled true clock rest (closeTurn true clock caller
        (extractToolCallsFromAssistant caller) (scanTurn caller st span))
      rw [hout]
      exact List.mem_append_left _ (mem_closeTurn hnew hcaller m hm)
    · refine ih _ hnext hnd m ?_
      rwa [closeTurn_added, lackingCalls_of_fresh hnew, List.length_append,
        length_syntheticResults]

/-- Listed results that differ in their times are all in a list without repeated ids only when
no id was called twice. -/
theorem nodup_of_listed {rs : List Message} (hnd : (resultIds rs).Nodup) {n : Nat}
    {calls : List ToolCallLike} (hcalls : ∀ c ∈ calls, c.id ≠ "")
    (h : ∀ m ∈ syntheticResults (fun k => (k : ℚ)) n calls, m ∈ rs) :
    (calls.map (·.id)).Nodup := by
  induction calls generalizing n with
  | nil => exact List.nodup_nil
  | cons c calls ih =>
    obtain ⟨hc, hrest⟩ := List.forall_mem_cons.mp h
    refine List.nodup_cons.mpr ⟨fun hin => ?_, ih (fun x hx => hcalls x (by simp [hx])) hrest⟩
    obtain ⟨d, hd, hdc⟩ := List.mem_map.mp hin
    obtain ⟨k, hk, hmem⟩ := made_mem_syntheticResults (fun k => (k : ℚ)) (n + 1) hd
    have hdid := extract_makeMissingToolResult (k : ℚ) (hcalls d (by simp [hd])) d.name
    simp only at hdc
    rw [hdc] at hdid hmem
    have hsame := inj_of_resultIds_nodup hnd hc (hrest _ hmem)
      (extract_makeMissingToolResult _ (hcalls c (by simp)) c.name) hdid
    have htime : (n : ℚ) = (k : ℚ) := by
      simp only [makeMissingToolResult, Js.Value.obj.injEq, List.cons.injEq, Prod.mk.injEq,
        Js.Value.num.injEq, Js.Num.fin.injEq] at hsame
      exact hsame.2.2.2.2.2.1.2
    have : n = k := by exact_mod_cast htime
    omega

theorem resultIds_takeWhile_subset (ms : List Message) :
    ∀ id ∈ resultIds (ms.takeWhile isToolResult), id ∈ answeredIds (spanOf ms) := by
  intro id hid
  obtain ⟨m, hm, he⟩ := List.mem_filterMap.mp hid
  refine mem_answeredIds.mpr ⟨m, ?_, List.mem_takeWhile_imp hm, he⟩
  induction ms with
  | nil => cases hm
  | cons x ms ih =>
    by_cases hx : isToolResult x = true
    · have ha := not_assistant_of_toolResult hx
      simp only [List.takeWhile_cons, hx, if_true, spanOf, ha, Bool.not_false] at hm ⊢
      rcases List.mem_cons.mp hm with rfl | hm
      · exact List.mem_cons_self
      · exact List.mem_cons_of_mem x (ih (List.mem_filterMap.mpr ⟨m, hm, he⟩) hm)
    · rw [List.takeWhile_cons_of_neg hx] at hm
      cases hm

theorem unansweredCalls_of_answered {ms : List Message} (h : AnswersEveryCall ms) :
    ∀ t ∈ spans ms, unansweredCalls t = [] := by
  induction ms with
  | nil => simp [spans]
  | cons m ms ih =>
    by_cases he : expectsResults m = true
    · have hcons : AnswersEveryCall (m :: ms) ↔
          (∀ id ∈ callIds m, id ∈ resultIds (ms.takeWhile isToolResult)) ∧
            AnswersEveryCall ms := by
        simp [AnswersEveryCall, runs, he]
      obtain ⟨hm, hms⟩ := hcons.mp h
      rw [spans, if_pos he, List.forall_mem_cons]
      refine ⟨List.filter_eq_nil_iff.mpr fun c hc => ?_, ih hms⟩
      simpa using resultIds_takeWhile_subset ms c.id (hm c.id (List.mem_map_of_mem hc))
    · have hcons : AnswersEveryCall (m :: ms) ↔ AnswersEveryCall ms := by
        simp [AnswersEveryCall, runs, he]
      rw [spans, if_neg he]
      exact ih (hcons.mp h)

/-- An untouched transcript answers every call, and so none of its calls share an id. -/
theorem Untouched.distinctCalls {ms : List Message} (h : Untouched true ms) : DistinctCalls ms := by
  have hall : AnswersEveryCall ms := h.complete rfl
  refine ⟨?_, fun t ht => by simp [unansweredCalls_of_answered hall t ht]⟩
  rw [← map_fst_runs, List.pairwise_map]
  refine h.once.imp_of_mem fun {a b} ha hb hab id hid hin => ?_
  exact hab id (hall a ha id hid) (hall b hb id hin)

theorem DistinctCalls.fresh {ms : List Message} (h : DistinctCalls ms) : FreshCalls [] ms :=
  ⟨h.acrossTurns, by simp⟩

/-- With synthetic results allowed, every call is answered in place and every listed result is
in the output, whatever the clock shows, exactly for transcripts with distinct calls. -/
theorem repair_complete_iff (ms : List Message) :
    (∀ clock, AnswersEveryCall (repairToolUseResultPairing true clock ms).messages ∧
      ∀ m ∈ (repairToolUseResultPairing true clock ms).added,
        m ∈ (repairToolUseResultPairing true clock ms).messages) ↔ DistinctCalls ms := by
  have hadded : ∀ clock, FreshCalls [] ms → (repairToolUseResultPairing true clock ms).added =
      syntheticResults clock 0 ((spans ms).flatMap unansweredCalls) := by
    intro clock hf
    simpa [repairToolUseResultPairing] using repairFrom_added_of_fresh clock ms {} hf
  by_cases hu : Untouched true ms
  · -- Nothing is missing: the input comes back and nothing is listed.
    have hd := hu.distinctCalls
    have hall : AnswersEveryCall ms := hu.complete rfl
    refine iff_of_true (fun clock => ?_) hd
    have hun := (repair_unchanged_iff true clock ms).mpr hu
    have hnone : (spans ms).flatMap unansweredCalls = [] :=
      List.flatMap_eq_nil_iff.mpr (unansweredCalls_of_answered hall)
    rw [repair_messages, hun, hadded clock hd.fresh, hnone]
    exact ⟨hall, by simp [syntheticResults]⟩
  · have hout : ∀ clock, (repairToolUseResultPairing true clock ms).messages =
        (repairFrom true clock ms 0 {}).out := by
      intro clock
      have hch : (repairFrom true clock ms 0 {}).changed = true := by
        rw [← Bool.not_eq_false, repair_unchanged_iff]
        exact hu
      rw [repair_messages, if_pos hch]
    have hanswers : ∀ clock, AnswersEveryCall (repairFrom true clock ms 0 {}).out ↔
        FreshCalls [] ms := by
      intro clock
      obtain ⟨t, ht, hset, -⟩ := repairFrom_out_settled true clock ms {}
      obtain ⟨t', ht', hothers, -⟩ := repairFrom_conserves true clock ms {}
      rw [List.nil_append] at ht ht'
      have hcallers : t.filter expectsResults = ms.filter expectsResults := by
        rw [← filter_expectsResults_others t, ← ht, ht', hothers, filter_expectsResults_others]
      rw [ht, answersEveryCall_settled hset, freshCalls_iff, freshCalls_iff, hcallers]
    constructor
    · intro h
      have hf := (hanswers _).mp (hout (fun k => (k : ℚ)) ▸ (h fun k => (k : ℚ)).1)
      refine ⟨hf.apart, fun t ht => ?_⟩
      obtain ⟨out, hrebuilt, -, hnd, -⟩ := repairFrom_out true (fun k => (k : ℚ)) ms {}
      have hlisted := (h fun k => (k : ℚ)).2
      rw [hadded _ hf, hout, hrebuilt, List.nil_append] at hlisted
      have hnamed : ∀ c ∈ (spans ms).flatMap unansweredCalls, c.id ≠ "" := by
        intro c hc
        obtain ⟨u, -, hcu⟩ := List.mem_flatMap.mp hc
        exact mem_calls_id_ne (List.mem_filter.mp hcu).1
      have hids := nodup_of_listed hnd hnamed fun m hm => by
        obtain ⟨k, c, -, -, rfl⟩ := mem_syntheticResults hm
        exact List.mem_filter.mpr ⟨hlisted _ hm, isToolResult_makeMissingToolResult _ _ _⟩
      rw [List.map_flatMap, List.nodup_flatMap] at hids
      exact hids.1 t ht
    · intro hd clock
      rw [hout, hadded clock hd.fresh]
      exact ⟨(hanswers clock).mpr hd.fresh,
        repairFrom_lists clock ms {} hd.fresh hd.withinTurn⟩

/-- A call id that comes again in a later turn. -/
def repeatedCallTranscript : List Message :=
  let assistant := Js.Value.obj [("role", .str "assistant"),
    ("content", .arr [.obj [("type", .str "toolCall"), ("id", .str "call-1"),
      ("name", .str "exec"), ("arguments", .obj [])]])]
  [assistant, .obj [("role", .str "toolResult"), ("toolCallId", .str "call-1")], assistant]

theorem repeated_call_stays_unanswered :
    ¬ AnswersEveryCall
        (repairToolUseResultPairing true (fun _ => 0) repeatedCallTranscript).messages ∧
      ¬ ∀ m ∈ (repairToolUseResultPairing true (fun _ => 0) repeatedCallTranscript).added,
        m ∈ (repairToolUseResultPairing true (fun _ => 0) repeatedCallTranscript).messages := by
  decide

end T560.Transcript
