import Mathlib.Data.List.Perm.Subperm
import T560.Transcript.RepairCorrect

/-!
# Repairing twice

Whatever the repair rebuilds is settled: it consists of whole turns, each with its results
directly behind it in call order. A settled list is rebuilt as it stands, so that a second
repair returns what the first one returned.
-/

namespace T560.Transcript

variable {allow : Bool} {clock : Nat → ℚ}

/-- The results stand in the order in which the ids are first called. -/
inductive InCallOrder : List String → List Message → Prop
  | nil : InCallOrder [] []
  | skip {id : String} {ids : List String} {rs : List Message} (absent : id ∉ resultIds rs)
      (rest : InCallOrder ids rs) : InCallOrder (id :: ids) rs
  | take {id : String} {ids : List String} {r : Message} {rs : List Message}
      (names : extractToolResultId r = some id) (rest : InCallOrder ids rs) :
      InCallOrder (id :: ids) (r :: rs)

/-- The results of a turn as the repair leaves them behind the ids answered before. -/
structure TurnResults (allow : Bool) (ids seen : List String) (rs : List Message) : Prop where
  result : ∀ r ∈ rs, isToolResult r = true ∧ Answers ids r
  nodup : (resultIds rs).Nodup
  fresh : ∀ id ∈ resultIds rs, id ∉ seen
  inOrder : InCallOrder ids rs
  complete : allow = true → ∀ id ∈ ids, id ∈ resultIds rs ∨ id ∈ seen

/-- A transcript of whole turns, behind turns that answered the given ids. -/
inductive Settled (allow : Bool) : List String → List Message → Prop
  | nil {seen : List String} : Settled allow seen []
  | other {seen : List String} {m : Message} {rest : List Message} (quiet : isCalling m = false)
      (notResult : isToolResult m = false) (settled : Settled allow seen rest) :
      Settled allow seen (m :: rest)
  | turn {seen : List String} {caller : Message} {rs others rest : List Message}
      (calling : isCalling caller = true) (results : TurnResults allow (callIds caller) seen rs)
      (quiet : ∀ m ∈ others, isToolResult m = false ∧ isAssistant m = false)
      (next : ∀ m, rest.head? = some m → isAssistant m = true)
      (settled : Settled allow (seen ++ resultIds rs) rest) :
      Settled allow seen (caller :: (rs ++ (others ++ rest)))

theorem InCallOrder.names {ids : List String} {rs : List Message} (h : InCallOrder ids rs) :
    ∀ r ∈ rs, ∃ id ∈ ids, extractToolResultId r = some id := by
  induction h with
  | nil => simp
  | skip _ _ ih =>
    intro r hr
    obtain ⟨id, hid, he⟩ := ih r hr
    exact ⟨id, List.mem_cons_of_mem _ hid, he⟩
  | take hr _ ih =>
    intro x hx
    rcases List.mem_cons.mp hx with rfl | hx
    · exact ⟨_, List.mem_cons_self, hr⟩
    · obtain ⟨id, hid, he⟩ := ih x hx
      exact ⟨id, List.mem_cons_of_mem _ hid, he⟩

theorem resultIds_cons {r : Message} {id : String} (rs : List Message)
    (h : extractToolResultId r = some id) : resultIds (r :: rs) = id :: resultIds rs := by
  simp [resultIds, h]

/-- Two results of one id are the same when no id is answered twice. -/
theorem inj_of_resultIds_nodup {rs : List Message} (h : (resultIds rs).Nodup) {r x : Message}
    (hr : r ∈ rs) (hx : x ∈ rs) {id : String} (hrid : extractToolResultId r = some id)
    (hxid : extractToolResultId x = some id) : r = x := by
  induction rs with
  | nil => cases hr
  | cons y rs ih =>
    have hnot : ∀ z ∈ rs, extractToolResultId z = some id → extractToolResultId y = some id →
        False := by
      intro z hz hzid hy
      rw [resultIds_cons rs hy] at h
      exact (List.nodup_cons.mp h).1 (List.mem_filterMap.mpr ⟨z, hz, hzid⟩)
    rcases List.mem_cons.mp hr with hry | hr'
    · rcases List.mem_cons.mp hx with hxy | hx'
      · rw [hry, hxy]
      · exact (hnot x hx' hxid (hry ▸ hrid)).elim
    · rcases List.mem_cons.mp hx with hxy | hx'
      · exact (hnot r hr' hrid (hxy ▸ hxid)).elim
      · exact ih (h.sublist ((List.sublist_cons_self y rs).filterMap _)) hr' hx'

theorem TurnResults.nodup_messages {ids seen : List String} {rs : List Message}
    (h : TurnResults allow ids seen rs) : rs.Nodup := by
  have hids : ∀ r ∈ rs, ∃ id, extractToolResultId r = some id := by
    intro r hr
    obtain ⟨-, id, -, hid⟩ := h.result r hr
    exact ⟨id, hid⟩
  have hmap : rs.map extractToolResultId = (resultIds rs).map some := by
    clear h
    induction rs with
    | nil => rfl
    | cons r rs ih =>
      obtain ⟨id, hid⟩ := hids r (by simp)
      rw [List.map_cons, resultIds_cons rs hid, List.map_cons, hid,
        ih fun x hx => hids x (by simp [hx])]
  refine List.Nodup.of_map extractToolResultId ?_
  rw [hmap]
  exact h.nodup.map (Option.some_injective _)

theorem not_assistant_of_toolResult {m : Message} (h : isToolResult m = true) :
    isAssistant m = false := by
  by_contra ha
  rw [not_toolResult_of_assistant (by simpa using ha)] at h
  cases h

section Push
variable {results : List (String × Message)}

/-- What one call appends, and where it comes from. -/
inductive CallPush (allow : Bool) (results : List (String × Message)) (c : ToolCallLike)
    (st res : PairingState) : Prop
  | dropped (out : res.out = st.out) (seen : res.seenToolResultIds = st.seenToolResultIds)
      (why : c.id ∈ st.seenToolResultIds ∨ (allow = false ∧ results.lookup c.id = none))
  | pushed (m : Message) (out : res.out = st.out ++ [m])
      (seen : res.seenToolResultIds = st.seenToolResultIds ++ [c.id])
      (names : extractToolResultId m = some c.id) (isResult : isToolResult m = true)
      (fresh : c.id ∉ st.seenToolResultIds) (found : allow = false → results.lookup c.id = some m)

theorem pushToolResult_push {c : ToolCallLike} {st st' : PairingState} {m : Message}
    (hout : st'.out = st.out) (hseen : st'.seenToolResultIds = st.seenToolResultIds)
    (hm : isToolResult m = true) (he : extractToolResultId m = some c.id)
    (hfound : allow = false → results.lookup c.id = some m) :
    CallPush allow results c st (st'.pushToolResult m) := by
  rw [pushToolResult_eq he, hseen]
  by_cases hs : c.id ∈ st.seenToolResultIds
  · rw [if_pos hs]
    exact .dropped hout hseen (.inl hs)
  · rw [if_neg hs]
    exact .pushed m (by rw [hout]) rfl he hm hs hfound

theorem pushResultOf_push
    (hres : ∀ id m, results.lookup id = some m →
      isToolResult m = true ∧ extractToolResultId m = some id)
    {c : ToolCallLike} (hc : c.id ≠ "") (st : PairingState) :
    CallPush allow results c st (pushResultOf allow clock results st c) := by
  unfold pushResultOf
  cases hl : results.lookup c.id with
  | some m =>
    obtain ⟨hm, he⟩ := hres _ _ hl
    exact pushToolResult_push rfl rfl hm he fun _ => hl
  | none =>
    cases allow with
    | false => exact .dropped rfl rfl (.inr ⟨rfl, hl⟩)
    | true =>
      exact pushToolResult_push rfl rfl (isToolResult_makeMissingToolResult _ _ _)
        (extract_makeMissingToolResult _ hc _) (fun h => by cases h)

/-- What the calls of a turn append: results in call order, each found in the span unless
missing ones are made. -/
structure CallsPush (allow : Bool) (results : List (String × Message))
    (calls : List ToolCallLike) (st res : PairingState) (rs : List Message) : Prop where
  out : res.out = st.out ++ rs
  seen : res.seenToolResultIds = st.seenToolResultIds ++ resultIds rs
  inOrder : InCallOrder (calls.map (·.id)) rs
  fresh : ∀ id ∈ resultIds rs, id ∉ st.seenToolResultIds
  complete : allow = true → ∀ id ∈ calls.map (·.id),
    id ∈ resultIds rs ∨ id ∈ st.seenToolResultIds
  found : allow = false → ∀ r ∈ rs, ∃ id, extractToolResultId r = some id ∧
    results.lookup id = some r

theorem CallPush.cons {c : ToolCallLike} {calls : List ToolCallLike} {st mid res : PairingState}
    {rs : List Message} (h : CallPush allow results c st mid)
    (g : CallsPush allow results calls mid res rs) :
    ∃ rs', CallsPush allow results (c :: calls) st res rs' := by
  cases h with
  | dropped hout hseen hwhy =>
    refine ⟨rs, g.out.trans (by rw [hout]), g.seen.trans (by rw [hseen]), .skip ?_ g.inOrder,
      fun id hid => hseen ▸ g.fresh id hid, fun ha id hid => ?_, g.found⟩
    · -- The call was answered before, or no result names it.
      intro hin
      rcases hwhy with hs | ⟨ha, hnone⟩
      · exact g.fresh _ hin (hseen ▸ hs)
      · obtain ⟨r, hr, hrid⟩ := List.mem_filterMap.mp hin
        obtain ⟨id, hid, hl⟩ := g.found ha r hr
        rw [hrid] at hid
        obtain rfl := Option.some.inj hid
        rw [hnone] at hl
        cases hl
    · rcases List.mem_cons.mp hid with rfl | hid
      · rcases hwhy with hs | ⟨hf, -⟩
        · exact .inr hs
        · rw [ha] at hf
          cases hf
      · exact hseen ▸ g.complete ha id hid
  | pushed m hout hseen hm hr hfresh hfound =>
    have hids := resultIds_cons rs hm
    refine ⟨m :: rs, ?_, ?_, .take hm g.inOrder, fun id hid => ?_, fun ha id hid => ?_,
      fun ha r hmem => ?_⟩
    · rw [g.out, hout, List.append_assoc, List.singleton_append]
    · rw [g.seen, hseen, List.append_assoc, List.singleton_append, hids]
    · rw [hids] at hid
      rcases List.mem_cons.mp hid with rfl | hid
      · exact hfresh
      · intro hin
        exact g.fresh id hid (by rw [hseen]; exact List.mem_append_left _ hin)
    · rw [hids]
      rcases List.mem_cons.mp hid with rfl | hid
      · exact .inl List.mem_cons_self
      · rcases g.complete ha id hid with h | h
        · exact .inl (List.mem_cons_of_mem _ h)
        · rw [hseen] at h
          rcases List.mem_append.mp h with h | h
          · exact .inr h
          · rw [List.mem_singleton.mp h]
            exact .inl List.mem_cons_self
    · rcases List.mem_cons.mp hmem with rfl | hmem
      · exact ⟨c.id, hm, hfound ha⟩
      · exact g.found ha r hmem

theorem foldl_pushResultOf_push
    (hres : ∀ id m, results.lookup id = some m →
      isToolResult m = true ∧ extractToolResultId m = some id)
    (calls : List ToolCallLike) (hcalls : ∀ c ∈ calls, c.id ≠ "") (st : PairingState) :
    ∃ rs, CallsPush allow results calls st
      (calls.foldl (pushResultOf allow clock results) st) rs := by
  induction calls generalizing st with
  | nil =>
    exact ⟨[], by simp, by simp [resultIds], .nil, by simp [resultIds], by simp, by simp⟩
  | cons c calls ih =>
    obtain ⟨rs, hrs⟩ := ih (fun x hx => hcalls x (by simp [hx]))
      (pushResultOf allow clock results st c)
    exact (pushResultOf_push hres (hcalls c (by simp)) st).cons hrs

end Push

section Turn
variable {caller : Message} {st : PairingState} {span : List Message}

theorem scanTurn_lookup (caller : Message) (st : PairingState) (span : List Message) (id : String) :
    (scanTurn caller st span).spanResultsById.lookup id =
      firstResult (callIds caller) st.seenToolResultIds span id := by
  have hs : ScanSpec (callIds caller) { state := st } span (scanTurn caller st span) :=
    scan_spec _ _ _
  simpa using hs.lookup id

/-- A closed turn: the caller, its results in call order, and what else stood in the span. -/
structure ClosedTurn (allow : Bool) (caller : Message) (st : PairingState) (span : List Message)
    (res : PairingState) (rs : List Message) : Prop where
  out : res.out = st.out ++ caller :: (rs ++ span.filter fun m => !isToolResult m)
  seen : res.seenToolResultIds = st.seenToolResultIds ++ resultIds rs
  results : TurnResults allow (callIds caller) st.seenToolResultIds rs
  fromSpan : allow = false → ∀ r ∈ rs, r ∈ span

theorem closeTurn_closed (allow : Bool) (clock : Nat → ℚ) (caller : Message) (st : PairingState)
    (span : List Message) :
    ∃ rs, ClosedTurn allow caller st span
      (closeTurn allow clock caller (extractToolCallsFromAssistant caller)
        (scanTurn caller st span)) rs := by
  obtain ⟨rs, hs⟩ := closeTurn_spec allow clock caller st span
  have hscan : ScanSpec (callIds caller) { state := st } span (scanTurn caller st span) :=
    scan_spec _ _ _
  obtain ⟨hopen, hseen⟩ := openTurn_spec caller hscan
  have hres : ∀ id m, (scanTurn caller st span).spanResultsById.lookup id = some m →
      isToolResult m = true ∧ extractToolResultId m = some id := by
    intro id m h
    rw [scanTurn_lookup] at h
    have := firstResult_spec h
    exact ⟨this.2.1, this.2.2.1⟩
  obtain ⟨rs', hp⟩ := @foldl_pushResultOf_push allow clock _ hres
    (extractToolCallsFromAssistant caller) (fun c hc => mem_calls_id_ne hc)
    (openTurn caller (scanTurn caller st span))
  have heq : rs' = rs := by
    have h1 := hs.out
    rw [closeTurn, hp.out, hopen, hscan.remainder] at h1
    simpa using h1
  subst heq
  refine ⟨rs', hs.out, hs.seen, ⟨hs.result, hs.nodup, hs.fresh, hp.inOrder, ?_⟩, ?_⟩
  · intro ha id hid
    rw [← hseen]
    exact hp.complete ha id hid
  · intro ha r hr
    obtain ⟨id, -, hl⟩ := hp.found ha r hr
    rw [scanTurn_lookup] at hl
    exact (firstResult_spec hl).1

/-- Results in call order are found again, each under its own id. -/
theorem firstResult_of_turnResults {ids seen : List String} {rs others : List Message}
    (h : TurnResults allow ids seen rs) (hq : ∀ m ∈ others, isToolResult m = false)
    {r : Message} (hr : r ∈ rs) {id : String} (hid : extractToolResultId r = some id) :
    firstResult ids seen (rs ++ others) id = some r := by
  have hmem : id ∈ resultIds rs := List.mem_filterMap.mpr ⟨r, hr, hid⟩
  obtain ⟨hres, id', hids, hid'⟩ := h.result r hr
  rw [hid] at hid'
  obtain rfl := Option.some.inj hid'
  have hsome := firstResult_isSome_iff.mpr
    ⟨hids, h.fresh id hmem, r, List.mem_append_left others hr, hres, hid⟩
  obtain ⟨m, hm⟩ := Option.isSome_iff_exists.mp hsome
  obtain ⟨h1, h2, h3, -, -⟩ := firstResult_spec hm
  have hin : m ∈ rs := by
    rcases List.mem_append.mp h1 with h1 | h1
    · exact h1
    · rw [hq m h1] at h2
      cases h2
  rw [hm, inj_of_resultIds_nodup h.nodup hin hr h3 hid]

/-- The calls of a turn push exactly the results that stand behind it. -/
theorem foldl_pushResultOf_again {results : List (String × Message)} (calls : List ToolCallLike)
    (hcalls : ∀ c ∈ calls, c.id ≠ "") {rs : List Message} (st : PairingState)
    (hlookup : ∀ r ∈ rs, ∀ id, extractToolResultId r = some id → results.lookup id = some r)
    (hres : ∀ id m, results.lookup id = some m →
      isToolResult m = true ∧ extractToolResultId m = some id)
    (hnd : (resultIds rs).Nodup) (hfresh : ∀ id ∈ resultIds rs, id ∉ st.seenToolResultIds)
    (hgone : ∀ c ∈ calls, c.id ∉ resultIds rs →
      c.id ∈ st.seenToolResultIds ∨ (allow = false ∧ results.lookup c.id = none))
    (horder : InCallOrder (calls.map (·.id)) rs) :
    (calls.foldl (pushResultOf allow clock results) st).out = st.out ++ rs ∧
      (calls.foldl (pushResultOf allow clock results) st).seenToolResultIds =
        st.seenToolResultIds ++ resultIds rs := by
  induction calls generalizing rs st with
  | nil =>
    cases horder
    simp [resultIds]
  | cons c calls ih =>
    have hcalls' : ∀ x ∈ calls, x.id ≠ "" := fun x hx => hcalls x (by simp [hx])
    rw [List.foldl_cons]
    cases horder with
    | skip habsent horder =>
      -- Nothing is pushed for this call, because nothing behind the turn answers it.
      have hstep := @pushResultOf_push allow clock results hres c (hcalls c (by simp)) st
      generalize pushResultOf allow clock results st c = mid at hstep
      have hmid : mid.out = st.out ∧ mid.seenToolResultIds = st.seenToolResultIds := by
        cases hstep with
        | dropped hout hseen _ => exact ⟨hout, hseen⟩
        | pushed m _ _ _ _ hnew hfound =>
          rcases hgone c (by simp) habsent with hin | ⟨ha, hnone⟩
          · exact (hnew hin).elim
          · rw [hnone] at hfound
            cases hfound ha
      have := ih hcalls' mid hlookup hnd (hmid.2 ▸ hfresh)
        (fun x hx => hmid.2 ▸ hgone x (by simp [hx])) horder
      rwa [hmid.1, hmid.2] at this
    | @take _ _ r rs hr horder =>
      have hids : resultIds (r :: rs) = c.id :: resultIds rs := resultIds_cons rs hr
      rw [hids] at hnd hfresh
      obtain ⟨hnew, hnd'⟩ := List.nodup_cons.mp hnd
      have hstep : pushResultOf allow clock results st c = { st with
          seenToolResultIds := st.seenToolResultIds ++ [c.id], out := st.out ++ [r] } := by
        have hnot : c.id ∉ st.seenToolResultIds := hfresh c.id List.mem_cons_self
        simp [pushResultOf, hlookup r (by simp) c.id hr, pushToolResult_eq hr, hnot]
      rw [hstep]
      have := @ih hcalls' rs { st with
          seenToolResultIds := st.seenToolResultIds ++ [c.id], out := st.out ++ [r] }
        (fun x hx => hlookup x (by simp [hx])) hnd' ?_ ?_ horder
      · simpa [hids] using this
      · intro id hid hin
        rcases List.mem_append.mp hin with hin | hin
        · exact hfresh id (List.mem_cons_of_mem _ hid) hin
        · rw [List.mem_singleton.mp hin] at hid
          exact hnew hid
      · intro x hx habsent
        by_cases hxc : x.id = c.id
        · exact .inl (List.mem_append_right _ (List.mem_singleton.mpr hxc))
        · have hout : x.id ∉ resultIds (r :: rs) := by
            rw [hids, List.mem_cons, not_or]
            exact ⟨hxc, habsent⟩
          rcases hgone x (by simp [hx]) hout with hin | hnone
          · exact .inl (List.mem_append_left _ hin)
          · exact .inr hnone

/-- A turn whose results already stand in call order is closed as it stands. -/
theorem closeTurn_again {rs others : List Message}
    (h : TurnResults allow (callIds caller) st.seenToolResultIds rs)
    (hq : ∀ m ∈ others, isToolResult m = false) :
    (closeTurn allow clock caller (extractToolCallsFromAssistant caller)
        (scanTurn caller st (rs ++ others))).out = st.out ++ caller :: (rs ++ others) ∧
      (closeTurn allow clock caller (extractToolCallsFromAssistant caller)
        (scanTurn caller st (rs ++ others))).seenToolResultIds =
          st.seenToolResultIds ++ resultIds rs := by
  have hscan : ScanSpec (callIds caller) { state := st } (rs ++ others)
      (scanTurn caller st (rs ++ others)) := scan_spec _ _ _
  obtain ⟨hopen, hseen⟩ := openTurn_spec caller hscan
  have hothers : (rs ++ others).filter (fun m => !isToolResult m) = others := by
    rw [List.filter_append, List.filter_eq_nil_iff.mpr, List.filter_eq_self.mpr, List.nil_append]
    · simpa using hq
    · intro r hr
      simp [(h.result r hr).1]
  have hgone : ∀ c ∈ extractToolCallsFromAssistant caller, c.id ∉ resultIds rs →
      c.id ∈ st.seenToolResultIds ∨ (allow = false ∧
        (scanTurn caller st (rs ++ others)).spanResultsById.lookup c.id = none) := by
    intro c hc habsent
    rw [scanTurn_lookup]
    cases allow with
    | true => exact .inl ((h.complete rfl c.id (List.mem_map_of_mem hc)).resolve_left habsent)
    | false =>
      refine .inr ⟨rfl, ?_⟩
      by_contra hne
      obtain ⟨-, -, m, hm, hr, he⟩ := firstResult_isSome_iff.mp (Option.isSome_iff_ne_none.mpr hne)
      rcases List.mem_append.mp hm with hm | hm
      · exact habsent (List.mem_filterMap.mpr ⟨m, hm, he⟩)
      · rw [hq m hm] at hr
        cases hr
  have hres : ∀ id m, (scanTurn caller st (rs ++ others)).spanResultsById.lookup id = some m →
      isToolResult m = true ∧ extractToolResultId m = some id := by
    intro id m hl
    rw [scanTurn_lookup] at hl
    exact ⟨(firstResult_spec hl).2.1, (firstResult_spec hl).2.2.1⟩
  have hlookup : ∀ r ∈ rs, ∀ id, extractToolResultId r = some id →
      (scanTurn caller st (rs ++ others)).spanResultsById.lookup id = some r := by
    intro r hr id hid
    rw [scanTurn_lookup]
    exact firstResult_of_turnResults h hq hr hid
  rw [← hseen] at hgone
  obtain ⟨hout, hids⟩ := @foldl_pushResultOf_again allow clock _
    (extractToolCallsFromAssistant caller) (fun c hc => mem_calls_id_ne hc) rs
    (openTurn caller (scanTurn caller st (rs ++ others))) hlookup hres h.nodup (hseen ▸ h.fresh)
    hgone h.inOrder
  constructor
  · simp [closeTurn, hout, hopen, hscan.remainder, hothers]
  · simp [closeTurn, hids, hseen]

end Turn

/-- A settled transcript is rebuilt as it stands. -/
theorem repairFrom_settled {seen : List String} {ms : List Message} (h : Settled allow seen ms)
    (st : PairingState) (hst : st.seenToolResultIds = seen) :
    (repairFrom allow clock ms 0 st).out = st.out ++ ms := by
  induction h generalizing st with
  | nil => simp [repairFrom]
  | @other seen m rest hm hr _ ih =>
    rw [repairFrom_other hm, hr, if_neg (by simp), ih (st.push m) hst]
    simp [PairingState.push]
  | @turn seen caller rs others rest hc hrs hq hnext _ ih =>
    subst hst
    have hspan : ∀ m ∈ rs ++ others, isAssistant m = false := by
      intro m hm
      rcases List.mem_append.mp hm with hm | hm
      · exact not_assistant_of_toolResult (hrs.result m hm).1
      · exact (hq m hm).2
    obtain ⟨hout, hseen⟩ := @closeTurn_again allow clock caller st rs others hrs
      fun m hm => (hq m hm).1
    rw [← List.append_assoc, repairFrom_turn hspan hnext hc, ih _ hseen, hout]
    simp

/-- Whatever the input, the rebuilt list is settled. -/
theorem repairFrom_out_settled (allow : Bool) (clock : Nat → ℚ) (ms : List Message)
    (st : PairingState) :
    ∃ t, (repairFrom allow clock ms 0 st).out = st.out ++ t ∧
      Settled allow st.seenToolResultIds t ∧
      ((∀ m, ms.head? = some m → isAssistant m = true) →
        ∀ m, t.head? = some m → isAssistant m = true) := by
  induction ms using turn_induction generalizing st with
  | nil => exact ⟨[], by simp [repairFrom], .nil, by simp⟩
  | other m rest hm ih =>
    rw [repairFrom_other hm]
    by_cases hr : isToolResult m = true
    · rw [if_pos hr]
      obtain ⟨t, hout, hset, -⟩ := ih st.dropOrphan
      refine ⟨t, hout, hset, fun hhead => ?_⟩
      have := not_toolResult_of_assistant (hhead m rfl)
      rw [hr] at this
      cases this
    · rw [if_neg hr]
      obtain ⟨t, hout, hset, -⟩ := ih (st.push m)
      refine ⟨m :: t, by rw [hout]; simp [PairingState.push], .other hm (by simpa using hr) hset,
        fun hhead x hx => ?_⟩
      obtain rfl := Option.some.inj hx
      exact hhead _ rfl
  | turn caller span rest hc hspan hrest ih =>
    rw [repairFrom_turn hspan hrest hc]
    obtain ⟨rs, hs⟩ := closeTurn_closed allow clock caller st span
    obtain ⟨t, hout, hset, hhead⟩ := ih (closeTurn allow clock caller
      (extractToolCallsFromAssistant caller) (scanTurn caller st span))
    rw [hs.seen] at hset
    refine ⟨caller :: (rs ++ (span.filter (fun m => !isToolResult m) ++ t)), ?_,
      .turn hc hs.results (fun m hm => ?_) (hhead hrest) hset, fun _ x hx => ?_⟩
    · rw [hout, hs.out]
      simp
    · simp only [List.mem_filter, Bool.not_eq_true'] at hm
      exact ⟨hm.2, hspan m hm.1⟩
    · obtain rfl := Option.some.inj hx
      exact isCalling_isAssistant hc

/-- Without synthetic results the rebuilt list consists of messages of the input. -/
theorem repairFrom_out_subperm (clock : Nat → ℚ) (ms : List Message) (st : PairingState) :
    ∃ t, (repairFrom false clock ms 0 st).out = st.out ++ t ∧ t.Subperm ms := by
  induction ms using turn_induction generalizing st with
  | nil => exact ⟨[], by simp [repairFrom], .refl _⟩
  | other m rest hm ih =>
    rw [repairFrom_other hm]
    by_cases hr : isToolResult m = true
    · rw [if_pos hr]
      obtain ⟨t, hout, ht⟩ := ih st.dropOrphan
      exact ⟨t, hout, ht.trans (List.sublist_cons_self m rest).subperm⟩
    · rw [if_neg hr]
      obtain ⟨t, hout, ht⟩ := ih (st.push m)
      exact ⟨m :: t, by rw [hout]; simp [PairingState.push], (List.subperm_cons m).mpr ht⟩
  | turn caller span rest hc hspan hrest ih =>
    rw [repairFrom_turn hspan hrest hc]
    obtain ⟨rs, hs⟩ := closeTurn_closed false clock caller st span
    obtain ⟨t, hout, ht⟩ := ih (closeTurn false clock caller
      (extractToolCallsFromAssistant caller) (scanTurn caller st span))
    refine ⟨caller :: (rs ++ span.filter (fun m => !isToolResult m)) ++ t, ?_, ?_⟩
    · rw [hout, hs.out]
      simp
    · -- The results are distinct messages of the span, apart from the others there.
      have hrs : rs.Subperm (span.filter isToolResult) := by
        apply List.subperm_of_subset hs.results.nodup_messages
        intro r hr
        exact List.mem_filter.mpr ⟨hs.fromSpan rfl r hr, (hs.results.result r hr).1⟩
      have hspan' : (rs ++ span.filter fun m => !isToolResult m).Subperm span :=
        ((List.subperm_append_right _).mpr hrs).trans
          (List.filter_append_perm isToolResult span).subperm
      exact (List.subperm_cons caller).mpr (List.Subperm.append hspan' ht)

theorem repair_idempotent (allow : Bool) (clock clock' : Nat → ℚ) (ms : List Message) :
    (repairToolUseResultPairing allow clock'
        (repairToolUseResultPairing allow clock ms).messages).messages =
      (repairToolUseResultPairing allow clock ms).messages := by
  rw [repair_messages ms]
  by_cases hc : (repairFrom allow clock ms 0 {}).changed = true
  · rw [if_pos hc, repair_messages]
    obtain ⟨t, hout, hset, -⟩ := repairFrom_out_settled allow clock ms {}
    rw [hout, List.nil_append, repairFrom_settled hset {} rfl]
    simp
  · rw [if_neg hc]
    have hun : (repairFrom allow clock' ms 0 {}).changed = false := by
      rw [repair_unchanged_iff, ← repair_unchanged_iff allow clock]
      simpa using hc
    rw [repair_messages, hun]
    rfl

end T560.Transcript
