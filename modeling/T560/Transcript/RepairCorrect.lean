import Mathlib.Data.List.Chain
import Mathlib.Data.List.Nodup
import T560.Transcript.RepairSpec

/-!
# The repaired transcript

The list the repair rebuilds is always well paired. The list it returns is the rebuilt
one only when a branch set `changed`; `Untouched` says on the input when none did.
-/

namespace T560.Transcript

variable {allow : Bool} {clock : Nat → ℚ}

theorem isEmpty_iff_lookup {l : List (String × Message)} :
    l.isEmpty = true ↔ ∀ id, l.lookup id = none := by
  cases l with
  | nil => simp
  | cons x l =>
    simp only [List.isEmpty_cons, Bool.false_eq_true, false_iff, not_forall]
    exact ⟨x.1, by simp⟩

/-- The span of a turn gives the repair no reason to set `changed`. -/
structure TurnClean (allow : Bool) (ids seen : List String) (span : List Message) : Prop where
  accepted : ∀ m ∈ span, isToolResult m = true → accepts ids seen m = true
  unmixed : (∀ id, firstResult ids seen span id = none) ∨ ∀ m ∈ span, isToolResult m = true
  complete : allow = true → ∀ id ∈ ids, (firstResult ids seen span id).isSome = true
  single : (ids.filter fun id => (firstResult ids seen span id).isSome).Nodup

/-- Closing a turn: what it appends, and when it leaves `changed` alone. -/
structure TurnSpec (allow : Bool) (caller : Message) (span : List Message)
    (st res : PairingState) (results : List Message) : Prop where
  out : res.out = st.out ++ caller :: (results ++ span.filter fun m => !isToolResult m)
  seen : res.seenToolResultIds = st.seenToolResultIds ++ resultIds results
  nodup : (resultIds results).Nodup
  result : ∀ r ∈ results, isToolResult r = true ∧ Answers (callIds caller) r
  fresh : ∀ id ∈ resultIds results, id ∉ st.seenToolResultIds
  moved : (st.moved = true → st.changed = true) → res.moved = true → res.changed = true
  unchanged : res.changed = false ↔
    st.changed = false ∧ TurnClean allow (callIds caller) st.seenToolResultIds span
  ids : res.changed = false → resultIds results = (callIds caller).filter fun id =>
    (firstResult (callIds caller) st.seenToolResultIds span id).isSome

section Open
variable {ids : List String} {caller : Message} {st : PairingState} {span : List Message}
  {sc : SpanScan}

theorem openTurn_spec (caller : Message) (hs : ScanSpec ids { state := st } span sc) :
    (openTurn caller sc).out = st.out ++ [caller] ∧
      (openTurn caller sc).seenToolResultIds = st.seenToolResultIds := by
  unfold openTurn
  split_ifs <;> exact ⟨by simp [PairingState.push, hs.out], hs.seen⟩

theorem openTurn_moved (hs : ScanSpec ids { state := st } span sc)
    (hmv : st.moved = true → st.changed = true) (h : (openTurn caller sc).moved = true) :
    (openTurn caller sc).changed = true := by
  unfold openTurn at h ⊢
  split_ifs at h ⊢
  · rfl
  · have : st.moved = true := by simpa [PairingState.push, hs.moved] using h
    simp [PairingState.push, hs.changed, hmv this]

theorem openTurn_unchanged_iff (hs : ScanSpec ids { state := st } span sc) :
    (openTurn caller sc).changed = false ↔ st.changed = false ∧
      (∀ m ∈ span, isToolResult m = true → accepts ids st.seenToolResultIds m = true) ∧
      ((∀ id, firstResult ids st.seenToolResultIds span id = none) ∨
        ∀ m ∈ span, isToolResult m = true) := by
  have hrem : sc.remainder.isEmpty = true ↔ ∀ m ∈ span, isToolResult m = true := by
    simp [hs.remainder]
  have hemp : sc.spanResultsById.isEmpty = true ↔
      ∀ id, firstResult ids st.seenToolResultIds span id = none := by
    rw [isEmpty_iff_lookup]
    simp [hs.lookup]
  have hscan : sc.state.changed = false ↔ st.changed = false ∧ ∀ m ∈ span,
      isToolResult m = true → accepts ids st.seenToolResultIds m = true := by
    rw [hs.changed]
    simp
  rw [← hrem, ← hemp]
  by_cases h1 : sc.spanResultsById.isEmpty = true <;>
    by_cases h2 : sc.remainder.isEmpty = true <;>
    simp [openTurn, PairingState.push, h1, h2, hscan]

end Open

theorem closeTurn_spec (allow : Bool) (clock : Nat → ℚ) (caller : Message)
    (st : PairingState) (span : List Message) :
    ∃ results, TurnSpec allow caller span st
      (closeTurn allow clock caller (extractToolCallsFromAssistant caller)
        (scanTurn caller st span)) results := by
  set sc := scanTurn caller st span with hsc
  have hs : ScanSpec (callIds caller) { state := st } span sc := scan_spec _ _ _
  have hlookup : ∀ id, sc.spanResultsById.lookup id =
      firstResult (callIds caller) st.seenToolResultIds span id := fun id => by
    simpa using hs.lookup id
  obtain ⟨hout, hseen⟩ := openTurn_spec caller hs
  have hcalls := pushResultOf_calls allow clock sc.spanResultsById (fun id m h => by
      rw [hlookup id] at h
      have := firstResult_spec h
      exact ⟨this.2.1, this.2.2.1⟩)
    (extractToolCallsFromAssistant caller) (fun c hc => mem_calls_id_ne hc) (openTurn caller sc)
  obtain ⟨results, hp, hids⟩ := hcalls.pushed
  have hfound : foundIds sc.spanResultsById (extractToolCallsFromAssistant caller) =
      (callIds caller).filter fun id =>
        (firstResult (callIds caller) st.seenToolResultIds span id).isSome := by
    simp only [foundIds, callIds, hlookup]
  refine ⟨results, ?_, ?_, hp.nodup, ?_, ?_, ?_, ?_, ?_⟩
  · simp [closeTurn, hp.out, hout, hs.remainder]
  · simp [closeTurn, hp.seen, hseen]
  · intro r hr
    obtain ⟨h1, id, h2, h3, -⟩ := hp.result r hr
    exact ⟨h1, id, h3, h2⟩
  · intro id hid
    obtain ⟨r, hr, hrid⟩ := List.mem_filterMap.mp hid
    obtain ⟨-, id', h2, -, h4⟩ := hp.result r hr
    rw [hrid] at h2
    obtain rfl := Option.some.inj h2
    rwa [hseen] at h4
  · intro hmv hres
    have h2 : (openTurn caller sc).moved = true := by rw [← hcalls.moved]; exact hres
    have h3 := openTurn_moved hs hmv h2
    by_contra hc
    have hfold : (closeTurn allow clock caller (extractToolCallsFromAssistant caller) sc).changed =
        false := by simpa using hc
    have := (hcalls.unchanged.mp hfold).1
    simp [h3] at this
  · show PairingState.changed _ = false ↔ _
    rw [closeTurn, hcalls.unchanged, hfound, openTurn_unchanged_iff hs, hseen]
    constructor
    · rintro ⟨⟨h1, h2, h3⟩, h4, h5, -⟩
      refine ⟨h1, h2, h3, fun ha id hid => ?_, h5⟩
      obtain ⟨c, hc, rfl⟩ := List.mem_map.mp hid
      rw [← hlookup]
      exact h4 ha c hc
    · rintro ⟨h1, h2, h3, h4, h5⟩
      refine ⟨⟨h1, h2, h3⟩, fun ha c hc => ?_, h5, fun id hid => ?_⟩
      · rw [hlookup]
        exact h4 ha c.id (List.mem_map_of_mem hc)
      · obtain ⟨m, hm⟩ := Option.isSome_iff_exists.mp (List.mem_filter.mp hid).2
        exact (firstResult_spec hm).2.2.2.2
  · intro hres
    rw [hids hres, hfound]

theorem answeredFrom_nil_head {t : List Message} (h : answeredFrom [] t) {m : Message}
    (hm : t.head? = some m) : isToolResult m = false := by
  cases t with
  | nil => simp at hm
  | cons x t =>
    obtain rfl := Option.some.inj hm
    by_contra hr
    simp only [Bool.not_eq_false] at hr
    simp only [answeredFrom, hr, if_true] at h
    obtain ⟨id, hid, -⟩ := h.1
    simp at hid

theorem takeWhile_eq_nil_of_head {t : List Message}
    (h : ∀ m, t.head? = some m → isToolResult m = false) : t.takeWhile isToolResult = [] := by
  cases t with
  | nil => rfl
  | cons x t => simp [h x rfl]

theorem answeredFrom_mono {ids ids' : List String} {t : List Message}
    (hsub : ∀ id ∈ ids, id ∈ ids') (h : answeredFrom ids t) : answeredFrom ids' t := by
  induction t with
  | nil => trivial
  | cons m t ih =>
    by_cases hm : isToolResult m = true
    · simp only [answeredFrom, hm, if_true] at h ⊢
      obtain ⟨⟨id, hid, he⟩, h⟩ := h
      exact ⟨⟨id, hsub id hid, he⟩, ih h⟩
    · simp only [answeredFrom, hm, Bool.false_eq_true, if_false] at h ⊢
      exact h

theorem answeredFrom_quiet_append {xs rest : List Message}
    (hx : ∀ m ∈ xs, isToolResult m = false ∧ isAssistant m = false) (h : answeredFrom [] rest) :
    answeredFrom [] (xs ++ rest) := by
  induction xs with
  | nil => exact h
  | cons x xs ih =>
    obtain ⟨hr, ha⟩ := hx x (by simp)
    have he : expectsResults x = false := by simp [expectsResults, ha]
    simpa [answeredFrom, hr, he] using ih (fun m hm => hx m (by simp [hm]))

theorem answeredFrom_results_append {ids : List String} {rs rest : List Message}
    (hr : ∀ r ∈ rs, isToolResult r = true ∧ Answers ids r) (h : answeredFrom ids rest) :
    answeredFrom ids (rs ++ rest) := by
  induction rs with
  | nil => exact h
  | cons r rs ih =>
    obtain ⟨h1, h2⟩ := hr r (by simp)
    simpa [answeredFrom, h1, h2] using ih (fun x hx => hr x (by simp [hx]))

/-- A rebuilt turn in front of a paired list. -/
theorem paired_turn {caller : Message} {results others rest : List Message}
    (hc : expectsResults caller = true)
    (hr : ∀ r ∈ results, isToolResult r = true ∧ Answers (callIds caller) r)
    (ho : ∀ m ∈ others, isToolResult m = false ∧ isAssistant m = false)
    (h : answeredFrom [] rest) :
    answeredFrom [] (caller :: (results ++ (others ++ rest))) := by
  have htail := answeredFrom_mono (fun id hid => absurd hid (by simp) : ∀ id ∈ [], id ∈ callIds caller)
    (answeredFrom_quiet_append ho h)
  simpa [answeredFrom, expectsResults_not_toolResult hc, hc] using
    answeredFrom_results_append hr htail

/-- The ids of all results of a transcript, in order. -/
def allResultIds (ms : List Message) : List String := resultIds (ms.filter isToolResult)

theorem allResultIds_append (xs ys : List Message) :
    allResultIds (xs ++ ys) = allResultIds xs ++ allResultIds ys := by
  simp [allResultIds, resultIds]

theorem allResultIds_of_results {xs : List Message} (h : ∀ m ∈ xs, isToolResult m = true) :
    allResultIds xs = resultIds xs := by
  rw [allResultIds, List.filter_eq_self.mpr h]

theorem allResultIds_eq_nil {xs : List Message} (h : ∀ m ∈ xs, isToolResult m = false) :
    allResultIds xs = [] := by
  rw [allResultIds, List.filter_eq_nil_iff.mpr (by simpa using h), resultIds, List.filterMap_nil]

theorem run_ids_sublist {ms : List Message} {t : Message × List Message} (h : t ∈ runs ms) :
    (resultIds t.2).Sublist (allResultIds ms) := by
  induction ms with
  | nil => simp [runs] at h
  | cons m ms ih =>
    have hcons : (allResultIds ms).Sublist (allResultIds (m :: ms)) := by
      rw [← List.singleton_append, allResultIds_append]
      exact List.sublist_append_right _ _
    by_cases he : expectsResults m = true
    · simp only [runs, he, if_true, List.mem_cons] at h
      rcases h with rfl | h
      · have hres : ∀ x ∈ ms.takeWhile isToolResult, isToolResult x = true :=
          fun x hx => List.mem_takeWhile_imp hx
        have hsplit := allResultIds_append (ms.takeWhile isToolResult) (ms.dropWhile isToolResult)
        rw [List.takeWhile_append_dropWhile, allResultIds_of_results hres] at hsplit
        refine List.Sublist.trans ?_ hcons
        rw [hsplit]
        exact List.sublist_append_left _ _
      · exact (ih h).trans hcons
    · simp only [runs, he, Bool.false_eq_true, if_false] at h
      exact (ih h).trans hcons

/-- Whatever the input, the rebuilt list answers in place and answers no id twice. -/
theorem repairFrom_out (allow : Bool) (clock : Nat → ℚ) (ms : List Message) (st : PairingState) :
    ∃ t, (repairFrom allow clock ms 0 st).out = st.out ++ t ∧ answeredFrom [] t ∧
      (allResultIds t).Nodup ∧ ∀ id ∈ allResultIds t, id ∉ st.seenToolResultIds := by
  induction ms using turn_induction generalizing st with
  | nil => exact ⟨[], by simp [repairFrom], trivial, by simp [allResultIds, resultIds],
      by simp [allResultIds, resultIds]⟩
  | other m rest hm ih =>
    rw [repairFrom_other hm]
    by_cases hr : isToolResult m = true
    · simp only [hr, if_true]
      exact ih st.dropOrphan
    · simp only [hr, Bool.false_eq_true, if_false]
      obtain ⟨t, hout, hans, hnd⟩ := ih (st.push m)
      have hcall : (if expectsResults m then callIds m else []) = [] := by
        by_cases he : expectsResults m = true
        · simp [he, callIds_eq_nil_of_not_calling hm he]
        · simp [he]
      refine ⟨m :: t, by rw [hout]; simp [PairingState.push],
        by simpa [answeredFrom, hr, hcall] using hans, ?_⟩
      simpa [allResultIds, hr, PairingState.push] using hnd
  | turn caller span rest hc hspan hrest ih =>
    rw [repairFrom_turn hspan hrest hc]
    obtain ⟨results, hs⟩ := closeTurn_spec allow clock caller st span
    obtain ⟨t, hout, hans, hnd, hfresh⟩ := ih (closeTurn allow clock caller
      (extractToolCallsFromAssistant caller) (scanTurn caller st span))
    have hothers : ∀ m ∈ span.filter (fun m => !isToolResult m),
        isToolResult m = false ∧ isAssistant m = false := by
      intro m hm
      simp only [List.mem_filter, Bool.not_eq_true'] at hm
      exact ⟨hm.2, hspan m hm.1⟩
    have hids : allResultIds (caller :: (results ++ (span.filter (fun m => !isToolResult m) ++ t))) =
        resultIds results ++ allResultIds t := by
      have hcaller := not_toolResult_of_assistant (isCalling_isAssistant hc)
      rw [← List.singleton_append, allResultIds_append, allResultIds_append, allResultIds_append,
        allResultIds_of_results fun r hr => (hs.result r hr).1,
        allResultIds_eq_nil fun m hm => (hothers m hm).1,
        allResultIds_eq_nil (by simpa using hcaller : ∀ m ∈ [caller], isToolResult m = false)]
      simp
    refine ⟨caller :: (results ++ (span.filter (fun m => !isToolResult m) ++ t)), ?_,
      paired_turn (isCalling_expectsResults hc) hs.result hothers hans, ?_, ?_⟩
    · rw [hout, hs.out]
      simp
    · rw [hids, List.nodup_append]
      refine ⟨hs.nodup, hnd, fun id hid id' hid' he => ?_⟩
      subst he
      apply hfresh id hid'
      rw [hs.seen]
      exact List.mem_append_right _ hid
    · rw [hids]
      intro id hid
      rcases List.mem_append.mp hid with hid | hid
      · exact hs.fresh id hid
      · have := hfresh id hid
        rw [hs.seen, List.mem_append, not_or] at this
        exact this.1

theorem repairFrom_moved (allow : Bool) (clock : Nat → ℚ) (ms : List Message) (st : PairingState)
    (h : st.moved = true → st.changed = true) :
    (repairFrom allow clock ms 0 st).moved = true →
      (repairFrom allow clock ms 0 st).changed = true := by
  induction ms using turn_induction generalizing st with
  | nil => simpa [repairFrom] using h
  | other m rest hm ih =>
    rw [repairFrom_other hm]
    apply ih
    by_cases hr : isToolResult m = true <;> simp [hr, PairingState.dropOrphan, PairingState.push]
    exact h
  | turn caller span rest hc hspan hrest ih =>
    rw [repairFrom_turn hspan hrest hc]
    obtain ⟨results, hs⟩ := closeTurn_spec allow clock caller st span
    exact ih _ (hs.moved h)

/-- A result is followed only by another result or by the next assistant message. -/
abbrev Follows (m n : Message) : Prop :=
  isToolResult m = true → isToolResult n = true ∨ isAssistant n = true

/-- No branch of the repair sets `changed`: nothing is out of place, no span mixes results
with other messages, no id is answered in two turns or called twice where it is answered,
and no answer is missing that would have to be synthesized. Repeated results inside one
run are not mentioned, because the scan skips them silently. -/
structure Untouched (allow : Bool) (ms : List Message) : Prop where
  answered : Answered ms
  followed : ms.IsChain Follows
  once : (runs ms).Pairwise fun t u => ∀ id ∈ resultIds t.2, id ∉ resultIds u.2
  single : ∀ t ∈ runs ms, ∀ id ∈ resultIds t.2, (callIds t.1).count id = 1
  complete : allow = true → ∀ t ∈ runs ms, ∀ id ∈ callIds t.1, id ∈ resultIds t.2

/-- `Untouched` behind turns that already answered the given ids. -/
def UntouchedAfter (allow : Bool) (seen : List String) (ms : List Message) : Prop :=
  Untouched allow ms ∧ ∀ t ∈ runs ms, ∀ id ∈ resultIds t.2, id ∉ seen

theorem untouchedAfter_nil (seen : List String) : UntouchedAfter allow seen [] :=
  ⟨⟨(answered_iff_answeredFrom _).mpr trivial, List.isChain_nil, by simp [runs], by simp [runs],
    by simp [runs]⟩, by simp [runs]⟩

theorem not_untouched_of_result {m : Message} {rest : List Message}
    (h : isToolResult m = true) : ¬ Untouched allow (m :: rest) := by
  intro hu
  have := answeredFrom_nil_head ((answered_iff_answeredFrom _).mp hu.answered) (m := m) rfl
  simp [h] at this

theorem untouchedAfter_other {seen : List String} {m : Message} {rest : List Message}
    (hm : isCalling m = false) (hr : isToolResult m = false) :
    UntouchedAfter allow seen (m :: rest) ↔ UntouchedAfter allow seen rest := by
  have hans : Answered (m :: rest) ↔ Answered rest := by
    have hcall : (if expectsResults m then callIds m else []) = [] := by
      by_cases he : expectsResults m = true
      · simp [he, callIds_eq_nil_of_not_calling hm he]
      · simp [he]
    simp only [answered_iff_answeredFrom, answeredFrom, hr, Bool.false_eq_true, if_false, hcall]
  have hchain : (m :: rest).IsChain Follows ↔ rest.IsChain Follows := by
    simp [List.isChain_cons, hr]
  -- A message that expects results but makes no call only adds an empty run.
  have hruns : Answered rest → runs (m :: rest) = runs rest ∨
      (callIds m = [] ∧ runs (m :: rest) = (m, []) :: runs rest) := by
    intro h
    by_cases he : expectsResults m = true
    · refine Or.inr ⟨callIds_eq_nil_of_not_calling hm he, ?_⟩
      have hrun := takeWhile_eq_nil_of_head fun x hx =>
        answeredFrom_nil_head ((answered_iff_answeredFrom _).mp h) hx
      simp [runs, he, hrun]
    · exact Or.inl (by simp [runs, he])
  constructor
  · rintro ⟨⟨h1, h2, h3, h4, h5⟩, h6⟩
    have h1' := hans.mp h1
    rcases hruns h1' with he | ⟨-, he⟩
    · rw [he] at h3 h4 h5 h6
      exact ⟨⟨h1', hchain.mp h2, h3, h4, h5⟩, h6⟩
    · rw [he] at h3 h4 h5 h6
      exact ⟨⟨h1', hchain.mp h2, (List.pairwise_cons.mp h3).2,
        fun t ht => h4 t (List.mem_cons_of_mem _ ht),
        fun ha t ht => h5 ha t (List.mem_cons_of_mem _ ht)⟩,
        fun t ht => h6 t (List.mem_cons_of_mem _ ht)⟩
  · rintro ⟨⟨h1, h2, h3, h4, h5⟩, h6⟩
    rcases hruns h1 with he | ⟨hc, he⟩
    · rw [← he] at h3 h4 h5 h6
      exact ⟨⟨hans.mpr h1, hchain.mpr h2, h3, h4, h5⟩, h6⟩
    · refine ⟨⟨hans.mpr h1, hchain.mpr h2, ?_, ?_, ?_⟩, ?_⟩ <;> rw [he]
      · exact List.pairwise_cons.mpr ⟨by simp [resultIds], h3⟩
      · exact List.forall_mem_cons.mpr ⟨by simp [resultIds], h4⟩
      · exact fun ha => List.forall_mem_cons.mpr ⟨by simp [hc], h5 ha⟩
      · exact List.forall_mem_cons.mpr ⟨by simp [resultIds], h6⟩

theorem firstResult_isSome_iff {ids seen : List String} {span : List Message} {id : String} :
    (firstResult ids seen span id).isSome = true ↔
      id ∈ ids ∧ id ∉ seen ∧ ∃ m ∈ span, isToolResult m = true ∧ extractToolResultId m = some id := by
  constructor
  · intro h
    obtain ⟨m, hm⟩ := Option.isSome_iff_exists.mp h
    obtain ⟨h1, h2, h3, h4, h5⟩ := firstResult_spec hm
    exact ⟨h4, h5, m, h1, h2, h3⟩
  · rintro ⟨h1, h2, m, hm, hr, he⟩
    have ha : accepts ids seen m = true := accepts_iff.mpr ⟨id, he, h1, h2⟩
    simp only [firstResult, List.find?_isSome]
    exact ⟨m, hm, by simp [hr, ha, he]⟩

section Clean
variable {span : List Message}

/-- A clean turn holds answers only, or no result at all. -/
theorem turnClean_uniform {ids seen : List String} (h : TurnClean allow ids seen span) :
    (∀ m ∈ span, isToolResult m = true ∧ Answers ids m) ∨ ∀ m ∈ span, isToolResult m = false := by
  obtain ⟨h1, h2, -, -⟩ := h
  rcases h2 with h2 | h2
  · right
    intro m hm
    by_contra hr
    simp only [Bool.not_eq_false] at hr
    obtain ⟨id, he, hi, hs⟩ := accepts_iff.mp (h1 m hm hr)
    have := firstResult_isSome_iff.mpr ⟨hi, hs, m, hm, hr, he⟩
    simp [h2 id] at this
  · left
    intro m hm
    obtain ⟨id, he, hi, -⟩ := accepts_iff.mp (h1 m hm (h2 m hm))
    exact ⟨h2 m hm, id, hi, he⟩

/-- An id of the run is called, new and found. -/
theorem turnClean_run_id {ids seen : List String} (h : TurnClean allow ids seen span) {id : String}
    (hid : id ∈ resultIds (span.takeWhile isToolResult)) :
    id ∈ ids ∧ id ∉ seen ∧ (firstResult ids seen span id).isSome = true := by
  obtain ⟨m, hm, he⟩ := List.mem_filterMap.mp hid
  have hin : m ∈ span := (List.takeWhile_prefix _).subset hm
  have hr := List.mem_takeWhile_imp hm
  obtain ⟨id', he', hi, hs⟩ := accepts_iff.mp (h.accepted m hin hr)
  rw [he] at he'
  obtain rfl := Option.some.inj he'
  exact ⟨hi, hs, firstResult_isSome_iff.mpr ⟨hi, hs, m, hin, hr, he⟩⟩

theorem turnClean_of_results {ids seen : List String}
    (h : ∀ m ∈ span, isToolResult m = true ∧ Answers ids m)
    (hfresh : ∀ id ∈ resultIds span, id ∉ seen) (hsingle : ∀ id ∈ resultIds span, ids.count id = 1)
    (hcomplete : allow = true → ∀ id ∈ ids, id ∈ resultIds span) :
    TurnClean allow ids seen span := by
  have hfound : ∀ id ∈ resultIds span, (firstResult ids seen span id).isSome = true := by
    intro id hid
    obtain ⟨m, hm, he⟩ := List.mem_filterMap.mp hid
    obtain ⟨id', hi, he'⟩ := (h m hm).2
    rw [he] at he'
    obtain rfl := Option.some.inj he'
    exact firstResult_isSome_iff.mpr ⟨hi, hfresh id hid, m, hm, (h m hm).1, he⟩
  refine ⟨?_, .inr fun m hm => (h m hm).1, fun ha id hid => hfound id (hcomplete ha id hid), ?_⟩
  · intro m hm _
    obtain ⟨id, hi, he⟩ := (h m hm).2
    exact accepts_iff.mpr ⟨id, he, hi, hfresh id (List.mem_filterMap.mpr ⟨m, hm, he⟩)⟩
  · apply List.nodup_iff_count_le_one.mpr
    intro id
    by_cases hf : (firstResult ids seen span id).isSome = true
    · obtain ⟨-, -, m, hm, -, he⟩ := firstResult_isSome_iff.mp hf
      rw [List.count_filter (by simpa using hf), hsingle id (List.mem_filterMap.mpr ⟨m, hm, he⟩)]
    · rw [List.count_eq_zero.mpr (by simp [hf])]
      omega

theorem turnClean_of_quiet {ids seen : List String} (h : ∀ m ∈ span, isToolResult m = false)
    (hcomplete : allow = true → ids = []) : TurnClean allow ids seen span := by
  have hnone : ∀ id, firstResult ids seen span id = none := by
    intro id
    by_contra hne
    obtain ⟨-, -, m, hm, hr, -⟩ := firstResult_isSome_iff.mp (Option.isSome_iff_ne_none.mpr hne)
    simp [h m hm] at hr
  refine ⟨?_, .inl hnone, ?_, by simp [hnone]⟩
  · intro m hm hr
    simp [h m hm] at hr
  · intro ha id hid
    simp [hcomplete ha] at hid

/-- The conditions of a clean turn, read off its run of results. -/
theorem turnClean_iff {ids seen : List String} :
    TurnClean allow ids seen span ↔
      ((∀ m ∈ span, isToolResult m = true ∧ Answers ids m) ∨ ∀ m ∈ span, isToolResult m = false) ∧
      (∀ id ∈ resultIds (span.takeWhile isToolResult), id ∉ seen) ∧
      (∀ id ∈ resultIds (span.takeWhile isToolResult), ids.count id = 1) ∧
      (allow = true → ∀ id ∈ ids, id ∈ resultIds (span.takeWhile isToolResult)) := by
  constructor
  · intro h
    refine ⟨turnClean_uniform h, fun id hid => (turnClean_run_id h hid).2.1, ?_, ?_⟩
    · intro id hid
      obtain ⟨hi, -, hfound⟩ := turnClean_run_id h hid
      have hone := List.nodup_iff_count_le_one.mp h.single id
      rw [List.count_filter (by simpa using hfound)] at hone
      have := List.count_pos_iff.mpr hi
      omega
    · intro ha id hid
      obtain ⟨-, -, m, hm, hr, he⟩ := firstResult_isSome_iff.mp (h.complete ha id hid)
      refine List.mem_filterMap.mpr ⟨m, ?_, he⟩
      rcases turnClean_uniform h with hres | hquiet
      · rwa [List.takeWhile_eq_self_iff.mpr fun x hx => (hres x hx).1]
      · simp [hquiet m hm] at hr
  · rintro ⟨hres | hquiet, hfresh, hsingle, hcomplete⟩
    · have hrun : span.takeWhile isToolResult = span :=
        List.takeWhile_eq_self_iff.mpr fun x hx => (hres x hx).1
      rw [hrun] at hfresh hsingle hcomplete
      exact turnClean_of_results hres hfresh hsingle hcomplete
    · have hrun : span.takeWhile isToolResult = [] :=
        takeWhile_eq_nil_of_head fun m hm => hquiet m (List.mem_of_head? hm)
      rw [hrun] at hcomplete
      refine turnClean_of_quiet hquiet fun ha => List.eq_nil_iff_forall_not_mem.mpr ?_
      intro id hid
      simpa [resultIds] using hcomplete ha id hid

theorem mem_found_iff {ids seen : List String} (h : TurnClean allow ids seen span) {id : String} :
    id ∈ ids.filter (fun id => (firstResult ids seen span id).isSome) ↔
      id ∈ resultIds (span.takeWhile isToolResult) := by
  obtain ⟨hmix, hfresh, -, -⟩ := turnClean_iff.mp h
  rw [List.mem_filter, firstResult_isSome_iff]
  constructor
  · rintro ⟨-, -, -, m, hm, hr, he⟩
    refine List.mem_filterMap.mpr ⟨m, ?_, he⟩
    rcases hmix with h | h
    · rwa [List.takeWhile_eq_self_iff.mpr fun x hx => (h x hx).1]
    · simp [h m hm] at hr
  · intro hid
    obtain ⟨m, hm, he⟩ := List.mem_filterMap.mp hid
    have hr := List.mem_takeWhile_imp hm
    have hms : m ∈ span := (List.takeWhile_prefix _).subset hm
    obtain ⟨id', he', hi, hs⟩ := accepts_iff.mp (h.accepted m hms hr)
    rw [he] at he'
    obtain rfl := Option.some.inj he'
    exact ⟨hi, hi, hs, m, hms, hr, he⟩

end Clean

section Span
variable {span rest : List Message} (hspan : ∀ m ∈ span, isAssistant m = false)
  (hrest : ∀ m, rest.head? = some m → isAssistant m = true)
include hspan

theorem answeredFrom_span {ids : List String} :
    (answeredFrom ids span ∧ span.IsChain Follows) ↔
      ((∀ m ∈ span, isToolResult m = true ∧ Answers ids m) ∨ ∀ m ∈ span, isToolResult m = false) := by
  induction span generalizing ids with
  | nil => simp [answeredFrom]
  | cons m span ih =>
    have ih' := fun ids => @ih (fun x hx => hspan x (by simp [hx])) ids
    rw [List.isChain_cons]
    by_cases hm : isToolResult m = true
    · simp only [answeredFrom, hm, if_true, List.mem_cons, forall_eq_or_imp, true_and,
        Bool.true_eq_false, false_and, or_false]
      constructor
      · rintro ⟨⟨h1, h2⟩, h3, h4⟩
        refine ⟨h1, ?_⟩
        rcases (ih' ids).mp ⟨h2, h4⟩ with h | h
        · exact h
        · intro x hx
          cases span with
          | nil => simp at hx
          | cons y span =>
            have hy := h3 y rfl hm
            simp [h y (by simp), hspan y (by simp)] at hy
      · rintro ⟨h1, h2⟩
        obtain ⟨h3, h4⟩ := (ih' ids).mpr (Or.inl h2)
        refine ⟨⟨h1, h3⟩, fun y hy _ => Or.inl ?_, h4⟩
        exact (h2 y (List.mem_of_head? hy)).1
    · have he : expectsResults m = false := by simp [expectsResults, hspan m (by simp)]
      have hf : isToolResult m = false := by simpa using hm
      simp only [answeredFrom, hf, he, Bool.false_eq_true, if_false, List.mem_cons,
        forall_eq_or_imp, false_and, false_or, true_and, Follows, false_implies, implies_true]
      rw [ih' []]
      constructor
      · rintro (h | h)
        · intro x hx
          obtain ⟨id, hid, -⟩ := (h x hx).2
          simp at hid
        · exact h
      · exact Or.inr

include hrest

theorem answeredFrom_append_rest {ids : List String} :
    answeredFrom ids (span ++ rest) ↔ answeredFrom ids span ∧ answeredFrom [] rest := by
  induction span generalizing ids with
  | nil =>
    cases rest with
    | nil => simp [answeredFrom]
    | cons m rest =>
      have := not_toolResult_of_assistant (hrest m rfl)
      simp [answeredFrom, this]
  | cons m span ih =>
    have ih' := fun ids => @ih (fun x hx => hspan x (by simp [hx])) ids
    by_cases hm : isToolResult m = true
    · simp [answeredFrom, hm, ih', and_assoc]
    · simp [answeredFrom, hm, ih']

omit hspan in
theorem isChain_turn {caller : Message} (hc : isAssistant caller = true) :
    (caller :: (span ++ rest)).IsChain Follows ↔ span.IsChain Follows ∧ rest.IsChain Follows := by
  have hr := not_toolResult_of_assistant hc
  rw [List.isChain_cons, List.isChain_append]
  constructor
  · rintro ⟨-, h1, h2, -⟩
    exact ⟨h1, h2⟩
  · rintro ⟨h1, h2⟩
    exact ⟨fun y _ h => by simp [hr] at h, h1, h2, fun x _ y hy _ => Or.inr (hrest y hy)⟩

theorem untouchedAfter_turn {caller : Message} (hc : isCalling caller = true)
    {seen : List String} :
    UntouchedAfter allow seen (caller :: (span ++ rest)) ↔
      TurnClean allow (callIds caller) seen span ∧
        UntouchedAfter allow (seen ++ (callIds caller).filter fun id =>
          (firstResult (callIds caller) seen span id).isSome) rest := by
  have he := isCalling_expectsResults hc
  have hans : (Answered (caller :: (span ++ rest)) ∧
      (caller :: (span ++ rest)).IsChain Follows) ↔
      ((∀ m ∈ span, isToolResult m = true ∧ Answers (callIds caller) m) ∨
        ∀ m ∈ span, isToolResult m = false) ∧ Answered rest ∧ rest.IsChain Follows := by
    rw [← answeredFrom_span hspan, isChain_turn hrest (isCalling_isAssistant hc),
      answered_iff_answeredFrom, answered_iff_answeredFrom]
    simp only [answeredFrom, expectsResults_not_toolResult he, he, Bool.false_eq_true, if_false,
      if_true, answeredFrom_append_rest hspan hrest]
    tauto
  have hrun := runs_turn hspan hrest hc
  constructor
  · rintro ⟨⟨h1, h2, h3, h4, h5⟩, h6⟩
    rw [hrun] at h3 h4 h5 h6
    obtain ⟨hmix, hrans, hrchain⟩ := hans.mp ⟨h1, h2⟩
    obtain ⟨honce, h3⟩ := List.pairwise_cons.mp h3
    obtain ⟨hsingle, h4⟩ := List.forall_mem_cons.mp h4
    obtain ⟨hfresh, h6⟩ := List.forall_mem_cons.mp h6
    have hclean : TurnClean allow (callIds caller) seen span := turnClean_iff.mpr
      ⟨hmix, hfresh, hsingle, fun ha => (List.forall_mem_cons.mp (h5 ha)).1⟩
    refine ⟨hclean, ⟨hrans, hrchain, h3, h4, fun ha => (List.forall_mem_cons.mp (h5 ha)).2⟩, ?_⟩
    intro t ht id hid hin
    rcases List.mem_append.mp hin with hin | hin
    · exact h6 t ht id hid hin
    · exact honce t ht id ((mem_found_iff hclean).mp hin) hid
  · rintro ⟨hclean, ⟨h1, h2, h3, h4, h5⟩, h6⟩
    obtain ⟨hmix, hfresh, hsingle, hcomplete⟩ := turnClean_iff.mp hclean
    obtain ⟨g1, g2⟩ := hans.mpr ⟨hmix, h1, h2⟩
    refine ⟨⟨g1, g2, ?_, ?_, ?_⟩, ?_⟩ <;> rw [hrun]
    · refine List.pairwise_cons.mpr ⟨fun t ht id hid hin => ?_, h3⟩
      exact h6 t ht id hin (List.mem_append_right _ ((mem_found_iff hclean).mpr hid))
    · exact List.forall_mem_cons.mpr ⟨hsingle, h4⟩
    · exact fun ha => List.forall_mem_cons.mpr ⟨hcomplete ha, h5 ha⟩
    · refine List.forall_mem_cons.mpr ⟨hfresh, fun t ht id hid hin => ?_⟩
      exact h6 t ht id hid (List.mem_append_left _ hin)

end Span

theorem repairFrom_unchanged_iff (allow : Bool) (clock : Nat → ℚ) (ms : List Message) (st : PairingState) :
    (repairFrom allow clock ms 0 st).changed = false ↔
      st.changed = false ∧ UntouchedAfter allow st.seenToolResultIds ms := by
  induction ms using turn_induction generalizing st with
  | nil => simp [repairFrom, untouchedAfter_nil]
  | other m rest hm ih =>
    rw [repairFrom_other hm, ih]
    by_cases hr : isToolResult m = true
    · simp only [hr, if_true, PairingState.dropOrphan, Bool.true_eq_false, false_and, false_iff,
        not_and]
      exact fun _ hu => not_untouched_of_result hr hu.1
    · simp only [Bool.not_eq_true] at hr
      simp [hr, PairingState.push, untouchedAfter_other hm hr]
  | turn caller span rest hc hspan hrest ih =>
    rw [repairFrom_turn hspan hrest hc, ih]
    obtain ⟨results, hs⟩ := closeTurn_spec allow clock caller st span
    rw [untouchedAfter_turn hspan hrest hc]
    constructor
    · rintro ⟨h1, h2⟩
      obtain ⟨h3, h4⟩ := hs.unchanged.mp h1
      rw [hs.seen, hs.ids h1] at h2
      exact ⟨h3, h4, h2⟩
    · rintro ⟨h1, h2, h3⟩
      have h4 := hs.unchanged.mpr ⟨h1, h2⟩
      rw [hs.seen, hs.ids h4]
      exact ⟨h4, h3⟩

theorem repair_unchanged_iff (allow : Bool) (clock : Nat → ℚ) (ms : List Message) :
    (repairFrom allow clock ms 0 {}).changed = false ↔ Untouched allow ms := by
  rw [repairFrom_unchanged_iff]
  simp [UntouchedAfter]

/-- The repair returns its input exactly when no branch set `changed`. -/
theorem repair_messages (ms : List Message) :
    (repairToolUseResultPairing allow clock ms).messages =
      if (repairFrom allow clock ms 0 {}).changed then (repairFrom allow clock ms 0 {}).out
      else ms := by
  have hm := repairFrom_moved allow clock ms {} (by simp)
  simp only [repairToolUseResultPairing]
  by_cases hc : (repairFrom allow clock ms 0 {}).changed = true
  · simp [hc]
  · have : (repairFrom allow clock ms 0 {}).moved = false := by
      by_contra h
      exact hc (hm (by simpa using h))
    simp [hc, this]

/-- A transcript whose only damage is a result repeated inside one run. -/
def OnlyRepeats (allow : Bool) (ms : List Message) : Prop :=
  Untouched allow ms ∧ ∃ t ∈ runs ms, ¬ (resultIds t.2).Nodup

theorem repair_rebuilt_wellPaired (ms : List Message) :
    WellPaired (repairFrom allow clock ms 0 {}).out := by
  obtain ⟨t, hout, hans, hnd, -⟩ := repairFrom_out allow clock ms {}
  rw [hout, List.nil_append]
  exact ⟨(answered_iff_answeredFrom _).mpr hans, fun u hu => hnd.sublist (run_ids_sublist hu)⟩

/-- The returned transcript is well paired unless the only damage was a repeated result:
then no branch notices, and the input comes back with the repetition in it. -/
theorem repair_wellPaired_iff (allow : Bool) (clock : Nat → ℚ) (ms : List Message) :
    WellPaired (repairToolUseResultPairing allow clock ms).messages ↔ ¬ OnlyRepeats allow ms := by
  rw [repair_messages]
  by_cases hc : (repairFrom allow clock ms 0 {}).changed = true
  · simp only [hc, if_true]
    refine iff_of_true (repair_rebuilt_wellPaired ms) fun h => ?_
    have := (repair_unchanged_iff allow clock ms).mpr h.1
    simp [hc] at this
  · have hu := (repair_unchanged_iff allow clock ms).mp (by simpa using hc)
    simp only [hc, Bool.false_eq_true, if_false]
    constructor
    · rintro ⟨-, hnd⟩ ⟨-, t, ht, hrep⟩
      exact hrep (hnd t ht)
    · intro h
      refine ⟨hu.answered, fun t ht => ?_⟩
      by_contra hrep
      exact h ⟨hu, t, ht, hrep⟩

/-- One call answered twice, directly behind its message. -/
def repeatedResultTranscript : List Message :=
  [.obj [("role", .str "assistant"),
      ("content", .arr [.obj [("type", .str "toolCall"), ("id", .str "call-1"),
        ("name", .str "exec"), ("arguments", .obj [])]])],
    .obj [("role", .str "toolResult"), ("toolCallId", .str "call-1")],
    .obj [("role", .str "toolResult"), ("toolCallId", .str "call-1")]]

theorem repeated_result_survives_repair :
    ¬ WellPaired
        (repairToolUseResultPairing true (fun _ => 0) repeatedResultTranscript).messages ∧
      ¬ WellPaired
        (repairToolUseResultPairing false (fun _ => 0) repeatedResultTranscript).messages := by
  decide

end T560.Transcript
