import T560.Transcript.RepairTurns

/-! What the span scan and the closing of a turn do to each field of the repair state. -/
namespace T560.Transcript

/-- A result the scan keeps: it answers a call of the turn that no earlier turn answered. -/
def accepts (ids seen : List String) (m : Message) : Bool :=
  match extractToolResultId m with
  | some id => decide (id ∈ ids) && decide (id ∉ seen)
  | none => false

/-- The first result of the span that the scan keeps for an id. -/
def firstResult (ids seen : List String) (span : List Message) (id : String) : Option Message :=
  span.find? fun m => isToolResult m && accepts ids seen m && extractToolResultId m == some id

theorem accepts_iff {ids seen : List String} {m : Message} :
    accepts ids seen m = true ↔
      ∃ id, extractToolResultId m = some id ∧ id ∈ ids ∧ id ∉ seen := by
  unfold accepts
  cases extractToolResultId m <;> simp

theorem firstResult_spec {ids seen : List String} {span : List Message} {id : String}
    {m : Message} (h : firstResult ids seen span id = some m) :
    m ∈ span ∧ isToolResult m = true ∧ extractToolResultId m = some id ∧
      id ∈ ids ∧ id ∉ seen := by
  have hp := List.find?_some h
  simp only [Bool.and_eq_true, beq_iff_eq] at hp
  obtain ⟨id', he, hi, hs⟩ := accepts_iff.mp hp.1.2
  rw [hp.2] at he
  obtain rfl := Option.some.inj he
  exact ⟨List.mem_of_find?_eq_some h, hp.1.1, hp.2, hi, hs⟩

section Scan
variable {ids : List String} {sc : SpanScan} {m : Message}

theorem scanNext_other (h : isToolResult m = false) :
    scanNext ids sc m =
      { sc with consumed := sc.consumed + 1, remainder := sc.remainder ++ [m] } := by
  simp [scanNext, h]

theorem scanNext_rejected (h : isToolResult m = true)
    (ha : accepts ids sc.state.seenToolResultIds m = false) :
    ∃ st : PairingState, scanNext ids sc m =
        { sc with consumed := sc.consumed + 1, state := st } ∧
      st.out = sc.state.out ∧ st.added = sc.state.added ∧
      st.seenToolResultIds = sc.state.seenToolResultIds ∧ st.moved = sc.state.moved ∧
      st.changed = true := by
  cases he : extractToolResultId m with
  | none =>
    exact ⟨sc.state.dropOrphan, by simp [scanNext, h, he], rfl, rfl, rfl, rfl, rfl⟩
  | some id =>
    by_cases hi : id ∈ ids
    · have hs : id ∈ sc.state.seenToolResultIds := by
        simpa [accepts, he, hi] using ha
      exact ⟨sc.state.dropDuplicate, by simp [scanNext, h, he, hi, hs], rfl, rfl, rfl, rfl, rfl⟩
    · exact ⟨sc.state.dropOrphan, by simp [scanNext, h, he, hi], rfl, rfl, rfl, rfl, rfl⟩

theorem scanNext_accepted {id : String} (h : isToolResult m = true)
    (he : extractToolResultId m = some id)
    (ha : accepts ids sc.state.seenToolResultIds m = true) :
    scanNext ids sc m =
      { sc with
        consumed := sc.consumed + 1
        spanResultsById :=
          if (sc.spanResultsById.lookup id).isSome then sc.spanResultsById
          else sc.spanResultsById ++ [(id, m)] } := by
  obtain ⟨id', he', hi, hs⟩ := accepts_iff.mp ha
  rw [he] at he'
  obtain rfl := Option.some.inj he'
  by_cases hl : (sc.spanResultsById.lookup id).isSome = true <;>
    simp [scanNext, h, he, hi, hs, hl]

end Scan

theorem lookup_append_single {α β : Type} [BEq α] [LawfulBEq α] (l : List (α × β)) (a b : α)
    (x : β) : (l ++ [(a, x)]).lookup b = (l.lookup b).or (if b == a then some x else none) := by
  rw [List.lookup_append]
  by_cases h : b = a
  · subst h
    simp
  · have hb : (b == a) = false := by simpa using h
    simp [List.lookup_cons, hb]

/-- The scan of a span, field by field. -/
structure ScanSpec (ids : List String) (sc : SpanScan) (span : List Message)
    (res : SpanScan) : Prop where
  out : res.state.out = sc.state.out
  added : res.state.added = sc.state.added
  seen : res.state.seenToolResultIds = sc.state.seenToolResultIds
  moved : res.state.moved = sc.state.moved
  changed : res.state.changed = (sc.state.changed ||
    span.any fun m => isToolResult m && !accepts ids sc.state.seenToolResultIds m)
  remainder : res.remainder = sc.remainder ++ span.filter fun m => !isToolResult m
  lookup : ∀ id, res.spanResultsById.lookup id =
    (sc.spanResultsById.lookup id).or (firstResult ids sc.state.seenToolResultIds span id)

theorem scan_spec (ids : List String) (sc : SpanScan) (span : List Message) :
    ScanSpec ids sc span (span.foldl (scanNext ids) sc) := by
  induction span generalizing sc with
  | nil => constructor <;> simp [firstResult]
  | cons m span ih =>
    rw [List.foldl_cons]
    have hr := ih (scanNext ids sc m)
    by_cases hm : isToolResult m = true
    · by_cases ha : accepts ids sc.state.seenToolResultIds m = true
      · obtain ⟨id, he, -⟩ := accepts_iff.mp ha
        rw [scanNext_accepted hm he ha] at hr ⊢
        refine ⟨hr.out, hr.added, hr.seen, hr.moved, by simpa [ha] using hr.changed,
          by simpa [hm] using hr.remainder, fun x => ?_⟩
        rw [hr.lookup x]
        by_cases hl : (sc.spanResultsById.lookup id).isSome = true
        · obtain ⟨y, hy⟩ := Option.isSome_iff_exists.mp hl
          by_cases hx : x = id
          · subst hx
            simp [hy]
          · have : id ≠ x := fun h => hx h.symm
            simp [hl, firstResult, he, this]
        · by_cases hx : x = id
          · subst hx
            simp [hl, lookup_append_single, firstResult, hm, ha, he]
          · have : id ≠ x := fun h => hx h.symm
            simp [hl, lookup_append_single, firstResult, he, hx, this]
      · simp only [Bool.not_eq_true] at ha
        obtain ⟨st, hst, h1, h2, h3, h4, h5⟩ := @scanNext_rejected ids sc m hm ha
        rw [hst] at hr ⊢
        refine ⟨hr.out.trans h1, hr.added.trans h2, hr.seen.trans h3, hr.moved.trans h4,
          by simpa [ha, hm, h5] using hr.changed, by simpa [hm] using hr.remainder, fun x => ?_⟩
        simpa [firstResult, ha, h3] using hr.lookup x
    · simp only [Bool.not_eq_true] at hm
      rw [scanNext_other hm] at hr ⊢
      refine ⟨hr.out, hr.added, hr.seen, hr.moved, by simpa [hm] using hr.changed,
        by simpa [hm] using hr.remainder, fun x => ?_⟩
      simpa [firstResult, hm] using hr.lookup x

section Close
variable {allow : Bool} {clock : Nat → ℚ}

theorem extract_makeMissingToolResult (t : ℚ) {id : String} (h : id ≠ "") (name : Option String) :
    extractToolResultId (makeMissingToolResult t id name) = some id := by
  simp [extractToolResultId, makeMissingToolResult, Js.Value.get?, List.lookup_cons, nonEmptyText, h]

theorem isToolResult_makeMissingToolResult (t : ℚ) (id : String) (name : Option String) :
    isToolResult (makeMissingToolResult t id name) = true := by
  simp [isRole, makeMissingToolResult, Js.Value.get?, Js.Value.isObject]

theorem mem_calls_id_ne {msg : Message} {c : ToolCallLike}
    (h : c ∈ extractToolCallsFromAssistant msg) : c.id ≠ "" := by
  unfold extractToolCallsFromAssistant at h
  split at h
  · obtain ⟨b, -, hb⟩ := List.mem_filterMap.mp h
    unfold toolCallOfBlock at hb
    split at hb
    · split_ifs at hb with hi
      simp only [Bool.and_eq_true, decide_eq_true_eq] at hi
      cases hb
      exact hi.1
    · simp at hb
  · simp at h

/-- Pushing a result that carries an id either appends it or drops a repetition. -/
theorem pushToolResult_eq {st : PairingState} {m : Message} {id : String}
    (h : extractToolResultId m = some id) :
    st.pushToolResult m =
      if id ∈ st.seenToolResultIds then st.dropDuplicate
      else { st with
        seenToolResultIds := st.seenToolResultIds ++ [id], out := st.out ++ [m] } := by
  simp [PairingState.pushToolResult, h, PairingState.push]

variable {results : List (String × Message)}

/-- The ids of the calls that have a result in the span. -/
def foundIds (results : List (String × Message)) (calls : List ToolCallLike) : List String :=
  (calls.map (·.id)).filter fun id => (results.lookup id).isSome

/-- What pushing the results of some calls appends to a state with the given seen ids. -/
structure Pushed (calls : List ToolCallLike) (st res : PairingState) (pushed : List Message) :
    Prop where
  out : res.out = st.out ++ pushed
  seen : res.seenToolResultIds = st.seenToolResultIds ++ resultIds pushed
  nodup : (resultIds pushed).Nodup
  result : ∀ r ∈ pushed, isToolResult r = true ∧ ∃ id, extractToolResultId r = some id ∧
    id ∈ calls.map (·.id) ∧ id ∉ st.seenToolResultIds

/-- The results of a turn: what its calls append, and when nothing had to change. -/
structure CallsSpec (allow : Bool) (results : List (String × Message))
    (calls : List ToolCallLike) (st res : PairingState) : Prop where
  pushed : ∃ pushed, Pushed calls st res pushed ∧
    (res.changed = false → resultIds pushed = foundIds results calls)
  moved : res.moved = st.moved
  unchanged : res.changed = false ↔ st.changed = false ∧
    (allow = true → ∀ c ∈ calls, (results.lookup c.id).isSome = true) ∧
    (foundIds results calls).Nodup ∧ ∀ id ∈ foundIds results calls, id ∉ st.seenToolResultIds

theorem Pushed.append {cs ds : List ToolCallLike} {st mid res : PairingState}
    {xs ys : List Message} (h : Pushed cs st mid xs) (g : Pushed ds mid res ys) :
    Pushed (cs ++ ds) st res (xs ++ ys) := by
  refine ⟨by rw [g.out, h.out, List.append_assoc],
    by rw [g.seen, h.seen, List.append_assoc, resultIds, resultIds, resultIds,
      List.filterMap_append], ?_, ?_⟩
  · rw [resultIds, List.filterMap_append, List.nodup_append]
    refine ⟨h.nodup, g.nodup, ?_⟩
    intro id hx id' hy he
    subst he
    obtain ⟨r, hr, hrid⟩ := List.mem_filterMap.mp hy
    obtain ⟨-, id', he, -, hfresh⟩ := g.result r hr
    rw [hrid] at he
    obtain rfl := Option.some.inj he
    rw [h.seen] at hfresh
    exact hfresh (List.mem_append_right _ hx)
  · intro r hr
    rcases List.mem_append.mp hr with hr | hr
    · obtain ⟨h1, id, h2, h3, h4⟩ := h.result r hr
      exact ⟨h1, id, h2, by simp only [List.map_append, List.mem_append]; exact Or.inl h3, h4⟩
    · obtain ⟨h1, id, h2, h3, h4⟩ := g.result r hr
      refine ⟨h1, id, h2, by simp only [List.map_append, List.mem_append]; exact Or.inr h3, ?_⟩
      rw [h.seen] at h4
      exact fun hin => h4 (List.mem_append_left _ hin)

theorem foundIds_append (cs ds : List ToolCallLike) :
    foundIds results (cs ++ ds) = foundIds results cs ++ foundIds results ds := by
  simp [foundIds]

theorem CallsSpec.append {cs ds : List ToolCallLike} {st mid res : PairingState}
    (h : CallsSpec allow results cs st mid) (g : CallsSpec allow results ds mid res) :
    CallsSpec allow results (cs ++ ds) st res := by
  obtain ⟨xs, hxs, hx⟩ := h.pushed
  obtain ⟨ys, hys, hy⟩ := g.pushed
  have hmid : res.changed = false → mid.changed = false := fun hres => (g.unchanged.mp hres).1
  refine ⟨⟨xs ++ ys, hxs.append hys, fun hres => ?_⟩, g.moved.trans h.moved, ?_⟩
  · rw [foundIds_append, ← hx (hmid hres), ← hy hres, resultIds, resultIds, resultIds,
      List.filterMap_append]
  · rw [g.unchanged, foundIds_append, List.nodup_append]
    constructor
    · rintro ⟨g1, g2, g3, g4⟩
      obtain ⟨h1, h2, h3, h4⟩ := h.unchanged.mp g1
      rw [hxs.seen, hx g1] at g4
      refine ⟨h1, fun ha c hc => ?_, ⟨h3, g3, fun id hid id' hid' he => ?_⟩, fun id hid => ?_⟩
      · rcases List.mem_append.mp hc with hc | hc
        · exact h2 ha c hc
        · exact g2 ha c hc
      · subst he
        exact g4 id hid' (List.mem_append_right _ hid)
      · rcases List.mem_append.mp hid with hid | hid
        · exact h4 id hid
        · exact fun hin => g4 id hid (List.mem_append_left _ hin)
    · rintro ⟨h1, h2, ⟨h3, h4, h5⟩, h6⟩
      have hm : mid.changed = false := h.unchanged.mpr
        ⟨h1, fun ha c hc => h2 ha c (List.mem_append_left _ hc), h3,
          fun id hid => h6 id (List.mem_append_left _ hid)⟩
      refine ⟨hm, fun ha c hc => h2 ha c (List.mem_append_right _ hc), h4, fun id hid => ?_⟩
      rw [hxs.seen, hx hm, List.mem_append, not_or]
      exact ⟨h6 id (List.mem_append_right _ hid), fun hin => h5 id hin id hid rfl⟩

/-- A result carrying the id of the call, pushed from a state that agrees with `st`. -/
theorem pushed_pushToolResult {c : ToolCallLike} {st st' : PairingState} {m : Message}
    (hout : st'.out = st.out) (hseen : st'.seenToolResultIds = st.seenToolResultIds)
    (hm : isToolResult m = true) (he : extractToolResultId m = some c.id) :
    Pushed [c] st (st'.pushToolResult m)
      (if c.id ∈ st.seenToolResultIds then [] else [m]) := by
  rw [pushToolResult_eq he, hseen]
  by_cases hs : c.id ∈ st.seenToolResultIds
  · simp only [hs, if_true]
    exact ⟨by simp [PairingState.dropDuplicate, hout],
      by simp [PairingState.dropDuplicate, hseen, resultIds], by simp [resultIds], by simp⟩
  · simp only [hs, if_false]
    refine ⟨by simp [hout], by simp [resultIds, he], by simp [resultIds, he], ?_⟩
    intro r hr
    obtain rfl := List.mem_singleton.mp hr
    exact ⟨hm, c.id, he, by simp, hs⟩

/-- One call: its result was found, has to be synthesized, or stays missing. -/
theorem pushResultOf_spec (allow : Bool) (clock : Nat → ℚ) (results : List (String × Message))
    (hres : ∀ id m, results.lookup id = some m →
      isToolResult m = true ∧ extractToolResultId m = some id)
    {c : ToolCallLike} (hc : c.id ≠ "") (st : PairingState) :
    CallsSpec allow results [c] st (pushResultOf allow clock results st c) := by
  cases hl : results.lookup c.id with
  | some m =>
    obtain ⟨hm, he⟩ := hres c.id m hl
    have hp : pushResultOf allow clock results st c = st.pushToolResult m := by
      simp [pushResultOf, hl]
    have hfound : foundIds results [c] = [c.id] := by simp [foundIds, hl]
    rw [hp]
    have hall : ∀ c' ∈ [c], (results.lookup c'.id).isSome = true := by
      intro c' hc'
      rw [List.mem_singleton.mp hc', hl]
      rfl
    refine ⟨⟨_, pushed_pushToolResult rfl rfl hm he, ?_⟩, ?_, ?_⟩ <;>
      rw [pushToolResult_eq he] <;> by_cases hs : c.id ∈ st.seenToolResultIds <;>
      simp only [hs, if_true, if_false, hfound, PairingState.dropDuplicate]
    · simp
    · simp [resultIds, he]
    · simp [hs]
    · exact ⟨fun h => ⟨h, fun _ => hall, by simp, by simpa using hs⟩, fun h => h.1⟩
  | none =>
    have hfound : foundIds results [c] = [] := by simp [foundIds, hl]
    by_cases ha : allow = true
    · have he := extract_makeMissingToolResult (clock st.added.length) hc c.name
      have hp := @pushed_pushToolResult c st { st with
          added := st.added ++ [makeMissingToolResult (clock st.added.length) c.id c.name]
          changed := true } _ rfl rfl
        (isToolResult_makeMissingToolResult (clock st.added.length) c.id c.name) he
      rw [show pushResultOf allow clock results st c = { st with
          added := st.added ++ [makeMissingToolResult (clock st.added.length) c.id c.name]
          changed := true }.pushToolResult
            (makeMissingToolResult (clock st.added.length) c.id c.name) by
        simp [pushResultOf, hl, ha]]
      have hmiss : ¬ ∀ c' ∈ [c], (results.lookup c'.id).isSome = true := by
        intro h
        have := h c (by simp)
        rw [hl] at this
        simp at this
      refine ⟨⟨_, hp, ?_⟩, ?_, ?_⟩ <;> rw [pushToolResult_eq he] <;> split_ifs
      · simp [PairingState.dropDuplicate]
      · simp
      · rfl
      · rfl
      · exact iff_of_false (by simp [PairingState.dropDuplicate]) (fun h => hmiss (h.2.1 ha))
      · exact iff_of_false (by simp) (fun h => hmiss (h.2.1 ha))
    · have hp : pushResultOf allow clock results st c = st := by
        simp [pushResultOf, hl, ha]
      rw [hp]
      refine ⟨⟨[], ⟨by simp, by simp [resultIds], by simp [resultIds], by simp⟩, ?_⟩, rfl, ?_⟩ <;>
        simp [hfound, ha, resultIds]

theorem pushResultOf_calls (allow : Bool) (clock : Nat → ℚ) (results : List (String × Message))
    (hres : ∀ id m, results.lookup id = some m →
      isToolResult m = true ∧ extractToolResultId m = some id)
    (calls : List ToolCallLike) (hcalls : ∀ c ∈ calls, c.id ≠ "") (st : PairingState) :
    CallsSpec allow results calls st (calls.foldl (pushResultOf allow clock results) st) := by
  induction calls generalizing st with
  | nil =>
    exact ⟨⟨[], ⟨by simp, by simp [resultIds], by simp [resultIds], by simp⟩,
      by simp [foundIds, resultIds]⟩, rfl, by simp [foundIds]⟩
  | cons c calls ih =>
    have hc := pushResultOf_spec allow clock results hres
      (hcalls c (by simp)) st
    exact hc.append (ih (fun x hx => hcalls x (by simp [hx])) _)

end Close

end T560.Transcript
