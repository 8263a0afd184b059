import T560.Transcript.Message

/-!
# Pairing of calls and results

What a transcript must look like for a provider to accept it, stated by position and
independently of any repair.
-/

namespace T560.Transcript

/-- A turn whose calls expect results: an assistant message that did not stop early. -/
def expectsResults (msg : Message) : Bool := isAssistant msg && !stoppedEarly msg

/-- The part before a message ends in a caller and an unbroken run of results. -/
def RunOf (before : List Message) (caller : Message) (run : List Message) : Prop :=
  (∃ earlier, before = earlier ++ caller :: run) ∧ expectsResults caller = true ∧
    ∀ r ∈ run, isToolResult r = true

/-- The result names a call of the given ids. -/
def Answers (ids : List String) (msg : Message) : Prop :=
  ∃ id ∈ ids, extractToolResultId msg = some id

instance (ids : List String) (msg : Message) : Decidable (Answers ids msg) :=
  inferInstanceAs (Decidable (∃ id ∈ ids, _))

/-- Every result stands in the run directly behind the message that called for it. -/
def Answered (ms : List Message) : Prop :=
  ∀ before m after, ms = before ++ m :: after → isToolResult m = true →
    ∃ caller run, RunOf before caller run ∧ Answers (callIds caller) m

/-- The ids a list of results carries. -/
def resultIds (run : List Message) : List String := run.filterMap extractToolResultId

/-- Each message that expects results, with the run of results directly behind it. -/
def runs : List Message → List (Message × List Message)
  | [] => []
  | m :: rest =>
    if expectsResults m then (m, rest.takeWhile isToolResult) :: runs rest else runs rest

/-- Every result is in the run of its caller, and no run answers an id twice. -/
def WellPaired (ms : List Message) : Prop :=
  Answered ms ∧ ∀ t ∈ runs ms, (resultIds t.2).Nodup

/-- `Answered`, checked from left to right: `open` are the ids the current run may answer. -/
def answeredFrom : List String → List Message → Prop
  | _, [] => True
  | ids, m :: rest =>
    if isToolResult m then Answers ids m ∧ answeredFrom ids rest
    else answeredFrom (if expectsResults m then callIds m else []) rest

instance decidableAnsweredFrom : ∀ ids ms, Decidable (answeredFrom ids ms)
  | _, [] => isTrue trivial
  | ids, m :: rest =>
    if h : isToolResult m = true then
      have := decidableAnsweredFrom ids rest
      decidable_of_iff (Answers ids m ∧ answeredFrom ids rest) (by simp [answeredFrom, h])
    else
      have := decidableAnsweredFrom (if expectsResults m then callIds m else []) rest
      decidable_of_iff (answeredFrom (if expectsResults m then callIds m else []) rest)
        (by simp [answeredFrom, h])

theorem expectsResults_isAssistant {m : Message} (h : expectsResults m = true) :
    isAssistant m = true := by
  simp only [expectsResults, Bool.and_eq_true] at h
  exact h.1

theorem expectsResults_not_toolResult {m : Message} (h : expectsResults m = true) :
    isToolResult m = false :=
  not_toolResult_of_assistant (expectsResults_isAssistant h)

/-- What a run may answer when it has passed the results `past` since the ids were opened. -/
def MayAnswer (ids : List String) (before : List Message) (m : Message) : Prop :=
  (∃ caller run, RunOf before caller run ∧ Answers (callIds caller) m) ∨
    ((∀ r ∈ before, isToolResult r = true) ∧ Answers ids m)

theorem mayAnswer_result {ids : List String} {r m : Message} {before : List Message}
    (hr : isToolResult r = true) : MayAnswer ids (r :: before) m ↔ MayAnswer ids before m := by
  constructor
  · rintro (⟨caller, run, ⟨⟨earlier, he⟩, hc, hrun⟩, ha⟩ | ⟨hall, ha⟩)
    · cases earlier with
      | nil =>
        obtain ⟨rfl, -⟩ := List.cons.inj he
        simp [expectsResults_not_toolResult hc] at hr
      | cons e earlier =>
        exact Or.inl ⟨caller, run, ⟨⟨earlier, (List.cons.inj he).2⟩, hc, hrun⟩, ha⟩
    · exact Or.inr ⟨fun x hx => hall x (by simp [hx]), ha⟩
  · rintro (⟨caller, run, ⟨⟨earlier, he⟩, hc, hrun⟩, ha⟩ | ⟨hall, ha⟩)
    · exact Or.inl ⟨caller, run, ⟨⟨r :: earlier, by simp [he]⟩, hc, hrun⟩, ha⟩
    · refine Or.inr ⟨fun x hx => ?_, ha⟩
      rcases List.mem_cons.mp hx with rfl | hx
      · exact hr
      · exact hall x hx

theorem mayAnswer_other {ids : List String} {x m : Message} {before : List Message}
    (hx : isToolResult x = false) :
    MayAnswer ids (x :: before) m ↔
      MayAnswer (if expectsResults x then callIds x else []) before m := by
  constructor
  · rintro (⟨caller, run, ⟨⟨earlier, he⟩, hc, hrun⟩, ha⟩ | ⟨hall, -⟩)
    · cases earlier with
      | nil =>
        obtain ⟨rfl, rfl⟩ := List.cons.inj he
        exact Or.inr ⟨hrun, by simpa [hc] using ha⟩
      | cons e earlier =>
        exact Or.inl ⟨caller, run, ⟨⟨earlier, (List.cons.inj he).2⟩, hc, hrun⟩, ha⟩
    · have := hall x (by simp)
      simp [hx] at this
  · rintro (⟨caller, run, ⟨⟨earlier, he⟩, hc, hrun⟩, ha⟩ | ⟨hall, ha⟩)
    · exact Or.inl ⟨caller, run, ⟨⟨x :: earlier, by simp [he]⟩, hc, hrun⟩, ha⟩
    · by_cases hc : expectsResults x = true
      · exact Or.inl ⟨x, before, ⟨⟨[], rfl⟩, hc, hall⟩, by simpa [hc] using ha⟩
      · obtain ⟨id, hid, -⟩ := ha
        simp [hc] at hid

theorem answeredFrom_iff (ids : List String) (ms : List Message) :
    answeredFrom ids ms ↔
      ∀ before m after, ms = before ++ m :: after → isToolResult m = true →
        MayAnswer ids before m := by
  induction ms generalizing ids with
  | nil => simp [answeredFrom]
  | cons x rest ih =>
    have split : (∀ before m after, x :: rest = before ++ m :: after → isToolResult m = true →
        MayAnswer ids before m) ↔
        ((isToolResult x = true → MayAnswer ids [] x) ∧
          ∀ before m after, rest = before ++ m :: after → isToolResult m = true →
            MayAnswer ids (x :: before) m) := by
      constructor
      · intro h
        refine ⟨h [] x rest rfl, fun before m after he => ?_⟩
        exact h (x :: before) m after (by simp [he])
      · rintro ⟨h0, h1⟩ before m after he hm
        cases before with
        | nil =>
          obtain ⟨rfl, -⟩ := List.cons.inj he
          exact h0 hm
        | cons b before =>
          obtain ⟨rfl, hrest⟩ := List.cons.inj he
          exact h1 before m after hrest hm
    rw [split]
    by_cases hx : isToolResult x = true
    · simp only [answeredFrom, hx, if_true, true_implies, ih ids, mayAnswer_result hx]
      have : MayAnswer ids [] x ↔ Answers ids x := by
        simp [MayAnswer, RunOf]
      rw [this]
    · have hx' : isToolResult x = false := by simpa using hx
      simp only [answeredFrom, hx', Bool.false_eq_true, if_false, false_implies, true_and, ih,
        mayAnswer_other hx']

theorem answered_iff_answeredFrom (ms : List Message) : Answered ms ↔ answeredFrom [] ms := by
  rw [answeredFrom_iff]
  simp [Answered, MayAnswer, Answers]

instance (ms : List Message) : Decidable (Answered ms) :=
  decidable_of_iff _ (answered_iff_answeredFrom ms).symm

instance (ms : List Message) : Decidable (WellPaired ms) :=
  inferInstanceAs (Decidable (Answered ms ∧ ∀ t ∈ runs ms, (resultIds t.2).Nodup))

end T560.Transcript
