import T560.Transcript.Pairing
import T560.Transcript.Repair

/-!
# The repair, turn by turn

The loop of `repairToolUseResultPairing` as equations on whole turns: a message that
makes no call is one step, a calling message takes its span up to the next assistant
message with it.
-/

namespace T560.Transcript

variable {allow : Bool} {clock : Nat → ℚ}

/-- The assistant messages whose span the repair rebuilds. -/
def isCalling (msg : Message) : Bool :=
  expectsResults msg && !(extractToolCallsFromAssistant msg).isEmpty

/-- Everything up to the next assistant message. -/
def spanOf (ms : List Message) : List Message := ms.takeWhile fun m => !isAssistant m

def afterSpan (ms : List Message) : List Message := ms.dropWhile fun m => !isAssistant m

theorem isCalling_expectsResults {m : Message} (h : isCalling m = true) :
    expectsResults m = true := by
  simp only [isCalling, Bool.and_eq_true] at h
  exact h.1

theorem isCalling_isAssistant {m : Message} (h : isCalling m = true) : isAssistant m = true :=
  expectsResults_isAssistant (isCalling_expectsResults h)

theorem callIds_eq_nil_of_not_calling {m : Message} (h : isCalling m = false)
    (he : expectsResults m = true) : callIds m = [] := by
  simp only [isCalling, he, Bool.true_and, Bool.not_eq_false', List.isEmpty_iff] at h
  simp [callIds, h]

theorem mem_spanOf {ms : List Message} {m : Message} (h : m ∈ spanOf ms) :
    isAssistant m = false := by
  simpa using List.mem_takeWhile_imp h

theorem spanOf_append_afterSpan (ms : List Message) : spanOf ms ++ afterSpan ms = ms :=
  List.takeWhile_append_dropWhile

theorem head?_afterSpan {ms : List Message} {m : Message} (h : (afterSpan ms).head? = some m) :
    isAssistant m = true := by
  have := List.head?_dropWhile_not (fun m => !isAssistant m) ms
  rw [afterSpan] at h
  simpa [h] using this

theorem repairFrom_skip (n : Nat) (ms : List Message) (st : PairingState) :
    repairFrom allow clock ms n st = repairFrom allow clock (ms.drop n) 0 st := by
  induction n generalizing ms with
  | zero => simp
  | succ n ih =>
    cases ms with
    | nil => simp [repairFrom]
    | cons m ms => simpa [repairFrom] using ih ms

theorem scanSpan_eq_foldl (ids : List String) (sc : SpanScan) (ms : List Message) :
    scanSpan ids sc ms = (spanOf ms).foldl (scanNext ids) sc := by
  induction ms generalizing sc with
  | nil => rfl
  | cons m ms ih =>
    by_cases hm : isAssistant m = true
    · simp [scanSpan, spanOf, hm]
    · simp only [Bool.not_eq_true] at hm
      simp [scanSpan, spanOf, hm, ih]

@[simp]
theorem scanNext_consumed (ids : List String) (sc : SpanScan) (m : Message) :
    (scanNext ids sc m).consumed = sc.consumed + 1 := by
  simp only [scanNext]
  split
  · rfl
  · split
    · split_ifs <;> rfl
    · rfl

theorem foldl_scanNext_consumed (ids : List String) (sc : SpanScan) (span : List Message) :
    (span.foldl (scanNext ids) sc).consumed = sc.consumed + span.length := by
  induction span generalizing sc with
  | nil => rfl
  | cons m span ih =>
    rw [List.foldl_cons, ih, scanNext_consumed, List.length_cons]
    omega

/-- The span behind a calling message, scanned from the given state. -/
def scanTurn (caller : Message) (st : PairingState) (span : List Message) : SpanScan :=
  span.foldl (scanNext (callIds caller)) { state := st }

theorem repairFrom_other {m : Message} {rest : List Message} {st : PairingState}
    (h : isCalling m = false) :
    repairFrom allow clock (m :: rest) 0 st =
      repairFrom allow clock rest 0 (if isToolResult m then st.dropOrphan else st.push m) := by
  by_cases ha : isAssistant m = true
  · have hr := not_toolResult_of_assistant ha
    by_cases hs : stoppedEarly m = true
    · simp [repairFrom, ha, hs, hr]
    · have hc : extractToolCallsFromAssistant m = [] := by
        simpa [isCalling, expectsResults, ha, hs] using h
      simp [repairFrom, ha, hs, hr, hc]
  · simp [repairFrom, ha]

theorem repairFrom_calling {m : Message} {rest : List Message} {st : PairingState}
    (h : isCalling m = true) :
    repairFrom allow clock (m :: rest) 0 st =
      repairFrom allow clock (afterSpan rest) 0
        (closeTurn allow clock m (extractToolCallsFromAssistant m)
          (scanTurn m st (spanOf rest))) := by
  have ha := isCalling_isAssistant h
  simp only [isCalling, expectsResults, Bool.and_eq_true, Bool.not_eq_true'] at h
  have hdrop : rest.drop (spanOf rest).length = afterSpan rest := by
    have := congrArg (List.drop (spanOf rest).length) (spanOf_append_afterSpan rest)
    rw [← this, List.drop_left]
  have hscan : scanSpan ((extractToolCallsFromAssistant m).map (·.id)) { state := st } rest =
      scanTurn m st (spanOf rest) := scanSpan_eq_foldl _ _ _
  have hconsumed : (scanTurn m st (spanOf rest)).consumed = (spanOf rest).length := by
    rw [scanTurn, foldl_scanNext_consumed]
    simp
  simp only [repairFrom, ha, h.1.2, h.2, Bool.not_true, Bool.false_eq_true, if_false]
  rw [hscan, repairFrom_skip, hconsumed, hdrop]

/-- Induction over a transcript along the steps of the repair. -/
theorem turn_induction {P : List Message → Prop} (nil : P [])
    (other : ∀ m rest, isCalling m = false → P rest → P (m :: rest))
    (turn : ∀ caller span rest, isCalling caller = true →
      (∀ m ∈ span, isAssistant m = false) → (∀ m, rest.head? = some m → isAssistant m = true) →
      P rest → P (caller :: (span ++ rest))) (ms : List Message) : P ms := by
  induction hn : ms.length using Nat.strong_induction_on generalizing ms with
  | _ n ih =>
    cases ms with
    | nil => exact nil
    | cons m rest =>
      by_cases hm : isCalling m = true
      · have hlen : (afterSpan rest).length ≤ rest.length := List.length_dropWhile_le _ _
        rw [← spanOf_append_afterSpan rest]
        refine turn m _ _ hm (fun x hx => mem_spanOf hx) (fun x hx => head?_afterSpan hx) ?_
        exact ih _ (by simp only [List.length_cons] at hn; omega) _ rfl
      · exact other m rest (by simpa using hm) (ih _ (by simp at hn; omega) _ rfl)

section Span
variable {span rest : List Message} (hspan : ∀ m ∈ span, isAssistant m = false)
  (hrest : ∀ m, rest.head? = some m → isAssistant m = true)
include hspan hrest

theorem spanOf_append : spanOf (span ++ rest) = span := by
  unfold spanOf
  rw [List.takeWhile_append_of_pos (by simpa using hspan)]
  cases rest with
  | nil => simp
  | cons m rest => simp [hrest m rfl]

theorem afterSpan_append : afterSpan (span ++ rest) = rest := by
  unfold afterSpan
  rw [List.dropWhile_append_of_pos (by simpa using hspan)]
  cases rest with
  | nil => simp
  | cons m rest => simp [hrest m rfl]

theorem repairFrom_turn {caller : Message} (hc : isCalling caller = true) (st : PairingState) :
    repairFrom allow clock (caller :: (span ++ rest)) 0 st =
      repairFrom allow clock rest 0
        (closeTurn allow clock caller (extractToolCallsFromAssistant caller)
          (scanTurn caller st span)) := by
  rw [repairFrom_calling hc, spanOf_append hspan hrest, afterSpan_append hspan hrest]

theorem takeWhile_span : (span ++ rest).takeWhile isToolResult = span.takeWhile isToolResult := by
  induction span with
  | nil =>
    cases rest with
    | nil => rfl
    | cons m rest => simp [not_toolResult_of_assistant (hrest m rfl)]
  | cons m span ih =>
    by_cases hm : isToolResult m = true
    · simp [hm, ih (fun x hx => hspan x (by simp [hx]))]
    · simp [hm]

theorem runs_turn {caller : Message} (hc : isCalling caller = true) :
    runs (caller :: (span ++ rest)) = (caller, span.takeWhile isToolResult) :: runs rest := by
  have hskip : runs (span ++ rest) = runs rest := by
    clear hrest
    induction span with
    | nil => rfl
    | cons m span ih =>
      have hm : expectsResults m = false := by
        simp [expectsResults, hspan m (by simp)]
      simp [runs, hm, ih (fun x hx => hspan x (by simp [hx]))]
  simp [runs, isCalling_expectsResults hc, hskip, takeWhile_span hspan hrest]

end Span

end T560.Transcript
