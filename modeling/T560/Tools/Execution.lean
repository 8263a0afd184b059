import Mathlib.Data.List.Induction
import T560.Foundation.EventRun
import T560.Tools.Catalog
import T560.Tools.Contract

/-!
# The calls of a run

A run makes one tool call after the other and waits for each, for a limited time. A tool that is too late
goes on, and what it brings is not told any more; one that has settled may still report progress. Every
call gives the model one outcome, and the listeners of the run the events of its course.
-/

namespace T560.Tools

open Browser (normalizeToolArgs)
open Js (JsError Runtime Value)

structure ToolCall where
  id : String
  name : String
  arguments : Value

/-- `ended` is the phase `"end"`. -/
inductive Phase where
  | start
  | update
  | ended
  | error
  deriving DecidableEq, Repr

/-- An event of the stream `"tool"`. -/
structure ToolEvent where
  phase : Phase
  toolCallId : String
  name : ToolName
  args : Option Value := none
  partialResult : Option Value := none
  result : Option Value := none
  error : Option String := none

structure ToolOutcome where
  isError : Bool
  content : String

/-- `stringify` is `JSON.stringify(result, null, 2)`, and `errorText` the message of what a conversion
throws. -/
structure ExecutionEnv where
  rt : Runtime
  tools : List AnyAgentTool
  stringify : Value → String
  errorText : JsError → String
  toolExecutionTimeoutMs : Nat

section Events

def handleToolExecutionStart (toolCallId : String) (name : ToolName) (args : Value) : ToolEvent :=
  { phase := .start, toolCallId, name, args := some args }

def handleToolExecutionUpdate (toolCallId : String) (name : ToolName) (partialResult : Value) : ToolEvent :=
  { phase := .update, toolCallId, name, partialResult := some partialResult }

/-- An error without a text ends a call like a result. -/
def handleToolExecutionEnd (toolCallId : String) (name : ToolName) (result : Value) (error : Option String) :
    ToolEvent :=
  { phase := if error.any (· ≠ "") then .error else .ended, toolCallId, name, result := some result, error }

variable (env : ExecutionEnv)

def stringifyToolResult : Value → String
  | .str s => s
  | .null => ""
  | result => env.stringify result

/-- What a tool gave, in the shape of its contract. A found tool has the name that the name in the call is
normalized to. -/
def shapeResult (tool : AnyAgentTool) (now : ℚ) (rawResult : Value) : Except JsError Value := do
  let contractShaped ← applyToolResultContract env.rt now tool.name rawResult
  if tool.name = "browser" then compactBrowserToolResult contractShaped else return contractShaped

/-- The result or the error of a tool, as the events and the model get it. -/
def settle (tool : AnyAgentTool) (now : ℚ) (settled : Except String Value) : Except String Value :=
  match settled with
  | .error message => .error message
  | .ok rawResult =>
    match shapeResult env tool now rawResult with
    | .error e => .error (env.errorText e)
    | .ok result => .ok result

def outcomeOf : Except String Value → ToolOutcome
  | .error message => ⟨true, message⟩
  | .ok result => ⟨false, stringifyToolResult env result⟩

def endEvent (toolCallId : String) (name : ToolName) : Except String Value → ToolEvent
  | .error message => handleToolExecutionEnd toolCallId name (.str message) (some message)
  | .ok result => handleToolExecutionEnd toolCallId name result none

end Events

/-- A call of the run, with the tool that was started for it. -/
structure CallRecord where
  call : ToolCall
  tool : Option AnyAgentTool
  settled : Bool := false

def CallRecord.working (r : CallRecord) : Bool := r.tool.isSome && !r.settled

/-- `awaited` is the call that the run waits for. An event that was emitted stands with the number of the
call that it is about, and the outcomes stand in the order of the calls. -/
structure ToolRun where
  calls : List CallRecord := []
  awaited : Option Nat := none
  timedOutToolCallIds : List String := []
  emitted : List (Nat × ToolEvent) := []
  outcomes : List ToolOutcome := []

/-- The run comes to its next call, which the checkout workflow may block; a tool reports progress, or
settles; the time of the call that the run waits for is over. -/
inductive RunEvent where
  | call (toolCall : ToolCall) (blocked : Option String)
  | update (n : Nat) (partialResult : Value)
  | settled (n : Nat) (now : ℚ) (settled : Except String Value)
  | timeout

namespace ToolRun

variable (env : ExecutionEnv) (st : ToolRun)

def emit (n : Nat) (event : ToolEvent) : ToolRun := { st with emitted := st.emitted ++ [(n, event)] }

def answer (outcome : ToolOutcome) : ToolRun :=
  { st with outcomes := st.outcomes ++ [outcome], awaited := none }

def record (call : ToolCall) (tool : Option AnyAgentTool) : ToolRun :=
  { st with calls := st.calls ++ [{ call, tool }] }

/-- What the run does when a call throws, or is too late. -/
def giveUp (n : Nat) (call : ToolCall) (message : String) : ToolRun :=
  let st := { st with timedOutToolCallIds := st.timedOutToolCallIds ++ [call.id] }
  (st.emit n (handleToolExecutionEnd call.id (.text call.name) (.str message) (some message))).answer
    ⟨true, message⟩

def argumentsRecord (call : ToolCall) : Value := if call.arguments.isObject then call.arguments else .obj []

def makeCall (call : ToolCall) (blocked : Option String) : ToolRun :=
  let n := st.calls.length
  match blocked with
  | some message =>
    let st := (st.record call none).emit n
      (handleToolExecutionStart call.id (.text call.name) (argumentsRecord call))
    (st.emit n (handleToolExecutionEnd call.id (.text call.name) (.str message) (some message))).answer
      ⟨true, message⟩
  | none =>
    match findTool env.rt env.tools call.name with
    | none => (st.record call none).answer ⟨true, "Tool not found: " ++ call.name⟩
    | some tool =>
      match normalizeToolArgs env.rt tool.name call.arguments with
      | .error e => (st.record call none).giveUp n call (env.errorText e)
      | .ok args =>
        { (st.record call (some tool)).emit n
            (handleToolExecutionStart call.id (normalizeToolName env.rt call.name) args) with
          awaited := some n }

/-- The hook of an update does not look whether its tool has settled. -/
def update (n : Nat) (partialResult : Value) : ToolRun :=
  match st.calls[n]? with
  | some ⟨call, some _, _⟩ =>
    if call.id ∈ st.timedOutToolCallIds then st
    else st.emit n (handleToolExecutionUpdate call.id (normalizeToolName env.rt call.name) partialResult)
  | _ => st

def settled (n : Nat) (now : ℚ) (result : Except String Value) : ToolRun :=
  match st.calls[n]? with
  | some ⟨call, some tool, false⟩ =>
    let result := settle env tool now result
    let idle := { st with calls := st.calls.set n ⟨call, some tool, true⟩ }
    let told := if call.id ∈ st.timedOutToolCallIds then idle
      else idle.emit n (endEvent call.id (normalizeToolName env.rt call.name) result)
    if st.awaited = some n then told.answer (outcomeOf env result) else told
  | _ => st

/-- `Math.round(ms / 1000)` -/
def roundedSeconds (ms : Nat) : Nat := (ms + 500) / 1000

def timeoutMessage (call : ToolCall) : String :=
  "Tool '" ++ call.name ++ "' timed out after " ++ toString (roundedSeconds env.toolExecutionTimeoutMs) ++ "s."

def timeout : ToolRun :=
  match st.awaited with
  | none => st
  | some n =>
    match st.calls[n]? with
    | none => st
    | some r => st.giveUp n r.call (timeoutMessage env r.call)

/-- While the run waits for a call it makes no other. -/
def step : RunEvent → ToolRun
  | .call toolCall blocked => if st.awaited.isSome then st else st.makeCall env toolCall blocked
  | .update n partialResult => st.update env n partialResult
  | .settled n now result => st.settled env n now result
  | .timeout => st.timeout env

def eventsOf (n : Nat) : List ToolEvent := (st.emitted.filter (·.1 = n)).map Prod.snd

/-- An earlier call has the id of the call. -/
def SharesId (n : Nat) (id : String) : Prop := ∃ m < n, ∃ r, st.calls[m]? = some r ∧ r.call.id = id

end ToolRun

/-! ## The course of a call -/

section Course

/-- The event that ends a call shows an error just when the model is told one with a text. -/
def Closes (e : ToolEvent) (outcome : ToolOutcome) : Prop :=
  e.phase = if outcome.isError ∧ outcome.content ≠ "" then .error else .ended

theorem closes_endEvent (env : ExecutionEnv) (id : String) (name : ToolName) (result : Except String Value) :
    Closes (endEvent id name result) (outcomeOf env result) := by
  cases result with
  | error message => simp [Closes, endEvent, outcomeOf, handleToolExecutionEnd]
  | ok result => simp [Closes, endEvent, outcomeOf, handleToolExecutionEnd]

theorem closes_error (id : String) (name : ToolName) (result : Value) (message : String) :
    Closes (handleToolExecutionEnd id name result (some message)) ⟨true, message⟩ := by
  simp [Closes, handleToolExecutionEnd]

/-- Events that begin with a start, and go on with updates. -/
structure Running (s : ToolEvent) (updates : List ToolEvent) : Prop where
  start : s.phase = .start
  update : ∀ u ∈ updates, u.phase = .update

theorem running_start {s : ToolEvent} (h : s.phase = .start) : Running s [] :=
  ⟨h, fun _ hu => absurd hu List.not_mem_nil⟩

/-- How far a call has come, by whether a tool was started for it and is at work, its id is one that was
given up, an earlier call has its id, and the run waits for it. -/
inductive Course (started working late shared : Prop) : Bool → List ToolEvent → Option ToolOutcome → Prop
  | unknown {o : ToolOutcome} : ¬ started → o.isError = true → Course started working late shared false [] (some o)
  | refused {e : ToolEvent} {o : ToolOutcome} : ¬ started → o.isError = true → Closes e o →
      Course started working late shared false [e] (some o)
  | running {s : ToolEvent} {updates : List ToolEvent} : working → ¬ late → Running s updates →
      Course started working late shared true (s :: updates) none
  | muted {s : ToolEvent} : working → late → shared → s.phase = .start →
      Course started working late shared true [s] none
  | closed {s e : ToolEvent} {updates more : List ToolEvent} {o : ToolOutcome} : (working → late) →
      (more ≠ [] → ¬ working) → Running s (updates ++ more) → Closes e o →
      Course started working late shared false (s :: updates ++ e :: more) (some o)
  | mutedEnd {s : ToolEvent} {o : ToolOutcome} : ¬ working → late → shared → s.phase = .start →
      Course started working late shared false [s] (some o)

variable {started working late shared : Prop} {waits : Bool} {events : List ToolEvent}
  {outcome : Option ToolOutcome}

theorem Running.snoc {s u : ToolEvent} {updates : List ToolEvent} (h : Running s updates) (hu : u.phase = .update) :
    Running s (updates ++ [u]) := by
  refine ⟨h.start, fun v hv => ?_⟩
  rcases List.mem_append.mp hv with hold | hnew
  · exact h.update v hold
  · rw [List.mem_singleton.mp hnew]
    exact hu

/-- For a call that the run does not wait for it makes no difference which ids are given up later. -/
theorem Course.later {late' : Prop} (h : Course started working late shared waits events outcome)
    (hlate : late → late') (hwaits : waits = true → (late' → late)) :
    Course started working late' shared waits events outcome := by
  cases h with
  | unknown hs ho => exact .unknown hs ho
  | refused hs ho hc => exact .refused hs ho hc
  | running hw hl hr => exact .running hw (fun hl' => hl (hwaits rfl hl')) hr
  | muted hw hl hs hp => exact .muted hw (hlate hl) hs hp
  | closed hw hm hr hc => exact .closed (fun h => hlate (hw h)) hm hr hc
  | mutedEnd hw hl hs hp => exact .mutedEnd hw (hlate hl) hs hp

/-- The tool of the call reports progress, at work or settled. -/
theorem Course.update {u : ToolEvent} (h : Course started working late shared waits events outcome)
    (hstarted : started) (hl : ¬ late) (hu : u.phase = .update) :
    Course started working late shared waits (events ++ [u]) outcome := by
  cases h with
  | unknown hnot _ => exact absurd hstarted hnot
  | refused hnot _ _ => exact absurd hstarted hnot
  | running hw _ hr =>
    rw [List.cons_append]
    exact .running hw hl (hr.snoc hu)
  | muted _ hlate _ _ => exact absurd hlate hl
  | @closed s e updates more o hlate _ hr hc =>
    have hmore : Running s (updates ++ (more ++ [u])) := by
      rw [← List.append_assoc]
      exact hr.snoc hu
    rw [List.append_assoc, List.cons_append]
    exact .closed hlate (fun _ hw => hl (hlate hw)) hmore hc
  | mutedEnd _ hlate _ _ => exact absurd hlate hl

/-- The tool of the call settles. -/
theorem Course.settled {working' : Prop} {e : ToolEvent} {o : ToolOutcome}
    (h : Course started working late shared waits events outcome) (hstarted : started) (hw : working)
    (hnot : ¬ working') (hc : Closes e o) [Decidable late] :
    Course started working' late shared false (if late then events else events ++ [e])
      (if waits then some o else outcome) := by
  cases h with
  | unknown hno _ => exact absurd hstarted hno
  | refused hno _ _ => exact absurd hstarted hno
  | @running s updates _ hl hr =>
    rw [if_neg hl, if_pos rfl]
    exact .closed (fun h => absurd h hnot) (fun _ => hnot) (by rwa [List.append_nil]) hc
  | muted _ hl hs hp =>
    rw [if_pos hl, if_pos rfl]
    exact .mutedEnd hnot hl hs hp
  | closed hl _ hr hc' =>
    rw [if_pos (hl hw), if_neg Bool.false_ne_true]
    exact .closed (fun h => absurd h hnot) (fun _ => hnot) hr hc'
  | mutedEnd hno _ _ _ => exact absurd hw hno

/-- The run gives the call up. -/
theorem Course.gaveUp {late' : Prop} {e : ToolEvent} {o : ToolOutcome}
    (h : Course started working late shared true events outcome) (hl : late') (hc : Closes e o) :
    Course started working late' shared false (events ++ [e]) (some o) := by
  cases h with
  | running _ _ hr => exact .closed (fun _ => hl) (fun h => absurd rfl h) (by rwa [List.append_nil]) hc
  | @muted s _ _ _ hp =>
    exact @Course.closed _ _ _ _ s e [] [] o (fun _ => hl) (fun h => absurd rfl h) (running_start hp) hc

end Course

/-! ## The calls of a run keep their courses -/

namespace ToolRun

variable {env : ExecutionEnv} {st : ToolRun} {n : Nat}

def CourseOf (st : ToolRun) (n : Nat) (r : CallRecord) : Prop :=
  Course (r.tool.isSome = true) (r.working = true) (r.call.id ∈ st.timedOutToolCallIds) (st.SharesId n r.call.id)
    (decide (st.awaited = some n)) (st.eventsOf n) st.outcomes[n]?

/-- The run waits for the last call or for none, and every call is in its course. -/
structure Orderly (env : ExecutionEnv) (st : ToolRun) : Prop where
  length : st.calls.length = st.outcomes.length + st.awaited.toList.length
  awaited : ∀ {n}, st.awaited = some n → n + 1 = st.calls.length
  known : ∀ id ∈ st.timedOutToolCallIds, ∃ (m : Nat) (r : CallRecord), st.calls[m]? = some r ∧ r.call.id = id
  emitted : ∀ p ∈ st.emitted, ∃ r : CallRecord, st.calls[p.1]? = some r ∧ p.2.toolCallId = r.call.id
  course : ∀ (n : Nat) (r : CallRecord), st.calls[n]? = some r → st.CourseOf n r
  found : ∀ (n : Nat) (r : CallRecord) tool, st.calls[n]? = some r → r.tool = some tool →
    findTool env.rt env.tools r.call.name = some tool

theorem orderly_empty : Orderly env {} := by
  refine ⟨rfl, fun h => ?_, fun id h => absurd h List.not_mem_nil, fun p h => absurd h List.not_mem_nil,
    fun n r h => ?_, fun n r tool h => ?_⟩
  · cases h
  · simp at h
  · simp at h

theorem eventsOf_append {st' : ToolRun} {m : Nat} {events : List ToolEvent}
    (h : st'.emitted = st.emitted ++ events.map fun e => (m, e)) (n : Nat) :
    st'.eventsOf n = st.eventsOf n ++ if m = n then events else [] := by
  rw [eventsOf, eventsOf, h, List.filter_append, List.map_append]
  congr 1
  split_ifs with h
  · rw [List.filter_eq_self.mpr (by simp [h]), List.map_map]
    exact List.map_id events
  · rw [List.filter_eq_nil_iff.mpr (by simp [h])]
    rfl

theorem eventsOf_new (h : Orderly env st) : st.eventsOf st.calls.length = [] := by
  rw [eventsOf, List.map_eq_nil_iff, List.filter_eq_nil_iff]
  intro p hp heq
  obtain ⟨r, hr, -⟩ := h.emitted p hp
  have hlt := (List.getElem?_eq_some_iff.mp hr).1
  have : p.1 = st.calls.length := by simpa using heq
  omega

theorem getElem?_snoc {α : Type} {xs : List α} {x y : α} {k : Nat} (h : (xs ++ [x])[k]? = some y) :
    (k < xs.length ∧ xs[k]? = some y) ∨ (k = xs.length ∧ y = x) := by
  rcases Nat.lt_or_ge k xs.length with hlt | hge
  · rw [List.getElem?_append_left hlt] at h
    exact Or.inl ⟨hlt, h⟩
  · rw [List.getElem?_append_right hge, List.getElem?_singleton] at h
    split at h
    · cases h
      exact Or.inr ⟨by omega, rfl⟩
    · cases h

/-- What an earlier call has, is about the calls before it. -/
theorem sharesId_congr {st st' : ToolRun} {id : String}
    (h : ∀ m < n, (st.calls[m]?).map (·.call.id) = (st'.calls[m]?).map (·.call.id)) :
    st.SharesId n id ↔ st'.SharesId n id := by
  have hmap : ∀ (calls : List CallRecord) (m : Nat), (∃ r, calls[m]? = some r ∧ r.call.id = id) ↔
      (calls[m]?).map (·.call.id) = some id := by
    intro calls m
    rw [Option.map_eq_some_iff]
  constructor
  · rintro ⟨m, hm, hr⟩
    rw [hmap, h m hm, ← hmap] at hr
    exact ⟨m, hm, hr⟩
  · rintro ⟨m, hm, hr⟩
    rw [hmap, ← h m hm, ← hmap] at hr
    exact ⟨m, hm, hr⟩

/-- A call keeps its course while other calls take theirs. -/
theorem CourseOf.elsewhere {st' : ToolRun} {r : CallRecord} (h : st.CourseOf n r)
    (hevents : st'.eventsOf n = st.eventsOf n) (houtcome : st'.outcomes[n]? = st.outcomes[n]?)
    (hshares : st.SharesId n r.call.id ↔ st'.SharesId n r.call.id)
    (hwaits : st'.awaited = some n ↔ st.awaited = some n)
    (hids : ∀ id ∈ st.timedOutToolCallIds, id ∈ st'.timedOutToolCallIds)
    (hkept : st.awaited = some n → st'.timedOutToolCallIds = st.timedOutToolCallIds) : st'.CourseOf n r := by
  unfold CourseOf at h ⊢
  rw [hevents, houtcome, decide_eq_decide.mpr hwaits, ← propext hshares]
  refine h.later (hids _) fun hw hlate => ?_
  rw [← hkept (of_decide_eq_true hw)]
  exact hlate

section Made

variable {r : CallRecord} {events : List ToolEvent} {outcome : Option ToolOutcome} {ids : List String}

/-- A call is made, and brings its first events, and its outcome if it has one at once. -/
def made (st : ToolRun) (r : CallRecord) (events : List ToolEvent) (outcome : Option ToolOutcome)
    (ids : List String) : ToolRun where
  calls := st.calls ++ [r]
  awaited := if outcome.isSome then none else some st.calls.length
  timedOutToolCallIds := ids
  emitted := st.emitted ++ events.map fun e => (st.calls.length, e)
  outcomes := st.outcomes ++ outcome.toList

theorem call_made {k : Nat} {rk : CallRecord} (hk : st.calls[k]? = some rk) :
    (st.made r events outcome ids).calls[k]? = some rk :=
  (List.getElem?_append_left (List.getElem?_eq_some_iff.mp hk).1).trans hk

theorem sharesId_made {k : Nat} (hk : k ≤ st.calls.length) (id : String) :
    st.SharesId k id ↔ (st.made r events outcome ids).SharesId k id := by
  refine sharesId_congr fun m hm => ?_
  rw [made, List.getElem?_append_left (by omega)]

/-- Before a call every other one has its outcome. -/
theorem Orderly.outcomes_idle (h : Orderly env st) (hidle : st.awaited = none) :
    st.calls.length = st.outcomes.length := by
  have hlength := h.length
  rw [hidle] at hlength
  simpa using hlength

theorem Orderly.known_made (h : Orderly env st)
    (hids : ids = st.timedOutToolCallIds ∨ ids = st.timedOutToolCallIds ++ [r.call.id]) :
    ∀ id ∈ ids, ∃ (m : Nat) (rm : CallRecord),
      (st.made r events outcome ids).calls[m]? = some rm ∧ rm.call.id = id := by
  intro id hid
  have hknown : id ∈ st.timedOutToolCallIds ∨ id = r.call.id := by
    rcases hids with rfl | rfl
    · exact Or.inl hid
    · simpa using hid
  rcases hknown with hold | rfl
  · obtain ⟨m, rm, hrm, hid'⟩ := h.known id hold
    exact ⟨m, rm, call_made hrm, hid'⟩
  · exact ⟨st.calls.length, r, by simp [made], rfl⟩

theorem Orderly.emitted_made (h : Orderly env st) (hevents : ∀ e ∈ events, e.toolCallId = r.call.id) :
    ∀ p ∈ (st.made r events outcome ids).emitted, ∃ rp : CallRecord,
      (st.made r events outcome ids).calls[p.1]? = some rp ∧ p.2.toolCallId = rp.call.id := by
  intro p hp
  rcases List.mem_append.mp hp with hold | hnew
  · obtain ⟨rp, hrp, hid⟩ := h.emitted p hold
    exact ⟨rp, call_made hrp, hid⟩
  · obtain ⟨e, he, rfl⟩ := List.mem_map.mp hnew
    exact ⟨r, by simp [made], hevents e he⟩

/-- The calls before it. -/
theorem Orderly.course_before (h : Orderly env st) (hidle : st.awaited = none)
    (hids : ids = st.timedOutToolCallIds ∨ ids = st.timedOutToolCallIds ++ [r.call.id])
    {k : Nat} {rk : CallRecord} (hk : st.calls[k]? = some rk) :
    (st.made r events outcome ids).CourseOf k rk := by
  have hlt := (List.getElem?_eq_some_iff.mp hk).1
  have hlength := h.outcomes_idle hidle
  refine (h.course k rk hk).elsewhere ?_ ?_ (sharesId_made (by omega) _) ?_ ?_ ?_
  · rw [eventsOf_append rfl k, if_neg (by omega), List.append_nil]
  · exact List.getElem?_append_left (by omega)
  · rw [hidle]
    cases outcome with
    | none =>
      have hne : st.calls.length ≠ k := by omega
      simpa [made] using hne
    | some o => simp [made]
  · intro id hid
    rcases hids with rfl | rfl
    · exact hid
    · exact List.mem_append_left _ hid
  · intro hwaits
    rw [hidle] at hwaits
    cases hwaits

/-- The call itself. -/
theorem Orderly.course_made (h : Orderly env st) (hidle : st.awaited = none)
    (hcourse : Course (r.tool.isSome = true) (r.working = true) (r.call.id ∈ ids) (st.SharesId st.calls.length r.call.id)
      outcome.isNone events outcome) :
    (st.made r events outcome ids).CourseOf st.calls.length r := by
  have hout : (st.made r events outcome ids).outcomes[st.calls.length]? = outcome := by
    rw [made, h.outcomes_idle hidle, List.getElem?_append_right (Nat.le_refl _), Nat.sub_self]
    cases outcome <;> rfl
  have hwaits : decide ((st.made r events outcome ids).awaited = some st.calls.length) = outcome.isNone := by
    cases outcome <;> simp [made]
  unfold CourseOf
  rw [← propext (sharesId_made (Nat.le_refl _) r.call.id), eventsOf_append rfl, if_pos rfl, eventsOf_new h,
    List.nil_append, hout, hwaits]
  exact hcourse

/-- A run stays orderly with a call that is made while it waits for none. -/
theorem Orderly.makes (h : Orderly env st) (hidle : st.awaited = none)
    (hevents : ∀ e ∈ events, e.toolCallId = r.call.id)
    (hids : ids = st.timedOutToolCallIds ∨ ids = st.timedOutToolCallIds ++ [r.call.id])
    (hfound : ∀ tool, r.tool = some tool → findTool env.rt env.tools r.call.name = some tool)
    (hcourse : Course (r.tool.isSome = true) (r.working = true) (r.call.id ∈ ids) (st.SharesId st.calls.length r.call.id)
      outcome.isNone events outcome) :
    Orderly env (st.made r events outcome ids) where
  length := by
    have hlength := h.outcomes_idle hidle
    cases outcome <;> simp [made, hlength]
  awaited := by
    intro n hn
    cases outcome with
    | none =>
      obtain rfl : st.calls.length = n := by simpa [made] using hn
      simp [made]
    | some o => simp [made] at hn
  known := h.known_made hids
  emitted := h.emitted_made hevents
  course := by
    intro k rk hk
    rcases getElem?_snoc hk with ⟨-, hold⟩ | ⟨rfl, rfl⟩
    · exact h.course_before hidle hids hold
    · exact h.course_made hidle hcourse
  found := by
    intro k rk tool hk hw
    rcases getElem?_snoc hk with ⟨-, hold⟩ | ⟨rfl, rfl⟩
    · exact h.found k rk tool hold hw
    · exact hfound tool hw

end Made

section Advance

variable {r r' : CallRecord} {events : List ToolEvent} {outcome : Option ToolOutcome} {ids : List String}

/-- A call goes on, and brings events, and its outcome if it gets one. -/
def advance (st : ToolRun) (n : Nat) (r' : CallRecord) (events : List ToolEvent) (outcome : Option ToolOutcome)
    (ids : List String) : ToolRun where
  calls := st.calls.set n r'
  awaited := if outcome.isSome then none else st.awaited
  timedOutToolCallIds := ids
  emitted := st.emitted ++ events.map fun e => (n, e)
  outcomes := st.outcomes ++ outcome.toList

theorem getElem?_advance (hn : st.calls[n]? = some r) (k : Nat) :
    (st.advance n r' events outcome ids).calls[k]? = if n = k then some r' else st.calls[k]? := by
  have hlt := (List.getElem?_eq_some_iff.mp hn).1
  rw [advance, List.getElem?_set]
  split_ifs with hk
  · rfl
  · rfl

/-- Every call stays the one it is. -/
theorem call_advance (hn : st.calls[n]? = some r) (hcall : r'.call = r.call) {k : Nat} {rk : CallRecord}
    (hk : st.calls[k]? = some rk) :
    ∃ r'' : CallRecord, (st.advance n r' events outcome ids).calls[k]? = some r'' ∧ r''.call = rk.call := by
  rw [getElem?_advance hn]
  split_ifs with heq
  · subst heq
    rw [hn] at hk
    cases hk
    exact ⟨r', rfl, hcall⟩
  · exact ⟨rk, hk, rfl⟩

theorem sharesId_advance (hn : st.calls[n]? = some r) (hcall : r'.call = r.call) (k : Nat) (id : String) :
    st.SharesId k id ↔ (st.advance n r' events outcome ids).SharesId k id := by
  refine sharesId_congr fun m _ => ?_
  rw [getElem?_advance hn]
  split_ifs with heq
  · rw [← heq, hn, Option.map_some, Option.map_some, hcall]
  · rfl

/-- The call that the run waits for is the next to get an outcome. -/
theorem Orderly.awaited_last (h : Orderly env st) (hawaited : st.awaited = some n) : n = st.outcomes.length := by
  have hlength := h.length
  have hlast := h.awaited hawaited
  rw [hawaited] at hlength
  simp only [Option.toList_some, List.length_singleton] at hlength
  omega

theorem Orderly.known_advance (h : Orderly env st) (hn : st.calls[n]? = some r) (hcall : r'.call = r.call)
    (hids : ids = st.timedOutToolCallIds ∨ ids = st.timedOutToolCallIds ++ [r.call.id] ∧ st.awaited = some n) :
    ∀ id ∈ ids, ∃ (m : Nat) (rm : CallRecord),
      (st.advance n r' events outcome ids).calls[m]? = some rm ∧ rm.call.id = id := by
  intro id hid
  have hknown : ∃ (m : Nat) (rm : CallRecord), st.calls[m]? = some rm ∧ rm.call.id = id := by
    rcases hids with rfl | ⟨rfl, -⟩
    · exact h.known id hid
    · rcases List.mem_append.mp hid with hold | hnew
      · exact h.known id hold
      · exact ⟨n, r, hn, (List.mem_singleton.mp hnew).symm⟩
  obtain ⟨m, rm, hrm, rfl⟩ := hknown
  obtain ⟨r'', hr'', heq⟩ := call_advance hn hcall hrm
  exact ⟨m, r'', hr'', by rw [heq]⟩

theorem Orderly.emitted_advance (h : Orderly env st) (hn : st.calls[n]? = some r) (hcall : r'.call = r.call)
    (hevents : ∀ e ∈ events, e.toolCallId = r.call.id) :
    ∀ p ∈ (st.advance n r' events outcome ids).emitted, ∃ rp : CallRecord,
      (st.advance n r' events outcome ids).calls[p.1]? = some rp ∧ p.2.toolCallId = rp.call.id := by
  intro p hp
  rcases List.mem_append.mp hp with hold | hnew
  · obtain ⟨rp, hrp, hid⟩ := h.emitted p hold
    obtain ⟨r'', hr'', heq⟩ := call_advance hn hcall hrp
    exact ⟨r'', hr'', by rw [heq]; exact hid⟩
  · obtain ⟨e, he, rfl⟩ := List.mem_map.mp hnew
    obtain ⟨r'', hr'', heq⟩ := call_advance hn hcall hn
    exact ⟨r'', hr'', by rw [heq]; exact hevents e he⟩

/-- The call that goes on. -/
theorem Orderly.course_advance (h : Orderly env st) (hn : st.calls[n]? = some r) (hcall : r'.call = r.call)
    (houtcome : outcome.isSome = true → st.awaited = some n)
    (hcourse : Course (r'.tool.isSome = true) (r'.working = true) (r.call.id ∈ ids) (st.SharesId n r.call.id)
      (decide (st.awaited = some n) && outcome.isNone) (st.eventsOf n ++ events)
      (if outcome.isSome then outcome else st.outcomes[n]?)) :
    (st.advance n r' events outcome ids).CourseOf n r' := by
  have hwaits : decide ((st.advance n r' events outcome ids).awaited = some n) =
      (decide (st.awaited = some n) && outcome.isNone) := by
    cases outcome <;> simp [advance]
  have hout : (st.advance n r' events outcome ids).outcomes[n]? =
      if outcome.isSome then outcome else st.outcomes[n]? := by
    cases outcome with
    | none => simp [advance]
    | some o =>
      have hone := h.awaited_last (houtcome rfl)
      simp [advance, hone]
  unfold CourseOf
  rw [hcall, ← propext (sharesId_advance hn hcall n r.call.id), eventsOf_append rfl, if_pos rfl, hout, hwaits]
  exact hcourse

/-- The other calls. -/
theorem Orderly.course_elsewhere (h : Orderly env st) (hn : st.calls[n]? = some r) (hcall : r'.call = r.call)
    (houtcome : outcome.isSome = true → st.awaited = some n)
    (hids : ids = st.timedOutToolCallIds ∨ ids = st.timedOutToolCallIds ++ [r.call.id] ∧ st.awaited = some n)
    {k : Nat} {rk : CallRecord} (hk : st.calls[k]? = some rk) (hne : n ≠ k) :
    (st.advance n r' events outcome ids).CourseOf k rk := by
  refine (h.course k rk hk).elsewhere ?_ ?_ (sharesId_advance hn hcall k _) ?_ ?_ ?_
  · rw [eventsOf_append rfl k, if_neg hne, List.append_nil]
  · cases outcome with
    | none => simp [advance]
    | some o =>
      have hlt := (List.getElem?_eq_some_iff.mp hk).1
      have hlast := h.awaited (houtcome rfl)
      have hone := h.awaited_last (houtcome rfl)
      exact List.getElem?_append_left (by omega)
  · cases outcome with
    | none => simp [advance]
    | some o =>
      rw [houtcome rfl]
      simpa [advance] using hne
  · intro id hid
    rcases hids with rfl | ⟨rfl, -⟩
    · exact hid
    · exact List.mem_append_left _ hid
  · intro hwaits
    rcases hids with rfl | ⟨-, hawaited⟩
    · rfl
    · rw [hwaits] at hawaited
      exact absurd (Option.some.inj hawaited).symm hne

/-- A run in which a call goes on stays orderly. -/
theorem Orderly.goesOn (h : Orderly env st) (hn : st.calls[n]? = some r) (hcall : r'.call = r.call)
    (htool : r'.tool = r.tool) (hevents : ∀ e ∈ events, e.toolCallId = r.call.id)
    (houtcome : outcome.isSome = true → st.awaited = some n)
    (hids : ids = st.timedOutToolCallIds ∨ ids = st.timedOutToolCallIds ++ [r.call.id] ∧ st.awaited = some n)
    (hcourse : Course (r'.tool.isSome = true) (r'.working = true) (r.call.id ∈ ids) (st.SharesId n r.call.id)
      (decide (st.awaited = some n) && outcome.isNone) (st.eventsOf n ++ events)
      (if outcome.isSome then outcome else st.outcomes[n]?)) :
    Orderly env (st.advance n r' events outcome ids) where
  length := by
    have hlength := h.length
    cases outcome with
    | none => simpa [advance] using hlength
    | some o =>
      rw [houtcome rfl] at hlength
      simpa [advance] using hlength
  awaited := by
    intro k hk
    rw [advance, List.length_set]
    cases outcome with
    | none => exact h.awaited hk
    | some o => cases hk
  known := h.known_advance hn hcall hids
  emitted := h.emitted_advance hn hcall hevents
  course := by
    intro k rk hk
    rw [getElem?_advance hn] at hk
    split_ifs at hk with heq
    · subst heq
      cases hk
      exact h.course_advance hn hcall houtcome hcourse
    · exact h.course_elsewhere hn hcall houtcome hids hk heq
  found := by
    intro k rk tool hk hw
    rw [getElem?_advance hn] at hk
    split_ifs at hk with heq
    · subst heq
      cases hk
      rw [hcall]
      exact h.found n r tool hn (htool ▸ hw)
    · exact h.found k rk tool hk hw

end Advance

theorem set_self {r : CallRecord} (hn : st.calls[n]? = some r) : st.calls.set n r = st.calls := by
  obtain ⟨hlt, rfl⟩ := List.getElem?_eq_some_iff.mp hn
  exact List.set_getElem_self hlt

theorem Orderly.makeCall (h : Orderly env st) (hidle : st.awaited = none) (call : ToolCall)
    (blocked : Option String) : Orderly env (st.makeCall env call blocked) := by
  unfold ToolRun.makeCall
  dsimp only
  cases blocked with
  | some message =>
    have hmade := @Orderly.makes env st ⟨call, none, false⟩
      [handleToolExecutionStart call.id (.text call.name) (argumentsRecord call),
        handleToolExecutionEnd call.id (.text call.name) (.str message) (some message)] (some ⟨true, message⟩) _
      h hidle (by simp [handleToolExecutionStart, handleToolExecutionEnd]) (Or.inl rfl)
      (fun tool htool => by cases htool)
      (@Course.closed _ _ _ _ _ _ [] [] _ (fun hw => absurd hw Bool.false_ne_true) (fun h => absurd rfl h)
        (running_start rfl) (closes_error _ _ _ _))
    simpa [made, record, emit, answer] using hmade
  | none =>
    cases hfound : findTool env.rt env.tools call.name with
    | none =>
      have hmade := @Orderly.makes env st ⟨call, none, false⟩ []
        (some ⟨true, "Tool not found: " ++ call.name⟩) _ h hidle (by simp) (Or.inl rfl)
        (fun tool htool => by cases htool)
        (.unknown Bool.false_ne_true rfl)
      simpa [made, record, answer] using hmade
    | some tool =>
      dsimp only
      cases hargs : normalizeToolArgs env.rt tool.name call.arguments with
      | error e =>
        have hmade := @Orderly.makes env st ⟨call, none, false⟩
          [handleToolExecutionEnd call.id (.text call.name) (.str (env.errorText e)) (some (env.errorText e))]
          (some ⟨true, env.errorText e⟩) _ h hidle (by simp [handleToolExecutionEnd]) (Or.inr rfl)
          (fun tool htool => by cases htool) (.refused Bool.false_ne_true rfl (closes_error _ _ _ _))
        simpa [made, record, giveUp, emit, answer] using hmade
      | ok args =>
        have hcourse : Course True True (call.id ∈ st.timedOutToolCallIds)
            (st.SharesId st.calls.length call.id) true
            [handleToolExecutionStart call.id (normalizeToolName env.rt call.name) args] none := by
          by_cases hlate : call.id ∈ st.timedOutToolCallIds
          · obtain ⟨m, r, hr, hid⟩ := h.known call.id hlate
            exact .muted trivial hlate ⟨m, (List.getElem?_eq_some_iff.mp hr).1, r, hr, hid⟩ rfl
          · exact .running trivial hlate (running_start rfl)
        have hmade := @Orderly.makes env st ⟨call, some tool, false⟩
          [handleToolExecutionStart call.id (normalizeToolName env.rt call.name) args] none _
          h hidle (by simp [handleToolExecutionStart]) (Or.inl rfl)
          (fun tool' htool => by cases htool; exact hfound)
          (by simpa [CallRecord.working] using hcourse)
        simpa [made, record, emit] using hmade

theorem Orderly.update (h : Orderly env st) (n : Nat) (partialResult : Value) :
    Orderly env (st.update env n partialResult) := by
  unfold ToolRun.update
  split
  · rename_i call tool settled hn
    split_ifs with hlate
    · exact h
    · have hcourse := (h.course n _ hn).update rfl hlate
        (show (handleToolExecutionUpdate call.id (normalizeToolName env.rt call.name) partialResult).phase = .update
          from rfl)
      have hmade := @Orderly.goesOn env st n ⟨call, some tool, settled⟩ ⟨call, some tool, settled⟩
        [handleToolExecutionUpdate call.id (normalizeToolName env.rt call.name) partialResult] none _ h hn rfl rfl
        (by simp [handleToolExecutionUpdate]) (fun hsome => by cases hsome) (Or.inl rfl) (by simpa using hcourse)
      rw [advance, set_self hn] at hmade
      simpa [emit] using hmade
  · exact h

theorem Orderly.settled (h : Orderly env st) (n : Nat) (now : ℚ) (result : Except String Value) :
    Orderly env (st.settled env n now result) := by
  unfold ToolRun.settled
  split
  · rename_i call tool hn
    have hcloses := closes_endEvent env call.id (normalizeToolName env.rt call.name) (settle env tool now result)
    dsimp only
    generalize settle env tool now result = told at hcloses ⊢
    have hcourse := Course.settled (h.course n _ hn) rfl rfl Bool.false_ne_true hcloses
    have hmade := @Orderly.goesOn env st n ⟨call, some tool, false⟩ ⟨call, some tool, true⟩
      (if call.id ∈ st.timedOutToolCallIds then []
        else [endEvent call.id (normalizeToolName env.rt call.name) told])
      (if st.awaited = some n then some (outcomeOf env told) else none) _ h hn rfl rfl
      (by cases told <;> split_ifs <;> simp [endEvent, handleToolExecutionEnd])
      (fun hsome => by_contra fun hawaited => by simp [hawaited] at hsome) (Or.inl rfl)
    by_cases hawaited : st.awaited = some n <;> by_cases hlate : call.id ∈ st.timedOutToolCallIds <;>
      simp only [hawaited, hlate, if_pos, if_neg, not_false_eq_true, answer, emit, advance] at hmade hcourse ⊢ <;>
      simpa [hawaited] using hmade (by simpa [hawaited, CallRecord.working] using hcourse)
  · exact h

theorem Orderly.timeout (h : Orderly env st) : Orderly env (st.timeout env) := by
  unfold ToolRun.timeout
  split
  · exact h
  · rename_i n hawaited
    split
    · exact h
    · rename_i r hn
      have hcourse : Course (r.tool.isSome = true) (r.working = true) (r.call.id ∈ st.timedOutToolCallIds)
          (st.SharesId n r.call.id) true (st.eventsOf n) st.outcomes[n]? := by
        simpa [CourseOf, hawaited] using h.course n r hn
      have hlate : r.call.id ∈ st.timedOutToolCallIds ++ [r.call.id] := List.mem_append_right _ (by simp)
      have hmade := @Orderly.goesOn env st n r r
        [handleToolExecutionEnd r.call.id (.text r.call.name) (.str (timeoutMessage env r.call))
          (some (timeoutMessage env r.call))] (some ⟨true, timeoutMessage env r.call⟩)
        (st.timedOutToolCallIds ++ [r.call.id]) h hn rfl rfl (by simp [handleToolExecutionEnd])
        (fun _ => hawaited) (Or.inr ⟨rfl, hawaited⟩)
        (by simpa [hawaited] using hcourse.gaveUp hlate (closes_error _ _ _ _))
      rw [advance, set_self hn] at hmade
      simpa [giveUp, emit, answer] using hmade

theorem Orderly.step (h : Orderly env st) (e : RunEvent) : Orderly env (st.step env e) := by
  cases e with
  | call toolCall blocked =>
    dsimp only [ToolRun.step]
    split_ifs with hwaits
    · exact h
    · exact h.makeCall (by simpa using hwaits) toolCall blocked
  | update n partialResult => exact h.update n partialResult
  | settled n now result => exact h.settled n now result
  | timeout => exact h.timeout

theorem orderly_run (env : ExecutionEnv) (events : List RunEvent) :
    Orderly env (EventRun.run (step env) {} events) := by
  induction events using List.reverseRecOn with
  | nil => exact orderly_empty
  | append_singleton events e ih =>
    rw [EventRun.run_snoc]
    exact ih.step e

/-! ## Calls that were given up -/

@[simp] theorem eventsOf_emit (m : Nat) (e : ToolEvent) :
    (st.emit m e).eventsOf n = st.eventsOf n ++ if m = n then [e] else [] := by
  apply eventsOf_append
  rfl

/-- The id of the call was given up, and the run does not wait for the call. -/
def Silenced (st : ToolRun) (n : Nat) : Prop :=
  st.awaited ≠ some n ∧ ∃ r : CallRecord, st.calls[n]? = some r ∧ r.call.id ∈ st.timedOutToolCallIds

/-- Nothing is told of the call, and it stays silenced. -/
def StaysSilent (st st' : ToolRun) (n : Nat) : Prop := st'.Silenced n ∧ st'.eventsOf n = st.eventsOf n

theorem Silenced.makeCall (h : st.Silenced n) (call : ToolCall) (blocked : Option String) :
    StaysSilent st (st.makeCall env call blocked) n := by
  obtain ⟨hawaited, r, hr, hid⟩ := h
  have hne : st.calls.length ≠ n := Nat.ne_of_gt (List.getElem?_eq_some_iff.mp hr).1
  have hold : ∀ new : CallRecord, (st.calls ++ [new])[n]? = some r := fun new => by
    rw [List.getElem?_append_left (List.getElem?_eq_some_iff.mp hr).1, hr]
  unfold ToolRun.makeCall
  dsimp only
  cases blocked with
  | some message =>
    exact ⟨⟨nofun, r, hold _, hid⟩, by simp [answer, record, emit, eventsOf, hne]⟩
  | none =>
    cases findTool env.rt env.tools call.name with
    | none => exact ⟨⟨nofun, r, hold _, hid⟩, rfl⟩
    | some tool =>
      dsimp only
      cases normalizeToolArgs env.rt tool.name call.arguments with
      | error e =>
        exact ⟨⟨nofun, r, hold _, List.mem_append_left _ hid⟩,
          by simp [giveUp, answer, record, emit, eventsOf, hne]⟩
      | ok args =>
        refine ⟨⟨fun heq => hne (Option.some.inj heq), r, hold _, hid⟩, ?_⟩
        simp [record, emit, eventsOf, hne]

theorem Silenced.update (h : st.Silenced n) (m : Nat) (partialResult : Value) :
    StaysSilent st (st.update env m partialResult) n := by
  unfold ToolRun.update
  split
  · rename_i call tool settled hm
    split_ifs with hlate
    · exact ⟨h, rfl⟩
    · have hne : m ≠ n := by
        rintro rfl
        obtain ⟨-, r, hr, hid⟩ := h
        rw [hm] at hr
        cases hr
        exact hlate hid
      exact ⟨h, by rw [eventsOf_emit, if_neg hne, List.append_nil]⟩
  · exact ⟨h, rfl⟩

theorem Silenced.settled (h : st.Silenced n) (m : Nat) (now : ℚ) (result : Except String Value) :
    StaysSilent st (st.settled env m now result) n := by
  unfold ToolRun.settled
  split
  · rename_i call tool hm
    have hidle : StaysSilent st { st with calls := st.calls.set m ⟨call, some tool, true⟩ } n := by
      obtain ⟨hawaited, r, hr, hid⟩ := h
      obtain ⟨r', hr', hcall⟩ := @call_advance st m ⟨call, some tool, false⟩ ⟨call, some tool, true⟩ [] none
        st.timedOutToolCallIds hm rfl n r hr
      exact ⟨⟨hawaited, r', hr', by rwa [hcall]⟩, rfl⟩
    have htold : ∀ event, StaysSilent st
        (if call.id ∈ st.timedOutToolCallIds then { st with calls := st.calls.set m ⟨call, some tool, true⟩ }
          else ({ st with calls := st.calls.set m ⟨call, some tool, true⟩ } : ToolRun).emit m event) n := by
      intro event
      split_ifs with hlate
      · exact hidle
      · have hne : m ≠ n := by
          rintro rfl
          obtain ⟨-, r, hr, hid⟩ := h
          rw [hm] at hr
          cases hr
          exact hlate hid
        exact ⟨hidle.1, by rw [eventsOf_emit, if_neg hne, List.append_nil, hidle.2]⟩
    dsimp only
    generalize settle env tool now result = told
    by_cases hawaited : st.awaited = some m
    · rw [if_pos hawaited]
      exact ⟨⟨nofun, (htold _).1.2⟩, (htold _).2⟩
    · rw [if_neg hawaited]
      exact htold _
  · exact ⟨h, rfl⟩

theorem Silenced.timeout (h : st.Silenced n) : StaysSilent st (st.timeout env) n := by
  unfold ToolRun.timeout
  split
  · exact ⟨h, rfl⟩
  · rename_i m hawaited
    split
    · exact ⟨h, rfl⟩
    · have hne : m ≠ n := fun heq => h.1 (by rw [hawaited, heq])
      obtain ⟨-, r', hr', hid⟩ := h
      exact ⟨⟨nofun, r', hr', List.mem_append_left _ hid⟩, by simp [giveUp, answer, emit, eventsOf, hne]⟩

theorem Silenced.step (h : st.Silenced n) (e : RunEvent) : StaysSilent st (st.step env e) n := by
  cases e with
  | call toolCall blocked =>
    dsimp only [ToolRun.step]
    split_ifs
    · exact ⟨h, rfl⟩
    · exact h.makeCall toolCall blocked
  | update m partialResult => exact h.update m partialResult
  | settled m now result => exact h.settled m now result
  | timeout => exact h.timeout

/-- However the run goes on, nothing more is told of a call that was given up. -/
theorem eventsOf_silenced (h : st.Silenced n) (events : List RunEvent) :
    (EventRun.run (step env) st events).eventsOf n = st.eventsOf n := by
  induction events generalizing st with
  | nil => rfl
  | cons e events ih =>
    obtain ⟨hstays, hevents⟩ := @Silenced.step env st n h e
    exact (ih hstays).trans hevents

/-- What the listeners and the model get to know of a call. A call whose id is its own is started and
brings updates until it is over, and then one event ends it; behind that only the updates of a tool that
is not at work any more can come. An error in front of the start stands alone, and of a tool that there
is not no listener hears. -/
inductive Reported (own working : Prop) : List ToolEvent → Option ToolOutcome → Prop
  | unknown {o : ToolOutcome} : o.isError = true → Reported own working [] (some o)
  | refused {e : ToolEvent} {o : ToolOutcome} : o.isError = true → Closes e o → Reported own working [e] (some o)
  | running {s : ToolEvent} {updates : List ToolEvent} : Running s updates →
      Reported own working (s :: updates) none
  | closed {s e : ToolEvent} {updates more : List ToolEvent} {o : ToolOutcome} : (more ≠ [] → ¬ working) →
      Running s (updates ++ more) → Closes e o → Reported own working (s :: updates ++ e :: more) (some o)
  | muted {s : ToolEvent} {outcome : Option ToolOutcome} : ¬ own → s.phase = .start →
      Reported own working [s] outcome

theorem reported_of_course {started working late shared : Prop} {waits : Bool} {events : List ToolEvent}
    {outcome : Option ToolOutcome} (h : Course started working late shared waits events outcome) :
    Reported (¬ shared) working events outcome := by
  cases h with
  | unknown _ ho => exact .unknown ho
  | refused _ ho hc => exact .refused ho hc
  | running _ _ hr => exact .running hr
  | muted _ _ hs hp => exact .muted (not_not.mpr hs) hp
  | closed _ hm hr hc => exact .closed hm hr hc
  | mutedEnd _ _ hs hp => exact .muted (not_not.mpr hs) hp

/-- In every run, whatever its tools do and however late they are, each call but the awaited one has one
outcome, in the order of the calls, and the listeners get the events of its course and no others. A call is
muted only by an earlier one of the same id, and nothing more is told of a call that was given up, however
the run goes on. What was started for a call is the tool of its name. -/
theorem tool_calls_reported (env : ExecutionEnv) (events : List RunEvent) :
    let st := EventRun.run (step env) {} events
    st.calls.length = st.outcomes.length + st.awaited.toList.length ∧
      (∀ p ∈ st.emitted, ∃ r : CallRecord, st.calls[p.1]? = some r ∧ p.2.toolCallId = r.call.id) ∧
      ∀ (n : Nat) (r : CallRecord), st.calls[n]? = some r →
        Reported (¬ st.SharesId n r.call.id) (r.working = true) (st.eventsOf n) st.outcomes[n]? ∧
          (∀ tool, r.tool = some tool → findTool env.rt env.tools r.call.name = some tool) ∧
          (r.call.id ∈ st.timedOutToolCallIds → st.awaited ≠ some n →
            ∀ more, (EventRun.run (step env) st more).eventsOf n = st.eventsOf n) := by
  have h := orderly_run env events
  refine ⟨h.length, h.emitted, fun n r hn => ⟨reported_of_course (h.course n r hn), fun tool => h.found n r tool hn,
    fun hid hawaited more => ?_⟩⟩
  exact eventsOf_silenced ⟨hawaited, r, hn, hid⟩ more

def sampleEnv : ExecutionEnv :=
  ⟨Js.asciiRuntime, [⟨"exec", none⟩], fun _ => "\x7b\x7d", fun _ => "TypeError", 600⟩

/-- A tool that is too late has ended for the listeners, whatever it brings; one that has settled has not. -/
example : ((EventRun.run (step sampleEnv) {} [.call ⟨"a", "bash", .str "ls"⟩ none, .update 0 .null, .timeout,
    .call ⟨"b", "exec", .null⟩ none, .update 0 .null, .settled 0 0 (.ok .null), .settled 1 0 (.error ""),
    .update 1 .null]).emitted.map fun p => (p.1, p.2.phase)) =
    [(0, .start), (0, .update), (0, .error), (1, .start), (1, .ended), (1, .update)] := by
  decide

end ToolRun

end T560.Tools
