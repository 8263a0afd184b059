import Mathlib.Algebra.GroupWithZero.Nat
import T560.Foundation.EventRun
import T560.Foundation.Suffix
import T560.Js.Text

/-!
# The output of a process

The buffers of a process session: for each stream the chunks that no poll has taken yet, and
the end of all output. Both are cut to a limit as chunks arrive.
-/

namespace T560.Process

open EventRun (run run_snoc Happens happens_snoc not_happens_nil)
open Js (Units)

/-- Signals are named, or given by their number. -/
inductive ExitSignal where
  | name (text : String)
  | number (n : Int)
  deriving DecidableEq, Repr

inductive Stream where
  | stdout
  | stderr
  deriving DecidableEq, Repr

/-- The child process, by the signals it was sent. -/
structure Child where
  signals : List String := []
  deriving DecidableEq, Repr

/-- The stdin of a session, by what was written to it. -/
structure SessionStdin where
  written : List String := []
  ended : Bool := false
  destroyed : Bool := false
  deriving DecidableEq, Repr

/-- The limits are counts of characters. A field that may be null as well as undefined has two
layers. -/
structure ProcessSession where
  id : String
  command : String
  scopeKey : Option String := none
  child : Option Child := none
  stdin : Option SessionStdin := none
  pid : Option Nat := none
  startedAt : Nat
  cwd : Option String := none
  maxOutputChars : Nat
  pendingMaxOutputChars : Option Nat := none
  totalOutputChars : Nat := 0
  pendingStdout : List Units := []
  pendingStderr : List Units := []
  pendingStdoutChars : Nat := 0
  pendingStderrChars : Nat := 0
  aggregated : Units := []
  tail : Units := []
  exitCode : Option (Option Int) := none
  exitSignal : Option (Option ExitSignal) := none
  exited : Bool := false
  truncated : Bool := false
  backgrounded : Bool := false
  deriving DecidableEq, Repr

def DEFAULT_PENDING_OUTPUT_CHARS : Nat := 30000

section Cutting

/-- `text.slice(text.length - max)` for a text longer than `max`. -/
def trimWithCap (text : Units) (max : Nat) : Units :=
  if text.length ≤ max then text else text.drop (text.length - max)

def tail (text : Units) (max : Nat) : Units :=
  if text.length ≤ max then text else text.drop (text.length - max)

/-- The loop of `capPendingBuffer`: the first chunk goes while enough characters stay without it. -/
def dropWholeChunks (cap : Nat) : List Units → Nat → List Units × Nat
  | [], pendingChars => ([], pendingChars)
  | first :: rest, pendingChars =>
    -- `pendingChars - buffer[0].length >= cap`, a difference that may be negative
    if cap + first.length ≤ pendingChars then
      dropWholeChunks cap rest (pendingChars - first.length)
    else (first :: rest, pendingChars)

def capPendingBuffer (buffer : List Units) (pendingChars cap : Nat) : List Units × Nat :=
  if pendingChars ≤ cap then (buffer, pendingChars)
  else
    -- `buffer.at(-1)` of an empty buffer is as falsy as an empty last chunk
    let last := buffer.getLast?.getD []
    if last ≠ [] ∧ cap ≤ last.length then ([last.drop (last.length - cap)], cap)
    else
      match dropWholeChunks cap buffer pendingChars with
      | ([], count) => ([], count)
      | (first :: rest, count) =>
        if cap < count then (first.drop (count - cap) :: rest, cap) else (first :: rest, count)

end Cutting

namespace ProcessSession

/-- The chunks of a stream that no drain has taken. -/
def pending (session : ProcessSession) : Stream → List Units
  | .stdout => session.pendingStdout
  | .stderr => session.pendingStderr

def pendingChars (session : ProcessSession) : Stream → Nat
  | .stdout => session.pendingStdoutChars
  | .stderr => session.pendingStderrChars

def setPending (session : ProcessSession) (stream : Stream) (buffer : List Units) (chars : Nat) :
    ProcessSession :=
  match stream with
  | .stdout => { session with pendingStdout := buffer, pendingStdoutChars := chars }
  | .stderr => { session with pendingStderr := buffer, pendingStderrChars := chars }

def pendingCap (session : ProcessSession) : Nat :=
  min (session.pendingMaxOutputChars.getD DEFAULT_PENDING_OUTPUT_CHARS) session.maxOutputChars

end ProcessSession

/-- The counters are numbers from the start, so no `??=` of the source assigns one. -/
def appendOutput (session : ProcessSession) (stream : Stream) (chunk : Units) : ProcessSession :=
  let buffer := session.pending stream ++ [chunk]
  let chars := session.pendingChars stream + chunk.length
  let capped :=
    if session.pendingCap < chars then capPendingBuffer buffer chars session.pendingCap
    else (buffer, chars)
  let aggregated := trimWithCap (session.aggregated ++ chunk) session.maxOutputChars
  { session.setPending stream capped.1 capped.2 with
    totalOutputChars := session.totalOutputChars + chunk.length
    truncated := session.truncated || decide (session.pendingCap < chars) ||
      decide (aggregated.length < session.aggregated.length + chunk.length)
    aggregated
    tail := tail aggregated 2000 }

/-- What a drain takes of a stream. -/
def ProcessSession.drained (session : ProcessSession) (stream : Stream) : Units :=
  (session.pending stream).flatten

def drainSession (session : ProcessSession) : ProcessSession :=
  { session with
    pendingStdout := [], pendingStderr := [], pendingStdoutChars := 0, pendingStderrChars := 0 }

section CuttingSpec

theorem trimWithCap_eq_rtake (text : Units) (max : Nat) :
    trimWithCap text max = text.rtake max := by
  unfold trimWithCap
  split
  · next h => exact (Suffix.rtake_of_length_le h).symm
  · rfl

theorem tail_eq_rtake (text : Units) (max : Nat) : tail text max = text.rtake max :=
  trimWithCap_eq_rtake text max

/-- The loop keeps the end of the buffer: at least `cap` characters if there were so many, and
fewer than `cap` without the first chunk. -/
theorem dropWholeChunks_spec {cap : Nat} {buffer : List Units}
    (hcap : cap ≤ buffer.flatten.length) :
    ∃ kept, dropWholeChunks cap buffer buffer.flatten.length = (kept, kept.flatten.length) ∧
      cap ≤ kept.flatten.length ∧ kept.flatten.rtake cap = buffer.flatten.rtake cap ∧
      ∀ first rest, kept = first :: rest → rest.flatten.length < cap := by
  induction buffer with
  | nil => exact ⟨[], rfl, hcap, rfl, by simp⟩
  | cons first rest ih =>
    have hlength : (first :: rest).flatten.length = first.length + rest.flatten.length := by simp
    unfold dropWholeChunks
    by_cases hdrop : cap + first.length ≤ (first :: rest).flatten.length
    · have hrest : cap ≤ rest.flatten.length := by omega
      obtain ⟨kept, hkept, hle, hend, hfirst⟩ := ih hrest
      rw [if_pos hdrop, hlength, Nat.add_sub_cancel_left]
      refine ⟨kept, hkept, hle, ?_, hfirst⟩
      rw [hend, List.flatten_cons, Suffix.rtake_append_of_le hrest]
    · rw [if_neg hdrop]
      refine ⟨first :: rest, rfl, hcap, rfl, ?_⟩
      rintro _ _ ⟨rfl, rfl⟩
      omega

/-- The capped buffer holds the last `cap` characters, and its count is theirs. -/
theorem capPendingBuffer_spec {buffer : List Units} {cap : Nat}
    (hcap : cap < buffer.flatten.length) :
    (capPendingBuffer buffer buffer.flatten.length cap).1.flatten = buffer.flatten.rtake cap ∧
      (capPendingBuffer buffer buffer.flatten.length cap).2 = cap := by
  unfold capPendingBuffer
  rw [if_neg (by omega)]
  dsimp only
  by_cases hlast : buffer.getLast?.getD [] ≠ [] ∧ cap ≤ (buffer.getLast?.getD []).length
  · -- the last chunk alone has the characters
    rw [if_pos hlast]
    obtain ⟨hne, hlen⟩ := hlast
    obtain hnil | ⟨init, last, rfl⟩ := buffer.eq_nil_or_concat
    · simp [hnil] at hne
    · simp only [List.concat_eq_append, List.getLast?_concat, Option.getD_some] at hlen ⊢
      refine ⟨?_, trivial⟩
      have hflat : (init ++ [last]).flatten = init.flatten ++ last := by simp
      rw [hflat, Suffix.rtake_append_of_le hlen]
      simp [List.rtake]
  · obtain ⟨kept, hkept, hle, hend, hfirst⟩ := dropWholeChunks_spec hcap.le
    rw [if_neg hlast, hkept]
    cases kept with
    | nil =>
      have hzero : cap = 0 := by simpa using hle
      subst hzero
      simp
    | cons first rest =>
      have hrest := hfirst first rest rfl
      have hlength : (first :: rest).flatten.length = first.length + rest.flatten.length := by simp
      dsimp only
      by_cases hmore : cap < (first :: rest).flatten.length
      · rw [if_pos hmore, ← hend]
        refine ⟨?_, rfl⟩
        have hcut : (first :: rest).flatten.length - cap ≤ first.length := by omega
        unfold List.rtake
        simp only [List.flatten_cons] at hcut ⊢
        rw [List.drop_append_of_le_length hcut]
      · have hall : (first :: rest).flatten.length = cap := by omega
        rw [if_neg hmore, ← hend]
        exact ⟨(Suffix.rtake_of_length_le hall.le).symm, hall⟩

end CuttingSpec

section Steps

variable (session : ProcessSession) (stream other : Stream) (chunk : Units)

/-- The counter of the stream counts its pending characters, and they are within the limit. -/
def ProcessSession.Counted (session : ProcessSession) (stream : Stream) : Prop :=
  session.pendingChars stream = (session.drained stream).length ∧
    session.pendingChars stream ≤ session.pendingCap

@[simp] theorem pendingCap_appendOutput :
    (appendOutput session stream chunk).pendingCap = session.pendingCap := by
  cases stream <;> rfl

@[simp] theorem maxOutputChars_appendOutput :
    (appendOutput session stream chunk).maxOutputChars = session.maxOutputChars := by
  cases stream <;> rfl

@[simp] theorem aggregated_appendOutput :
    (appendOutput session stream chunk).aggregated =
      (session.aggregated ++ chunk).rtake session.maxOutputChars :=
  trimWithCap_eq_rtake _ _

@[simp] theorem tail_appendOutput :
    (appendOutput session stream chunk).tail =
      (appendOutput session stream chunk).aggregated.rtake 2000 :=
  tail_eq_rtake _ _

/-- The pending chunks of the stream and their count, cut where they are too many. -/
theorem appendOutput_same :
    ((appendOutput session stream chunk).pending stream,
        (appendOutput session stream chunk).pendingChars stream) =
      if session.pendingCap < session.pendingChars stream + chunk.length then
        capPendingBuffer (session.pending stream ++ [chunk])
          (session.pendingChars stream + chunk.length) session.pendingCap
      else (session.pending stream ++ [chunk], session.pendingChars stream + chunk.length) := by
  cases stream <;> rfl

theorem appendOutput_other (h : other ≠ stream) :
    (appendOutput session stream chunk).pending other = session.pending other ∧
      (appendOutput session stream chunk).pendingChars other = session.pendingChars other := by
  cases stream <;> cases other <;> first | exact absurd rfl h | exact ⟨rfl, rfl⟩

variable {session stream}

/-- The stream that gets the chunk keeps the last characters of what it then has. -/
theorem drained_appendOutput (h : session.Counted stream) :
    (appendOutput session stream chunk).drained stream =
        (session.drained stream ++ chunk).rtake session.pendingCap ∧
      (appendOutput session stream chunk).Counted stream := by
  have hbuffer : (session.pending stream ++ [chunk]).flatten = session.drained stream ++ chunk := by
    simp [ProcessSession.drained]
  have hchars : session.pendingChars stream + chunk.length =
      (session.pending stream ++ [chunk]).flatten.length := by
    rw [hbuffer, List.length_append, h.1]
  have hsame := appendOutput_same session stream chunk
  unfold ProcessSession.Counted
  rw [pendingCap_appendOutput]
  by_cases hcap : session.pendingCap < session.pendingChars stream + chunk.length
  · rw [if_pos hcap, hchars] at hsame
    have hcapped := capPendingBuffer_spec (hchars ▸ hcap)
    have hdrained : (appendOutput session stream chunk).drained stream =
        (session.drained stream ++ chunk).rtake session.pendingCap := by
      rw [← hbuffer, ← hcapped.1, ← hsame]
      rfl
    have hcount : (appendOutput session stream chunk).pendingChars stream = session.pendingCap := by
      rw [← hsame] at hcapped
      exact hcapped.2
    refine ⟨hdrained, ?_, hcount.le⟩
    rw [hcount, hdrained, Suffix.length_rtake, ← hbuffer, ← hchars]
    omega
  · rw [if_neg hcap, Prod.mk.injEq] at hsame
    have hdrained : (appendOutput session stream chunk).drained stream =
        session.drained stream ++ chunk := by
      rw [← hbuffer, ← hsame.1]
      rfl
    rw [hdrained, hsame.2, hchars, hbuffer]
    refine ⟨(Suffix.rtake_of_length_le ?_).symm, rfl, ?_⟩ <;> rw [← hbuffer, ← hchars] <;>
      exact Nat.le_of_not_lt hcap

/-- The flag goes up exactly where characters are cut off. -/
theorem truncated_appendOutput (h : session.Counted stream) :
    (appendOutput session stream chunk).truncated = true ↔
      session.truncated = true ∨
        (appendOutput session stream chunk).drained stream ≠ session.drained stream ++ chunk ∨
        (appendOutput session stream chunk).aggregated ≠ session.aggregated ++ chunk := by
  have hflag : (appendOutput session stream chunk).truncated =
      (session.truncated ||
        decide (session.pendingCap < session.pendingChars stream + chunk.length) ||
        decide ((appendOutput session stream chunk).aggregated.length <
          session.aggregated.length + chunk.length)) := by
    cases stream <;> rfl
  have hcut : ∀ (text : Units) (cap : Nat), text.rtake cap ≠ text ↔ cap < text.length := by
    intro text cap
    refine ⟨fun hne => Nat.lt_of_not_le fun hle => hne (Suffix.rtake_of_length_le hle), ?_⟩
    intro hlt heq
    have := congrArg List.length heq
    rw [Suffix.length_rtake] at this
    omega
  rw [hflag, (drained_appendOutput chunk h).1, aggregated_appendOutput, hcut, hcut,
    Suffix.length_rtake, h.1]
  simp only [Bool.or_eq_true, decide_eq_true_eq, List.length_append, or_assoc]
  refine or_congr_right (or_congr_right ?_)
  omega

end Steps

section Runs

/-- What happens to the output of a session: a stream gets a chunk, or a poll takes what is
pending. -/
inductive OutputEvent where
  | append (stream : Stream) (chunk : Units)
  | drain
  deriving DecidableEq, Repr

def outputStep (session : ProcessSession) : OutputEvent → ProcessSession
  | .append stream chunk => appendOutput session stream chunk
  | .drain => drainSession session

/-- A session without output, whatever its other fields are. -/
structure Fresh (session : ProcessSession) : Prop where
  pending : ∀ stream, session.pending stream = []
  pendingChars : ∀ stream, session.pendingChars stream = 0
  totalOutputChars : session.totalOutputChars = 0
  aggregated : session.aggregated = []
  tail : session.tail = []
  truncated : session.truncated = false

def allOutput (events : List OutputEvent) : Units :=
  (events.map fun
    | .append _ chunk => chunk
    | .drain => []).flatten

/-- The characters of a stream since the last drain. -/
def sinceDrain (stream : Stream) (events : List OutputEvent) : Units :=
  run (fun received event =>
    match event with
    | .append target chunk => if target = stream then received ++ chunk else received
    | .drain => []) [] events

/-- The event cuts characters off a pending buffer or off the aggregated output. -/
def Drops (session : ProcessSession) : OutputEvent → Prop
  | .append stream chunk =>
    (appendOutput session stream chunk).drained stream ≠ session.drained stream ++ chunk ∨
      (appendOutput session stream chunk).aggregated ≠ session.aggregated ++ chunk
  | .drain => False

/-- What the buffers hold behind a run. -/
structure Buffered (start : ProcessSession) (events : List OutputEvent) (session : ProcessSession) :
    Prop where
  pendingCap : session.pendingCap = start.pendingCap
  maxOutputChars : session.maxOutputChars = start.maxOutputChars
  counted : ∀ stream, session.Counted stream
  drained : ∀ stream, session.drained stream = (sinceDrain stream events).rtake start.pendingCap
  aggregated : session.aggregated = (allOutput events).rtake start.maxOutputChars
  tail : session.tail = session.aggregated.rtake 2000
  totalOutputChars : session.totalOutputChars = (allOutput events).length
  truncated : session.truncated = true ↔ Happens outputStep Drops start events

theorem Fresh.buffered {session : ProcessSession} (h : Fresh session) :
    Buffered session [] session where
  pendingCap := rfl
  maxOutputChars := rfl
  counted := fun stream => by
    simp [ProcessSession.Counted, ProcessSession.drained, h.pending stream, h.pendingChars stream]
  drained := fun stream => by simp [ProcessSession.drained, h.pending stream, sinceDrain]
  aggregated := by simp [h.aggregated, allOutput]
  tail := by simp [h.tail, h.aggregated]
  totalOutputChars := by simp [h.totalOutputChars, allOutput]
  truncated := by simp [h.truncated, not_happens_nil]

theorem allOutput_append (events : List OutputEvent) (stream : Stream) (chunk : Units) :
    allOutput (events ++ [.append stream chunk]) = allOutput events ++ chunk := by
  simp [allOutput]

theorem allOutput_drain (events : List OutputEvent) :
    allOutput (events ++ [.drain]) = allOutput events := by
  simp [allOutput]

variable {start session : ProcessSession} {events : List OutputEvent}

theorem Buffered.append (h : Buffered start events session)
    (hrun : session = run outputStep start events) (stream : Stream) (chunk : Units) :
    Buffered start (events ++ [.append stream chunk]) (appendOutput session stream chunk) where
  pendingCap := (pendingCap_appendOutput session stream chunk).trans h.pendingCap
  maxOutputChars := (maxOutputChars_appendOutput session stream chunk).trans h.maxOutputChars
  counted := fun other => by
    by_cases heq : other = stream
    · subst heq
      exact (drained_appendOutput chunk (h.counted other)).2
    · have hother := appendOutput_other session stream other chunk heq
      unfold ProcessSession.Counted ProcessSession.drained
      rw [hother.1, hother.2, pendingCap_appendOutput]
      exact h.counted other
  drained := fun other => by
    by_cases heq : other = stream
    · subst heq
      rw [(drained_appendOutput chunk (h.counted other)).1, h.drained, h.pendingCap,
        Suffix.rtake_rtake_append]
      simp [sinceDrain]
    · have hother := appendOutput_other session stream other chunk heq
      have hsince : sinceDrain other (events ++ [.append stream chunk]) =
          sinceDrain other events := by
        simp [sinceDrain, Ne.symm heq]
      rw [hsince, ← h.drained other]
      unfold ProcessSession.drained
      rw [hother.1]
  aggregated := by
    rw [aggregated_appendOutput, h.aggregated, h.maxOutputChars, Suffix.rtake_rtake_append,
      allOutput_append]
  tail := tail_appendOutput session stream chunk
  totalOutputChars := by
    have htotal : (appendOutput session stream chunk).totalOutputChars =
        session.totalOutputChars + chunk.length := by
      cases stream <;> rfl
    rw [htotal, h.totalOutputChars, allOutput_append, List.length_append]
  truncated := by
    rw [truncated_appendOutput chunk (h.counted stream), h.truncated, happens_snoc, ← hrun]
    rfl

theorem Buffered.drain (h : Buffered start events session) :
    Buffered start (events ++ [.drain]) (drainSession session) where
  pendingCap := h.pendingCap
  maxOutputChars := h.maxOutputChars
  counted := fun stream => by cases stream <;> exact ⟨rfl, Nat.zero_le _⟩
  drained := fun stream => by
    have hsince : sinceDrain stream (events ++ [.drain]) = [] := by simp [sinceDrain]
    rw [hsince, List.rtake_nil]
    cases stream <;> rfl
  aggregated := by
    rw [allOutput_drain]
    exact h.aggregated
  tail := h.tail
  totalOutputChars := by
    rw [allOutput_drain]
    exact h.totalOutputChars
  truncated := by
    rw [happens_snoc]
    simpa [drainSession, Drops] using h.truncated

theorem Fresh.buffered_run (h : Fresh start) (events : List OutputEvent) :
    Buffered start events (run outputStep start events) := by
  induction events using List.reverseRecOn with
  | nil => exact h.buffered
  | append_singleton events event ih =>
    rw [run_snoc]
    cases event with
    | append stream chunk => exact ih.append rfl stream chunk
    | drain => exact ih.drain

/-- The counters count the pending characters, each pending buffer joins to the end of what its
stream sent since the last drain, and the aggregated output is the end of all output. The flag is
up exactly when characters were cut off. -/
theorem output_buffers_keep_ends (start : ProcessSession) (h : Fresh start)
    (events : List OutputEvent) :
    let session := run outputStep start events
    let cap := min (start.pendingMaxOutputChars.getD DEFAULT_PENDING_OUTPUT_CHARS)
      start.maxOutputChars
    (∀ stream,
      session.pendingChars stream = ((session.pending stream).map List.length).sum ∧
      session.pendingChars stream ≤ cap ∧
      (session.pending stream).flatten =
        (sinceDrain stream events).rtake (min cap (sinceDrain stream events).length)) ∧
    session.aggregated = (allOutput events).rtake start.maxOutputChars ∧
    session.tail = session.aggregated.rtake 2000 ∧
    session.totalOutputChars = (allOutput events).length ∧
    (session.truncated = true ↔ Happens outputStep Drops start events) := by
  intro session cap
  have hrun : Buffered start events session := h.buffered_run events
  refine ⟨fun stream => ?_, hrun.aggregated, hrun.tail, hrun.totalOutputChars, hrun.truncated⟩
  obtain ⟨hcount, hcap⟩ := hrun.counted stream
  refine ⟨?_, ?_, ?_⟩
  · rw [hcount, ProcessSession.drained, List.length_flatten]
  · exact hcap.trans hrun.pendingCap.le
  · rw [Suffix.rtake_min]
    exact hrun.drained stream

/-- Limits of three and five characters, and a drain between the chunks of two streams. -/
theorem output_buffers_keep_ends_small :
    let start : ProcessSession :=
      { id := "calm-reef", command := "cat", startedAt := 0, maxOutputChars := 5,
        pendingMaxOutputChars := some 3 }
    let events : List OutputEvent :=
      [.append .stdout [1, 2], .drain, .append .stdout [3, 4], .append .stderr [],
        .append .stdout [5, 6], .append .stderr [7]]
    Fresh start ∧ (run outputStep start events).aggregated = (allOutput events).rtake 5 ∧
      (run outputStep start events).pendingStdout = [[4], [5, 6]] := by
  intro start events
  have hfresh : Fresh start := ⟨fun stream => by cases stream <;> rfl,
    fun stream => by cases stream <;> rfl, rfl, rfl, rfl, rfl⟩
  exact ⟨hfresh, (output_buffers_keep_ends start hfresh events).2.1, by decide⟩

end Runs

end T560.Process
