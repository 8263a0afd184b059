import T560.Foundation.InsertionMap
import T560.Js.Value
import T560.Process.Output

/-!
# The registry of process sessions

Sessions are objects that the code shares by reference, here by their place in `sessions`. A
session is registered while it runs; a session in the background is kept when it exits, as a
record of its own, until the sweeper drops it.
-/

namespace T560.Process

open Js (Units)

inductive ProcessStatus where
  | running
  | completed
  | failed
  | killed
  deriving DecidableEq, Repr

structure FinishedSession where
  id : String
  command : String
  scopeKey : Option String
  startedAt : Nat
  endedAt : Nat
  cwd : Option String
  status : ProcessStatus
  exitCode : Option (Option Int)
  exitSignal : Option (Option ExitSignal)
  aggregated : Units
  tail : Units
  truncated : Bool
  totalOutputChars : Nat
  deriving DecidableEq, Repr

/-- The module state. A finished session is kept with the reference of the session it was: the
code has no such reference, it is there to say which session a record is about. -/
structure Registry where
  sessions : List ProcessSession
  runningSessions : InsertionMap String Nat
  finishedSessions : InsertionMap String (Nat × FinishedSession)
  jobTtlMs : ℚ

def DEFAULT_JOB_TTL_MS : ℚ := 30 * 60 * 1000
def MIN_JOB_TTL_MS : ℚ := 60 * 1000
def MAX_JOB_TTL_MS : ℚ := 3 * 60 * 60 * 1000

def clampTtl : Js.Num → ℚ
  | .nan => DEFAULT_JOB_TTL_MS
  | .posInf => MAX_JOB_TTL_MS
  | .negInf => MIN_JOB_TTL_MS
  | .fin value =>
    if value = 0 then DEFAULT_JOB_TTL_MS else min (max value MIN_JOB_TTL_MS) MAX_JOB_TTL_MS

/-- The module as it is loaded, with the number that the environment gives for the TTL. -/
def Registry.initial (ttl : Js.Num) : Registry := ⟨[], .empty, .empty, clampTtl ttl⟩

section Operations

variable (reg : Registry)

/-- A change of the session object. -/
def Registry.update (ref : Nat) (change : ProcessSession → ProcessSession) : Registry :=
  { reg with sessions := reg.sessions.modify ref change }

/-- A new session object, registered under its id. -/
def addSession (session : ProcessSession) : Registry :=
  { reg with
    sessions := reg.sessions ++ [session]
    runningSessions := reg.runningSessions.set session.id reg.sessions.length }

/-- The session registered under the id, with its reference. -/
def getSession (id : String) : Option (Nat × ProcessSession) := do
  let ref ← reg.runningSessions.get id
  let session ← reg.sessions[ref]?
  return (ref, session)

def getFinishedSession (id : String) : Option (Nat × FinishedSession) :=
  reg.finishedSessions.get id

def deleteSession (id : String) : Registry :=
  { reg with
    runningSessions := reg.runningSessions.erase id
    finishedSessions := reg.finishedSessions.erase id }

def markBackgrounded (ref : Nat) : Registry :=
  reg.update ref fun session => { session with backgrounded := true }

/-- The record that is kept of a session. -/
def finishedSession (session : ProcessSession) (status : ProcessStatus) (now : Nat) :
    FinishedSession where
  id := session.id
  command := session.command
  scopeKey := session.scopeKey
  startedAt := session.startedAt
  endedAt := now
  cwd := session.cwd
  status
  exitCode := session.exitCode
  exitSignal := session.exitSignal
  aggregated := session.aggregated
  tail := session.tail
  truncated := session.truncated
  totalOutputChars := session.totalOutputChars

/-- The streams of the child are destroyed with the references to it and to stdin. -/
def releasedSession (session : ProcessSession) : ProcessSession :=
  { session with child := none, stdin := none }

def moveToFinished (ref : Nat) (session : ProcessSession) (status : ProcessStatus) (now : Nat) :
    Registry :=
  let reg := reg.update ref releasedSession
  let runningSessions := reg.runningSessions.erase session.id
  if session.backgrounded then
    { reg with
      runningSessions
      finishedSessions :=
        reg.finishedSessions.set session.id (ref, finishedSession session status now) }
  else { reg with runningSessions }

def exitedSession (session : ProcessSession) (exitCode : Option Int)
    (exitSignal : Option ExitSignal) : ProcessSession :=
  { session with
    exited := true
    exitCode := some exitCode
    exitSignal := some exitSignal
    tail := tail session.aggregated 2000 }

def markExited (ref : Nat) (exitCode : Option Int) (exitSignal : Option ExitSignal)
    (status : ProcessStatus) (now : Nat) : Registry :=
  match reg.sessions[ref]? with
  | none => reg
  | some session =>
    moveToFinished (reg.update ref fun session => exitedSession session exitCode exitSignal) ref
      (exitedSession session exitCode exitSignal) status now

def listRunningSessions : List (Nat × ProcessSession) :=
  (reg.runningSessions.values.filterMap fun ref => (reg.sessions[ref]?).map (ref, ·)).filter
    fun found => found.2.backgrounded

def listFinishedSessions : List (Nat × FinishedSession) := reg.finishedSessions.values

def setJobTtlMs (value : Option Js.Num) : Registry :=
  match value with
  | none | some .nan => reg
  | some value => { reg with jobTtlMs := clampTtl value }

def pruneFinishedSessions (now : Nat) : Registry :=
  { reg with
    finishedSessions :=
      reg.finishedSessions.filter fun f => !decide ((f.2.2.endedAt : ℚ) < now - reg.jobTtlMs) }

end Operations

end T560.Process
