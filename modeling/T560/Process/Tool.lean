import T560.Process.Registry

/-!
# The process tool

The actions of `createProcessTool` on the registry. A poll with a timeout and a write wait: the
call leaves what it is waiting for, and goes on when the time or the stream has come.
-/

namespace T560.Process

open Js (Value Runtime JsError Units units)
open Js.Value (coalesce trimmedText textOrEmpty)

/-! ## What a call answers -/

/-- The text of a reply: one of the tool's own, or output of a process. -/
inductive Text where
  | literal (s : String)
  | output (units : Units)
  deriving DecidableEq, Repr

structure Reply where
  text : Text
  details : Value

inductive ToolError where
  | js (e : JsError)
  | stream (message : String)
  deriving DecidableEq, Repr

/-- What a call that has not answered yet waits for, with the session it found. -/
inductive Waiting where
  | poll (scopeKey : Option String) (sessionId : String) (ref : Nat) (deadline : Int)
  | write (scopeKey : Option String) (sessionId : String) (ref : Nat) (eof : Bool) (length : Nat)
  deriving DecidableEq, Repr

def Waiting.scopeKey : Waiting → Option String
  | .poll scopeKey .. | .write scopeKey .. => scopeKey

def Waiting.ref : Waiting → Nat
  | .poll _ _ ref _ | .write _ _ ref .. => ref

inductive Progress where
  | answered (reply : Except ToolError Reply)
  | waiting (for_ : Waiting)

/-- The `details` of a reply; an undefined field is left out. -/
def details (fields : List (String × Option Value)) : Value :=
  .obj (fields.filterMap fun f => f.2.map (f.1, ·))

/-- A reply that has no details but its status. -/
def failed (text : String) : Progress :=
  .answered (.ok ⟨.literal text, details [("status", some (.str "failed"))]⟩)

def ProcessStatus.text : ProcessStatus → String
  | .running => "running"
  | .completed => "completed"
  | .failed => "failed"
  | .killed => "killed"

def natValue (n : Nat) : Value := .num (.fin n)

def exitCodeValue (exitCode : Option (Option Int)) : Option Value :=
  exitCode.map fun
    | some code => .num (.fin code)
    | none => .null

def exitSignalValue (exitSignal : Option (Option ExitSignal)) : Option Value :=
  exitSignal.map fun
    | some (.name text) => .str text
    | some (.number n) => .num (.fin n)
    | none => .null

section List

def isInScope (scopeKey sessionScopeKey : Option String) : Bool :=
  if scopeKey.getD "" = "" then true else scopeKey = sessionScopeKey

structure SessionItem where
  sessionId : String
  status : ProcessStatus
  pid : Option Nat := none
  command : String
  cwd : Option String
  startedAt : Nat
  endedAt : Option Nat := none
  exitCode : Option (Option Int) := none
  exitSignal : Option (Option ExitSignal) := none

def ProcessSession.item (session : ProcessSession) : SessionItem where
  sessionId := session.id
  status := .running
  pid := session.pid
  command := session.command
  cwd := session.cwd
  startedAt := session.startedAt

def FinishedSession.item (session : FinishedSession) : SessionItem where
  sessionId := session.id
  status := session.status
  command := session.command
  cwd := session.cwd
  startedAt := session.startedAt
  endedAt := some session.endedAt
  exitCode := session.exitCode
  exitSignal := session.exitSignal

def SessionItem.value (item : SessionItem) : Value :=
  details [("sessionId", some (.str item.sessionId)), ("status", some (.str item.status.text)),
    ("pid", item.pid.map natValue), ("command", some (.str item.command)),
    ("cwd", item.cwd.map .str), ("startedAt", some (natValue item.startedAt)),
    ("endedAt", item.endedAt.map natValue), ("exitCode", exitCodeValue item.exitCode),
    ("exitSignal", exitSignalValue item.exitSignal)]

/-- `Math.round` of the seconds, and no negative time. -/
def renderSessionSummary (now : Nat) (item : SessionItem) : String :=
  let runtimeMs : Int := (item.endedAt.getD now : Int) - item.startedAt
  let seconds := ((runtimeMs + 500) / 1000).toNat
  item.sessionId ++ " " ++ item.status.text ++ " " ++ toString seconds ++ "s :: " ++ item.command

/-- The sessions that `list` shows, with their references. -/
def listed (reg : Registry) (scopeKey : Option String) : List (Nat × SessionItem) :=
  ((listRunningSessions reg).filter fun found => isInScope scopeKey found.2.scopeKey).map
      (fun found => (found.1, found.2.item)) ++
    ((listFinishedSessions reg).filter fun found => isInScope scopeKey found.2.scopeKey).map
      (fun found => (found.1, found.2.item))

def list (reg : Registry) (scopeKey : Option String) (now : Nat) : Reply :=
  let items := (listed reg scopeKey).map Prod.snd
  let lines := String.intercalate "\n" (items.map (renderSessionSummary now))
  { text := .literal (if lines = "" then "No running or recent sessions." else lines)
    details := details [("status", some (.str "completed")),
      ("sessions", some (.arr (items.map SessionItem.value)))] }

end List

section Targets

variable (reg : Registry) (scopeKey : Option String) (sessionId : String)

def scopedRunning : Option (Nat × ProcessSession) :=
  (getSession reg sessionId).filter fun found => isInScope scopeKey found.2.scopeKey

def scopedFinished : Option (Nat × FinishedSession) :=
  (getFinishedSession reg sessionId).filter fun found => isInScope scopeKey found.2.scopeKey

end Targets

section Poll

variable (reg : Registry) (scopeKey : Option String) (sessionId : String)

/-- `!exitSignal` holds of no signal, an empty name and the number zero. -/
def resolveProcessStatus (session : ProcessSession) : ProcessStatus :=
  let signalled : Bool := match session.exitSignal with
    | some (some (.name text)) => text ≠ ""
    | some (some (.number n)) => n ≠ 0
    | _ => false
  if !session.exited then .running
  else if session.exitCode.join.getD 0 = 0 ∧ ¬ signalled then .completed
  else .failed

def pollFinished (session : FinishedSession) : Reply where
  text := if session.aggregated = [] then .literal "(no output)" else .output session.aggregated
  details := details [
    ("status", some (.str (if session.status = .completed then "completed" else "failed"))),
    ("sessionId", some (.str sessionId)), ("exitCode", exitCodeValue session.exitCode),
    ("exitSignal", exitSignalValue session.exitSignal)]

def pollRunning (session : ProcessSession) : Reply :=
  let text := session.drained .stdout ++ session.drained .stderr
  { text := if text = [] then .literal "(no new output)" else .output text
    details := details [("status", some (.str (resolveProcessStatus session).text)),
      ("sessionId", some (.str sessionId)), ("running", some (.bool !session.exited)),
      ("exitCode", exitCodeValue session.exitCode),
      ("exitSignal", exitSignalValue session.exitSignal)] }

/-- `Math.max(0, Math.min(120_000, Math.floor(timeout)))`, where no number is not positive. -/
def pollTimeout : Option Value → Int
  | some (.num (.fin q)) => max 0 (min 120000 ⌊q⌋)
  | some (.num .posInf) => 120000
  | _ => 0

/-- The end of a poll: what the session has pending goes into the reply. -/
def finishPoll (ref : Nat) : Registry × Progress :=
  match reg.sessions[ref]? with
  | none => (reg, failed ("No session found for " ++ sessionId ++ "."))
  | some session =>
    (reg.update ref drainSession, .answered (.ok (pollRunning sessionId session)))

def poll (now : Nat) (params : Value) : Registry × Progress :=
  match scopedRunning reg scopeKey sessionId, scopedFinished reg scopeKey sessionId with
  | none, none => (reg, failed ("No session found for " ++ sessionId ++ "."))
  | none, some (_, session) => (reg, .answered (.ok (pollFinished sessionId session)))
  | some (ref, session), _ =>
    let timeoutMs := pollTimeout (params.get? "timeout")
    if 0 < timeoutMs ∧ ¬ session.exited then
      (reg, .waiting (.poll scopeKey sessionId ref (now + timeoutMs)))
    else finishPoll reg sessionId ref

end Poll

section Log

/-- `split(/\r?\n/)` of the units. -/
def splitUnits : Units → List Units
  | [] => [[]]
  | c :: rest =>
    if c = 10 then [] :: splitUnits rest
    else
      match splitUnits rest with
      | line :: lines => if c = 13 ∧ line = [] ∧ rest.head? = some 10 then line :: lines
        else (c :: line) :: lines
      | [] => [[c]]

/-- `Math.max(0, x)`. -/
def notNegative : Js.Num → Js.Num
  | .fin q => .fin (max 0 q)
  | .negInf => .fin 0
  | n => n

/-- The place in a list that `slice` takes for a number that is not negative. -/
def sliceIndex (length : Nat) : Js.Num → Nat
  | .fin q => min length ⌊q⌋.toNat
  | .posInf => length
  | .negInf | .nan => 0

def logLimit : Js.Num → Nat
  | .fin q => (max 1 (min 2000 ⌊q⌋)).toNat
  | _ => 200

def plus (n : Js.Num) (limit : Nat) : Js.Num :=
  match n with
  | .fin q => .fin (q + limit)
  | n => n

variable (rt : Runtime) (reg : Registry) (scopeKey : Option String) (sessionId : String)

def logLines (all : Units) (params : Value) : Except JsError Reply := do
  let lines := splitUnits all
  let offset := notNegative
    (← Value.number rt (coalesce [params.get? "offset", some (.num (.fin 0))]))
  let limit := logLimit
    (← Value.number rt (coalesce [params.get? "limit", some (.num (.fin 200))]))
  let first := sliceIndex lines.length offset
  let last := sliceIndex lines.length (plus offset limit)
  let sliced := List.intercalate [10] ((lines.take last).drop first)
  return { text := if sliced = [] then .literal "(no log output)" else .output sliced
           details := details [("status", some (.str "completed")),
             ("sessionId", some (.str sessionId)), ("offset", some (.num offset)),
             ("limit", some (natValue limit)), ("totalLines", some (natValue lines.length))] }

def log (params : Value) : Registry × Progress :=
  let target := (scopedRunning reg scopeKey sessionId).elim
    ((scopedFinished reg scopeKey sessionId).map fun found => found.2.aggregated)
    (fun found => some found.2.aggregated)
  match target with
  | none => (reg, failed ("No session found for " ++ sessionId ++ "."))
  | some all => (reg, .answered ((logLines rt sessionId all params).mapError .js))

end Log

section Write

variable (rt : Runtime) (reg : Registry) (scopeKey : Option String) (sessionId : String)

def feedStdin (stdin : SessionStdin) (payload : String) (session : ProcessSession) :
    ProcessSession :=
  { session with stdin := some { stdin with written := stdin.written ++ [payload] } }

/-- The payload goes to stdin; the call waits until the stream has taken it. -/
def writeStdin (submit : Bool) (params : Value) : Registry × Progress :=
  match scopedRunning reg scopeKey sessionId with
  | none => (reg, failed ("No active session found for " ++ sessionId ++ "."))
  | some (ref, session) =>
    match textOrEmpty rt (params.get? "data") with
    | .error e => (reg, .answered (.error (.js e)))
    | .ok data =>
      let payload := if submit then data ++ "\n" else data
      if payload = "" then (reg, failed "data is required for write/submit/paste.")
      else
        match session.stdin.filter fun stdin => !stdin.destroyed with
        | none => (reg, failed ("Session " ++ sessionId ++ " stdin is not writable."))
        | some stdin =>
          (reg.update ref (feedStdin stdin payload),
            .waiting (.write scopeKey sessionId ref (params.get? "eof" = some (.bool true))
              (units payload).length))

def endStdin (session : ProcessSession) : ProcessSession :=
  { session with stdin := session.stdin.map fun stdin => { stdin with ended := true } }

/-- The rest of a write when the stream has taken the payload or failed. -/
def finishWrite (ref : Nat) (eof : Bool) (length : Nat) (error : Option String) :
    Registry × Progress :=
  match error with
  | some message => (reg, .answered (.error (.stream message)))
  | none =>
    (if eof then reg.update ref endStdin else reg,
      .answered (.ok
        { text := .literal ("Wrote " ++ toString length ++ " bytes to " ++ sessionId ++ ".")
          details := details [("status", some (.str "completed")),
            ("sessionId", some (.str sessionId))] }))

end Write

section Kill

variable (reg : Registry) (scopeKey : Option String) (sessionId : String)

def killReply (text status : String) (killed : Bool) : Progress :=
  .answered (.ok
    { text := .literal text
      details := details [("status", some (.str status)), ("sessionId", some (.str sessionId)),
        ("killed", some (.bool killed))] })

def signalChild (signal : String) (session : ProcessSession) : ProcessSession :=
  { session with
    child := session.child.map fun child => { child with signals := child.signals ++ [signal] } }

def kill : Registry × Progress :=
  match (scopedRunning reg scopeKey sessionId).filter fun found => found.2.child.isSome with
  | some (ref, _) =>
    (reg.update ref (signalChild "SIGTERM"),
      killReply sessionId ("Sent SIGTERM to " ++ sessionId ++ ".") "completed" true)
  | none =>
    (reg, killReply sessionId ("Session " ++ sessionId ++ " is not running.") "failed" false)

end Kill

section Execute

variable (rt : Runtime)

/-- The scope key of the tool is not looked at. -/
def removeSession (reg : Registry) (sessionId : String) : Registry × Progress :=
  (deleteSession reg sessionId,
    .answered (.ok
      { text := .literal ("Removed session " ++ sessionId ++ " from registry.")
        details := details [("status", some (.str "completed")),
          ("sessionId", some (.str sessionId))] }))

inductive Action where
  | list
  | poll
  | log
  | write
  | submit
  | paste
  | kill
  | clear
  | remove
  | unknown
  deriving DecidableEq, Repr

def actionNames : List (String × Action) :=
  [("list", .list), ("poll", .poll), ("log", .log), ("write", .write), ("submit", .submit),
    ("paste", .paste), ("kill", .kill), ("clear", .clear), ("remove", .remove)]

def actionOf (params : Value) : Except JsError Action := do
  let text ← trimmedText rt [params.get? "action", some (.str "list")]
  return (actionNames.lookup (rt.toLowerCase text)).getD .unknown

/-- An action on a session, for a session id that is not empty. -/
def executeOn (action : Action) (scopeKey : Option String) (sessionId : String) (now : Nat)
    (params : Value) (reg : Registry) : Registry × Progress :=
  match action with
  | .poll => poll reg scopeKey sessionId now params
  | .log => log rt reg scopeKey sessionId params
  | .write | .paste => writeStdin rt reg scopeKey sessionId false params
  | .submit => writeStdin rt reg scopeKey sessionId true params
  | .kill => kill reg scopeKey sessionId
  | .clear | .remove => removeSession reg sessionId
  | .list | .unknown =>
    (reg, failed ("Unknown process action. Use list, poll, log, write, submit, paste, kill, " ++
      "clear, or remove."))

def execute (scopeKey : Option String) (now : Nat) (params : Value) (reg : Registry) :
    Registry × Progress :=
  match actionOf rt params with
  | .error e => (reg, .answered (.error (.js e)))
  | .ok .list => (reg, .answered (.ok (list reg scopeKey now)))
  | .ok action =>
    match trimmedText rt [params.get? "sessionId"] with
    | .error e => (reg, .answered (.error (.js e)))
    | .ok sessionId =>
      if sessionId = "" then (reg, failed "sessionId is required for this action.")
      else executeOn rt action scopeKey sessionId now params reg

/-- A turn of the event loop for a waiting call; a poll goes on waiting while its session runs
and its deadline has not come. -/
def resume (for_ : Waiting) (now : Nat) (error : Option String) (reg : Registry) :
    Registry × Progress :=
  match for_ with
  | .poll scopeKey sessionId ref deadline =>
    if (reg.sessions[ref]?).all (fun session => !session.exited) ∧ (now : Int) < deadline then
      (reg, .waiting (.poll scopeKey sessionId ref deadline))
    else finishPoll reg sessionId ref
  | .write _ sessionId ref eof length => finishWrite reg sessionId ref eof length error

end Execute

end T560.Process
