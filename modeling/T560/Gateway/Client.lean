import Mathlib.Data.Rat.Floor
import T560.Foundation.Correlation
import T560.Foundation.InsertionMap
import T560.Js.Value

/-!
# The gateway client of the control panel

The client keeps one socket, the requests that wait for a response, and a timer for each of them.
It takes a response for the request whose id it names, and rejects what waits when the timer runs
out, when a socket closes and when it is closed itself. A lost connection is tried again after a
delay that grows. Every call of `request` makes a promise, here its number; the table of open
requests (`Correlation`) says what the client is for.
-/

namespace T560.Gateway

open Correlation (Table)
open Js (Value)

inductive FrameType where
  | req
  | res
  | event
  deriving DecidableEq, Repr

structure WsError where
  code : String
  message : String
  deriving DecidableEq, Repr

/-- `GatewayFrame` of the client and `WsFrame` of the server. -/
structure WsFrame where
  type : FrameType
  id : Option String := none
  method : Option String := none
  params : Option Value := none
  ok : Option Bool := none
  payload : Option Value := none
  error : Option WsError := none
  event : Option String := none
  seq : Option Nat := none
  deriving DecidableEq

/-- A field that is there and not empty. -/
def filled (field : Option String) : Option String := field.filter (· ≠ "")

/-- What a promise was settled with. -/
inductive Settlement where
  | resolved (payload : Option Value)
  | rejected (message : String)
  deriving DecidableEq

def requestFrame (id method : String) (params : Option Value) : WsFrame :=
  { type := .req, id := some id, method := some method, params }

/-- What a response settles its request with. -/
def settlementOf (frame : WsFrame) : Settlement :=
  if frame.ok = some true then .resolved frame.payload
  else .rejected ((frame.error.map WsError.message).getD "Request failed")

/-- The socket is named by its number among all sockets that were made. A timer is the id and the
promise that its callback holds. `calls` lists the frame of every call of `request`, by the number
of its promise, `settled` every call of `resolve` and `reject`, `events` every call of `onEvent`. -/
structure GatewayBrowserClient where
  ws : Option Nat
  pending : InsertionMap String Nat
  timers : List (String × Nat)
  reconnectDelay : ℚ
  reconnectTimer : Bool
  intentionallyClosed : Bool
  lastSeq : Nat
  calls : List WsFrame
  settled : List (Nat × Settlement)
  events : List (String × Option Value × Option Nat)

def RECONNECT_MIN : ℚ := 800
def RECONNECT_MAX : ℚ := 15000
def RECONNECT_FACTOR : ℚ := 17 / 10

namespace GatewayBrowserClient

def initial : GatewayBrowserClient :=
  ⟨none, .empty, [], RECONNECT_MIN, false, false, 0, [], [], []⟩

variable (c : GatewayBrowserClient)

def settle (promise : Nat) (s : Settlement) : GatewayBrowserClient :=
  { c with settled := c.settled ++ [(promise, s)] }

/-- `request`, with the id it draws, and the frame it sends. -/
def request (isOpen : Bool) (id method : String) (params : Option Value) :
    GatewayBrowserClient × Option WsFrame :=
  let promise := c.calls.length
  let frame := requestFrame id method params
  let c := { c with calls := c.calls ++ [frame] }
  if isOpen then
    ({ c with pending := c.pending.set id promise, timers := c.timers ++ [(id, promise)] }, some frame)
  else (c.settle promise (.rejected "Not connected"), none)

/-- `send` -/
def send (isOpen : Bool) (id method : String) (params : Option Value) : Option WsFrame :=
  if isOpen then some (requestFrame id method params) else none

/-- The callback of the timer of a request. -/
def timedOut (id : String) (promise : Nat) : GatewayBrowserClient :=
  { c with
    pending := c.pending.erase id
    timers := c.timers.filter fun t => t ≠ (id, promise)
    settled := c.settled ++ [(promise, .rejected "Request timeout")] }

def handleFrame (frame : WsFrame) : GatewayBrowserClient :=
  match frame.type with
  | .res =>
    match (filled frame.id).bind fun id => (c.pending.get id).map fun promise => (id, promise) with
    | some (id, promise) =>
      { c with
        pending := c.pending.erase id
        timers := c.timers.filter fun t => t.2 ≠ promise
        settled := c.settled ++ [(promise, settlementOf frame)] }
    | none => c
  | .event =>
    match filled frame.event with
    | some event =>
      { c with
        lastSeq := frame.seq.getD c.lastSeq
        events := c.events ++ [(event, frame.payload, frame.seq)] }
    | none => c
  | .req => c

def rejectAllPending (reason : String) : GatewayBrowserClient :=
  { c with
    pending := .empty
    timers := c.timers.filter fun t => t.2 ∉ c.pending.values
    settled := c.settled ++ c.pending.values.map fun promise => (promise, .rejected reason) }

def scheduleReconnect : GatewayBrowserClient :=
  if c.reconnectTimer then c
  else { c with
    reconnectTimer := true
    reconnectDelay := min (c.reconnectDelay * RECONNECT_FACTOR) RECONNECT_MAX }

/-- `doConnect` with the number of the socket it makes; the socket it had before is closed. -/
def doConnect (socket : Nat) : GatewayBrowserClient := { c with ws := some socket }

def connect (socket : Nat) : GatewayBrowserClient :=
  { c with intentionallyClosed := false }.doConnect socket

/-- The callback of the reconnect timer. -/
def reconnect (socket : Nat) : GatewayBrowserClient :=
  { c with reconnectTimer := false }.doConnect socket

def handshakeParams : Value :=
  .obj [("client", .obj [("id", .str "t560-ui"), ("version", .str "0.1.0")])]

/-- `ws.onopen`: the handshake goes over the socket that the client has. -/
def onopen (isOpen : Bool) (id : String) : GatewayBrowserClient × Option WsFrame :=
  { c with reconnectDelay := RECONNECT_MIN }.request isOpen id "connect" (some handshakeParams)

/-- `ws.onclose`, of any socket -/
def onclose : GatewayBrowserClient :=
  let c := { c with ws := none }.rejectAllPending "Connection closed"
  if c.intentionallyClosed then c else c.scheduleReconnect

def close : GatewayBrowserClient :=
  { c with intentionallyClosed := true, reconnectTimer := false, ws := none }.rejectAllPending
    "Client closed"

end GatewayBrowserClient

section Table
variable {c : GatewayBrowserClient}

/-- The client as a table of open requests. -/
def GatewayBrowserClient.table (c : GatewayBrowserClient) : Table Nat Settlement :=
  ⟨c.pending.values, c.settled⟩

/-- What holds of the requests of a client: each promise waits or was settled once, a timer runs for
those that wait and for no other, and a request waits under its own id. -/
structure Sound (c : GatewayBrowserClient) : Prop where
  accounts : c.table.Accounts (List.range c.calls.length)
  timers : c.timers = c.pending.entries
  ids : ∀ id promise, c.pending.get id = some promise →
    ∃ frame, c.calls[promise]? = some frame ∧ frame.id = some id

theorem sound_initial : Sound .initial where
  accounts := Correlation.accounts_empty
  timers := rfl
  ids := nofun

/-- Fields that are not about requests may be anything. -/
theorem Sound.of_rest (h : Sound c) (ws : Option Nat) (delay : ℚ) (timer closed : Bool) (seq : Nat)
    (events : List (String × Option Value × Option Nat)) :
    Sound { c with ws, reconnectDelay := delay, reconnectTimer := timer,
                   intentionallyClosed := closed, lastSeq := seq, events } :=
  ⟨h.accounts, h.timers, h.ids⟩

theorem Sound.values_nodup (h : Sound c) : c.pending.values.Nodup :=
  h.accounts.pending_nodup List.nodup_range

/-- Two ids that wait for one promise are one id. -/
theorem Sound.id_unique (h : Sound c) {id other : String} {promise : Nat}
    (hid : c.pending.get id = some promise) (hother : c.pending.get other = some promise) :
    other = id := by
  obtain ⟨frame, hframe, hfid⟩ := h.ids id promise hid
  obtain ⟨frame', hframe', hfid'⟩ := h.ids other promise hother
  rw [hframe] at hframe'
  cases hframe'
  rw [hfid] at hfid'
  exact (Option.some.inj hfid').symm

/-- Taking a request out of the map takes its promise out of the table. -/
theorem Sound.values_erase (h : Sound c) {id : String} {promise : Nat}
    (hid : c.pending.get id = some promise) :
    (c.pending.erase id).values = c.pending.values.erase promise := by
  have hfilter : (c.pending.erase id).values = c.pending.values.filter fun p => p ≠ promise := by
    change (c.pending.entries.filter _).map Prod.snd = (c.pending.entries.map Prod.snd).filter _
    rw [List.filter_map]
    congr 1
    apply List.filter_congr
    rintro ⟨other, p⟩ hmem
    have hp := InsertionMap.get_eq_some_iff.mpr hmem
    by_cases hpp : p = promise
    · subst hpp
      simp [h.id_unique hid hp]
    · have hne : other ≠ id := by
        rintro rfl
        rw [hid] at hp
        exact hpp (Option.some.inj hp).symm
      simp [hpp, hne]
  rw [hfilter, h.values_nodup.erase_eq_filter]
  apply List.filter_congr
  intro p _
  rw [bne, beq_eq_decide, decide_not]

/-- A request that is settled leaves the table. -/
theorem Sound.leave (h : Sound c) {id : String} {promise : Nat} (hid : c.pending.get id = some promise)
    (s : Settlement) (timers : List (String × Nat)) (htimers : timers = (c.pending.erase id).entries) :
    Sound { c with
      pending := c.pending.erase id
      timers
      settled := c.settled ++ [(promise, s)] } := by
  have hmem : promise ∈ c.pending.values := InsertionMap.mem_values_iff.mpr ⟨id, hid⟩
  have htable : c.table.settle promise s = ⟨(c.pending.erase id).values, c.settled ++ [(promise, s)]⟩ := by
    rw [h.values_erase hid]
    exact if_pos hmem
  refine ⟨?_, htimers, ?_⟩
  · have hsettle := h.accounts.settle promise s
    rw [htable] at hsettle
    exact hsettle
  · intro other p hp
    exact h.ids other p (InsertionMap.get_erase_eq_some_iff.mp hp).1

/-- The timers that run for the other requests. -/
theorem Sound.timers_erase (h : Sound c) {id : String} {promise : Nat}
    (hid : c.pending.get id = some promise) :
    c.timers.filter (fun t => t.2 ≠ promise) = (c.pending.erase id).entries := by
  rw [h.timers]
  apply List.filter_congr
  rintro ⟨other, p⟩ hmem
  have hp := InsertionMap.get_eq_some_iff.mpr hmem
  have hiff : p = promise ↔ other = id := by
    constructor
    · rintro rfl
      exact h.id_unique hid hp
    · rintro rfl
      rw [hid] at hp
      exact (Option.some.inj hp).symm
  simp [hiff]

/-- A new request under an id that was not drawn before. -/
theorem Sound.request (h : Sound c) (isOpen : Bool) {id : String} (method : String)
    (params : Option Value) (hnew : ∀ frame ∈ c.calls, frame.id ≠ some id) :
    Sound (c.request isOpen id method params).1 := by
  have hget : c.pending.get id = none := by
    rw [Option.eq_none_iff_forall_ne_some]
    intro promise hp
    obtain ⟨frame, hframe, hfid⟩ := h.ids id promise hp
    exact hnew frame (List.mem_of_getElem? hframe) hfid
  have hrange : List.range (c.calls.length + 1) = List.range c.calls.length ++ [c.calls.length] :=
    List.range_succ
  have hcall : ∀ (promise : Nat) (frame : WsFrame), c.calls[promise]? = some frame →
      (c.calls ++ [requestFrame id method params])[promise]? = some frame := by
    intro promise frame hframe
    rw [List.getElem?_append_left (List.getElem?_eq_some_iff.mp hframe).1]
    exact hframe
  cases isOpen with
  | true =>
    have hentries := InsertionMap.entries_set_new (x := c.calls.length) hget
    constructor
    · have hadd := h.accounts.add c.calls.length
      have hvalues : (c.pending.set id c.calls.length).values = c.pending.values ++ [c.calls.length] := by
        simp [InsertionMap.values, hentries]
      simpa [GatewayBrowserClient.request, GatewayBrowserClient.table, Table.add, hvalues, hrange]
        using hadd
    · simp [GatewayBrowserClient.request, hentries, h.timers]
    · intro other promise hp
      by_cases ho : other = id
      · subst ho
        rw [GatewayBrowserClient.request, if_pos rfl, InsertionMap.get_set] at hp
        obtain rfl := Option.some.inj hp
        exact ⟨requestFrame other method params, by simp [GatewayBrowserClient.request], rfl⟩
      · rw [GatewayBrowserClient.request, if_pos rfl, InsertionMap.get_set_ne ho] at hp
        obtain ⟨frame, hframe, hfid⟩ := h.ids other promise hp
        exact ⟨frame, hcall promise frame hframe, hfid⟩
  | false =>
    constructor
    · have hrefuse := h.accounts.refuse c.calls.length (.rejected "Not connected")
      simpa [GatewayBrowserClient.request, GatewayBrowserClient.table, GatewayBrowserClient.settle,
        Table.refuse, hrange] using hrefuse
    · exact h.timers
    · intro other promise hp
      obtain ⟨frame, hframe, hfid⟩ := h.ids other promise hp
      exact ⟨frame, hcall promise frame hframe, hfid⟩

/-- The timer of a request that waits. -/
theorem Sound.timedOut (h : Sound c) {id : String} {promise : Nat} (ht : (id, promise) ∈ c.timers) :
    c.pending.get id = some promise ∧ Sound (c.timedOut id promise) := by
  rw [h.timers] at ht
  have hid := InsertionMap.get_eq_some_iff.mpr ht
  have hfilter : c.timers.filter (fun t => t ≠ (id, promise)) =
      c.timers.filter fun t => t.2 ≠ promise := by
    rw [h.timers]
    apply List.filter_congr
    rintro ⟨other, p⟩ hmem
    have hp := InsertionMap.get_eq_some_iff.mpr hmem
    have hiff : (other, p) = (id, promise) ↔ p = promise := by
      constructor
      · exact fun heq => (Prod.mk.inj heq).2
      · rintro rfl
        rw [h.id_unique hid hp]
    simp only [ne_eq, hiff]
  exact ⟨hid, h.leave hid _ _ (hfilter.trans (h.timers_erase hid))⟩

/-- A frame settles the request whose id it names, or no request. -/
theorem handleFrame_cases (c : GatewayBrowserClient) (frame : WsFrame) :
    (∃ lastSeq events, c.handleFrame frame = { c with lastSeq, events }) ∨
    ∃ id promise, frame.type = .res ∧ frame.id = some id ∧ c.pending.get id = some promise ∧
      c.handleFrame frame = { c with
        pending := c.pending.erase id
        timers := c.timers.filter fun t => t.2 ≠ promise
        settled := c.settled ++ [(promise, settlementOf frame)] } := by
  unfold GatewayBrowserClient.handleFrame
  cases htype : frame.type with
  | req => exact Or.inl ⟨_, _, rfl⟩
  | event =>
    cases filled frame.event with
    | none => exact Or.inl ⟨_, _, rfl⟩
    | some event => exact Or.inl ⟨_, _, rfl⟩
  | res =>
    cases hid : filled frame.id with
    | none => exact Or.inl ⟨_, _, rfl⟩
    | some id =>
      have hframe : frame.id = some id := (Option.filter_eq_some_iff.mp hid).1
      cases hget : c.pending.get id with
      | none => exact Or.inl ⟨c.lastSeq, c.events, by simp [hget]⟩
      | some promise => exact Or.inr ⟨id, promise, rfl, hframe, hget, by simp [hget]⟩

theorem Sound.handleFrame (h : Sound c) (frame : WsFrame) : Sound (c.handleFrame frame) := by
  obtain ⟨lastSeq, events, heq⟩ | ⟨id, promise, -, -, hid, heq⟩ := handleFrame_cases c frame
  · rw [heq]
    exact h.of_rest _ _ _ _ _ _
  · rw [heq]
    exact h.leave hid _ _ (h.timers_erase hid)

theorem Sound.rejectAllPending (h : Sound c) (reason : String) : Sound (c.rejectAllPending reason) where
  accounts := h.accounts.settleAll (.rejected reason)
  timers := by
    change c.timers.filter (fun t => t.2 ∉ c.pending.values) = []
    rw [h.timers, List.filter_eq_nil_iff]
    intro t ht
    have hmem : t.2 ∈ c.pending.values := List.mem_map_of_mem ht
    simp [hmem]
  ids := nofun

theorem Sound.scheduleReconnect (h : Sound c) : Sound c.scheduleReconnect := by
  unfold GatewayBrowserClient.scheduleReconnect
  split_ifs
  · exact h
  · exact h.of_rest _ _ _ _ _ _

theorem Sound.onclose (h : Sound c) : Sound c.onclose := by
  have hreject := (h.of_rest none c.reconnectDelay c.reconnectTimer c.intentionallyClosed c.lastSeq
    c.events).rejectAllPending "Connection closed"
  unfold GatewayBrowserClient.onclose
  dsimp only
  split_ifs
  · exact hreject
  · exact hreject.scheduleReconnect

theorem Sound.close (h : Sound c) : Sound c.close :=
  (h.of_rest none c.reconnectDelay false true c.lastSeq c.events).rejectAllPending "Client closed"

theorem Sound.onopen (h : Sound c) (isOpen : Bool) {id : String}
    (hnew : ∀ frame ∈ c.calls, frame.id ≠ some id) : Sound (c.onopen isOpen id).1 :=
  (h.of_rest _ RECONNECT_MIN _ _ _ _).request isOpen _ _ hnew

end Table

end T560.Gateway
