import T560.Foundation.Emitter
import T560.Gateway.Responses

/-!
# Events of the agent

One emitter holds a listener for every client and for every event stream. A client that turns to
another session gives its listener up and registers a new one; a socket or a stream that closes
gives it up. The connections of the server model get the events of the session that they are bound
to; here that is what the listeners bring about.
-/

namespace T560.Gateway

open Js (Value)
open Web (sessionIdOf)

section Bound
variable {env : ServerEnv} {c : Connection}

/-- The session of a connection, and what it listens to, are left alone. -/
def SameSession (c d : Connection) : Prop :=
  d.sessionKey = c.sessionKey ∧ d.bound = c.bound ∧ d.isOpen = c.isOpen

theorem same_sendWsFrame (c : Connection) (frame : WsFrame) : SameSession c (c.sendWsFrame frame) := by
  unfold Connection.sendWsFrame
  split <;> exact ⟨rfl, rfl, rfl⟩

theorem SameSession.trans {d e : Connection} (h : SameSession c d) (h' : SameSession d e) :
    SameSession c e :=
  ⟨h'.1.trans h.1, h'.2.1.trans h.2.1, h'.2.2.trans h.2.2⟩

/-- The frame sets a session key and binds the client to it. -/
def rebinds (env : ServerEnv) (frame : WsFrame) : Bool :=
  (requestOf frame).any fun request =>
    (sessionKey? env frame.params).isSome &&
      if request.1 = "chat.send" then (sendText frame.params).any (· ≠ "")
      else if request.1 = "chat.inject" then (injectText env frame.params).toOption.any (· ≠ "")
      else request.1 = "chat.history"

/-- A connection stays where it is, or is bound to the session of its key. -/
def Binds (c d : Connection) (turns : Bool) : Prop :=
  d.isOpen = c.isOpen ∧
    if turns then d.bound = some (sessionIdOf d.sessionKey.text)
    else d.sessionKey = c.sessionKey ∧ d.bound = c.bound

theorem binds_of_same {d : Connection} (h : SameSession c d) : Binds c d false := ⟨h.2.2, h.1, h.2.1⟩

theorem binds_trans {d e : Connection} {turns : Bool} (h : Binds c d turns) (h' : SameSession d e) :
    Binds c e turns := by
  obtain ⟨hopen, hbinds⟩ := h
  refine ⟨h'.2.2.trans hopen, ?_⟩
  cases turns with
  | true =>
    rw [if_pos rfl] at hbinds ⊢
    rw [h'.2.1, h'.1]
    exact hbinds
  | false => exact ⟨h'.1.trans hbinds.1, h'.2.1.trans hbinds.2⟩

theorem binds_switchTo (env : ServerEnv) (c : Connection) (params : Option Value) :
    Binds c (c.switchTo env params) (sessionKey? env params).isSome := by
  unfold Connection.switchTo
  cases sessionKey? env params with
  | none => exact ⟨rfl, rfl, rfl⟩
  | some key => exact ⟨rfl, rfl⟩

theorem binds_chatSend (env : ServerEnv) (c : Connection) (id : String) (params : Option Value) :
    Binds c (c.chatSend env id params)
      ((sessionKey? env params).isSome && (sendText params).any (· ≠ "")) := by
  unfold Connection.chatSend
  cases sendText params with
  | none =>
    rw [Option.any_none, Bool.and_false]
    exact binds_of_same ⟨rfl, rfl, rfl⟩
  | some message =>
    by_cases hempty : message = ""
    · simp only [hempty, if_true, Option.any_some, ne_eq, not_true, decide_false, Bool.and_false]
      exact binds_of_same (same_sendWsFrame c _)
    · simp only [hempty, if_false, Option.any_some, ne_eq, not_false_iff, decide_true, Bool.and_true]
      have hsending := ((same_sendWsFrame (c.switchTo env params) (responseFrame id true none none)).trans
        (same_sendWsFrame _ (eventFrame "chat.sending" none)))
      split
      · exact binds_trans (binds_switchTo env c params) (hsending.trans (same_sendWsFrame _ _))
      · exact binds_trans (binds_switchTo env c params) (hsending.trans ⟨rfl, rfl, rfl⟩)

theorem binds_chatHistory (env : ServerEnv) (c : Connection) (id : String) (params : Option Value) :
    Binds c (c.chatHistory env id params) (sessionKey? env params).isSome := by
  unfold Connection.chatHistory
  dsimp only
  split
  · exact binds_trans (binds_switchTo env c params) ⟨rfl, rfl, rfl⟩
  · exact binds_trans (binds_switchTo env c params) (same_sendWsFrame _ _)

theorem binds_chatInject (env : ServerEnv) (c : Connection) (id : String) (params : Option Value) :
    Binds c (c.chatInject env id params)
      ((sessionKey? env params).isSome &&
        (injectText env params).toOption.any (· ≠ "")) := by
  unfold Connection.chatInject
  cases injectText env params with
  | error e =>
    rw [Except.toOption, Option.any_none, Bool.and_false]
    exact binds_of_same (same_sendWsFrame c _)
  | ok message =>
    rw [Except.toOption, Option.any_some]
    by_cases hempty : message = ""
    · simp only [hempty, if_true, ne_eq, not_true, decide_false, Bool.and_false]
      exact binds_of_same (same_sendWsFrame c _)
    · simp only [hempty, if_false, ne_eq, not_false_iff, decide_true, Bool.and_true]
      exact binds_trans (binds_switchTo env c params) ⟨rfl, rfl, rfl⟩

theorem binds_handle (env : ServerEnv) (c : Connection) (frame : WsFrame) :
    Binds c (c.handleWsMessage env frame) (rebinds env frame) := by
  unfold Connection.handleWsMessage rebinds
  cases requestOf frame with
  | none => exact binds_of_same ⟨rfl, rfl, rfl⟩
  | some request =>
    obtain ⟨method, id⟩ := request
    rw [Option.any_some]
    dsimp only
    by_cases hsend : method = "chat.send"
    · subst hsend
      rw [if_neg (by decide), if_pos rfl, if_pos rfl]
      exact binds_chatSend env c id frame.params
    by_cases hinject : method = "chat.inject"
    · subst hinject
      rw [if_neg (by decide), if_neg (by decide), if_neg (by decide), if_pos rfl, if_neg (by decide),
        if_pos rfl]
      exact binds_chatInject env c id frame.params
    by_cases hhistory : method = "chat.history"
    · subst hhistory
      rw [if_neg (by decide), if_neg (by decide), if_pos rfl, if_neg (by decide), if_neg (by decide),
        decide_eq_true rfl, Bool.and_true]
      exact binds_chatHistory env c id frame.params
    rw [if_neg hsend, if_neg hinject, if_neg hhistory, if_neg hsend, if_neg hinject,
      decide_eq_false hhistory, Bool.and_false]
    apply binds_of_same
    split_ifs
    · exact ⟨rfl, rfl, rfl⟩
    · exact (same_sendWsFrame c _).trans (same_sendWsFrame _ _)
    · exact same_sendWsFrame c _

theorem goOn_same (env : ServerEnv) (c : Connection) (i : Nat) (m : Moment) :
    SameSession c (c.handlerGoesOn env i m) := by
  rcases handlerGoesOn_cases env c i m with heq | ⟨_, _, _, _, _, -, heq, -⟩
  · rw [heq]
    exact ⟨rfl, rfl, rfl⟩
  · rw [heq]
    exact ⟨rfl, rfl, rfl⟩

end Bound

section Dashboard

inductive Target where
  | client (n : Nat)
  | stream (n : Nat)
  deriving DecidableEq

/-- A listener with the `sessionId` of its filter. -/
structure Listener where
  filter : Option String
  target : Target

/-- `filter?.sessionId && event.sessionId !== filter.sessionId` -/
def Listener.hears (l : Listener) (e : AgentEvent) : Bool :=
  (filled l.filter).all fun sessionId => e.sessionId = sessionId

/-- `WsClient`; its `unsubscribeEvents` removes the listener with the token, which every client has
from the moment it is accepted. -/
structure WsClient where
  connection : Connection
  unsubscribeEvents : Nat

/-- An event stream, and the events written to it. -/
structure EventStream where
  sessionId : String
  isOpen : Bool
  written : List AgentEvent

/-- The clients and the streams, each stream with the token of its listener. -/
structure Dashboard where
  clients : List WsClient
  streams : List (EventStream × Nat)
  emitter : Emitter Listener

/-- The clients and the streams alone. -/
structure Room where
  clients : List Connection
  streams : List EventStream

inductive DashboardEvent where
  | accept (sessionKey : String)
  | frame (n : Nat) (frame : WsFrame)
  | goOn (n i : Nat) (m : Moment)
  | agent (e : AgentEvent)
  | closed (n : Nat)
  | streamOpened (sessionKey : String)
  | streamClosed (n : Nat)

def EventStream.write (s : EventStream) (e : AgentEvent) : EventStream :=
  { s with written := s.written ++ [e] }

/-- `handleEventStream` -/
def EventStream.opened (sessionKey : String) : EventStream := ⟨sessionIdOf sessionKey, true, []⟩

def WsClient.sendAgentEvent (e : AgentEvent) (c : WsClient) : WsClient :=
  { c with connection := c.connection.sendWsEvent "agent.event" (some e.payload) }

namespace Dashboard

def initial : Dashboard := ⟨[], [], .empty⟩

/-- The callback of a listener. -/
def deliver (e : AgentEvent) (d : Dashboard) : Target → Dashboard
  | .client n => { d with clients := d.clients.modify n (WsClient.sendAgentEvent e) }
  | .stream n => { d with streams := d.streams.modify n fun s => (s.1.write e, s.2) }

def targets (d : Dashboard) (e : AgentEvent) : List Target :=
  (d.emitter.listeners.filter fun l => l.2.hears e).map fun l => l.2.target

/-- `emitAgentEvent` -/
def emitAgentEvent (d : Dashboard) (e : AgentEvent) : Dashboard := (d.targets e).foldl (deliver e) d

def step (env : ServerEnv) (d : Dashboard) : DashboardEvent → Dashboard
  | .accept sessionKey =>
    { d with
      clients := d.clients ++ [⟨.accepted sessionKey, d.emitter.next⟩]
      emitter := d.emitter.on ⟨some (sessionIdOf sessionKey), .client d.clients.length⟩ }
  | .frame n frame =>
    match d.clients[n]? with
    | none => d
    | some c =>
      let connection := c.connection.step env (.frame frame)
      if c.connection.isOpen && rebinds env frame then
        -- `bindClientEvents`: the old listener goes, the new one comes last
        let emitter := d.emitter.off c.unsubscribeEvents
        { d with
          clients := d.clients.set n ⟨connection, emitter.next⟩
          emitter := emitter.on ⟨some (sessionIdOf connection.sessionKey.text), .client n⟩ }
      else { d with clients := d.clients.set n { c with connection } }
  | .goOn n i m =>
    { d with clients := d.clients.modify n fun c =>
      { c with connection := c.connection.step env (.goOn i m) } }
  | .agent e => d.emitAgentEvent e
  | .closed n =>
    match d.clients[n]? with
    | none => d
    | some c =>
      { d with
        clients := d.clients.set n { c with connection := c.connection.step env .close }
        emitter := d.emitter.off c.unsubscribeEvents }
  | .streamOpened sessionKey =>
    { d with
      streams := d.streams ++ [(.opened sessionKey, d.emitter.next)]
      emitter := d.emitter.on ⟨some (sessionIdOf sessionKey), .stream d.streams.length⟩ }
  | .streamClosed n =>
    match d.streams[n]? with
    | none => d
    | some s =>
      { d with
        streams := d.streams.set n ({ s.1 with isOpen := false }, s.2)
        emitter := d.emitter.off s.2 }

/-- The dashboard without its listeners. -/
def room (d : Dashboard) : Room := ⟨d.clients.map WsClient.connection, d.streams.map Prod.fst⟩

end Dashboard

namespace Room

def initial : Room := ⟨[], []⟩

/-- Every client and every open stream gets the events of its session by itself. -/
def step (env : ServerEnv) (r : Room) : DashboardEvent → Room
  | .accept sessionKey => { r with clients := r.clients ++ [.accepted sessionKey] }
  | .frame n frame => { r with clients := r.clients.modify n fun c => c.step env (.frame frame) }
  | .goOn n i m => { r with clients := r.clients.modify n fun c => c.step env (.goOn i m) }
  | .agent e =>
    { clients := r.clients.map fun c => c.step env (.agent e)
      streams := r.streams.map fun s =>
        if s.isOpen ∧ s.sessionId = e.sessionId then s.write e else s }
  | .closed n => { r with clients := r.clients.modify n fun c => c.step env .close }
  | .streamOpened sessionKey => { r with streams := r.streams ++ [.opened sessionKey] }
  | .streamClosed n => { r with streams := r.streams.modify n fun s => { s with isOpen := false } }

end Room

end Dashboard

section Listeners
variable {emitter : Emitter Listener} {owner : Target → Option (Nat × Option String)} {x : Target}

/-- The listeners are those that their owners know: each owner has a token, and the session it
listens to while it does. -/
structure Held (emitter : Emitter Listener) (owner : Target → Option (Nat × Option String)) : Prop where
  mem : ∀ t filter x, (t, ⟨filter, x⟩) ∈ emitter.listeners ↔
    ∃ s, filter = some s ∧ owner x = some (t, some s)
  used : ∀ x t filter, owner x = some (t, filter) → t < emitter.next
  apart : ∀ x y t filter filter', owner x = some (t, filter) → owner y = some (t, filter') → x = y
  named : ∀ x t s, owner x = some (t, some s) → s ≠ ""

theorem held_empty : Held .empty fun _ => none where
  mem := by
    intro t filter x
    constructor
    · exact fun h => absurd h List.not_mem_nil
    · rintro ⟨_, -, h⟩
      cases h
  used := fun _ _ _ => nofun
  apart := fun _ _ _ _ _ => nofun
  named := fun _ _ _ => nofun

/-- An owner that does not listen registers a listener. -/
theorem Held.on (h : Held emitter owner) (hidle : ∀ t s, owner x ≠ some (t, some s)) {s : String}
    (hs : s ≠ "") : Held (emitter.on ⟨some s, x⟩) (Function.update owner x (some (emitter.next, some s))) where
  mem := by
    intro t filter y
    rw [Emitter.mem_on, h.mem]
    by_cases hy : y = x
    · subst hy
      rw [Function.update_self]
      constructor
      · rintro (⟨s', -, ho⟩ | heq)
        · exact absurd ho (hidle t s')
        · cases heq
          exact ⟨s, rfl, rfl⟩
      · rintro ⟨s', rfl, heq⟩
        cases heq
        exact Or.inr rfl
    · rw [Function.update_of_ne hy]
      constructor
      · rintro (hm | heq)
        · exact hm
        · cases heq
          exact absurd rfl hy
      · exact Or.inl
  used := by
    intro y t filter ho
    by_cases hy : y = x
    · subst hy
      rw [Function.update_self] at ho
      cases ho
      exact Nat.lt_succ_self _
    · rw [Function.update_of_ne hy] at ho
      exact Nat.lt_succ_of_lt (h.used y t filter ho)
  apart := by
    intro y z t filter filter' hy hz
    by_cases hyx : y = x <;> by_cases hzx : z = x
    · rw [hyx, hzx]
    · subst hyx
      rw [Function.update_self] at hy
      rw [Function.update_of_ne hzx] at hz
      cases hy
      exact absurd (h.used z _ _ hz) (Nat.lt_irrefl _)
    · subst hzx
      rw [Function.update_self] at hz
      rw [Function.update_of_ne hyx] at hy
      cases hz
      exact absurd (h.used y _ _ hy) (Nat.lt_irrefl _)
    · rw [Function.update_of_ne hyx] at hy
      rw [Function.update_of_ne hzx] at hz
      exact h.apart y z t filter filter' hy hz
  named := by
    intro y t s' ho
    by_cases hy : y = x
    · subst hy
      rw [Function.update_self] at ho
      cases ho
      exact hs
    · rw [Function.update_of_ne hy] at ho
      exact h.named y t s' ho

/-- An owner gives its listener up, if it still has one. -/
theorem Held.off (h : Held emitter owner) {t : Nat} {filter : Option String}
    (ho : owner x = some (t, filter)) :
    Held (emitter.off t) (Function.update owner x (some (t, none))) where
  mem := by
    intro t' filter' y
    rw [Emitter.mem_off, h.mem]
    by_cases hy : y = x
    · subst hy
      rw [Function.update_self]
      constructor
      · rintro ⟨⟨s, -, ho'⟩, hne⟩
        rw [ho] at ho'
        cases ho'
        exact absurd rfl hne
      · rintro ⟨s, -, heq⟩
        cases heq
    · rw [Function.update_of_ne hy]
      constructor
      · exact And.left
      · rintro ⟨s, hs, ho'⟩
        refine ⟨⟨s, hs, ho'⟩, ?_⟩
        rintro rfl
        exact hy (h.apart _ _ _ _ _ ho' ho)
  used := by
    intro y t' filter' ho'
    by_cases hy : y = x
    · subst hy
      rw [Function.update_self] at ho'
      cases ho'
      exact h.used y t filter ho
    · rw [Function.update_of_ne hy] at ho'
      exact h.used y t' filter' ho'
  apart := by
    have hold : ∀ y t' filter', Function.update owner x (some (t, none)) y = some (t', filter') →
        ∃ filter'', owner y = some (t', filter'') := by
      intro y t' filter' ho'
      by_cases hy : y = x
      · subst hy
        rw [Function.update_self] at ho'
        cases ho'
        exact ⟨filter, ho⟩
      · rw [Function.update_of_ne hy] at ho'
        exact ⟨filter', ho'⟩
    intro y z t' filter' filter'' hy hz
    obtain ⟨_, hy⟩ := hold y _ _ hy
    obtain ⟨_, hz⟩ := hold z _ _ hz
    exact h.apart y z t' _ _ hy hz
  named := by
    intro y t' s ho'
    by_cases hy : y = x
    · subst hy
      rw [Function.update_self] at ho'
      cases ho'
    · rw [Function.update_of_ne hy] at ho'
      exact h.named y t' s ho'

end Listeners

section Owners
variable {clients : List WsClient} {streams : List (EventStream × Nat)} {n : Nat}

def WsClient.listens (c : WsClient) : Nat × Option String := (c.unsubscribeEvents, c.connection.bound)

def streamListens (s : EventStream × Nat) : Nat × Option String :=
  (s.2, if s.1.isOpen then some s.1.sessionId else none)

/-- Who listens, and to which session. -/
def ownerOf (clients : List WsClient) (streams : List (EventStream × Nat)) :
    Target → Option (Nat × Option String)
  | .client n => clients[n]?.map WsClient.listens
  | .stream n => streams[n]?.map streamListens

theorem owner_set_client {c d : WsClient} (hc : clients[n]? = some c) :
    ownerOf (clients.set n d) streams =
      Function.update (ownerOf clients streams) (.client n)
        (some d.listens) := by
  funext x
  cases x with
  | stream m => exact (Function.update_of_ne (fun h => by cases h) _ _).symm
  | client m =>
    by_cases hm : m = n
    · subst hm
      rw [Function.update_self, ownerOf, List.getElem?_set_self (List.getElem?_eq_some_iff.mp hc).1]
      rfl
    · rw [Function.update_of_ne fun h => hm (Target.client.inj h), ownerOf,
        List.getElem?_set_ne (Ne.symm hm)]
      rfl

theorem owner_set_stream {s t : EventStream × Nat} (hs : streams[n]? = some s) :
    ownerOf clients (streams.set n t) =
      Function.update (ownerOf clients streams) (.stream n)
        (some (streamListens t)) := by
  funext x
  cases x with
  | client m => exact (Function.update_of_ne (fun h => by cases h) _ _).symm
  | stream m =>
    by_cases hm : m = n
    · subst hm
      rw [Function.update_self, ownerOf, List.getElem?_set_self (List.getElem?_eq_some_iff.mp hs).1]
      rfl
    · rw [Function.update_of_ne fun h => hm (Target.stream.inj h), ownerOf,
        List.getElem?_set_ne (Ne.symm hm)]
      rfl

theorem owner_append_client (c : WsClient) :
    ownerOf (clients ++ [c]) streams =
      Function.update (ownerOf clients streams) (.client clients.length)
        (some c.listens) := by
  funext x
  cases x with
  | stream m => exact (Function.update_of_ne (fun h => by cases h) _ _).symm
  | client m =>
    by_cases hm : m = clients.length
    · subst hm
      simp [ownerOf]
    · rw [Function.update_of_ne fun h => hm (Target.client.inj h), ownerOf, ownerOf]
      rcases Nat.lt_or_gt_of_ne hm with hlt | hgt
      · rw [List.getElem?_append_left hlt]
      · rw [List.getElem?_eq_none hgt.le, List.getElem?_eq_none (by rw [List.length_append]; exact hgt)]

theorem owner_append_stream (s : EventStream × Nat) :
    ownerOf clients (streams ++ [s]) =
      Function.update (ownerOf clients streams) (.stream streams.length)
        (some (streamListens s)) := by
  funext x
  cases x with
  | client m => exact (Function.update_of_ne (fun h => by cases h) _ _).symm
  | stream m =>
    by_cases hm : m = streams.length
    · subst hm
      simp [ownerOf]
    · rw [Function.update_of_ne fun h => hm (Target.stream.inj h), ownerOf, ownerOf]
      rcases Nat.lt_or_gt_of_ne hm with hlt | hgt
      · rw [List.getElem?_append_left hlt]
      · rw [List.getElem?_eq_none hgt.le, List.getElem?_eq_none (by rw [List.length_append]; exact hgt)]

/-- What is not about listening changes no owner. -/
theorem owner_congr {clients' : List WsClient} {streams' : List (EventStream × Nat)}
    (hclients : ∀ n : Nat, clients'[n]?.map WsClient.listens = clients[n]?.map WsClient.listens)
    (hstreams : ∀ n : Nat, streams'[n]?.map streamListens = streams[n]?.map streamListens) :
    ownerOf clients' streams' = ownerOf clients streams := by
  funext x
  cases x with
  | client n => exact hclients n
  | stream n => exact hstreams n

end Owners

section Refinement
variable {env : ServerEnv} {d : Dashboard}

def Dashboard.owner (d : Dashboard) : Target → Option (Nat × Option String) := ownerOf d.clients d.streams

/-- The emitter has the listeners of the clients and the streams, and no other. -/
def Listening (d : Dashboard) : Prop := Held d.emitter d.owner

theorem sessionIdOf_ne_empty (key : String) : sessionIdOf key ≠ "" := by
  intro h
  have hlength := congrArg String.length h
  simp [sessionIdOf, String.length_append] at hlength

theorem listening_initial : Listening .initial := by
  have howner : Dashboard.initial.owner = fun _ => none := by
    funext x
    cases x <;> rfl
  rw [Listening, howner]
  exact held_empty

theorem Listening.mem_targets (h : Listening d) {e : AgentEvent} {x : Target} :
    x ∈ d.targets e ↔ ∃ t, d.owner x = some (t, some e.sessionId) := by
  unfold Dashboard.targets
  simp only [List.mem_map, List.mem_filter]
  constructor
  · rintro ⟨⟨t, filter, y⟩, ⟨hl, hears⟩, rfl⟩
    obtain ⟨s, rfl, ho⟩ := (h.mem t filter y).mp hl
    have hs : e.sessionId = s := by
      simpa [Listener.hears, filled, Option.filter, h.named _ _ _ ho] using hears
    exact ⟨t, hs ▸ ho⟩
  · rintro ⟨t, ho⟩
    refine ⟨(t, ⟨some e.sessionId, x⟩), ⟨(h.mem _ _ _).mpr ⟨_, rfl, ho⟩, ?_⟩, rfl⟩
    simp [Listener.hears, filled, Option.filter, h.named _ _ _ ho]

theorem Listening.nodup_targets (h : Listening d) (e : AgentEvent) : (d.targets e).Nodup := by
  have hnodup := Emitter.nodup_map (e := d.emitter) Listener.target (by
    rintro ⟨t, filter, x⟩ hl ⟨t', filter', x'⟩ hl' heq
    obtain ⟨s, -, ho⟩ := (h.mem _ _ _).mp hl
    obtain ⟨s', -, ho'⟩ := (h.mem _ _ _).mp hl'
    dsimp only at heq
    rw [heq, ho'] at ho
    cases ho
    rfl)
  exact hnodup.sublist (List.filter_sublist.map _)

/-- Each target gets the event once. -/
theorem deliver_all (e : AgentEvent) {targets : List Target} (hnodup : targets.Nodup) (d : Dashboard) :
    (∀ n : Nat, (targets.foldl (Dashboard.deliver e) d).clients[n]? =
      d.clients[n]?.map fun c => if .client n ∈ targets then c.sendAgentEvent e else c) ∧
    (∀ n : Nat, (targets.foldl (Dashboard.deliver e) d).streams[n]? =
      d.streams[n]?.map fun s => if .stream n ∈ targets then (s.1.write e, s.2) else s) ∧
    (targets.foldl (Dashboard.deliver e) d).emitter = d.emitter := by
  induction targets generalizing d with
  | nil => simp
  | cons x targets ih =>
    obtain ⟨hx, hnodup⟩ := List.nodup_cons.mp hnodup
    obtain ⟨hclients, hstreams, hemitter⟩ := ih hnodup (Dashboard.deliver e d x)
    rw [List.foldl_cons, hemitter]
    refine ⟨fun n => ?_, fun n => ?_, by cases x <;> rfl⟩
    · rw [hclients n]
      cases x with
      | client m =>
        simp only [Dashboard.deliver, List.getElem?_modify, List.mem_cons, Target.client.injEq]
        by_cases hm : m = n
        · subst hm
          simp [hx, Function.comp_def]
        · simp [hm, Ne.symm hm]
      | stream m => simp [Dashboard.deliver]
    · rw [hstreams n]
      cases x with
      | client m => simp [Dashboard.deliver]
      | stream m =>
        simp only [Dashboard.deliver, List.getElem?_modify, List.mem_cons, Target.stream.injEq]
        by_cases hm : m = n
        · subst hm
          simp [hx, Function.comp_def]
        · simp [hm, Ne.symm hm]

theorem listens_sendAgentEvent (e : AgentEvent) (c : WsClient) :
    (c.sendAgentEvent e).listens = c.listens := by
  have hsame := same_sendWsFrame c.connection (eventFrame "agent.event" (some e.payload))
  exact congrArg (Prod.mk c.unsubscribeEvents) hsame.2.1

theorem modify_eq_set {α : Type} {xs : List α} {n : Nat} {x : α} (h : xs[n]? = some x) (f : α → α) :
    xs.modify n f = xs.set n (f x) := by
  apply List.ext_getElem?
  intro m
  rw [List.getElem?_modify]
  by_cases hm : n = m
  · subst hm
    rw [List.getElem?_set_self (List.getElem?_eq_some_iff.mp h).1, h]
    simp
  · simp [hm]

/-- An event of the agent reaches those that are bound to its session. -/
theorem emit_refines (h : Listening d) (env : ServerEnv) (e : AgentEvent) :
    (d.emitAgentEvent e).room = d.room.step env (.agent e) ∧ Listening (d.emitAgentEvent e) := by
  obtain ⟨hclients, hstreams, hemitter⟩ := deliver_all e (h.nodup_targets e) d
  have hclient : ∀ (n : Nat) (c : WsClient), d.clients[n]? = some c →
      (.client n ∈ d.targets e ↔ c.connection.bound = some e.sessionId) := by
    intro n c hc
    rw [h.mem_targets, Dashboard.owner, ownerOf, hc]
    exact ⟨fun ⟨t, ht⟩ => congrArg Prod.snd (Option.some.inj ht), fun hb => ⟨c.unsubscribeEvents, by simp [WsClient.listens, hb]⟩⟩
  have hstream : ∀ (n : Nat) (s : EventStream × Nat), d.streams[n]? = some s →
      (.stream n ∈ d.targets e ↔ s.1.isOpen = true ∧ s.1.sessionId = e.sessionId) := by
    intro n s hs
    rw [h.mem_targets, Dashboard.owner, ownerOf, hs]
    cases hopen : s.1.isOpen <;> simp [streamListens, hopen]
  constructor
  · have hc : (d.emitAgentEvent e).clients.map WsClient.connection =
        (d.clients.map WsClient.connection).map fun c => c.step env (.agent e) := by
      apply List.ext_getElem?
      intro n
      rw [List.getElem?_map, Dashboard.emitAgentEvent, hclients n, List.getElem?_map, List.getElem?_map]
      cases hn : d.clients[n]? with
      | none => rfl
      | some c =>
        simp only [Option.map_some, hclient n c hn, Connection.step]
        split_ifs <;> rfl
    have hs : (d.emitAgentEvent e).streams.map Prod.fst =
        (d.streams.map Prod.fst).map fun s =>
          if s.isOpen ∧ s.sessionId = e.sessionId then s.write e else s := by
      apply List.ext_getElem?
      intro n
      rw [List.getElem?_map, Dashboard.emitAgentEvent, hstreams n, List.getElem?_map, List.getElem?_map]
      cases hn : d.streams[n]? with
      | none => rfl
      | some s =>
        simp only [Option.map_some, hstream n s hn]
        split_ifs <;> rfl
    exact congrArg₂ Room.mk hc hs
  · have howner : (d.emitAgentEvent e).owner = d.owner := by
      apply owner_congr
      · intro n
        rw [Dashboard.emitAgentEvent, hclients n, Option.map_map]
        congr 1
        funext c
        dsimp only [Function.comp]
        split_ifs
        · exact listens_sendAgentEvent e c
        · rfl
      · intro n
        rw [Dashboard.emitAgentEvent, hstreams n, Option.map_map]
        congr 1
        funext s
        dsimp only [Function.comp]
        split_ifs <;> rfl
    rw [Listening, howner, Dashboard.emitAgentEvent, hemitter]
    exact h

/-- A client that already listens turns to the session of its key. -/
theorem listening_rebind (h : Listening d) {n : Nat} {c : WsClient} (hc : d.clients[n]? = some c)
    (connection : Connection) (hbound : connection.bound = some (sessionIdOf connection.sessionKey.text)) :
    Listening { d with
      clients := d.clients.set n ⟨connection, (d.emitter.off c.unsubscribeEvents).next⟩
      emitter := (d.emitter.off c.unsubscribeEvents).on
        ⟨some (sessionIdOf connection.sessionKey.text), .client n⟩ } := by
  have ho : d.owner (.client n) = some (c.unsubscribeEvents, c.connection.bound) := by
    rw [Dashboard.owner, ownerOf, hc]
    rfl
  have hon := (h.off ho).on (x := .client n) (s := sessionIdOf connection.sessionKey.text)
    (by rw [Function.update_self]; exact fun _ _ => nofun) (sessionIdOf_ne_empty _)
  rw [Function.update_idem] at hon
  have howner := @owner_set_client d.clients d.streams n c
    ⟨connection, (d.emitter.off c.unsubscribeEvents).next⟩ hc
  rw [Listening, Dashboard.owner, howner, WsClient.listens, hbound]
  exact hon

theorem listening_close (h : Listening d) {n : Nat} {c : WsClient} (hc : d.clients[n]? = some c)
    {connection : Connection} (hbound : connection.bound = none) :
    Listening { d with
      clients := d.clients.set n { c with connection }
      emitter := d.emitter.off c.unsubscribeEvents } := by
  have ho : d.owner (.client n) = some (c.unsubscribeEvents, c.connection.bound) := by
    rw [Dashboard.owner, ownerOf, hc]
    rfl
  have howner := @owner_set_client d.clients d.streams n c { c with connection } hc
  rw [Listening, Dashboard.owner, howner, WsClient.listens, hbound]
  exact h.off ho

/-- A client whose listener stays. -/
theorem listening_stays (h : Listening d) {clients : List WsClient}
    (hclients : ∀ n : Nat, clients[n]?.map WsClient.listens = d.clients[n]?.map WsClient.listens) :
    Listening { d with clients } := by
  have howner : ownerOf clients d.streams = d.owner := owner_congr hclients fun _ => rfl
  rw [Listening, Dashboard.owner, howner]
  exact h

theorem map_connection_set {clients : List WsClient} {n : Nat} {c : WsClient} (hc : clients[n]? = some c)
    (f : Connection → Connection) (token : Nat) :
    (clients.set n ⟨f c.connection, token⟩).map WsClient.connection =
      (clients.map WsClient.connection).modify n f := by
  apply List.ext_getElem?
  intro m
  rw [List.getElem?_map, List.getElem?_modify, List.getElem?_map]
  by_cases hm : n = m
  · subst hm
    rw [List.getElem?_set_self (List.getElem?_eq_some_iff.mp hc).1, hc]
    simp
  · simp [hm]

theorem modify_out {α : Type} {xs : List α} {n : Nat} (h : xs[n]? = none) (f : α → α) :
    xs.modify n f = xs := by
  apply List.ext_getElem?
  intro m
  rw [List.getElem?_modify]
  by_cases hm : n = m
  · subst hm
    simp [h]
  · simp [hm]

theorem bound_frame (env : ServerEnv) (c : Connection) (frame : WsFrame) :
    if (c.isOpen && rebinds env frame) = true then
      (c.step env (.frame frame)).bound = some (sessionIdOf (c.step env (.frame frame)).sessionKey.text)
    else (c.step env (.frame frame)).bound = c.bound := by
  cases hopen : c.isOpen with
  | false => simp [Connection.step, hopen]
  | true =>
    have hbinds := binds_handle env { c with received := c.received ++ [frame] } frame
    rw [Connection.step, if_pos hopen, Bool.true_and]
    cases hturns : rebinds env frame with
    | true =>
      rw [hturns] at hbinds
      exact hbinds.2
    | false =>
      rw [hturns] at hbinds
      exact hbinds.2.2

/-- A client that stays where it is. -/
theorem listening_set (h : Listening d) {n : Nat} {c : WsClient} (hc : d.clients[n]? = some c)
    {connection : Connection} (hbound : connection.bound = c.connection.bound) :
    Listening { d with clients := d.clients.set n { c with connection } } := by
  apply listening_stays h
  intro m
  by_cases hm : n = m
  · subst hm
    rw [List.getElem?_set_self (List.getElem?_eq_some_iff.mp hc).1, hc]
    exact congrArg some (congrArg (Prod.mk c.unsubscribeEvents) hbound)
  · rw [List.getElem?_set_ne hm]

/-- An arriving frame: the client keeps its listener, or moves it to the session it turns to. -/
theorem frame_refines (h : Listening d) (env : ServerEnv) (n : Nat) (frame : WsFrame) :
    (d.step env (.frame n frame)).room = d.room.step env (.frame n frame) ∧
      Listening (d.step env (.frame n frame)) := by
  dsimp only [Dashboard.step]
  cases hc : d.clients[n]? with
  | none =>
    refine ⟨?_, h⟩
    rw [Room.step, modify_out (by rw [Dashboard.room, List.getElem?_map, hc]; rfl)]
  | some c =>
    have hbound := bound_frame env c.connection frame
    dsimp only
    split_ifs at hbound ⊢
    · exact ⟨congrArg₂ Room.mk (map_connection_set hc (·.step env (.frame frame)) _) rfl, listening_rebind h hc _ hbound⟩
    · exact ⟨congrArg₂ Room.mk (map_connection_set hc (·.step env (.frame frame)) _) rfl, listening_set h hc hbound⟩

theorem Listening.step (h : Listening d) (env : ServerEnv) (ev : DashboardEvent) :
    (d.step env ev).room = d.room.step env ev ∧ Listening (d.step env ev) := by
  cases ev with
  | accept sessionKey =>
    refine ⟨?_, ?_⟩
    · simp [Dashboard.step, Dashboard.room, Room.step]
    · have hon := h.on (x := .client d.clients.length) (s := sessionIdOf sessionKey)
        (by simp [Dashboard.owner, ownerOf]) (sessionIdOf_ne_empty _)
      have howner := @owner_append_client d.clients d.streams
        ⟨.accepted sessionKey, d.emitter.next⟩
      rw [Listening, Dashboard.owner, Dashboard.step, howner]
      exact hon
  | frame n frame => exact frame_refines h env n frame
  | goOn n i m =>
    cases hc : d.clients[n]? with
    | none =>
      have hroom : d.room.clients[n]? = none := by rw [Dashboard.room, List.getElem?_map, hc]; rfl
      rw [Dashboard.step, Room.step, modify_out hc, modify_out hroom]
      exact ⟨rfl, h⟩
    | some c =>
      rw [Dashboard.step, modify_eq_set hc]
      exact ⟨congrArg₂ Room.mk (map_connection_set hc (·.step env (.goOn i m)) _) rfl,
        listening_set h hc (goOn_same env c.connection i m).2.1⟩
  | agent e => exact emit_refines h env e
  | closed n =>
    dsimp only [Dashboard.step]
    cases hc : d.clients[n]? with
    | none =>
      refine ⟨?_, h⟩
      rw [Room.step, modify_out (by rw [Dashboard.room, List.getElem?_map, hc]; rfl)]
    | some c =>
      exact ⟨congrArg₂ Room.mk (map_connection_set hc (·.step env .close) _) rfl, listening_close h hc rfl⟩
  | streamOpened sessionKey =>
    refine ⟨?_, ?_⟩
    · simp [Dashboard.step, Dashboard.room, Room.step]
    · have hon := h.on (x := .stream d.streams.length) (s := sessionIdOf sessionKey)
        (by simp [Dashboard.owner, ownerOf]) (sessionIdOf_ne_empty _)
      have howner := @owner_append_stream d.clients d.streams
        (.opened sessionKey, d.emitter.next)
      rw [Listening, Dashboard.owner, Dashboard.step, howner]
      exact hon
  | streamClosed n =>
    dsimp only [Dashboard.step]
    cases hs : d.streams[n]? with
    | none =>
      refine ⟨?_, h⟩
      rw [Room.step, modify_out (by rw [Dashboard.room, List.getElem?_map, hs]; rfl)]
    | some s =>
      refine ⟨congrArg₂ Room.mk rfl ?_, ?_⟩
      · rw [Dashboard.room, modify_eq_set (show (d.streams.map Prod.fst)[n]? = some s.1 by
          rw [List.getElem?_map, hs]; rfl), List.map_set]
      · have ho : d.owner (.stream n) = some (streamListens s) := by
          rw [Dashboard.owner, ownerOf, hs]
          rfl
        have howner := @owner_set_stream d.clients d.streams n s ({ s.1 with isOpen := false }, s.2) hs
        rw [Listening, Dashboard.owner, howner]
        exact h.off ho

end Refinement

end T560.Gateway
