import T560.Gateway.Responses

/-!
# The client and the server over their sockets

Every socket carries the frames of the client to the connection that the server has for it, and the
frames of the connection back, each in its order; it may close on either side at any time, and what
is then still on its way is lost. The client has one socket at a time, but a socket it has given up
is closed later, and its `onclose` runs like that of any other.
-/

namespace T560.Gateway

open Js (Value)

/-- The state of a socket at the client. -/
inductive ReadyState where
  | connecting
  | opened
  | closing
  | closed
  deriving DecidableEq, Repr

/-- A socket: the frames the client put on it, the connection the server has for it once it was
accepted, and how many of the frames of the connection have arrived. -/
structure Link where
  state : ReadyState
  posted : List WsFrame
  server : Option Connection
  delivered : Nat

structure World where
  client : GatewayBrowserClient
  links : List Link

inductive Event where
  | connect
  | reconnect
  | close
  | request (id method : String) (params : Option Value)
  | send (id method : String) (params : Option Value)
  | accept (n : Nat) (sessionKey : String)
  | opened (n : Nat) (id : String)
  | toServer (n : Nat)
  | toClient (n : Nat)
  | goOn (n i : Nat) (m : Moment)
  | agent (e : AgentEvent)
  | closedAtServer (n : Nat)
  | closedAtClient (n : Nat)
  | timedOut (id : String) (promise : Nat)

namespace Link

def new : Link := ⟨.connecting, [], none, 0⟩

def sent (l : Link) : List WsFrame := (l.server.map Connection.sent).getD []

def received (l : Link) : List WsFrame := (l.server.map Connection.received).getD []

/-- `ws.close()` -/
def shut (l : Link) : Link := if l.state = .closed then l else { l with state := .closing }

def post (frame : WsFrame) (l : Link) : Link := { l with posted := l.posted ++ [frame] }

def serve (env : ServerEnv) (e : ServerEvent) (l : Link) : Link :=
  { l with server := l.server.map fun c => c.step env e }

/-- The next frame of the client arrives. -/
def toServer (env : ServerEnv) (l : Link) : Link :=
  match l.posted[l.received.length]? with
  | some frame => l.serve env (.frame frame)
  | none => l

def accept (sessionKey : String) (l : Link) : Link :=
  if l.server.isNone then { l with server := some (.accepted sessionKey) } else l

end Link

namespace World

def initial : World := ⟨.initial, []⟩

variable (w : World)

/-- `this.ws.readyState === WebSocket.OPEN` -/
def isOpen : Bool := w.client.ws.any fun n => w.links[n]?.any fun l => l.state = .opened

def onLink (n : Nat) (f : Link → Link) : World := { w with links := w.links.modify n f }

/-- The sockets, once that of the client is closed. -/
def shutSocket : List Link :=
  match w.client.ws with
  | some n => w.links.modify n Link.shut
  | none => w.links

/-- A frame goes out on the socket of the client. -/
def post : Option WsFrame → World
  | some frame =>
    match w.client.ws with
    | some n => w.onLink n (Link.post frame)
    | none => w
  | none => w

def request (id method : String) (params : Option Value) : World :=
  let (client, frame) := w.client.request w.isOpen id method params
  { w with client }.post frame

/-- A new socket. -/
def doConnect (client : GatewayBrowserClient) : World := ⟨client, w.shutSocket ++ [.new]⟩

/-- What cannot happen in a state changes nothing. -/
def step (env : ServerEnv) (w : World) : Event → World
  | .connect => w.doConnect (w.client.connect w.links.length)
  | .reconnect =>
    if w.client.reconnectTimer then w.doConnect (w.client.reconnect w.links.length) else w
  | .close => ⟨w.client.close, w.shutSocket⟩
  | .request id method params => w.request id method params
  | .send id method params => w.post (GatewayBrowserClient.send w.isOpen id method params)
  | .accept n sessionKey => w.onLink n (Link.accept sessionKey)
  | .opened n id =>
    if w.links[n]?.any fun l => l.state = .connecting ∧ l.server.isSome then
      let w := w.onLink n fun l => { l with state := .opened }
      let (client, frame) := w.client.onopen w.isOpen id
      { w with client }.post frame
    else w
  | .toServer n => w.onLink n (Link.toServer env)
  | .toClient n =>
    match w.links[n]? with
    | some l =>
      match l.sent[l.delivered]? with
      | some frame =>
        if l.state = .opened then
          { w with client := w.client.handleFrame frame }.onLink n fun l =>
            { l with delivered := l.delivered + 1 }
        else w
      | none => w
    | none => w
  | .goOn n i m => w.onLink n (Link.serve env (.goOn i m))
  | .agent e => { w with links := w.links.map (Link.serve env (.agent e)) }
  | .closedAtServer n => w.onLink n (Link.serve env .close)
  | .closedAtClient n =>
    if w.links[n]?.any fun l => l.state ≠ .closed then
      { w with client := w.client.onclose }.onLink n fun l => { l with state := .closed }
    else w
  | .timedOut id promise =>
    if (id, promise) ∈ w.client.timers then { w with client := w.client.timedOut id promise } else w

/-- All frames that the client put on a socket. -/
def posted : List WsFrame := w.links.flatMap Link.posted

/-- An id that was not drawn before. -/
def Fresh (id : String) : Prop :=
  id ≠ "" ∧ (∀ frame ∈ w.client.calls, frame.id ≠ some id) ∧ ∀ frame ∈ w.posted, frame.id ≠ some id

end World

/-- Every id that is drawn is a new one. -/
def DrawsFresh (w : World) : Event → Prop
  | .request id _ _ | .send id _ _ | .opened _ id => w.Fresh id
  | _ => True

section Links
variable {env : ServerEnv}

/-- What is true of a socket: the server has a part of what the client posted, the client has
received a part of what the server sent. -/
structure Link.Sound (l : Link) : Prop where
  received : l.received <+: l.posted
  delivered : l.delivered ≤ l.sent.length
  balanced : ∀ c, l.server = some c → Balanced c

/-- What happens to a socket: more frames on either way, and as long as something waits for a
response it neither closes nor delivers one. -/
structure Link.Advances (waits : Prop) (l m : Link) : Prop where
  posted : l.posted <+: m.posted
  sent : l.sent <+: m.sent
  received : l.received <+: m.received
  waits : waits → (l.state ≠ .closed → m.state ≠ .closed) ∧ m.delivered = l.delivered
  sound : l.Sound → m.Sound

variable {waits : Prop}

theorem Link.Advances.refl (l : Link) : l.Advances waits l :=
  ⟨List.prefix_refl _, List.prefix_refl _, List.prefix_refl _, fun _ => ⟨id, rfl⟩, id⟩

theorem step_grows (env : ServerEnv) (c : Connection) (e : ServerEvent) :
    c.sent <+: (c.step env e).sent ∧
      ((c.step env e).received = c.received ∨
        ∃ frame, e = .frame frame ∧ (c.step env e).received = c.received ++ [frame]) := by
  cases e with
  | frame frame =>
    dsimp only [Connection.step]
    split
    · next hopen =>
      obtain ⟨_, _, _, frames, _, heq, -⟩ :=
        @handled_message env { c with received := c.received ++ [frame] } hopen frame
      rw [heq]
      exact ⟨List.prefix_append _ _, Or.inr ⟨frame, rfl, rfl⟩⟩
    · exact ⟨List.prefix_refl _, Or.inl rfl⟩
  | goOn i m =>
    dsimp only [Connection.step]
    rcases handlerGoesOn_cases env c i m with heq | ⟨_, _, _, frames, _, -, heq, -⟩
    · rw [heq]
      exact ⟨List.prefix_refl _, Or.inl rfl⟩
    · rw [heq]
      exact ⟨List.prefix_append _ _, Or.inl rfl⟩
  | agent e =>
    dsimp only [Connection.step]
    split
    · rw [Connection.sendWsEvent, sendWsFrame_eq]
      exact ⟨List.prefix_append _ _, Or.inl rfl⟩
    · exact ⟨List.prefix_refl _, Or.inl rfl⟩
  | close => exact ⟨List.prefix_refl _, Or.inl rfl⟩

theorem serve_advances (env : ServerEnv) (l : Link) (e : ServerEvent)
    (harrives : ∀ frame, e = .frame frame → l.posted[l.received.length]? = some frame) :
    l.Advances waits (l.serve env e) := by
  obtain ⟨state, posted, server, delivered⟩ := l
  cases server with
  | none => exact .refl _
  | some c =>
    obtain ⟨hsent, hreceived⟩ := step_grows env c e
    have hprefix : c.received <+: (c.step env e).received := by
      rcases hreceived with heq | ⟨frame, -, heq⟩
      · rw [heq]
      · rw [heq]
        exact List.prefix_append _ _
    refine ⟨List.prefix_refl _, hsent, hprefix, fun _ => ⟨id, rfl⟩, fun h => ⟨?_, ?_, ?_⟩⟩
    · rcases hreceived with heq | ⟨frame, hframe, heq⟩
      · change (c.step env e).received <+: posted
        rw [heq]
        exact h.received
      · have hnext : posted[c.received.length]? = some frame := harrives frame hframe
        obtain ⟨rest, hrest⟩ := h.received
        change c.received ++ rest = posted at hrest
        change (c.step env e).received <+: posted
        rw [heq, ← hrest, List.prefix_append_right_inj]
        rw [← hrest, List.getElem?_append_right le_rfl, Nat.sub_self] at hnext
        cases rest with
        | nil => cases hnext
        | cons f rest =>
          obtain rfl := Option.some.inj hnext
          exact List.prefix_append [f] rest
    · exact le_trans h.delivered hsent.length_le
    · rintro _ ⟨⟩
      exact (h.balanced c rfl).step e

theorem toServer_advances (env : ServerEnv) (l : Link) : l.Advances waits (l.toServer env) := by
  unfold Link.toServer
  split
  · next frame hnext =>
    apply serve_advances
    rintro _ ⟨⟩
    exact hnext
  · exact .refl l

theorem accept_advances (sessionKey : String) (l : Link) : l.Advances waits (l.accept sessionKey) := by
  obtain ⟨state, posted, server, delivered⟩ := l
  cases server with
  | some c => exact .refl _
  | none =>
    refine ⟨List.prefix_refl _, List.prefix_refl [], List.prefix_refl [], fun _ => ⟨id, rfl⟩,
      fun h => ⟨h.received, h.delivered, ?_⟩⟩
    rintro _ ⟨⟩
    exact balanced_accepted sessionKey

/-- A change of its state alone. -/
theorem state_advances (l : Link) {state : ReadyState} (hlive : waits → state ≠ .closed) :
    l.Advances waits { l with state } :=
  ⟨List.prefix_refl _, List.prefix_refl _, List.prefix_refl _, fun h => ⟨fun _ => hlive h, rfl⟩,
    fun h => ⟨h.1, h.2, h.3⟩⟩

theorem shut_advances (l : Link) : l.Advances waits l.shut := by
  unfold Link.shut
  split_ifs
  · exact .refl l
  · exact state_advances l fun _ => nofun

theorem post_advances (l : Link) (frame : WsFrame) : l.Advances waits (l.post frame) :=
  ⟨List.prefix_append _ _, List.prefix_refl _, List.prefix_refl _, fun _ => ⟨id, rfl⟩,
    fun h => ⟨h.1.trans (List.prefix_append _ _), h.2, h.3⟩⟩

end Links

end T560.Gateway
