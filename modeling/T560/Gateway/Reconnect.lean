import T560.Gateway.Settling

/-!
# The sockets of a client

The panel calls `connect` once, on a new client. From then on the client has one socket that may
work, or a timer that will make the next one, until it is closed; after that no socket of it works
and no timer runs.
-/

namespace T560.Gateway

def World.states (w : World) : List ReadyState := w.links.map Link.state

/-- `connect` is called on a client that has not had a socket yet. -/
def ConnectsOnce (w : World) : Event → Prop
  | .connect => w.links = []
  | _ => True

def ReadyState.Works (s : ReadyState) : Prop := s = .connecting ∨ s = .opened

/-- What holds of the socket and the timer of a client, given the states of all its sockets. -/
structure Keeps (c : GatewayBrowserClient) (states : List ReadyState) : Prop where
  delay : RECONNECT_MIN ≤ c.reconnectDelay ∧ c.reconnectDelay ≤ RECONNECT_MAX
  closed : c.intentionallyClosed = true → c.ws = none ∧ c.reconnectTimer = false
  socket : ∀ n, c.ws = some n → c.reconnectTimer = false ∧ ∃ s, states[n]? = some s ∧ s.Works
  others : ∀ n s, states[n]? = some s → c.ws = some n ∨ s = .closed ∨
    s = .closing ∧ c.intentionallyClosed = true
  tries : states ≠ [] → c.ws = none → c.intentionallyClosed = false → c.reconnectTimer = true
  timer : c.reconnectTimer = true → states ≠ []

section Client
variable {c d : GatewayBrowserClient} {states : List ReadyState}

/-- The parts of a client that are about its socket. -/
def SameSocket (c d : GatewayBrowserClient) : Prop :=
  d.ws = c.ws ∧ d.reconnectDelay = c.reconnectDelay ∧ d.reconnectTimer = c.reconnectTimer ∧
    d.intentionallyClosed = c.intentionallyClosed

theorem Keeps.same (h : Keeps c states) (hd : SameSocket c d) : Keeps d states := by
  obtain ⟨hws, hdelay, htimer, hclosed⟩ := hd
  obtain ⟨h1, h2, h3, h4, h5, h6⟩ := h
  constructor <;> simp only [hws, hdelay, htimer, hclosed] <;> assumption

theorem same_request (isOpen : Bool) (id method : String) (params : Option Js.Value) :
    SameSocket c (c.request isOpen id method params).1 := by
  cases isOpen <;> exact ⟨rfl, rfl, rfl, rfl⟩

theorem same_handleFrame (frame : WsFrame) : SameSocket c (c.handleFrame frame) := by
  rcases handleFrame_cases c frame with ⟨_, _, heq⟩ | ⟨_, _, -, -, -, heq⟩
  · rw [heq]
    exact ⟨rfl, rfl, rfl, rfl⟩
  · rw [heq]
    exact ⟨rfl, rfl, rfl, rfl⟩

theorem keeps_initial : Keeps .initial [] where
  delay := ⟨le_rfl, by norm_num [RECONNECT_MAX, GatewayBrowserClient.initial, RECONNECT_MIN]⟩
  closed := nofun
  socket := nofun
  others := nofun
  tries := fun h => absurd rfl h
  timer := nofun

/-- A new socket, when no other works. -/
theorem Keeps.new (h : Keeps c states) (hstates : ∀ s ∈ states, s = .closed) :
    Keeps { c with ws := some states.length, reconnectTimer := false, intentionallyClosed := false }
      (states ++ [.connecting]) where
  delay := h.delay
  closed := nofun
  socket := by
    rintro n ⟨⟩
    exact ⟨rfl, .connecting, by simp, Or.inl rfl⟩
  others := by
    intro n s hs
    rcases Nat.lt_or_ge n states.length with hn | hn
    · rw [List.getElem?_append_left hn] at hs
      exact Or.inr (Or.inl (hstates s (List.mem_of_getElem? hs)))
    · rw [List.getElem?_append_right hn, List.getElem?_singleton] at hs
      split_ifs at hs with h0
      left
      dsimp only
      congr 1
      omega
  tries := fun _ => nofun
  timer := nofun

theorem delay_scheduled (h : RECONNECT_MIN ≤ c.reconnectDelay ∧ c.reconnectDelay ≤ RECONNECT_MAX) :
    RECONNECT_MIN ≤ c.scheduleReconnect.reconnectDelay ∧
      c.scheduleReconnect.reconnectDelay ≤ RECONNECT_MAX := by
  unfold GatewayBrowserClient.scheduleReconnect
  split_ifs
  · exact h
  · obtain ⟨hmin, hmax⟩ := h
    refine ⟨le_min ?_ (by norm_num [RECONNECT_MIN, RECONNECT_MAX]), min_le_right _ _⟩
    simp only [RECONNECT_MIN, RECONNECT_FACTOR] at hmin ⊢
    linarith

theorem Keeps.no_socket (h : Keeps c []) : c.ws = none ∧ c.reconnectTimer = false := by
  constructor
  · cases hws : c.ws with
    | none => rfl
    | some n =>
      obtain ⟨-, s, hs, -⟩ := h.socket n hws
      cases hs
  · cases htimer : c.reconnectTimer with
    | false => rfl
    | true => exact absurd rfl (h.timer htimer)

/-- While the timer runs no socket is left. -/
theorem Keeps.all_closed (h : Keeps c states) (htimer : c.reconnectTimer = true) :
    c.ws = none ∧ c.intentionallyClosed = false ∧ ∀ s ∈ states, s = .closed := by
  have hclosed : c.intentionallyClosed = false := by
    rw [Bool.eq_false_iff]
    intro hc
    rw [(h.closed hc).2] at htimer
    cases htimer
  have hws : c.ws = none := by
    cases hws : c.ws with
    | none => rfl
    | some n =>
      rw [(h.socket n hws).1] at htimer
      cases htimer
  refine ⟨hws, hclosed, fun s hs => ?_⟩
  obtain ⟨n, hn⟩ := List.mem_iff_getElem?.mp hs
  rcases h.others n s hn with hn | hs | ⟨-, hc⟩
  · rw [hws] at hn
    cases hn
  · exact hs
  · rw [hclosed] at hc
    cases hc

/-- After `close` no socket works and no timer runs. -/
theorem Keeps.close (h : Keeps c states) {states' : List ReadyState}
    (hstates : ∀ s ∈ states', s = .closed ∨ s = .closing) : Keeps c.close states' where
  delay := h.delay
  closed := fun _ => ⟨rfl, rfl⟩
  socket := fun _ => nofun
  others := by
    intro n s hs
    rcases hstates s (List.mem_of_getElem? hs) with hs | hs
    · exact Or.inr (Or.inl hs)
    · exact Or.inr (Or.inr ⟨hs, rfl⟩)
  tries := fun _ _ => nofun
  timer := nofun

theorem Keeps.opened (h : Keeps c states) {n : Nat} (hn : states[n]? = some .connecting) :
    Keeps { c with reconnectDelay := RECONNECT_MIN } (states.set n .opened) where
  delay := ⟨le_rfl, by norm_num [RECONNECT_MAX, RECONNECT_MIN]⟩
  closed := h.closed
  socket := by
    intro m hm
    obtain ⟨htimer, s, hs, hworks⟩ := h.socket m hm
    refine ⟨htimer, ?_⟩
    by_cases hnm : n = m
    · subst hnm
      exact ⟨.opened, by simp [(List.getElem?_eq_some_iff.mp hs).1], Or.inr rfl⟩
    · exact ⟨s, by simpa [hnm] using hs, hworks⟩
  others := by
    intro m s hs
    by_cases hnm : n = m
    · subst hnm
      left
      rcases h.others n _ hn with hws | hs | ⟨hs, -⟩
      · exact hws
      · cases hs
      · cases hs
    · rw [List.getElem?_set_ne hnm] at hs
      exact h.others m s hs
  tries := fun hne => h.tries fun hnil => hne (by rw [hnil]; rfl)
  timer := fun htimer hnil => h.timer htimer (by simpa using congrArg List.length hnil)

/-- A socket has closed: the one the client has, which is then tried again, or one it has closed. -/
theorem Keeps.onclose (h : Keeps c states) {n : Nat} {s : ReadyState} (hn : states[n]? = some s)
    (hs : s ≠ .closed) : Keeps c.onclose (states.set n .closed) := by
  have hothers : ∀ (m : Nat) (t : ReadyState), (states.set n .closed)[m]? = some t → t = .closed ∨
      t = .closing ∧ c.intentionallyClosed = true := by
    intro m t ht
    by_cases hnm : n = m
    · subst hnm
      left
      rw [List.getElem?_set_self (List.getElem?_eq_some_iff.mp hn).1] at ht
      exact (Option.some.inj ht).symm
    · rw [List.getElem?_set_ne hnm] at ht
      rcases h.others m t ht with hm | ht | ht
      · rcases h.others n s hn with hws | hc | ⟨-, hc⟩
        · rw [hws] at hm
          exact absurd (Option.some.inj hm) hnm
        · exact absurd hc hs
        · rw [(h.closed hc).1] at hm
          cases hm
      · exact Or.inl ht
      · exact Or.inr ht
  have hne : states.set n .closed ≠ [] := by
    intro hnil
    have hlt := (List.getElem?_eq_some_iff.mp hn).1
    have hlength := congrArg List.length hnil
    simp at hlength
    simp [hlength] at hlt
  cases hclosed : c.intentionallyClosed with
  | true =>
    have hsame : SameSocket { c with ws := none } c.onclose := by
      simp [SameSocket, GatewayBrowserClient.onclose, GatewayBrowserClient.rejectAllPending, hclosed]
    refine Keeps.same ?_ hsame
    refine ⟨h.delay, fun hc => ⟨rfl, (h.closed hc).2⟩, fun _ => nofun, fun m t ht => ?_, ?_, ?_⟩
    · exact Or.inr (hothers m t ht)
    · intro _ _ hc
      rw [hclosed] at hc
      cases hc
    · exact fun _ => hne
  | false =>
    have hsame : SameSocket { c with ws := none }.scheduleReconnect c.onclose := by
      cases htimer : c.reconnectTimer <;>
        simp [SameSocket, GatewayBrowserClient.onclose, GatewayBrowserClient.rejectAllPending,
          GatewayBrowserClient.scheduleReconnect, hclosed, htimer]
    have hscheduled : ({ c with ws := none }.scheduleReconnect).ws = none ∧
        ({ c with ws := none }.scheduleReconnect).intentionallyClosed = false ∧
        ({ c with ws := none }.scheduleReconnect).reconnectTimer = true := by
      cases c.reconnectTimer <;> simp [GatewayBrowserClient.scheduleReconnect, hclosed]
    obtain ⟨hws, hopen, htimer⟩ := hscheduled
    refine Keeps.same ?_ hsame
    refine ⟨delay_scheduled h.delay, ?_, ?_, ?_, fun _ _ _ => htimer, fun _ => hne⟩
    · intro hc
      rw [hopen] at hc
      cases hc
    · intro m hm
      rw [hws] at hm
      cases hm
    · intro m t ht
      rcases hothers m t ht with ht | ⟨-, hc⟩
      · exact Or.inr (Or.inl ht)
      · rw [hclosed] at hc
        cases hc

end Client

section Runs
variable {env : ServerEnv} {w : World}

theorem states_modify (links : List Link) (n : Nat) {f : Link → Link} (h : ∀ l, (f l).state = l.state) :
    (links.modify n f).map Link.state = links.map Link.state := by
  induction links generalizing n with
  | nil => simp
  | cons l links ih => cases n <;> simp [h, ih]

theorem states_set (links : List Link) (n : Nat) (state : ReadyState) :
    (links.modify n fun l => { l with state }).map Link.state = (links.map Link.state).set n state := by
  induction links generalizing n with
  | nil => simp
  | cons l links ih => cases n <;> simp [ih]

/-- A socket that the client closes works no more. -/
theorem mem_shutSocket (h : Keeps w.client w.states) :
    ∀ s ∈ w.shutSocket.map Link.state, s = .closed ∨ s = .closing := by
  intro s hs
  obtain ⟨l, hl, rfl⟩ := List.mem_map.mp hs
  obtain ⟨n, hn⟩ := List.mem_iff_getElem?.mp hl
  have hothers : ∀ l, w.links[n]? = some l → w.client.ws ≠ some n →
      l.state = .closed ∨ l.state = .closing := by
    intro l hl hws
    rcases h.others n l.state (by rw [World.states, List.getElem?_map, hl]; rfl) with hs | hs | ⟨hs, -⟩
    · exact absurd hs hws
    · exact Or.inl hs
    · exact Or.inr hs
  unfold World.shutSocket at hn
  cases hws : w.client.ws with
  | none =>
    rw [hws] at hn
    exact hothers l hn (by simp [hws])
  | some k =>
    rw [hws] at hn
    dsimp only at hn
    rw [List.getElem?_modify] at hn
    by_cases hk : k = n
    · cases hm : w.links[n]? with
      | none => simp [hm] at hn
      | some m =>
        obtain rfl : m.shut = l := by simpa [hm, hk] using hn
        unfold Link.shut
        split_ifs with hclosed
        · exact Or.inl hclosed
        · exact Or.inr rfl
    · exact hothers l (by simpa [hk] using hn) (by simpa [hws] using hk)

theorem shutSocket_eq (h : w.client.ws = none) : w.shutSocket = w.links := by
  unfold World.shutSocket
  rw [h]

theorem states_doConnect (h : w.client.ws = none) (c : GatewayBrowserClient) :
    (w.doConnect c).states = w.states ++ [.connecting] := by
  simp [World.doConnect, World.states, shutSocket_eq h, Link.new]

theorem length_states : w.states.length = w.links.length := List.length_map _

theorem states_post (w : World) (frame : Option WsFrame) : (w.post frame).states = w.states := by
  unfold World.post World.states
  split
  · split
    · exact states_modify _ _ fun _ => rfl
    · rfl
  · rfl

theorem client_post (w : World) (frame : Option WsFrame) : (w.post frame).client = w.client := by
  unfold World.post
  split
  · split <;> rfl
  · rfl

theorem keeps_request (h : Keeps w.client w.states) (id method : String) (params : Option Js.Value) :
    Keeps (w.request id method params).client (w.request id method params).states := by
  unfold World.request
  dsimp only
  rw [states_post, client_post]
  exact h.same (same_request _ _ _ _)

theorem keeps_connect (h : Keeps w.client w.states) (hlinks : w.links = []) :
    Keeps (w.doConnect (w.client.connect w.links.length)).client
      (w.doConnect (w.client.connect w.links.length)).states := by
  have hstates : w.states = [] := by rw [World.states, hlinks]; rfl
  rw [hstates] at h
  obtain ⟨hws, htimer⟩ := h.no_socket
  rw [states_doConnect hws, hstates, hlinks]
  refine (h.new fun s hs => absurd hs List.not_mem_nil).same ⟨rfl, rfl, htimer, rfl⟩

theorem keeps_reconnect (h : Keeps w.client w.states) (htimer : w.client.reconnectTimer = true) :
    Keeps (w.doConnect (w.client.reconnect w.links.length)).client
      (w.doConnect (w.client.reconnect w.links.length)).states := by
  obtain ⟨hws, hopen, hclosed⟩ := h.all_closed htimer
  rw [states_doConnect hws, ← length_states]
  exact (h.new hclosed).same ⟨rfl, rfl, rfl, hopen⟩

theorem keeps_step (h : Keeps w.client w.states) {e : Event} (hok : ConnectsOnce w e) :
    Keeps (w.step env e).client (w.step env e).states := by
  have hserver : ∀ n (f : Link → Link), (∀ l, (f l).state = l.state) →
      Keeps (w.onLink n f).client (w.onLink n f).states := by
    intro n f hf
    rw [World.states, World.onLink, states_modify _ _ hf]
    exact h
  cases e with
  | connect => exact keeps_connect h hok
  | reconnect =>
    dsimp only [World.step]
    split_ifs with htimer
    · exact keeps_reconnect h htimer
    · exact h
  | close => exact h.close (mem_shutSocket h)
  | request id method params => exact keeps_request h id method params
  | send id method params =>
    dsimp only [World.step]
    rw [states_post, client_post]
    exact h
  | accept n sessionKey =>
    apply hserver
    intro l
    unfold Link.accept
    split_ifs <;> rfl
  | opened n id =>
    dsimp only [World.step]
    split_ifs with hany
    · obtain ⟨l, hl, hstate⟩ : ∃ l, w.links[n]? = some l ∧ l.state = .connecting := by
        cases hl : w.links[n]? with
        | none => simp [hl] at hany
        | some l => exact ⟨l, rfl, by simpa [hl] using And.left (by simpa [hl] using hany)⟩
      have hn : w.states[n]? = some .connecting := by
        rw [World.states, List.getElem?_map, hl, Option.map_some, hstate]
      have hopened := h.opened hn
      rw [World.states, ← states_set] at hopened
      exact keeps_request (w := ⟨_, w.links.modify n fun l => { l with state := .opened }⟩) hopened _ _ _
    · exact h
  | toServer n =>
    apply hserver
    intro l
    unfold Link.toServer
    split <;> rfl
  | toClient n =>
    dsimp only [World.step]
    split
    · split
      · split_ifs
        · have hstates : (w.links.modify n fun l => { l with delivered := l.delivered + 1 }).map
              Link.state = w.states := states_modify _ _ fun _ => rfl
          rw [World.states, World.onLink, hstates]
          exact h.same (same_handleFrame _)
        · exact h
      · exact h
    · exact h
  | goOn n i m => exact hserver n _ fun _ => rfl
  | agent e =>
    have hstates : (w.links.map (Link.serve env (.agent e))).map Link.state = w.states := by
      rw [List.map_map]
      rfl
    dsimp only [World.step]
    rw [World.states, hstates]
    exact h
  | closedAtServer n => exact hserver n _ fun _ => rfl
  | closedAtClient n =>
    dsimp only [World.step]
    split_ifs with hany
    · obtain ⟨l, hl, hstate⟩ : ∃ l, w.links[n]? = some l ∧ l.state ≠ .closed := by
        cases hl : w.links[n]? with
        | none => simp [hl] at hany
        | some l => exact ⟨l, rfl, by simpa [hl] using hany⟩
      rw [World.states, World.onLink, states_set]
      exact h.onclose (by rw [World.states, List.getElem?_map, hl]; rfl) hstate
    · exact h
  | timedOut id promise =>
    dsimp only [World.step]
    split_ifs
    · exact h.same ⟨rfl, rfl, rfl, rfl⟩
    · exact h

theorem countP_one {α : Type} {p : α → Bool} {xs : List α} {n : Nat} {x : α} (hx : xs[n]? = some x)
    (hp : p x = true) (hothers : ∀ m y, xs[m]? = some y → p y = true → m = n) : xs.countP p = 1 := by
  induction xs generalizing n with
  | nil => cases hx
  | cons y xs ih =>
    cases n with
    | zero =>
      obtain rfl : y = x := by simpa using hx
      rw [List.countP_cons_of_pos hp, List.countP_eq_zero.mpr]
      intro z hz hpz
      obtain ⟨m, hm⟩ := List.mem_iff_getElem?.mp hz
      have hzero := hothers (m + 1) z (by simpa using hm) hpz
      omega
    | succ n =>
      have hy : p y ≠ true := by
        intro hpy
        have hzero := hothers 0 y rfl hpy
        omega
      rw [List.countP_cons_of_neg hy]
      refine ih (by simpa using hx) fun m z hm hpz => ?_
      have hsucc := hothers (m + 1) z (by simpa using hm) hpz
      omega

instance (s : ReadyState) : Decidable s.Works := inferInstanceAs (Decidable (_ ∨ _))

theorem not_works {s : ReadyState} (h : s = .closed ∨ s = .closing) : ¬ s.Works := by
  rcases h with rfl | rfl <;> exact fun h => by rcases h with h | h <;> cases h

/-- One socket works or the timer runs, from `connect` to `close`. -/
theorem Keeps.balance {c : GatewayBrowserClient} {states : List ReadyState} (h : Keeps c states) :
    states.countP (fun s => s.Works) + c.reconnectTimer.toNat =
      if c.intentionallyClosed = true ∨ states = [] then 0 else 1 := by
  have hnone : (∀ s ∈ states, s = .closed ∨ s = .closing) → states.countP (fun s => s.Works) = 0 := by
    intro hall
    rw [List.countP_eq_zero]
    intro s hs
    simpa using not_works (hall s hs)
  split_ifs with hidle
  · rcases hidle with hclosed | rfl
    · obtain ⟨hws, htimer⟩ := h.closed hclosed
      rw [htimer, hnone, Bool.toNat_false]
      intro s hs
      obtain ⟨n, hn⟩ := List.mem_iff_getElem?.mp hs
      rcases h.others n s hn with hn | hs | ⟨hs, -⟩
      · rw [hws] at hn
        cases hn
      · exact Or.inl hs
      · exact Or.inr hs
    · rw [h.no_socket.2]
      rfl
  · obtain ⟨hopen, hne⟩ := not_or.mp hidle
    have hopen : c.intentionallyClosed = false := by simpa using hopen
    cases hws : c.ws with
    | none =>
      have htimer := h.tries hne hws hopen
      rw [htimer, hnone fun s hs => Or.inl ((h.all_closed htimer).2.2 s hs), Bool.toNat_true]
    | some n =>
      obtain ⟨htimer, s, hs, hworks⟩ := h.socket n hws
      rw [htimer, countP_one hs (by simpa using hworks), Bool.toNat_false]
      intro m t ht hworks
      rcases h.others m t ht with hm | ht | ⟨ht, -⟩
      · rw [hws] at hm
        exact (Option.some.inj hm).symm
      · exact absurd (by simpa using hworks) (not_works (Or.inl ht))
      · exact absurd (by simpa using hworks) (not_works (Or.inr ht))

/-- In every run of a client that is connected once: between `connect` and `close` it has one socket
that works or may come to, or a timer that runs, and never both; outside it has neither. The delay
stays within its bounds. -/
theorem client_keeps_one_socket (env : ServerEnv) (events : List Event)
    (h : EventRun.Allowed (World.step env) ConnectsOnce .initial events) :
    let w := EventRun.run (World.step env) .initial events
    (RECONNECT_MIN ≤ w.client.reconnectDelay ∧ w.client.reconnectDelay ≤ RECONNECT_MAX) ∧
      w.states.countP (fun s => s.Works) + w.client.reconnectTimer.toNat =
        if w.client.intentionallyClosed = true ∨ w.states = [] then 0 else 1 := by
  have hkeeps := EventRun.run_keeps (P := fun w : World => Keeps w.client w.states)
    (fun _ _ hok hw => keeps_step hw hok) h keeps_initial
  exact ⟨hkeeps.delay, hkeeps.balance⟩

/-- A connection that is lost, and tried again. -/
theorem client_keeps_one_socket_lost :
    ∃ (env : ServerEnv) (w : World),
      w = EventRun.run (World.step env) .initial
        [.connect, .accept 0 "key", .opened 0 "a", .closedAtClient 0, .reconnect] ∧
      w.states = [.closed, .connecting] ∧ w.client.reconnectDelay ≤ RECONNECT_MAX := by
  obtain ⟨env⟩ := serverEnv_nonempty
  refine ⟨env, _, rfl, rfl, (client_keeps_one_socket env _ ?_).1.2⟩
  exact ⟨rfl, trivial, trivial, trivial, trivial, trivial⟩

end Runs

end T560.Gateway
