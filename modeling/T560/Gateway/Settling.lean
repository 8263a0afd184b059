import Mathlib.Algebra.Order.BigOperators.Group.List
import T560.Gateway.Wire

/-!
# How a promise is settled

Whatever the sockets do, every promise of the client waits or has been settled, once, by a response
to its own request or by one of four refusals. If nothing is on its way any more, all requests that
can be answered have been.
-/

namespace T560.Gateway

open Js (Value)

section Links
variable {R : Link → Link → Prop} {links links' : List Link}

theorem related_modify {n : Nat} {f : Link → Link} (hrefl : ∀ l, R l l)
    (h : ∀ l, links[n]? = some l → R l (f l)) : List.Forall₂ R links (links.modify n f) := by
  induction links generalizing n with
  | nil => simp
  | cons l links ih =>
    cases n with
    | zero => exact .cons (h l rfl) (List.forall₂_same.mpr fun l _ => hrefl l)
    | succ n => exact .cons (hrefl l) (ih h)

theorem exists_related (h : List.Forall₂ R links links') {l : Link} (hl : l ∈ links) :
    ∃ m ∈ links', R l m := by
  induction h with
  | nil => cases hl
  | @cons l' m links links' hlm _ ih =>
    rcases List.mem_cons.mp hl with rfl | hl
    · exact ⟨m, List.mem_cons_self, hlm⟩
    · obtain ⟨m, hm, hlm⟩ := ih hl
      exact ⟨m, List.mem_cons_of_mem _ hm, hlm⟩

theorem related_of (h : List.Forall₂ R links links') {m : Link} (hm : m ∈ links') :
    ∃ l ∈ links, R l m := by
  induction h with
  | nil => cases hm
  | @cons l m' links links' hlm _ ih =>
    rcases List.mem_cons.mp hm with rfl | hm
    · exact ⟨l, List.mem_cons_self, hlm⟩
    · obtain ⟨l, hl, hlm⟩ := ih hm
      exact ⟨l, List.mem_cons_of_mem _ hl, hlm⟩

theorem posted_modify (links : List Link) (n : Nat) {f : Link → Link} (h : ∀ l, (f l).posted = l.posted) :
    (links.modify n f).flatMap Link.posted = links.flatMap Link.posted := by
  induction links generalizing n with
  | nil => simp
  | cons l links ih => cases n <;> simp [h, ih]

/-- A frame that is posted is posted on one socket. -/
theorem posted_post {n : Nat} (hn : n < links.length) (frame : WsFrame) :
    ((links.modify n (Link.post frame)).flatMap Link.posted).Perm
      (links.flatMap Link.posted ++ [frame]) := by
  induction links generalizing n with
  | nil => cases hn
  | cons l links ih =>
    cases n with
    | zero =>
      simp only [List.modify_zero_cons, List.flatMap_cons, Link.post, List.append_assoc]
      exact List.Perm.append_left _ List.perm_append_comm
    | succ n =>
      simp only [List.modify_succ_cons, List.flatMap_cons, List.append_assoc]
      exact List.Perm.append_left _ (ih (Nat.lt_of_succ_lt_succ hn))

end Links

/-- The reasons of the client. -/
def refusals : List String := ["Not connected", "Request timeout", "Connection closed", "Client closed"]

/-- A request that waits went out on a socket that still works, and no response to it has arrived. -/
def Awaits (links : List Link) (calls : List WsFrame) (id : String) (promise : Nat) : Prop :=
  id ≠ "" ∧ ∃ frame, calls[promise]? = some frame ∧ frame.id = some id ∧
    ∃ l ∈ links, frame ∈ l.posted ∧ l.state ≠ .closed ∧
      ∀ r ∈ l.sent.take l.delivered, respondsTo id r = false

/-- What settled a promise: a refusal, or a response of the server to the frame of its own request,
sent on the socket on which the server got it. -/
def Caused (links : List Link) (calls : List WsFrame) (entry : Nat × Settlement) : Prop :=
  (∃ reason ∈ refusals, entry.2 = .rejected reason) ∨
  ∃ frame id, calls[entry.1]? = some frame ∧ frame.id = some id ∧
    ∃ l ∈ links, frame ∈ l.received ∧ ∃ r ∈ l.sent, respondsTo id r ∧ entry.2 = settlementOf r

/-- The invariant of the client and its sockets. -/
structure Wired (w : World) : Prop where
  client : Sound w.client
  links : ∀ l ∈ w.links, l.Sound
  ids : (w.posted.map WsFrame.id).Nodup
  calls : ∀ g ∈ w.client.calls, ∀ f ∈ w.posted, f.id = g.id → f = g
  waiting : ∀ id promise, w.client.pending.get id = some promise →
    Awaits w.links w.client.calls id promise
  settled : ∀ entry ∈ w.client.settled, Caused w.links w.client.calls entry

section Invariant
variable {c d : GatewayBrowserClient} {links links' : List Link} {calls calls' : List WsFrame}

theorem getElem?_of_prefix (h : calls <+: calls') {n : Nat} {frame : WsFrame}
    (hframe : calls[n]? = some frame) : calls'[n]? = some frame := by
  obtain ⟨rest, rfl⟩ := h
  rw [List.getElem?_append_left (List.getElem?_eq_some_iff.mp hframe).1]
  exact hframe

theorem Awaits.advance {id : String} {promise : Nat} (h : Awaits links calls id promise)
    (hsound : ∀ l ∈ links, l.Sound) (hcalls : calls <+: calls') {waits : Prop} (hw : waits)
    (hlinks : List.Forall₂ (Link.Advances waits) links links') : Awaits links' calls' id promise := by
  obtain ⟨hid, frame, hframe, hfid, l, hl, hposted, hstate, hnone⟩ := h
  obtain ⟨m, hm, hadv⟩ := exists_related hlinks hl
  obtain ⟨hlive, hdelivered⟩ := hadv.waits hw
  refine ⟨hid, frame, getElem?_of_prefix hcalls hframe, hfid, m, hm, hadv.posted.subset hposted,
    hlive hstate, ?_⟩
  obtain ⟨rest, hrest⟩ := hadv.sent
  rw [← hrest, hdelivered, List.take_append_of_le_length (hsound l hl).delivered]
  exact hnone

theorem Caused.advance {entry : Nat × Settlement} (h : Caused links calls entry)
    (hcalls : calls <+: calls') {waits : Prop}
    (hlinks : List.Forall₂ (Link.Advances waits) links links') : Caused links' calls' entry := by
  rcases h with h | ⟨frame, id, hframe, hfid, l, hl, hreceived, r, hr, hresponds, hentry⟩
  · exact Or.inl h
  · obtain ⟨m, hm, hadv⟩ := exists_related hlinks hl
    exact Or.inr ⟨frame, id, getElem?_of_prefix hcalls hframe, hfid, m, hm,
      hadv.received.subset hreceived, r, hadv.sent.subset hr, hresponds, hentry⟩

/-- Something waits. -/
def GatewayBrowserClient.Waits (c : GatewayBrowserClient) : Prop :=
  ∃ id promise, c.pending.get id = some promise

/-- The sockets go on; nothing is posted. -/
theorem Wired.advance (h : Wired ⟨c, links⟩)
    (hlinks : List.Forall₂ (Link.Advances c.Waits) links links')
    (hposted : links'.flatMap Link.posted = links.flatMap Link.posted) : Wired ⟨c, links'⟩ where
  client := h.client
  links := by
    intro m hm
    obtain ⟨l, hl, hadv⟩ := related_of hlinks hm
    exact hadv.sound (h.links l hl)
  ids := by
    rw [World.posted, hposted]
    exact h.ids
  calls := by
    intro g hg f hf
    rw [World.posted, hposted] at hf
    exact h.calls g hg f hf
  waiting := fun id promise hp =>
    (h.waiting id promise hp).advance h.links (List.prefix_refl _) ⟨id, promise, hp⟩ hlinks
  settled := fun entry he => (h.settled entry he).advance (List.prefix_refl _) hlinks

/-- A new socket. -/
theorem Wired.new (h : Wired ⟨c, links⟩) : Wired ⟨c, links ++ [.new]⟩ where
  client := h.client
  links := by
    intro l hl
    rcases List.mem_append.mp hl with hl | hl
    · exact h.links l hl
    · obtain rfl := List.mem_singleton.mp hl
      exact ⟨List.prefix_refl [], le_rfl, nofun⟩
  ids := by simpa [World.posted, Link.new] using h.ids
  calls := by
    intro g hg f hf
    exact h.calls g hg f (by simpa [World.posted, Link.new] using hf)
  waiting := by
    intro id promise hp
    obtain ⟨hid, frame, hframe, hfid, l, hl, hrest⟩ := h.waiting id promise hp
    exact ⟨hid, frame, hframe, hfid, l, List.mem_append_left _ hl, hrest⟩
  settled := by
    intro entry he
    rcases h.settled entry he with hc | ⟨frame, id, hframe, hfid, l, hl, hrest⟩
    · exact Or.inl hc
    · exact Or.inr ⟨frame, id, hframe, hfid, l, List.mem_append_left _ hl, hrest⟩

/-- Requests leave the table, each for a cause; no request is added. -/
theorem Wired.settle (h : Wired ⟨c, links⟩) (hd : Sound d) (hcalls : d.calls = c.calls)
    (hpending : ∀ id promise, d.pending.get id = some promise → c.pending.get id = some promise)
    (hsettled : ∀ entry ∈ d.settled, entry ∈ c.settled ∨ Caused links c.calls entry) :
    Wired ⟨d, links⟩ where
  client := hd
  links := h.links
  ids := h.ids
  calls := by
    intro g hg
    rw [hcalls] at hg
    exact h.calls g hg
  waiting := by
    intro id promise hp
    rw [hcalls]
    exact h.waiting id promise (hpending id promise hp)
  settled := by
    intro entry he
    rw [hcalls]
    rcases hsettled entry he with he | hcaused
    · exact h.settled entry he
    · exact hcaused

/-- The server answers only what it got. -/
theorem received_of_sent {l : Link} (h : l.Sound) {id : String} {r : WsFrame} (hr : r ∈ l.sent)
    (hresponds : respondsTo id r = true) : ∃ f ∈ l.received, answerable id f = true := by
  obtain ⟨state, posted, server, delivered⟩ := l
  cases server with
  | none => cases hr
  | some c =>
    have hbound := (h.balanced c rfl).bound.responses id
    have hpos : 0 < c.sent.countP (respondsTo id) := List.countP_pos_iff.mpr ⟨r, hr, hresponds⟩
    exact List.countP_pos_iff.mp (show 0 < c.received.countP (answerable id) by omega)

theorem id_of_answerable {id : String} {f : WsFrame} (h : answerable id f = true) : f.id = some id := by
  unfold answerable requestOf at h
  split_ifs at h
  · cases hmethod : filled f.method with
    | none => simp [hmethod] at h
    | some method =>
      cases hid : filled f.id with
      | none => simp [hmethod, hid] at h
      | some other =>
        obtain rfl : other = id := by simpa [hmethod, hid] using And.left (by simpa [hmethod, hid] using h)
        exact (Option.filter_eq_some_iff.mp hid).1
  · cases h

/-- A frame under a new id is posted. -/
theorem Wired.post (h : Wired ⟨c, links⟩) {n : Nat} (hn : n < links.length) {frame : WsFrame} {id : String}
    (hfid : frame.id = some id) (hfresh : World.Fresh ⟨c, links⟩ id) :
    Wired ⟨c, links.modify n (Link.post frame)⟩ := by
  have hadv : List.Forall₂ (Link.Advances c.Waits) links (links.modify n (Link.post frame)) :=
    related_modify Link.Advances.refl fun l _ => post_advances l frame
  have hperm := posted_post hn frame
  have hmem : ∀ f ∈ (links.modify n (Link.post frame)).flatMap Link.posted,
      f ∈ links.flatMap Link.posted ∨ f = frame := by
    intro f hf
    simpa using hperm.mem_iff.mp hf
  obtain ⟨-, hcalls, hposted⟩ := hfresh
  constructor
  · exact h.client
  · intro m hm
    obtain ⟨l, hl, hlm⟩ := related_of hadv hm
    exact hlm.sound (h.links l hl)
  · refine ((hperm.map WsFrame.id).nodup_iff).mpr ?_
    rw [List.map_append, List.map_singleton]
    refine List.Nodup.append h.ids (List.nodup_singleton _) ?_
    intro x hx hx'
    obtain ⟨f, hf, rfl⟩ := List.mem_map.mp hx
    exact hposted f hf ((List.mem_singleton.mp hx').trans hfid)
  · intro g hg f hf heq
    rcases hmem f hf with hf | rfl
    · exact h.calls g hg f hf heq
    · exact absurd (heq.symm.trans hfid) (hcalls g hg)
  · intro other promise hp
    exact (h.waiting other promise hp).advance h.links (List.prefix_refl _) ⟨other, promise, hp⟩ hadv
  · exact fun entry he => (h.settled entry he).advance (List.prefix_refl _) hadv

/-- A call of `request`, whose frame has been posted, or was refused. -/
theorem Wired.call (h : Wired ⟨c, links⟩) (hd : Sound d) {frame : WsFrame}
    (hcalls : d.calls = c.calls ++ [frame])
    (hframe : ∀ f ∈ links.flatMap Link.posted, f.id = frame.id → f = frame)
    (hpending : ∀ id promise, d.pending.get id = some promise →
      c.pending.get id = some promise ∨ Awaits links (c.calls ++ [frame]) id promise)
    (hsettled : ∀ entry ∈ d.settled, entry ∈ c.settled ∨
      ∃ reason ∈ refusals, entry.2 = .rejected reason) : Wired ⟨d, links⟩ := by
  have hprefix : c.calls <+: d.calls := by
    rw [hcalls]
    exact List.prefix_append _ _
  have hrefl : ∀ waits, List.Forall₂ (Link.Advances waits) links links :=
    fun _ => List.forall₂_same.mpr fun l _ => .refl l
  constructor
  · exact hd
  · exact h.links
  · exact h.ids
  · intro g hg f hf heq
    change g ∈ d.calls at hg
    rw [hcalls] at hg
    rcases List.mem_append.mp hg with hg | hg
    · exact h.calls g hg f hf heq
    · obtain rfl := List.mem_singleton.mp hg
      exact hframe f hf heq
  · intro id promise hp
    rcases hpending id promise hp with hp | hawaits
    · exact (h.waiting id promise hp).advance h.links hprefix trivial (hrefl True)
    · change Awaits links d.calls id promise
      rw [hcalls]
      exact hawaits
  · intro entry he
    rcases hsettled entry he with he | hrefused
    · exact (h.settled entry he).advance hprefix (hrefl True)
    · exact Or.inl hrefused

theorem Wired.shutSocket {w : World} (h : Wired w) : Wired ⟨w.client, w.shutSocket⟩ := by
  unfold World.shutSocket
  split
  · exact h.advance (related_modify Link.Advances.refl fun l _ => shut_advances l)
      (posted_modify _ _ fun l => by unfold Link.shut; split_ifs <;> rfl)
  · exact h

/-- The same requests on the same sockets. -/
theorem Wired.rest (h : Wired ⟨c, links⟩) (hd : Sound d) (hcalls : d.calls = c.calls)
    (hpending : d.pending = c.pending) (hsettled : d.settled = c.settled) : Wired ⟨d, links⟩ := by
  apply h.settle hd hcalls
  · intro id promise hp
    rwa [hpending] at hp
  · intro entry he
    rw [hsettled] at he
    exact Or.inl he

theorem Wired.connect {w : World} (h : Wired w) (n : Nat) :
    Wired (w.doConnect (w.client.connect n)) :=
  h.shutSocket.new.rest (h.client.of_rest _ _ _ _ _ _) rfl rfl rfl

theorem Wired.reconnect {w : World} (h : Wired w) (n : Nat) :
    Wired (w.doConnect (w.client.reconnect n)) :=
  h.shutSocket.new.rest (h.client.of_rest _ _ _ _ _ _) rfl rfl rfl

theorem mem_rejectAllPending {reason : String} {entry : Nat × Settlement}
    (h : entry ∈ (c.rejectAllPending reason).settled) :
    entry ∈ c.settled ∨ entry.2 = .rejected reason := by
  rcases List.mem_append.mp h with h | h
  · exact Or.inl h
  · obtain ⟨promise, -, rfl⟩ := List.mem_map.mp h
    exact Or.inr rfl

theorem Wired.close {w : World} (h : Wired w) : Wired ⟨w.client.close, w.shutSocket⟩ := by
  apply h.shutSocket.settle h.client.close rfl
  · exact fun _ _ => nofun
  · intro entry he
    rcases mem_rejectAllPending he with he | he
    · exact Or.inl he
    · exact Or.inr (Or.inl ⟨_, by simp [refusals], he⟩)

/-- `onclose` rejects all that waits and keeps the requests. -/
theorem onclose_spec (c : GatewayBrowserClient) :
    c.onclose.pending = .empty ∧ c.onclose.calls = c.calls ∧
      c.onclose.settled = (c.rejectAllPending "Connection closed").settled := by
  unfold GatewayBrowserClient.onclose GatewayBrowserClient.scheduleReconnect
  dsimp only
  split_ifs <;> exact ⟨rfl, rfl, rfl⟩

theorem Wired.onclose {w : World} (h : Wired w) (n : Nat) :
    Wired ({ w with client := w.client.onclose }.onLink n fun l => { l with state := .closed }) := by
  obtain ⟨hpending, hcalls, hsettled⟩ := onclose_spec w.client
  have hclosed : Wired ⟨w.client.onclose, w.links⟩ := by
    apply h.settle h.client.onclose hcalls
    · intro id promise hp
      rw [hpending] at hp
      cases hp
    · intro entry he
      rw [hsettled] at he
      rcases mem_rejectAllPending he with he | he
      · exact Or.inl he
      · exact Or.inr (Or.inl ⟨_, by simp [refusals], he⟩)
  refine hclosed.advance (related_modify Link.Advances.refl fun l _ => state_advances l ?_)
    (posted_modify _ _ fun _ => rfl)
  rintro ⟨id, promise, hp⟩
  rw [hpending] at hp
  cases hp

theorem Wired.timedOut {w : World} (h : Wired w) {id : String} {promise : Nat}
    (ht : (id, promise) ∈ w.client.timers) : Wired { w with client := w.client.timedOut id promise } := by
  apply h.settle (h.client.timedOut ht).2 rfl
  · exact fun other p hp => (InsertionMap.get_erase_eq_some_iff.mp hp).1
  · intro entry he
    rcases List.mem_append.mp he with he | he
    · exact Or.inl he
    · obtain rfl := List.mem_singleton.mp he
      exact Or.inr (Or.inl ⟨_, by simp [refusals], rfl⟩)

theorem exists_open {w : World} (h : w.isOpen = true) :
    ∃ n l, w.client.ws = some n ∧ w.links[n]? = some l ∧ l.state = .opened := by
  unfold World.isOpen at h
  cases hws : w.client.ws with
  | none => simp [hws] at h
  | some n =>
    cases hl : w.links[n]? with
    | none => simp [hws, hl] at h
    | some l => exact ⟨n, l, rfl, hl, by simpa [hws, hl] using h⟩

/-- A request whose frame is posted on an open socket. -/
theorem awaits_posted (h : Wired ⟨c, links⟩) {n : Nat} {l : Link} (hl : links[n]? = some l)
    (hstate : l.state = .opened) {frame : WsFrame} {id : String} (hfid : frame.id = some id)
    (hfresh : World.Fresh ⟨c, links⟩ id) :
    Awaits (links.modify n (Link.post frame)) (c.calls ++ [frame]) id c.calls.length := by
  have hmem : l.post frame ∈ links.modify n (Link.post frame) := by
    apply List.mem_of_getElem? (i := n)
    rw [List.getElem?_modify, hl]
    simp
  refine ⟨hfresh.1, frame, by simp, hfid, l.post frame, hmem, ?_, ?_, ?_⟩
  · exact List.mem_append_right _ (List.mem_singleton.mpr rfl)
  · change l.state ≠ .closed
    rw [hstate]
    nofun
  · intro r hr
    rw [Bool.eq_false_iff]
    intro hresponds
    have hsound := h.links l (List.mem_of_getElem? hl)
    obtain ⟨f, hf, hans⟩ := received_of_sent hsound (List.mem_of_mem_take hr) hresponds
    exact hfresh.2.2 f (List.mem_flatMap.mpr ⟨l, List.mem_of_getElem? hl, hsound.received.subset hf⟩)
      (id_of_answerable hans)

theorem Wired.request {w : World} (h : Wired w) {id : String} (hfresh : w.Fresh id) (method : String)
    (params : Option Value) : Wired (w.request id method params) := by
  have hsound := h.client.request w.isOpen method params hfresh.2.1
  unfold World.request
  cases hopen : w.isOpen with
  | true =>
    obtain ⟨n, l, hws, hl, hstate⟩ := exists_open hopen
    rw [hopen] at hsound
    have hn : n < w.links.length := (List.getElem?_eq_some_iff.mp hl).1
    have hfid : (requestFrame id method params).id = some id := rfl
    have hpost := Wired.post h hn hfid hfresh
    have hawaits := awaits_posted h hl hstate hfid hfresh
    simp only [GatewayBrowserClient.request, if_true, World.post, hws] at hsound ⊢
    refine hpost.call hsound rfl ?_ ?_ ?_
    · intro f hf heq
      rcases List.mem_append.mp ((posted_post hn _).mem_iff.mp hf) with hf | hf
      · exact absurd heq (hfresh.2.2 f hf)
      · exact List.mem_singleton.mp hf
    · intro other promise hp
      by_cases ho : other = id
      · subst ho
        rw [InsertionMap.get_set] at hp
        obtain rfl := Option.some.inj hp
        exact Or.inr hawaits
      · rw [InsertionMap.get_set_ne ho] at hp
        exact Or.inl hp
    · exact fun entry he => Or.inl he
  | false =>
    rw [hopen] at hsound
    refine Wired.call h hsound rfl ?_ ?_ ?_
    · intro f hf heq
      exact absurd heq (hfresh.2.2 f hf)
    · exact fun other promise hp => Or.inl hp
    · intro entry he
      rcases List.mem_append.mp he with he | he
      · exact Or.inl he
      · obtain rfl := List.mem_singleton.mp he
        exact Or.inr ⟨_, by simp [refusals], rfl⟩

theorem Wired.send {w : World} (h : Wired w) {id : String} (hfresh : w.Fresh id) (method : String)
    (params : Option Value) :
    Wired (w.post (GatewayBrowserClient.send w.isOpen id method params)) := by
  unfold GatewayBrowserClient.send
  cases hopen : w.isOpen with
  | true =>
    obtain ⟨n, l, hws, hl, -⟩ := exists_open hopen
    simp only [if_true, World.post, hws]
    exact Wired.post h (List.getElem?_eq_some_iff.mp hl).1 rfl hfresh
  | false => exact h

theorem Wired.opened {w : World} (h : Wired w) (n : Nat) {id : String} (hfresh : w.Fresh id) :
    Wired (World.request
      ⟨{ w.client with reconnectDelay := RECONNECT_MIN },
        w.links.modify n fun l => { l with state := .opened }⟩
      id "connect" (some GatewayBrowserClient.handshakeParams)) := by
  have hposted : (w.links.modify n fun l => { l with state := .opened }).flatMap Link.posted =
      w.links.flatMap Link.posted := posted_modify _ _ fun _ => rfl
  have hwired := h.advance (related_modify Link.Advances.refl fun l _ =>
    @state_advances _ l .opened fun _ => nofun) hposted
  apply (hwired.rest (h.client.of_rest _ RECONNECT_MIN _ _ _ _) rfl rfl rfl).request
  refine ⟨hfresh.1, hfresh.2.1, ?_⟩
  rw [World.posted, hposted]
  exact hfresh.2.2

/-- A response takes its request out of the table. -/
theorem handleFrame_responds (c : GatewayBrowserClient) {id : String} {r : WsFrame} (hid : id ≠ "")
    (hresponds : respondsTo id r = true) : (c.handleFrame r).pending.get id = none := by
  obtain ⟨htype, hrid⟩ : r.type = .res ∧ r.id = some id := by simpa [respondsTo] using hresponds
  have hfilled : filled r.id = some id := by simp [hrid, filled, Option.filter, hid]
  unfold GatewayBrowserClient.handleFrame
  simp only [htype, hfilled, Option.bind_some]
  cases hget : c.pending.get id with
  | none => simpa using hget
  | some promise =>
    rw [Option.eq_none_iff_forall_ne_some]
    intro p hp
    exact (InsertionMap.get_erase_eq_some_iff.mp hp).2 rfl

theorem handleFrame_waiting {id : String} {promise : Nat} {r : WsFrame}
    (h : (c.handleFrame r).pending.get id = some promise) : c.pending.get id = some promise := by
  rcases handleFrame_cases c r with ⟨_, _, heq⟩ | ⟨other, _, -, -, -, heq⟩
  · rw [heq] at h
    exact h
  · rw [heq] at h
    exact (InsertionMap.get_erase_eq_some_iff.mp h).1

/-- The cause of what a frame settles. -/
theorem handleFrame_caused (h : Wired ⟨c, links⟩) {l : Link} (hl : l ∈ links) {r : WsFrame}
    (hr : r ∈ l.sent) {entry : Nat × Settlement} (he : entry ∈ (c.handleFrame r).settled) :
    entry ∈ c.settled ∨ Caused links c.calls entry := by
  rcases handleFrame_cases c r with ⟨_, _, heq⟩ | ⟨id, promise, htype, hrid, hget, heq⟩
  · rw [heq] at he
    exact Or.inl he
  · rw [heq] at he
    rcases List.mem_append.mp he with he | he
    · exact Or.inl he
    · obtain rfl := List.mem_singleton.mp he
      have hresponds : respondsTo id r = true := by simp [respondsTo, htype, hrid]
      have hsound := h.links l hl
      obtain ⟨f, hf, hans⟩ := received_of_sent hsound hr hresponds
      obtain ⟨frame, hframe, hfid⟩ := h.client.ids id promise hget
      have hposted : f ∈ World.posted ⟨c, links⟩ :=
        List.mem_flatMap.mpr ⟨l, hl, hsound.received.subset hf⟩
      obtain rfl := h.calls frame (List.mem_of_getElem? hframe) f hposted
        ((id_of_answerable hans).trans hfid.symm)
      exact Or.inr (Or.inr ⟨f, id, hframe, hfid, l, hl, hf, r, hr, hresponds, rfl⟩)

theorem Wired.toClient {w : World} (h : Wired w) {n : Nat} {l : Link} {r : WsFrame}
    (hl : w.links[n]? = some l) (hr : l.sent[l.delivered]? = some r) :
    Wired ({ w with client := w.client.handleFrame r }.onLink n fun l =>
      { l with delivered := l.delivered + 1 }) := by
  have hlt : l.delivered < l.sent.length := (List.getElem?_eq_some_iff.mp hr).1
  have hmem := List.mem_of_getElem? hl
  have hcalls : (w.client.handleFrame r).calls = w.client.calls := by
    rcases handleFrame_cases w.client r with ⟨_, _, heq⟩ | ⟨_, _, -, -, -, heq⟩ <;> rw [heq]
  have hadv : List.Forall₂ (Link.Advances False) w.links
      (w.links.modify n fun l => { l with delivered := l.delivered + 1 }) := by
    apply related_modify Link.Advances.refl
    intro m hm
    obtain rfl := Option.some.inj (hl.symm.trans hm)
    exact ⟨List.prefix_refl _, List.prefix_refl _, List.prefix_refl _, False.elim,
      fun hs => ⟨hs.received, hlt, hs.balanced⟩⟩
  have hposted : (w.links.modify n fun l => { l with delivered := l.delivered + 1 }).flatMap Link.posted =
      w.links.flatMap Link.posted := posted_modify _ _ fun _ => rfl
  have hwired : Wired { w with client := w.client.handleFrame r } :=
    h.settle (h.client.handleFrame r) hcalls (fun _ _ => handleFrame_waiting)
      fun _ => handleFrame_caused h hmem (List.mem_of_getElem? hr)
  constructor
  · exact hwired.client
  · intro m hm
    obtain ⟨m', hm', hmm⟩ := related_of hadv hm
    exact hmm.sound (h.links m' hm')
  · rw [World.posted, World.onLink, hposted]
    exact hwired.ids
  · intro g hg f hf
    rw [World.posted, World.onLink, hposted] at hf
    exact hwired.calls g hg f hf
  · intro id promise hp
    obtain ⟨hid, frame, hframe, hfid, m, hm, hfposted, hstate, hnone⟩ := hwired.waiting id promise hp
    refine ⟨hid, frame, hframe, hfid, ?_⟩
    obtain ⟨k, hk⟩ := List.mem_iff_getElem?.mp hm
    by_cases hkn : n = k
    · subst hkn
      obtain rfl := Option.some.inj (hl.symm.trans hk)
      refine ⟨{ l with delivered := l.delivered + 1 }, ?_, hfposted, hstate, ?_⟩
      · apply List.mem_of_getElem? (i := n)
        rw [World.onLink, List.getElem?_modify, hl]
        simp
      · intro x hx
        change x ∈ l.sent.take (l.delivered + 1) at hx
        rw [List.take_add_one, hr, List.mem_append] at hx
        rcases hx with hx | hx
        · exact hnone x hx
        · obtain rfl : x = r := by simpa using hx
          rw [Bool.eq_false_iff]
          intro hresponds
          have hgone := handleFrame_responds w.client hid hresponds
          rw [show (w.client.handleFrame x).pending.get id = some promise from hp] at hgone
          cases hgone
    · refine ⟨m, ?_, hfposted, hstate, hnone⟩
      apply List.mem_of_getElem? (i := k)
      rw [World.onLink, List.getElem?_modify, hk]
      simp [hkn]
  · exact fun entry he => (hwired.settled entry he).advance (List.prefix_refl _) hadv

end Invariant

section Runs
variable {env : ServerEnv} {w : World}

theorem wired_initial : Wired .initial where
  client := sound_initial
  links := fun _ hl => absurd hl List.not_mem_nil
  ids := List.nodup_nil
  calls := fun _ hg => absurd hg List.not_mem_nil
  waiting := fun _ _ => nofun
  settled := fun _ he => absurd he List.not_mem_nil

/-- What happens at the server alone. -/
theorem Wired.atServer (h : Wired w) (n : Nat) {f : Link → Link}
    (hadv : ∀ l, Link.Advances w.client.Waits l (f l)) (hposted : ∀ l, (f l).posted = l.posted) :
    Wired (w.onLink n f) :=
  h.advance (related_modify Link.Advances.refl fun l _ => hadv l) (posted_modify _ _ hposted)

theorem Wired.step (h : Wired w) {e : Event} (hfresh : DrawsFresh w e) : Wired (w.step env e) := by
  cases e with
  | connect => exact h.connect _
  | reconnect =>
    dsimp only [World.step]
    split_ifs
    · exact h.reconnect _
    · exact h
  | close => exact h.close
  | request id method params => exact h.request hfresh method params
  | send id method params => exact h.send hfresh method params
  | accept n sessionKey =>
    apply h.atServer n (accept_advances sessionKey)
    intro l
    unfold Link.accept
    split_ifs <;> rfl
  | opened n id =>
    dsimp only [World.step]
    split_ifs
    · exact h.opened n hfresh
    · exact h
  | toServer n =>
    apply h.atServer n (toServer_advances env)
    intro l
    unfold Link.toServer
    split <;> rfl
  | toClient n =>
    dsimp only [World.step]
    split
    · next l hl =>
      split
      · next r hr =>
        split_ifs
        · exact h.toClient hl hr
        · exact h
      · exact h
    · exact h
  | goOn n i m => exact h.atServer n (fun l => serve_advances env l _ fun _ => nofun) fun _ => rfl
  | agent e =>
    refine h.advance ?_ ?_
    · exact List.forall₂_map_right_iff.mpr
        (List.forall₂_same.mpr fun l _ => serve_advances env l _ fun _ => nofun)
    · simp [List.flatMap_map, Link.serve]
  | closedAtServer n => exact h.atServer n (fun l => serve_advances env l _ fun _ => nofun) fun _ => rfl
  | closedAtClient n =>
    dsimp only [World.step]
    split_ifs
    · exact h.onclose n
    · exact h
  | timedOut id promise =>
    dsimp only [World.step]
    split_ifs with ht
    · exact h.timedOut ht
    · exact h

theorem wired_run (env : ServerEnv) {events : List Event}
    (h : EventRun.Allowed (World.step env) DrawsFresh .initial events) :
    Wired (EventRun.run (World.step env) .initial events) :=
  EventRun.run_keeps (fun _ _ hfresh hw => hw.step hfresh) h wired_initial

/-- An id gets at most one response, on all sockets together. -/
theorem Wired.responses_le_one (h : Wired w) (id : String) :
    (w.links.flatMap Link.sent).countP (respondsTo id) ≤ 1 := by
  have hlink : ∀ l ∈ w.links, l.sent.countP (respondsTo id) ≤ l.posted.countP (·.id == some id) := by
    intro l hl
    have hsound := h.links l hl
    obtain ⟨state, posted, server, delivered⟩ := l
    cases server with
    | none => exact Nat.zero_le _
    | some c =>
      have hbound := (hsound.balanced c rfl).bound.responses id
      calc c.sent.countP (respondsTo id) ≤ c.received.countP (answerable id) := by omega
        _ ≤ c.received.countP (·.id == some id) :=
          List.countP_mono_left fun f _ hf => by simpa using id_of_answerable hf
        _ ≤ posted.countP (·.id == some id) := hsound.received.sublist.countP_le
  calc (w.links.flatMap Link.sent).countP (respondsTo id)
      = (w.links.map fun l => l.sent.countP (respondsTo id)).sum := List.countP_flatMap
    _ ≤ (w.links.map fun l => l.posted.countP (·.id == some id)).sum := List.sum_le_sum hlink
    _ = w.posted.countP (·.id == some id) := List.countP_flatMap.symm
    _ = (w.posted.map WsFrame.id).count (some id) := by
      rw [List.count, List.countP_map]
      rfl
    _ ≤ 1 := List.nodup_iff_count_le_one.mp h.ids _

/-- In every run that draws new ids: each promise waits under a timer or was settled once, by a
refusal or by the one response that the server made to the frame of its request. -/
theorem promises_settled_once (env : ServerEnv) (events : List Event)
    (h : EventRun.Allowed (World.step env) DrawsFresh .initial events) :
    let w := EventRun.run (World.step env) .initial events
    w.client.table.Accounts (List.range w.client.calls.length) ∧
      w.client.timers = w.client.pending.entries ∧
      (∀ entry ∈ w.client.settled, Caused w.links w.client.calls entry) ∧
      ∀ id, (w.links.flatMap Link.sent).countP (respondsTo id) ≤ 1 := by
  have hw := wired_run env h
  exact ⟨hw.client.accounts, hw.client.timers, hw.settled, hw.responses_le_one⟩

/-- A first handshake, which the server refuses. -/
def refusedHandshake : List Event :=
  [.connect, .accept 0 "key", .opened 0 "a", .toServer 0,
    .goOn 0 0 ⟨.error (.error "Error" "unreadable"), .error (.value none ""), .ok [], .ok (), 0, fun _ => ""⟩,
    .toClient 0]

theorem refusedHandshake_fresh (env : ServerEnv) :
    EventRun.Allowed (World.step env) DrawsFresh .initial refusedHandshake :=
  ⟨trivial, trivial, ⟨by decide, fun _ h => absurd h List.not_mem_nil, fun _ h => absurd h List.not_mem_nil⟩,
    trivial, trivial, trivial, trivial⟩

theorem serverEnv_nonempty : Nonempty ServerEnv := by
  obtain ⟨env⟩ := Web.frameEnv_nonempty
  exact ⟨⟨env, "config.json"⟩⟩

theorem promises_settled_once_refused :
    ∃ env : ServerEnv,
      (EventRun.run (World.step env) .initial refusedHandshake).client.settled =
        [(0, .rejected "unreadable")] ∧
      ∀ id, ((EventRun.run (World.step env) .initial refusedHandshake).links.flatMap Link.sent).countP
        (respondsTo id) ≤ 1 := by
  obtain ⟨env⟩ := serverEnv_nonempty
  exact ⟨env, rfl, (promises_settled_once env refusedHandshake (refusedHandshake_fresh env)).2.2.2⟩

/-- Nothing is on its way: a socket is closed, or the server has got and answered all of it, and the
client has all answers. -/
def World.Quiet (w : World) : Prop :=
  ∀ l ∈ w.links, l.state = .closed ∨
    ∃ c, l.server = some c ∧ c.isOpen = true ∧ c.handlers = [] ∧ c.received = l.posted ∧
      l.delivered = c.sent.length

/-- A handshake, and a `chat.send` whose message is not a text. -/
def unansweredSend : List Event :=
  refusedHandshake ++
    [.request "b" "chat.send" (some (.obj [("message", .bool true)])), .toServer 0]

theorem unansweredSend_fresh (env : ServerEnv) :
    EventRun.Allowed (World.step env) DrawsFresh .initial unansweredSend := by
  rw [unansweredSend, EventRun.allowed_append]
  refine ⟨refusedHandshake_fresh env, ⟨by decide, ?_, ?_⟩, trivial, trivial⟩
  · intro frame hframe
    obtain rfl : frame = requestFrame "a" "connect" (some GatewayBrowserClient.handshakeParams) :=
      List.mem_singleton.mp hframe
    decide
  · intro frame hframe
    obtain rfl : frame = requestFrame "a" "connect" (some GatewayBrowserClient.handshakeParams) :=
      List.mem_singleton.mp hframe
    decide

end Runs

end T560.Gateway
