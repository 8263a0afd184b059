import Mathlib.Data.List.Induction
import Mathlib.Data.List.Perm.Subperm
import T560.Foundation.EventRun

/-!
# A sender with a queue

One item is under way at a time. An item that comes in meanwhile waits in a queue, and the end of the
one under way sends the next. The sender may be offline, an item may end without a sign for the next
one, and items may be taken out of the queue.
-/

/-- `taken` lists the items that were not turned away, `posted` those that were sent. -/
structure Outbox (α : Type) where
  busy : Bool
  queue : List α
  posted : List α
  taken : List α

namespace Outbox

variable {α : Type}

inductive Event (α : Type) where
  | submit (online : Bool) (a : α)
  /-- The item under way has ended, and the next one may go. -/
  | done (online : Bool)
  /-- The item under way has ended, and nothing goes on from there. -/
  | ended
  | began
  | clear
  | remove (n : Nat)
  | idle

def Event.Releases : Event α → Bool
  | .done _ | .ended => true
  | _ => false

/-- Items are taken out of the queue. -/
def Event.Drops : Event α → Bool
  | .clear | .remove _ => true
  | _ => false

def post (o : Outbox α) (a : α) : Outbox α := { o with busy := true, posted := o.posted ++ [a] }

def step (o : Outbox α) : Event α → Outbox α
  | .submit online a =>
    if o.busy then { o with queue := o.queue ++ [a], taken := o.taken ++ [a] }
    else if online then { o.post a with taken := o.taken ++ [a] }
    else o
  | .done online =>
    match o.queue with
    | [] => { o with busy := false }
    | a :: rest =>
      let o := { o with busy := false, queue := rest }
      if online then o.post a else o
  | .ended => { o with busy := false }
  | .began => { o with busy := true }
  | .clear => { o with queue := [] }
  | .remove n => { o with queue := o.queue.eraseIdx n }
  | .idle => o

def empty : Outbox α := ⟨false, [], [], []⟩

/-- Nothing happens to the items that wait, but that the next one is sent. -/
def Smooth (o : Outbox α) : Event α → Prop
  | .done online => online = true ∨ o.queue = []
  | .ended | .clear => o.queue = []
  | .remove n => o.queue.length ≤ n
  | _ => True

section Steps

variable {o : Outbox α} {base : List α}

/-- No step sends an item again, or one that was not taken. -/
theorem step_subperm (h : (o.posted ++ o.queue).Subperm (base ++ o.taken)) (e : Event α) :
    ((o.step e).posted ++ (o.step e).queue).Subperm (base ++ (o.step e).taken) := by
  have hfewer : ∀ queue : List α, queue.Sublist o.queue → (o.posted ++ queue).Subperm (base ++ o.taken) := by
    intro queue hsub
    exact ((hsub.append_left o.posted).subperm).trans h
  cases e with
  | submit online a =>
    have hmore : ((o.posted ++ o.queue) ++ [a]).Subperm (base ++ (o.taken ++ [a])) := by
      rw [← List.append_assoc]
      exact (List.subperm_append_right [a]).mpr h
    dsimp only [step]
    split_ifs
    · simpa using hmore
    · refine List.Perm.subperm ?_ |>.trans hmore
      simp only [post, List.append_assoc]
      exact List.Perm.append_left _ List.perm_append_comm
    · exact h
  | done online =>
    dsimp only [step]
    split
    · exact h
    · next a rest hqueue =>
      rw [hqueue] at h hfewer
      split_ifs
      · simpa [post] using h
      · exact hfewer rest (List.sublist_cons_self a rest)
  | ended => exact h
  | began => exact h
  | clear => exact hfewer [] (List.nil_sublist _)
  | remove n => exact hfewer _ (List.eraseIdx_sublist ..)
  | idle => exact h

/-- A step that sends follows the end of the item before. -/
theorem step_length (o : Outbox α) (e : Event α) :
    (o.step e).posted.length + o.busy.toNat ≤ o.posted.length + e.Releases.toNat + (o.step e).busy.toNat := by
  cases e with
  | submit online a => dsimp only [step]; split_ifs <;> simp_all [post, Event.Releases]
  | done online =>
    dsimp only [step]
    have := Bool.toNat_le o.busy
    split
    · simpa [Event.Releases] using this
    · split_ifs <;> simp [post, Event.Releases] <;> omega
  | ended => simpa [step, Event.Releases] using Bool.toNat_le o.busy
  | began => simpa [step, Event.Releases] using Bool.toNat_le o.busy
  | clear => simp [step, Event.Releases]
  | remove n => simp [step, Event.Releases]
  | idle => simp [step, Event.Releases]

/-- Only an item that comes in is put into the queue. -/
theorem mem_queue_step {e : Event α} {a : α} (h : a ∈ (o.step e).queue) :
    a ∈ o.queue ∨ ∃ online, e = .submit online a := by
  cases e with
  | submit online b =>
    dsimp only [step] at h
    split_ifs at h
    · rcases List.mem_append.mp h with h | h
      · exact Or.inl h
      · exact Or.inr ⟨online, by rw [List.mem_singleton.mp h]⟩
    · exact Or.inl h
    · exact Or.inl h
  | done online =>
    dsimp only [step] at h
    split at h
    · next hnone => exact Or.inl h
    · next b rest hqueue =>
      left
      rw [hqueue]
      split_ifs at h
      · exact List.mem_cons_of_mem _ h
      · exact List.mem_cons_of_mem _ h
  | clear => cases h
  | remove n => exact Or.inl (List.mem_of_mem_eraseIdx h)
  | ended => exact Or.inl h
  | began => exact Or.inl h
  | idle => exact Or.inl h

/-- What is sent and what waits is what was taken, in its order, and only a busy sender lets wait. -/
structure InOrder (o : Outbox α) : Prop where
  all : o.posted ++ o.queue = o.taken
  waits : o.queue ≠ [] → o.busy = true

theorem InOrder.step (h : InOrder o) {e : Event α} (hok : Smooth o e) : InOrder (o.step e) := by
  obtain ⟨hall, hwaits⟩ := h
  cases e with
  | submit online a =>
    dsimp only [Outbox.step]
    split_ifs with hbusy
    · exact ⟨by simp [← hall], fun _ => hbusy⟩
    · have hnone : o.queue = [] := by
        by_contra hne
        exact hbusy (hwaits hne)
      exact ⟨by simp [post, ← hall, hnone], fun _ => rfl⟩
    · exact ⟨hall, hwaits⟩
  | done online =>
    dsimp only [Outbox.step]
    split
    · next hnone => exact ⟨hall, fun hne => absurd hnone hne⟩
    · next a rest hqueue =>
      have honline : online = true := hok.resolve_right (by simp [hqueue])
      rw [if_pos honline]
      exact ⟨by simp [post, ← hall, hqueue], fun _ => rfl⟩
  | ended => exact ⟨hall, fun hne => absurd hok hne⟩
  | began => exact ⟨hall, fun _ => rfl⟩
  | clear =>
    refine ⟨?_, fun hne => absurd rfl hne⟩
    have hnone : o.queue = [] := hok
    rw [hnone] at hall
    exact hall
  | remove n =>
    have hsame : o.queue.eraseIdx n = o.queue := List.eraseIdx_of_length_le hok
    dsimp only [Outbox.step]
    rw [hsame]
    exact ⟨hall, hwaits⟩
  | idle => exact ⟨hall, hwaits⟩

/-- The second sender has sent nothing more, and what it has taken since waits behind the rest. -/
def Waits (o o' : Outbox α) : Prop :=
  o'.busy = true ∧ o'.posted = o.posted ∧ ∃ more, o'.taken = o.taken ++ more ∧ o'.queue = o.queue ++ more

theorem Waits.step {o' : Outbox α} (h : Waits o o') {e : Event α} (he : e.Releases = false)
    (hdrops : e.Drops = false) : Waits o (o'.step e) := by
  obtain ⟨hbusy, hposted, more, htaken, hqueue⟩ := h
  cases e with
  | submit online a =>
    have hstep : o'.step (.submit online a) = { o' with queue := o'.queue ++ [a], taken := o'.taken ++ [a] } :=
      if_pos hbusy
    rw [hstep]
    exact ⟨hbusy, hposted, more ++ [a], by simp [htaken], by simp [hqueue]⟩
  | done online => cases he
  | ended => cases he
  | began => exact ⟨rfl, hposted, more, htaken, hqueue⟩
  | clear => cases hdrops
  | remove n => cases hdrops
  | idle => exact ⟨hbusy, hposted, more, htaken, hqueue⟩

end Steps

section Runs

variable {o : Outbox α} {base : List α}

theorem run_subperm (h : (o.posted ++ o.queue).Subperm (base ++ o.taken)) (events : List (Event α)) :
    ((EventRun.run step o events).posted ++ (EventRun.run step o events).queue).Subperm
      (base ++ (EventRun.run step o events).taken) := by
  induction events using List.reverseRecOn with
  | nil => exact h
  | append_singleton events e ih =>
    rw [EventRun.run_snoc]
    exact step_subperm ih e

/-- Every item but the first waits for the end of one before it. -/
theorem run_length (o : Outbox α) (events : List (Event α)) :
    (EventRun.run step o events).posted.length + o.busy.toNat ≤
      o.posted.length + events.countP Event.Releases + (EventRun.run step o events).busy.toNat := by
  induction events using List.reverseRecOn with
  | nil => simp
  | append_singleton events e ih =>
    have hstep := step_length (EventRun.run step o events) e
    have hcount : (events ++ [e]).countP Event.Releases = events.countP Event.Releases + e.Releases.toNat := by
      rw [List.countP_append, List.countP_singleton]
      cases e.Releases <;> rfl
    rw [EventRun.run_snoc, hcount]
    omega

end Runs

end Outbox
