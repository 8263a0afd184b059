import Mathlib.Logic.Function.Basic
import T560.Channels.Pairing
import T560.Foundation.EventRun

/-!
# Pairing operations over time

One process: what its calls leave in `DEFAULT_STORE`. Several processes on one file: what
happens to an approval when the reads and writes of the calls fall between each other.
-/

namespace T560.Channels

open Js (Value JsError PropertyMap trim exists_of_bind_ok)
open Js.Value (trim_of_trimmedText)
open EventRun

variable {env : PairingEnv}

/-- What an approval can do: nothing, take an entry out and throw, or move an entry. -/
theorem approve_cases (channel code : String) (store : PairingStore) :
    approvePairingCode env channel code store = ⟨store, .ok (.pairing none), false⟩ ∨
    (∃ rest e, rest.Sublist store.pending ∧
      approvePairingCode env channel code store = ⟨{ store with pending := rest }, .error e, false⟩) ∨
    ∃ p rest ids, p ∈ store.pending ∧ p.channel = trim channel ∧ rest.Sublist store.pending ∧
      (store.approved.read (trim channel)).items = .ok ids ∧
      approvePairingCode env channel code store =
        ⟨⟨store.approved.assign (trim channel) (ids ++ [p.id, p.userId, p.chatId]).eraseDups, rest⟩,
          .ok (.pairing (some p)), true⟩ := by
  unfold approvePairingCode
  dsimp only
  split
  · exact .inl rfl
  · cases hfind : store.pending.find? fun p =>
        p.channel = trim channel ∧ p.code = env.toUpperCase (trim code) with
    | none => exact .inl rfl
    | some p =>
      have hmatch := List.find?_some hfind
      simp only [decide_eq_true_eq] at hmatch
      cases hids : (store.approved.read (trim channel)).items with
      | error e => exact .inr (.inl ⟨_, e, List.eraseP_sublist, rfl⟩)
      | ok ids =>
        exact .inr (.inr ⟨p, _, ids, List.mem_of_find?_eq_some hfind, hmatch.1, List.eraseP_sublist,
          rfl, rfl⟩)

section Fallback

/-- One process with the file it finds. -/
structure Process where
  file : Option Value
  defaults : PairingStore

/-- A call of the process, or a change of the file by somebody else. -/
inductive ProcessEvent where
  | call (op : Operation) (at_ : Surroundings)
  | outside (file : Option Value)

def Process.step (env : PairingEnv) (p : Process) : ProcessEvent → Process
  | .call op at_ =>
    let e := op.call env at_ p.defaults p.file
    ⟨e.written.or p.file, e.defaults⟩
  | .outside file => { p with file }

/-- A request for a code finds a file that holds a store. -/
def FindsStore (env : PairingEnv) (p : Process) : ProcessEvent → Prop
  | .call (.request _) at_ => readStore env at_.now p.file ≠ none
  | _ => True

/-- Only a request changes an empty store. -/
theorem react_default {op : Operation} {at_ : Surroundings} (h : ∀ params, op ≠ .request params) :
    (op.react env at_ DEFAULT_STORE).store = DEFAULT_STORE := by
  cases op with
  | isApproved params => rfl
  | request params => exact absurd rfl (h params)
  | list channel => rfl
  | approve channel code =>
    rw [Operation.react]
    rcases approve_cases channel code DEFAULT_STORE with h | ⟨rest, e, hrest, h⟩ | ⟨p, _, _, hp, _⟩
    · rw [h]
    · rw [h, List.sublist_nil.mp hrest]
      rfl
    · cases hp

theorem defaults_step (p : Process) (e : ProcessEvent) (hfinds : FindsStore env p e)
    (hp : p.defaults = DEFAULT_STORE) : (p.step env e).defaults = DEFAULT_STORE := by
  cases e with
  | call op at_ =>
    simp only [Process.step, Operation.call]
    split
    · exact hp
    · next hnone =>
      rw [hp]
      refine react_default fun params hop => ?_
      subst hop
      exact hfinds hnone
  | outside file => exact hp

/-- A process whose requests all find a store has an empty store to fall back on. -/
theorem fallback_behaves_empty (env : PairingEnv) (file lost : Option Value)
    (events : List ProcessEvent)
    (h : Allowed (Process.step env) (FindsStore env) ⟨file, DEFAULT_STORE⟩ events)
    (op : Operation) (at_ : Surroundings) (hlost : readStore env at_.now lost = none) :
    let defaults := (run (Process.step env) ⟨file, DEFAULT_STORE⟩ events).defaults
    (op.call env at_ defaults lost).outcome = (op.react env at_ DEFAULT_STORE).outcome ∧
      (op.call env at_ defaults lost).written =
        if (op.react env at_ DEFAULT_STORE).writes then
          some (op.react env at_ DEFAULT_STORE).store.toValue
        else none := by
  have hdefaults := run_keeps (P := fun p => p.defaults = DEFAULT_STORE) defaults_step h rfl
  dsimp only at hdefaults ⊢
  unfold Operation.call
  rw [hlost, hdefaults]
  exact ⟨rfl, rfl⟩

def asciiEnv : PairingEnv where
  rt := Js.asciiRuntime
  toUpperCase s := String.ofList (s.toList.map Char.toUpper)

def firstSecond : Surroundings := ⟨1, fun _ => Vector.replicate 8 0⟩

/-- A user on a channel, waiting under the code of the first bytes. -/
def waitingUser : PairingParams := ⟨"telegram", "7", "9"⟩

def waitingEntry : PendingPairing :=
  ⟨"telegram:7:9", "telegram", "7", "9", "AAAAAAAA", .fin 1, .fin 1⟩

theorem list_all (at_ : Surroundings) (store : PairingStore) :
    ((Operation.list none).react env at_ store).outcome =
      .ok (.pairings (store.pending.mergeSort fun a b => !later b.lastSeenAt a.lastSeenAt)) := rfl

theorem file_of_removed (p : Process) (e : ProcessEvent) :
    (run (Process.step env) p [e, .outside none]).file = none := rfl

/-- A request that found a file, then the file is removed: nothing is pending. -/
theorem fallback_behaves_empty_removed :
    ∃ events : List ProcessEvent,
      Allowed (Process.step asciiEnv) (FindsStore asciiEnv) ⟨some (.obj []), DEFAULT_STORE⟩ events ∧
      (run (Process.step asciiEnv) ⟨some (.obj []), DEFAULT_STORE⟩ events).file = none ∧
      ((Operation.list none).call asciiEnv firstSecond
        (run (Process.step asciiEnv) ⟨some (.obj []), DEFAULT_STORE⟩ events).defaults none).outcome =
          .ok (.pairings []) := by
  have hallowed : Allowed (Process.step asciiEnv) (FindsStore asciiEnv)
      ⟨some (.obj []), DEFAULT_STORE⟩ [.call (.request waitingUser) firstSecond, .outside none] := by
    refine ⟨fun hnone => ?_, trivial, trivial⟩
    cases hnone
  refine ⟨_, hallowed, file_of_removed _ _, ?_⟩
  rw [(fallback_behaves_empty asciiEnv _ none _ hallowed (.list none) firstSecond rfl).1, list_all,
    DEFAULT_STORE, List.mergeSort_nil]

/-- A request that found no file stays pending in the process when the file is removed. -/
theorem request_leaks_into_fallback :
    ∃ events : List ProcessEvent,
      (run (Process.step asciiEnv) ⟨none, DEFAULT_STORE⟩ events).file = none ∧
      ((Operation.list none).call asciiEnv firstSecond
        (run (Process.step asciiEnv) ⟨none, DEFAULT_STORE⟩ events).defaults none).outcome =
          .ok (.pairings [waitingEntry]) ∧
      ((Operation.list none).react asciiEnv firstSecond DEFAULT_STORE).outcome =
        .ok (.pairings []) := by
  refine ⟨[.call (.request waitingUser) firstSecond, .outside none], file_of_removed _ _, ?_, ?_⟩
  · have hpending : (requestPairingCode firstSecond waitingUser DEFAULT_STORE).store.pending =
        [waitingEntry] := by decide
    change ((Operation.list none).react asciiEnv firstSecond
      (requestPairingCode firstSecond waitingUser DEFAULT_STORE).store).outcome = _
    rw [list_all, hpending, List.mergeSort_singleton]
  · rw [list_all, DEFAULT_STORE, List.mergeSort_nil]

end Fallback

section Grants

/-- The channel has a list of its own with this id in it. -/
def Approved.Grants (approved : Approved) (channel x : String) : Prop :=
  ∃ ids, approved.own.lookup channel = some ids ∧ x ∈ ids

theorem Approved.Grants.read {approved : Approved} {channel x : String}
    (h : approved.Grants channel x) : ∃ ids, approved.read channel = .entries ids ∧ x ∈ ids := by
  obtain ⟨ids, hids, hx⟩ := h
  exact ⟨ids, by rw [Approved.read, hids], hx⟩

theorem Approved.own_assign {approved : Approved} {channel : String} (h : channel ≠ "__proto__")
    (ids : List String) (other : String) :
    (approved.assign channel ids).own.lookup other =
      if other = channel then some ids else approved.own.lookup other := by
  rw [Approved.assign, if_neg h]
  exact PropertyMap.lookup_put h ids other

theorem Approved.grants_assign {approved : Approved} {channel x : String} {ids : List String}
    (h : channel ≠ "__proto__") (hx : x ∈ ids) : (approved.assign channel ids).Grants channel x :=
  ⟨ids, by rw [own_assign h, if_pos rfl], hx⟩

/-- An assignment keeps what is granted on other channels. -/
theorem Approved.Grants.assign_ne {approved : Approved} {channel other x : String}
    (h : approved.Grants channel x) (hne : channel ≠ other) (ids : List String) :
    (approved.assign other ids).Grants channel x := by
  obtain ⟨granted, hgranted, hx⟩ := h
  refine ⟨granted, ?_, hx⟩
  by_cases hproto : other = "__proto__"
  · rw [Approved.assign, if_pos hproto]
    exact hgranted
  · rw [own_assign hproto, if_neg hne]
    exact hgranted

/-- No operation takes back what the store it works on grants. -/
theorem react_grants (op : Operation) (at_ : Surroundings) {store : PairingStore}
    {channel x : String} (h : store.approved.Grants channel x) :
    (op.react env at_ store).store.approved.Grants channel x := by
  cases op with
  | isApproved params => exact h
  | list name => exact h
  | request params =>
    simp only [Operation.react, requestPairingCode]
    split
    · exact h
    · exact h
  | approve name code =>
    rw [Operation.react]
    rcases approve_cases name code store with hr | ⟨rest, e, -, hr⟩ | ⟨p, rest, ids, -, -, -, hids, hr⟩
    · rw [hr]
      exact h
    · rw [hr]
      exact h
    · rw [hr]
      dsimp only
      by_cases hname : channel = trim name
      · subst hname
        obtain ⟨granted, hread, hx⟩ := h.read
        rw [hread] at hids
        cases hids
        by_cases hproto : trim name = "__proto__"
        · rw [Approved.assign, if_pos hproto]
          exact h
        · refine Approved.grants_assign hproto ?_
          rw [List.mem_eraseDups]
          exact List.mem_append_left _ hx
      · exact h.assign_ne hname _

end Grants

section RoundTrip

/-- The entries of a list that reading keeps. -/
def cleaned (ids : List String) : List String := (ids.map trim).filter (· ≠ "")

theorem mem_cleaned {ids : List String} {x : String} (h : x ∈ ids) (ht : trim x = x) (hne : x ≠ "") :
    x ∈ cleaned ids :=
  List.mem_filter.mpr ⟨List.mem_map.mpr ⟨x, h, ht⟩, by simpa using hne⟩

theorem mapM_text_strs (rt : Js.Runtime) (ids : List String) :
    (ids.map Value.str).mapM (Value.text rt) = .ok ids := by
  rw [Js.mapM_ok_iff]
  induction ids with
  | nil => exact .nil
  | cons x ids ih => exact .cons (by simp [Value.text]) ih

theorem addApproved_list (approved : Approved) (channel : String) (ids : List String) :
    addApproved env approved (channel, .arr (ids.map .str)) =
      .ok (if cleaned ids = [] then approved else approved.assign channel (cleaned ids).eraseDups) := by
  simp only [addApproved, mapM_text_strs, Js.ok_bind]
  rfl

/-- Reading written lists: a granted id is granted again. -/
theorem foldlM_addApproved (lists : List (String × List String)) (hkeys : PropertyMap.Keyed lists)
    (approved : Approved) :
    ∃ approved', (lists.map fun f => (f.1, Value.arr (f.2.map .str))).foldlM (addApproved env)
        approved = .ok approved' ∧
      ∀ channel x, channel ≠ "__proto__" → trim x = x → x ≠ "" →
        ((∃ ids, (channel, ids) ∈ lists ∧ x ∈ ids) ∨
          approved.Grants channel x ∧ ∀ ids, (channel, ids) ∉ lists) →
        approved'.Grants channel x := by
  induction lists generalizing approved with
  | nil =>
    refine ⟨approved, rfl, fun channel x _ _ _ h => ?_⟩
    rcases h with ⟨ids, hmem, -⟩ | ⟨h, -⟩
    · cases hmem
    · exact h
  | cons f lists ih =>
    obtain ⟨name, ids⟩ := f
    obtain ⟨hname, hrest⟩ := List.nodup_cons.mp hkeys
    obtain ⟨approved', hfold, hgrants⟩ := ih hrest
      (if cleaned ids = [] then approved else approved.assign name (cleaned ids).eraseDups)
    refine ⟨approved', ?_, fun channel x hproto htrim hne h => ?_⟩
    · rw [List.map_cons, List.foldlM_cons, addApproved_list, Js.ok_bind]
      exact hfold
    refine hgrants channel x hproto htrim hne ?_
    have hlater : ∀ granted, (name, granted) ∉ lists := fun granted hmem =>
      hname (List.mem_map.mpr ⟨_, hmem, rfl⟩)
    rcases h with ⟨granted, hmem, hx⟩ | ⟨h, hnot⟩
    · rcases List.mem_cons.mp hmem with heq | hmem
      · cases heq
        have hclean := mem_cleaned hx htrim hne
        rw [if_neg (List.ne_nil_of_mem hclean)]
        exact Or.inr ⟨Approved.grants_assign hproto (List.mem_eraseDups.mpr hclean), hlater⟩
      · exact Or.inl ⟨granted, hmem, hx⟩
    · have hchannel : channel ≠ name := by
        rintro rfl
        exact hnot ids (by simp)
      refine Or.inr ⟨?_, fun granted hmem => hnot granted (by simp [hmem])⟩
      split
      · exact h
      · exact h.assign_ne hchannel _

theorem normalizePending_toValue (now : ℚ) (p : PendingPairing) :
    ∃ p', normalizePending env now p.toValue = .ok p' := by
  obtain ⟨id, channel, userId, chatId, code, createdAt, lastSeenAt⟩ := p
  cases createdAt <;> cases lastSeenAt <;> exact ⟨_, rfl⟩

/-- A file that an operation wrote is read as a store that grants what the written one did. -/
theorem readStore_toValue (now : ℚ) (store : PairingStore) :
    ∃ store', readStore env now (some store.toValue) = some store' ∧
      ∀ channel x, channel ≠ "__proto__" → trim x = x → x ≠ "" →
        store.approved.Grants channel x → store'.approved.Grants channel x := by
  let lists := PropertyMap.entries (PropertyMap.entries store.approved.own)
  obtain ⟨approved, hfold, hgrants⟩ := foldlM_addApproved lists store.approved.keyed.entries.entries
    emptyApproved
  have hall : ∀ item ∈ (store.pending.map (·.toValue)).filter Value.isObject,
      ∃ p, normalizePending env now item = .ok p := by
    intro item hitem
    obtain ⟨p, -, rfl⟩ := List.mem_map.mp (List.mem_of_mem_filter hitem)
    exact normalizePending_toValue now p
  obtain ⟨pending, hpending⟩ := Js.exists_mapM_ok_iff.mpr hall
  refine ⟨⟨approved, pending.filter (·.filled)⟩, ?_, fun channel x hproto htrim hne h => ?_⟩
  · have hentries : Value.entries (.obj ((PropertyMap.entries store.approved.own).map
        fun f => (f.1, Value.arr (f.2.map .str)))) =
        lists.map fun f => (f.1, Value.arr (f.2.map .str)) :=
      PropertyMap.entries_map (fun ids : List String => Value.arr (ids.map .str)) _
    have hstore : normalizeStore env now store.toValue =
        .ok (some ⟨approved, pending.filter (·.filled)⟩) := by
      change ((Value.entries (.obj ((PropertyMap.entries store.approved.own).map
          fun f => (f.1, Value.arr (f.2.map .str))))).foldlM (addApproved env) emptyApproved >>=
        fun approved => ((store.pending.map (·.toValue)).filter Value.isObject).mapM
          (normalizePending env now) >>= fun pending =>
            .ok (some (PairingStore.mk approved (pending.filter (·.filled))))) = _
      rw [hentries, hfold, Js.ok_bind, hpending]
      rfl
    rw [readStore, hstore]
    rfl
  · obtain ⟨ids, hids, hx⟩ := h
    refine hgrants channel x hproto htrim hne (Or.inl ⟨ids, ?_, hx⟩)
    rw [PropertyMap.mem_entries, PropertyMap.mem_entries]
    exact PropertyMap.mem_of_lookup hids

end RoundTrip

section Answerable

/-- One of the texts an approval adds is one of those `isPairingApproved` looks for, and reading
the file keeps it. -/
structure PendingPairing.Answerable (p : PendingPairing) : Prop where
  channel : trim p.channel = p.channel
  userId : trim p.userId = p.userId
  chatId : trim p.chatId = p.chatId
  found : ∃ x, (x = p.id ∨ x = p.userId ∨ x = p.chatId) ∧
    (x = pairingId p.channel p.userId p.chatId ∨ x = p.userId ∨ x = p.chatId) ∧
    trim x = x ∧ x ≠ ""

theorem head?_of_trim {s : String} (h : trim s = s) {c : Char} (hc : s.toList.head? = some c) :
    Js.isSpace c = false := by
  rw [← h, Js.toList_trim] at hc
  exact Js.head?_trimChars hc

theorem getLast?_of_trim {s : String} (h : trim s = s) {c : Char}
    (hc : s.toList.getLast? = some c) : Js.isSpace c = false := by
  rw [← h, Js.toList_trim] at hc
  exact Js.getLast?_trimChars hc

theorem trim_pairingId {channel userId chatId : String} (hchannel : trim channel = channel)
    (hchat : trim chatId = chatId) :
    trim (pairingId channel userId chatId) = pairingId channel userId chatId := by
  have hlist : (pairingId channel userId chatId).toList =
      channel.toList ++ ':' :: (userId.toList ++ ':' :: chatId.toList) := by
    simp [pairingId]
  rw [trim, Js.trimChars_eq_self, String.ofList_toList]
  · intro c hc
    rw [hlist] at hc
    cases hl : channel.toList with
    | nil =>
      rw [hl] at hc
      cases hc
      decide
    | cons d rest =>
      rw [hl] at hc
      exact head?_of_trim hchannel (by rw [hl]; exact hc)
  · intro c hc
    rw [hlist, List.getLast?_append_cons, ← List.cons_append, List.getLast?_append_cons] at hc
    cases hl : chatId.toList with
    | nil =>
      rw [hl] at hc
      cases hc
      decide
    | cons d rest =>
      rw [hl, List.getLast?_cons_cons] at hc
      exact getLast?_of_trim hchat (by rw [hl]; exact hc)

theorem pairingId_ne (channel userId chatId : String) : pairingId channel userId chatId ≠ "" := by
  intro h
  have := congrArg (fun s => s.toList.length) h
  simp [pairingId] at this

theorem answerable_of_normalize {now : ℚ} {item : Value} {p : PendingPairing}
    (h : normalizePending env now item = .ok p) (hfilled : p.filled = true) : p.Answerable := by
  obtain ⟨id, hid, h⟩ := exists_of_bind_ok h
  obtain ⟨channel, hchannel, h⟩ := exists_of_bind_ok h
  obtain ⟨userId, huser, h⟩ := exists_of_bind_ok h
  obtain ⟨chatId, hchat, h⟩ := exists_of_bind_ok h
  obtain ⟨code, -, h⟩ := exists_of_bind_ok h
  obtain ⟨createdAt, -, h⟩ := exists_of_bind_ok h
  obtain ⟨lastSeenAt, -, h⟩ := exists_of_bind_ok h
  cases h
  have huser' := trim_of_trimmedText huser
  simp only [PendingPairing.filled, Bool.and_eq_true, decide_eq_true_eq] at hfilled
  exact ⟨trim_of_trimmedText hchannel, huser', trim_of_trimmedText hchat,
    userId, .inr (.inl rfl), .inr (.inl rfl), huser', hfilled.1.1.2⟩

theorem readStore_answerable {now : ℚ} {file : Option Value} {store : PairingStore}
    (h : readStore env now file = some store) : ∀ p ∈ store.pending, p.Answerable := by
  intro p hp
  cases file with
  | none => cases h
  | some raw =>
    rw [readStore] at h
    cases hstore : normalizeStore env now raw with
    | error e =>
      rw [hstore] at h
      cases h
    | ok found =>
      rw [hstore] at h
      obtain rfl : found = some store := h
      unfold normalizeStore at hstore
      split at hstore
      · cases hstore
      · obtain ⟨approved, -, hstore⟩ := exists_of_bind_ok hstore
        obtain ⟨pending, hpending, hstore⟩ := exists_of_bind_ok hstore
        cases hstore
        obtain ⟨hmem, hfilled⟩ := List.mem_filter.mp hp
        obtain ⟨item, -, hitem⟩ := Js.exists_of_mem_mapM hpending hmem
        exact answerable_of_normalize hitem hfilled

theorem mem_seenAgain {id : String} {now : ℚ} {list : List PendingPairing} {p : PendingPairing}
    (h : p ∈ seenAgain id now list) :
    ∃ q ∈ list, p = q ∨ p = { q with lastSeenAt := .fin now } := by
  induction list with
  | nil => cases h
  | cons q rest ih =>
    rw [seenAgain] at h
    split at h
    · rcases List.mem_cons.mp h with rfl | h
      · exact ⟨q, by simp, .inr rfl⟩
      · exact ⟨p, by simp [h], .inl rfl⟩
    · rcases List.mem_cons.mp h with rfl | h
      · exact ⟨p, by simp, .inl rfl⟩
      · obtain ⟨r, hr, hp⟩ := ih h
        exact ⟨r, by simp [hr], hp⟩

theorem react_answerable (op : Operation) (at_ : Surroundings) {store : PairingStore}
    (h : ∀ p ∈ store.pending, p.Answerable) :
    ∀ p ∈ (op.react env at_ store).store.pending, p.Answerable := by
  cases op with
  | isApproved params => exact h
  | list channel => exact h
  | request params =>
    intro p hp
    simp only [Operation.react, requestPairingCode] at hp
    split at hp
    · obtain ⟨q, hq, rfl | rfl⟩ := mem_seenAgain hp
      · exact h p hq
      · exact ⟨(h q hq).channel, (h q hq).userId, (h q hq).chatId, (h q hq).found⟩
    · rcases List.mem_append.mp hp with hp | hp
      · exact h p hp
      · obtain rfl := List.mem_singleton.mp hp
        exact ⟨Js.trim_trim _, Js.trim_trim _, Js.trim_trim _, _, .inl rfl, .inl rfl,
          trim_pairingId (Js.trim_trim _) (Js.trim_trim _), pairingId_ne _ _ _⟩
  | approve channel code =>
    intro p hp
    rw [Operation.react] at hp
    rcases approve_cases channel code store with hr | ⟨rest, e, hrest, hr⟩ |
      ⟨q, rest, ids, -, -, hrest, -, hr⟩
    · rw [hr] at hp
      exact h p hp
    · rw [hr] at hp
      exact h p (hrest.subset hp)
    · rw [hr] at hp
      exact h p (hrest.subset hp)

/-- A call that returns a pairing approved a pending one and is about to write it. -/
theorem react_pairing {op : Operation} {at_ : Surroundings} {store : PairingStore}
    {p : PendingPairing} (h : (op.react env at_ store).outcome = .ok (.pairing (some p))) :
    ∃ channel code, op = .approve channel code ∧ trim channel = p.channel ∧ p ∈ store.pending ∧
      (op.react env at_ store).writes = true ∧
      (p.channel ≠ "__proto__" → ∀ x, x = p.id ∨ x = p.userId ∨ x = p.chatId →
        (op.react env at_ store).store.approved.Grants p.channel x) := by
  cases op with
  | isApproved params =>
    simp only [Operation.react, isPairingApproved] at h
    obtain ⟨byId, -, h⟩ := exists_of_bind_ok h
    obtain ⟨byUser, -, h⟩ := exists_of_bind_ok h
    obtain ⟨byChat, -, h⟩ := exists_of_bind_ok h
    cases h
  | list channel => cases h
  | request params =>
    simp only [Operation.react, requestPairingCode] at h
    split at h
    · cases h
    · cases h
  | approve channel code =>
    rw [Operation.react] at h ⊢
    rcases approve_cases channel code store with hr | ⟨rest, e, -, hr⟩ |
      ⟨q, rest, ids, hmem, hchannel, -, -, hr⟩
    · rw [hr] at h
      cases h
    · rw [hr] at h
      cases h
    · rw [hr] at h ⊢
      cases h
      refine ⟨channel, code, rfl, hchannel.symm, hmem, rfl, fun hproto x hx => ?_⟩
      rw [hchannel] at hproto ⊢
      dsimp only
      refine Approved.grants_assign hproto (List.mem_eraseDups.mpr ?_)
      rcases hx with rfl | rfl | rfl <;> simp

end Answerable

section Kept

def Operation.isApproval : Operation → Bool
  | .approve _ _ => true
  | _ => false

/-- However the file is read, it grants one of the texts the pairing is looked up by. -/
def Kept (env : PairingEnv) (file : Option Value) (p : PendingPairing) : Prop :=
  p.Answerable ∧ p.channel ≠ "__proto__" ∧ ∃ x,
    (x = pairingId p.channel p.userId p.chatId ∨ x = p.userId ∨ x = p.chatId) ∧
    trim x = x ∧ x ≠ "" ∧
    ∀ now, ∃ store, readStore env now file = some store ∧ store.approved.Grants p.channel x

/-- In every process the user of the pairing is approved. -/
def Honoured (env : PairingEnv) (file : Option Value) (p : PendingPairing) : Prop :=
  ∀ at_ defaults, ((Operation.isApproved ⟨p.channel, p.userId, p.chatId⟩).call env at_ defaults
    file).outcome = .ok (.approved true)

theorem Kept.honoured {file : Option Value} {p : PendingPairing} (h : Kept env file p) :
    Honoured env file p := by
  obtain ⟨hp, -, x, hx, -, -, hgrants⟩ := h
  intro at_ defaults
  obtain ⟨store, hstore, hgranted⟩ := hgrants at_.now
  obtain ⟨ids, hread, hmem⟩ := hgranted.read
  simp only [Operation.call, hstore, Operation.react, isPairingApproved, hp.channel, hp.userId,
    hp.chatId, hread, Slot.includes, Js.ok_bind]
  rcases hx with rfl | rfl | rfl <;> simp [hmem] <;> rfl

/-- What the file keeps, the file a call writes keeps. -/
theorem Kept.written {op : Operation} {at_ : Surroundings} {defaults : PairingStore}
    {file : Option Value} {p : PendingPairing} {v : Value} (h : Kept env file p)
    (hv : (op.call env at_ defaults file).written = some v) : Kept env (some v) p := by
  obtain ⟨hp, hproto, x, hx, htrim, hne, hgrants⟩ := h
  refine ⟨hp, hproto, x, hx, htrim, hne, fun now => ?_⟩
  obtain ⟨store, hstore, hgranted⟩ := hgrants at_.now
  simp only [Operation.call, hstore] at hv
  split at hv
  · cases hv
    obtain ⟨store', hstore', hkeep⟩ := readStore_toValue now (op.react env at_ store).store
    exact ⟨store', hstore', hkeep p.channel x hproto htrim hne (react_grants op at_ hgranted)⟩
  · cases hv

/-- The file an approval writes keeps its pairing. -/
theorem kept_approval {op : Operation} {at_ : Surroundings} {defaults : PairingStore}
    {file : Option Value} {p : PendingPairing}
    (hdefaults : ∀ q ∈ defaults.pending, q.Answerable)
    (hproto : ∀ channel code, op = .approve channel code → trim channel ≠ "__proto__")
    (h : (op.call env at_ defaults file).outcome = .ok (.pairing (some p))) :
    ∃ v, (op.call env at_ defaults file).written = some v ∧ Kept env (some v) p := by
  have hstore : ∀ store : PairingStore, (∀ q ∈ store.pending, q.Answerable) →
      (op.react env at_ store).outcome = .ok (.pairing (some p)) →
      (op.react env at_ store).writes = true ∧
        Kept env (some (op.react env at_ store).store.toValue) p := by
    intro store hpending hout
    obtain ⟨channel, code, hop, hchannel, hmem, hwrites, hgrants⟩ := react_pairing hout
    have hp := hpending p hmem
    have hne := hproto channel code hop
    rw [hchannel] at hne
    obtain ⟨x, hadded, hlooked, htrim, hx⟩ := hp.found
    refine ⟨hwrites, hp, hne, x, hlooked, htrim, hx, fun now => ?_⟩
    obtain ⟨store', hread, hkeep⟩ := readStore_toValue now (op.react env at_ store).store
    exact ⟨store', hread, hkeep p.channel x hne htrim hx (hgrants hne x hadded)⟩
  cases hread : readStore env at_.now file with
  | some store =>
    simp only [Operation.call, hread] at h ⊢
    obtain ⟨hwrites, hkept⟩ := hstore store (readStore_answerable hread) h
    exact ⟨_, by rw [if_pos hwrites], hkept⟩
  | none =>
    simp only [Operation.call, hread] at h ⊢
    obtain ⟨hwrites, hkept⟩ := hstore defaults hdefaults h
    exact ⟨_, by rw [if_pos hwrites], hkept⟩

theorem approval_of_pairing {op : Operation} {at_ : Surroundings} {defaults : PairingStore}
    {file : Option Value} {p : PendingPairing}
    (h : (op.call env at_ defaults file).outcome = .ok (.pairing (some p))) :
    op.isApproval = true := by
  have hreact : ∃ store, (op.react env at_ store).outcome = .ok (.pairing (some p)) := by
    unfold Operation.call at h
    split at h
    · exact ⟨_, h⟩
    · exact ⟨_, h⟩
  obtain ⟨store, hreact⟩ := hreact
  obtain ⟨channel, code, rfl, -⟩ := react_pairing hreact
  rfl

theorem call_answerable (op : Operation) (at_ : Surroundings) {defaults : PairingStore}
    (file : Option Value) (h : ∀ p ∈ defaults.pending, p.Answerable) :
    ∀ p ∈ (op.call env at_ defaults file).defaults.pending, p.Answerable := by
  unfold Operation.call
  dsimp only
  split
  · exact h
  · exact react_answerable op at_ h

end Kept

section Shared
variable {ι π : Type} [DecidableEq ι] [DecidableEq π]

/-- Where a call stands. A call about to write has counted the approvals written when it read. -/
inductive Phase where
  | idle
  | writing (value : Value) (outcome : Except JsError Result) (seen : Nat)
  | done (outcome : Except JsError Result)

/-- The file, the `DEFAULT_STORE` of each process, the calls, and how many approvals were
written. -/
structure Shared (ι π : Type) where
  file : Option Value
  defaults : π → PairingStore
  phase : ι → Phase
  approvals : Nat

/-- A call with the process it runs in. -/
structure Job (π : Type) where
  process : π
  op : Operation
  at_ : Surroundings

def initial (file : Option Value) : Shared ι π := ⟨file, fun _ => DEFAULT_STORE, fun _ => .idle, 0⟩

/-- The phase of a call that has read the file. -/
def Effect.next (e : Effect) (approvals : Nat) : Phase :=
  match e.written with
  | some v => .writing v e.outcome approvals
  | none => .done e.outcome

/-- Call `i` reads the file, or writes it and returns. -/
def advance (env : PairingEnv) (jobs : ι → Job π) (s : Shared ι π) (i : ι) : Shared ι π :=
  match s.phase i with
  | .idle =>
    let e := (jobs i).op.call env (jobs i).at_ (s.defaults (jobs i).process) s.file
    { s with
      defaults := Function.update s.defaults (jobs i).process e.defaults
      phase := Function.update s.phase i (e.next s.approvals) }
  | .writing v outcome _ =>
    { s with
      file := some v
      phase := Function.update s.phase i (.done outcome)
      approvals := s.approvals + (jobs i).op.isApproval.toNat }
  | .done _ => s

/-- No approval was written since the call read the file, and the call approves nobody on a
channel named `__proto__`. -/
def Undisturbed (jobs : ι → Job π) (s : Shared ι π) (i : ι) : Prop :=
  match s.phase i with
  | .idle => ∀ channel code, (jobs i).op = .approve channel code → trim channel ≠ "__proto__"
  | .writing _ _ seen => seen = s.approvals
  | .done _ => True

/-- Whoever was returned as paired is approved. -/
def AllHonoured (env : PairingEnv) (s : Shared ι π) : Prop :=
  ∀ i p, s.phase i = .done (.ok (.pairing (some p))) → Honoured env s.file p

structure Consistent (env : PairingEnv) (jobs : ι → Job π) (s : Shared ι π) : Prop where
  defaults : ∀ q, ∀ p ∈ (s.defaults q).pending, p.Answerable
  kept : ∀ i p, s.phase i = .done (.ok (.pairing (some p))) → Kept env s.file p
  held : ∀ i v outcome, s.phase i = .writing v outcome s.approvals →
    ∀ j p, s.phase j = .done (.ok (.pairing (some p))) → Kept env (some v) p
  granted : ∀ i v seen p, s.phase i = .writing v (.ok (.pairing (some p))) seen →
    (jobs i).op.isApproval = true ∧ Kept env (some v) p
  seen : ∀ i v outcome n, s.phase i = .writing v outcome n → n ≤ s.approvals

variable {jobs : ι → Job π} {s : Shared ι π} {i : ι}

omit [DecidableEq ι] [DecidableEq π] in
theorem consistent_initial (file : Option Value) :
    Consistent env jobs (initial file : Shared ι π) := by
  refine ⟨fun q p hp => ?_, fun i p h => ?_, fun i v outcome h => ?_, fun i v seen p h => ?_,
    fun i v outcome n h => ?_⟩
  · cases hp
  · cases h
  · cases h
  · cases h
  · cases h

theorem Effect.next_writing {e : Effect} {n seen : Nat} {v : Value}
    {outcome : Except JsError Result} (h : e.next n = .writing v outcome seen) :
    e.written = some v ∧ e.outcome = outcome ∧ n = seen := by
  unfold Effect.next at h
  split at h
  · next hw =>
    cases h
    exact ⟨hw, rfl, rfl⟩
  · cases h

theorem Effect.next_done {e : Effect} {n : Nat} {outcome : Except JsError Result}
    (h : e.next n = .done outcome) : e.written = none ∧ e.outcome = outcome := by
  unfold Effect.next at h
  split at h
  · cases h
  · next hw =>
    cases h
    exact ⟨hw, rfl⟩

/-- The call reads: what it holds is as good as the file. -/
theorem Consistent.read (h : Consistent env jobs s) (hi : s.phase i = .idle)
    (hok : Undisturbed jobs s i) : Consistent env jobs (advance env jobs s i) := by
  rw [Undisturbed, hi] at hok
  have hdefaults := h.defaults (jobs i).process
  rw [advance, hi]
  dsimp only
  -- A call that has only read has returned no pairing.
  have hdone : ∀ j p, Function.update s.phase i
      (((jobs i).op.call env (jobs i).at_ (s.defaults (jobs i).process) s.file).next s.approvals) j =
        .done (.ok (.pairing (some p))) → s.phase j = .done (.ok (.pairing (some p))) := by
    intro j p hj
    by_cases hji : j = i
    · subst hji
      rw [Function.update_self] at hj
      obtain ⟨hnone, hout⟩ := Effect.next_done hj
      obtain ⟨v, hv, -⟩ := kept_approval hdefaults hok hout
      rw [hnone] at hv
      cases hv
    · rwa [Function.update_of_ne hji] at hj
  refine ⟨fun q p hp => ?_, fun j p hj => h.kept j p (hdone j p hj), fun k v outcome hk j p hj => ?_,
    fun k v seen p hk => ?_, fun k v outcome n hk => ?_⟩
  · dsimp only at hp
    by_cases hq : q = (jobs i).process
    · subst hq
      rw [Function.update_self] at hp
      exact call_answerable (jobs i).op (jobs i).at_ s.file hdefaults p hp
    · rw [Function.update_of_ne hq] at hp
      exact h.defaults q p hp
  · dsimp only at hk
    by_cases hki : k = i
    · subst hki
      rw [Function.update_self] at hk
      exact (h.kept j p (hdone j p hj)).written (Effect.next_writing hk).1
    · rw [Function.update_of_ne hki] at hk
      exact h.held k v outcome hk j p (hdone j p hj)
  · dsimp only at hk
    by_cases hki : k = i
    · subst hki
      rw [Function.update_self] at hk
      obtain ⟨hw, hout, -⟩ := Effect.next_writing hk
      obtain ⟨w, hv, hkept⟩ := kept_approval hdefaults hok hout
      rw [hw] at hv
      cases hv
      exact ⟨approval_of_pairing hout, hkept⟩
    · rw [Function.update_of_ne hki] at hk
      exact h.granted k v seen p hk
  · dsimp only at hk
    by_cases hki : k = i
    · subst hki
      rw [Function.update_self] at hk
      exact (Effect.next_writing hk).2.2.ge
    · rw [Function.update_of_ne hki] at hk
      exact h.seen k v outcome n hk

/-- The call writes: no approval was written since it read, so it takes none back. -/
theorem Consistent.write (h : Consistent env jobs s) {v : Value} {outcome : Except JsError Result}
    (hi : s.phase i = .writing v outcome s.approvals) :
    Consistent env jobs (advance env jobs s i) := by
  rw [advance, hi]
  dsimp only
  have hdone : ∀ j p, Function.update s.phase i (.done outcome) j = .done (.ok (.pairing (some p))) →
      (j = i ∧ outcome = .ok (.pairing (some p))) ∨
        (j ≠ i ∧ s.phase j = .done (.ok (.pairing (some p)))) := by
    intro j p hj
    by_cases hji : j = i
    · subst hji
      rw [Function.update_self] at hj
      exact .inl ⟨rfl, Phase.done.inj hj⟩
    · rw [Function.update_of_ne hji] at hj
      exact .inr ⟨hji, hj⟩
  have hwriting : ∀ k w o n, Function.update s.phase i (.done outcome) k = .writing w o n →
      s.phase k = .writing w o n := by
    intro k w o n hk
    by_cases hki : k = i
    · subst hki
      rw [Function.update_self] at hk
      cases hk
    · rwa [Function.update_of_ne hki] at hk
  refine ⟨h.defaults, fun j p hj => ?_, fun k w o hk j p hj => ?_,
    fun k w seen p hk => h.granted k w seen p (hwriting k w _ seen hk), fun k w o n hk => ?_⟩
  · rcases hdone j p hj with ⟨rfl, rfl⟩ | ⟨-, hj⟩
    · exact (h.granted j v s.approvals p hi).2
    · exact h.held i v outcome hi j p hj
  · -- Behind an approval nobody's count is up to date.
    have hk' := hwriting k w o _ hk
    have hcount := h.seen k w o _ hk'
    dsimp only at hcount hk'
    cases happroval : (jobs i).op.isApproval with
    | true =>
      rw [happroval] at hcount
      exact absurd hcount (by simp)
    | false =>
      rw [happroval] at hk'
      rcases hdone j p hj with ⟨rfl, rfl⟩ | ⟨-, hj⟩
      · have := (h.granted j v s.approvals p hi).1
        rw [happroval] at this
        cases this
      · exact h.held k w o hk' j p hj
  · exact (h.seen k w o n (hwriting k w o n hk)).trans (Nat.le_add_right _ _)

theorem consistent_step (s : Shared ι π) (i : ι) (hok : Undisturbed jobs s i)
    (h : Consistent env jobs s) : Consistent env jobs (advance env jobs s i) := by
  cases hi : s.phase i with
  | idle => exact h.read hi hok
  | writing v outcome seen =>
    rw [Undisturbed, hi] at hok
    obtain rfl : seen = s.approvals := hok
    exact h.write hi
  | done outcome =>
    rw [advance, hi]
    exact h

/-- In every run of undisturbed calls, whoever was returned as paired stays approved. -/
theorem approved_pairings_honoured (env : PairingEnv) (jobs : ι → Job π) (file : Option Value)
    (steps : List ι) (h : Allowed (advance env jobs) (Undisturbed jobs) (initial file) steps) :
    AllHonoured env (run (advance env jobs) (initial file) steps) := by
  have hs := run_keeps consistent_step h (consistent_initial file)
  exact fun i p hp => (hs.kept i p hp).honoured

end Shared

section TwoProcesses

/-- The bot answers a message of the waiting user while an approval runs on the command line. -/
def botAndCli : Bool → Job Bool
  | false => ⟨false, .request waitingUser, firstSecond⟩
  | true => ⟨true, .approve "telegram" "AAAAAAAA", firstSecond⟩

def Phase.paired : Phase → Option PendingPairing
  | .done (.ok (.pairing p)) => p
  | _ => none

theorem Phase.eq_of_paired {phase : Phase} {p : PendingPairing} (h : phase.paired = some p) :
    phase = .done (.ok (.pairing (some p))) := by
  unfold Phase.paired at h
  split at h
  · rw [h]
  · cases h

instance (s : Shared Bool Bool) (i : Bool) : Decidable (Undisturbed botAndCli s i) :=
  match h : s.phase i with
  | .idle => isTrue (by
      rw [Undisturbed, h]
      intro channel code hop
      cases i with
      | false => cases hop
      | true =>
        cases hop
        decide)
  | .writing _ _ seen => decidable_of_iff (seen = s.approvals) (by rw [Undisturbed, h])
  | .done _ => isTrue (by rw [Undisturbed, h]; trivial)

/-- The request, and then the approval: the user is approved. -/
theorem approved_pairings_honoured_in_sequence :
    ∃ steps : List Bool,
      Allowed (advance asciiEnv botAndCli) (Undisturbed botAndCli) (initial none) steps ∧
      (run (advance asciiEnv botAndCli) (initial none) steps).phase true =
        .done (.ok (.pairing (some waitingEntry))) ∧
      Honoured asciiEnv (run (advance asciiEnv botAndCli) (initial none) steps).file waitingEntry := by
  have hallowed : Allowed (advance asciiEnv botAndCli) (Undisturbed botAndCli) (initial none)
      [false, false, true, true] := by decide
  have hdone : (run (advance asciiEnv botAndCli) (initial none) [false, false, true, true]).phase
      true = .done (.ok (.pairing (some waitingEntry))) := Phase.eq_of_paired (by decide)
  exact ⟨_, hallowed, hdone,
    approved_pairings_honoured asciiEnv botAndCli none _ hallowed true waitingEntry hdone⟩

/-- The file with the waiting user in it. -/
def waitingFile : Value := PairingStore.toValue ⟨emptyApproved, [waitingEntry]⟩

/-- The bot reads before the approval is written and writes after it: the approval is gone. -/
theorem request_overwrites_approval :
    ∃ steps : List Bool,
      (run (advance asciiEnv botAndCli) (initial (some waitingFile)) steps).phase true =
        .done (.ok (.pairing (some waitingEntry))) ∧
      ((Operation.isApproved ⟨waitingEntry.channel, waitingEntry.userId, waitingEntry.chatId⟩).call
        asciiEnv firstSecond DEFAULT_STORE
        (run (advance asciiEnv botAndCli) (initial (some waitingFile)) steps).file).outcome =
          .ok (.approved false) :=
  ⟨[false, true, true, false], Phase.eq_of_paired (by decide), by decide⟩

end TwoProcesses

end T560.Channels
