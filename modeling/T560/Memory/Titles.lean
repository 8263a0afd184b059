import Mathlib.Data.List.Pairwise
import T560.Foundation.EventRun
import T560.Memory.Calls

/-!
# One entry for a title

A save updates the entry of its namespace with the same title, so no title gets a second entry.
A save that replaces what it contradicts writes a new entry instead: the title stays unique when
the entry that had it is among the contradicted ones.
-/

namespace T560.Memory

open EventRun (run Allowed)
open Js (Runtime exists_of_bind_ok)

/-- Entries of one namespace whose titles have the same key, which is not empty. -/
def SameTitle (rt : Runtime) (e e' : MemoryStoreEntry) : Prop :=
  e.memoryNamespace = e'.memoryNamespace ∧
    normalizeTitleKey rt e.title = normalizeTitleKey rt e'.title ∧
    normalizeTitleKey rt e.title ≠ ""

def TitlesUnique (rt : Runtime) (entries : List MemoryStoreEntry) : Prop :=
  entries.Pairwise fun e e' => ¬ SameTitle rt e e'

/-- The save replaces no contradicted entries, or the entries with its title are among them. -/
def SaveRequest.ReplacesTitle (env : SaveEnv) (r : SaveRequest) (entries : List MemoryStoreEntry) :
    Prop :=
  r.replaces env entries = true → ∀ e ∈ entries, e.memoryNamespace = r.memoryNamespace →
    normalizeTitleKey env.rt e.title = normalizeTitleKey env.rt r.title →
    normalizeTitleKey env.rt e.title ≠ "" → e.id ∈ r.conflictIds env entries

def ReplacesTitle (env : ReadEnv) (file : Option String) : StoreCall → Prop
  | .save call => ∀ r, checkRequest env.toSaveEnv call.params = .ok r →
      r.ReplacesTitle env.toSaveEnv (loadStoreEntries env.toStore (some .posInf) file)
  | _ => True

section Titles
variable {rt : Runtime} {entries : List MemoryStoreEntry}

theorem TitlesUnique.eq_of_sameTitle (h : TitlesUnique rt entries) {e e' : MemoryStoreEntry}
    (he : e ∈ entries) (he' : e' ∈ entries) (hsame : SameTitle rt e e') : e = e' := by
  have hsymm : Std.Symm fun e e' => ¬ SameTitle rt e e' := by
    constructor
    rintro a b hab ⟨hspace, hkey, hne⟩
    exact hab ⟨hspace.symm, hkey.symm, hkey ▸ hne⟩
  by_contra hne
  exact List.Pairwise.forall h he he' hne hsame

theorem TitlesUnique.snoc (h : TitlesUnique rt entries) {y : MemoryStoreEntry}
    (hy : ∀ e ∈ entries, ¬ SameTitle rt e y) : TitlesUnique rt (entries ++ [y]) := by
  refine List.pairwise_append.mpr ⟨h, List.pairwise_singleton _ _, ?_⟩
  intro e he z hz
  obtain rfl := List.mem_singleton.mp hz
  exact hy e he

end Titles

section Step
variable {env : SaveEnv} {entries : List MemoryStoreEntry}

theorem savedEntry_title {call : SaveCall} {r : SaveRequest} {replaces : Bool}
    {existing : Option MemoryStoreEntry} {entry : MemoryStoreEntry}
    (h : savedEntry env call r replaces existing = .ok entry) :
    entry.title = r.title ∧
      ((replaces = true ∨ existing = none) ∧ entry = newEntry call r ∨
        ∃ x, existing = some x ∧ replaces = false ∧ entry.id = x.id ∧
          entry.memoryNamespace = x.memoryNamespace) := by
  unfold savedEntry at h
  split at h
  · next x =>
    obtain ⟨tags, -, h⟩ := exists_of_bind_ok h
    cases h
    exact ⟨rfl, Or.inr ⟨x, rfl, rfl, rfl, rfl⟩⟩
  · next hcase =>
    cases h
    refine ⟨rfl, Or.inl ⟨?_, rfl⟩⟩
    cases replaces with
    | true => exact Or.inl rfl
    | false =>
      cases existing with
      | none => exact Or.inr rfl
      | some x => exact absurd rfl (hcase x rfl)

/-- The saved entry has a title of its own among the entries that stay. -/
theorem saved_title_unique (h : TitlesUnique env.rt entries) {call : SaveCall} {r : SaveRequest}
    {entry : MemoryStoreEntry} (hok : r.ReplacesTitle env entries)
    (hentry : savedEntry env call r (r.replaces env entries) (r.existing env entries) = .ok entry)
    {e : MemoryStoreEntry} (he : e ∈ entries) (hreplaced : e.id ∉ r.replacedIds env entries)
    (hid : e.id ≠ entry.id) : ¬ SameTitle env.rt e entry := by
  rintro ⟨hspace, hkey, hne⟩
  obtain ⟨htitle, hnew | ⟨x, hx, hreplaces, hxid, hxspace⟩⟩ := savedEntry_title hentry
  · obtain ⟨hcause, rfl⟩ := hnew
    rw [htitle] at hkey
    rcases hcause with hreplaces | hnone
    · refine hreplaced ?_
      rw [SaveRequest.replacedIds, if_pos hreplaces]
      exact hok hreplaces e he hspace hkey hne
    · obtain ⟨x, -, hpick, -⟩ := pickStoreEntryForUpsert_title r.content
        (mem_inNamespace.mpr ⟨he, hspace⟩) hkey hne
      rw [SaveRequest.existing] at hnone
      rw [show (newEntry call r).memoryNamespace = r.memoryNamespace from rfl, hnone] at hpick
      cases hpick
  · obtain ⟨hxmem, hxr⟩ := mem_inNamespace.mp (pickStoreEntryForUpsert_mem hx)
    rw [htitle] at hkey
    obtain ⟨y, hy, hpick, hykey⟩ := pickStoreEntryForUpsert_title r.content
      (mem_inNamespace.mpr ⟨he, hspace.trans (hxspace.trans hxr)⟩) hkey hne
    rw [SaveRequest.existing, hpick] at hx
    obtain rfl := Option.some.inj hx
    have heq : e = y := h.eq_of_sameTitle he hxmem
      ⟨hspace.trans hxspace, hkey.trans hykey.symm, hne⟩
    exact hid (heq ▸ hxid.symm)

theorem titlesUnique_effect (h : TitlesUnique env.rt entries) {call : StoreCall}
    {after : List MemoryStoreEntry}
    (hok : ∀ c r, call = .save c → checkRequest env c.params = .ok r → r.ReplacesTitle env entries)
    (heffect : StoreEffect env entries call after) : TitlesUnique env.rt after := by
  cases heffect with
  | removes call after hsub => exact List.Pairwise.sublist hsub h
  | touches call x y hx hy =>
    refine TitlesUnique.snoc (List.Pairwise.sublist List.filter_sublist h) ?_
    rintro e he ⟨hspace, hkey, hne⟩
    obtain ⟨hmem, hid⟩ := List.mem_filter.mp he
    rw [hy.memoryNamespace] at hspace
    rw [hy.title] at hkey
    have heq : e = x := h.eq_of_sameTitle hmem hx ⟨hspace, hkey, hne⟩
    exact of_decide_eq_true hid (congrArg MemoryStoreEntry.id heq)
  | saves call r entry after hr hentry hafter =>
    refine List.Pairwise.sublist hafter
      (TitlesUnique.snoc (List.Pairwise.sublist List.filter_sublist h) ?_)
    intro e he
    obtain ⟨hmem, hcond⟩ := List.mem_filter.mp he
    obtain ⟨hreplaced, hid⟩ := of_decide_eq_true hcond
    exact saved_title_unique h (hok call r rfl hr) hentry hmem hreplaced hid

end Step

/-- In a run from an empty store whose replacing saves take out the entry with their title, no
title of a namespace has two entries. -/
theorem titles_stay_unique (env : ReadEnv) (calls : List StoreCall)
    (h : Allowed (storeStep env) (ReplacesTitle env) none calls) :
    TitlesUnique env.rt
      (loadStoreEntries env.toStore (some .posInf) (run (storeStep env) none calls)) := by
  have hrun := @EventRun.run_keeps _ _ (storeStep env) (ReplacesTitle env)
    (fun file => LineEnded file ∧
      TitlesUnique env.rt (loadStoreEntries env.toStore (some .posInf) file))
    (fun file call hok ⟨hended, hunique⟩ => by
      obtain ⟨hended', heffect⟩ := @storeStep_steps env file call hended
      refine ⟨hended', titlesUnique_effect hunique ?_ heffect⟩
      rintro c r rfl hr
      exact hok r hr)
    none calls h ⟨by rintro raw ⟨⟩, List.Pairwise.nil⟩
  exact hrun.2

section Example

/-- Where only the last entry contradicts a save, it is the one to replace. -/
theorem conflictIds_last {json : Js.Json} {room : Nat} {r : SaveRequest}
    {before : List MemoryStoreEntry} {e : MemoryStoreEntry}
    (hspace : ∀ x ∈ before ++ [e], x.memoryNamespace = r.memoryNamespace)
    (hbefore : ∀ x ∈ before, (conflictHint Js.asciiRuntime roundedTo3 r.title r.content x).isNone)
    (he : (conflictHint Js.asciiRuntime roundedTo3 r.title r.content e).map (·.id) = some e.id) :
    r.conflictIds (roomyEnv json room).toSaveEnv (before ++ [e]) = [e.id] := by
  obtain ⟨hint, hhint, hid⟩ := Option.map_eq_some_iff.mp he
  have hscoped : inNamespace r.memoryNamespace (before ++ [e]) = before ++ [e] :=
    List.filter_eq_self.mpr fun x hx => decide_eq_true (hspace x hx)
  have hnone : before.filterMap (conflictHint Js.asciiRuntime roundedTo3 r.title r.content) = [] :=
    List.filterMap_eq_nil_iff.mpr fun x hx => Option.isNone_iff_eq_none.mp (hbefore x hx)
  have hfound : findPotentialConflicts Js.asciiRuntime roundedTo3 (before ++ [e]) r.title
      r.content = [hint] := by
    rw [findPotentialConflicts, List.filterMap_append, hnone]
    simp [hhint]
  have hids : r.conflictIds (roomyEnv json room).toSaveEnv (before ++ [e]) =
      ((findPotentialConflicts Js.asciiRuntime roundedTo3
        (inNamespace r.memoryNamespace (before ++ [e])) r.title r.content).map (·.id)).dedup := rfl
  rw [hids, hscoped, hfound, ← hid]
  simp

/-- The editor, and a change of mind about it. -/
def vimCall : SaveCall :=
  saves "00000000-0000-4000-8000-00000000000a" firstUuid_trimmed
    [("title", .str "Editor"), ("content", .str "Prefers vim.")]

def emacsCall : SaveCall :=
  saves "00000000-0000-4000-8000-00000000000b" secondUuid_trimmed
    [("title", .str "Editor"), ("content", .str "Prefers emacs."), ("onConflict", .str "replace")]

def vimRequest : SaveRequest :=
  ⟨"Editor", "Prefers vim.", [], 3, DEFAULT_CONFIDENCE, "user", "global", .verified, .upsert⟩

def emacsRequest : SaveRequest :=
  ⟨"Editor", "Prefers emacs.", [], 3, DEFAULT_CONFIDENCE, "user", "global", .verified, .replace⟩

theorem vimCall_request (json : Js.Json) (room : Nat) :
    checkRequest (roomyEnv json room).toSaveEnv vimCall.params = .ok vimRequest :=
  @checkRequest_of _ _ vimRequest .upsert rfl (by decide) (by decide)
    (containsLikelySecret_of_not_spelled (by decide))

theorem emacsCall_request (json : Js.Json) (room : Nat) :
    checkRequest (roomyEnv json room).toSaveEnv emacsCall.params = .ok emacsRequest :=
  @checkRequest_of _ _ emacsRequest .replace rfl (by decide) (by decide) (by decide)

theorem titles_stay_unique_replaced :
    ∃ json room, Allowed (storeStep (roomyEnv json room)) (ReplacesTitle (roomyEnv json room)) none
        [.save vimCall, .save emacsCall] ∧
      TitlesUnique (roomyEnv json room).rt (loadStoreEntries (roomyEnv json room).toStore
        (some .posInf) (run (storeStep (roomyEnv json room)) none
          [.save vimCall, .save emacsCall])) := by
  obtain ⟨json⟩ := Js.json_nonempty
  refine ⟨json, lineBytes json (newEntry vimCall vimRequest), ?_⟩
  generalize hroom : lineBytes json (newEntry vimCall vimRequest) = room
  have hloaded := @loaded_new_save json room none vimCall _ [] (by rintro raw ⟨⟩)
    (vimCall_request json room) rfl (pickStoreEntryForUpsert_nil _ _ _) rfl (by simp) (by simp)
    (by simpa using hroom.le)
  have hconflict : emacsRequest.conflictIds (roomyEnv json room).toSaveEnv
      ([] ++ [newEntry vimCall vimRequest]) = [(newEntry vimCall vimRequest).id] :=
    conflictIds_last (by decide) (by simp) (by decide +kernel)
  have hallowed : Allowed (storeStep (roomyEnv json room)) (ReplacesTitle (roomyEnv json room)) none
      [.save vimCall, .save emacsCall] := by
    refine ⟨?_, ?_, trivial⟩
    · intro r hr hreplaces
      rintro e ⟨⟩
    · intro r hr hreplaces e he _ _ _
      obtain rfl := Except.ok.inj ((emacsCall_request json room).symm.trans hr)
      rw [hloaded] at he ⊢
      obtain rfl := List.mem_singleton.mp he
      rw [hconflict]
      exact List.mem_singleton_self _
  exact ⟨hallowed, titles_stay_unique _ _ hallowed⟩

/-- A plan, an order under another title, and a save that repeats the plan and contradicts the
order. -/
def planCall : SaveCall :=
  saves "00000000-0000-4000-8000-00000000000a" firstUuid_trimmed
    [("title", .str "Q1"), ("content", .str "Ink.")]

def orderCall : SaveCall :=
  saves "00000000-0000-4000-8000-00000000000b" secondUuid_trimmed
    [("title", .str "Q2"), ("content", .str "Red dark ink.")]

def secondPlanCall : SaveCall :=
  saves "00000000-0000-4000-8000-00000000000c" thirdUuid_trimmed
    [("title", .str "Q1"), ("content", .str "Avoid dark red ink."), ("onConflict", .str "replace")]

def planRequest : SaveRequest :=
  ⟨"Q1", "Ink.", [], 3, DEFAULT_CONFIDENCE, "user", "global", .verified, .upsert⟩

def orderRequest : SaveRequest :=
  ⟨"Q2", "Red dark ink.", [], 3, DEFAULT_CONFIDENCE, "user", "global", .verified, .upsert⟩

def secondPlanRequest : SaveRequest :=
  ⟨"Q1", "Avoid dark red ink.", [], 3, DEFAULT_CONFIDENCE, "user", "global", .verified, .replace⟩

def plan : MemoryStoreEntry := newEntry planCall planRequest
def order : MemoryStoreEntry := newEntry orderCall orderRequest
def secondPlan : MemoryStoreEntry := newEntry secondPlanCall secondPlanRequest

theorem planCall_request (json : Js.Json) (room : Nat) :
    checkRequest (roomyEnv json room).toSaveEnv planCall.params = .ok planRequest :=
  @checkRequest_of _ _ planRequest .upsert rfl (by decide) (by decide)
    (containsLikelySecret_of_not_spelled (by decide))

theorem orderCall_request (json : Js.Json) (room : Nat) :
    checkRequest (roomyEnv json room).toSaveEnv orderCall.params = .ok orderRequest :=
  @checkRequest_of _ _ orderRequest .upsert rfl (by decide) (by decide)
    (containsLikelySecret_of_not_spelled (by decide))

theorem secondPlanCall_request (json : Js.Json) (room : Nat) :
    checkRequest (roomyEnv json room).toSaveEnv secondPlanCall.params = .ok secondPlanRequest :=
  @checkRequest_of _ _ secondPlanRequest .replace rfl (by decide) (by decide)
    (containsLikelySecret_of_not_spelled (by decide))

/-- The order is not taken for an update of the plan. -/
theorem loaded_order (json : Js.Json) (room : Nat)
    (hroom : lineBytes json plan + lineBytes json order ≤ room) :
    loadStoreEntries (roomyEnv json room).toStore (some .posInf)
      (storeStep (roomyEnv json room) (storeStep (roomyEnv json room) none (.save planCall))
        (.save orderCall)) = [plan, order] := by
  have hstart : LineEnded none := by rintro raw ⟨⟩
  have hended := (@storeStep_steps (roomyEnv json room) none (.save planCall) hstart).1
  have hroom1 : (([] ++ [plan]).map (lineBytes json)).sum ≤ room := by
    simp
    omega
  have hroom2 : (([] ++ [plan] ++ [order]).map (lineBytes json)).sum ≤ room := by
    simpa using hroom
  have hfirst := @loaded_new_save json room none planCall _ [] hstart (planCall_request json room)
    rfl (pickStoreEntryForUpsert_nil _ _ _) rfl (by simp) (by simp) hroom1
  have hpick : pickStoreEntryForUpsert Js.asciiRuntime (inNamespace orderRequest.memoryNamespace
      ([] ++ [plan])) orderRequest.title orderRequest.content = none := by
    decide +kernel
  have hfresh : ∀ e ∈ ([] ++ [plan] : List MemoryStoreEntry), e.id ≠ orderCall.uuid := by
    decide
  exact loaded_new_save hended (orderCall_request json room) hfirst hpick rfl hfresh (by simp)
    hroom2

/-- The order is deleted, and the plan stays next to the new entry of its title. -/
theorem loaded_secondPlan (json : Js.Json) (room : Nat)
    (hroom : lineBytes json plan + lineBytes json order + lineBytes json secondPlan ≤ room) :
    loadStoreEntries (roomyEnv json room).toStore (some .posInf)
      (run (storeStep (roomyEnv json room)) none
        [.save planCall, .save orderCall, .save secondPlanCall]) = [plan, secondPlan] := by
  have hended := fun (file : Option String) (call : StoreCall) (h : LineEnded file) =>
    (@storeStep_steps (roomyEnv json room) file call h).1
  have hroom3 : ([plan, secondPlan].map (lineBytes json)).sum ≤ room := by
    simp
    omega
  have hconflict : secondPlanRequest.conflictIds (roomyEnv json room).toSaveEnv
      ([plan] ++ [order]) = [order.id] :=
    conflictIds_last (by decide) (by decide) (by decide +kernel)
  have hafter : [plan, order].filter (fun e => e.id ∉ [order.id] ∧
      e.id ≠ secondPlanCall.uuid) ++ [secondPlan] = [plan, secondPlan] := by
    decide +kernel
  exact loaded_replacing_save (hended _ _ (hended _ _ (by rintro raw ⟨⟩)))
    (secondPlanCall_request json room) (loaded_order json room (by omega)) hconflict rfl
    rfl [plan, secondPlan] hafter (by simp) hroom3

theorem replace_keeps_old_title :
    ∃ json room, ¬ TitlesUnique (roomyEnv json room).rt
      (loadStoreEntries (roomyEnv json room).toStore (some .posInf)
        (run (storeStep (roomyEnv json room)) none
          [.save planCall, .save orderCall, .save secondPlanCall])) := by
  obtain ⟨json⟩ := Js.json_nonempty
  refine ⟨json, lineBytes json plan + lineBytes json order + lineBytes json secondPlan, ?_⟩
  intro hunique
  rw [loaded_secondPlan json _ le_rfl] at hunique
  have htitle : SameTitle Js.asciiRuntime plan secondPlan := ⟨rfl, rfl, by decide⟩
  have hsame : plan = secondPlan := hunique.eq_of_sameTitle (by simp) (by simp) htitle
  exact absurd (congrArg MemoryStoreEntry.id hsame) (by decide)

end Example

end T560.Memory
