import Mathlib.Data.List.Dedup
import T560.Foundation.GrowingTable
import T560.Transcript.Pairing
import T560.Transcript.UniqueId

/-!
# Renaming the ids of a transcript

What the sanitizer makes of a transcript is a renaming: a function of the ids alone, applied
wherever an id stands.
-/

namespace T560.Transcript

open Js (Value)

section Rename
variable (rename : String → String)

def renameBlock (block : Value) : Value :=
  match toolCallOfBlock block with
  | some call =>
    if rename call.id = call.id then block else block.set "id" (.str (rename call.id))
  | none => block

def renameCalls (message : Message) : Message :=
  match contentBlocks message with
  | some blocks =>
    if blocks.map (renameBlock rename) = blocks then message
    else message.set "content" (.arr (blocks.map (renameBlock rename)))
  | none => message

def renameResult (message : Message) : Message :=
  let toolCallId := nonEmptyText (message.get? "toolCallId")
  let toolUseId := nonEmptyText (message.get? "toolUseId")
  if toolCallId.map rename = toolCallId ∧ toolUseId.map rename = toolUseId then message
  else spreadId (spreadId message "toolCallId" (toolCallId.map rename)) "toolUseId"
    (toolUseId.map rename)

/-- The message with its call ids renamed, and everything else as it is. -/
def renameIds (message : Message) : Message :=
  if isAssistant message then renameCalls rename message
  else if isToolResult message then renameResult rename message
  else message

end Rename

/-- The ids a message names: those of its calls, or those of the call it answers. -/
def idsOf (message : Message) : List String :=
  if isAssistant message then callIds message
  else if isToolResult message then
    (nonEmptyText (message.get? "toolCallId")).toList ++
      (nonEmptyText (message.get? "toolUseId")).toList
  else []

def transcriptIds (ms : List Message) : List String := ms.flatMap idsOf

section Follow
variable {T : GrowingTable IdTable String String} {resolve : String → StateM IdTable String}

theorem rewriteBlock_follows (block : Value)
    (h : ∀ call ∈ toolCallOfBlock block, T.Follows [call.id] (resolve call.id) fun f => f call.id) :
    T.Follows ((toolCallOfBlock block).toList.map (·.id)) (rewriteBlock resolve block)
      fun f => renameBlock f block := by
  unfold rewriteBlock renameBlock
  cases hc : toolCallOfBlock block with
  | none => exact .pure block
  | some call =>
    exact (h call hc).map fun nextId =>
      if nextId = call.id then block else block.set "id" (.str nextId)

theorem callIds_eq_flatMap {message : Message} {blocks : List Value}
    (h : contentBlocks message = some blocks) :
    callIds message = blocks.flatMap fun b => (toolCallOfBlock b).toList.map (·.id) := by
  have hcalls : extractToolCallsFromAssistant message = blocks.filterMap toolCallOfBlock := by
    rw [extractToolCallsFromAssistant, h]
  rw [callIds, hcalls]
  clear h hcalls
  induction blocks with
  | nil => rfl
  | cons b blocks ih => cases hb : toolCallOfBlock b <;> simp [hb, List.flatMap_cons, ih]

theorem rewriteAssistant_follows {message : Message}
    (h : ∀ id ∈ callIds message, T.Follows [id] (resolve id) fun f => f id) :
    T.Follows (callIds message) (rewriteAssistantToolCallIds resolve message)
      fun f => renameCalls f message := by
  unfold rewriteAssistantToolCallIds renameCalls
  cases hc : contentBlocks message with
  | none =>
    have hnone : callIds message = [] := by
      simp [callIds, extractToolCallsFromAssistant, hc]
    rw [hnone]
    exact .pure message
  | some blocks =>
    have hids := callIds_eq_flatMap hc
    rw [hids] at h ⊢
    refine (GrowingTable.Follows.mapM fun b hb => rewriteBlock_follows b fun call hcall => ?_).map
      fun next => if next = blocks then message else message.set "content" (.arr next)
    exact h call.id (List.mem_flatMap.mpr ⟨b, hb, by simp [Option.mem_def.mp hcall]⟩)

theorem rewriteResult_follows {message : Message}
    (h : ∀ id ∈ (nonEmptyText (message.get? "toolCallId")).toList ++
      (nonEmptyText (message.get? "toolUseId")).toList,
        T.Follows [id] (resolve id) fun f => f id) :
    T.Follows ((nonEmptyText (message.get? "toolCallId")).toList ++
        (nonEmptyText (message.get? "toolUseId")).toList)
      (rewriteToolResultIds resolve message) fun f => renameResult f message := by
  unfold rewriteToolResultIds renameResult
  generalize nonEmptyText (message.get? "toolCallId") = callId at h ⊢
  generalize nonEmptyText (message.get? "toolUseId") = useId at h ⊢
  have hcall := GrowingTable.Follows.mapM_option (T := T) (k := callId) (x := resolve)
    (y := fun f id => f id) fun id hid => h id (by simp [Option.mem_def.mp hid])
  have huse := GrowingTable.Follows.mapM_option (T := T) (k := useId) (x := resolve)
    (y := fun f id => f id) fun id hid => h id (by simp [Option.mem_def.mp hid])
  exact hcall.bind fun nextCallId => huse.map fun nextUseId =>
    if nextCallId = callId ∧ nextUseId = useId then message
    else spreadId (spreadId message "toolCallId" nextCallId) "toolUseId" nextUseId

theorem rewriteMessage_follows {message : Message}
    (h : ∀ id ∈ idsOf message, T.Follows [id] (resolve id) fun f => f id) :
    T.Follows (idsOf message) (rewriteMessage resolve message) fun f => renameIds f message := by
  unfold rewriteMessage renameIds
  unfold idsOf at h ⊢
  split_ifs at h ⊢
  · exact rewriteAssistant_follows h
  · exact rewriteResult_follows h
  · exact .pure message

end Follow

/-- The table of a sanitizer that meets only the given ids. -/
structure IdTable.Good (ids : List String) (table : IdTable) : Prop where
  used_iff : ∀ v, v ∈ table.used ↔ ∃ k, table.map.get k = some v
  size : table.used.length = table.map.entries.length
  known : ∀ k v, table.map.get k = some v → k ∈ ids
  strict : ∀ k v, table.map.get k = some v → IsStrictId v
  injective : ∀ k l v, table.map.get k = some v → table.map.get l = some v → k = l
  stable : (∀ k ∈ ids, IsStrictId k) → ∀ k v, table.map.get k = some v → v = k

def idTables (ids : List String) : GrowingTable IdTable String String where
  reads table k := table.map.get k
  Inv := IdTable.Good ids

theorem IdTable.good_empty (ids : List String) : IdTable.Good ids {} := by
  have hnone : ∀ k v, ({} : IdTable).map.get k = some v → False := by
    intro k v h
    cases h
  refine ⟨fun v => ⟨fun h => (by cases h), ?_⟩, rfl, fun k v h => (hnone k v h).elim,
    fun k v h => (hnone k v h).elim, fun k l v h => (hnone k v h).elim,
    fun _ k v h => (hnone k v h).elim⟩
  rintro ⟨k, h⟩
  exact (hnone k v h).elim

section Table
variable {ids : List String} {id : String} {table : IdTable}

theorem IdTable.Good.used_lt (h : table.Good ids) (hid : id ∈ ids)
    (hnew : table.map.get id = none) : table.used.length < ids.dedup.length := by
  have hnot : id ∉ table.map.entries.map Prod.fst := by
    intro hin
    obtain ⟨⟨k, v⟩, hmem, rfl⟩ := List.mem_map.mp hin
    rw [InsertionMap.get_eq_some_iff.mpr hmem] at hnew
    cases hnew
  have hsub : id :: table.map.entries.map Prod.fst ⊆ ids.dedup := by
    intro k hk
    rw [List.mem_dedup]
    rcases List.mem_cons.mp hk with rfl | hk
    · exact hid
    · obtain ⟨⟨l, v⟩, hmem, rfl⟩ := List.mem_map.mp hk
      exact h.known l v (InsertionMap.get_eq_some_iff.mpr hmem)
  have hle := (List.subperm_of_subset (List.nodup_cons.mpr ⟨hnot, table.map.nodup⟩) hsub).length_le
  rw [List.length_cons, List.length_map] at hle
  rw [h.size]
  omega

theorem IdTable.Good.assign (h : table.Good ids) (hid : id ∈ ids)
    (hnew : table.map.get id = none) {next : String} (hfree : next ∉ table.used)
    (hstrict : IsStrictId next) (hkept : IsStrictId id → id ∉ table.used → next = id) :
    IdTable.Good ids { map := table.map.set id next, used := table.used ++ [next] } := by
  have hget : ∀ k v, (table.map.set id next).get k = some v ↔
      if k = id then v = next else table.map.get k = some v :=
    fun k v => InsertionMap.get_set_eq_some_iff
  have hlen : (table.map.set id next).entries.length = table.map.entries.length + 1 := by
    have hnot : id ∉ table.map.entries.map Prod.fst := by
      intro hin
      obtain ⟨⟨k, v⟩, hmem, rfl⟩ := List.mem_map.mp hin
      rw [InsertionMap.get_eq_some_iff.mpr hmem] at hnew
      cases hnew
    simp [InsertionMap.set, InsertionMap.setEntries, hnot]
  refine ⟨fun v => ?_, ?_, fun k v hk => ?_, fun k v hk => ?_, fun k l v hk hl => ?_,
    fun hall k v hk => ?_⟩
  · simp only [List.mem_append, List.mem_singleton, h.used_iff]
    constructor
    · rintro (⟨k, hk⟩ | rfl)
      · have hne : k ≠ id := by
          rintro rfl
          rw [hnew] at hk
          cases hk
        exact ⟨k, (hget k v).mpr (by rwa [if_neg hne])⟩
      · exact ⟨id, (hget id v).mpr (by rw [if_pos rfl])⟩
    · rintro ⟨k, hk⟩
      have hcases := (hget k v).mp hk
      split_ifs at hcases with he
      · exact .inr hcases
      · exact .inl ⟨k, hcases⟩
  · simp [h.size, hlen]
  · rw [hget] at hk
    split_ifs at hk with he
    · exact he ▸ hid
    · exact h.known k v hk
  · rw [hget] at hk
    split_ifs at hk
    · exact hk ▸ hstrict
    · exact h.strict k v hk
  · -- The new value is in no older entry.
    have hold : ∀ x, table.map.get x = some v → v = next → False := by
      intro x hx hv
      exact hfree ((h.used_iff next).mpr ⟨x, hv ▸ hx⟩)
    rw [hget] at hk hl
    split_ifs at hk hl with h1 h2 h2
    · rw [h1, h2]
    · exact (hold l hl hk).elim
    · exact (hold k hk hl).elim
    · exact h.injective k l v hk hl
  · rw [hget] at hk
    split_ifs at hk with he
    · subst he
      rw [hk]
      refine hkept (hall k hid) fun hin => ?_
      obtain ⟨l, hl⟩ := (h.used_iff k).mp hin
      have := h.stable hall l k hl
      rw [this, hl] at hnew
      cases hnew
    · exact h.stable hall k v hk

theorem resolve_follows (env : IdEnv) (hfew : ids.dedup.length ≤ 900) (hid : id ∈ ids) :
    (idTables ids).Follows [id] (resolve env .strict id) fun f => f id := by
  intro table h
  have hgood : table.Good ids := h
  cases hget : table.map.get id with
  | some existing =>
    have hrun : (resolve env .strict id).run table = (existing, table) := by
      have hne := (hgood.strict id existing hget).nonempty
      have hkeep : (some existing).filter (· ≠ "") = some existing := by
        rw [Option.filter_eq_some_iff]
        exact ⟨rfl, by simpa using hne⟩
      simp only [resolve, StateT.run, hget, hkeep]
    rw [hrun]
    refine ⟨h, .refl table, fun k hk => ⟨existing, ?_⟩, fun f hf => (hf id existing hget).symm⟩
    rw [List.mem_singleton.mp hk]
    exact hget
  | none =>
    obtain ⟨hfree, hstrict⟩ := makeUniqueToolCallId_strict env id
      (Nat.lt_of_lt_of_le (hgood.used_lt hid hget) (by omega) : table.used.length < 998)
    have hkept := @makeUniqueToolCallId_of_strict id table.used env
    have hrun : (resolve env .strict id).run table =
        (makeUniqueToolCallId env id table.used .strict,
          { map := table.map.set id (makeUniqueToolCallId env id table.used .strict)
            used := table.used ++ [makeUniqueToolCallId env id table.used .strict] }) := by
      simp [resolve, StateT.run, hget]
    rw [hrun]
    generalize makeUniqueToolCallId env id table.used .strict = next at hfree hstrict hkept
    have hnew : (table.map.set id next).get id = some next :=
      InsertionMap.get_set_eq_some_iff.mpr (by rw [if_pos rfl])
    refine ⟨hgood.assign hid hget hfree hstrict hkept, fun k v hk => ?_, fun k hk => ⟨next, ?_⟩,
      fun f hf => (hf id next hnew).symm⟩
    · have hne : k ≠ id := by
        rintro rfl
        rw [show table.map.get k = some v from hk] at hget
        cases hget
      exact InsertionMap.get_set_eq_some_iff.mpr (by rwa [if_neg hne])
    · rw [List.mem_singleton.mp hk]
      exact hnew

end Table

section Reads
variable {rename : String → String} {message : Message}

theorem get?_spreadId {v : Value} {key other : String} {next : Option String}
    (h : v.isRecord = true) (hne : ∀ id ∈ next, id ≠ "") :
    (spreadId v key next).get? other =
      if other = key ∧ next.isSome then next.map .str else v.get? other := by
  cases next with
  | none => simp [spreadId]
  | some id => simp [spreadId, hne id rfl, Value.get?_set h]

theorem isRecord_spreadId {v : Value} {key : String} {next : Option String}
    (h : v.isRecord = true) : (spreadId v key next).isRecord = true := by
  cases next with
  | none => exact h
  | some id =>
    rw [spreadId]
    split_ifs
    · exact h
    · exact Value.isRecord_set h key _

theorem nonEmptyText_ne_empty {x : Option Value} {id : String} (h : nonEmptyText x = some id) :
    x = some (.str id) ∧ id ≠ "" := by
  unfold nonEmptyText at h
  split at h
  · split_ifs at h with hs
    obtain rfl := Option.some.inj h
    exact ⟨rfl, hs⟩
  · cases h

/-- A renamed result has the renamed ids in the two places for them, and the rest as it was. -/
theorem get?_renameResult (hrename : ∀ id, rename id ≠ "") (key : String) :
    (renameResult rename message).get? key =
      if key = "toolCallId" ∨ key = "toolUseId" then
        ((nonEmptyText (message.get? key)).map fun id => Value.str (rename id)).or
          (message.get? key)
      else message.get? key := by
  have hsome : ∀ x : Option String, ∀ id ∈ x.map rename, id ≠ "" := by
    intro x id hid
    obtain ⟨old, -, rfl⟩ := Option.map_eq_some_iff.mp hid
    exact hrename old
  simp only [renameResult]
  by_cases hkept : (nonEmptyText (message.get? "toolCallId")).map rename =
      nonEmptyText (message.get? "toolCallId") ∧
    (nonEmptyText (message.get? "toolUseId")).map rename = nonEmptyText (message.get? "toolUseId")
  · -- Both ids stay, so that the message was not written anew.
    rw [if_pos hkept]
    split_ifs with hkey
    · cases hid : nonEmptyText (message.get? key) with
      | none => rfl
      | some id =>
        have hfix : rename id = id := by
          rcases hkey with rfl | rfl
          · simpa [hid] using hkept.1
          · simpa [hid] using hkept.2
        rw [Option.map_some, hfix, (nonEmptyText_ne_empty hid).1]
        rfl
    · rfl
  · have hrecord : message.isRecord = true := by
      by_contra hr
      have hnone : ∀ k, message.get? k = none := fun k => Value.get?_of_not_record hr k
      exact hkept (by simp [hnone, nonEmptyText])
    rw [if_neg hkept, get?_spreadId (isRecord_spreadId hrecord) (hsome _),
      get?_spreadId hrecord (hsome _)]
    by_cases huse : key = "toolUseId"
    · subst huse
      cases hid : nonEmptyText (message.get? "toolUseId") <;> simp
    · by_cases hcall : key = "toolCallId"
      · subst hcall
        cases hid : nonEmptyText (message.get? "toolCallId") <;> simp
      · simp [huse, hcall]

theorem nonEmptyText_rename (hrename : ∀ id, rename id ≠ "") (x : Option Value) :
    nonEmptyText (((nonEmptyText x).map fun id => Value.str (rename id)).or x) =
      (nonEmptyText x).map rename := by
  cases hid : nonEmptyText x with
  | none => simpa using hid
  | some id => simp [nonEmptyText, hrename id]

/-- The calls of a block with its id renamed. -/
theorem toolCallOfBlock_renameBlock (hrename : ∀ id, rename id ≠ "") (block : Value) :
    (toolCallOfBlock (renameBlock rename block)).map (·.id) =
      (toolCallOfBlock block).map fun call => rename call.id := by
  unfold renameBlock
  cases hc : toolCallOfBlock block with
  | none => simp [hc]
  | some call =>
    by_cases hfix : rename call.id = call.id
    · simp [hfix, hc]
    · simp only [if_neg hfix]
      unfold toolCallOfBlock at hc
      split at hc
      · next id hid =>
        split_ifs at hc with hcond
        obtain rfl := Option.some.inj hc
        have hrecord := Value.isRecord_of_get? hid
        simp only [Bool.and_eq_true, decide_eq_true_eq] at hcond
        have htype : isToolCallType (block.set "id" (.str (rename id))) = true := by
          rw [isToolCallType, Value.get?_set hrecord, if_neg (by decide)]
          exact hcond.2
        simp [toolCallOfBlock, Value.get?_set hrecord, htype, hrename]
      · cases hc

theorem callIds_of_contentBlocks {blocks : List Value}
    (h : contentBlocks message = some blocks) :
    callIds message = blocks.filterMap fun b => (toolCallOfBlock b).map (·.id) := by
  rw [callIds, extractToolCallsFromAssistant, h, ← List.map_filterMap]

theorem contentBlocks_renameCalls :
    contentBlocks (renameCalls rename message) =
      (contentBlocks message).map fun blocks => blocks.map (renameBlock rename) := by
  unfold renameCalls
  cases hc : contentBlocks message with
  | none => exact hc
  | some blocks =>
    by_cases hfix : blocks.map (renameBlock rename) = blocks
    · simp only [if_pos hfix, hc, Option.map_some]
      rw [hfix]
    · simp only [if_neg hfix, Option.map_some]
      exact contentBlocks_set (isRecord_of_contentBlocks hc) _

theorem get?_renameCalls {key : String} (h : key ≠ "content") :
    (renameCalls rename message).get? key = message.get? key := by
  unfold renameCalls
  cases hc : contentBlocks message with
  | none => rfl
  | some blocks =>
    by_cases hfix : blocks.map (renameBlock rename) = blocks
    · simp only [if_pos hfix]
    · simp only [if_neg hfix]
      rw [Value.get?_set (isRecord_of_contentBlocks hc), if_neg h]

theorem callIds_renameCalls (hrename : ∀ id, rename id ≠ "") :
    callIds (renameCalls rename message) = (callIds message).map rename := by
  have hblocks := @contentBlocks_renameCalls rename message
  cases hc : contentBlocks message with
  | none =>
    rw [hc] at hblocks
    simp [callIds, extractToolCallsFromAssistant, hc, hblocks]
  | some blocks =>
    rw [hc] at hblocks
    rw [callIds_of_contentBlocks hblocks, callIds_of_contentBlocks hc, List.filterMap_map,
      List.map_filterMap]
    apply List.filterMap_congr
    intro b _
    rw [Function.comp_apply, toolCallOfBlock_renameBlock hrename, Option.map_map]
    rfl

theorem get?_role_renameIds (hrename : ∀ id, rename id ≠ "") :
    (renameIds rename message).get? "role" = message.get? "role" := by
  unfold renameIds
  split_ifs
  · exact get?_renameCalls (by decide)
  · rw [get?_renameResult hrename, if_neg (by decide)]
  · rfl

theorem isRole_eq (message : Message) (role : String) :
    isRole message role = (message.get? "role" == some (.str role)) := by
  cases message <;> simp [isRole, Value.isObject, Value.get?]

theorem isRole_renameIds (hrename : ∀ id, rename id ≠ "") (role : String) :
    isRole (renameIds rename message) role = isRole message role := by
  rw [isRole_eq, isRole_eq, get?_role_renameIds hrename]

/-- The ids of a renamed message are the renamed ids, in their order. -/
theorem idsOf_renameIds (hrename : ∀ id, rename id ≠ "") :
    idsOf (renameIds rename message) = (idsOf message).map rename := by
  unfold idsOf
  rw [isAssistant, isAssistant, isToolResult, isToolResult, isRole_renameIds hrename,
    isRole_renameIds hrename]
  unfold renameIds
  split_ifs
  · exact callIds_renameCalls hrename
  · rw [get?_renameResult hrename, get?_renameResult hrename, if_pos (by decide),
      if_pos (by decide), nonEmptyText_rename hrename, nonEmptyText_rename hrename,
      List.map_append]
    cases nonEmptyText (message.get? "toolCallId") <;>
      cases nonEmptyText (message.get? "toolUseId") <;> rfl
  · rfl

theorem extractToolResultId_renameIds (hrename : ∀ id, rename id ≠ "")
    (h : isToolResult message = true) :
    extractToolResultId (renameIds rename message) =
      (extractToolResultId message).map rename := by
  have ha : isAssistant message = false := by
    by_contra hassistant
    rw [not_toolResult_of_assistant (by simpa using hassistant)] at h
    cases h
  simp only [renameIds, ha, h, Bool.false_eq_true, if_false, if_true]
  unfold extractToolResultId
  rw [get?_renameResult hrename, get?_renameResult hrename, if_pos (by decide),
    if_pos (by decide), nonEmptyText_rename hrename, nonEmptyText_rename hrename]
  cases nonEmptyText (message.get? "toolCallId") <;> rfl

/-- A renaming that keeps the ids of a message keeps the message. -/
theorem renameIds_eq_self (h : ∀ id ∈ idsOf message, rename id = id) :
    renameIds rename message = message := by
  unfold renameIds
  unfold idsOf at h
  split_ifs at h ⊢
  · unfold renameCalls
    cases hc : contentBlocks message with
    | none => rfl
    | some blocks =>
      have hfix : blocks.map (renameBlock rename) = blocks := by
        refine (List.map_congr_left fun b hb => ?_).trans (List.map_id blocks)
        unfold renameBlock
        cases hcall : toolCallOfBlock b with
        | none => rfl
        | some call =>
          have hid : call.id ∈ callIds message := by
            rw [callIds_of_contentBlocks hc]
            exact List.mem_filterMap.mpr ⟨b, hb, by simp [hcall]⟩
          simp [h call.id hid]
      simp [hfix]
  · simp only [List.mem_append, Option.mem_toList] at h
    have hfix : ∀ x : Option String, (∀ id, x = some id → rename id = id) → x.map rename = x := by
      intro x hx
      cases x with
      | none => rfl
      | some id => rw [Option.map_some, hx id rfl]
    simp only [renameResult]
    rw [if_pos ⟨hfix _ fun id hid => h id (.inl hid), hfix _ fun id hid => h id (.inr hid)⟩]
  · rfl

end Reads

/-- The new id of an id in the table; others get one that no id of the table has to be. -/
def IdTable.rename (table : IdTable) (id : String) : String := (table.map.get id).getD "call"

theorem IdTable.rename_of_get {table : IdTable} {id new : String}
    (h : table.map.get id = some new) : table.rename id = new := by
  rw [IdTable.rename, h, Option.getD_some]

/-- The sanitizer renames by a function of the ids, which keeps them apart. -/
theorem sanitize_eq_rename (env : IdEnv) {ms : List Message}
    (hfew : (transcriptIds ms).dedup.length ≤ 900) :
    ∃ rename : String → String, (∀ id, rename id ≠ "") ∧
      sanitizeToolCallIdsForTranscript env ms .strict = ms.map (renameIds rename) ∧
      (∀ id ∈ transcriptIds ms, IsStrictId (rename id)) ∧
      (∀ id ∈ transcriptIds ms, ∀ other ∈ transcriptIds ms, rename id = rename other → id = other) ∧
      ((∀ id ∈ transcriptIds ms, IsStrictId id) → ∀ id ∈ transcriptIds ms, rename id = id) := by
  have hfollows : (idTables (transcriptIds ms)).Follows (transcriptIds ms)
      (ms.mapM (rewriteMessage (resolve env .strict))) fun f => ms.map (renameIds f) :=
    .mapM fun m hm => rewriteMessage_follows fun id hid =>
      resolve_follows env hfew (List.mem_flatMap.mpr ⟨m, hm, hid⟩)
  obtain ⟨hinv, -, hanswered, hreturns⟩ := hfollows {} (IdTable.good_empty _)
  have hgood : IdTable.Good (transcriptIds ms) _ := hinv
  generalize hrun : (ms.mapM (rewriteMessage (resolve env .strict))).run {} = result at *
  have hget : ∀ id ∈ transcriptIds ms, ∃ v, result.2.map.get id = some v := hanswered
  refine ⟨result.2.rename, fun id => ?_, ?_, fun id hid => ?_, fun id hid other hother heq => ?_,
    fun hall id hid => ?_⟩
  · cases hid : result.2.map.get id with
    | none =>
      rw [IdTable.rename, hid, Option.getD_none]
      decide
    | some v =>
      rw [IdTable.rename_of_get hid]
      exact (hgood.strict id v hid).nonempty
  · have hout := hreturns result.2.rename fun k v hk => IdTable.rename_of_get hk
    simp only [sanitizeToolCallIdsForTranscript, hrun]
    rw [← hout]
    split_ifs with hsame
    · exact hsame.symm
    · rfl
  · obtain ⟨v, hv⟩ := hget id hid
    rw [IdTable.rename_of_get hv]
    exact hgood.strict id v hv
  · obtain ⟨v, hv⟩ := hget id hid
    obtain ⟨w, hw⟩ := hget other hother
    rw [IdTable.rename_of_get hv, IdTable.rename_of_get hw] at heq
    exact hgood.injective id other v hv (heq ▸ hw)
  · obtain ⟨v, hv⟩ := hget id hid
    rw [IdTable.rename_of_get hv]
    exact hgood.stable hall id v hv

/-- The ids of all calls of a transcript. -/
def calledIds (ms : List Message) : List String := (ms.filter isAssistant).flatMap callIds

theorem calledIds_subset (ms : List Message) : ∀ id ∈ calledIds ms, id ∈ transcriptIds ms := by
  intro id hid
  obtain ⟨m, hm, hin⟩ := List.mem_flatMap.mp hid
  obtain ⟨hm, ha⟩ := List.mem_filter.mp hm
  refine List.mem_flatMap.mpr ⟨m, hm, ?_⟩
  rwa [idsOf, if_pos ha]

theorem extractToolResultId_mem {r : Message} (h : isToolResult r = true) {id : String}
    (hid : extractToolResultId r = some id) : id ∈ idsOf r := by
  have ha : isAssistant r = false := by
    by_contra hassistant
    rw [not_toolResult_of_assistant (by simpa using hassistant)] at h
    cases h
  rw [idsOf, ha, h, if_neg (by decide), if_pos rfl, List.mem_append, Option.mem_toList,
    Option.mem_toList]
  unfold extractToolResultId at hid
  cases hc : nonEmptyText (r.get? "toolCallId") with
  | none =>
    rw [hc, Option.none_or] at hid
    exact .inr hid
  | some x =>
    rw [hc, Option.some_or] at hid
    exact .inl hid

theorem calledIds_renamed {rename : String → String} (hrename : ∀ id, rename id ≠ "")
    (ms : List Message) : calledIds (ms.map (renameIds rename)) = (calledIds ms).map rename := by
  induction ms with
  | nil => rfl
  | cons m ms ih =>
    unfold calledIds at ih ⊢
    rw [List.map_cons, List.filter_cons, List.filter_cons, isAssistant, isRole_renameIds hrename]
    by_cases ha : isRole m "assistant" = true
    · rw [if_pos ha, if_pos ha, List.flatMap_cons, List.flatMap_cons, List.map_append, ih]
      have hcalls : renameIds rename m = renameCalls rename m := by
        rw [renameIds, if_pos ha]
      rw [hcalls, callIds_renameCalls hrename]
    · rw [if_neg ha, if_neg ha, ih]

theorem transcriptIds_renamed {rename : String → String} (hrename : ∀ id, rename id ≠ "")
    (ms : List Message) :
    transcriptIds (ms.map (renameIds rename)) = (transcriptIds ms).map rename := by
  unfold transcriptIds
  rw [List.flatMap_map, List.map_flatMap]
  congr 1
  funext m
  exact idsOf_renameIds hrename

theorem length_dedup_map_le (f : String → String) (l : List String) :
    (l.map f).dedup.length ≤ l.dedup.length := by
  have hsub : (l.map f).dedup ⊆ l.dedup.map f := by
    intro x hx
    obtain ⟨y, hy, rfl⟩ := List.mem_map.mp (List.mem_dedup.mp hx)
    exact List.mem_map_of_mem (List.mem_dedup.mpr hy)
  have hle := (List.subperm_of_subset (List.nodup_dedup _) hsub).length_le
  rwa [List.length_map] at hle

/-- The sanitized transcript is the transcript with its ids renamed: one to one, to ids that a
strict provider takes, with every result still at its call; sanitizing again changes nothing. -/
theorem sanitizeToolCallIds_renames (env : IdEnv) (ms : List Message)
    (hfew : (transcriptIds ms).dedup.length ≤ 900) :
    (∃ rename : String → String,
      sanitizeToolCallIdsForTranscript env ms .strict = ms.map (renameIds rename) ∧
      (∀ id ∈ transcriptIds ms, ∀ other ∈ transcriptIds ms,
        rename id = rename other → id = other) ∧
      (∀ id ∈ transcriptIds ms, IsStrictId (rename id)) ∧
      ∀ r ∈ ms, isToolResult r = true →
        (Answers (calledIds (sanitizeToolCallIdsForTranscript env ms .strict)) (renameIds rename r) ↔
          Answers (calledIds ms) r)) ∧
    sanitizeToolCallIdsForTranscript env (sanitizeToolCallIdsForTranscript env ms .strict) .strict =
      sanitizeToolCallIdsForTranscript env ms .strict := by
  obtain ⟨rename, hrename, hout, hstrict, hinj, -⟩ := sanitize_eq_rename env hfew
  have hids := transcriptIds_renamed hrename ms
  refine ⟨⟨rename, hout, hinj, hstrict, fun r hr hres => ?_⟩, ?_⟩
  · rw [hout, calledIds_renamed hrename]
    unfold Answers
    rw [extractToolResultId_renameIds hrename hres]
    constructor
    · rintro ⟨new, hnew, hextract⟩
      obtain ⟨id, hid, rfl⟩ := List.mem_map.mp hnew
      obtain ⟨own, hown, heq⟩ := Option.map_eq_some_iff.mp hextract
      have hownIn := List.mem_flatMap.mpr ⟨r, hr, extractToolResultId_mem hres hown⟩
      rw [hinj own hownIn id (calledIds_subset ms id hid) heq] at hown
      exact ⟨id, hid, hown⟩
    · rintro ⟨id, hid, hextract⟩
      exact ⟨rename id, List.mem_map_of_mem hid, by rw [hextract, Option.map_some]⟩
  · rw [hout]
    have hfew' : (transcriptIds (ms.map (renameIds rename))).dedup.length ≤ 900 := by
      rw [hids]
      exact (length_dedup_map_le rename _).trans hfew
    obtain ⟨again, -, houtAgain, -, -, hkept⟩ := sanitize_eq_rename env hfew'
    have hall : ∀ id ∈ transcriptIds (ms.map (renameIds rename)), IsStrictId id := by
      rw [hids]
      intro id hid
      obtain ⟨old, hold, rfl⟩ := List.mem_map.mp hid
      exact hstrict old hold
    rw [houtAgain]
    refine (List.map_congr_left fun m hm => renameIds_eq_self fun id hid => ?_).trans
      (List.map_id _)
    exact hkept hall id (List.mem_flatMap.mpr ⟨m, hm, hid⟩)

/-- The hash of the one id that needs it, and a clock that stands still. -/
def recordedIdEnv : IdEnv where
  sha1Hex text :=
    if text = "a-1" then "bfde529bfbb7fe09e90afd365ecafba6eba647b2"
    else "0000000000000000000000000000000000000000"
  now _ := 0
  sha1_length text := by split_ifs <;> decide
  sha1_hex text := by split_ifs <;> decide

/-- Two calls whose ids differ only in what a strict provider does not take. -/
def similarCallsTranscript : List Message :=
  let call (id : String) : Value := .obj [("type", .str "toolCall"), ("id", .str id),
    ("name", .str "exec"), ("arguments", .obj [])]
  let result (id : String) : Value := .obj [("role", .str "toolResult"), ("toolCallId", .str id)]
  [.obj [("role", .str "assistant"), ("content", .arr [call "a_1", call "a-1"])],
    result "a-1", result "a_1"]

theorem similar_calls_renamed :
    transcriptIds (sanitizeToolCallIdsForTranscript recordedIdEnv similarCallsTranscript .strict) =
      ["a1", "a1bfde529b", "a1bfde529b", "a1"] ∧
    sanitizeToolCallIdsForTranscript recordedIdEnv
        (sanitizeToolCallIdsForTranscript recordedIdEnv similarCallsTranscript .strict) .strict =
      sanitizeToolCallIdsForTranscript recordedIdEnv similarCallsTranscript .strict :=
  ⟨by decide,
    (sanitizeToolCallIds_renames recordedIdEnv similarCallsTranscript (by decide)).2⟩

end T560.Transcript
