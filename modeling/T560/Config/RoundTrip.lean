import T560.Config.Reread

/-!
# The configuration round trip

When reading a written configuration gives the settings that were written, in terms of the
value the settings came from.
-/

namespace T560.Config

open Js (Value PropertyMap JsError Runtime)
open Js.Value (ofFields ofRecord ofTexts trimmedText number serialized)

/-- A text the next normalization strips a sender prefix from. -/
def hasSenderPrefix (s : String) : Bool :=
  decide ("telegram:".toList <+: s.toList.map Char.toLower ∨
    "tg:".toList <+: s.toList.map Char.toLower)

/-- The entries of the providers that become profiles. -/
def providerEntries (x : Value) : List (String × Value) :=
  match objectOf (x.get? "providers") with
  | some obj => obj.entries.filter fun f => f.2.isObject && f.1 != "__proto__"
  | none => []

/-- The entries of `channels.telegram.allowFrom`. -/
def allowFromEntries (x : Value) : List Value :=
  match (objectOf (x.get? "channels")).bind fun obj => objectOf (obj.get? "telegram") with
  | some obj =>
    match obj.get? "allowFrom" with
    | some (.arr items) => items
    | _ => []
  | none => []

/-- The number under `tools.exec.timeoutSec`. -/
def timeoutEntry (x : Value) : Option Js.Num :=
  ((objectOf (x.get? "tools")).bind fun obj => objectOf (obj.get? "exec")).bind fun exec =>
    numOf (exec.get? "timeoutSec")

/-- A positive number that rounds down to zero. -/
def roundsToZero : Js.Num → Bool
  | .fin q => decide (0 < q ∧ q < 1)
  | _ => false

variable (rt : Runtime)

/-- The settings under `x` survive being written: every profile has a name of its own or an id
that is trimmed or blank, what it passes through survives its text, no sender keeps a prefix,
the timeout is finite, and no token budget below one stands beside a cost budget. -/
structure Survives (x : Value) : Prop where
  names : ∀ f ∈ providerEntries x, trimmedOf (f.2.get? "provider") = none →
    Js.trim f.1 = f.1 ∨ Js.trim f.1 = ""
  compat : ∀ f ∈ providerEntries x, ∀ v, objectOf (f.2.get? "compat") = some v → v.serialized = v
  senders : ∀ v ∈ allowFromEntries x, ∀ s, v.text rt = .ok s → hasSenderPrefix (senderOf s) = false
  timeout : ∀ n, timeoutEntry x = some n → finiteOf (some n) = some n
  budget : ∀ usage, x.record? "usage" = some usage →
    ∀ tokens cost, number rt (usage.get? "tokenBudget") = .ok tokens →
      number rt (usage.get? "costBudgetUsd") = .ok cost → (positiveOf cost).isSome = true →
      roundsToZero tokens = false

variable {rt}

theorem exists_of_mapM_mem {α β : Type} {f : α → Except JsError β} {xs : List α} {ys : List β}
    (h : xs.mapM f = .ok ys) {x : α} (hx : x ∈ xs) : ∃ y ∈ ys, f x = .ok y := by
  have hall := Js.mapM_ok_iff.mp h
  clear h
  induction hall with
  | nil => cases hx
  | @cons z y xs ys hz _ ih =>
    rcases List.mem_cons.mp hx with rfl | hx
    · exact ⟨y, List.mem_cons_self, hz⟩
    · obtain ⟨w, hw, hfw⟩ := ih hx
      exact ⟨w, List.mem_cons_of_mem _ hw, hfw⟩

section Senders

theorem stripSenderPrefix_eq_self {s : String} (h : hasSenderPrefix s = false) :
    stripSenderPrefix s = s := by
  rw [hasSenderPrefix, decide_eq_false_iff_not, not_or] at h
  rw [stripSenderPrefix, if_neg h.1, if_neg h.2]

theorem length_trimChars_le (l : List Char) : (Js.trimChars l).length ≤ l.length := by
  rw [Js.trimChars, List.rdropWhile, List.length_reverse]
  refine (List.length_dropWhile_le _ _).trans ?_
  rw [List.length_reverse]
  exact List.length_dropWhile_le _ _

theorem senderOf_shorter {s : String} (h : hasSenderPrefix s = true) :
    (senderOf s).toList.length < s.toList.length := by
  rw [hasSenderPrefix, decide_eq_true_eq] at h
  have hshort : (stripSenderPrefix s).toList.length < s.toList.length := by
    rw [stripSenderPrefix]
    split
    · next hp =>
      have := hp.length_le
      rw [List.length_map] at this
      rw [String.toList_ofList, List.length_drop]
      have : ("telegram:".toList).length = 9 := by decide
      omega
    · next hnot =>
      have hp := h.resolve_left hnot
      rw [if_pos hp]
      have := hp.length_le
      rw [List.length_map] at this
      rw [String.toList_ofList, List.length_drop]
      have : ("tg:".toList).length = 3 := by decide
      omega
  rw [senderOf, Js.toList_trim]
  exact (length_trimChars_le _).trans_lt hshort

/-- A trimmed text is left alone exactly when it has no prefix. -/
theorem senderOf_eq_self_iff {s : String} (h : Js.trim s = s) :
    senderOf s = s ↔ hasSenderPrefix s = false := by
  constructor
  · intro heq
    by_contra hp
    have := senderOf_shorter (s := s) (by simpa using hp)
    rw [heq] at this
    omega
  · intro hp
    rw [senderOf, stripSenderPrefix_eq_self hp, h]

theorem rereadSenders_eq_self_iff {senders : List String} (hne : senders ≠ [])
    (hblank : ∀ s ∈ senders, s ≠ "") :
    rereadSenders senders = some senders ↔ ∀ s ∈ senders, senderOf s = s := by
  constructor
  · intro h
    have hlist : (senders.map senderOf).filter (fun s => s != "") = senders := by
      unfold rereadSenders at h
      split at h
      · cases h
      · exact Option.some.inj h
    have hlen : ((senders.map senderOf).filter fun s => s != "").length =
        (senders.map senderOf).length := by
      rw [hlist, List.length_map]
    have hmap : senders.map senderOf = senders := by
      rw [List.length_filter_eq_length_iff] at hlen
      rw [List.filter_eq_self.mpr hlen] at hlist
      exact hlist
    intro s hs
    have hid : senders.map senderOf = senders.map id := by rw [hmap, List.map_id]
    exact List.map_inj_left.mp hid s hs
  · intro h
    have hmap : senders.map senderOf = senders := by
      conv_rhs => rw [← List.map_id senders]
      exact List.map_congr_left h
    rw [rereadSenders, hmap, List.filter_eq_self.mpr (by simpa using hblank), if_neg]
    simpa using hne

theorem allowFrom_survives_iff {items : List Value} {allowFrom : Option (List String)}
    (h : normalizeAllowFrom rt (some (.arr items)) = .ok allowFrom) :
    allowFrom.bind rereadSenders = allowFrom ↔
      ∀ v ∈ items, ∀ s, v.text rt = .ok s → hasSenderPrefix (senderOf s) = false := by
  obtain ⟨texts, htexts, h⟩ := Js.exists_of_bind_ok h
  have h' := Except.ok.inj h
  have hmem : ∀ s, (∃ v ∈ items, v.text rt = .ok s) ↔ s ∈ texts := by
    intro s
    constructor
    · rintro ⟨v, hv, hs⟩
      obtain ⟨t, ht, hvt⟩ := exists_of_mapM_mem htexts hv
      rw [hs] at hvt
      cases hvt
      exact ht
    · intro hs
      exact Js.exists_of_mem_mapM htexts hs
  have hblank : hasSenderPrefix "" = false := by decide
  have hinput : (∀ v ∈ items, ∀ s, v.text rt = .ok s → hasSenderPrefix (senderOf s) = false) ↔
      ∀ s ∈ (texts.map senderOf).filter (fun s => s != ""), hasSenderPrefix s = false := by
    constructor
    · intro hall s hs
      obtain ⟨hs, -⟩ := List.mem_filter.mp hs
      obtain ⟨t, ht, rfl⟩ := List.mem_map.mp hs
      obtain ⟨v, hv, hvt⟩ := (hmem t).mpr ht
      exact hall v hv t hvt
    · intro hall v hv s hs
      by_cases hempty : senderOf s = ""
      · rw [hempty]
        exact hblank
      · apply hall
        refine List.mem_filter.mpr ⟨List.mem_map_of_mem ((hmem s).mp ⟨v, hv, hs⟩), ?_⟩
        simpa using hempty
  rw [hinput]
  have hself : ∀ s ∈ (texts.map senderOf).filter (fun s => s != ""),
      (senderOf s = s ↔ hasSenderPrefix s = false) := by
    intro s hs
    obtain ⟨hs, -⟩ := List.mem_filter.mp hs
    obtain ⟨t, -, rfl⟩ := List.mem_map.mp hs
    exact senderOf_eq_self_iff (Js.trim_trim _)
  split at h'
  · next hnone =>
    subst h'
    rw [List.isEmpty_iff] at hnone
    simp [hnone]
  · next hsome =>
    subst h'
    rw [Option.bind_some, rereadSenders_eq_self_iff (by simpa using hsome)
      fun s hs => by simpa using (List.mem_filter.mp hs).2]
    exact forall₂_congr hself

end Senders

section Providers

/-- The entries of an object or an array have distinct names. -/
theorem keyed_entries {obj : Value} (h : obj.isKeyed = true) : PropertyMap.Keyed obj.entries := by
  cases obj with
  | obj fields =>
    simp only [Value.isKeyed, Bool.and_eq_true, decide_eq_true_eq] at h
    exact PropertyMap.Keyed.entries h.2
  | arr xs =>
    rw [Value.entries, PropertyMap.Keyed, List.map_map]
    have hnames : (Prod.fst ∘ fun x : Value × Nat => (toString x.2, x.1)) =
        (fun n : Nat => toString n) ∘ Prod.snd := rfl
    rw [hnames, ← List.map_map, List.zipIdx_map_snd]
    exact (List.nodup_range').map fun a b hab => Js.toString_nat_injective hab
  | _ => exact List.nodup_nil

theorem isKeyed_get? {x v : Value} {key : String} (hx : x.isKeyed = true)
    (h : x.get? key = some v) : v.isKeyed = true := by
  cases x with
  | obj fields =>
    simp only [Value.isKeyed, Bool.and_eq_true] at hx
    exact Value.areKeyedFields_iff.mp hx.1 _ (PropertyMap.mem_of_lookup h)
  | _ => cases h

theorem mem_put_self {α : Type} (record : PropertyMap α) {key : String} (x : α)
    (hkey : key ≠ "__proto__") : (key, x) ∈ PropertyMap.put record key x := by
  rw [PropertyMap.put, if_neg hkey]
  split
  · next hany =>
    obtain ⟨g, hg, hgk⟩ := List.any_eq_true.mp hany
    refine List.mem_map.mpr ⟨g, hg, ?_⟩
    rw [if_pos hgk, beq_iff_eq.mp hgk]
  · exact List.mem_append_right _ (List.mem_singleton.mpr rfl)

theorem mem_put_of_ne {α : Type} {record : PropertyMap α} {f : String × α} (hf : f ∈ record)
    {key : String} (hkey : f.1 ≠ key) (x : α) : f ∈ PropertyMap.put record key x := by
  unfold PropertyMap.put
  split
  · exact hf
  · split
    · refine List.mem_map.mpr ⟨f, hf, ?_⟩
      rw [if_neg (by simpa using hkey)]
    · exact List.mem_append_left _ hf

theorem mem_assignAll_iff {α : Type} {entries : List (String × α)}
    (h : PropertyMap.Keyed entries) {f : String × α} :
    f ∈ assignAll entries ↔ f ∈ entries ∧ f.1 ≠ "__proto__" := by
  constructor
  · intro hf
    exact ⟨mem_of_mem_assignAll hf, (assigned_assignAll entries).noProto f hf⟩
  · rintro ⟨hf, hproto⟩
    obtain ⟨before, after, rfl⟩ := List.append_of_mem hf
    rw [assignAll, PropertyMap.mem_entries, List.foldl_append, List.foldl_cons]
    -- Nothing behind the entry has its name.
    have hafter : ∀ e ∈ after, f.1 ≠ e.1 := by
      intro e he heq
      rw [PropertyMap.Keyed, List.map_append, List.map_cons] at h
      refine (List.nodup_cons.mp (List.nodup_append.mp h).2.1).1 ?_
      exact heq ▸ List.mem_map_of_mem he
    have hkept : ∀ record : PropertyMap α, f ∈ record →
        f ∈ after.foldl (fun record f => PropertyMap.put record f.1 f.2) record := by
      clear h hf
      induction after with
      | nil => exact fun record hf => hf
      | cons e after ih =>
        intro record hf
        rw [List.foldl_cons]
        exact ih (fun g hg => hafter g (List.mem_cons_of_mem _ hg)) _
          (mem_put_of_ne hf (hafter e List.mem_cons_self) e.2)
    exact hkept _ (mem_put_self _ f.2 hproto)

theorem trimmedOf_str (s : String) :
    trimmedOf (some (.str s)) = if Js.trim s = "" then none else some (Js.trim s) := by
  simp only [trimmedOf, stringOf, Value.str?, Option.map_some, Option.filter_some]
  by_cases h : Js.trim s = "" <;> simp [h]

/-- A profile survives when its name is its own or an id without blanks at the ends, and what it
passes through survives. -/
theorem profile_survives_iff {providerId : String} {obj : Value} {p : ProviderProfile}
    (h : normalizeProfile rt providerId obj = .ok p) :
    p.reread providerId = p ↔
      (trimmedOf (obj.get? "provider") = none →
        Js.trim providerId = providerId ∨ Js.trim providerId = "") ∧
      ∀ v, objectOf (obj.get? "compat") = some v → v.serialized = v := by
  obtain ⟨mode, -, h⟩ := Js.exists_of_bind_ok h
  obtain ⟨models, -, h⟩ := Js.exists_of_bind_ok h
  obtain ⟨headers, -, h⟩ := Js.exists_of_bind_ok h
  cases h
  have hparts : ∀ q : ProviderProfile, q.reread providerId = q ↔
      (trimmedOf (some (.str q.provider))).getD providerId = q.provider ∧
        q.compat.map serialized = q.compat := by
    intro q
    cases q
    simp [ProviderProfile.reread]
  rw [hparts]
  dsimp only
  apply and_congr
  · cases hname : trimmedOf (obj.get? "provider") with
    | some s =>
      obtain ⟨htrim, hne⟩ := trimmedOf_eq_some hname
      simp [trimmedOf_str, htrim, hne]
    | none =>
      rw [Option.getD_none, trimmedOf_str]
      by_cases hblank : Js.trim providerId = ""
      · simp [hblank]
      · simp [hblank]
  · cases objectOf (obj.get? "compat") with
    | none => simp
    | some v => simp

theorem rereadProviders_eq_self_iff (providers : PropertyMap ProviderProfile) :
    rereadProviders providers = providers ↔ ∀ f ∈ providers, f.2.reread f.1 = f.2 := by
  constructor
  · intro h f hf
    have hid : providers.map (fun f => (f.1, f.2.reread f.1)) = providers.map id := by
      rw [List.map_id]
      exact h
    exact congrArg Prod.snd (List.map_inj_left.mp hid f hf)
  · exact map_self

theorem map_fst_of_mapM {α β : Type} {f : String × α → Except JsError β} {xs : List (String × α)}
    {ys : List (String × β)} (h : xs.mapM (fun e => do return (e.1, ← f e)) = .ok ys) :
    ys.map Prod.fst = xs.map Prod.fst := by
  have hall := Js.mapM_ok_iff.mp h
  clear h
  induction hall with
  | nil => rfl
  | cons hef _ ih =>
    obtain ⟨p, -, hef⟩ := Js.exists_of_bind_ok hef
    cases hef
    rw [List.map_cons, List.map_cons, ih]

theorem providers_survive_iff {x : Value} {providers : Option (PropertyMap ProviderProfile)}
    (hx : x.isKeyed = true) (h : normalizeProviders rt (x.get? "providers") = .ok providers) :
    providers.map rereadProviders = providers ↔
      ∀ f ∈ providerEntries x,
        (trimmedOf (f.2.get? "provider") = none → Js.trim f.1 = f.1 ∨ Js.trim f.1 = "") ∧
        ∀ v, objectOf (f.2.get? "compat") = some v → v.serialized = v := by
  unfold normalizeProviders at h
  cases hobj : objectOf (x.get? "providers") with
  | none =>
    rw [hobj] at h
    cases h
    simp [providerEntries, hobj]
  | some obj =>
    rw [hobj] at h
    obtain ⟨profiles, hprofiles, h⟩ := Js.exists_of_bind_ok h
    have hresult : nonEmptyRecord (assignAll profiles) = providers := Except.ok.inj h
    have hkeys : PropertyMap.Keyed profiles := by
      have hentries := keyed_entries (isKeyed_get? hx (objectOf_eq_some hobj).1)
      rw [PropertyMap.Keyed, map_fst_of_mapM hprofiles]
      exact hentries.sublist (List.filter_sublist.map _)
    have hprofile : ∀ f ∈ providerEntries x, ∃ p, normalizeProfile rt f.1 f.2 = .ok p ∧
        (f.1, p) ∈ assignAll profiles := by
      intro f hf
      rw [providerEntries, hobj] at hf
      simp only [List.mem_filter, Bool.and_eq_true, bne_iff_ne] at hf
      obtain ⟨y, hy, hfy⟩ := exists_of_mapM_mem hprofiles
        (List.mem_filter.mpr ⟨hf.1, by simpa using hf.2.1⟩)
      obtain ⟨p, hp, hfy⟩ := Js.exists_of_bind_ok hfy
      cases hfy
      exact ⟨p, hp, (mem_assignAll_iff hkeys).mpr ⟨hy, hf.2.2⟩⟩
    have hassigned : (∀ f ∈ assignAll profiles, f.2.reread f.1 = f.2) ↔
        ∀ f ∈ providerEntries x,
          (trimmedOf (f.2.get? "provider") = none → Js.trim f.1 = f.1 ∨ Js.trim f.1 = "") ∧
          ∀ v, objectOf (f.2.get? "compat") = some v → v.serialized = v := by
      constructor
      · intro hall f hf
        obtain ⟨p, hp, hmem⟩ := hprofile f hf
        exact (profile_survives_iff hp).mp (hall _ hmem)
      · intro hall f hf
        obtain ⟨hmem, hproto⟩ := (mem_assignAll_iff hkeys).mp hf
        obtain ⟨e, he, hef⟩ := Js.exists_of_mem_mapM hprofiles hmem
        obtain ⟨p, hp, hef⟩ := Js.exists_of_bind_ok hef
        cases hef
        refine (profile_survives_iff hp).mpr (hall e ?_)
        rw [providerEntries, hobj]
        simp only [List.mem_filter, Bool.and_eq_true, bne_iff_ne] at he ⊢
        exact ⟨he.1, he.2, hproto⟩
    rw [← hassigned, ← hresult]
    unfold nonEmptyRecord
    split
    · next hempty =>
      rw [List.isEmpty_iff] at hempty
      simp [hempty]
    · rw [Option.map_some, Option.some_inj, rereadProviders_eq_self_iff]

end Providers

section Numbers

theorem floor_eq_zero_iff (n : Js.Num) :
    (positiveOf n).map Int.floor = some 0 ↔ roundsToZero n = true := by
  cases n with
  | fin q =>
    by_cases hq : 0 < q
    · rw [positiveOf_fin hq, Option.map_some, Option.some_inj, Int.floor_eq_iff]
      simp [roundsToZero, hq, hq.le]
    · simp [positiveOf, hq, roundsToZero]
  | _ => simp [positiveOf, roundsToZero]

theorem usageOf_survives_iff (tokens : Option Int) (cost : Option ℚ) :
    (usageOf tokens cost).map UsageConfig.reread = usageOf tokens cost ↔
      (cost.isSome = true → tokens ≠ some 0) := by
  unfold usageOf
  split
  · next hempty => simp [hempty.2]
  · next hkept =>
    rw [Option.map_some, Option.some_inj, UsageConfig.reread]
    cases tokens with
    | none => simp
    | some n =>
      by_cases hn : n = 0
      · subst hn
        cases cost with
        | none => simp at hkept
        | some q => simp [Option.filter_some]
      · simp [Option.filter_some, hn]

theorem usage_survives_iff {x : Value} {usage : Option UsageConfig}
    (h : normalizeUsage rt (x.get? "usage") = .ok usage) :
    usage.map UsageConfig.reread = usage ↔
      ∀ obj, x.record? "usage" = some obj →
        ∀ tokens cost, number rt (obj.get? "tokenBudget") = .ok tokens →
          number rt (obj.get? "costBudgetUsd") = .ok cost → (positiveOf cost).isSome = true →
          roundsToZero tokens = false := by
  unfold normalizeUsage at h
  split at h
  · next fields hraw =>
    obtain ⟨tokens, htokens, h⟩ := Js.exists_of_bind_ok h
    obtain ⟨cost, hcost, h⟩ := Js.exists_of_bind_ok h
    cases h
    have hrecord : x.record? "usage" = some (.obj fields) := by
      rw [Value.record?, hraw]
      rfl
    rw [usageOf_survives_iff, Ne, floor_eq_zero_iff, Bool.not_eq_true]
    constructor
    · intro hsurvives obj hobj tokens' cost' ht hc hsome
      rw [hrecord] at hobj
      cases hobj
      rw [htokens] at ht
      rw [hcost] at hc
      cases ht
      cases hc
      exact hsurvives hsome
    · intro hall hsome
      exact hall _ hrecord tokens cost htokens hcost hsome
  · next hraw =>
    cases h
    refine iff_of_true rfl fun obj hobj => ?_
    obtain ⟨hget, hrec⟩ := Option.filter_eq_some_iff.mp hobj
    cases obj with
    | obj fields => exact (hraw fields hget).elim
    | _ => cases hrec

theorem exec_survives_iff (raw : Option Value) :
    (normalizeExec raw).map ExecConfig.reread = normalizeExec raw ↔
      ∀ n, ((objectOf raw).bind fun exec => numOf (exec.get? "timeoutSec")) = some n →
        finiteOf (some n) = some n := by
  unfold normalizeExec
  cases objectOf raw with
  | none => simp
  | some exec =>
    rw [Option.map_some, Option.map_some, Option.some_inj, Option.bind_some]
    cases numOf (exec.get? "timeoutSec") with
    | none => simp [ExecConfig.reread, finiteOf]
    | some n => simp [ExecConfig.reread]

theorem tools_survive_iff {x : Value} {tools : Option ToolsConfig}
    (h : normalizeTools rt (x.get? "tools") = .ok tools) :
    tools.map ToolsConfig.reread = tools ↔
      ∀ n, timeoutEntry x = some n → finiteOf (some n) = some n := by
  unfold normalizeTools at h
  cases hobj : objectOf (x.get? "tools") with
  | none =>
    rw [hobj] at h
    cases h
    simp [timeoutEntry, hobj]
  | some obj =>
    rw [hobj] at h
    obtain ⟨byProvider, -, h⟩ := Js.exists_of_bind_ok h
    obtain ⟨profileRaw, -, h⟩ := Js.exists_of_bind_ok h
    obtain ⟨web, -, h⟩ := Js.exists_of_bind_ok h
    obtain ⟨allow, -, h⟩ := Js.exists_of_bind_ok h
    obtain ⟨alsoAllow, -, h⟩ := Js.exists_of_bind_ok h
    obtain ⟨deny, -, h⟩ := Js.exists_of_bind_ok h
    obtain ⟨runtime, -, h⟩ := Js.exists_of_bind_ok h
    obtain ⟨selfProtection, -, h⟩ := Js.exists_of_bind_ok h
    cases h
    have hentry : timeoutEntry x = (objectOf (obj.get? "exec")).bind fun exec =>
        numOf (exec.get? "timeoutSec") := by
      rw [timeoutEntry, hobj, Option.bind_some]
    rw [hentry, ← exec_survives_iff, Option.map_some, Option.some_inj]
    simp [ToolsConfig.reread]

theorem channels_survive_iff {x : Value} {channels : Option ChannelConfig}
    (h : normalizeChannels rt (x.get? "channels") = .ok channels) :
    channels.map ChannelConfig.reread = channels ↔
      ∀ v ∈ allowFromEntries x, ∀ s, v.text rt = .ok s →
        hasSenderPrefix (senderOf s) = false := by
  unfold normalizeChannels at h
  split at h
  · next hobj =>
    cases h
    simp [allowFromEntries, hobj]
  · next obj hobj =>
    obtain ⟨allowFrom, hallow, h⟩ := Js.exists_of_bind_ok h
    obtain ⟨ids, -, h⟩ := Js.exists_of_bind_ok h
    obtain ⟨policy, -, h⟩ := Js.exists_of_bind_ok h
    cases h
    have hreread : ∀ t : TelegramChannelConfig,
        (some { telegram := t }).map ChannelConfig.reread = some { telegram := t } ↔
          t.allowFrom.bind rereadSenders = t.allowFrom := by
      intro t
      cases t
      simp [ChannelConfig.reread, TelegramChannelConfig.reread]
    rw [hreread, allowFromEntries, hobj]
    dsimp only
    split
    · next items hitems =>
      rw [hitems] at hallow
      exact allowFrom_survives_iff hallow
    · next hnot =>
      have hnone : allowFrom = none := by
        unfold normalizeAllowFrom at hallow
        split at hallow
        · next items hitems => exact (hnot items hitems).elim
        · exact (Except.ok.inj hallow).symm
      simp [hnone]

end Numbers

theorem normalizeConfig_fields {x : Value} {c : T560Config} (h : normalizeConfig rt x = .ok c) :
    normalizeProviders rt (x.get? "providers") = .ok c.providers ∧
      normalizeChannels rt (x.get? "channels") = .ok c.channels ∧
      normalizeTools rt (x.get? "tools") = .ok c.tools ∧
      normalizeUsage rt (x.get? "usage") = .ok c.usage := by
  unfold normalizeConfig at h
  split at h
  · next hnot =>
    cases h
    have hrecord : ¬ x.isRecord = true := by
      intro hr
      cases x with
      | obj fields => simp [Value.isObject] at hnot
      | _ => cases hr
    simp only [Value.get?_of_not_record hrecord]
    exact ⟨rfl, rfl, rfl, rfl⟩
  · obtain ⟨providers, hproviders, h⟩ := Js.exists_of_bind_ok h
    obtain ⟨channels, hchannels, h⟩ := Js.exists_of_bind_ok h
    obtain ⟨tools, htools, h⟩ := Js.exists_of_bind_ok h
    obtain ⟨skills, -, h⟩ := Js.exists_of_bind_ok h
    obtain ⟨usage, husage, h⟩ := Js.exists_of_bind_ok h
    obtain ⟨agents, -, h⟩ := Js.exists_of_bind_ok h
    cases h
    exact ⟨hproviders, hchannels, htools, husage⟩

/-- Normalizing what was written gives the settings back exactly when they survive. -/
theorem config_round_trip_iff (rt : Runtime) (x : Value) (c : T560Config)
    (hx : x.isKeyed = true) (hc : normalizeConfig rt x = .ok c) :
    normalizeConfig rt c.toValue.serialized = .ok c ↔ Survives rt x := by
  obtain ⟨hproviders, hchannels, htools, husage⟩ := normalizeConfig_fields hc
  have hparts : c.reread = c ↔ c.providers.map rereadProviders = c.providers ∧
      c.channels.map ChannelConfig.reread = c.channels ∧
      c.tools.map ToolsConfig.reread = c.tools ∧ c.usage.map UsageConfig.reread = c.usage := by
    cases c
    simp [T560Config.reread]
  rw [normalizeConfig_again hc, Except.ok.injEq, hparts, providers_survive_iff hx hproviders,
    channels_survive_iff hchannels, tools_survive_iff htools, usage_survives_iff husage]
  constructor
  · rintro ⟨hp, hs, ht, hb⟩
    exact ⟨fun f hf => (hp f hf).1, fun f hf => (hp f hf).2, hs, ht, hb⟩
  · rintro ⟨hn, hv, hs, ht, hb⟩
    exact ⟨fun f hf => ⟨hn f hf, hv f hf⟩, hs, ht, hb⟩


/-- A configuration file that allows one Telegram sender. -/
def senderFile (sender : String) : Value :=
  .obj [("channels", .obj [("telegram", .obj [("allowFrom", .arr [.str sender])])])]

def senderConfig (sender : String) : T560Config :=
  { channels := some { telegram := {
      botToken := none, dmPolicy := .pairing, allowFrom := some [sender]
      allowedChatIds := none } } }

theorem config_round_trip_prefixed_sender :
    (senderFile "tg:5").isKeyed = true ∧
      normalizeConfig Js.asciiRuntime (senderFile "tg:5") = .ok (senderConfig "5") ∧
      Survives Js.asciiRuntime (senderFile "tg:5") := by
  have hkeyed : (senderFile "tg:5").isKeyed = true := by decide
  have hread : normalizeConfig Js.asciiRuntime (senderFile "tg:5") = .ok (senderConfig "5") := by
    decide
  refine ⟨hkeyed, hread, ?_⟩
  apply (config_round_trip_iff Js.asciiRuntime _ _ hkeyed hread).mp
  decide

/-- A sender behind two prefixes loses one of them each time the file is read. -/
theorem doubly_prefixed_sender_changes :
    (senderFile "tg:tg:5").isJson = true ∧
      normalizeConfig Js.asciiRuntime (senderFile "tg:tg:5") = .ok (senderConfig "tg:5") ∧
      normalizeConfig Js.asciiRuntime (senderConfig "tg:5").toValue.serialized =
        .ok (senderConfig "5") ∧ senderConfig "5" ≠ senderConfig "tg:5" := by
  decide

end T560.Config
