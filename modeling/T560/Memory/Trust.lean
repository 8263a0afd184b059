import T560.Foundation.EventRun
import T560.Memory.Calls

/-!
# Where the text of an entry comes from

A save contributes its title, content, tags and source under its trust tier. An update joins what
two saves contributed and takes the higher tier of the two. As long as an update takes its text
from saves of one tier, an entry holds only text that was contributed at its tier or above.
-/

namespace T560.Memory

open EventRun (run Allowed)
open Js (Value Runtime exists_of_bind_ok includes includes_iff)

/-- A save that passed the checks, and the date it writes in front of an update. -/
structure Contribution where
  request : SaveRequest
  today : String

def contribution? (env : SaveEnv) : StoreCall → Option Contribution
  | .save call => (checkRequest env call.params).toOption.map fun r => ⟨r, call.today⟩
  | _ => none

def contributions (env : SaveEnv) (calls : List StoreCall) : List Contribution :=
  calls.filterMap (contribution? env)

theorem contributions_snoc (env : SaveEnv) (calls : List StoreCall) (call : StoreCall) :
    contributions env (calls ++ [call]) =
      contributions env calls ++ (contribution? env call).toList := by
  rw [contributions, List.filterMap_append]
  cases hcall : contribution? env call <;> simp [contributions, hcall]

section Contributed
variable (saves : List Contribution) (tier : TrustTier)

/-- Some save of the tier or above satisfies `P`. -/
def Trusted (P : SaveRequest → Prop) : Prop :=
  ∃ c ∈ saves, tier.rank ≤ c.request.trustTier.rank ∧ P c.request

/-- The contents of saves of the tier or above, joined by the headings of updates. -/
inductive Written : String → Prop
  | saved (c : Contribution) (hc : c ∈ saves) (htier : tier.rank ≤ c.request.trustTier.rank) :
    Written c.request.content
  | updated (old : String) (c : Contribution) (hold : Written old) (hc : c ∈ saves)
    (htier : tier.rank ≤ c.request.trustTier.rank) :
    Written (old ++ "\n\nUpdate (" ++ c.today ++ "): " ++ c.request.content)

/-- All text of the entry was contributed at the tier or above. -/
structure Contributed (e : MemoryStoreEntry) : Prop where
  title : Trusted saves tier fun r => r.title = e.title
  content : Written saves tier e.content
  tags : ∀ tag ∈ e.tags, Trusted saves tier fun r => tag ∈ r.tags
  source : Trusted saves tier fun r => r.source = e.source
  memoryNamespace : Trusted saves tier fun r => r.memoryNamespace = e.memoryNamespace

end Contributed

/-- Nothing of the save shows in the update. -/
structure SaveRequest.AddsNothing (r : SaveRequest) (x : MemoryStoreEntry) : Prop where
  title : r.title = x.title
  content : includes x.content r.content = true
  tags : r.tags ⊆ x.tags
  source : r.source = "user" ∨ r.source = x.source

/-- Nothing of the entry shows in the update that the save does not have itself. -/
structure SaveRequest.Covers (r : SaveRequest) (x : MemoryStoreEntry) : Prop where
  content : includes r.content x.content = true
  tags : x.tags ⊆ r.tags
  source : r.source = "user" → x.source = "user"

/-- The update takes its text from one tier: both have the same one, or the lower one gives none. -/
inductive SaveRequest.KeepsTrust (r : SaveRequest) (x : MemoryStoreEntry) : Prop
  | same (h : r.trustTier = x.trustTier) : KeepsTrust r x
  | lower (h : r.trustTier.rank < x.trustTier.rank) (hr : r.AddsNothing x) : KeepsTrust r x
  | higher (h : x.trustTier.rank < r.trustTier.rank) (hr : r.Covers x) : KeepsTrust r x

def KeepsTrust (env : ReadEnv) (file : Option String) : StoreCall → Prop
  | .save call => ∀ r, checkRequest env.toSaveEnv call.params = .ok r →
      r.replaces env.toSaveEnv (loadStoreEntries env.toStore (some .posInf) file) = false →
      ∀ x ∈ r.existing env.toSaveEnv (loadStoreEntries env.toStore (some .posInf) file),
        r.KeepsTrust x
  | _ => True

/-- A tool that reads under the scope, with any limit or by id, is given the entry. -/
def ReadUnder (env : StoreEnv) (file : Option String) (scope : MemoryScope)
    (e : MemoryStoreEntry) : Prop :=
  (∃ limit, e ∈ (loadStoreEntries env limit file).filter (entryMatchesScope · scope)) ∨
    ∃ id, findStoreEntryById env id (some scope) file = some e

section Monotone
variable {saves saves' : List Contribution} {tier tier' : TrustTier}

theorem Trusted.mono {P : SaveRequest → Prop} (h : Trusted saves tier P) (hsaves : saves ⊆ saves')
    (htier : tier'.rank ≤ tier.rank) : Trusted saves' tier' P := by
  obtain ⟨c, hc, hrank, hP⟩ := h
  exact ⟨c, hsaves hc, htier.trans hrank, hP⟩

theorem Written.mono {text : String} (h : Written saves tier text) (hsaves : saves ⊆ saves')
    (htier : tier'.rank ≤ tier.rank) : Written saves' tier' text := by
  induction h with
  | saved c hc hrank => exact .saved c (hsaves hc) (htier.trans hrank)
  | updated old c _ hc hrank ih => exact .updated old c ih (hsaves hc) (htier.trans hrank)

theorem Contributed.mono {e : MemoryStoreEntry} (h : Contributed saves tier e)
    (hsaves : saves ⊆ saves') (htier : tier'.rank ≤ tier.rank) : Contributed saves' tier' e where
  title := h.title.mono hsaves htier
  content := h.content.mono hsaves htier
  tags tag htag := (h.tags tag htag).mono hsaves htier
  source := h.source.mono hsaves htier
  memoryNamespace := h.memoryNamespace.mono hsaves htier

end Monotone

section Merge
variable {env : SaveEnv}

theorem includes_antisymm {s t : String} (h : includes s t = true) (h' : includes t s = true) :
    s = t := by
  have hst := includes_iff.mp h'
  have hts := includes_iff.mp h
  exact String.toList_inj.mp (hst.eq_of_length_le hts.length_le)

/-- A merge gives the old content, the new one, or both with a heading between them. -/
theorem mergeMemoryContent_cases (today : String) {existing incoming : String}
    (he : Trimmed existing) (hi : Trimmed incoming) :
    mergeMemoryContent today existing incoming = existing ∨
      mergeMemoryContent today existing incoming = incoming ∨
      mergeMemoryContent today existing incoming =
        existing ++ "\n\nUpdate (" ++ today ++ "): " ++ incoming := by
  unfold mergeMemoryContent
  simp only [he.1, hi.1, he.2, hi.2, if_false]
  split_ifs
  · exact Or.inl rfl
  · exact Or.inr (Or.inl rfl)
  · exact Or.inl rfl
  · exact Or.inr (Or.inr rfl)

theorem mergeMemoryContent_old (today : String) {existing incoming : String}
    (he : Trimmed existing) (hi : Trimmed incoming) (h : includes existing incoming = true) :
    mergeMemoryContent today existing incoming = existing := by
  unfold mergeMemoryContent
  simp only [he.1, hi.1, he.2, hi.2, if_false]
  split_ifs with hsame hnew
  · rfl
  · exact includes_antisymm hnew h
  · rfl

theorem mergeMemoryContent_new (today : String) {existing incoming : String}
    (he : Trimmed existing) (hi : Trimmed incoming) (h : includes incoming existing = true) :
    mergeMemoryContent today existing incoming = incoming := by
  unfold mergeMemoryContent
  simp only [he.1, hi.1, he.2, hi.2, if_false]
  split_ifs with hsame
  · exact hsame
  · rfl

/-- Every collected tag was there or stands in a row. -/
theorem mem_of_collectTags {rt : Runtime} {texts out tags : List String}
    (htexts : ∀ t ∈ texts, IsTag rt t) (h : collectTags rt (texts.map Value.str) out = .ok tags)
    {tag : String} (htag : tag ∈ tags) : tag ∈ out ∨ tag ∈ texts := by
  induction texts generalizing out with
  | nil =>
    obtain rfl := Except.ok.inj h
    exact Or.inl htag
  | cons text texts ih =>
    obtain ⟨⟨htrim, -⟩, hlower⟩ := htexts text (by simp)
    have hrest := fun out' => @ih out' fun t ht => htexts t (by simp [ht])
    rw [List.map_cons, collectTags, loweredText_str, htrim, hlower, Js.ok_bind] at h
    have hnew : tag ∈ out ++ [text] → tag ∈ out ∨ tag ∈ text :: texts := by
      intro hmem
      rcases List.mem_append.mp hmem with hmem | hmem
      · exact Or.inl hmem
      · exact Or.inr (List.mem_cons.mpr (Or.inl (List.mem_singleton.mp hmem)))
    split_ifs at h
    · exact (hrest out h).imp_right (List.mem_cons_of_mem _)
    · obtain rfl := Except.ok.inj h
      exact hnew htag
    · rcases hrest _ h with hmem | hmem
      · exact hnew hmem
      · exact Or.inr (List.mem_cons_of_mem _ hmem)

theorem mem_of_mergeMemoryTags {existing incoming tags : List String}
    (he : ∀ t ∈ existing, IsTag env.rt t) (hi : ∀ t ∈ incoming, IsTag env.rt t)
    (h : mergeMemoryTags env existing incoming = .ok tags) {tag : String} (htag : tag ∈ tags) :
    tag ∈ existing ∨ tag ∈ incoming := by
  have hall : ∀ t ∈ existing ++ incoming, IsTag env.rt t := by
    intro t ht
    exact (List.mem_append.mp ht).elim (he t) (hi t)
  rcases mem_of_collectTags hall h htag with hmem | hmem
  · cases hmem
  · exact List.mem_append.mp hmem

end Merge

theorem entryMatchesScope_rank {e : MemoryStoreEntry} {scope : MemoryScope}
    (h : entryMatchesScope e scope = true) : scope.minTrustTier.rank ≤ e.trustTier.rank := by
  unfold entryMatchesScope at h
  exact of_decide_eq_true (Bool.and_eq_true_iff.mp h).2

section Step
variable {env : SaveEnv} {entries : List MemoryStoreEntry} {saves : List Contribution}

theorem contributed_new {call : SaveCall} {r : SaveRequest}
    (hc : (⟨r, call.today⟩ : Contribution) ∈ saves) :
    Contributed saves (newEntry call r).trustTier (newEntry call r) where
  title := ⟨_, hc, le_rfl, rfl⟩
  content := .saved _ hc le_rfl
  tags _ htag := ⟨_, hc, le_rfl, htag⟩
  source := ⟨_, hc, le_rfl, rfl⟩
  memoryNamespace := ⟨_, hc, le_rfl, rfl⟩

/-- An update that takes its text from one tier has it from its own. -/
theorem contributed_updated {call : SaveCall} {r : SaveRequest} {x e : MemoryStoreEntry}
    (hr : r.Sound env.rt) (hn : Normalized env.rt x) (hspace : x.memoryNamespace = r.memoryNamespace)
    (hx : Contributed saves x.trustTier x) (hc : (⟨r, call.today⟩ : Contribution) ∈ saves)
    (hkeeps : r.KeepsTrust x) (he : updatedEntry env call r x = .ok e) :
    Contributed saves e.trustTier e := by
  obtain ⟨tags, htags, he⟩ := exists_of_bind_ok he
  cases he
  have htag := fun tag => @mem_of_mergeMemoryTags env _ _ _ hn.tags hr.tags.isTag htags tag
  cases hkeeps with
  | same h =>
    dsimp only
    rw [if_pos (by rw [h])]
    refine ⟨⟨_, hc, by rw [h], rfl⟩, ?_, fun tag hmem => ?_, ?_, hx.memoryNamespace⟩
    · dsimp only
      rcases mergeMemoryContent_cases call.today hn.content hr.content with heq | heq | heq
      · rw [heq]
        exact hx.content
      · rw [heq]
        exact .saved _ hc (by rw [h])
      · rw [heq]
        exact .updated x.content ⟨r, call.today⟩ hx.content hc (by rw [h])
    · rcases htag tag hmem with hold | hnew
      · exact hx.tags tag hold
      · exact ⟨_, hc, by rw [h], hnew⟩
    · dsimp only
      split
      · exact hx.source
      · exact ⟨_, hc, by rw [h], rfl⟩
  | lower h hadds =>
    dsimp only
    rw [if_pos h.le]
    refine ⟨?_, ?_, fun tag hmem => ?_, ?_, hx.memoryNamespace⟩
    · dsimp only
      rw [hadds.title]
      exact hx.title
    · dsimp only
      rw [mergeMemoryContent_old call.today hn.content hr.content hadds.content]
      exact hx.content
    · rcases htag tag hmem with hold | hnew
      · exact hx.tags tag hold
      · exact hx.tags tag (hadds.tags hnew)
    · dsimp only
      split
      · exact hx.source
      · next huser =>
        rw [hadds.source.resolve_left huser]
        exact hx.source
  | higher h hcovers =>
    dsimp only
    rw [if_neg (by omega)]
    refine ⟨⟨_, hc, le_rfl, rfl⟩, ?_, fun tag hmem => ?_, ?_, ⟨_, hc, le_rfl, hspace.symm⟩⟩
    · dsimp only
      rw [mergeMemoryContent_new call.today hn.content hr.content hcovers.content]
      exact .saved _ hc le_rfl
    · rcases htag tag hmem with hold | hnew
      · exact ⟨_, hc, le_rfl, hcovers.tags hold⟩
      · exact ⟨_, hc, le_rfl, hnew⟩
    · dsimp only
      split
      · next huser => exact ⟨_, hc, le_rfl, huser.trans (hcovers.source huser).symm⟩
      · exact ⟨_, hc, le_rfl, rfl⟩

/-- The entry a save leaves, whether it is new or an update. -/
theorem contributed_saved {call : SaveCall} {r : SaveRequest} {entry : MemoryStoreEntry}
    (hr : r.Sound env.rt) (hn : ∀ e ∈ entries, Normalized env.rt e)
    (h : ∀ e ∈ entries, Contributed saves e.trustTier e)
    (hc : (⟨r, call.today⟩ : Contribution) ∈ saves)
    (hkeeps : r.replaces env entries = false → ∀ x ∈ r.existing env entries, r.KeepsTrust x)
    (hentry : savedEntry env call r (r.replaces env entries) (r.existing env entries) = .ok entry) :
    Contributed saves entry.trustTier entry := by
  cases hreplaces : r.replaces env entries with
  | true =>
    rw [hreplaces] at hentry
    obtain rfl := Except.ok.inj hentry
    exact contributed_new hc
  | false =>
    rw [hreplaces] at hentry
    cases hexisting : r.existing env entries with
    | none =>
      rw [hexisting] at hentry
      obtain rfl := Except.ok.inj hentry
      exact contributed_new hc
    | some x =>
      rw [hexisting] at hentry
      obtain ⟨hmem, hspace⟩ := mem_inNamespace.mp (pickStoreEntryForUpsert_mem hexisting)
      exact contributed_updated hr (hn x hmem) hspace (h x hmem) hc
        (hkeeps hreplaces x hexisting) hentry

theorem contributed_effect {call : StoreCall} {after : List MemoryStoreEntry}
    (hn : ∀ e ∈ entries, Normalized env.rt e)
    (h : ∀ e ∈ entries, Contributed saves e.trustTier e)
    (hkeeps : ∀ c r, call = .save c → checkRequest env c.params = .ok r →
      r.replaces env entries = false → ∀ x ∈ r.existing env entries, r.KeepsTrust x)
    (heffect : StoreEffect env entries call after) :
    ∀ e ∈ after, Contributed (saves ++ (contribution? env call).toList) e.trustTier e := by
  have hmore : ∀ e ∈ entries,
      Contributed (saves ++ (contribution? env call).toList) e.trustTier e := fun e he =>
    (h e he).mono (List.subset_append_left _ _) le_rfl
  intro e he
  cases heffect with
  | removes _ _ hsub => exact hmore e (hsub.subset he)
  | touches _ x y hx hy =>
    rcases List.mem_append.mp he with he | he
    · exact hmore e (List.mem_of_mem_filter he)
    · obtain rfl := List.mem_singleton.mp he
      have hold := hmore x hx
      rw [hy.trustTier]
      exact ⟨hy.title ▸ hold.title, hy.content ▸ hold.content, hy.tags ▸ hold.tags,
        hy.source ▸ hold.source, hy.memoryNamespace ▸ hold.memoryNamespace⟩
  | saves call r entry _ hr hentry hafter =>
    rcases List.mem_append.mp (hafter.subset he) with he | he
    · exact hmore e (List.mem_of_mem_filter he)
    · obtain rfl := List.mem_singleton.mp he
      have hc : (⟨r, call.today⟩ : Contribution) ∈
          saves ++ (contribution? env (.save call)).toList := by
        rw [contribution?, hr]
        exact List.mem_append_right _ (List.mem_singleton_self _)
      exact contributed_saved (checkRequest_sound hr) hn hmore hc (hkeeps call r rfl hr) hentry

end Step

/-- In a run from an empty store whose updates take their text from one tier, all text of an entry
was contributed at its tier or above, and a read is given no text from below its scope. -/
theorem text_trusted_at_tier (env : ReadEnv) (calls : List StoreCall)
    (h : Allowed (storeStep env) (KeepsTrust env) none calls) :
    (∀ e ∈ loadStoreEntries env.toStore (some .posInf) (run (storeStep env) none calls),
      Contributed (contributions env.toSaveEnv calls) e.trustTier e) ∧
    ∀ scope e, ReadUnder env.toStore (run (storeStep env) none calls) scope e →
      Contributed (contributions env.toSaveEnv calls) scope.minTrustTier e := by
  have hlive : LineEnded (run (storeStep env) none calls) ∧
      ∀ e ∈ loadStoreEntries env.toStore (some .posInf) (run (storeStep env) none calls),
        Contributed (contributions env.toSaveEnv calls) e.trustTier e := by
    induction calls using List.reverseRecOn with
    | nil => exact ⟨by rintro raw ⟨⟩, by rintro e ⟨⟩⟩
    | append_singleton calls call ih =>
      obtain ⟨hbefore, hlast⟩ := EventRun.allowed_append.mp h
      obtain ⟨hended, hold⟩ := ih hbefore
      obtain ⟨hended', heffect⟩ := @storeStep_steps env _ call hended
      rw [EventRun.run_snoc, contributions_snoc]
      refine ⟨hended', contributed_effect (@loaded_normalized env.toWriteEnv _) hold ?_ heffect⟩
      rintro c r rfl hr
      exact hlast.1 r hr
  refine ⟨hlive.2, ?_⟩
  rintro scope e (⟨limit, he⟩ | ⟨id, hfound⟩)
  · obtain ⟨hmem, hscope⟩ := List.mem_filter.mp he
    exact (hlive.2 e (loadStoreEntries_subset limit _ hmem)).mono (List.Subset.refl _)
      (entryMatchesScope_rank hscope)
  · obtain ⟨hmem, hscope⟩ := findStoreEntryById_loaded hfound
    exact (hlive.2 e hmem).mono (List.Subset.refl _) (entryMatchesScope_rank hscope)

section Example

/-- A rule, an addition of the same tier, and a rumour. -/
def ruleCall : SaveCall :=
  saves "00000000-0000-4000-8000-00000000000a" firstUuid_trimmed
    [("title", .str "Billing"), ("content", .str "Annual")]

def additionCall : SaveCall :=
  saves "00000000-0000-4000-8000-00000000000b" secondUuid_trimmed
    [("title", .str "Billing"), ("content", .str "Monthly")]

def rumourCall : SaveCall :=
  saves "00000000-0000-4000-8000-00000000000c" thirdUuid_trimmed
    [("title", .str "Billing"), ("content", .str "Monthly"), ("trustTier", .str "unverified")]

def billing (content : String) (tier : TrustTier) : SaveRequest :=
  ⟨"Billing", content, [], 3, DEFAULT_CONFIDENCE, "user", "global", tier, .upsert⟩

variable (json : Js.Json) (room : Nat)

theorem ruleCall_request :
    checkRequest (roomyEnv json room).toSaveEnv ruleCall.params = .ok (billing "Annual" .verified) :=
  @checkRequest_of _ _ (billing "Annual" .verified) .upsert rfl (by decide) (by decide)
    (containsLikelySecret_of_not_spelled (by decide))

theorem additionCall_request : checkRequest (roomyEnv json room).toSaveEnv additionCall.params =
    .ok (billing "Monthly" .verified) :=
  @checkRequest_of _ _ (billing "Monthly" .verified) .upsert rfl (by decide) (by decide)
    (containsLikelySecret_of_not_spelled (by decide))

theorem rumourCall_request : checkRequest (roomyEnv json room).toSaveEnv rumourCall.params =
    .ok (billing "Monthly" .unverified) :=
  @checkRequest_of _ _ (billing "Monthly" .unverified) .upsert rfl (by decide) (by decide)
    (containsLikelySecret_of_not_spelled (by decide))

/-- The entry of the rule. -/
def rule : MemoryStoreEntry := newEntry ruleCall (billing "Annual" .verified)

theorem loaded_rule (hroom : lineBytes json rule ≤ room) :
    loadStoreEntries (roomyEnv json room).toStore (some .posInf)
      (storeStep (roomyEnv json room) none (.save ruleCall)) = [rule] :=
  @loaded_new_save json room none ruleCall _ [] (by rintro raw ⟨⟩) (ruleCall_request json room) rfl
    (pickStoreEntryForUpsert_nil _ _ _) rfl (by simp) (by simp) (by simpa [rule] using hroom)

theorem text_trusted_at_tier_addition :
    ∃ json room, Allowed (storeStep (roomyEnv json room)) (KeepsTrust (roomyEnv json room)) none
        [.save ruleCall, .save additionCall] ∧
      ∀ e ∈ loadStoreEntries (roomyEnv json room).toStore (some .posInf)
          (run (storeStep (roomyEnv json room)) none [.save ruleCall, .save additionCall]),
        Contributed (contributions (roomyEnv json room).toSaveEnv
          [.save ruleCall, .save additionCall]) e.trustTier e := by
  obtain ⟨json⟩ := Js.json_nonempty
  refine ⟨json, lineBytes json rule, ?_⟩
  have hloaded := loaded_rule json _ (le_refl (lineBytes json rule))
  generalize lineBytes json rule = room at hloaded ⊢
  have hallowed : Allowed (storeStep (roomyEnv json room)) (KeepsTrust (roomyEnv json room)) none
      [.save ruleCall, .save additionCall] := by
    refine ⟨?_, ?_, trivial⟩
    · intro r hr _ x hx
      cases pickStoreEntryForUpsert_mem hx
    · intro r hr _ x hx
      obtain rfl := Except.ok.inj ((additionCall_request json room).symm.trans hr)
      rw [hloaded] at hx
      have hmem := (mem_inNamespace.mp (pickStoreEntryForUpsert_mem hx)).1
      obtain rfl := List.mem_singleton.mp hmem
      exact .same rfl
  exact ⟨hallowed, (text_trusted_at_tier _ _ hallowed).1⟩

/-- The rule with the rumour behind it. -/
def rumoured : MemoryStoreEntry :=
  { rule with
    content := "Annual\n\nUpdate (2026-01-01): Monthly"
    confidence := max MIN_CONFIDENCE
      (min 1 ((DEFAULT_CONFIDENCE + DEFAULT_CONFIDENCE) / 2 + MIN_CONFIDENCE)) }

theorem loaded_rumoured (hrule : lineBytes json rule ≤ room)
    (hroom : lineBytes json rumoured ≤ room) :
    loadStoreEntries (roomyEnv json room).toStore (some .posInf)
      (run (storeStep (roomyEnv json room)) none [.save ruleCall, .save rumourCall]) =
        [rumoured] := by
  have hended := (@storeStep_steps (roomyEnv json room) none (.save ruleCall)
    (by rintro raw ⟨⟩)).1
  have hcontent : mergeMemoryContent "2026-01-01" "Annual" "Monthly" = rumoured.content := by
    decide
  have hupdated : updatedEntry (roomyEnv json room).toSaveEnv rumourCall
      (billing "Monthly" .unverified) rule = .ok rumoured := by
    have hfields : updatedEntry (roomyEnv json room).toSaveEnv rumourCall
        (billing "Monthly" .unverified) rule =
          .ok { rumoured with content := mergeMemoryContent "2026-01-01" "Annual" "Monthly" } := rfl
    rw [hfields, hcontent]
  exact loaded_updating_save hended (rumourCall_request json room) (loaded_rule json room hrule) rfl
    rfl (by decide) rfl hupdated hroom

/-- The verified saves end in the text of the rule. -/
theorem written_rule {text : String}
    (h : Written [⟨billing "Annual" .verified, "2026-01-01"⟩,
      ⟨billing "Monthly" .unverified, "2026-01-01"⟩] .verified text) :
    text.toList.getLast? = some 'l' := by
  have hrule : ∀ c ∈ [(⟨billing "Annual" .verified, "2026-01-01"⟩ : Contribution),
      ⟨billing "Monthly" .unverified, "2026-01-01"⟩],
      TrustTier.verified.rank ≤ c.request.trustTier.rank → c.request.content = "Annual" := by
    intro c hc htier
    rcases List.mem_cons.mp hc with rfl | hc
    · rfl
    · obtain rfl := List.mem_singleton.mp hc
      exact absurd htier (by decide)
  cases h with
  | saved c hc htier =>
    rw [hrule c hc htier]
    decide
  | updated old c _ hc htier =>
    rw [hrule c hc htier, String.toList_append, List.getLast?_append]
    rfl

/-- The text of the rumour is in a verified entry. -/
theorem rumour_read_as_verified :
    ∃ json room, let calls := [StoreCall.save ruleCall, .save rumourCall]
      ∃ e ∈ loadStoreEntries (roomyEnv json room).toStore (some .posInf)
          (run (storeStep (roomyEnv json room)) none calls),
        e.trustTier = .verified ∧
        ¬ Contributed (contributions (roomyEnv json room).toSaveEnv calls) .verified e := by
  obtain ⟨json⟩ := Js.json_nonempty
  refine ⟨json, lineBytes json rule + lineBytes json rumoured, rumoured, ?_, rfl, ?_⟩
  · rw [loaded_rumoured json _ (Nat.le_add_right _ _) (Nat.le_add_left _ _)]
    exact List.mem_singleton_self _
  · intro h
    have hsaves : contributions (roomyEnv json
        (lineBytes json rule + lineBytes json rumoured)).toSaveEnv
        [.save ruleCall, .save rumourCall] = [⟨billing "Annual" .verified, "2026-01-01"⟩,
          ⟨billing "Monthly" .unverified, "2026-01-01"⟩] := by
      simp only [contributions, List.filterMap_cons, contribution?, ruleCall_request,
        rumourCall_request, Except.toOption, Option.map_some, List.filterMap_nil]
      rfl
    rw [hsaves] at h
    have hlast := written_rule h.content
    revert hlast
    decide

end Example

end T560.Memory
