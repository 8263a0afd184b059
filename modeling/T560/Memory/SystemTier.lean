import T560.Foundation.EventRun
import T560.Memory.Calls

/-!
# Who owns a system entry

A save gets the tier `system` only under the source `system`. An update takes the higher of two
tiers and the source of the save, unless that is `user`, so a save of a third source takes the
entry over with its tier. As long as only `user` and `system` update system entries, these stay
in the hands of `system`.
-/

namespace T560.Memory

open EventRun (run Allowed run_keeps)
open Js (Value exists_of_bind_ok)

/-- An entry of the tier `system` has the source `system`. -/
def MemoryStoreEntry.SystemOwned (e : MemoryStoreEntry) : Prop :=
  e.trustTier = .system → e.source = "system"

/-- A save of another source updates no system entry. -/
def SaveRequest.KeepsOwner (r : SaveRequest) (x : MemoryStoreEntry) : Prop :=
  x.trustTier = .system → r.source = "user" ∨ r.source = "system"

def KeepsOwner (env : ReadEnv) (file : Option String) : StoreCall → Prop
  | .save call => ∀ r, checkRequest env.toSaveEnv call.params = .ok r →
      r.replaces env.toSaveEnv (loadStoreEntries env.toStore (some .posInf) file) = false →
      ∀ x ∈ r.existing env.toSaveEnv (loadStoreEntries env.toStore (some .posInf) file),
        r.KeepsOwner x
  | _ => True

section Request
variable {env : SaveEnv}

theorem effectiveTrustTier_system {source : String} {tier : TrustTier}
    (h : effectiveTrustTier source tier = .system) : source = "system" := by
  unfold effectiveTrustTier at h
  by_contra hsource
  by_cases htier : tier = .system
  · simp [hsource, htier] at h
  · simp [htier] at h

theorem readRequest_system {params : Value} {r : SaveRequest} {strategy : Option ConflictStrategy}
    (h : readRequest env params = .ok (r, strategy)) (htier : r.trustTier = .system) :
    r.source = "system" := by
  obtain ⟨title, -, h⟩ := exists_of_bind_ok h
  obtain ⟨content, -, h⟩ := exists_of_bind_ok h
  obtain ⟨tags, -, h⟩ := exists_of_bind_ok h
  obtain ⟨importance, -, h⟩ := exists_of_bind_ok h
  obtain ⟨confidence, -, h⟩ := exists_of_bind_ok h
  obtain ⟨source, -, h⟩ := exists_of_bind_ok h
  obtain ⟨memoryNamespace, -, h⟩ := exists_of_bind_ok h
  obtain ⟨tier, -, h⟩ := exists_of_bind_ok h
  obtain ⟨strategyText, -, h⟩ := exists_of_bind_ok h
  cases h
  exact effectiveTrustTier_system htier

/-- The rule of the tool for new entries. -/
theorem checkRequest_system {params : Value} {r : SaveRequest}
    (h : checkRequest env params = .ok r) (htier : r.trustTier = .system) :
    r.source = "system" := by
  unfold checkRequest at h
  split at h
  · cases h
  · next request strategy hread =>
    cases strategy with
    | none => split_ifs at h
    | some strategy =>
      dsimp only at h
      split_ifs at h
      cases h
      exact @readRequest_system _ _ request _ hread htier

end Request

section Step
variable {env : SaveEnv} {entries : List MemoryStoreEntry}

theorem systemOwned_updated {call : SaveCall} {r : SaveRequest} {x e : MemoryStoreEntry}
    (hr : r.trustTier = .system → r.source = "system") (hx : x.SystemOwned)
    (hkeeps : r.KeepsOwner x) (he : updatedEntry env call r x = .ok e) : e.SystemOwned := by
  obtain ⟨tags, -, he⟩ := exists_of_bind_ok he
  cases he
  intro htier
  dsimp only at htier ⊢
  by_cases hrank : r.trustTier.rank ≤ x.trustTier.rank
  · rw [if_pos hrank] at htier
    rcases hkeeps htier with hsource | hsource
    · rw [if_pos hsource]
      exact hx htier
    · rw [hsource]
      rfl
  · rw [if_neg hrank] at htier
    rw [hr htier]
    rfl

theorem systemOwned_effect {call : StoreCall} {after : List MemoryStoreEntry}
    (h : ∀ e ∈ entries, e.SystemOwned)
    (hkeeps : ∀ c r, call = .save c → checkRequest env c.params = .ok r →
      r.replaces env entries = false → ∀ x ∈ r.existing env entries, r.KeepsOwner x)
    (heffect : StoreEffect env entries call after) : ∀ e ∈ after, e.SystemOwned := by
  intro e he
  cases heffect with
  | removes _ _ hsub => exact h e (hsub.subset he)
  | touches _ x y hx hy =>
    rcases List.mem_append.mp he with he | he
    · exact h e (List.mem_of_mem_filter he)
    · obtain rfl := List.mem_singleton.mp he
      intro htier
      rw [hy.source]
      exact h x hx (hy.trustTier.symm.trans htier)
  | saves call r entry _ hr hentry hafter =>
    rcases List.mem_append.mp (hafter.subset he) with he | he
    · exact h e (List.mem_of_mem_filter he)
    · obtain rfl := List.mem_singleton.mp he
      have hsystem := fun htier => checkRequest_system hr htier
      unfold savedEntry at hentry
      split at hentry
      · next x hreplaces hexisting =>
        have hmem := (mem_inNamespace.mp (pickStoreEntryForUpsert_mem hexisting)).1
        exact systemOwned_updated hsystem (h x hmem) (hkeeps call r rfl hr hreplaces x hexisting)
          hentry
      · cases hentry
        exact hsystem

end Step

/-- In a run from an empty store whose updates of system entries come from `user` and `system`,
every system entry has the source `system`. -/
theorem system_tier_owned (env : ReadEnv) (calls : List StoreCall)
    (h : Allowed (storeStep env) (KeepsOwner env) none calls) :
    ∀ e ∈ loadStoreEntries env.toStore (some .posInf) (run (storeStep env) none calls),
      e.SystemOwned := by
  have hstep : ∀ file call, KeepsOwner env file call →
      (LineEnded file ∧
        ∀ e ∈ loadStoreEntries env.toStore (some .posInf) file, e.SystemOwned) →
      LineEnded (storeStep env file call) ∧
        ∀ e ∈ loadStoreEntries env.toStore (some .posInf) (storeStep env file call),
          e.SystemOwned := by
    rintro file call hkeeps ⟨hended, howned⟩
    obtain ⟨hended', heffect⟩ := @storeStep_steps env _ call hended
    refine ⟨hended', systemOwned_effect howned ?_ heffect⟩
    rintro c r rfl hr
    exact hkeeps r hr
  have hstart : LineEnded none ∧
      ∀ e ∈ loadStoreEntries env.toStore (some .posInf) none, e.SystemOwned := by
    refine ⟨?_, ?_⟩
    · rintro raw ⟨⟩
    · rintro e ⟨⟩
  exact (run_keeps hstep h hstart).2

section Example

/-- A rule of the system, a note of the user on it, and a note of a third source. -/
def quotaCall : SaveCall :=
  saves "00000000-0000-4000-8000-00000000000a" firstUuid_trimmed
    [("title", .str "Limit"), ("content", .str "Ten"), ("source", .str "system"),
      ("trustTier", .str "system")]

def userNoteCall : SaveCall :=
  saves "00000000-0000-4000-8000-00000000000b" secondUuid_trimmed
    [("title", .str "Limit"), ("content", .str "Ten")]

def inferredNoteCall : SaveCall :=
  saves "00000000-0000-4000-8000-00000000000c" thirdUuid_trimmed
    [("title", .str "Limit"), ("content", .str "Ten"), ("source", .str "inferred")]

def limitRequest (source : String) (tier : TrustTier) : SaveRequest :=
  ⟨"Limit", "Ten", [], 3, DEFAULT_CONFIDENCE, source, "global", tier, .upsert⟩

variable (json : Js.Json) (room : Nat)

theorem quotaCall_request : checkRequest (roomyEnv json room).toSaveEnv quotaCall.params =
    .ok (limitRequest "system" .system) := by
  have hsource : normalizeSource (roomyEnv json room).rt (quotaCall.params.get? "source") "user" =
      .ok "system" := normalizeSlug_stable (by decide) (by decide)
  refine @checkRequest_of _ _ (limitRequest "system" .system) .upsert ?_ (by decide) (by decide)
    (containsLikelySecret_of_not_spelled (by decide))
  unfold readRequest
  rw [hsource]
  rfl

theorem userNoteCall_request : checkRequest (roomyEnv json room).toSaveEnv userNoteCall.params =
    .ok (limitRequest "user" .verified) :=
  @checkRequest_of _ _ (limitRequest "user" .verified) .upsert rfl (by decide) (by decide)
    (containsLikelySecret_of_not_spelled (by decide))

theorem inferredNoteCall_request :
    checkRequest (roomyEnv json room).toSaveEnv inferredNoteCall.params =
      .ok (limitRequest "inferred" .observed) := by
  have hsource : normalizeSource (roomyEnv json room).rt
      (inferredNoteCall.params.get? "source") "user" = .ok "inferred" := normalizeSlug_stable (by decide) (by decide)
  refine @checkRequest_of _ _ (limitRequest "inferred" .observed) .upsert ?_ (by decide) (by decide)
    (containsLikelySecret_of_not_spelled (by decide))
  unfold readRequest
  rw [hsource]
  rfl

def limitEntry : MemoryStoreEntry := newEntry quotaCall (limitRequest "system" .system)

theorem loaded_limit (hroom : lineBytes json limitEntry ≤ room) :
    loadStoreEntries (roomyEnv json room).toStore (some .posInf)
      (storeStep (roomyEnv json room) none (.save quotaCall)) = [limitEntry] :=
  @loaded_new_save json room none quotaCall _ [] (by rintro raw ⟨⟩) (quotaCall_request json room) rfl
    (pickStoreEntryForUpsert_nil _ _ _) rfl (by simp) (by simp) (by simpa [limitEntry] using hroom)

theorem system_tier_owned_noted :
    ∃ json room, Allowed (storeStep (roomyEnv json room)) (KeepsOwner (roomyEnv json room)) none
        [.save quotaCall, .save userNoteCall] ∧
      ∀ e ∈ loadStoreEntries (roomyEnv json room).toStore (some .posInf)
          (run (storeStep (roomyEnv json room)) none [.save quotaCall, .save userNoteCall]),
        e.SystemOwned := by
  obtain ⟨json⟩ := Js.json_nonempty
  refine ⟨json, lineBytes json limitEntry, ?_⟩
  have hallowed : Allowed (storeStep (roomyEnv json (lineBytes json limitEntry)))
      (KeepsOwner (roomyEnv json (lineBytes json limitEntry))) none
      [.save quotaCall, .save userNoteCall] := by
    refine ⟨?_, ?_, trivial⟩
    · intro r hr _ x hx
      cases pickStoreEntryForUpsert_mem hx
    · intro r hr _ x hx _
      obtain rfl := Except.ok.inj ((userNoteCall_request json _).symm.trans hr)
      exact Or.inl rfl
  exact ⟨hallowed, system_tier_owned _ _ hallowed⟩

/-- The system entry under the name of the third source. -/
def takenEntry : MemoryStoreEntry :=
  { limitEntry with
    source := "inferred"
    confidence := max MIN_CONFIDENCE
      (min 1 ((DEFAULT_CONFIDENCE + DEFAULT_CONFIDENCE) / 2 + MIN_CONFIDENCE)) }

theorem loaded_taken (hlimit : lineBytes json limitEntry ≤ room)
    (hroom : lineBytes json takenEntry ≤ room) :
    loadStoreEntries (roomyEnv json room).toStore (some .posInf)
      (run (storeStep (roomyEnv json room)) none [.save quotaCall, .save inferredNoteCall]) =
        [takenEntry] := by
  have hended := (@storeStep_steps (roomyEnv json room) none (.save quotaCall)
    (by rintro raw ⟨⟩)).1
  have hcontent : mergeMemoryContent "2026-01-01" "Ten" "Ten" = "Ten" := by decide
  have hupdated : updatedEntry (roomyEnv json room).toSaveEnv inferredNoteCall
      (limitRequest "inferred" .observed) limitEntry = .ok takenEntry := by
    have hfields : updatedEntry (roomyEnv json room).toSaveEnv inferredNoteCall
        (limitRequest "inferred" .observed) limitEntry =
          .ok { takenEntry with content := mergeMemoryContent "2026-01-01" "Ten" "Ten" } := rfl
    rw [hfields, hcontent]
    rfl
  exact loaded_updating_save hended (inferredNoteCall_request json room)
    (loaded_limit json room hlimit) rfl rfl (by decide) rfl hupdated hroom

/-- A third source takes the system entry over, and the tier with it. -/
theorem inferred_note_owns_system_entry :
    ∃ json room, ∃ e ∈ loadStoreEntries (roomyEnv json room).toStore (some .posInf)
        (run (storeStep (roomyEnv json room)) none [.save quotaCall, .save inferredNoteCall]),
      e.trustTier = .system ∧ e.source = "inferred" ∧ ¬ e.SystemOwned := by
  obtain ⟨json⟩ := Js.json_nonempty
  refine ⟨json, lineBytes json limitEntry + lineBytes json takenEntry, takenEntry, ?_, rfl, rfl, ?_⟩
  · rw [loaded_taken json _ (Nat.le_add_right _ _) (Nat.le_add_left _ _)]
    exact List.mem_singleton_self _
  · intro h
    exact absurd (h rfl) (by decide)

end Example

end T560.Memory
