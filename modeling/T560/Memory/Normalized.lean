import Mathlib.Data.List.Nodup
import T560.Js.Ascii
import T560.Memory.Replay

/-!
# Parsed entries are stable

An entry that came out of `parseStoreEntry` is `Normalized`, and the object written for a
normalized entry parses back to that entry.
-/

namespace T560.Memory

open Js (Value Runtime trim exists_of_bind_ok)
open Js.Value (trim_of_trimmedText)

def MemoryStoreEntry.toValue (e : MemoryStoreEntry) : Value :=
  .obj [("id", .str e.id), ("title", .str e.title), ("content", .str e.content),
    ("tags", .arr (e.tags.map .str)), ("createdAt", .str e.createdAt),
    ("updatedAt", .str e.updatedAt), ("lastAccessedAt", .str e.lastAccessedAt),
    ("reinforceCount", .num (.fin e.reinforceCount)), ("importance", .num (.fin e.importance)),
    ("confidence", .num (.fin e.confidence)), ("source", .str e.source),
    ("namespace", .str e.memoryNamespace), ("trustTier", .str e.trustTier.text)]

/-- A nonempty text without white space at its ends. -/
def Trimmed (s : String) : Prop := trim s = s ∧ s ≠ ""

instance (s : String) : Decidable (Trimmed s) := inferInstanceAs (Decidable (_ ∧ _))

/-- A tag as `normalizeTags` leaves it. -/
def IsTag (rt : Runtime) (tag : String) : Prop := Trimmed tag ∧ rt.toLowerCase tag = tag

structure Normalized (rt : Runtime) (e : MemoryStoreEntry) : Prop where
  id : Trimmed e.id
  title : Trimmed e.title
  content : Trimmed e.content
  createdAt : Trimmed e.createdAt
  updatedAt : Trimmed e.updatedAt
  lastAccessedAt : Trimmed e.lastAccessedAt
  reinforceCount : 0 ≤ e.reinforceCount ∧ e.reinforceCount ≤ 10000
  tags : ∀ tag ∈ e.tags, IsTag rt tag
  tags_nodup : e.tags.Nodup
  tags_length : e.tags.length ≤ MAX_TAGS
  importance : 1 ≤ e.importance ∧ e.importance ≤ 5
  confidence : MIN_CONFIDENCE ≤ e.confidence ∧ e.confidence ≤ 1
  source : isSlug 2 32 e.source = true
  memoryNamespace : isSlug 1 64 e.memoryNamespace = true

section Text
variable {rt : Runtime}

theorem loweredText_stable {v : Option Value} {s : String} (h : loweredText rt v = .ok s) :
    trim s = s ∧ rt.toLowerCase s = s := by
  obtain ⟨text, ht, h⟩ := exists_of_bind_ok h
  obtain rfl := Except.ok.inj h
  rw [rt.trim_lower, trim_of_trimmedText ht, rt.lower_lower]
  exact ⟨rfl, rfl⟩

theorem loweredText_str (s : String) :
    loweredText rt (some (.str s)) = .ok (rt.toLowerCase (trim s)) := by
  simp [loweredText]

theorem isSlugChar_toNat {c : Char} (h : isSlugChar c = true) :
    45 ≤ c.toNat ∧ c.toNat ≤ 122 ∧ ¬ (65 ≤ c.toNat ∧ c.toNat ≤ 90) := by
  simp only [isSlugChar, Bool.or_eq_true, Bool.and_eq_true, decide_eq_true_eq, beq_iff_eq] at h
  rcases h with ((((h | h) | rfl) | rfl) | rfl) | rfl
  · omega
  · omega
  · decide
  · decide
  · decide
  · decide

/-- Lower-casing and trimming leave a text of slug characters alone. -/
theorem lower_trim_slug {s : String} (h : s.toList.all isSlugChar = true) :
    rt.toLowerCase (trim s) = s :=
  Js.lower_trim_of_codes rt fun c hc => isSlugChar_toNat (List.all_eq_true.mp h c hc)

theorem all_slug {low high : Nat} {s : String} (h : isSlug low high s = true) :
    s.toList.all isSlugChar = true := by
  simp only [isSlug, Bool.and_eq_true] at h
  exact h.2

end Text

section Fields
variable {rt : Runtime}

theorem clampInt_bounds {v : Option Value} {lo hi fallback n : Int} (hlo : lo ≤ fallback)
    (hhi : fallback ≤ hi) (h : clampInt rt v lo hi fallback = .ok n) : lo ≤ n ∧ n ≤ hi := by
  obtain ⟨x, -, h⟩ := exists_of_bind_ok h
  cases x with
  | fin q =>
    obtain rfl := Except.ok.inj h
    omega
  | posInf =>
    obtain rfl := Except.ok.inj h
    exact ⟨hlo, hhi⟩
  | negInf =>
    obtain rfl := Except.ok.inj h
    exact ⟨hlo, hhi⟩
  | nan =>
    obtain rfl := Except.ok.inj h
    exact ⟨hlo, hhi⟩

theorem clampInt_stable {lo hi fallback n : Int} (hlo : lo ≤ n) (hhi : n ≤ hi) :
    clampInt rt (some (.num (.fin n))) lo hi fallback = .ok n := by
  show Except.ok (max lo (min hi ⌊(n : ℚ)⌋)) = Except.ok n
  rw [Int.floor_intCast]
  congr 1
  omega

theorem clampNumber_bounds {v : Option Value} {lo hi fallback q : ℚ} (hlo : lo ≤ fallback)
    (hhi : fallback ≤ hi) (h : clampNumber rt v lo hi fallback = .ok q) : lo ≤ q ∧ q ≤ hi := by
  obtain ⟨x, -, h⟩ := exists_of_bind_ok h
  cases x with
  | fin p =>
    obtain rfl := Except.ok.inj h
    exact ⟨le_max_left _ _, max_le (hlo.trans hhi) (min_le_left _ _)⟩
  | posInf =>
    obtain rfl := Except.ok.inj h
    exact ⟨hlo, hhi⟩
  | negInf =>
    obtain rfl := Except.ok.inj h
    exact ⟨hlo, hhi⟩
  | nan =>
    obtain rfl := Except.ok.inj h
    exact ⟨hlo, hhi⟩

theorem clampNumber_stable {lo hi fallback q : ℚ} (hlo : lo ≤ q) (hhi : q ≤ hi) :
    clampNumber rt (some (.num (.fin q))) lo hi fallback = .ok q := by
  show Except.ok (max lo (min hi q)) = Except.ok q
  rw [min_eq_right hhi, max_eq_right hlo]

theorem normalizeSlug_isSlug {low high : Nat} {fallback s : String} {v : Option Value}
    (hf : isSlug low high fallback = true) (h : normalizeSlug rt low high fallback v = .ok s) :
    isSlug low high s = true := by
  obtain ⟨text, -, h⟩ := exists_of_bind_ok h
  obtain rfl := Except.ok.inj h
  split_ifs with hs
  · simp only [Bool.and_eq_true] at hs
    exact hs.2
  · exact hf

theorem normalizeSlug_stable {low high : Nat} {fallback s : String} (hlow : 0 < low)
    (h : isSlug low high s = true) :
    normalizeSlug rt low high fallback (some (.str s)) = .ok s := by
  have hne : s ≠ "" := by
    rintro rfl
    simp only [isSlug, Bool.and_eq_true, decide_eq_true_eq] at h
    have := h.1.1
    simp only [String.toList_empty, List.length_nil] at this
    omega
  simp [normalizeSlug, loweredText_str, lower_trim_slug (all_slug h), hne, h]

theorem normalizeTrustTier_stable (tier fallback : TrustTier) :
    normalizeTrustTier rt (some (.str tier.text)) fallback = .ok tier := by
  have hslug : tier.text.toList.all isSlugChar = true := by cases tier <;> decide
  have hfind : (TRUST_TIERS.find? fun t => t.text == tier.text) = some tier := by
    cases tier <;> decide
  simp [normalizeTrustTier, loweredText_str, lower_trim_slug hslug, hfind]

/-- The tags collected so far, and what the loop makes of them. -/
structure Tags (rt : Runtime) (tags : List String) : Prop where
  isTag : ∀ tag ∈ tags, IsTag rt tag
  nodup : tags.Nodup
  length : tags.length ≤ MAX_TAGS

theorem collectTags_tags {rows : List Value} {out tags : List String} (hout : Tags rt out)
    (hlen : out.length < MAX_TAGS) (h : collectTags rt rows out = .ok tags) : Tags rt tags := by
  induction rows generalizing out with
  | nil =>
    obtain rfl := Except.ok.inj h
    exact hout
  | cons row rows ih =>
    obtain ⟨tag, htag, h⟩ := exists_of_bind_ok h
    obtain ⟨htrim, hlower⟩ := loweredText_stable htag
    split at h
    · exact ih hout hlen h
    · rename_i hnew
      simp only [Bool.or_eq_true, decide_eq_true_eq, List.contains_eq_mem, not_or] at hnew
      have hnext : Tags rt (out ++ [tag]) := by
        refine ⟨?_, ?_, by simp; omega⟩
        · intro t ht
          rcases List.mem_append.mp ht with ht | ht
          · exact hout.isTag t ht
          · obtain rfl := List.mem_singleton.mp ht
            exact ⟨⟨htrim, hnew.1⟩, hlower⟩
        · rw [List.nodup_append]
          refine ⟨hout.nodup, List.nodup_singleton _, ?_⟩
          intro a ha b hb
          obtain rfl := List.mem_singleton.mp hb
          rintro rfl
          exact hnew.2 ha
      split at h
      · obtain rfl := Except.ok.inj h
        exact hnext
      · rename_i hmore
        exact ih hnext (by omega) h

theorem normalizeTags_tags {v : Option Value} {tags : List String}
    (h : normalizeTags rt v = .ok tags) : Tags rt tags := by
  have hnil : Tags rt [] := ⟨by simp, List.nodup_nil, by simp⟩
  unfold normalizeTags at h
  split at h
  · exact collectTags_tags hnil (by decide) h
  · obtain rfl := Except.ok.inj h
    exact hnil

theorem collectTags_stable {out tags : List String} (h : Tags rt (out ++ tags)) :
    collectTags rt (tags.map Value.str) out = .ok (out ++ tags) := by
  induction tags generalizing out with
  | nil =>
    rw [List.append_nil]
    rfl
  | cons tag tags ih =>
    obtain ⟨⟨htrim, hne⟩, hlower⟩ := h.isTag tag (by simp)
    have hnew : tag ∉ out := by
      have := (List.nodup_append.mp h.nodup).2.2
      intro hin
      exact this tag hin tag (by simp) rfl
    have hassoc : out ++ tag :: tags = (out ++ [tag]) ++ tags := by simp
    rw [hassoc] at h ⊢
    rw [List.map_cons, collectTags, loweredText_str, htrim, hlower]
    simp only [Js.ok_bind, hne, hnew, decide_false, List.contains_eq_mem, Bool.or_self,
      Bool.false_eq_true, if_false]
    split_ifs with hfull
    · cases tags with
      | nil =>
        rw [List.append_nil]
        rfl
      | cons t tags =>
        have := h.length
        simp only [List.length_append, List.length_cons] at this hfull
        omega
    · exact ih h

end Fields

theorem normalized_of_entry {rt : Runtime} {raw : Value} {e : MemoryStoreEntry}
    (h : parseStoreEntry rt raw = .ok (some e)) : Normalized rt e := by
  have f := parseStoreEntry_fields h
  have htags := normalizeTags_tags f.tags
  have hcreated : Trimmed e.createdAt := ⟨trim_of_trimmedText f.createdAt, f.createdAt_ne⟩
  have hupdated : Trimmed e.updatedAt := by
    rcases f.updatedAt with hu | ⟨vs, hu, hne⟩
    · rw [hu]
      exact hcreated
    · exact ⟨trim_of_trimmedText hu, hne⟩
  have haccessed : Trimmed e.lastAccessedAt := by
    rcases f.lastAccessedAt with hl | ⟨vs, hl, hne⟩
    · rw [hl]
      exact hupdated
    · exact ⟨trim_of_trimmedText hl, hne⟩
  exact {
    id := ⟨trim_of_trimmedText f.id, f.id_ne⟩
    title := ⟨trim_of_trimmedText f.title, f.title_ne⟩
    content := ⟨trim_of_trimmedText f.content, f.content_ne⟩
    createdAt := hcreated
    updatedAt := hupdated
    lastAccessedAt := haccessed
    reinforceCount := clampInt_bounds (by decide) (by decide) f.reinforceCount
    tags := htags.isTag
    tags_nodup := htags.nodup
    tags_length := htags.length
    importance := clampInt_bounds (by decide) (by decide) f.importance
    confidence := clampNumber_bounds (by norm_num [MIN_CONFIDENCE, DEFAULT_CONFIDENCE])
      (by norm_num [DEFAULT_CONFIDENCE]) f.confidence
    source := normalizeSlug_isSlug (by decide) f.source
    memoryNamespace := normalizeSlug_isSlug (by decide) f.memoryNamespace }

/-- A normalized entry survives being written and parsed. -/
theorem parseStoreEntry_toValue {rt : Runtime} {e : MemoryStoreEntry} (h : Normalized rt e) :
    parseStoreEntry rt e.toValue = .ok (some e) := by
  have htags : normalizeTags rt (some (.arr (e.tags.map .str))) = .ok e.tags :=
    @collectTags_stable rt [] e.tags ⟨h.tags, h.tags_nodup, h.tags_length⟩
  have hsource : normalizeSource rt (some (.str e.source)) "user" = .ok e.source :=
    normalizeSlug_stable (by decide) h.source
  have hspace : normalizeNamespace rt (some (.str e.memoryNamespace)) DEFAULT_NAMESPACE =
      .ok e.memoryNamespace := normalizeSlug_stable (by decide) h.memoryNamespace
  unfold parseStoreEntry
  rw [show e.toValue.isRecord = true from rfl,
    show e.toValue.get? "id" = some (.str e.id) from rfl,
    show e.toValue.get? "title" = some (.str e.title) from rfl,
    show e.toValue.get? "content" = some (.str e.content) from rfl,
    show e.toValue.get? "createdAt" = some (.str e.createdAt) from rfl,
    show e.toValue.get? "updatedAt" = some (.str e.updatedAt) from rfl,
    show e.toValue.get? "lastAccessedAt" = some (.str e.lastAccessedAt) from rfl,
    show e.toValue.get? "reinforceCount" = some (.num (.fin e.reinforceCount)) from rfl,
    show e.toValue.get? "tags" = some (.arr (e.tags.map .str)) from rfl,
    show e.toValue.get? "importance" = some (.num (.fin e.importance)) from rfl,
    show e.toValue.get? "confidence" = some (.num (.fin e.confidence)) from rfl,
    show e.toValue.get? "source" = some (.str e.source) from rfl,
    show e.toValue.get? "namespace" = some (.str e.memoryNamespace) from rfl,
    show e.toValue.get? "trustTier" = some (.str e.trustTier.text) from rfl]
  simp only [Bool.not_true, Bool.false_eq_true, if_false, Js.Value.trimmedText_str, Js.ok_bind,
    h.id.1, h.title.1, h.content.1, h.createdAt.1, h.updatedAt.1, h.lastAccessedAt.1,
    clampInt_stable h.reinforceCount.1 h.reinforceCount.2, htags,
    clampInt_stable h.importance.1 h.importance.2,
    clampNumber_stable h.confidence.1 h.confidence.2, hsource, hspace, normalizeTrustTier_stable,
    h.id.2, h.title.2, h.content.2, h.createdAt.2, h.updatedAt.2, h.lastAccessedAt.2,
    decide_false, Bool.or_self]
  rfl

theorem parseStoreDeleteMarker_toValue (rt : Runtime) (e : MemoryStoreEntry) :
    parseStoreDeleteMarker rt e.toValue = .ok none := by
  have hlower : rt.toLowerCase (trim "") = "" := lower_trim_slug rfl
  have htype : loweredText rt none = .ok "" := by
    simp only [loweredText, Js.Value.trimmedText_absent, Js.ok_bind]
    exact congrArg Except.ok hlower
  unfold parseStoreDeleteMarker
  rw [show e.toValue.isRecord = true from rfl, show e.toValue.get? "type" = none from rfl, htype]
  simp only [Bool.not_true, Bool.false_eq_true, if_false, Js.ok_bind]
  rfl

end T560.Memory
