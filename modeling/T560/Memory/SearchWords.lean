import T560.Foundation.Words
import T560.Js.PropertyMap
import T560.Memory.Isolation
import T560.Memory.Trust

/-!
# Words that a search finds

A query is cut into tokens, and tokens are replaced by their canonical forms; the text of an entry
is only lower-cased. An entry with a word of the query is found when the word is the whole query or
contains one of the tokens, and only then.
-/

namespace T560.Memory

open Js (Value Runtime isSpace isAscii trim units includes includes_iff)

/-- The letters and digits among the characters: in ASCII the usual ones, and no white space. -/
structure Letters where
  isLetter : Char → Bool
  ascii : ∀ c, isAscii c = true →
    isLetter c = (isLowerAlnum c || (65 ≤ c.toNat && c.toNat ≤ 90))
  space : ∀ c, isSpace c = true → isLetter c = false

/-- What a runtime's lower-casing does around a line break or a blank, and that a text it leaves
alone has no part it would change. -/
structure LowersByPart (rt : Runtime) : Prop where
  line : ∀ a b, rt.toLowerCase (a ++ "\n" ++ b) = rt.toLowerCase a ++ "\n" ++ rt.toLowerCase b
  blank : ∀ a b, rt.toLowerCase (a ++ " " ++ b) = rt.toLowerCase a ++ " " ++ rt.toLowerCase b
  fixed : ∀ a b, rt.toLowerCase (a ++ b) = a ++ b → rt.toLowerCase a = a ∧ rt.toLowerCase b = b

section Words
variable (L : Letters)

/-- The maximal runs of letters and digits. -/
def words (text : String) : List String :=
  ((text.toList.splitOnP fun c => !L.isLetter c).map String.ofList).filter (· ≠ "")

/-- The words of at least four units among the first 24 distinct words. -/
def longWords (query : String) : List String :=
  ((words L query).eraseDups.take 24).filter fun w => 4 ≤ (units w).length

/-- The title, the content or a tag has the word, letter case aside. -/
def HasWord (rt : Runtime) (w : String) (e : MemoryStoreEntry) : Prop :=
  w ∈ words L (rt.toLowerCase e.title) ∨ w ∈ words L (rt.toLowerCase e.content) ∨
    ∃ tag ∈ e.tags, w ∈ words L (rt.toLowerCase tag)

/-- Every scanned entry of the scope with a long word of the query is a hit of the search, and a
list that keeps the entry keeps it when it asks for the query. -/
def FindsWords (env : ReadEnv) (r : SearchRequest) : Prop :=
  ∀ w ∈ longWords L r.query, ∀ file, ∀ e ∈ loadStoreEntries env.toStore none file,
    entryMatchesScope e r.scope = true → HasWord L env.rt w e →
      (∀ now, r.hit env now e ∈ r.searchStoreEntries env now
        ((loadStoreEntries env.toStore none file).filter (entryMatchesScope · r.scope))) ∧
      ∀ list : ListRequest, ({ list with query := "" } : ListRequest).keeps env e = true →
        ({ list with query := r.query } : ListRequest).keeps env e = true

/-- The word is the whole query or contains one of its tokens. -/
def Covered (rt : Runtime) (query w : String) : Prop :=
  w = query ∨ ∃ t ∈ tokenizeQuery rt query, includes w t = true

variable {L} {rt : Runtime} {w text query : String}

theorem infix_of_mem_words (h : w ∈ words L text) : w.toList <:+: text.toList := by
  obtain ⟨run, hrun, rfl⟩ := List.mem_map.mp (List.mem_of_mem_filter h)
  rw [String.toList_ofList]
  exact Words.infix_of_mem_splitOnP hrun

theorem ne_empty_of_mem_words (h : w ∈ words L text) : w ≠ "" := by
  simpa using (List.mem_filter.mp h).2

theorem isLetter_of_mem_words (h : w ∈ words L text) : ∀ c ∈ w.toList, L.isLetter c = true := by
  obtain ⟨run, hrun, rfl⟩ := List.mem_map.mp (List.mem_of_mem_filter h)
  intro c hc
  rw [String.toList_ofList] at hc
  have hsep := Words.no_separator_of_mem_splitOnP hrun c hc
  simpa using hsep

/-- A word is the only word of its own text. -/
theorem mem_words_self (h : w ∈ words L text) : w ∈ words L w := by
  have hrun : w.toList.splitOnP (fun c => !L.isLetter c) = [w.toList] :=
    List.splitOnP_eq_singleton fun c hc => by rw [isLetter_of_mem_words h c hc]; rfl
  unfold words
  rw [hrun, List.map_singleton, String.ofList_toList, List.filter_cons_of_pos]
  · exact List.mem_singleton_self w
  · simpa using ne_empty_of_mem_words h

theorem mem_words_of_long (h : w ∈ longWords L query) : w ∈ words L query :=
  List.mem_eraseDups.mp (List.mem_of_mem_take (List.mem_of_mem_filter h))

theorem trimmed_of_mem_words (h : w ∈ words L text) : Trimmed w := by
  refine ⟨Js.trim_eq_self_of_noSpace fun c hc => ?_, ne_empty_of_mem_words h⟩
  by_contra hspace
  have hletter := isLetter_of_mem_words h c hc
  rw [L.space c (by simpa using hspace)] at hletter
  cases hletter

/-- A part of a text that lower-casing leaves alone is left alone too. -/
theorem lower_part (hl : LowersByPart rt) (htext : rt.toLowerCase text = text)
    (h : w.toList <:+: text.toList) : rt.toLowerCase w = w := by
  obtain ⟨front, back, hsplit⟩ := h
  have hjoin : text = String.ofList front ++ w ++ String.ofList back := by
    rw [← String.toList_inj]
    simp [← hsplit]
  rw [hjoin] at htext
  exact (hl.fixed _ _ (hl.fixed _ _ htext).1).2

end Words

section Tokens
variable {rt : Runtime} {query t : String}

theorem isLowerAlnum_of_canonical {raw : String} (hraw : ∀ c ∈ raw.toList, isLowerAlnum c = true)
    (h : canonicalizeToken raw = some t) : ∀ c ∈ t.toList, isLowerAlnum c = true := by
  have hdrop : ∀ n, ∀ c ∈ (dropEnd raw n).toList, isLowerAlnum c = true := by
    intro n c hc
    rw [dropEnd, String.toList_ofList] at hc
    exact hraw c (List.mem_of_mem_take hc)
  have htable : ∀ row ∈ TOKEN_ALIASES, ∀ c ∈ row.2.toList, isLowerAlnum c = true := by
    decide
  unfold canonicalizeToken at h
  cases hlookup : TOKEN_ALIASES.lookup raw with
  | some canonical =>
    rw [hlookup] at h
    obtain rfl := Option.some.inj h
    exact htable _ (Js.PropertyMap.mem_of_lookup hlookup)
  | none =>
    rw [hlookup] at h
    dsimp only at h
    split at h
    · cases h
    · split at h
      · obtain rfl := Option.some.inj h
        exact hdrop 3
      · split at h
        · obtain rfl := Option.some.inj h
          exact hdrop 2
        · split at h
          · obtain rfl := Option.some.inj h
            exact hdrop 1
          · obtain rfl := Option.some.inj h
            exact hraw

/-- The tokens of a query are longer than one, and have lower-case letters and digits only. -/
theorem tokenizeQuery_spec (h : t ∈ tokenizeQuery rt query) :
    1 < t.length ∧ ∀ c ∈ t.toList, isLowerAlnum c = true := by
  have hmem := List.mem_eraseDups.mp (List.mem_of_mem_take h)
  obtain ⟨htoken, hlong⟩ := List.mem_filter.mp hmem
  obtain ⟨raw, hraw, hcanonical⟩ := List.mem_filterMap.mp htoken
  refine ⟨by simpa using hlong, isLowerAlnum_of_canonical ?_ hcanonical⟩
  obtain ⟨run, hrun, rfl⟩ := List.mem_map.mp hraw
  intro c hc
  rw [String.toList_ofList] at hc
  have hsep := Words.no_separator_of_mem_splitOnP hrun c hc
  simpa using hsep

theorem computeScore_pos_iff {text : String} {tokens : List String} :
    0 < computeScore rt text query tokens ↔
      (query ≠ "" ∧ includes (rt.toLowerCase text) query = true) ∨
        ∃ t ∈ tokens, includes (rt.toLowerCase text) t = true := by
  have hcount : 0 < countMatchedTokens rt text tokens ↔
      ∃ t ∈ tokens, includes (rt.toLowerCase text) t = true := List.countP_pos_iff
  rw [← hcount]
  unfold computeScore
  by_cases hwhole : query ≠ "" ∧ includes (rt.toLowerCase text) query = true
  · have hpoints : (decide (query ≠ "") && includes (rt.toLowerCase text) query) = true := by
      simpa using hwhole
    rw [if_pos hpoints]
    constructor
    · intro _
      exact .inl hwhole
    · intro _
      omega
  · have hpoints : ¬ (decide (query ≠ "") && includes (rt.toLowerCase text) query) = true := by
      simpa using hwhole
    rw [if_neg hpoints]
    constructor
    · intro h
      exact .inr (by omega)
    · rintro (h | h)
      · exact (hwhole h).elim
      · omega

end Tokens

section Haystack
variable {L : Letters} {rt : Runtime} {w query : String} {e : MemoryStoreEntry}

theorem lower_haystack (hl : LowersByPart rt) (e : MemoryStoreEntry) :
    rt.toLowerCase (haystack e) = rt.toLowerCase e.title ++ "\n" ++ (rt.toLowerCase e.content ++
      "\n" ++ rt.toLowerCase (String.intercalate " " e.tags)) := by
  have hassoc : haystack e = e.title ++ "\n" ++ (e.content ++ "\n" ++ String.intercalate " " e.tags) := by
    simp only [haystack, String.append_assoc]
  rw [hassoc, hl.line, hl.line]

theorem infix_lower_intercalate (hl : LowersByPart rt) {tag : String} {tags : List String}
    (h : tag ∈ tags) :
    (rt.toLowerCase tag).toList <:+: (rt.toLowerCase (String.intercalate " " tags)).toList := by
  induction tags with
  | nil => cases h
  | cons first rest ih =>
    cases rest with
    | nil =>
      obtain rfl := List.mem_singleton.mp h
      exact List.infix_rfl
    | cons second rest =>
      have hjoin : String.intercalate " " (first :: second :: rest) =
          first ++ " " ++ String.intercalate " " (second :: rest) := String.intercalate_cons_cons
      rw [hjoin, hl.blank, String.toList_append, String.toList_append]
      rcases List.mem_cons.mp h with rfl | h
      · exact ((List.prefix_append _ _).trans (List.prefix_append _ _)).isInfix
      · exact (ih h).trans (List.suffix_append _ _).isInfix

/-- A word of an entry stands in the text that is searched. -/
theorem includes_of_hasWord (hl : LowersByPart rt) (h : HasWord L rt w e) :
    includes (rt.toLowerCase (haystack e)) w = true := by
  rw [includes_iff, lower_haystack hl]
  simp only [String.toList_append]
  rcases h with h | h | ⟨tag, htag, h⟩
  · exact (infix_of_mem_words h).trans
      ((List.prefix_append _ _).trans (List.prefix_append _ _)).isInfix
  · refine (infix_of_mem_words h).trans (List.IsInfix.trans ?_ (List.suffix_append _ _).isInfix)
    exact ((List.prefix_append _ _).trans (List.prefix_append _ _)).isInfix
  · refine (infix_of_mem_words h).trans ((infix_lower_intercalate hl htag).trans ?_)
    exact ((List.suffix_append _ _).trans (List.suffix_append _ _)).isInfix

/-- An entry with a covered word is found. -/
theorem score_of_covered (hl : LowersByPart rt) (hword : w ∈ words L query)
    (hcovered : Covered rt query w) (h : HasWord L rt w e) :
    0 < computeScore rt (haystack e) query (tokenizeQuery rt query) := by
  have hw := includes_of_hasWord hl h
  rw [computeScore_pos_iff]
  rcases hcovered with rfl | ⟨t, ht, htw⟩
  · exact .inl ⟨ne_empty_of_mem_words hword, hw⟩
  · refine .inr ⟨t, ht, ?_⟩
    rw [includes_iff] at hw htw ⊢
    exact htw.trans hw

end Haystack

section Missed
variable {L : Letters} {rt : Runtime} {w query mark : String} {e : MemoryStoreEntry}

/-- A part of the text of an entry that ends in no character behind its title is a part of the
title. -/
theorem infix_title_of_includes {part : String} (hlower : rt.toLowerCase (haystack e) = e.title ++
    ("\n" ++ mark ++ "\n")) (h : includes (rt.toLowerCase (haystack e)) part = true)
    (hne : part.toList ≠ []) (hlast : part.toList.getLast hne ∉ ("\n" ++ mark ++ "\n").toList) :
    includes e.title part = true := by
  rw [hlower, includes_iff, String.toList_append] at h
  rw [includes_iff]
  exact Words.infix_of_infix_append h hne hlast

/-- An entry whose title is the word and whose content is a mark that does not end the query is
found only for a covered word. -/
theorem covered_of_score (hl : LowersByPart rt) (hquery : trim query = query)
    (hfixed : rt.toLowerCase query = query) (hword : w ∈ words L query)
    (hmark : mark = "." ∨ mark = "!") (hend : ∀ c ∈ query.toList.getLast?, c ∉ mark.toList)
    (htitle : e.title = w) (hcontent : e.content = mark) (htags : e.tags = [])
    (h : 0 < computeScore rt (haystack e) query (tokenizeQuery rt query)) :
    Covered rt query w := by
  have hlowerMark : rt.toLowerCase mark = mark := by
    rcases hmark with rfl | rfl
    · exact rt.lower_ascii "." rfl
    · exact rt.lower_ascii "!" rfl
  have hwquery := infix_of_mem_words hword
  have hlower : rt.toLowerCase (haystack e) = e.title ++ ("\n" ++ mark ++ "\n") := by
    rw [lower_haystack hl, htitle, hcontent, htags, lower_part hl hfixed hwquery, hlowerMark]
    have hnone : rt.toLowerCase (String.intercalate " " []) = "" := rt.toLowerCase_empty
    rw [hnone, String.append_empty]
    simp only [String.append_assoc]
  rw [computeScore_pos_iff] at h
  rcases h with ⟨hne, h⟩ | ⟨t, ht, h⟩
  · left
    have hne' : query.toList ≠ [] := by simpa using hne
    have hpart := infix_title_of_includes hlower h hne' ?_
    · rw [htitle, includes_iff] at hpart
      have hsame := hwquery.eq_of_length_le hpart.length_le
      exact String.toList_inj.mp hsame
    · have hlast : query.toList.getLast? = some (query.toList.getLast hne') :=
        List.getLast?_eq_some_getLast hne'
      have hspace : isSpace (query.toList.getLast hne') = false :=
        Js.getLast?_trimChars (by rw [← Js.toList_trim, hquery]; exact hlast)
      intro hmem
      simp only [String.toList_append, List.mem_append] at hmem
      rcases hmem with (hfeed | hmem) | hfeed
      · rw [List.mem_singleton.mp hfeed] at hspace
        cases hspace
      · exact hend _ hlast hmem
      · rw [List.mem_singleton.mp hfeed] at hspace
        cases hspace
  · right
    obtain ⟨hlong, halnum⟩ := tokenizeQuery_spec ht
    have hne : t.toList ≠ [] := by
      intro hnil
      rw [← String.length_toList, hnil] at hlong
      cases hlong
    refine ⟨t, ht, ?_⟩
    rw [← htitle]
    refine infix_title_of_includes hlower h hne fun hmem => ?_
    have hletter := halnum _ (List.getLast_mem hne)
    rcases hmark with rfl | rfl
    · have htail : ∀ c ∈ ("\n" ++ "." ++ "\n").toList, isLowerAlnum c = false := by decide
      rw [htail _ hmem] at hletter
      cases hletter
    · have htail : ∀ c ∈ ("\n" ++ "!" ++ "\n").toList, isLowerAlnum c = false := by decide
      rw [htail _ hmem] at hletter
      cases hletter

end Missed

section Search
variable {L : Letters} {env : ReadEnv} {r : SearchRequest} {w : String}

theorem readSearch_query {params : Value} (h : readSearch env params = .ok r) :
    trim r.query = r.query ∧ env.rt.toLowerCase r.query = r.query := by
  unfold readSearch at h
  cases hquery : loweredText env.rt (params.get? "query") with
  | error e =>
    rw [hquery] at h
    cases h
  | ok query =>
    rw [hquery] at h
    dsimp only at h
    have hstable := loweredText_stable hquery
    split at h
    · cases h
    · cases hlimit : clampInt env.rt (params.get? "limit") 1 20 DEFAULT_SEARCH_LIMIT with
      | error e =>
        rw [hlimit] at h
        cases h
      | ok limit =>
        cases hscope : resolveScope env.toToolEnv params with
        | error e =>
          rw [hlimit, hscope] at h
          cases h
        | ok scope =>
          rw [hlimit, hscope] at h
          cases h
          exact hstable

theorem resolveScope_slug {params : Value} {scope : MemoryScope}
    (h : resolveScope env.toToolEnv params = .ok scope) :
    isSlug 1 64 scope.memoryNamespace = true := by
  obtain ⟨memoryNamespace, hspace, h⟩ := Js.exists_of_bind_ok h
  obtain ⟨tier, -, h⟩ := Js.exists_of_bind_ok h
  obtain rfl := Except.ok.inj h
  exact normalizeSlug_isSlug env.defaultNamespace_slug hspace

/-- A search finds the entries with a covered word, and so does a list. -/
theorem findsWords_of_covered (hl : LowersByPart env.rt)
    (h : ∀ w ∈ longWords L r.query, Covered env.rt r.query w) : FindsWords L env r := by
  intro w hw file e he hscope hword
  have hscore := score_of_covered hl (mem_words_of_long hw) (h w hw) hword
  constructor
  · intro now
    refine List.mem_map_of_mem (List.mem_filter.mpr ⟨List.mem_filter.mpr ⟨he, hscope⟩, ?_⟩)
    exact decide_eq_true hscore
  · intro list hkeeps
    simp only [ListRequest.keeps, Bool.and_eq_true] at hkeeps ⊢
    refine ⟨hkeeps.1, ?_⟩
    rw [decide_eq_true hscore, Bool.or_true]

/-- An entry of the scope with nothing but the word and a mark. -/
def wordEntry (scope : MemoryScope) (w mark : String) : MemoryStoreEntry where
  id := "w"
  title := w
  content := mark
  tags := []
  createdAt := newYear
  updatedAt := newYear
  lastAccessedAt := newYear
  reinforceCount := 0
  importance := 1
  confidence := 1
  source := "user"
  memoryNamespace := scope.memoryNamespace
  trustTier := .system

theorem wordEntry_normalized {rt : Js.Runtime} {scope : MemoryScope} {mark : String}
    (hscope : isSlug 1 64 scope.memoryNamespace = true) (hw : Trimmed w) (hmark : Trimmed mark) :
    Normalized rt (wordEntry scope w mark) where
  id := show Trimmed "w" by decide
  title := hw
  content := hmark
  createdAt := newYear_trimmed
  updatedAt := newYear_trimmed
  lastAccessedAt := newYear_trimmed
  reinforceCount := show (0 : Int) ≤ 0 ∧ (0 : Int) ≤ 10000 by decide
  tags := by
    intro tag htag
    cases htag
  tags_nodup := List.nodup_nil
  tags_length := Nat.zero_le _
  importance := show (1 : Int) ≤ 1 ∧ (1 : Int) ≤ 5 by decide
  confidence := by
    constructor
    · show MIN_CONFIDENCE ≤ 1
      norm_num [MIN_CONFIDENCE]
    · exact le_refl _
  source := show isSlug 2 32 "user" = true by decide
  memoryNamespace := hscope

/-- An uncovered word stands in an entry that the search does not find. -/
theorem missed_of_uncovered (hl : LowersByPart env.rt) (hquery : trim r.query = r.query)
    (hfixed : env.rt.toLowerCase r.query = r.query)
    (hslug : isSlug 1 64 r.scope.memoryNamespace = true) (hw : w ∈ longWords L r.query)
    (h : ¬ Covered env.rt r.query w) : ¬ FindsWords L env r := by
  intro hfinds
  have hword := mem_words_of_long hw
  obtain ⟨mark, hmark, hend⟩ : ∃ mark, (mark = "." ∨ mark = "!") ∧
      ∀ c ∈ r.query.toList.getLast?, c ∉ mark.toList := by
    by_cases hdot : r.query.toList.getLast? = some '.'
    · refine ⟨"!", .inr rfl, fun c hc => ?_⟩
      obtain rfl : c = '.' := by simpa [hdot] using hc.symm
      decide
    · refine ⟨".", .inl rfl, fun c hc hmem => hdot ?_⟩
      obtain rfl : c = '.' := by simpa using hmem
      exact hc
  have htrimmed : Trimmed mark := by
    rcases hmark with rfl | rfl
    · decide
    · decide
  let e := wordEntry r.scope w mark
  have hnorm : Normalized env.rt e := wordEntry_normalized hslug (trimmed_of_mem_words hword) htrimmed
  have hload := loadStoreEntries_one hnorm
  have hscope : entryMatchesScope e r.scope = true := by
    have hrank : r.scope.minTrustTier.rank ≤ TrustTier.system.rank := by
      cases r.scope.minTrustTier <;> decide
    simpa [entryMatchesScope, e, wordEntry] using hrank
  have hhas : HasWord L env.rt w e := by
    left
    show w ∈ words L (env.rt.toLowerCase w)
    rw [lower_part hl hfixed (infix_of_mem_words hword)]
    exact mem_words_self hword
  have hhit := (hfinds w hw _ e (by rw [hload]; exact List.mem_singleton_self e) hscope hhas).1 0
  obtain ⟨found, hfound, -⟩ := List.mem_map.mp hhit
  obtain ⟨hmem, hscore⟩ := List.mem_filter.mp hfound
  rw [hload] at hmem
  obtain rfl := List.mem_singleton.mp (List.mem_of_mem_filter hmem)
  exact h (covered_of_score hl hquery hfixed hword hmark hend rfl rfl rfl (of_decide_eq_true hscore))

/-- A search and a list find every long word of the query exactly when each of them is the whole
query or contains one of its tokens. -/
theorem search_finds_words_iff (env : ReadEnv) (L : Letters) (hl : LowersByPart env.rt)
    {params : Value} {r : SearchRequest} (h : readSearch env params = .ok r) :
    FindsWords L env r ↔ ∀ w ∈ longWords L r.query, Covered env.rt r.query w := by
  obtain ⟨hquery, hfixed⟩ := readSearch_query h
  have hslug := resolveScope_slug (readSearch_scope h)
  constructor
  · intro hfinds w hw
    by_contra hn
    exact missed_of_uncovered hl hquery hfixed hslug hw hn hfinds
  · intro hcovered
    exact findsWords_of_covered hl hcovered

end Search

section Ascii
variable {L : Letters} {rt : Runtime} {query w : String}

/-- The words whose canonical form is not a part of them, and the one that has none. -/
def rewrittenWords : List String :=
  ["automate", "automating", "deploy", "deploying", "auth", "authenticate", "prefs", "prefer",
    "preferred", "like", "likes", "pipeline", "pipelines", "constructor"]

/-- A word of at least four letters that is not rewritten contains its canonical form. -/
theorem canonicalizeToken_includes (hlong : 4 ≤ w.length) (hw : w ∉ rewrittenWords) :
    ∃ t, canonicalizeToken w = some t ∧ 1 < t.length ∧ includes w t = true := by
  have hdrop : ∀ n, n + 2 ≤ w.length →
      ∃ t, some (dropEnd w n) = some t ∧ 1 < t.length ∧ includes w t = true := by
    intro n hn
    refine ⟨_, rfl, ?_, ?_⟩
    · rw [dropEnd, String.length_ofList, List.length_take, String.length_toList]
      omega
    · rw [includes_iff, dropEnd, String.toList_ofList]
      exact (List.take_prefix _ _).isInfix
  have htable : ∀ row ∈ TOKEN_ALIASES, row.1 ∉ rewrittenWords →
      1 < row.2.length ∧ includes row.1 row.2 = true := by
    decide
  unfold canonicalizeToken
  cases hlookup : TOKEN_ALIASES.lookup w with
  | some canonical =>
    have hrow := htable _ (Js.PropertyMap.mem_of_lookup hlookup) hw
    exact ⟨canonical, rfl, hrow⟩
  | none =>
    dsimp only
    have hkept : w ≠ "constructor" := by
      rintro rfl
      exact hw (by decide)
    rw [if_neg hkept]
    split
    · next hing =>
      simp only [Bool.and_eq_true, decide_eq_true_eq] at hing
      exact hdrop 3 (by omega)
    · split
      · exact hdrop 2 (by omega)
      · split
        · exact hdrop 1 (by omega)
        · exact ⟨w, rfl, by omega, includes_iff.mpr List.infix_rfl⟩

/-- In a lower-cased ASCII query the words are what the tokens are made of. -/
theorem words_ascii (hascii : query.toList.all isAscii = true)
    (hfixed : rt.toLowerCase query = query) :
    words L query = (alnumWords rt query).filter (· ≠ "") := by
  have hlower : query.toList.map Char.toLower = query.toList := by
    have hmap := rt.lower_ascii query hascii
    rw [hfixed] at hmap
    simpa using (congrArg String.toList hmap).symm
  have hletter : ∀ c ∈ query.toList, L.isLetter c = isLowerAlnum c := by
    intro c hc
    have hsmall : ¬ (65 ≤ c.toNat ∧ c.toNat ≤ 90) := by
      intro hupper
      have hsame : c.toLower = c := 
        List.map_inj_left.mp (hlower.trans (List.map_id _).symm) c hc
      have hcode := Js.toNat_toLower_of_upper hupper
      rw [hsame] at hcode
      omega
    rw [L.ascii c (List.all_eq_true.mp hascii c hc)]
    have hfalse : (decide (65 ≤ c.toNat) && decide (c.toNat ≤ 90)) = false := by
      rw [Bool.eq_false_iff]
      simpa using hsmall
    rw [hfalse, Bool.or_false]
  unfold words alnumWords
  rw [hfixed, Words.splitOnP_congr fun c hc => by rw [hletter c hc]]

/-- A long word of an ASCII query that is not rewritten contains the token it gives. -/
theorem covered_of_ascii (hascii : query.toList.all isAscii = true)
    (hfixed : rt.toLowerCase query = query) (hw : w ∈ longWords L query)
    (hkept : w ∉ rewrittenWords) : Covered rt query w := by
  obtain ⟨hfirst, hunits⟩ := List.mem_filter.mp hw
  have hlong : 4 ≤ w.length := by
    have hpart := (infix_of_mem_words (mem_words_of_long hw)).subset
    rw [← Js.length_units fun c hc => ?_]
    · exact of_decide_eq_true hunits
    · have hc := List.all_eq_true.mp hascii c (hpart hc)
      simp only [isAscii, decide_eq_true_eq] at hc
      omega
  obtain ⟨t, hcanonical, hlength, hpart⟩ := canonicalizeToken_includes hlong hkept
  let token : String → Option String := fun raw => (canonicalizeToken raw).filter fun t => 1 < t.length
  have htoken : token w = some t := by
    simp only [token, hcanonical, Option.filter_some, hlength, decide_true, if_true]
  have htokens : ((alnumWords rt query).filterMap canonicalizeToken).filter (fun t => 1 < t.length) =
      (words L query).filterMap token := by
    rw [words_ascii hascii hfixed, List.filterMap_filter, List.filter_filterMap]
    refine List.filterMap_congr fun raw _ => ?_
    by_cases hraw : raw = ""
    · subst hraw
      rfl
    · simp [token, hraw]
  refine .inr ⟨t, ?_, hpart⟩
  rw [tokenizeQuery, htokens]
  exact Words.mem_take_eraseDups_filterMap hfirst htoken

end Ascii

section Example

def asciiLetters : Letters where
  isLetter c := isLowerAlnum c || (65 ≤ c.toNat && c.toNat ≤ 90)
  ascii _ _ := rfl
  space c h := by
    have hcode : ∀ n, 48 ≤ n → n ≤ 122 → isSpace (Char.ofNat n) = false := by decide
    by_contra hletter
    have hrange : 48 ≤ c.toNat ∧ c.toNat ≤ 122 := by
      simp only [isLowerAlnum, Bool.not_eq_false, Bool.or_eq_true, Bool.and_eq_true,
        decide_eq_true_eq] at hletter
      omega
    rw [← Char.ofNat_toNat c, hcode _ hrange.1 hrange.2] at h
    cases h

theorem ascii_lowersByPart : LowersByPart Js.asciiRuntime := by
  have happend : ∀ a b, Js.asciiLower (a ++ b) = Js.asciiLower a ++ Js.asciiLower b := by
    intro a b
    rw [← String.toList_inj]
    simp [Js.asciiLower]
  refine ⟨fun a b => ?_, fun a b => ?_, fun a b h => ?_⟩
  · show Js.asciiLower (a ++ "\n" ++ b) = Js.asciiLower a ++ "\n" ++ Js.asciiLower b
    rw [happend, happend]
    rfl
  · show Js.asciiLower (a ++ " " ++ b) = Js.asciiLower a ++ " " ++ Js.asciiLower b
    rw [happend, happend]
    rfl
  · have hlists := congrArg String.toList h
    simp only [Js.asciiRuntime, Js.asciiLower, String.toList_ofList, String.toList_append,
      List.map_append] at hlists
    obtain ⟨ha, hb⟩ := List.append_inj hlists (List.length_map _)
    exact ⟨String.toList_inj.mp (by simpa [Js.asciiRuntime, Js.asciiLower] using ha),
      String.toList_inj.mp (by simpa [Js.asciiRuntime, Js.asciiLower] using hb)⟩

def queryParams (query : String) : Value := .obj [("query", .str query)]

/-- A search without further parameters. -/
def plainSearch (query : String) : SearchRequest :=
  ⟨query, 8, true, true, true, ⟨"global", .unverified⟩⟩

theorem search_finds_words_notes :
    ∃ json room r, readSearch (roomyEnv json room) (queryParams "release notes") = .ok r ∧
      FindsWords asciiLetters (roomyEnv json room) r := by
  obtain ⟨json⟩ := Js.json_nonempty
  have hread : readSearch (roomyEnv json 0) (queryParams "release notes") =
      .ok (plainSearch "release notes") := rfl
  have hkept : ∀ w ∈ longWords asciiLetters "release notes", w ∉ rewrittenWords := by
    decide
  refine ⟨json, 0, _, hread, ?_⟩
  refine (search_finds_words_iff _ asciiLetters ascii_lowersByPart hread).mpr fun w hw => ?_
  exact covered_of_ascii (by decide) (show Js.asciiLower "release notes" = _ by decide) hw
    (hkept w hw)

theorem auth_not_found :
    ∃ json room r, readSearch (roomyEnv json room) (queryParams "auth setup") = .ok r ∧
      ¬ FindsWords asciiLetters (roomyEnv json room) r := by
  obtain ⟨json⟩ := Js.json_nonempty
  refine ⟨json, 0, plainSearch "auth setup", rfl, ?_⟩
  have hfixed : Js.asciiLower "auth setup" = "auth setup" := by decide
  have hlong : "auth" ∈ longWords asciiLetters "auth setup" := by decide
  refine missed_of_uncovered ascii_lowersByPart (by decide) hfixed (by decide) hlong ?_
  rintro (h | ⟨t, ht, hpart⟩)
  · exact absurd h (by decide)
  · have hnone : ∀ t ∈ tokenizeQuery Js.asciiRuntime "auth setup", includes "auth" t = false := by
      decide +kernel
    rw [hnone t ht] at hpart
    cases hpart

end Example

end T560.Memory
