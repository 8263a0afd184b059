import T560.Foundation.Choice
import T560.Js.Ascii
import T560.Memory.Similarity

/-! The model id of a request among the ids that a local server offers. -/
namespace T560.Provider

open Js (Runtime trim asciiRuntime includes)
open Memory (alnumWords isLowerAlnum)
open Choice (only frontRunner)

section Remap
variable (rt : Runtime)

def normalizeModelLookupKey (value : String) : String :=
  String.ofList ((rt.toLowerCase value).toList.filter isLowerAlnum)

def modelIdTail (value : String) : String :=
  let trimmed := trim value
  if trimmed = "" then ""
  else trim (String.ofList ((trimmed.toList.splitOnP (· = '/')).getLastD []))

def modelTokens (value : String) : List String :=
  ((alnumWords rt value).map trim).filter fun token => 2 ≤ token.length

def scoreModelSimilarity (requested candidate : String) : Nat :=
  let req := trim requested
  let cand := trim candidate
  if req = "" ∨ cand = "" then 0
  else
    let reqLower := rt.toLowerCase req
    let candLower := rt.toLowerCase cand
    if reqLower = candLower then 100
    else
      let reqKey := normalizeModelLookupKey rt req
      let candKey := normalizeModelLookupKey rt cand
      let reqTail := modelIdTail req
      let candTail := modelIdTail cand
      let reqTailLower := rt.toLowerCase reqTail
      let candTailLower := rt.toLowerCase candTail
      let reqTailKey := normalizeModelLookupKey rt reqTail
      let candTailKey := normalizeModelLookupKey rt candTail
      let sameTail := if reqTailLower ≠ "" ∧ reqTailLower = candTailLower then 40 else 0
      let sameTailKey := if reqTailKey ≠ "" ∧ reqTailKey = candTailKey then 35 else 0
      let likeKey :=
        if reqKey ≠ "" ∧ candKey ≠ "" then
          if reqKey = candKey then 30
          else if includes reqKey candKey ∨ includes candKey reqKey then 20
          else 0
        else 0
      let likeId := if includes reqLower candLower ∨ includes candLower reqLower then 10 else 0
      let likeTail :=
        if reqTailLower ≠ "" ∧ candTailLower ≠ "" ∧
            (includes reqTailLower candTailLower ∨ includes candTailLower reqTailLower) then 10
        else 0
      let reqTokens := (modelTokens rt (if reqTail ≠ "" then reqTail else req)).eraseDups
      let candTokens := modelTokens rt (if candTail ≠ "" then candTail else cand)
      let overlap := (reqTokens.filter (candTokens.contains ·)).length
      sameTail + sameTailKey + likeKey + likeId + likeTail + overlap * 2

/-- An empty id counts as not found. -/
def exactCaseInsensitive (trimmed : String) (available : List String) : Option String :=
  (available.find? fun entry => rt.toLowerCase entry = rt.toLowerCase trimmed).filter (· ≠ "")

def keyMatch (trimmed : String) (available : List String) : Option String :=
  only (available.filter fun entry =>
    normalizeModelLookupKey rt entry = normalizeModelLookupKey rt trimmed)

def tailMatch (trimmed : String) (available : List String) : Option String :=
  let requestedTail := modelIdTail trimmed
  if requestedTail = "" then none
  else
    (only (available.filter fun entry =>
        rt.toLowerCase (modelIdTail entry) = rt.toLowerCase requestedTail)).or
      (only (available.filter fun entry =>
        normalizeModelLookupKey rt (modelIdTail entry) = normalizeModelLookupKey rt requestedTail))

def bestMatch (trimmed : String) (available : List String) : Option String :=
  (frontRunner Prod.snd 8 4
    (available.map fun entry => (entry, scoreModelSimilarity rt trimmed entry))).map Prod.fst

def remapModelIdFromAvailable (requested : String) (available : List String) : String :=
  let trimmed := trim requested
  if trimmed = "" ∨ available = [] then trimmed
  else
    match exactCaseInsensitive rt trimmed available with
    | some entry => entry
    | none =>
      if normalizeModelLookupKey rt trimmed = "" then trimmed
      else
        -- If only one model is available, it is used whatever was asked for.
        ((((keyMatch rt trimmed available).or (tailMatch rt trimmed available)).or
          (bestMatch rt trimmed available)).or (only available)).getD trimmed

end Remap

section Stages
variable {rt : Runtime} {trimmed entry : String} {available other : List String}

/-- The ids differ pairwise, whatever the case of their letters. -/
def CaseDistinct (rt : Runtime) (available : List String) : Prop :=
  available.Pairwise fun a b => rt.toLowerCase a ≠ rt.toLowerCase b

theorem eq_of_lower_eq {a b : String} (h : CaseDistinct rt available) (ha : a ∈ available)
    (hb : b ∈ available) (hab : rt.toLowerCase a = rt.toLowerCase b) : a = b := by
  have hmap : (available.map rt.toLowerCase).Nodup := List.pairwise_map.mpr h
  exact List.inj_on_of_nodup_map hmap ha hb hab

theorem exactCaseInsensitive_spec (h : exactCaseInsensitive rt trimmed available = some entry) :
    entry ∈ available ∧ rt.toLowerCase entry = rt.toLowerCase trimmed := by
  obtain ⟨hfind, -⟩ := Option.filter_eq_some_iff.mp h
  have hsame := List.find?_some hfind
  exact ⟨List.mem_of_find?_eq_some hfind, by simpa using hsame⟩

/-- Nothing but the empty text has an empty lower-case form, so a match is not passed over. -/
theorem exists_exactCaseInsensitive (hlower : ∀ s, rt.toLowerCase s = "" → s = "")
    (hne : trimmed ≠ "") (hin : entry ∈ available)
    (hsame : rt.toLowerCase entry = rt.toLowerCase trimmed) :
    ∃ found, exactCaseInsensitive rt trimmed available = some found := by
  cases hfind : available.find? fun entry => rt.toLowerCase entry = rt.toLowerCase trimmed with
  | none =>
    have hmiss := List.find?_eq_none.mp hfind entry hin
    exact absurd (by simpa using hsame) hmiss
  | some found =>
    have hfound : rt.toLowerCase found = rt.toLowerCase trimmed := by
      simpa using List.find?_some hfind
    have hnonempty : found ≠ "" := by
      rintro rfl
      rw [rt.toLowerCase_empty] at hfound
      exact hne (hlower trimmed hfound.symm)
    exact ⟨found, Option.filter_eq_some_iff.mpr ⟨hfind, by simpa using hnonempty⟩⟩

theorem mem_of_keyMatch (h : keyMatch rt trimmed available = some entry) : entry ∈ available :=
  Choice.mem_of_only_filter h

theorem mem_of_tailMatch (h : tailMatch rt trimmed available = some entry) : entry ∈ available := by
  unfold tailMatch at h
  dsimp only at h
  split at h
  · cases h
  · rcases Option.or_eq_some_iff.mp h with h | ⟨-, h⟩ <;> exact Choice.mem_of_only_filter h

theorem mem_of_bestMatch (h : bestMatch rt trimmed available = some entry) : entry ∈ available := by
  obtain ⟨⟨best, score⟩, hbest, rfl⟩ := Option.map_eq_some_iff.mp h
  have hmem := Choice.mem_of_frontRunner Prod.snd 8 4 (by omega) hbest
  obtain ⟨found, hfound, heq⟩ := List.mem_map.mp hmem
  obtain ⟨rfl, -⟩ := Prod.mk.inj heq
  exact hfound

theorem exactCaseInsensitive_perm (hdistinct : CaseDistinct rt available)
    (h : available.Perm other) :
    exactCaseInsensitive rt trimmed available = exactCaseInsensitive rt trimmed other := by
  have hone : ∀ a ∈ available, ∀ b ∈ available,
      decide (rt.toLowerCase a = rt.toLowerCase trimmed) = true →
      decide (rt.toLowerCase b = rt.toLowerCase trimmed) = true → a = b := by
    intro a ha b hb hsame hsame'
    have heq := (of_decide_eq_true hsame).trans (of_decide_eq_true hsame').symm
    exact eq_of_lower_eq hdistinct ha hb heq
  rw [exactCaseInsensitive, Choice.find?_perm h hone, exactCaseInsensitive]

theorem keyMatch_perm (h : available.Perm other) :
    keyMatch rt trimmed available = keyMatch rt trimmed other :=
  Choice.only_perm (h.filter _)

theorem tailMatch_perm (h : available.Perm other) :
    tailMatch rt trimmed available = tailMatch rt trimmed other := by
  unfold tailMatch
  dsimp only
  rw [Choice.only_perm (h.filter fun entry => decide (rt.toLowerCase (modelIdTail entry) = _)),
    Choice.only_perm (h.filter fun entry =>
      decide (normalizeModelLookupKey rt (modelIdTail entry) = _))]

theorem bestMatch_perm (h : available.Perm other) :
    bestMatch rt trimmed available = bestMatch rt trimmed other := by
  rw [bestMatch, Choice.frontRunner_perm Prod.snd 8 4 (by omega) (h.map _), bestMatch]

end Stages

section Remapping
variable {rt : Runtime} {requested : String} {available other : List String}

theorem remap_mem_or (rt : Runtime) (requested : String) (available : List String) :
    remapModelIdFromAvailable rt requested available ∈ available ∨
      remapModelIdFromAvailable rt requested available = trim requested := by
  unfold remapModelIdFromAvailable
  dsimp only
  split
  · exact .inr rfl
  · split
    · rename_i entry hexact
      exact .inl (exactCaseInsensitive_spec hexact).1
    · split
      · exact .inr rfl
      · cases hstage : ((((keyMatch rt (trim requested) available).or
            (tailMatch rt (trim requested) available)).or
            (bestMatch rt (trim requested) available)).or (only available)) with
        | none => exact .inr rfl
        | some entry =>
          refine .inl ?_
          rw [Option.getD_some]
          simp only [Option.or_eq_some_iff] at hstage
          rcases hstage with ((hkey | ⟨-, htail⟩) | ⟨-, hbest⟩) | ⟨-, honly⟩
          · exact mem_of_keyMatch hkey
          · exact mem_of_tailMatch htail
          · exact mem_of_bestMatch hbest
          · rw [Choice.only_eq_some_iff.mp honly]
            exact List.mem_singleton_self entry

theorem remap_exact (hlower : ∀ s, rt.toLowerCase s = "" → s = "")
    (hexact : ∃ entry ∈ available, rt.toLowerCase entry = rt.toLowerCase (trim requested)) :
    remapModelIdFromAvailable rt requested available ∈ available ∧
      rt.toLowerCase (remapModelIdFromAvailable rt requested available) =
        rt.toLowerCase (trim requested) := by
  obtain ⟨entry, hin, hsame⟩ := hexact
  unfold remapModelIdFromAvailable
  dsimp only
  by_cases hempty : trim requested = ""
  · rw [if_pos (.inl hempty), hempty]
    rw [hempty, rt.toLowerCase_empty] at hsame
    rw [hlower entry hsame] at hin
    exact ⟨hin, rfl⟩
  · have hsome : available ≠ [] := List.ne_nil_of_mem hin
    obtain ⟨found, hfound⟩ := exists_exactCaseInsensitive hlower hempty hin hsame
    rw [if_neg (not_or.mpr ⟨hempty, hsome⟩), hfound]
    exact exactCaseInsensitive_spec hfound

theorem remap_perm (hdistinct : CaseDistinct rt available) (h : available.Perm other) :
    remapModelIdFromAvailable rt requested other =
      remapModelIdFromAvailable rt requested available := by
  have hnil : other = [] ↔ available = [] := by
    constructor
    · rintro rfl
      exact h.eq_nil
    · rintro rfl
      exact h.symm.eq_nil
  simp only [remapModelIdFromAvailable, hnil, exactCaseInsensitive_perm hdistinct h,
    keyMatch_perm h, tailMatch_perm h, bestMatch_perm h, Choice.only_perm h]

theorem remap_is_safe_and_independent_of_order (rt : Runtime)
    (hlower : ∀ s, rt.toLowerCase s = "" → s = "") (requested : String)
    (available : List String) :
    (remapModelIdFromAvailable rt requested available ∈ available ∨
        remapModelIdFromAvailable rt requested available = trim requested) ∧
      ((∃ entry ∈ available, rt.toLowerCase entry = rt.toLowerCase (trim requested)) →
        remapModelIdFromAvailable rt requested available ∈ available ∧
          rt.toLowerCase (remapModelIdFromAvailable rt requested available) =
            rt.toLowerCase (trim requested)) ∧
      (CaseDistinct rt available → ∀ other, available.Perm other →
        remapModelIdFromAvailable rt requested other =
          remapModelIdFromAvailable rt requested available) :=
  ⟨remap_mem_or rt requested available, remap_exact hlower,
    fun hdistinct _ h => remap_perm hdistinct h⟩

theorem remap_of_two_ids :
    (remapModelIdFromAvailable asciiRuntime "GPT-4" ["gpt-4o", "gpt-4"] ∈ ["gpt-4o", "gpt-4"] ∧
        asciiRuntime.toLowerCase (remapModelIdFromAvailable asciiRuntime "GPT-4" ["gpt-4o", "gpt-4"]) =
          asciiRuntime.toLowerCase (trim "GPT-4")) ∧
      remapModelIdFromAvailable asciiRuntime "GPT-4" ["gpt-4", "gpt-4o"] =
        remapModelIdFromAvailable asciiRuntime "GPT-4" ["gpt-4o", "gpt-4"] := by
  have hlower : ∀ s, asciiRuntime.toLowerCase s = "" → s = "" := by
    intro s h
    have htext : (asciiRuntime.toLowerCase s).toList = s.toList.map Char.toLower :=
      String.toList_ofList
    have hchars : s.toList.map Char.toLower = [] := by
      rw [← htext, h]
      rfl
    exact String.toList_eq_nil_iff.mp (List.map_eq_nil_iff.mp hchars)
  obtain ⟨-, hexact, horder⟩ :=
    remap_is_safe_and_independent_of_order asciiRuntime hlower "GPT-4" ["gpt-4o", "gpt-4"]
  refine ⟨hexact ⟨"gpt-4", by simp, by decide⟩, horder ?_ _ (List.Perm.swap _ _ _)⟩
  unfold CaseDistinct
  decide

end Remapping

end T560.Provider
