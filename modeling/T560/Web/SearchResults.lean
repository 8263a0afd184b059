import T560.Browser.MarkupReading
import T560.Web.Search

/-!
# Targets of a search page

A page of redirecting links. The parameter of a link is its target, escaped once; the URL parser and
the reader undo an escape each.
-/

namespace T560.Web.Search

open Browser (Silent ofList_eq_empty captures captures_match captures_silent closingTag stripName_drop tagHead
  tagHead_append tagHead_of_ne untilChar_append untilClosing_append length_sub)
open Foundation (containsName isWordChar stripName stripName_self)
open Js (decodeURIComponent encodeURIComponent trim units)

section Addresses

/-- The address of a link to a target. -/
def linkAddress (target more : List Char) : List Char := redirectAddress (encodeURIComponent target) more

variable {target more : List Char}

theorem component_encoded (target : List Char) :
    ∀ c ∈ encodeURIComponent target, isComponentChar c = true := by
  intro c hc
  obtain ⟨d, -, hc⟩ := List.mem_flatMap.mp hc
  unfold isComponentChar
  split_ifs at hc with hd
  · rw [List.mem_singleton.mp hc, hd]
    rfl
  · obtain ⟨b, -, hc⟩ := List.mem_flatMap.mp hc
    have hb := b.toNat_lt
    have hall : ∀ n < 16, Js.isUnreserved (Js.hexDigit n) = true := by decide
    simp only [Js.percentByte, List.mem_cons, List.not_mem_nil, or_false] at hc
    rcases hc with rfl | rfl | rfl
    · decide
    · rw [hall _ (by omega)]
      rfl
    · rw [hall _ (by omega)]
      rfl

theorem component_bounds {c : Char} (h : isComponentChar c = true) :
    32 < c.toNat ∧ c.toNat < 127 ∧ c ≠ '"' := by
  have hlist : ∀ d ∈ ['-', '_', '.', '!', '~', '*', '\'', '(', ')', '%'],
      32 < d.toNat ∧ d.toNat < 127 ∧ d ≠ '"' := by decide
  have hquote : '"'.toNat = 34 := rfl
  simp only [isComponentChar, Js.isUnreserved, Bool.or_eq_true, Bool.and_eq_true, decide_eq_true_eq] at h
  rcases h with (((⟨h1, h2⟩ | ⟨h1, h2⟩) | ⟨h1, h2⟩) | h) | h
  · exact ⟨by omega, by omega, by rintro rfl; omega⟩
  · exact ⟨by omega, by omega, by rintro rfl; omega⟩
  · exact ⟨by omega, by omega, by rintro rfl; omega⟩
  · apply hlist
    simp only [List.mem_cons, List.not_mem_nil, or_false] at h ⊢
    tauto
  · apply hlist
    rw [h]
    decide

/-- The characters of a link are visible and close no attribute. -/
theorem linkAddress_bounds (hmore : IsMore more) :
    ∀ c ∈ linkAddress target more, 32 < c.toNat ∧ c.toNat < 127 ∧ c ≠ '"' := by
  intro c hc
  rcases List.mem_append.mp hc with hc | hc
  · rcases List.mem_append.mp hc with hc | hc
    · have hstart : ∀ c ∈ "//duckduckgo.com/l/?uddg=".toList, 32 < c.toNat ∧ c.toNat < 127 ∧ c ≠ '"' := by
        decide
      exact hstart c hc
    · exact component_bounds (component_encoded target c hc)
  · rcases hmore with rfl | ⟨-, hall⟩
    · cases hc
    · obtain ⟨hlow, hhigh, hmarks⟩ := hall c hc
      refine ⟨hlow, hhigh, ?_⟩
      rintro rfl
      exact hmarks (by decide)

theorem trim_linkAddress (hmore : IsMore more) :
    trim (String.ofList (linkAddress target more)) = String.ofList (linkAddress target more) := by
  apply Js.trim_eq_self_of_noSpace
  rw [String.toList_ofList]
  intro c hc
  obtain ⟨hlow, hhigh, -⟩ := linkAddress_bounds hmore c hc
  have hall : ∀ n < 127, 32 < n → Js.isSpace (Char.ofNat n) = false := by decide
  rw [← Char.ofNat_toNat c]
  exact hall _ hhigh hlow

theorem linkAddress_ne (target more : List Char) : String.ofList (linkAddress target more) ≠ "" := by
  rw [Ne, ofList_eq_empty]
  exact List.cons_ne_nil _ _

theorem toAbsolute_linkAddress (hmore : IsMore more) :
    toAbsoluteDuckUrl (String.ofList (linkAddress target more)) =
      String.ofList ("https:".toList ++ linkAddress target more) := by
  have hslashes : (linkAddress target more).take 2 = ['/', '/'] := rfl
  unfold toAbsoluteDuckUrl
  dsimp only
  rw [trim_linkAddress hmore, if_neg (linkAddress_ne target more), String.toList_ofList, if_pos hslashes,
    String.ofList_append, String.ofList_toList]

variable (rt : Js.Runtime) (api : UrlApi)

/-- The target of a link is decoded once more than it was encoded. -/
theorem resolve_linkAddress (hhttp : isHttpAddress target = true) (hmore : IsMore more) :
    resolveResultUrl rt api (String.ofList (linkAddress target more)) =
      (decodeURIComponent target).elim "" fun decoded =>
        if isHttpAddress decoded then String.ofList decoded else "" := by
  have htarget : target ≠ [] := by
    rintro rfl
    cases hhttp
  have hencoded : encodeURIComponent target ≠ [] := by
    intro hnil
    have hlength := Js.length_encodeURIComponent target
    rw [hnil, List.length_nil, Nat.le_zero, List.length_eq_zero_iff] at hlength
    exact htarget hlength
  obtain ⟨url, hparse, hhost, hpath, huddg⟩ :=
    api.parse_redirect (encodeURIComponent target) more (component_encoded target) hencoded hmore
  rw [Js.percentDecode_encodeURIComponent] at huddg
  have hlower : "duckduckgo.com".toList <:+: (rt.toLowerCase url.hostname).toList := by
    rw [hhost, rt.lower_ascii _ (by decide)]
    decide
  have hshown : String.ofList target ≠ "" := by rwa [Ne, ofList_eq_empty]
  have hparsed : api.parse (toAbsoluteDuckUrl (String.ofList (linkAddress target more))) = some url := by
    rw [toAbsolute_linkAddress hmore]
    exact hparse
  unfold resolveResultUrl
  dsimp only
  rw [trim_linkAddress hmore, if_neg (linkAddress_ne target more), hparsed]
  dsimp only
  rw [if_pos hlower, if_pos (Or.inl hpath)]
  unfold redirectTarget
  rw [huddg]
  dsimp only
  rw [if_neg hshown, String.toList_ofList]
  cases decodeURIComponent target with
  | none => rfl
  | some decoded =>
    dsimp only [Option.elim_some]
    split_ifs <;> rfl

/-- A link leads to its target exactly when the target has no percent sign. -/
theorem resolve_linkAddress_eq_iff (hhttp : isHttpAddress target = true) (hmore : IsMore more) :
    resolveResultUrl rt api (String.ofList (linkAddress target more)) = String.ofList target ↔
      '%' ∉ target := by
  have hshown : "" ≠ String.ofList target := by
    intro hempty
    rw [ofList_eq_empty.mp hempty.symm] at hhttp
    cases hhttp
  rw [resolve_linkAddress rt api hhttp hmore, ← Js.decodeURIComponent_eq_self_iff]
  constructor
  · intro h
    cases hdecoded : decodeURIComponent target with
    | none =>
      rw [hdecoded, Option.elim_none] at h
      exact absurd h hshown
    | some decoded =>
      rw [hdecoded, Option.elim_some] at h
      split_ifs at h
      · rw [String.ofList_injective h]
      · exact absurd h hshown
  · intro h
    rw [h, Option.elim_some, if_pos hhttp]

end Addresses

/-! ## Pages of links -/

/-- Text between links: no link starts in it. -/
structure Gap where
  text : List Char
  silent : ∀ n < text.length, tagHead ['a'] (text.drop n ++ ['<']) = none

/-- A redirecting link with a title that is long enough. Its tag has no other `href="`. -/
structure ResultLink where
  target : List Char
  more : List Char
  before : List Char
  after : List Char
  label : List Char
  target_http : isHttpAddress target = true
  more_plain : IsMore more
  before_head : before.head?.any isWordChar = false
  before_mark : '>' ∉ before
  before_href : containsName "href=\"".toList before = false
  after_mark : '>' ∉ after
  label_open : containsName (closingTag ['a']) label = false
  titled : 2 ≤ (units (stripTags label)).length

def ResultLink.address (link : ResultLink) : List Char := linkAddress link.target link.more

def ResultLink.text (link : ResultLink) : List Char :=
  '<' :: 'a' :: (link.before ++ ' ' :: ("href=\"".toList ++ (link.address ++ '"' :: (link.after ++ '>' ::
    (link.label ++ closingTag ['a'])))))

/-- A page of links with different targets. -/
structure ResultPage where
  lead : Gap
  links : List (ResultLink × Gap)
  distinct : (links.map fun link => link.1.target).Nodup

def linksText (links : List (ResultLink × Gap)) : List Char :=
  links.flatMap fun link => link.1.text ++ link.2.text

def ResultPage.text (page : ResultPage) : List Char := page.lead.text ++ linksText page.links

section Matches

variable {front rest : List Char}

theorem anchorPattern_forward : Rewrite.Forward anchorPattern := fun _ _ _ => rfl

theorem anchorBody_skip (hmark : '>' ∉ front)
    (h : ∀ n < front.length, stripName "href=\"".toList (front.drop n ++ rest) = none) :
    anchorBody (front ++ rest) = anchorBody rest := by
  induction front with
  | nil => rfl
  | cons c front ih =>
    have hhere : stripName "href=\"".toList (c :: (front ++ rest)) = none := h 0 (by simp)
    have hc : c ≠ '>' := by
      rintro rfl
      exact hmark (List.mem_cons_self ..)
    rw [List.cons_append, anchorBody, hhere]
    simp only [Option.bind_none, if_neg hc]
    apply ih
    · exact fun hmem => hmark (List.mem_cons_of_mem _ hmem)
    · intro n hn
      exact h (n + 1) (by simp only [List.length_cons]; omega)

/-- The address and the label of a link, wherever it stands. -/
theorem anchorPattern_link (link : ResultLink) (rest : List Char) :
    ∃ found, anchorPattern none (link.text ++ rest) = some (found, link.text.length) ∧
      found.href = link.address ∧ found.inner = link.label := by
  have hquote : '"' ∉ link.address := by
    intro hmem
    exact (linkAddress_bounds link.more_plain '"' hmem).2.2 rfl
  have hne : link.address ≠ [] := List.cons_ne_nil _ _
  have hend : Browser.linkEnd (link.after ++ '>' :: (link.label ++ (closingTag ['a'] ++ rest))) =
      some (link.label, rest) := by
    rw [Browser.linkEnd, untilChar_append link.after_mark]
    exact untilClosing_append (by decide) link.label_open rest
  have hbody : anchorBody ("href=\"".toList ++ (link.address ++ '"' :: (link.after ++ '>' ::
      (link.label ++ (closingTag ['a'] ++ rest))))) = some ((link.address, link.label), rest) := by
    have hhere := stripName_self "href=\"".toList (link.address ++ '"' :: (link.after ++ '>' ::
      (link.label ++ (closingTag ['a'] ++ rest))))
    rw [show "href=\"".toList = 'h' :: "ref=\"".toList from rfl, List.cons_append] at hhere ⊢
    rw [anchorBody]
    dsimp only
    rw [show "href=\"".toList = 'h' :: "ref=\"".toList from rfl, hhere, Option.bind_some,
      untilChar_append hquote, Option.bind_some]
    dsimp only
    rw [if_neg hne, hend]
    rfl
  have hskip : anchorBody ((link.before ++ [' ']) ++ ("href=\"".toList ++ (link.address ++ '"' ::
      (link.after ++ '>' :: (link.label ++ (closingTag ['a'] ++ rest)))))) =
        some ((link.address, link.label), rest) := by
    rw [anchorBody_skip, hbody]
    · simp [link.before_mark]
    · intro n hn
      rw [List.length_append, List.length_singleton] at hn
      rw [List.drop_append_of_le_length (by omega), List.append_assoc]
      exact stripName_drop link.before_href (by decide) n _
  have hhead : ((link.before ++ [' ']) ++ ("href=\"".toList ++ (link.address ++ '"' ::
      (link.after ++ '>' :: (link.label ++ (closingTag ['a'] ++ rest)))))).head?.any isWordChar = false := by
    cases hbefore : link.before with
    | nil => rfl
    | cons c before =>
      have := link.before_head
      rw [hbefore] at this
      exact this
  have htext : link.text ++ rest = '<' :: (['a'] ++ ((link.before ++ [' ']) ++ ("href=\"".toList ++
      (link.address ++ '"' :: (link.after ++ '>' :: (link.label ++ (closingTag ['a'] ++ rest))))))) := by
    simp [ResultLink.text]
  refine ⟨⟨link.address, link.label, (link.text ++ rest).length, link.text.length⟩, ?_, rfl, rfl⟩
  unfold anchorPattern
  rw [← length_sub link.text rest, htext, tagHead_append hhead, Option.bind_some, hskip]
  rfl

/-- Whether a tag starts in a text is settled by the text itself and the bracket behind it. -/
theorem tagHead_cut {text : List Char} (hne : text ≠ []) (h : tagHead ['a'] (text ++ ['<']) = none)
    (hrest : ∀ c, rest.head? = some c → c = '<') : tagHead ['a'] (text ++ rest) = none := by
  obtain ⟨c, text, rfl⟩ := List.exists_cons_of_ne_nil hne
  rw [List.cons_append] at h ⊢
  by_cases hc : c = '<'
  · subst hc
    cases text with
    | nil =>
      cases rest with
      | nil => rfl
      | cons d rest =>
        obtain rfl := hrest d rfl
        rfl
    | cons d text =>
      by_cases hd : d.toLower = 'a'.toLower
      · cases text with
        | nil =>
          simp only [tagHead, List.cons_append, List.nil_append, stripName, if_pos hd, Option.bind_some] at h
          exact absurd h (by decide)
        | cons e text =>
          cases hword : isWordChar e with
          | true => simp [tagHead, stripName, hd, hword]
          | false => simp [tagHead, stripName, hd, hword] at h
      · simp only [tagHead, List.cons_append, stripName, if_neg hd, Option.bind_none]
  · exact tagHead_of_ne hc

/-- A gap holds no link in front of the next tag, and none in front of the end. -/
theorem gap_silent (gap : Gap) (hrest : ∀ c, rest.head? = some c → c = '<') :
    Silent anchorPattern gap.text rest := by
  intro n hn
  have hne : gap.text.drop n ≠ [] := by
    rw [Ne, List.drop_eq_nil_iff]
    omega
  unfold anchorPattern
  rw [tagHead_cut hne (gap.silent n hn) hrest]
  rfl

theorem head_linksText (links : List (ResultLink × Gap)) :
    ∀ c, (linksText links).head? = some c → c = '<' := by
  intro c hc
  cases links with
  | nil => cases hc
  | cons link links => exact (Option.some.inj hc).symm

theorem captures_linksText (links : List (ResultLink × Gap)) :
    (captures anchorPattern (linksText links)).map (fun found => (found.href, found.inner)) =
      links.map fun link => (link.1.address, link.1.label) := by
  induction links with
  | nil => rfl
  | cons link links ih =>
    obtain ⟨found, hfound, hhref, hinner⟩ := anchorPattern_link link.1 (link.2.text ++ linksText links)
    have htext : linksText (link :: links) = link.1.text ++ (link.2.text ++ linksText links) := by
      rw [linksText, List.flatMap_cons, List.append_assoc]
      rfl
    have hne : link.1.text ≠ [] := List.cons_ne_nil _ _
    rw [htext, captures_match anchorPattern_forward hne hfound,
      captures_silent anchorPattern_forward (gap_silent link.2 (head_linksText links)), List.map_cons, ih,
      List.map_cons, hhref, hinner]

/-- The matches of a page are its links, in page order. -/
theorem captures_page (page : ResultPage) :
    (captures anchorPattern page.text).map (fun found => (found.href, found.inner)) =
      page.links.map fun link => (link.1.address, link.1.label) := by
  rw [ResultPage.text, captures_silent anchorPattern_forward
    (gap_silent page.lead (head_linksText page.links)), captures_linksText]

theorem map_href {β γ : Type} {matched : List AnchorMatch} {l : List β} {g : β → List Char × List Char}
    (h : matched.map (fun found => (found.href, found.inner)) = l.map g) (f : List Char → γ) :
    matched.map (fun found => f found.href) = l.map fun x => f (g x).1 := by
  have := congrArg (List.map fun pair => f pair.1) h
  simpa only [List.map_map, Function.comp_def] using this

end Matches

section Collected

variable {rt : Js.Runtime} {api : UrlApi} {snippet : List Char → Nat → Nat → String} {source : List Char}
  {limit : ℚ} {state : ResultState} {found : AnchorMatch} {matched : List AnchorMatch}

/-- The addresses that are collected, and those that are seen. -/
def ResultState.Agrees (state : ResultState) : Prop := state.out.map SearchResult.url = state.seen

theorem addResult_agrees (h : state.Agrees) : (addResult rt api snippet source limit state found).Agrees := by
  unfold addResult
  dsimp only
  split_ifs
  · exact h
  · exact h
  · exact h
  · exact h
  · unfold ResultState.Agrees at h ⊢
    rw [List.map_append, h]
    rfl

/-- A round adds the address of the link, or nothing. -/
theorem addResult_urls :
    (addResult rt api snippet source limit state found).out.map SearchResult.url = state.out.map SearchResult.url ∨
      (addResult rt api snippet source limit state found).out.map SearchResult.url =
        state.out.map SearchResult.url ++ [resolveResultUrl rt api (String.ofList found.href)] := by
  unfold addResult
  dsimp only
  split_ifs
  · exact Or.inl rfl
  · exact Or.inl rfl
  · exact Or.inl rfl
  · exact Or.inl rfl
  · exact Or.inr (List.map_append ..)

/-- The collected addresses are some of the links' addresses, in their order. -/
theorem collected_sublist : ∃ urls, urls.Sublist (matched.map fun found => resolveResultUrl rt api (String.ofList found.href)) ∧
    (matched.foldl (addResult rt api snippet source limit) state).out.map SearchResult.url =
      state.out.map SearchResult.url ++ urls := by
  induction matched generalizing state with
  | nil => exact ⟨[], List.Sublist.slnil, (List.append_nil _).symm⟩
  | cons found matched ih =>
    obtain ⟨urls, hurls, hrest⟩ := @ih (addResult rt api snippet source limit state found)
    rw [List.foldl_cons, hrest, List.map_cons]
    rcases @addResult_urls rt api snippet source limit state found with hsame | hmore
    · exact ⟨urls, hurls.cons _, by rw [hsame]⟩
    · exact ⟨_ :: urls, hurls.cons_cons _, by rw [hmore, List.append_assoc]; rfl⟩

/-- Links with titles and different addresses are all collected while the list is not full. -/
theorem collected_all (hagrees : state.Agrees)
    (htitled : ∀ found ∈ matched, 2 ≤ (units (stripTags found.inner)).length)
    (hfound : ∀ found ∈ matched, resolveResultUrl rt api (String.ofList found.href) ≠ "")
    (hdistinct : (state.out.map SearchResult.url ++
      matched.map fun found => resolveResultUrl rt api (String.ofList found.href)).Nodup)
    (hlimit : ((state.out.length + matched.length : Nat) : ℚ) ≤ limit) :
    (matched.foldl (addResult rt api snippet source limit) state).out.map SearchResult.url =
      state.out.map SearchResult.url ++ matched.map fun found => resolveResultUrl rt api (String.ofList found.href) := by
  induction matched generalizing state with
  | nil => exact (List.append_nil _).symm
  | cons found matched ih =>
    have hroom : ¬ limit ≤ (state.out.length : ℚ) := by
      rw [not_le]
      apply lt_of_lt_of_le _ hlimit
      exact_mod_cast (by rw [List.length_cons]; omega : state.out.length < state.out.length + (found :: matched).length)
    have htitle := htitled found (List.mem_cons_self ..)
    have hshown : ¬ (stripTags found.inner = "" ∨ (units (stripTags found.inner)).length < 2) := by
      rintro (hempty | hshort)
      · rw [hempty] at htitle
        exact absurd htitle (by decide)
      · omega
    have hnew : resolveResultUrl rt api (String.ofList found.href) ∉ state.seen := by
      rw [← hagrees]
      intro hmem
      have := (List.nodup_append.mp hdistinct).2.2 _ hmem _ (List.mem_cons_self ..)
      exact this rfl
    have hstep : (addResult rt api snippet source limit state found).out.map SearchResult.url =
        state.out.map SearchResult.url ++ [resolveResultUrl rt api (String.ofList found.href)] := by
      unfold addResult
      dsimp only
      rw [if_neg hroom, if_neg hshown, if_neg (hfound found (List.mem_cons_self ..)), if_neg hnew, List.map_append]
      rfl
    have hlength := congrArg List.length hstep
    simp only [List.length_map, List.length_append, List.length_singleton] at hlength
    rw [List.foldl_cons, ih (addResult_agrees hagrees) (fun f hf => htitled f (List.mem_cons_of_mem _ hf))
      (fun f hf => hfound f (List.mem_cons_of_mem _ hf)), hstep, List.append_assoc]
    · rfl
    · rw [hstep, List.append_assoc]
      exact hdistinct
    · rw [hlength]
      rw [List.length_cons] at hlimit
      convert hlimit using 2
      omega

end Collected

section Targets

variable (rt : Js.Runtime) (api : UrlApi) (snippet : List Char → Nat → Nat → String)

/-- A redirecting link leads to its target exactly when the target has no percent sign, and the results of
a page are its targets exactly when none has one. -/
theorem search_targets_iff :
    (∀ target more, isHttpAddress target = true → IsMore more →
      (resolveResultUrl rt api (String.ofList (linkAddress target more)) = String.ofList target ↔
        '%' ∉ target)) ∧
    (∀ (page : ResultPage) (count : Js.Num), (page.links.length : ℚ) ≤ resultLimit count →
      ((parseDuckDuckGoHtml rt api snippet page.text count).map SearchResult.url =
          page.links.map (fun link => String.ofList link.1.target) ↔
        ∀ link ∈ page.links, '%' ∉ link.1.target)) := by
  refine ⟨fun target more hhttp hmore => resolve_linkAddress_eq_iff rt api hhttp hmore, ?_⟩
  intro page count hcount
  have hmatched := captures_page page
  have hresolved : (captures anchorPattern page.text).map
      (fun found => resolveResultUrl rt api (String.ofList found.href)) =
        page.links.map fun link => resolveResultUrl rt api (String.ofList link.1.address) := by
    exact map_href hmatched fun href => resolveResultUrl rt api (String.ofList href)
  have hlink : ∀ link : ResultLink × Gap, resolveResultUrl rt api (String.ofList link.1.address) =
      String.ofList link.1.target ↔ '%' ∉ link.1.target := fun link =>
    resolve_linkAddress_eq_iff rt api link.1.target_http link.1.more_plain
  unfold parseDuckDuckGoHtml
  constructor
  · intro h
    obtain ⟨urls, hsub, hurls⟩ := @collected_sublist rt api snippet page.text (resultLimit count) {}
      (captures anchorPattern page.text)
    rw [h] at hurls
    have hsame : urls = page.links.map fun link => resolveResultUrl rt api (String.ofList link.1.address) := by
      rw [hresolved] at hsub
      apply hsub.eq_of_length
      have := congrArg List.length hurls
      simpa using this.symm
    intro link hmem
    rw [← hlink]
    rw [hsame] at hurls
    exact (List.map_inj_left.mp hurls link hmem).symm
  · intro h
    have htargets : (captures anchorPattern page.text).map
        (fun found => resolveResultUrl rt api (String.ofList found.href)) =
          page.links.map fun link => String.ofList link.1.target := by
      rw [hresolved]
      exact List.map_congr_left fun link hmem => (hlink link).mpr (h link hmem)
    have hmem : ∀ found ∈ captures anchorPattern page.text,
        ∃ link ∈ page.links, (link.1.address, link.1.label) = (found.href, found.inner) := by
      intro found hfound
      have : (found.href, found.inner) ∈ page.links.map fun link => (link.1.address, link.1.label) := by
        rw [← hmatched]
        exact List.mem_map_of_mem hfound
      exact List.mem_map.mp this
    have hall := @collected_all rt api snippet page.text (resultLimit count) {} (captures anchorPattern page.text) rfl
    rw [hall, htargets]
    · rfl
    · intro found hfound
      obtain ⟨link, -, hpair⟩ := hmem found hfound
      rw [← (Prod.mk.inj hpair).2]
      exact link.1.titled
    · intro found hfound
      obtain ⟨link, hlinks, hpair⟩ := hmem found hfound
      rw [← (Prod.mk.inj hpair).1, (hlink link).mpr (h link hlinks), Ne, ofList_eq_empty]
      intro hnil
      have := link.1.target_http
      rw [hnil] at this
      cases this
    · rw [htargets]
      have := page.distinct.map fun _ _ heq => String.ofList_injective heq
      rw [List.map_map] at this
      exact this
    · have hlength := congrArg List.length hmatched
      rw [List.length_map, List.length_map] at hlength
      rw [hlength]
      convert hcount using 2
      exact Nat.zero_add _

/-- A parser of redirecting addresses. -/
def siteApi : UrlApi where
  parse s :=
    let start := "https:".toList ++ "//duckduckgo.com/l/?uddg=".toList
    if start.isPrefixOf s.toList then
      let value := (s.toList.drop start.length).takeWhile isComponentChar
      some ⟨"https:", "duckduckgo.com", "/l/", some (String.ofList (Js.percentDecode value)), s⟩
    else none
  parse_redirect value more hvalue _ hmore := by
    have hparts : ∀ a b : List Char,
        (String.ofList (a ++ (b ++ value ++ more))).toList = (a ++ b) ++ (value ++ more) := by
      intro a b
      rw [String.toList_ofList]
      simp only [List.append_assoc]
    have htext := hparts "https:".toList "//duckduckgo.com/l/?uddg=".toList
    have hend : more.takeWhile isComponentChar = [] := by
      rcases hmore with rfl | ⟨hhead, -⟩
      · rfl
      · obtain ⟨rest, rfl⟩ := List.head?_eq_some_iff.mp hhead
        rfl
    refine ⟨⟨"https:", "duckduckgo.com", "/l/", some (String.ofList (Js.percentDecode value)),
      String.ofList ("https:".toList ++ redirectAddress value more)⟩, ?_, rfl, rfl, rfl⟩
    unfold redirectAddress
    dsimp only
    rw [htext, if_pos (List.isPrefixOf_iff_prefix.mpr (List.prefix_append _ _)), List.drop_left,
      List.takeWhile_append_of_pos hvalue, hend, List.append_nil]

/-- An escape of the target is undone. -/
theorem escaped_target_lost :
    isHttpAddress "https://example.com/a%20b".toList = true ∧
      resolveResultUrl Js.asciiRuntime siteApi (String.ofList (linkAddress "https://example.com/a%20b".toList [])) =
        "https://example.com/a b" ∧
      "https://example.com/a b" ≠ String.ofList "https://example.com/a%20b".toList := by
  have hhttp : isHttpAddress "https://example.com/a%20b".toList = true := by decide
  have hdecoded : decodeURIComponent "https://example.com/a%20b".toList =
      some "https://example.com/a b".toList := by decide
  refine ⟨hhttp, ?_, by decide⟩
  rw [resolve_linkAddress Js.asciiRuntime siteApi hhttp (Or.inl rfl), hdecoded, Option.elim_some, if_pos (by decide),
    String.ofList_toList]

def homeLink : ResultLink where
  target := "https://example.com/?q=a b".toList
  more := "&amp;rut=1".toList
  before := " class=\"result__a\"".toList
  after := []
  label := "Home <b>page</b>".toList
  target_http := by decide
  more_plain := Or.inr ⟨rfl, by decide⟩
  before_head := by decide
  before_mark := by decide
  before_href := by decide
  after_mark := by decide
  label_open := by decide
  titled := by decide

def docsLink : ResultLink where
  target := "http://example.org/docs".toList
  more := []
  before := " class=\"result__a\"".toList
  after := " rel=\"nofollow\"".toList
  label := "Docs".toList
  target_http := by decide
  more_plain := Or.inl rfl
  before_head := by decide
  before_mark := by decide
  before_href := by decide
  after_mark := by decide
  label_open := by decide
  titled := by decide

def homePage : ResultPage where
  lead := ⟨"<html>".toList, by decide⟩
  links := [(homeLink, ⟨"<div>".toList, by decide⟩), (docsLink, ⟨"</div></html>".toList, by decide⟩)]
  distinct := by decide

theorem search_targets_iff_home :
    (resolveResultUrl Js.asciiRuntime siteApi (String.ofList (linkAddress homeLink.target homeLink.more)) =
        String.ofList homeLink.target ↔ '%' ∉ homeLink.target) ∧
      ((parseDuckDuckGoHtml Js.asciiRuntime siteApi (fun _ _ _ => "") homePage.text (.fin 8)).map
          SearchResult.url = homePage.links.map (fun link => String.ofList link.1.target) ↔
        ∀ link ∈ homePage.links, '%' ∉ link.1.target) := by
  have h := search_targets_iff Js.asciiRuntime siteApi (fun _ _ _ => "")
  refine ⟨h.1 _ _ homeLink.target_http homeLink.more_plain, h.2 homePage (.fin 8) ?_⟩
  have htwo : homePage.links.length = 2 := rfl
  rw [htwo]
  norm_num [resultLimit]

end Targets

end T560.Web.Search
