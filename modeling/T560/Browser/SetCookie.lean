import Mathlib.Data.List.Infix
import T560.Js.Text

/-!
# A joined Set-Cookie header

Where the runtime gives the `Set-Cookie` values of a reply as one text, they are split at the commas,
except for those behind `expires=` up to the next semicolon. A value that ends in its `Expires`
attribute has no such semicolon, and the comma behind it is taken for a part of the date.
-/

namespace T560.Browser

open Js (trimChars isSpace)

/-- The parts that are finished, the text since the last separator, and whether a date may come. -/
structure CookieScan where
  out : List (List Char)
  part : List Char
  inExpires : Bool

/-- `input.slice(i, i + 8).toLowerCase() === "expires="`; no character outside of ASCII has one of
these letters as its lower case. -/
def startsExpires (text : List Char) : Bool := (text.take 8).map Char.toLower = "expires=".toList

def pushPart (out : List (List Char)) (part : List Char) : List (List Char) :=
  if trimChars part = [] then out else out ++ [trimChars part]

/-- The loop from one position on. The number counts the positions that `i += 7` passes over. -/
def scanCookies : Nat → CookieScan → List Char → CookieScan
  | _, st, [] => st
  | skip + 1, st, c :: rest => scanCookies skip { st with part := st.part ++ [c] } rest
  | 0, st, c :: rest =>
    if !st.inExpires && startsExpires (c :: rest) then
      scanCookies 7 { st with part := st.part ++ [c], inExpires := true } rest
    else
      let inExpires := st.inExpires && c != ';'
      if !inExpires && c == ',' then scanCookies 0 ⟨pushPart st.out st.part, [], inExpires⟩ rest
      else scanCookies 0 ⟨st.out, st.part ++ [c], inExpires⟩ rest

def splitSetCookieHeader (header : String) : List String :=
  let st := scanCookies 0 ⟨[], [], false⟩ (trimChars header.toList)
  (pushPart st.out st.part).map String.ofList

/-- One attribute behind its semicolon: only a date may have commas. -/
inductive IsAttribute : List Char → Prop
  | plain {text : List Char} (hcomma : ',' ∉ text) (hsemi : ';' ∉ text) : IsAttribute text
  | expires {blanks key date : List Char} (hblanks : ∀ c ∈ blanks, c = ' ')
      (hkey : key.map Char.toLower = "expires=".toList) (hdate : ';' ∉ date) :
      IsAttribute (blanks ++ (key ++ date))

/-- A value of a `Set-Cookie` line: the pair, and the attributes behind their semicolons. -/
structure SetCookie where
  pair : List Char
  attributes : List (List Char)
  named : '=' ∈ pair
  pair_comma : ',' ∉ pair
  pair_semi : ';' ∉ pair
  formed : ∀ text ∈ attributes, IsAttribute text

def SetCookie.text (cookie : SetCookie) : List Char :=
  cookie.pair ++ cookie.attributes.flatMap fun text => ';' :: text

def containsExpires (text : List Char) : Bool := text.tails.any startsExpires

/-- What comes behind the last semicolon has `expires=`. -/
def endsInExpires (value : List Char) : Bool := containsExpires (value.rtakeWhile (· ≠ ';'))

/-- Where a part ends. -/
def Boundary (rest : List Char) : Prop := rest = [] ∨ ∃ c more, rest = c :: more ∧ (c = ',' ∨ c = ';')

variable {out : List (List Char)} {part text rest value : List Char} {skip : Nat} {e : Bool}

theorem containsExpires_cons (c : Char) (text : List Char) :
    containsExpires (c :: text) = (startsExpires (c :: text) || containsExpires text) := by
  rw [containsExpires, List.tails_cons, List.any_cons]
  rfl

theorem length_of_startsExpires (h : startsExpires text = true) : 8 ≤ text.length := by
  have := congrArg List.length (of_decide_eq_true h)
  simp only [List.length_map, List.length_take] at this
  have hlength : "expires=".toList.length = 8 := by decide
  omega

theorem startsExpires_append (h : startsExpires text = true) (rest : List Char) :
    startsExpires (text ++ rest) = true := by
  have := length_of_startsExpires h
  rw [startsExpires, List.take_append_of_le_length this]
  exact h

/-- No separator is in the word, so it does not reach over a boundary. -/
theorem startsExpires_boundary (hrest : Boundary rest) (h : startsExpires (text ++ rest) = true) :
    startsExpires text = true := by
  rcases hrest with rfl | ⟨c, more, rfl, hc⟩
  · rwa [List.append_nil] at h
  · by_cases hlength : 8 ≤ text.length
    · rwa [startsExpires, List.take_append_of_le_length hlength] at h
    · -- the separator would be one of the eight characters
      exfalso
      have hword := of_decide_eq_true h
      have hmem : c ∈ (text ++ c :: more).take 8 := by
        rw [List.take_append, List.mem_append]
        right
        obtain ⟨n, hn⟩ : ∃ n, 8 - text.length = n + 1 := ⟨7 - text.length, by omega⟩
        rw [hn, List.take_succ_cons]
        exact List.mem_cons_self ..
      have hlower := List.mem_map_of_mem (f := Char.toLower) hmem
      rw [hword] at hlower
      rcases hc with rfl | rfl
      · revert hlower
        decide
      · revert hlower
        decide

/-- In a date everything is passed over up to a semicolon. -/
theorem scan_date (htext : ';' ∉ text) (hskip : skip ≤ text.length) :
    scanCookies skip ⟨out, part, true⟩ (text ++ rest) = scanCookies 0 ⟨out, part ++ text, true⟩ rest := by
  induction text generalizing skip part with
  | nil =>
    obtain rfl : skip = 0 := by simpa using hskip
    simp
  | cons c text ih =>
    have hc : c ≠ ';' := fun heq => htext (heq ▸ List.mem_cons_self ..)
    have htail : ';' ∉ text := fun hmem => htext (List.mem_cons_of_mem _ hmem)
    have happend : part ++ c :: text = part ++ [c] ++ text := by simp
    cases skip with
    | succ n =>
      rw [List.cons_append, scanCookies, happend]
      exact ih htail (by simpa using hskip)
    | zero =>
      rw [List.cons_append, scanCookies, happend]
      simp only [Bool.not_true, Bool.false_and, Bool.false_eq_true, if_false, Bool.true_and]
      rw [bne_iff_ne.mpr hc]
      exact ih htail (Nat.zero_le _)

/-- Commas come behind `expires=` only. -/
def SafeCommas (text : List Char) : Prop :=
  ∀ front back, text = front ++ ',' :: back → containsExpires front = true

theorem IsAttribute.semi (h : IsAttribute text) : ';' ∉ text := by
  cases h with
  | plain hcomma hsemi => exact hsemi
  | expires hblanks hkey hdate =>
    intro hmem
    rcases List.mem_append.mp hmem with hmem | hmem
    · exact absurd (hblanks _ hmem) (by decide)
    rcases List.mem_append.mp hmem with hmem | hmem
    · have hlower := List.mem_map_of_mem (f := Char.toLower) hmem
      rw [hkey] at hlower
      revert hlower
      decide
    · exact hdate hmem

theorem containsExpires_append (front : List Char) (h : startsExpires text = true) (back : List Char) :
    containsExpires (front ++ (text ++ back)) = true := by
  rw [containsExpires, List.any_eq_true]
  exact ⟨text ++ back, (List.mem_tails _ _).mpr (List.suffix_append _ _), startsExpires_append h back⟩

theorem safeCommas_plain (h : ',' ∉ text) : SafeCommas text := by
  rintro front back rfl
  exact absurd (by simp) h

theorem IsAttribute.safe (h : IsAttribute text) : SafeCommas text := by
  cases h with
  | plain hcomma hsemi => exact safeCommas_plain hcomma
  | @expires blanks key date hblanks hkey hdate =>
    intro front back heq
    have hstarts : startsExpires key = true := by
      have hlength := congrArg List.length hkey
      rw [List.length_map] at hlength
      rw [startsExpires, List.take_of_length_le (by rw [hlength]; decide), hkey]
      exact decide_eq_true rfl
    have hfront : ',' ∉ blanks ++ key := by
      intro hmem
      rcases List.mem_append.mp hmem with hmem | hmem
      · exact absurd (hblanks _ hmem) (by decide)
      · have hlower := List.mem_map_of_mem (f := Char.toLower) hmem
        rw [hkey] at hlower
        revert hlower
        decide
    -- the comma is in the date
    rw [← List.append_assoc] at heq
    obtain ⟨more, rfl, -⟩ | ⟨more, hmore, hcomma⟩ := List.append_eq_append_iff.mp heq
    · rw [List.append_assoc]
      exact containsExpires_append blanks hstarts more
    · cases more with
      | nil =>
        rw [List.append_nil] at hmore
        rw [← hmore]
        simpa using containsExpires_append blanks hstarts []
      | cons d more =>
        obtain ⟨rfl, -⟩ := List.cons.inj hcomma
        exact absurd (by rw [hmore]; simp) hfront

/-- A part without semicolons is read to its end; a date may come then if it has `expires=`. -/
theorem scan_part (hsafe : SafeCommas text) (hsemi : ';' ∉ text) (hrest : Boundary rest) :
    scanCookies 0 ⟨out, part, false⟩ (text ++ rest) =
      scanCookies 0 ⟨out, part ++ text, containsExpires text⟩ rest := by
  induction text generalizing part with
  | nil => simp [containsExpires, startsExpires]
  | cons c text ih =>
    have hc : c ≠ ';' := fun heq => hsemi (heq ▸ List.mem_cons_self ..)
    have htail : ';' ∉ text := fun hmem => hsemi (List.mem_cons_of_mem _ hmem)
    have happend : part ++ c :: text = part ++ [c] ++ text := by simp
    rw [List.cons_append, scanCookies, happend, containsExpires_cons]
    by_cases hstarts : startsExpires (c :: text) = true
    · have hlong := length_of_startsExpires hstarts
      rw [← List.cons_append, startsExpires_append hstarts]
      simp only [Bool.not_false, Bool.and_self, if_true, hstarts, Bool.true_or]
      exact scan_date htail (by simpa using hlong)
    · have hnot : startsExpires (c :: (text ++ rest)) = false := by
        rw [← Bool.not_eq_true]
        exact fun h => hstarts (startsExpires_boundary hrest h)
      have hcomma : c ≠ ',' := by
        rintro rfl
        have := hsafe [] text rfl
        simp [containsExpires, startsExpires] at this
      have hplain : startsExpires (c :: text) = false := by rwa [← Bool.not_eq_true]
      simp only [hnot, hplain, Bool.and_false, Bool.false_eq_true, if_false, Bool.false_and, Bool.not_false,
        Bool.true_and, beq_iff_eq, hcomma, Bool.false_or]
      refine ih ?_ htail
      intro front back heq
      have hfront := hsafe (c :: front) back (by rw [heq, List.cons_append])
      rw [containsExpires_cons, Bool.or_eq_true] at hfront
      rcases hfront with hfront | hfront
      · have := startsExpires_append hfront (',' :: back)
        rw [List.cons_append, ← heq] at this
        exact absurd this hstarts
      · exact hfront

theorem boundary_attributes (attributes : List (List Char)) (hrest : Boundary rest) :
    Boundary (attributes.flatMap (fun text => ';' :: text) ++ rest) := by
  cases attributes with
  | nil => exact hrest
  | cons text attributes => exact Or.inr ⟨';', _, rfl, Or.inr rfl⟩

theorem not_startsExpires_cons {c : Char} (hc : c.toLower ≠ 'e') (rest : List Char) :
    startsExpires (c :: rest) = false := by
  rw [← Bool.not_eq_true]
  intro h
  have := of_decide_eq_true h
  rw [List.take_succ_cons, List.map_cons] at this
  have hhead := congrArg List.head? this
  rw [List.head?_cons] at hhead
  exact hc (Option.some.inj hhead)

theorem scan_semicolon (rest : List Char) :
    scanCookies 0 ⟨out, part, e⟩ (';' :: rest) = scanCookies 0 ⟨out, part ++ [';'], false⟩ rest := by
  rw [scanCookies, not_startsExpires_cons (by decide)]
  simp

theorem scan_attributes {attributes : List (List Char)} (h : ∀ text ∈ attributes, IsAttribute text)
    (hrest : Boundary rest) :
    scanCookies 0 ⟨out, part, e⟩ (attributes.flatMap (fun text => ';' :: text) ++ rest) =
      scanCookies 0 ⟨out, part ++ attributes.flatMap (fun text => ';' :: text),
        (attributes.getLast?.map containsExpires).getD e⟩ rest := by
  induction attributes generalizing part e with
  | nil => simp
  | cons text attributes ih =>
    have htext := h text (List.mem_cons_self ..)
    rw [List.flatMap_cons, List.cons_append, List.cons_append, scan_semicolon, List.append_assoc,
      scan_part htext.safe htext.semi (boundary_attributes attributes hrest),
      ih fun t ht => h t (List.mem_cons_of_mem _ ht)]
    congr 2
    · simp
    · cases attributes with
      | nil => rfl
      | cons next attributes =>
        obtain ⟨last, hlast⟩ := Option.isSome_iff_exists.mp
          (List.getLast?_isSome.mpr (List.cons_ne_nil next attributes))
        rw [List.getLast?_cons_cons, hlast]
        rfl

section Values

variable {cookie : SetCookie} {cookies : List SetCookie}

theorem endsInExpires_text (cookie : SetCookie) :
    endsInExpires cookie.text =
      (cookie.attributes.getLast?.map containsExpires).getD (containsExpires cookie.pair) := by
  have hkeep : ∀ text : List Char, ';' ∉ text → ∀ c ∈ text.reverse, (decide (c ≠ ';')) = true := by
    intro text hsemi c hc
    rw [decide_eq_true_eq]
    rintro rfl
    exact hsemi (List.mem_reverse.mp hc)
  unfold endsInExpires SetCookie.text
  rcases List.eq_nil_or_concat cookie.attributes with hnil | ⟨init, last, hattributes⟩
  · rw [hnil, List.flatMap_nil, List.append_nil, List.rtakeWhile,
      List.takeWhile_eq_self_iff.mpr (hkeep _ cookie.pair_semi), List.reverse_reverse]
    rfl
  · have hlast : ';' ∉ last := (cookie.formed last (by rw [hattributes]; simp)).semi
    rw [List.concat_eq_append] at hattributes
    have htext : cookie.pair ++ cookie.attributes.flatMap (fun text => ';' :: text) =
        (cookie.pair ++ init.flatMap (fun text => ';' :: text)) ++ (';' :: last) := by
      rw [hattributes]
      simp
    rw [htext, hattributes, List.getLast?_concat, List.rtakeWhile, List.reverse_append, List.reverse_cons,
      List.append_assoc, List.takeWhile_append_of_pos (hkeep _ hlast)]
    simp

/-- A value is read to its end. -/
theorem scan_value (cookie : SetCookie) (hrest : Boundary rest) :
    scanCookies 0 ⟨out, part, false⟩ (cookie.text ++ rest) =
      scanCookies 0 ⟨out, part ++ cookie.text, endsInExpires cookie.text⟩ rest := by
  rw [endsInExpires_text, SetCookie.text, List.append_assoc,
    scan_part (safeCommas_plain cookie.pair_comma) cookie.pair_semi (boundary_attributes _ hrest),
    scan_attributes cookie.formed hrest, List.append_assoc]

/-- Also behind a date that is still open, a value adds no part. -/
theorem scan_value_open (cookie : SetCookie) (hrest : Boundary rest) :
    ∃ e, scanCookies 0 ⟨out, part, true⟩ (cookie.text ++ rest) =
      scanCookies 0 ⟨out, part ++ cookie.text, e⟩ rest := by
  refine ⟨(cookie.attributes.getLast?.map containsExpires).getD true, ?_⟩
  rw [SetCookie.text, List.append_assoc, scan_date cookie.pair_semi (Nat.zero_le _),
    scan_attributes cookie.formed hrest, List.append_assoc]

theorem scan_separator (rest : List Char) :
    scanCookies 0 ⟨out, part, false⟩ (',' :: ' ' :: rest) =
      scanCookies 0 ⟨pushPart out part, [' '], false⟩ rest := by
  rw [scanCookies, not_startsExpires_cons (by decide)]
  simp only [Bool.and_false, Bool.false_eq_true, if_false, Bool.false_and, Bool.not_false, Bool.true_and,
    beq_self_eq_true, if_true]
  rw [scanCookies, not_startsExpires_cons (by decide)]
  simp

def joined (cookies : List SetCookie) : List Char :=
  List.intercalate [',', ' '] (cookies.map SetCookie.text)

theorem joined_cons (cookie next : SetCookie) (cookies : List SetCookie) :
    joined (cookie :: next :: cookies) = cookie.text ++ ',' :: ' ' :: joined (next :: cookies) := by
  simp [joined, List.intercalate_cons_cons]

theorem trimChars_text (cookie : SetCookie) (blank : List Char) : trimChars (blank ++ cookie.text) ≠ [] := by
  intro h
  have := Js.isSpace_of_trimChars_nil h '=' (by simp [SetCookie.text, cookie.named])
  revert this
  decide

/-- The parts that a scan ends with. -/
def finished (st : CookieScan) : List (List Char) := pushPart st.out st.part

theorem length_pushPart (out : List (List Char)) (part : List Char) :
    (pushPart out part).length ≤ out.length + 1 := by
  unfold pushPart
  split_ifs
  · omega
  · simp

theorem trimmed_pushPart (h : ∀ p ∈ out, trimChars p = p) : ∀ p ∈ pushPart out part, trimChars p = p := by
  unfold pushPart
  split_ifs
  · exact h
  · intro p hp
    rcases List.mem_append.mp hp with hp | hp
    · exact h p hp
    · obtain rfl := List.mem_singleton.mp hp
      exact Js.trimChars_trimChars part

theorem trimmed_scan (st : CookieScan) (text : List Char) (h : ∀ p ∈ st.out, trimChars p = p) :
    ∀ p ∈ (scanCookies skip st text).out, trimChars p = p := by
  induction text generalizing skip st with
  | nil => cases skip <;> exact h
  | cons c text ih =>
    cases skip with
    | succ n => exact ih _ h
    | zero =>
      rw [scanCookies]
      split
      · exact ih _ h
      · dsimp only
        split
        · exact ih _ (trimmed_pushPart h)
        · exact ih _ h

theorem trimChars_blank {blank : List Char} (h : ∀ c ∈ blank, isSpace c = true) (text : List Char) :
    trimChars (blank ++ text) = trimChars text := by
  rw [trimChars, List.dropWhile_append_of_pos h]
  rfl

/-- Where every date is closed, each value becomes a part. -/
theorem finished_joined {blank : List Char} (hblank : ∀ c ∈ blank, isSpace c = true)
    (hclosed : ∀ c ∈ (cookie :: cookies).dropLast, endsInExpires c.text = false) :
    finished (scanCookies 0 ⟨out, blank, false⟩ (joined (cookie :: cookies))) =
      out ++ (cookie :: cookies).map fun c => trimChars c.text := by
  have hpush : ∀ c : SetCookie, pushPart out (blank ++ c.text) = out ++ [trimChars c.text] := by
    intro c
    rw [pushPart, if_neg (trimChars_text c blank), trimChars_blank hblank]
  induction cookies generalizing cookie out blank with
  | nil =>
    have hscan := @scan_value out blank [] cookie (Or.inl rfl)
    rw [List.append_nil] at hscan
    rw [joined, List.map_singleton, List.intercalate_singleton, hscan]
    exact hpush cookie
  | cons next cookies ih =>
    rw [List.dropLast_cons_cons, List.forall_mem_cons] at hclosed
    rw [joined_cons, scan_value cookie (Or.inr ⟨',', _, rfl, Or.inl rfl⟩), hclosed.1, scan_separator, hpush]
    have hspace : ∀ c ∈ [' '], isSpace c = true := by decide
    rw [ih hspace hclosed.2 fun c => by
      rw [pushPart, if_neg (trimChars_text c [' ']), trimChars_blank hspace]]
    simp

/-- No more parts come than there are values. -/
theorem length_finished_le (out : List (List Char)) (part : List Char) (e : Bool) :
    (finished (scanCookies 0 ⟨out, part, e⟩ (joined (cookie :: cookies)))).length ≤
      out.length + (cookies.length + 1) := by
  have hread : ∀ (out : List (List Char)) (part : List Char) (e : Bool) (cookie : SetCookie)
      (rest : List Char), Boundary rest →
      ∃ e', scanCookies 0 ⟨out, part, e⟩ (cookie.text ++ rest) =
        scanCookies 0 ⟨out, part ++ cookie.text, e'⟩ rest := by
    intro out part e cookie rest hrest
    cases e with
    | false => exact ⟨_, scan_value cookie hrest⟩
    | true => exact scan_value_open cookie hrest
  induction cookies generalizing cookie out part e with
  | nil =>
    obtain ⟨e', hscan⟩ := hread out part e cookie [] (Or.inl rfl)
    rw [List.append_nil] at hscan
    rw [joined, List.map_singleton, List.intercalate_singleton, hscan]
    exact length_pushPart out _
  | cons next cookies ih =>
    obtain ⟨e', hscan⟩ := hread out part e cookie _ (Or.inr ⟨',', ' ' :: joined (next :: cookies), rfl, Or.inl rfl⟩)
    rw [joined_cons, hscan, List.length_cons]
    cases e' with
    | false =>
      rw [scan_separator]
      have hstep := @ih next (pushPart out (part ++ cookie.text)) [' '] false
      have := length_pushPart out (part ++ cookie.text)
      omega
    | true =>
      have hdate := @scan_date out (part ++ cookie.text) [',', ' '] (joined (next :: cookies)) 0 (by decide)
        (Nat.zero_le _)
      have hstep := @ih next out (part ++ cookie.text ++ [',', ' ']) true
      rw [show ',' :: ' ' :: joined (next :: cookies) = [',', ' '] ++ joined (next :: cookies) from rfl, hdate]
      omega

/-- A date that is open at a separator loses a part. -/
theorem length_finished_lt (part : List Char)
    (hopen : ∃ c ∈ (cookie :: cookies).dropLast, endsInExpires c.text = true) :
    (finished (scanCookies 0 ⟨out, part, false⟩ (joined (cookie :: cookies)))).length <
      out.length + (cookies.length + 1) := by
  induction cookies generalizing cookie out part with
  | nil =>
    obtain ⟨c, hc, -⟩ := hopen
    cases hc
  | cons next cookies ih =>
    rw [joined_cons, scan_value cookie (Or.inr ⟨',', _, rfl, Or.inl rfl⟩), List.length_cons]
    cases hend : endsInExpires cookie.text with
    | true =>
      have hdate := @scan_date out (part ++ cookie.text) [',', ' '] (joined (next :: cookies)) 0 (by decide)
        (Nat.zero_le _)
      have hstep := @length_finished_le next cookies out (part ++ cookie.text ++ [',', ' ']) true
      rw [show ',' :: ' ' :: joined (next :: cookies) = [',', ' '] ++ joined (next :: cookies) from rfl, hdate]
      omega
    | false =>
      rw [scan_separator]
      have hrest : ∃ c ∈ (next :: cookies).dropLast, endsInExpires c.text = true := by
        obtain ⟨c, hc, hce⟩ := hopen
        rw [List.dropLast_cons_cons] at hc
        rcases List.mem_cons.mp hc with rfl | hc
        · rw [hend] at hce
          cases hce
        · exact ⟨c, hc, hce⟩
      have hstep := @ih (pushPart out (part ++ cookie.text)) next [' '] hrest
      have := length_pushPart out (part ++ cookie.text)
      omega

theorem trimChars_joined (h : ∀ c ∈ cookie :: cookies, trimChars c.text = c.text) :
    trimChars (joined (cookie :: cookies)) = joined (cookie :: cookies) := by
  have hne : ∀ c : SetCookie, c.text ≠ [] := by
    intro c hnil
    have := c.named
    rw [SetCookie.text, List.append_eq_nil_iff] at hnil
    rw [hnil.1] at this
    cases this
  have hhead : (joined (cookie :: cookies)).head? = cookie.text.head? := by
    cases cookies with
    | nil => rw [joined, List.map_singleton, List.intercalate_singleton]
    | cons next cookies => rw [joined_cons, List.head?_append_of_ne_nil _ (hne cookie)]
  have hlast : ∃ c ∈ cookie :: cookies, (joined (cookie :: cookies)).getLast? = c.text.getLast? := by
    clear h hhead
    induction cookies generalizing cookie with
    | nil =>
      refine ⟨cookie, List.mem_cons_self .., ?_⟩
      rw [joined, List.map_singleton, List.intercalate_singleton]
    | cons next cookies ih =>
      obtain ⟨c, hc, hclast⟩ := @ih next
      refine ⟨c, List.mem_cons_of_mem _ hc, ?_⟩
      have hjoined : joined (next :: cookies) ≠ [] := by
        intro hnil
        rw [hnil, List.getLast?_nil, eq_comm, List.getLast?_eq_none_iff] at hclast
        exact hne c hclast
      rw [joined_cons, List.getLast?_append_of_ne_nil _ (List.cons_ne_nil _ _),
        List.getLast?_cons_of_ne_nil (List.cons_ne_nil _ _), List.getLast?_cons_of_ne_nil hjoined, hclast]
  apply Js.trimChars_eq_self
  · intro c hc
    rw [hhead, ← h cookie (List.mem_cons_self ..)] at hc
    exact Js.head?_trimChars hc
  · intro c hc
    obtain ⟨last, hmem, hlast⟩ := hlast
    rw [hlast, ← h last hmem] at hc
    exact Js.getLast?_trimChars hc

/-- Splitting gives the values back when none has white space at an end and no separator comes behind
an open date. -/
theorem split_joined_iff (cookies : List SetCookie) (hne : cookies ≠ []) :
    splitSetCookieHeader (String.ofList (joined cookies)) =
        cookies.map (fun c => String.ofList c.text) ↔
      (∀ c ∈ cookies, trimChars c.text = c.text) ∧
        ∀ c ∈ cookies.dropLast, endsInExpires c.text = false := by
  obtain ⟨cookie, cookies, rfl⟩ := List.exists_cons_of_ne_nil hne
  have hsplit : splitSetCookieHeader (String.ofList (joined (cookie :: cookies))) =
      (finished (scanCookies 0 ⟨[], [], false⟩ (trimChars (joined (cookie :: cookies))))).map String.ofList := by
    rw [splitSetCookieHeader, String.toList_ofList]
    rfl
  have hchars : ∀ parts : List (List Char), parts.map String.ofList =
      (cookie :: cookies).map (fun c => String.ofList c.text) ↔
        parts = (cookie :: cookies).map SetCookie.text := by
    intro parts
    have hinjective : Function.Injective String.ofList :=
      fun a b hab => by simpa using congrArg String.toList hab
    have htexts : (cookie :: cookies).map (fun c => String.ofList c.text) =
        ((cookie :: cookies).map SetCookie.text).map String.ofList := by
      rw [List.map_map]
      rfl
    rw [htexts]
    exact (List.map_injective_iff.mpr hinjective).eq_iff
  rw [hsplit, hchars]
  constructor
  · intro heq
    have htrim : ∀ c ∈ cookie :: cookies, trimChars c.text = c.text := by
      intro c hc
      have hmem := List.mem_map_of_mem (f := SetCookie.text) hc
      rw [← heq] at hmem
      exact trimmed_pushPart (trimmed_scan _ _ (by simp)) _ hmem
    refine ⟨htrim, fun c hc => ?_⟩
    by_contra hopen
    rw [Bool.not_eq_false] at hopen
    have hlost := @length_finished_lt [] cookie cookies [] ⟨c, hc, hopen⟩
    rw [trimChars_joined htrim] at heq
    rw [heq] at hlost
    simp at hlost
  · rintro ⟨htrim, hclosed⟩
    rw [trimChars_joined htrim, finished_joined (by simp) hclosed, List.nil_append]
    apply List.map_congr_left
    exact htrim

/-- A session cookie of a shop, with an `Expires` attribute at the end. -/
def dated : SetCookie where
  pair := "sid=1".toList
  attributes := [" Path=/".toList, " Expires=Wed, 09 Jun 2027 10:18:14 GMT".toList]
  named := by decide
  pair_comma := by decide
  pair_semi := by decide
  formed := by
    have hpath : IsAttribute " Path=/".toList := .plain (by decide) (by decide)
    have hdate : IsAttribute " Expires=Wed, 09 Jun 2027 10:18:14 GMT".toList :=
      @IsAttribute.expires " ".toList "Expires=".toList "Wed, 09 Jun 2027 10:18:14 GMT".toList
        (by decide) (by decide) (by decide)
    simpa using ⟨hpath, hdate⟩

def plainCookie : SetCookie where
  pair := "lang=en".toList
  attributes := []
  named := by decide
  pair_comma := by decide
  pair_semi := by decide
  formed := by simp

/-- The value behind the dated one is lost in its date. -/
theorem open_date_swallows_cookie :
    splitSetCookieHeader (String.ofList (joined [dated, plainCookie])) ≠
        [dated, plainCookie].map (fun c => String.ofList c.text) ∧
      splitSetCookieHeader (String.ofList (joined [dated, plainCookie])) =
        ["sid=1; Path=/; Expires=Wed, 09 Jun 2027 10:18:14 GMT, lang=en"] := by
  constructor
  · decide
  · decide

theorem split_joined_iff_plain :
    splitSetCookieHeader (String.ofList (joined [plainCookie, dated])) =
      [plainCookie, dated].map (fun c => String.ofList c.text) :=
  (split_joined_iff [plainCookie, dated] (List.cons_ne_nil _ _)).mpr
    ⟨by decide, by decide⟩

end Values

end T560.Browser
