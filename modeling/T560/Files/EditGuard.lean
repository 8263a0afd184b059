import T560.Files.WriteGuard

/-!
# The edit guard

The guard looks at the place of every occurrence that is replaced, and not at what comes there. An
accepted edit therefore only changes texts of ranges, and the write guard accepts its result unless
a text then has the end marker: the rest of that range would become protected.
-/

namespace T560.Files

open Js Occurrence

variable {content findText replaceText tail b t x y lead : Units} {rs : List Region} {k : Nat}

/-- A start marker has at most its last unit in common with an end marker behind it. -/
theorem start_before_end (hstart : EDITABLE_START_MARKER <+: t) (hend : EDITABLE_END_MARKER <+: t.drop k) :
    18 ≤ k := by
  by_contra hk
  have hlength : EDITABLE_START_MARKER.length = 19 := by decide
  obtain ⟨back, rfl⟩ := hstart
  rw [List.drop_append_of_le_length (by omega)] at hend
  have hshort := take_prefix_of_append hend
  have hnone : ∀ k < 18, ¬ EDITABLE_END_MARKER.take (EDITABLE_START_MARKER.drop k).length <+:
      EDITABLE_START_MARKER.drop k := by
    decide
  exact hnone k (by omega) hshort

/-- A start marker does not begin inside of an end marker. -/
theorem end_before_start (hend : EDITABLE_END_MARKER <+: t) (hstart : EDITABLE_START_MARKER <+: t.drop k) :
    k = 0 ∨ 17 ≤ k := by
  by_contra hk
  obtain ⟨back, rfl⟩ := hend
  rw [List.drop_append_of_le_length (by rw [length_end]; omega)] at hstart
  have hshort := take_prefix_of_append hstart
  have hnone : ∀ k < 17, 0 < k → ¬ EDITABLE_START_MARKER.take (EDITABLE_END_MARKER.drop k).length <+:
      EDITABLE_END_MARKER.drop k := by
    decide
  exact hnone k (by omega) (by omega) hshort

theorem no_break_in_end {i : Nat} (hend : EDITABLE_END_MARKER <+: t) (hi : i < 17) : t[i]? ≠ some 10 := by
  obtain ⟨back, rfl⟩ := hend
  rw [List.getElem?_append_left (by rw [length_end]; exact hi)]
  have hnone : ∀ i < 17, EDITABLE_END_MARKER[i]? ≠ some 10 := by decide
  exact hnone i hi

/-- The first start marker of a lead, and the line break at its end. -/
theorem opening_spec (h : opening lead = some lead.length) :
    ∃ a < lead.length, EDITABLE_START_MARKER <+: lead.drop a ∧
      (∀ p < a, ¬ EDITABLE_START_MARKER <+: lead.drop p) ∧ lead[lead.length - 1]? = some 10 ∧
      ∀ i, a ≤ i → i + 1 < lead.length → lead[i]? ≠ some 10 := by
  obtain ⟨a, c, ha, hc, hlength⟩ := opening_eq_some_iff.mp h
  obtain ⟨hat, hfirst⟩ := indexOf_eq_some_iff.mp ha
  obtain ⟨hbreak, hnone⟩ := indexOf_eq_some_iff.mp hc
  have hline : LINE_BREAK = [10] := by decide
  have hhead : ∀ u : Units, LINE_BREAK <+: u ↔ u[0]? = some 10 := by
    intro u
    rw [hline]
    cases u with
    | nil => simp
    | cons d u => simp [List.cons_prefix_cons, eq_comm]
  refine ⟨a, by omega, hat, hfirst, ?_, ?_⟩
  · rw [hhead, List.drop_drop, List.getElem?_drop] at hbreak
    rw [← hbreak]
    congr 1
    omega
  · intro i hi hlt hat10
    apply hnone (i - a) (by omega)
    rw [hhead, List.drop_drop, List.getElem?_drop, ← hat10]
    congr 1
    omega

theorem end_in_text {p : Nat} (h : EDITABLE_END_MARKER <+: (lead ++ (t ++ y)).drop p)
    (hle : lead.length ≤ p) (hlt : p + 17 ≤ lead.length + t.length) : EDITABLE_END_MARKER <:+: t := by
  obtain ⟨q, rfl⟩ := Nat.exists_eq_add_of_le hle
  rw [← List.drop_drop, List.drop_left, List.drop_append_of_le_length (by omega)] at h
  have hprefix : EDITABLE_END_MARKER <+: t.drop q :=
    List.prefix_of_prefix_length_le h (List.prefix_append _ _) (by rw [length_end, List.length_drop]; omega)
  exact hprefix.isInfix.trans (List.drop_suffix q t).isInfix

/-- A lead that comes again behind an end marker brings the marker into the text behind the lead. -/
theorem end_of_shifted_lead (hopen : opening lead = some lead.length)
    (heq : b ++ (EDITABLE_END_MARKER ++ (lead ++ x)) = lead ++ (t ++ y)) (hle : b.length + 17 ≤ t.length) :
    EDITABLE_END_MARKER <:+: t := by
  obtain ⟨a, ha, hat, hfirst, hbreak, hnone⟩ := opening_spec hopen
  by_contra hfree
  have hend : EDITABLE_END_MARKER <+: (lead ++ (t ++ y)).drop b.length := by
    rw [← heq, List.drop_left]
    exact List.prefix_append _ _
  have hagain : (lead ++ (t ++ y)).drop (b.length + 17) = lead ++ x := by
    rw [← heq, ← List.drop_drop, List.drop_left, ← length_end, List.drop_left]
  have hinside : b.length < lead.length := by
    by_contra hge
    exact hfree (end_in_text hend (by omega) (by omega))
  -- the lead ends in a line break, which the end marker does not have
  have hshort : b.length + 17 < lead.length := by
    by_contra hge
    apply no_break_in_end hend (i := lead.length - 1 - b.length) (by omega)
    rw [List.getElem?_drop, ← hbreak, List.getElem?_append_left (by omega)]
    congr 1
    omega
  have hstart : EDITABLE_START_MARKER <+: (lead ++ (t ++ y)).drop a := by
    rw [List.drop_append_of_le_length (by omega)]
    exact hat.trans (List.prefix_append _ _)
  have hlength : EDITABLE_START_MARKER.length = 19 := by decide
  -- the first start marker is not behind the end marker: it would come earlier in the first lead
  have hbefore : a < b.length + 17 := by
    by_contra hge
    apply hfirst (a - (b.length + 17)) (by omega)
    have hlong := hat.length_le
    rw [List.length_drop] at hlong
    have hcopy : EDITABLE_START_MARKER <+: lead.drop (a - (b.length + 17)) ++ x := by
      rw [← List.drop_append_of_le_length (by omega), ← hagain, List.drop_drop,
        show b.length + 17 + (a - (b.length + 17)) = a by omega]
      exact hstart
    exact List.prefix_of_prefix_length_le hcopy (List.prefix_append _ _)
      (by rw [List.length_drop]; omega)
  have hgap : a + 18 ≤ b.length := by
    rcases Nat.lt_or_ge b.length a with hlt | hge
    · have := @end_before_start _ (a - b.length) hend (by
        rw [List.drop_drop, show b.length + (a - b.length) = a by omega]
        exact hstart)
      omega
    · have := @start_before_end _ (b.length - a) hstart (by
        rw [List.drop_drop, show a + (b.length - a) = b.length by omega]
        exact hend)
      omega
  -- the line break comes in the second lead as early, which is before its start marker
  have hearly : lead.length - 1 - (b.length + 17) < a := by
    by_contra hge
    apply hnone (lead.length - 1 - (b.length + 17)) (by omega) (by omega)
    have hcopy : (lead ++ (t ++ y))[lead.length - 1]? = some 10 := by
      rw [List.getElem?_append_left (by omega), hbreak]
    rw [show lead.length - 1 = b.length + 17 + (lead.length - 1 - (b.length + 17)) by omega,
      ← List.getElem?_drop, hagain, List.getElem?_append_left (by omega)] at hcopy
    exact hcopy
  apply hfree
  have hcopy : EDITABLE_END_MARKER <+: (lead ++ (t ++ y)).drop (b.length + 17 + b.length) := by
    rw [← List.drop_drop, hagain, List.drop_append_of_le_length (by omega)]
    have hlead : EDITABLE_END_MARKER <+: lead.drop b.length := by
      rw [List.drop_append_of_le_length (by omega)] at hend
      exact List.prefix_of_prefix_length_le hend (List.prefix_append _ _)
        (by rw [length_end, List.length_drop]; omega)
    exact hlead.trans (List.prefix_append _ _)
  exact end_in_text hcopy (by omega) (by omega)

/-- Nothing that ends in an end marker comes out of other texts. -/
theorem renderWith_not_shifted {texts texts' : List Units} (htexts : texts.length = rs.length)
    (htexts' : texts'.length = rs.length) (hfree : ∀ t ∈ texts', ¬ EDITABLE_END_MARKER <:+: t) :
    b ++ (EDITABLE_END_MARKER ++ renderWith tail rs texts) ≠ renderWith tail rs texts' := by
  induction rs generalizing b texts texts' with
  | nil =>
    intro heq
    have := congrArg List.length heq
    simp only [renderWith, List.length_append, length_end] at this
    omega
  | cons r rs ih =>
    obtain ⟨t, texts, rfl⟩ : ∃ t more, texts = t :: more := List.exists_cons_of_length_eq_add_one htexts
    obtain ⟨t', texts', rfl⟩ : ∃ t more, texts' = t :: more :=
      List.exists_cons_of_length_eq_add_one htexts'
    rw [renderWith, renderWith]
    intro heq
    rcases Nat.lt_or_ge t'.length (b.length + 17) with hlt | hge
    swap
    · exact hfree t' (List.mem_cons_self ..) (end_of_shifted_lead r.opens heq hge)
    -- the first end marker on the right is inside of what comes before the rest on the left
    have hsplit : (r.lead ++ (t' ++ EDITABLE_END_MARKER)) ++ renderWith tail rs texts' =
        ((b ++ (EDITABLE_END_MARKER ++ (r.lead ++ t))) ++ EDITABLE_END_MARKER) ++
          renderWith tail rs texts := by
      simpa using heq.symm
    obtain ⟨w, hleft, hright⟩ | ⟨w, hleft, -⟩ := List.append_eq_append_iff.mp hsplit
    · rw [List.append_assoc, List.append_assoc] at hleft
      have hends : r.lead ++ t' ++ (EDITABLE_END_MARKER ++ w) =
          b ++ (EDITABLE_END_MARKER ++ (r.lead ++ t)) ++ EDITABLE_END_MARKER := by
        simpa using hleft.symm
      obtain rfl | ⟨b', rfl⟩ := ends_with_needle unbordered_end hends
      · have := congrArg List.length hends
        simp only [List.length_append, List.length_nil, length_end] at this
        omega
      · rw [List.append_assoc] at hright
        exact ih (by simpa using htexts) (by simpa using htexts')
          (fun u hu => hfree u (List.mem_cons_of_mem _ hu)) hright.symm
    · have := congrArg List.length hleft
      simp only [List.length_append, length_end] at this
      omega

/-- Texts without the end marker are told from the content that they give. -/
theorem free_of_renderWith_eq {texts texts' : List Units} (htexts : texts.length = rs.length)
    (htexts' : texts'.length = rs.length) (hfree : ∀ t ∈ texts', ¬ EDITABLE_END_MARKER <:+: t)
    (heq : renderWith tail rs texts = renderWith tail rs texts') :
    ∀ t ∈ texts, ¬ EDITABLE_END_MARKER <:+: t := by
  induction rs generalizing texts texts' with
  | nil =>
    obtain rfl := List.eq_nil_of_length_eq_zero htexts
    simp
  | cons r rs ih =>
    obtain ⟨t, texts, rfl⟩ : ∃ t more, texts = t :: more := List.exists_cons_of_length_eq_add_one htexts
    obtain ⟨t', texts', rfl⟩ : ∃ t more, texts' = t :: more :=
      List.exists_cons_of_length_eq_add_one htexts'
    have hfirst := hfree t' (List.mem_cons_self ..)
    have hrest := fun u hu => hfree u (List.mem_cons_of_mem t' hu)
    rw [renderWith, renderWith] at heq
    have hbehind := List.append_cancel_left heq
    have hindex := @indexOf_append _ _ _ _ (renderWith tail rs texts') unbordered_end hfirst
    rw [← hbehind] at hindex
    have hsame : t = t' := by
      cases ht : indexOf EDITABLE_END_MARKER t with
      | none =>
        rw [indexOf_append unbordered_end (indexOf_eq_none_iff.mp ht), Option.some.injEq] at hindex
        exact (List.append_inj hbehind hindex).1
      | some n =>
        rw [indexOf_append_left ht, Option.some.injEq] at hindex
        obtain ⟨hsplit, hle⟩ := indexOf_split ht
        rw [hsplit, List.append_assoc] at hbehind
        obtain ⟨-, hmarker⟩ := List.append_inj hbehind (by rw [List.length_take]; omega)
        rw [List.append_assoc] at hmarker
        exact absurd (List.append_cancel_left hmarker)
          (renderWith_not_shifted (by simpa using htexts) (by simpa using htexts') hrest)
    subst hsame
    intro u hu
    rcases List.mem_cons.mp hu with rfl | hu
    · exact hfirst
    · exact ih (by simpa using htexts) (by simpa using htexts') hrest
        (List.append_cancel_left (List.append_cancel_left hbehind)) u hu

theorem write_refill_iff {texts : List Units} (h : parseEditableRanges content ≠ [])
    (htexts : texts.length = (parseEditableRanges content).length) :
    assertWriteWithinAllowedRanges content (refill content 0 (parseEditableRanges content) texts) = .ok () ↔
      ∀ t ∈ texts, ¬ EDITABLE_END_MARKER <:+: t := by
  obtain ⟨tail, rs, htail, rfl⟩ := exists_render content
  have hrs : rs ≠ [] := by
    rwa [parse_render htail, Ne, rangesOf_eq_nil_iff] at h
  rw [parse_render htail, length_rangesOf] at htexts
  rw [parse_render htail, refill_render htexts]
  constructor
  · intro hok
    obtain ⟨tail', rs', htail', hnext⟩ := exists_render (renderWith tail rs texts)
    rw [hnext] at hok
    obtain ⟨rfl, hleads⟩ := (write_render_iff htail htail' hrs).mp hok
    have hlength : rs'.length = rs.length := by simpa using (congrArg List.length hleads).symm
    refine free_of_renderWith_eq htexts (by rwa [List.length_map]) ?_
      (hnext.trans (renderWith_texts hleads.symm).symm)
    intro text htext
    obtain ⟨r, -, rfl⟩ := List.mem_map.mp htext
    exact r.free
  · intro hfree
    obtain ⟨filled, hleads, rfl⟩ := exists_withTexts htexts hfree
    rw [renderWith_texts hleads, write_render_iff htail htail hrs]
    exact ⟨rfl, hleads.symm⟩

theorem collect_from_eq_places (hfind : findText ≠ []) (past l : Units) {fuel : Nat}
    (hfuel : l.length < fuel) :
    collectMatchRangesFrom (past ++ l) findText fuel past.length =
      (places findText 0 past.length l).map fun p => ⟨p, p + findText.length⟩ := by
  induction fuel generalizing past l with
  | zero => omega
  | succ fuel ih =>
    have hpos : 0 < findText.length := List.length_pos_iff.mpr hfind
    have hindex := indexOfFrom_append past l findText 0
    rw [Nat.add_zero, List.drop_zero] at hindex
    rw [collectMatchRangesFrom, if_pos (by simp), hindex, places_eq hfind]
    cases hn : indexOf findText l with
    | none => rfl
    | some n =>
      obtain ⟨-, hle⟩ := indexOf_split hn
      have hcut : past ++ l = (past ++ l.take (n + findText.length)) ++ l.drop (n + findText.length) := by
        rw [List.append_assoc, List.take_append_drop]
      have hlength : past.length + n + findText.length = (past ++ l.take (n + findText.length)).length := by
        rw [List.length_append, List.length_take]
        omega
      simp only [Option.map_some, List.map_cons]
      rw [hlength, hcut, ih _ _ (by rw [List.length_drop]; omega)]

theorem collect_eq_places (hfind : findText ≠ []) :
    collectMatchRanges content findText =
      (places findText 0 0 content).map fun p => ⟨p, p + findText.length⟩ :=
  collect_from_eq_places hfind [] content (Nat.lt_succ_self _)

theorem le_start_of_mem_rangesOf {i : Nat} {range : EditableRange} (h : range ∈ rangesOf i rs) :
    i ≤ range.start := by
  induction rs generalizing i with
  | nil => cases h
  | cons r rs ih =>
    rw [rangesOf] at h
    rcases List.mem_cons.mp h with rfl | h
    · simp
    · have := ih h
      omega

theorem slice_middle (past front t back : Units) :
    slice (past ++ (front ++ (t ++ back))) (past.length + front.length)
      (past.length + front.length + t.length) = t := by
  rw [← List.append_assoc, ← List.length_append]
  exact slice_append (past ++ front) t back

theorem map_slice_rangesOf (past mid : Units) :
    (rangesOf (past.length + mid.length) rs).map
        (fun range => slice (past ++ (mid ++ render tail rs)) range.start range.end) =
      rs.map Region.text := by
  induction rs generalizing past mid with
  | nil => rfl
  | cons r rs ih =>
    rw [rangesOf, render, List.map_cons, List.map_cons]
    have hcut : past ++ (mid ++ (r.lead ++ (r.text ++ (EDITABLE_END_MARKER ++ render tail rs)))) =
        (past ++ (mid ++ (r.lead ++ r.text))) ++ (EDITABLE_END_MARKER ++ render tail rs) := by
      simp
    have hlength : past.length + mid.length + r.lead.length + r.text.length =
        (past ++ (mid ++ (r.lead ++ r.text))).length := by
      simp only [List.length_append]
      omega
    congr 1
    · have := slice_middle past (mid ++ r.lead) r.text (EDITABLE_END_MARKER ++ render tail rs)
      rwa [List.length_append, List.append_assoc, ← Nat.add_assoc] at this
    · rw [hcut, hlength, ih]

/-- Replacing all occurrences changes each text on its own. -/
theorem replaced_render (hfind : findText ≠ []) {i : Nat} (mid : Units)
    (h : ∀ p ∈ places findText 0 i (mid ++ render tail rs), ∃ range ∈ rangesOf (i + mid.length) rs,
      range.start ≤ p ∧ p + findText.length ≤ range.end) :
    replaced findText replaceText 0 (mid ++ render tail rs) =
      mid ++ renderWith tail rs (rs.map fun r => replaced findText replaceText 0 r.text) := by
  have hpos : 0 < findText.length := List.length_pos_iff.mpr hfind
  induction rs generalizing i mid with
  | nil =>
    change replaced findText replaceText 0 (mid ++ tail) = mid ++ tail
    apply replaced_of_places_nil (i := i)
    apply List.eq_nil_iff_forall_not_mem.mpr
    intro p hp
    obtain ⟨range, hrange, -⟩ := h p hp
    cases hrange
  | cons r rs ih =>
    rw [render, ← List.append_assoc] at h
    rw [render, ← List.append_assoc, List.map_cons, renderWith]
    rw [rangesOf] at h
    have hlead : i + (mid ++ r.lead).length = i + mid.length + r.lead.length := by
      rw [List.length_append]
      omega
    -- no occurrence starts in front of the text
    have hfront : ∀ p ∈ places findText 0 i
        ((mid ++ r.lead) ++ (r.text ++ (EDITABLE_END_MARKER ++ render tail rs))),
        i + mid.length + r.lead.length ≤ p := by
      intro p hp
      obtain ⟨range, hrange, hstart, -⟩ := h p hp
      rcases List.mem_cons.mp hrange with rfl | hrange
      · exact hstart
      · have := le_start_of_mem_rangesOf hrange
        omega
    obtain ⟨hplaces, hreplaced⟩ := @parts_append _ _ findText replaceText (mid ++ r.lead)
      (r.text ++ (EDITABLE_END_MARKER ++ render tail rs)) 0 i (Nat.zero_le _) (by
        intro p hp hlt
        have := hfront p hp
        omega)
    have hnone : places findText 0 i (mid ++ r.lead) = [] := by
      apply List.eq_nil_iff_forall_not_mem.mpr
      intro p hp
      have hlt := lt_of_mem_places hp
      have hle := hfront p (by rw [hplaces]; exact List.mem_append_left _ hp)
      omega
    rw [hplaces, hnone, List.nil_append, hlead] at h
    rw [hreplaced, replaced_of_places_nil hnone, List.append_assoc]
    congr 2
    obtain ⟨hplaces, hreplaced⟩ := @parts_append _ _ findText replaceText r.text
      (EDITABLE_END_MARKER ++ render tail rs) 0 (i + mid.length + r.lead.length) (Nat.zero_le _) (by
        intro p hp hlt
        obtain ⟨range, hrange, hstart, hend⟩ := h p hp
        rcases List.mem_cons.mp hrange with rfl | hrange
        · exact hend
        · have := le_start_of_mem_rangesOf hrange
          omega)
    rw [hreplaced]
    congr 1
    apply ih
    intro p hp
    obtain ⟨range, hrange, hstart, hend⟩ := h p (by rw [hplaces]; exact List.mem_append_right _ hp)
    rcases List.mem_cons.mp hrange with rfl | hrange
    · have := le_of_mem_places hp
      simp only at hend
      omega
    · exact ⟨range, hrange, hstart, hend⟩

/-- The text of a range when `count` units at `n` become another text. -/
def splicedText (content : Units) (n count : Nat) (e : Units) (range : EditableRange) : Units :=
  if range.start ≤ n ∧ n + count ≤ range.end then
    slice content range.start n ++ (e ++ slice content (n + count) range.end)
  else slice content range.start range.end

theorem splice_middle (front text back e : Units) {j count : Nat} (h : j + count ≤ text.length) :
    (front ++ (text ++ back)).take (front.length + j) ++
        (e ++ (front ++ (text ++ back)).drop (front.length + j + count)) =
      front ++ ((slice (front ++ (text ++ back)) front.length (front.length + j) ++
        (e ++ slice (front ++ (text ++ back)) (front.length + j + count) (front.length + text.length))) ++
          back) := by
  have htake : (front ++ (text ++ back)).take (front.length + j) = front ++ text.take j := by
    rw [List.take_length_add_append, List.take_append_of_le_length (by omega)]
  have hdrop : (front ++ (text ++ back)).drop (front.length + j + count) = text.drop (j + count) ++ back := by
    rw [Nat.add_assoc, List.drop_length_add_append, List.drop_append_of_le_length h]
  have hfront : slice (front ++ (text ++ back)) front.length (front.length + j) = text.take j := by
    rw [slice, htake, List.drop_left]
  have hback : slice (front ++ (text ++ back)) (front.length + j + count) (front.length + text.length) =
      text.drop (j + count) := by
    rw [slice, List.take_length_add_append, List.take_left, Nat.add_assoc, List.drop_length_add_append]
  rw [htake, hdrop, hfront, hback]
  simp

/-- A part of one text is replaced, and the other texts stay. -/
theorem splice_render {n count : Nat} (e : Units) (hcount : 0 < count) (past mid : Units)
    (h : ∃ range ∈ rangesOf (past.length + mid.length) rs, range.start ≤ n ∧ n + count ≤ range.end) :
    (past ++ (mid ++ render tail rs)).take n ++ (e ++ (past ++ (mid ++ render tail rs)).drop (n + count)) =
      past ++ (mid ++ renderWith tail rs ((rangesOf (past.length + mid.length) rs).map
        (splicedText (past ++ (mid ++ render tail rs)) n count e))) := by
  induction rs generalizing past mid with
  | nil =>
    obtain ⟨range, hrange, -⟩ := h
    cases hrange
  | cons r rs ih =>
    have hcut : past ++ (mid ++ render tail (r :: rs)) =
        (past ++ (mid ++ (r.lead ++ r.text))) ++ (EDITABLE_END_MARKER ++ render tail rs) := by
      simp [render]
    have hlength : past.length + mid.length + r.lead.length + r.text.length =
        (past ++ (mid ++ (r.lead ++ r.text))).length := by
      simp only [List.length_append]
      omega
    have hend := length_end
    rw [rangesOf] at h ⊢
    rw [List.map_cons, renderWith]
    obtain ⟨range, hrange, hstart, hfinish⟩ := h
    rcases List.mem_cons.mp hrange with rfl | hrange
    · -- the part is in the first text
      simp only at hstart hfinish
      have hothers : (rangesOf (past.length + mid.length + r.lead.length + r.text.length +
            EDITABLE_END_MARKER.length) rs).map
          (splicedText (past ++ (mid ++ render tail (r :: rs))) n count e) = rs.map Region.text := by
        rw [hcut, hlength, ← map_slice_rangesOf (past ++ (mid ++ (r.lead ++ r.text))) EDITABLE_END_MARKER]
        apply List.map_congr_left
        intro other hother
        rw [splicedText, if_neg]
        have := le_start_of_mem_rangesOf hother
        omega
      rw [hothers, renderWith_texts rfl, splicedText, if_pos ⟨hstart, hfinish⟩]
      obtain ⟨j, rfl⟩ := Nat.exists_eq_add_of_le hstart
      have hsplice := @splice_middle (past ++ (mid ++ r.lead)) r.text
        (EDITABLE_END_MARKER ++ render tail rs) e j count (by omega)
      have hfront : (past ++ (mid ++ r.lead)).length = past.length + mid.length + r.lead.length := by
        simp only [List.length_append]
        omega
      rw [hfront] at hsplice
      simpa [render] using hsplice
    · -- the part is in a later text
      have hlater := le_start_of_mem_rangesOf hrange
      have hfirst : splicedText (past ++ (mid ++ render tail (r :: rs))) n count e
          ⟨past.length + mid.length + r.lead.length,
            past.length + mid.length + r.lead.length + r.text.length⟩ = r.text := by
        rw [splicedText, if_neg (by simp only; omega)]
        have := slice_middle past (mid ++ r.lead) r.text (EDITABLE_END_MARKER ++ render tail rs)
        rw [List.length_append, List.append_assoc, ← Nat.add_assoc] at this
        exact this
      rw [hfirst, hcut, hlength, ih _ _ ⟨range, by rwa [← hlength], hstart, hfinish⟩]
      simp

/-- The text of a range after the edit. -/
def editedText (content findText replaceText : Units) (replaceAll : Bool) (range : EditableRange) : Units :=
  if replaceAll then replaced findText replaceText 0 (slice content range.start range.end)
  else
    match indexOf findText content with
    | none => slice content range.start range.end
    | some n =>
      splicedText content n findText.length
        (getSubstitution findText (content.take n) (content.drop (n + findText.length)) replaceText) range

theorem edit_accepted_iff {replaceAll : Bool} (h : parseEditableRanges content ≠ [])
    (hfind : findText ≠ []) :
    assertEditWithinAllowedRanges content findText replaceAll = .ok () ↔
      ∀ p ∈ if replaceAll then places findText 0 0 content else (places findText 0 0 content).take 1,
        ∃ range ∈ parseEditableRanges content, range.start ≤ p ∧ p + findText.length ≤ range.end := by
  have htargets : (if replaceAll then collectMatchRanges content findText
      else (collectMatchRanges content findText).take 1) =
      (if replaceAll then places findText 0 0 content else (places findText 0 0 content).take 1).map
        fun p => ⟨p, p + findText.length⟩ := by
    rw [collect_eq_places hfind]
    cases replaceAll <;> simp
  simp only [assertEditWithinAllowedRanges, if_neg h, htargets, List.all_map]
  generalize (if replaceAll then places findText 0 0 content
    else (places findText 0 0 content).take 1) = targets
  split_ifs with hall
  all_goals simpa [List.all_eq_true, isWithinEditableRanges] using hall

theorem edited_eq_refill {replaceAll : Bool} (h : parseEditableRanges content ≠ []) (hfind : findText ≠ [])
    (haccept : assertEditWithinAllowedRanges content findText replaceAll = .ok ()) :
    editedContent content findText replaceText replaceAll =
      refill content 0 (parseEditableRanges content)
        ((parseEditableRanges content).map (editedText content findText replaceText replaceAll)) := by
  have hpos : 0 < findText.length := List.length_pos_iff.mpr hfind
  rw [edit_accepted_iff h hfind] at haccept
  obtain ⟨tail, rs, htail, rfl⟩ := exists_render content
  rw [parse_render htail] at haccept ⊢
  rw [refill_render (by rw [List.length_map, length_rangesOf])]
  have hslices := @map_slice_rangesOf tail rs [] []
  cases replaceAll with
  | true =>
    have hwhole := @replaced_render findText replaceText tail rs hfind 0 [] haccept
    have htexts : (rangesOf 0 rs).map (editedText (render tail rs) findText replaceText true) =
        rs.map fun r => replaced findText replaceText 0 r.text := by
      have := congrArg (List.map (replaced findText replaceText 0)) hslices
      rw [List.map_map, List.map_map] at this
      exact this
    rw [htexts]
    exact hwhole
  | false =>
    cases hn : indexOf findText (render tail rs) with
    | none =>
      have htexts : (rangesOf 0 rs).map (editedText (render tail rs) findText replaceText false) =
          rs.map Region.text := by
        refine Eq.trans (List.map_congr_left fun range _ => ?_) hslices
        simp only [editedText, hn, Bool.false_eq_true, if_false]
        rfl
      rw [htexts, renderWith_texts rfl]
      simp only [editedContent, replaceFirst, hn, Bool.false_eq_true, if_false]
    | some n =>
      have hinside := haccept n (by
        rw [places_eq hfind, hn]
        simp)
      have hwhole := @splice_render tail rs n findText.length
        (getSubstitution findText ((render tail rs).take n) ((render tail rs).drop (n + findText.length))
          replaceText) hpos [] [] hinside
      have htexts : (rangesOf 0 rs).map (editedText (render tail rs) findText replaceText false) =
          (rangesOf 0 rs).map (splicedText (render tail rs) n findText.length
            (getSubstitution findText ((render tail rs).take n)
              ((render tail rs).drop (n + findText.length)) replaceText)) := by
        apply List.map_congr_left
        intro range _
        simp only [editedText, hn, Bool.false_eq_true, if_false]
      simp only [editedContent, replaceFirst, hn, Bool.false_eq_true, if_false]
      rw [htexts, List.append_assoc]
      exact hwhole

/-- The two guards agree on an edit unless it brings the end marker into a range. -/
theorem edit_write_agree_iff {replaceAll : Bool} (h : parseEditableRanges content ≠ [])
    (hfind : findText ≠ []) :
    (assertEditWithinAllowedRanges content findText replaceAll = .ok () →
      assertWriteWithinAllowedRanges content (editedContent content findText replaceText replaceAll) =
        .ok ()) ↔
    (assertEditWithinAllowedRanges content findText replaceAll = .ok () →
      ∀ range ∈ parseEditableRanges content,
        ¬ EDITABLE_END_MARKER <:+: editedText content findText replaceText replaceAll range) := by
  apply imp_congr_right
  intro haccept
  rw [edited_eq_refill h hfind haccept, write_refill_iff h (by rw [List.length_map])]
  simp

/-- The end marker in the replacement text cuts the range short. -/
theorem edit_ends_range :
    let content := units "# T560_EDITABLE_START\nlevel = 1\n# T560_EDITABLE_END\nowner = ops\n"
    let replaceText := units "2\n# T560_EDITABLE_END\n"
    assertEditWithinAllowedRanges content (units "1") false = .ok () ∧
      assertWriteWithinAllowedRanges content (editedContent content (units "1") replaceText false) =
        .error protectedChanged := by
  decide

/-- An edit of a range's text alone. -/
theorem edit_write_agree_iff_level :
    assertWriteWithinAllowedRanges (units "# T560_EDITABLE_START\nlevel = 1\n# T560_EDITABLE_END\n")
      (editedContent (units "# T560_EDITABLE_START\nlevel = 1\n# T560_EDITABLE_END\n") (units "1")
        (units "2") false) = .ok () :=
  (edit_write_agree_iff (by decide) (by decide)).mpr
    (fun _ => by decide) (by decide)

end T560.Files
