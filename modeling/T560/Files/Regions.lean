import T560.Files.Editable

/-!
# Regions of a file

A file is a row of regions and a tail. A region leads up to the end of its start line, then comes
the text that may change, then the end marker. The scan of the code finds exactly these regions,
because a text without the end marker cannot complete one with the marker that follows it.
-/

namespace T560.Files

open Js Occurrence

/-- Where the line of the first start marker ends. -/
def opening (l : Units) : Option Nat :=
  (indexOf EDITABLE_START_MARKER l).bind fun a => (indexOf LINE_BREAK (l.drop a)).map fun b => a + (b + 1)

@[ext]
structure Region where
  lead : Units
  text : Units
  opens : opening lead = some lead.length
  free : ¬ EDITABLE_END_MARKER <:+: text

/-- A text in which no region is complete. -/
def Closed (tail : Units) : Prop :=
  ∀ n, opening tail = some n → ¬ EDITABLE_END_MARKER <:+: tail.drop n

def render (tail : Units) : List Region → Units
  | [] => tail
  | r :: rs => r.lead ++ (r.text ++ (EDITABLE_END_MARKER ++ render tail rs))

/-- The same regions with other texts. -/
def renderWith (tail : Units) : List Region → List Units → Units
  | r :: rs, text :: texts => r.lead ++ (text ++ (EDITABLE_END_MARKER ++ renderWith tail rs texts))
  | _, _ => tail

def rangesOf : Nat → List Region → List EditableRange
  | _, [] => []
  | i, r :: rs =>
    let start := i + r.lead.length
    let finish := start + r.text.length
    ⟨start, finish⟩ :: rangesOf (finish + EDITABLE_END_MARKER.length) rs

/-- The content with other texts in its ranges. -/
def refill (content : Units) : Nat → List EditableRange → List Units → Units
  | cursor, range :: ranges, text :: texts =>
    slice content cursor range.start ++ (text ++ refill content range.end ranges texts)
  | cursor, _, _ => content.drop cursor

variable {l rest past mid tail tail' : Units} {n i fuel : Nat} {rs rs' : List Region}
  {texts : List Units}

theorem unbordered_end : Unbordered EDITABLE_END_MARKER := by decide

theorem length_end : EDITABLE_END_MARKER.length = 17 := by decide

theorem end_ne_nil : EDITABLE_END_MARKER ≠ [] := by decide

theorem end_free_nil : ¬ EDITABLE_END_MARKER <:+: [] := fun h => end_ne_nil (List.infix_nil.mp h)

/-- The region with nothing in its range. -/
def Region.cleared (r : Region) : Region := ⟨r.lead, [], r.opens, end_free_nil⟩

theorem opening_eq_some_iff :
    opening l = some n ↔ ∃ a b, indexOf EDITABLE_START_MARKER l = some a ∧
      indexOf LINE_BREAK (l.drop a) = some b ∧ n = a + (b + 1) := by
  simp only [opening, Option.bind_eq_some_iff, Option.map_eq_some_iff]
  constructor
  · rintro ⟨a, ha, b, hb, rfl⟩
    exact ⟨a, b, ha, hb, rfl⟩
  · rintro ⟨a, b, ha, hb, rfl⟩
    exact ⟨a, ha, b, hb, rfl⟩

theorem opening_append (h : opening l = some n) : opening (l ++ rest) = some n := by
  obtain ⟨a, b, ha, hb, rfl⟩ := opening_eq_some_iff.mp h
  have hlength := (indexOf_split ha).2
  refine opening_eq_some_iff.mpr ⟨a, b, indexOf_append_left ha, ?_, rfl⟩
  rw [List.drop_append_of_le_length (by omega)]
  exact indexOf_append_left hb

/-- The line does not break inside of its marker. -/
theorem marker_before_break {a b : Nat} (ha : indexOf EDITABLE_START_MARKER l = some a)
    (hb : indexOf LINE_BREAK (l.drop a) = some b) : EDITABLE_START_MARKER.length ≤ b := by
  by_contra hlt
  obtain ⟨⟨back, hback⟩, -⟩ := indexOf_eq_some_iff.mp ha
  obtain ⟨hbreak, -⟩ := indexOf_eq_some_iff.mp hb
  rw [← hback, List.drop_append_of_le_length (by omega)] at hbreak
  obtain ⟨more, hmore⟩ := hbreak
  have hmem : (10 : UInt16) ∈ EDITABLE_START_MARKER := by
    have hhead : (EDITABLE_START_MARKER.drop b ++ back).head? = some 10 := by
      rw [← hmore]
      rfl
    apply List.mem_of_mem_drop (i := b)
    cases hdrop : EDITABLE_START_MARKER.drop b with
    | nil =>
      have := congrArg List.length hdrop
      simp only [List.length_drop, List.length_nil] at this
      omega
    | cons c cs =>
      rw [hdrop] at hhead
      simp only [List.cons_append, List.head?_cons, Option.some.injEq] at hhead
      simp [hhead]
  revert hmem
  decide

theorem opening_take (h : opening l = some n) : opening (l.take n) = some n ∧ n ≤ l.length := by
  obtain ⟨a, b, ha, hb, rfl⟩ := opening_eq_some_iff.mp h
  have hbreak := marker_before_break ha hb
  have hlength := (indexOf_split hb).2
  rw [List.length_drop] at hlength
  have hone : LINE_BREAK.length = 1 := rfl
  have hstart := (indexOf_split ha).2
  refine ⟨opening_eq_some_iff.mpr ⟨a, b, indexOf_take ha (by omega), ?_, rfl⟩, by omega⟩
  rw [List.drop_take]
  exact indexOf_take hb (by omega)

theorem indexOfFrom_append (past l needle : Units) (k : Nat) :
    indexOfFrom (past ++ l) needle (past.length + k) =
      (indexOf needle (l.drop k)).map (past.length + k + ·) := by
  rw [indexOfFrom, List.drop_append, List.drop_eq_nil_of_le (by omega), Nat.add_sub_cancel_left,
    List.nil_append]

/-- One turn of the loop reads one region. -/
theorem parse_region (r : Region) (rest : Units) :
    parseEditableRangesFrom (past ++ (r.lead ++ (r.text ++ (EDITABLE_END_MARKER ++ rest)))) (fuel + 1)
        past.length =
      ⟨past.length + r.lead.length, past.length + r.lead.length + r.text.length⟩ ::
        parseEditableRangesFrom (past ++ (r.lead ++ (r.text ++ (EDITABLE_END_MARKER ++ rest)))) fuel
          (past.length + r.lead.length + r.text.length + EDITABLE_END_MARKER.length) := by
  obtain ⟨a, b, ha, hb, hn⟩ := opening_eq_some_iff.mp r.opens
  have hstart : indexOfFrom (past ++ (r.lead ++ (r.text ++ (EDITABLE_END_MARKER ++ rest))))
      EDITABLE_START_MARKER past.length = some (past.length + a) := by
    have := indexOfFrom_append past (r.lead ++ (r.text ++ (EDITABLE_END_MARKER ++ rest)))
      EDITABLE_START_MARKER 0
    rw [Nat.add_zero, List.drop_zero, indexOf_append_left ha] at this
    exact this
  have hbreak : indexOfFrom (past ++ (r.lead ++ (r.text ++ (EDITABLE_END_MARKER ++ rest))))
      LINE_BREAK (past.length + a) = some (past.length + a + b) := by
    have hle := (indexOf_split ha).2
    rw [indexOfFrom_append, List.drop_append_of_le_length (by omega), indexOf_append_left hb]
    rfl
  have hend : indexOfFrom (past ++ (r.lead ++ (r.text ++ (EDITABLE_END_MARKER ++ rest))))
      EDITABLE_END_MARKER (past.length + r.lead.length) =
        some (past.length + r.lead.length + r.text.length) := by
    rw [indexOfFrom_append, List.drop_left, indexOf_append unbordered_end r.free]
    rfl
  have hinside : past.length < (past ++ (r.lead ++ (r.text ++ (EDITABLE_END_MARKER ++ rest)))).length := by
    have := length_end
    simp only [List.length_append]
    omega
  simp only [parseEditableRangesFrom, if_pos hinside, hstart, hbreak]
  rw [show past.length + a + b + 1 = past.length + r.lead.length by omega]
  simp only [hend]

theorem parse_closed (h : Closed tail) :
    parseEditableRangesFrom (past ++ tail) fuel past.length = [] := by
  cases fuel with
  | zero => rfl
  | succ fuel =>
    rw [parseEditableRangesFrom]
    split_ifs with hinside
    swap
    · rfl
    have hstart := indexOfFrom_append past tail EDITABLE_START_MARKER 0
    rw [Nat.add_zero, List.drop_zero] at hstart
    rw [hstart]
    cases ha : indexOf EDITABLE_START_MARKER tail with
    | none => rfl
    | some a =>
      simp only [Option.map_some]
      rw [indexOfFrom_append]
      cases hb : indexOf LINE_BREAK (tail.drop a) with
      | none =>
        simp only [Option.map_none]
        have hend : indexOfFrom (past ++ tail) EDITABLE_END_MARKER (past ++ tail).length = none := by
          rw [indexOfFrom, List.drop_length, Option.map_eq_none_iff, indexOf_eq_none_iff]
          exact end_free_nil
        rw [hend]
      | some b =>
        simp only [Option.map_some]
        rw [show past.length + a + b + 1 = past.length + (a + (b + 1)) by omega, indexOfFrom_append]
        have hfree := h (a + (b + 1)) (opening_eq_some_iff.mpr ⟨a, b, ha, hb, rfl⟩)
        rw [indexOf_eq_none_iff.mpr hfree]
        rfl

theorem parse_render_from (h : Closed tail) (hfuel : (render tail rs).length ≤ fuel) :
    parseEditableRangesFrom (past ++ render tail rs) fuel past.length = rangesOf past.length rs := by
  induction rs generalizing past fuel with
  | nil => exact parse_closed h
  | cons r rs ih =>
    have hend := length_end
    cases fuel with
    | zero =>
      simp only [render, List.length_append] at hfuel
      omega
    | succ fuel =>
      rw [render, parse_region, rangesOf]
      congr 1
      have hpast : past ++ (r.lead ++ (r.text ++ (EDITABLE_END_MARKER ++ render tail rs))) =
          (past ++ (r.lead ++ (r.text ++ EDITABLE_END_MARKER))) ++ render tail rs := by
        simp
      have hlength : past.length + r.lead.length + r.text.length + EDITABLE_END_MARKER.length =
          (past ++ (r.lead ++ (r.text ++ EDITABLE_END_MARKER))).length := by
        simp only [List.length_append]
        omega
      rw [hpast, hlength]
      apply ih
      simp only [render, List.length_append] at hfuel
      omega

theorem parse_render (h : Closed tail) : parseEditableRanges (render tail rs) = rangesOf 0 rs := by
  exact @parse_render_from [] _ _ _ h (Nat.le_refl (render tail rs).length)

theorem exists_render (l : Units) : ∃ tail rs, Closed tail ∧ l = render tail rs := by
  induction hlen : l.length using Nat.strongRecOn generalizing l with
  | ind k ih =>
    by_cases hclosed : Closed l
    · exact ⟨l, [], hclosed, rfl⟩
    · simp only [Closed, not_forall, not_not] at hclosed
      obtain ⟨n, hopen, hinside⟩ := hclosed
      obtain ⟨e, he⟩ := Option.ne_none_iff_exists'.mp fun hnone => indexOf_eq_none_iff.mp hnone hinside
      obtain ⟨hsplit, hle⟩ := indexOf_split he
      obtain ⟨htake, hn⟩ := opening_take hopen
      have hend := length_end
      rw [List.length_drop] at hle
      obtain ⟨tail, rs, htail, hrest⟩ := ih ((l.drop n).drop (e + EDITABLE_END_MARKER.length)).length
        (by simp only [List.length_drop]; omega) _ rfl
      refine ⟨tail, ⟨l.take n, (l.drop n).take e, by simpa [Nat.min_eq_left hn] using htake, ?_⟩ :: rs,
        htail, ?_⟩
      · -- the text stops before the first end marker
        intro hinside
        have hearly := indexOf_eq_some_iff.mp he
        obtain ⟨front, back, htext⟩ := hinside
        have hfront : front.length < e := by
          have := congrArg List.length htext
          simp only [List.length_append, List.length_take, List.length_drop] at this
          omega
        apply hearly.2 front.length hfront
        have : l.drop n = front ++ (EDITABLE_END_MARKER ++ (back ++ (l.drop n).drop e)) := by
          conv_lhs => rw [← List.take_append_drop e (l.drop n), ← htext]
          simp
        rw [this, List.drop_left]
        exact List.prefix_append _ _
      · rw [render, ← hrest, ← hsplit, List.take_append_drop]

theorem opening_region (r : Region) (rest : Units) : opening (r.lead ++ rest) = some r.lead.length :=
  opening_append r.opens

theorem not_closed_region (tail : Units) (r : Region) (rs : List Region) :
    ¬ Closed (render tail (r :: rs)) := by
  intro h
  rw [render] at h
  apply h _ (opening_region r _)
  rw [List.drop_left]
  exact (List.prefix_append _ _).isInfix.trans (List.suffix_append _ _).isInfix

/-- A content has one layout. -/
theorem render_injective (h : Closed tail) (h' : Closed tail') (heq : render tail rs = render tail' rs') :
    tail = tail' ∧ rs = rs' := by
  induction rs generalizing rs' with
  | nil =>
    cases rs' with
    | nil => exact ⟨heq, rfl⟩
    | cons r' rs' =>
      obtain rfl : tail = _ := heq
      exact absurd h (not_closed_region tail' r' rs')
  | cons r rs ih =>
    cases rs' with
    | nil =>
      obtain rfl : _ = tail' := heq
      exact absurd h' (not_closed_region tail r rs)
    | cons r' rs' =>
      rw [render, render] at heq
      have hopen := opening_region r (r.text ++ (EDITABLE_END_MARKER ++ render tail rs))
      rw [heq, opening_region, Option.some.injEq] at hopen
      obtain ⟨hlead, hbehind⟩ := List.append_inj heq hopen.symm
      have hend := @indexOf_append _ _ _ _ (render tail rs) unbordered_end r.free
      rw [hbehind, indexOf_append unbordered_end r'.free, Option.some.injEq] at hend
      obtain ⟨htext, hbehind⟩ := List.append_inj hbehind hend.symm
      obtain ⟨htail, hrs⟩ := ih (List.append_cancel_left hbehind)
      exact ⟨htail, by rw [Region.ext hlead htext, hrs]⟩

theorem slice_append (past x y : Units) :
    slice (past ++ (x ++ y)) past.length (past.length + x.length) = x := by
  rw [slice, ← List.append_assoc, ← List.length_append, List.take_left, List.drop_left]

theorem length_rangesOf (i : Nat) (rs : List Region) : (rangesOf i rs).length = rs.length := by
  induction rs generalizing i with
  | nil => rfl
  | cons r rs ih => rw [rangesOf, List.length_cons, List.length_cons, ih]

theorem refill_render_from (htexts : texts.length = rs.length) :
    refill (past ++ (mid ++ render tail rs)) past.length (rangesOf (past.length + mid.length) rs) texts =
      mid ++ renderWith tail rs texts := by
  induction rs generalizing past mid texts with
  | nil => simp [rangesOf, refill, render, renderWith]
  | cons r rs ih =>
    obtain ⟨text, texts, rfl⟩ : ∃ text more, texts = text :: more :=
      List.exists_cons_of_length_eq_add_one htexts
    rw [rangesOf, refill, renderWith, render]
    have hfront : slice (past ++ (mid ++ (r.lead ++ (r.text ++ (EDITABLE_END_MARKER ++ render tail rs)))))
        past.length (past.length + mid.length + r.lead.length) = mid ++ r.lead := by
      have := slice_append past (mid ++ r.lead) (r.text ++ (EDITABLE_END_MARKER ++ render tail rs))
      rwa [List.length_append, List.append_assoc, ← Nat.add_assoc] at this
    have hpast : past ++ (mid ++ (r.lead ++ (r.text ++ (EDITABLE_END_MARKER ++ render tail rs)))) =
        (past ++ (mid ++ (r.lead ++ r.text))) ++ (EDITABLE_END_MARKER ++ render tail rs) := by
      simp
    have hlength : past.length + mid.length + r.lead.length + r.text.length =
        (past ++ (mid ++ (r.lead ++ r.text))).length := by
      simp only [List.length_append]
      omega
    rw [hfront, hlength, hpast, ih (by simpa using htexts)]
    simp

theorem refill_render (htexts : texts.length = rs.length) :
    refill (render tail rs) 0 (rangesOf 0 rs) texts = renderWith tail rs texts :=
  @refill_render_from [] [] _ _ _ htexts

theorem projectFrom_eq_refill (content : Units) (cursor : Nat) (ranges : List EditableRange) :
    projectFrom content cursor ranges = refill content cursor ranges (ranges.map fun _ => []) := by
  induction ranges generalizing cursor with
  | nil => rfl
  | cons range ranges ih => rw [projectFrom, ih, List.map_cons, refill, List.nil_append]

theorem renderWith_texts (h : rs'.map Region.lead = rs.map Region.lead) :
    renderWith tail rs (rs'.map Region.text) = render tail rs' := by
  induction rs generalizing rs' with
  | nil =>
    obtain rfl : rs' = [] := by simpa using h
    rfl
  | cons r rs ih =>
    cases rs' with
    | nil => simp at h
    | cons r' rs' =>
      obtain ⟨hlead, hleads⟩ : r'.lead = r.lead ∧ rs'.map Region.lead = rs.map Region.lead := by simpa using h
      rw [List.map_cons, renderWith, render, ih hleads, hlead]

theorem exists_withTexts (htexts : texts.length = rs.length)
    (hfree : ∀ text ∈ texts, ¬ EDITABLE_END_MARKER <:+: text) :
    ∃ rs' : List Region, rs'.map Region.lead = rs.map Region.lead ∧ rs'.map Region.text = texts := by
  induction rs generalizing texts with
  | nil =>
    obtain rfl : texts = [] := List.eq_nil_of_length_eq_zero htexts
    exact ⟨[], rfl, rfl⟩
  | cons r rs ih =>
    obtain ⟨text, texts, rfl⟩ : ∃ text more, texts = text :: more :=
      List.exists_cons_of_length_eq_add_one htexts
    obtain ⟨rs', hleads, htexts'⟩ := ih (by simpa using htexts) fun t ht => hfree t (List.mem_cons_of_mem _ ht)
    refine ⟨⟨r.lead, text, r.opens, hfree text (List.mem_cons_self ..)⟩ :: rs', ?_, ?_⟩
    · simp [hleads]
    · simp [htexts']

theorem map_cleared_eq_iff :
    rs.map Region.cleared = rs'.map Region.cleared ↔ rs.map Region.lead = rs'.map Region.lead := by
  constructor
  · intro h
    have := congrArg (List.map Region.lead) h
    simpa [List.map_map, Function.comp_def, Region.cleared] using this
  · intro h
    induction rs generalizing rs' with
    | nil =>
      obtain rfl : rs' = [] := by simpa using h.symm
      rfl
    | cons r rs ih =>
      cases rs' with
      | nil => simp at h
      | cons r' rs' =>
        obtain ⟨hlead, hleads⟩ : r.lead = r'.lead ∧ rs.map Region.lead = rs'.map Region.lead := by
          simpa using h
        rw [List.map_cons, List.map_cons, ih hleads, (Region.ext hlead rfl : r.cleared = r'.cleared)]

theorem project_render (h : Closed tail) :
    projectNonEditableContent (render tail rs) (parseEditableRanges (render tail rs)) =
      render tail (rs.map Region.cleared) := by
  rw [parse_render h, projectNonEditableContent]
  have hcleared : (rs.map Region.cleared).map Region.lead = rs.map Region.lead := by
    simp [List.map_map, Function.comp_def, Region.cleared]
  have htexts : (rangesOf 0 rs).map (fun _ => ([] : Units)) = (rs.map Region.cleared).map Region.text := by
    apply List.ext_getElem
    · simp [length_rangesOf]
    · simp [Region.cleared]
  split_ifs with hnil
  · obtain rfl : rs = [] := by
      have := congrArg List.length hnil
      rw [length_rangesOf] at this
      exact List.eq_nil_of_length_eq_zero this
    rfl
  · rw [projectFrom_eq_refill, refill_render (by simp [length_rangesOf]), htexts,
      renderWith_texts hcleared]

end T560.Files
