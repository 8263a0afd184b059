import Mathlib.Data.List.Nodup
import Mathlib.Data.List.Perm.Subperm
import T560.Js.Ascii
import T560.Transcript.ToolCallId

/-!
# A new id is free

The candidates for a new id are the clipped id, the id with its hash, and numbered variants of
that. The variants differ even where the number cuts the candidate short, so that one of them
is free while fewer ids are in use than there are variants.
-/

namespace T560.Transcript

variable {env : IdEnv} {id : String} {used : List String}

/-- What a strict provider takes. -/
structure IsStrictId (id : String) : Prop where
  nonempty : id ≠ ""
  alphanumeric : ∀ c ∈ id.toList, isAlphanumeric c = true
  short : id.toList.length ≤ MAX_LEN

@[simp]
theorem toList_clip (n : Nat) (text : String) : (clip n text).toList = text.toList.take n := by
  simp [clip]

theorem ne_empty_of_length {s : String} (h : 0 < s.toList.length) : s ≠ "" := by
  rintro rfl
  simp at h

theorem length_pos_of_ne_empty {s : String} (h : s ≠ "") : 0 < s.toList.length := by
  rw [List.length_pos_iff]
  intro hnil
  exact h (String.toList_injective hnil)

theorem isAlphanumeric_of_hex {c : Char} (h : isHexDigit c = true) : isAlphanumeric c = true := by
  simp only [isHexDigit, isAlphanumeric, Bool.or_eq_true, Bool.and_eq_true, decide_eq_true_eq] at h ⊢
  omega

theorem isAlphanumeric_of_digit {c : Char} (h : Js.isDigit c = true) :
    isAlphanumeric c = true := by
  simp only [Js.isDigit, Bool.and_eq_true, decide_eq_true_eq] at h
  simp [isAlphanumeric, h]

theorem length_shortHash (env : IdEnv) (text : String) :
    (env.shortHash text 8).toList.length = 8 := by
  simp [IdEnv.shortHash, env.sha1_length]

theorem alphanumeric_shortHash {text : String} {n : Nat} {c : Char}
    (h : c ∈ (env.shortHash text n).toList) : isAlphanumeric c = true := by
  rw [IdEnv.shortHash, toList_clip] at h
  exact isAlphanumeric_of_hex (env.sha1_hex text c (List.mem_of_mem_take h))

section Base

theorem sanitizeToolCallId_strict (env : IdEnv) (id : String) :
    sanitizeToolCallId env id .strict =
      if id = "" then "defaulttoolid"
      else if (alphanumericOnly id).length > 0 then alphanumericOnly id else "sanitizedtoolid" :=
  rfl

theorem strict_sanitizeToolCallId (env : IdEnv) (id : String) :
    0 < (sanitizeToolCallId env id .strict).toList.length ∧
      ∀ c ∈ (sanitizeToolCallId env id .strict).toList, isAlphanumeric c = true := by
  rw [sanitizeToolCallId_strict]
  split_ifs with h1 h2
  · decide
  · refine ⟨by rwa [String.length_toList], fun c hc => ?_⟩
    rw [alphanumericOnly, String.toList_ofList] at hc
    exact (List.mem_filter.mp hc).2
  · decide

/-- An id that a strict provider takes is its own base. -/
theorem clip_sanitizeToolCallId_of_strict (h : IsStrictId id) :
    clip MAX_LEN (sanitizeToolCallId env id .strict) = id := by
  have honly : alphanumericOnly id = id := by
    apply String.toList_injective
    rw [alphanumericOnly, String.toList_ofList, List.filter_eq_self.mpr h.alphanumeric]
  have hsan : sanitizeToolCallId env id .strict = id := by
    have hpos : id.length > 0 := by
      rw [← String.length_toList]
      exact length_pos_of_ne_empty h.nonempty
    rw [sanitizeToolCallId_strict, if_neg h.nonempty, honly, if_pos hpos]
  apply String.toList_injective
  rw [hsan, toList_clip, List.take_of_length_le h.short]

theorem isStrictId_clip {s : String} (hpos : 0 < s.toList.length)
    (hs : ∀ c ∈ s.toList, isAlphanumeric c = true) : IsStrictId (clip MAX_LEN s) := by
  refine ⟨ne_empty_of_length ?_, fun c hc => ?_, ?_⟩
  · rw [toList_clip, List.length_take]
    exact Nat.lt_min.mpr ⟨by decide, hpos⟩
  · rw [toList_clip] at hc
    exact hs c (List.mem_of_mem_take hc)
  · rw [toList_clip, List.length_take]
    exact Nat.min_le_left _ _

end Base

section Suffix
variable {candidate : String}

theorem toList_suffixed (candidate : String) (i : Nat) :
    (suffixed candidate i).toList =
      candidate.toList.take (MAX_LEN - ("x" ++ toString i).length) ++
        'x' :: (toString i).toList := by
  simp [suffixed]

theorem not_x_mem_toString (n : Nat) : 'x' ∉ (toString n).toList := by
  intro h
  have := Js.isDigit_of_mem_toString h
  revert this
  decide

theorem append_cons_left_inj {α : Type} {a : α} {xs ys us vs : List α} (hx : a ∉ xs)
    (hy : a ∉ ys) (h : xs ++ a :: us = ys ++ a :: vs) : xs = ys := by
  induction xs generalizing ys with
  | nil =>
    cases ys with
    | nil => rfl
    | cons y ys =>
      obtain ⟨rfl, -⟩ := List.cons.inj h
      exact (hy List.mem_cons_self).elim
  | cons x xs ih =>
    cases ys with
    | nil =>
      obtain ⟨rfl, -⟩ := List.cons.inj h
      exact (hx List.mem_cons_self).elim
    | cons y ys =>
      obtain ⟨rfl, htail⟩ := List.cons.inj h
      rw [ih (fun hin => hx (List.mem_cons_of_mem x hin))
        (fun hin => hy (List.mem_cons_of_mem x hin)) htail]

/-- The number of a variant stands behind its last `x`. -/
theorem suffixed_injective {i j : Nat} (h : suffixed candidate i = suffixed candidate j) :
    i = j := by
  have hlist := congrArg String.toList h
  rw [toList_suffixed, toList_suffixed] at hlist
  have hrev := congrArg List.reverse hlist
  simp only [List.reverse_append, List.reverse_cons, List.append_assoc, List.cons_append,
    List.nil_append] at hrev
  have hx : ∀ n : Nat, 'x' ∉ (toString n).toList.reverse := by
    intro n
    rw [List.mem_reverse]
    exact not_x_mem_toString n
  have hdigits := append_cons_left_inj (hx i) (hx j) hrev
  exact Js.toString_nat_injective (String.toList_injective (List.reverse_injective hdigits))

theorem isStrictId_suffixed (hc : ∀ c ∈ candidate.toList, isAlphanumeric c = true) {i : Nat}
    (hi : i < 1000) : IsStrictId (suffixed candidate i) := by
  have hlen : (toString i).toList.length ≤ 3 := by
    rw [String.length_toList, Nat.toString_eq_repr, Nat.length_repr_le_iff (by decide)]
    exact hi
  have hsuffix : ("x" ++ toString i).length = (toString i).toList.length + 1 := by
    rw [← String.length_toList, String.toList_append, List.length_append, Nat.add_comm]
    rfl
  refine ⟨ne_empty_of_length ?_, fun c hmem => ?_, ?_⟩
  · rw [toList_suffixed]
    simp
  · rw [toList_suffixed] at hmem
    rcases List.mem_append.mp hmem with hmem | hmem
    · exact hc c (List.mem_of_mem_take hmem)
    · rcases List.mem_cons.mp hmem with rfl | hmem
      · decide
      · exact isAlphanumeric_of_digit (Js.isDigit_of_mem_toString hmem)
  · rw [toList_suffixed, List.length_append, List.length_cons, List.length_take, hsuffix]
    simp only [MAX_LEN]
    omega

end Suffix

/-- Among more different candidates than ids in use, one is free. -/
theorem find?_free {candidates : List String} (hnd : candidates.Nodup)
    (hmany : used.length < candidates.length) :
    ∃ next ∈ candidates, next ∉ used ∧ candidates.find? (· ∉ used) = some next := by
  cases hfind : candidates.find? (· ∉ used) with
  | some next =>
    exact ⟨next, List.mem_of_find?_eq_some hfind, by simpa using List.find?_some hfind, rfl⟩
  | none =>
    have hall : candidates ⊆ used := by
      intro c hc
      simpa using List.find?_eq_none.mp hfind c hc
    have := (List.subperm_of_subset hnd hall).length_le
    omega

/-- The clipped base and the hash behind it. -/
def hashedCandidate (env : IdEnv) (id base : String) : String :=
  let maxBaseLen := MAX_LEN - (env.shortHash id 8).length
  (if base.length > maxBaseLen then clip maxBaseLen base else base) ++ env.shortHash id 8

theorem isStrictId_hashedCandidate {base : String} (env : IdEnv) (id : String)
    (hbase : ∀ c ∈ base.toList, isAlphanumeric c = true) :
    IsStrictId (hashedCandidate env id base) := by
  have hhash : (env.shortHash id 8).toList.length = 8 := length_shortHash env id
  have hlen : (env.shortHash id 8).length = 8 := by rw [← String.length_toList, hhash]
  unfold hashedCandidate
  rw [hlen]
  refine ⟨ne_empty_of_length ?_, fun c hc => ?_, ?_⟩
  · rw [String.toList_append, List.length_append, hhash]
    omega
  · rw [String.toList_append] at hc
    rcases List.mem_append.mp hc with hc | hc
    · split_ifs at hc
      · rw [toList_clip] at hc
        exact hbase c (List.mem_of_mem_take hc)
      · exact hbase c hc
    · exact alphanumeric_shortHash hc
  · rw [String.toList_append, List.length_append, hhash]
    split_ifs with h
    · rw [toList_clip, List.length_take]
      have := Nat.min_le_left (MAX_LEN - 8) base.toList.length
      simp only [MAX_LEN] at this ⊢
      omega
    · rw [← String.length_toList] at h
      simp only [MAX_LEN] at h ⊢
      omega

/-- The new id is free and one that a strict provider takes. -/
theorem makeUniqueToolCallId_strict (env : IdEnv) (id : String) (hfew : used.length < 998) :
    makeUniqueToolCallId env id used .strict ∉ used ∧
      IsStrictId (makeUniqueToolCallId env id used .strict) := by
  obtain ⟨hpos, halnum⟩ := strict_sanitizeToolCallId env id
  have hbase := isStrictId_clip hpos halnum
  simp only [makeUniqueToolCallId]
  generalize clip MAX_LEN (sanitizeToolCallId env id .strict) = base at hbase ⊢
  have hhashed := isStrictId_hashedCandidate env id hbase.alphanumeric
  rw [hashedCandidate] at hhashed
  generalize (if base.length > MAX_LEN - (env.shortHash id 8).length then
      clip (MAX_LEN - (env.shortHash id 8).length) base else base) ++ env.shortHash id 8 =
    candidate at hhashed ⊢
  have hnd : ((List.range' 2 998).map (suffixed candidate)).Nodup :=
    (List.nodup_range').map fun _ _ h => suffixed_injective h
  obtain ⟨next, hmem, hfree, hfind⟩ := find?_free hnd (by simpa using hfew)
  by_cases h1 : base ∉ used
  · rw [if_pos h1]
    exact ⟨h1, hbase⟩
  · rw [if_neg h1]
    by_cases h2 : candidate ∉ used
    · rw [if_pos h2]
      exact ⟨h2, hhashed⟩
    · rw [if_neg h2, hfind]
      obtain ⟨i, hi, rfl⟩ := List.mem_map.mp hmem
      have hlt := (List.mem_range'_1.mp hi).2
      exact ⟨hfree, isStrictId_suffixed hhashed.alphanumeric hlt⟩

/-- A free id that a strict provider takes is kept. -/
theorem makeUniqueToolCallId_of_strict (env : IdEnv) (h : IsStrictId id) (hfree : id ∉ used) :
    makeUniqueToolCallId env id used .strict = id := by
  simp only [makeUniqueToolCallId]
  rw [clip_sanitizeToolCallId_of_strict h, if_pos hfree]

end T560.Transcript
