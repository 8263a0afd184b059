import T560.Vault.Store

/-!
# Normalizing a service name again

A name that came out of `normalizeSetupService` goes through it once more whenever the vault is
read. It stays what it is unless it starts with `www.` or is one of the short names that stand
for another one.
-/

namespace T560.Vault

open Js (trim replaceRuns includes includes_iff)

variable {env : UrlEnv}

/-- The names that a second normalization maps to `email` or `x.com`. -/
def aliasNames : List String := ["mail", "x", "twitter", "twitter.com"]

/-- A second normalization changes or loses the name. -/
def Renamed (service : String) : Prop :=
  service ∈ aliasNames ∨ "www.".toList.isPrefixOf service.toList = true

instance (service : String) : Decidable (Renamed service) :=
  inferInstanceAs (Decidable (_ ∨ _))

/-- Normalizing the name again does not change it. -/
def FixedName (env : UrlEnv) (service : String) : Prop :=
  normalizeSetupService env service = some service

section Characters

theorem isServiceChar_toNat {c : Char} (h : isServiceChar c = true) :
    45 ≤ c.toNat ∧ c.toNat ≤ 122 ∧ ¬ (65 ≤ c.toNat ∧ c.toNat ≤ 90) := by
  simp only [isServiceChar, Bool.or_eq_true, Bool.and_eq_true, decide_eq_true_eq,
    beq_iff_eq] at h
  rcases h with (((⟨h, h'⟩ | ⟨h, h'⟩) | rfl) | rfl) | rfl
  · have h1 : 97 ≤ c.toNat := h
    have h2 : c.toNat ≤ 122 := h'
    omega
  · have h1 : 48 ≤ c.toNat := h
    have h2 : c.toNat ≤ 57 := h'
    omega
  · decide
  · decide
  · decide

theorem mem_replaceRuns {p : Char → Bool} {x : Char} {inRun : Bool} {l : List Char} {c : Char}
    (h : c ∈ replaceRuns p x inRun l) : c = x ∨ p c = false := by
  induction l generalizing inRun with
  | nil => cases h
  | cons a l ih =>
    unfold replaceRuns at h
    split at h
    · split at h
      · exact ih h
      · rcases List.mem_cons.mp h with rfl | h
        · exact .inl rfl
        · exact ih h
    · next hp =>
      rcases List.mem_cons.mp h with rfl | h
      · exact .inr (by simpa using hp)
      · exact ih h

theorem replaceRuns_of_none {p : Char → Bool} {x : Char} {inRun : Bool} {l : List Char}
    (h : ∀ c ∈ l, p c = false) : replaceRuns p x inRun l = l := by
  induction l generalizing inRun with
  | nil => rfl
  | cons a l ih =>
    have hrest : replaceRuns p x false l = l := ih fun c hc => h c (List.mem_cons_of_mem _ hc)
    simp [replaceRuns, h a List.mem_cons_self, hrest]

theorem length_replaceRuns (p : Char → Bool) (x : Char) (inRun : Bool) (l : List Char) :
    (replaceRuns p x inRun l).length ≤ l.length := by
  induction l generalizing inRun with
  | nil => simp [replaceRuns]
  | cons a l ih =>
    have htrue := ih true
    have hfalse := ih false
    unfold replaceRuns
    split_ifs <;> simp only [List.length_cons] <;> omega

theorem dropDashes_dropDashes (l : List Char) : dropDashes (dropDashes l) = dropDashes l := by
  have hhead : ∀ c, (dropDashes l).head? = some c → (c == '-') = false := by
    intro c hc
    rw [dropDashes, Js.head?_rdropWhile fun c hc =>
      Js.head?_dropWhile_false (p := fun c => c == '-') hc] at hc
    exact Js.head?_dropWhile_false (p := fun c => c == '-') hc
  have hfront : (dropDashes l).dropWhile (· == '-') = dropDashes l := Js.dropWhile_eq_self hhead
  rw [dropDashes, hfront]
  exact List.rdropWhile_idempotent _ _

theorem dropDashes_sublist (l : List Char) : (dropDashes l).Sublist l :=
  (List.rdropWhile_prefix _ _).sublist.trans (List.dropWhile_suffix _).sublist

end Characters

section Sanitized

theorem sanitizeService_chars {candidate : String} {c : Char}
    (h : c ∈ (sanitizeService candidate).toList) : isServiceChar c = true := by
  rw [sanitizeService, String.toList_ofList] at h
  rcases mem_replaceRuns ((dropDashes_sublist _).subset h) with rfl | h
  · decide
  · simpa using h

theorem sanitizeService_sanitizeService (candidate : String) :
    sanitizeService (sanitizeService candidate) = sanitizeService candidate := by
  have hkeep : replaceRuns (fun c => !isServiceChar c) '-' false (sanitizeService candidate).toList =
      (sanitizeService candidate).toList :=
    replaceRuns_of_none fun c hc => by simp [sanitizeService_chars hc]
  rw [sanitizeService, hkeep]
  conv_lhs => rw [sanitizeService, String.toList_ofList, dropDashes_dropDashes]
  rfl

theorem length_sanitizeService (candidate : String) :
    (sanitizeService candidate).length ≤ candidate.length := by
  rw [sanitizeService, String.length_ofList, ← String.length_toList]
  exact (dropDashes_sublist _).length_le.trans (length_replaceRuns _ _ _ _)

/-- What is left behind the prefix is shorter. -/
theorem length_stripWww {s : String} (h : "www.".toList.isPrefixOf s.toList = true) :
    (stripWww s).length < s.length := by
  obtain ⟨rest, hrest⟩ := List.isPrefixOf_iff_prefix.mp h
  have hstrip : stripWww s = String.ofList rest := by
    rw [stripWww, if_pos h, ← hrest, List.drop_left' (by decide)]
  have hlength : 4 + rest.length = s.length := by
    rw [← String.length_toList, ← hrest, List.length_append]
    rfl
  rw [hstrip, String.length_ofList]
  omega

theorem not_includes {s t : String} {c : Char} (hc : c ∈ t.toList) (h : c ∉ s.toList) :
    includes s t = false := by
  rw [Bool.eq_false_iff]
  exact fun hinside => h ((includes_iff.mp hinside).subset hc)

theorem fixedName_special {service : String} (h : service = "email" ∨ service = "x.com") :
    FixedName env service := by
  have hvalue : env.rt.toLowerCase (trim service) = service := by
    have hchars : service.toList.all isServiceChar = true := by
      rcases h with rfl | rfl <;> decide
    exact Js.lower_trim_of_codes env.rt fun c hc => isServiceChar_toNat
      (List.all_eq_true.mp hchars c hc)
  rcases h with rfl | rfl <;> simp [FixedName, normalizeSetupService, hvalue]

/-- Which sanitized names a second normalization leaves alone. -/
theorem fixedName_sanitized {candidate service : String}
    (hs : sanitizeService candidate = service) (hne : service ≠ "") (hlen : ¬ 80 < service.length) :
    FixedName env service ↔ ¬ Renamed service := by
  have hchars : ∀ c ∈ service.toList, isServiceChar c = true := by
    rw [← hs]
    exact fun c hc => sanitizeService_chars hc
  have hvalue : env.rt.toLowerCase (trim service) = service :=
    Js.lower_trim_of_codes env.rt fun c hc => isServiceChar_toNat (hchars c hc)
  have hurl : includes service "://" = false := by
    refine not_includes (c := ':') (by decide) fun hc => ?_
    exact absurd (hchars ':' hc) (by decide)
  have hself : sanitizeService service = service := by
    rw [← hs, sanitizeService_sanitizeService]
  unfold FixedName normalizeSetupService
  simp only [hvalue, hne, if_false, hurl, Bool.false_eq_true]
  by_cases halias : service = "email" ∨ service ∈ aliasNames ∨ service = "x.com"
  · rcases halias with rfl | halias | rfl
    · decide
    · simp only [aliasNames, List.mem_cons, List.not_mem_nil, or_false] at halias
      rcases halias with rfl | rfl | rfl | rfl <;> decide
    · decide
  · simp only [aliasNames, List.mem_cons, List.not_mem_nil, or_false, not_or] at halias
    obtain ⟨hemail, ⟨hmail, hx, htwitter, htwitterCom⟩, hxCom⟩ := halias
    have hname : service ∉ aliasNames := by simp [aliasNames, hmail, hx, htwitter, htwitterCom]
    simp only [hemail, hmail, hx, hxCom, htwitter, htwitterCom, or_self, if_false, Renamed, hname,
      false_or]
    by_cases hwww : "www.".toList.isPrefixOf service.toList = true
    · have hshorter := length_stripWww hwww
      have hle := length_sanitizeService (stripWww service)
      simp only [hwww, not_true, iff_false]
      split
      · nofun
      · intro h
        rw [Option.some.inj h] at hle
        omega
    · have hstrip : stripWww service = service := by rw [stripWww, if_neg hwww]
      refine iff_of_true ?_ hwww
      simp [hstrip, hself, hne, hlen]

/-- Which names a second normalization leaves alone. -/
theorem fixedName_iff {input service : String}
    (h : normalizeSetupService env input = some service) :
    FixedName env service ↔ ¬ Renamed service := by
  rw [normalizeSetupService] at h
  extract_lets value candidate at h
  split at h
  · cases h
  · split at h
    · obtain rfl := Option.some.inj h
      exact iff_of_true (fixedName_special (.inl rfl)) (by decide)
    · split at h
      · obtain rfl := Option.some.inj h
        exact iff_of_true (fixedName_special (.inr rfl)) (by decide)
      · split at h
        · cases h
        · next hok =>
          obtain ⟨hne, hlen⟩ := not_or.mp hok
          rw [← Option.some.inj h]
          exact fixedName_sanitized rfl hne hlen

end Sanitized

end T560.Vault
