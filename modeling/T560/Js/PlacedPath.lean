import T560.Js.AbsolutePath

/-!
# Where a path leads

From an absolute working directory every path leads to a list of components. Normalizing a path
does not change where it leads, and a text without `..` behind a path leads below it.
-/

namespace T560.Js.Path

variable {parts rest st : List (List Char)} {part : List Char} {above : Bool} {cwd path : String}

/-- The components that the path leads to. -/
def leads (cwd path : String) : List (List Char) :=
  (path.toList.splitOn '/').foldl (normalizeStep false)
    (if isAbsolute path then [] else normalizeParts false cwd.toList)

theorem canonical_leads (cwd path : String) : Canonical (leads cwd path) := by
  have hnil : Canonical [] := fun p hp => by cases hp
  unfold leads
  apply canonical_foldl fun p hp => no_slash_of_mem_splitOn hp
  split
  · exact hnil
  · exact canonical_foldl (fun p hp => no_slash_of_mem_splitOn hp) hnil

theorem resolve_of_loop {text : List Char}
    (h : resolveLoop ([path].reverse ++ [cwd]) [] = (text ++ '/' :: [], true)) :
    resolve cwd [path] = absolute (normalizeParts false text) := by
  have hback : normalizeParts false (text ++ '/' :: []) = normalizeParts false text := by
    rw [normalizeParts, foldl_splitOn_slash, foldl_splitOn_nil, normalizeParts]
  unfold resolve
  rw [h]
  change absolute (normalizeParts false (text ++ '/' :: [])) = _
  rw [hback]

/-- `resolve` gives the absolute path with these components. -/
theorem resolve_eq_absolute (hcwd : isAbsolute cwd = true) :
    resolve cwd [path] = absolute (leads cwd path) := by
  have hcwd' : cwd ≠ "" := by
    rintro rfl
    cases hcwd
  by_cases hempty : path = ""
  · subst hempty
    apply resolve_of_loop
    change resolveLoop ["", cwd] [] = _
    rw [resolveLoop, if_pos rfl, resolveLoop, if_neg hcwd', if_pos hcwd]
  · by_cases habs : isAbsolute path = true
    · rw [leads, if_pos habs]
      apply resolve_of_loop
      change resolveLoop [path, cwd] [] = _
      rw [resolveLoop, if_neg hempty, if_pos habs]
    · have hleads : leads cwd path = normalizeParts false (cwd.toList ++ '/' :: path.toList) := by
        rw [leads, if_neg habs, normalizeParts, normalizeParts, foldl_splitOn_slash]
      rw [hleads]
      apply resolve_of_loop
      change resolveLoop [path, cwd] [] = _
      rw [resolveLoop, if_neg hempty, if_neg habs, resolveLoop, if_neg hcwd', if_pos hcwd,
        List.append_assoc]
      rfl

theorem foldl_joinParts (h : ∀ p ∈ parts, '/' ∉ p) (res : List (List Char)) :
    ((joinParts parts).splitOn '/').foldl (normalizeStep above) res =
      parts.foldl (normalizeStep above) res := by
  by_cases hnil : parts = []
  · subst hnil
    rfl
  · rw [joinParts, List.splitOn_intercalate '/' h hnil]

theorem mem_normalizeStep {q : List Char} (h : q ∈ normalizeStep above st part) :
    q ∈ st ∨ q = part ∧ part ≠ [] ∧ part ≠ ['.'] := by
  unfold normalizeStep at h
  split at h
  · exact .inl h
  · rename_i hplain
    rw [not_or] at hplain
    have happ : q ∈ st ++ [part] → q ∈ st ∨ q = part ∧ part ≠ [] ∧ part ≠ ['.'] := by
      intro hq
      rcases List.mem_append.mp hq with hq | hq
      · exact .inl hq
      · exact .inr ⟨List.mem_singleton.mp hq, hplain⟩
    split at h
    · split at h
      · exact .inl (List.mem_of_mem_dropLast h)
      · split at h
        · exact happ h
        · exact .inl h
    · exact happ h

/-- What normalizing keeps are components of the path, and not the empty ones and the dots. -/
theorem mem_foldl_normalizeStep {q : List Char} (h : q ∈ parts.foldl (normalizeStep above) st) :
    q ∈ st ∨ q ∈ parts ∧ q ≠ [] ∧ q ≠ ['.'] := by
  induction parts generalizing st with
  | nil => exact .inl h
  | cons part parts ih =>
    rcases ih h with hst | ⟨hin, hq⟩
    · rcases mem_normalizeStep hst with hst | ⟨rfl, hq⟩
      · exact .inl hst
      · exact .inr ⟨List.mem_cons_self, hq⟩
    · exact .inr ⟨List.mem_cons_of_mem _ hin, hq⟩

/-- One component more on the left is one component more on the right. -/
theorem normalizeStep_true (hst : ∀ q ∈ st, q ≠ [] ∧ q ≠ ['.']) (part : List Char)
    (res : List (List Char)) :
    (normalizeStep true st part).foldl (normalizeStep false) res =
      normalizeStep false (st.foldl (normalizeStep false) res) part := by
  have happ : (st ++ [part]).foldl (normalizeStep false) res =
      normalizeStep false (st.foldl (normalizeStep false) res) part := by
    rw [List.foldl_append]
    rfl
  by_cases hplain : part = [] ∨ part = ['.']
  · rw [normalizeStep, if_pos hplain, normalizeStep, if_pos hplain]
  by_cases hdots : part = ['.', '.']
  · by_cases hback : st ≠ [] ∧ st.getLast? ≠ some ['.', '.']
    · -- The component that is taken back was put there on the right side too.
      rw [normalizeStep, if_neg hplain, if_pos hdots, if_pos hback]
      obtain ⟨hne, hlast⟩ := hback
      rcases List.eq_nil_or_concat st with rfl | ⟨front, last, rfl⟩
      · exact absurd rfl hne
      rw [List.concat_eq_append] at hst hlast ⊢
      obtain ⟨hlastne, hlastdot⟩ := hst last (by simp)
      have hlast' : last ≠ ['.', '.'] := by simpa using hlast
      have hstep : (front ++ [last]).foldl (normalizeStep false) res =
          front.foldl (normalizeStep false) res ++ [last] := by
        rw [List.foldl_append, List.foldl_cons, List.foldl_nil, normalizeStep,
          if_neg (not_or.mpr ⟨hlastne, hlastdot⟩), if_neg hlast']
      rw [hstep, normalizeStep, if_neg hplain, if_pos hdots, List.dropLast_concat,
        List.dropLast_concat, if_pos (by simpa using hlast')]
    · rw [normalizeStep, if_neg hplain, if_pos hdots, if_neg hback, if_pos rfl]
      exact happ
  · rw [normalizeStep, if_neg hplain, if_neg hdots]
    exact happ

/-- Normalizing a relative path first changes nothing. -/
theorem foldl_normalizeStep_true (parts : List (List Char)) (hst : ∀ q ∈ st, q ≠ [] ∧ q ≠ ['.'])
    (res : List (List Char)) :
    (parts.foldl (normalizeStep true) st).foldl (normalizeStep false) res =
      parts.foldl (normalizeStep false) (st.foldl (normalizeStep false) res) := by
  induction parts generalizing st with
  | nil => rfl
  | cons part parts ih =>
    have hnext : ∀ q ∈ normalizeStep true st part, q ≠ [] ∧ q ≠ ['.'] := by
      intro q hq
      rcases mem_normalizeStep hq with hq | ⟨rfl, hq⟩
      · exact hst q hq
      · exact hq
    rw [List.foldl_cons, ih hnext, normalizeStep_true hst, List.foldl_cons]

theorem isAbsolute_ofList (text : List Char) :
    isAbsolute (String.ofList text) = decide (text.head? = some '/') := by
  rw [isAbsolute, String.toList_ofList]

/-- What normalizing leaves of a path: the components, and a slash behind them if there was one. -/
theorem normalize_cases (path : String) :
    path = "" ∧ normalize path = "." ∨
      ∃ trail, (trail = [] ∨ trail = ['/']) ∧
        (isAbsolute path = true ∧
            normalize path = String.ofList ('/' :: normalizeString path.toList false ++ trail) ∨
          isAbsolute path = false ∧
            (normalizeString path.toList true = [] ∧
                normalize path = String.ofList ('.' :: trail) ∨
              normalizeString path.toList true ≠ [] ∧
                normalize path = String.ofList (normalizeString path.toList true ++ trail))) := by
  by_cases hempty : path = ""
  · exact .inl ⟨hempty, by rw [normalize, if_pos hempty]⟩
  right
  unfold normalize
  rw [if_neg hempty]
  cases habs : isAbsolute path with
  | true =>
    by_cases hnil : normalizeString path.toList false = []
    · refine ⟨[], .inl rfl, .inl ⟨rfl, ?_⟩⟩
      rw [Bool.not_true, hnil]
      rfl
    · refine ⟨if path.toList.getLast? = some '/' then ['/'] else [], ?_, .inl ⟨rfl, ?_⟩⟩
      · split <;> simp
      · simp [hnil]
  | false =>
    refine ⟨if path.toList.getLast? = some '/' then ['/'] else [], ?_, .inr ⟨rfl, ?_⟩⟩
    · split <;> simp
    · by_cases hnil : normalizeString path.toList true = []
      · refine .inl ⟨hnil, ?_⟩
        by_cases hslash : path.toList.getLast? = some '/'
        · simp only [Bool.not_false, hnil, hslash]
          rfl
        · simp only [Bool.not_false, hnil, hslash]
          rfl
      · refine .inr ⟨hnil, ?_⟩
        simp [hnil]

theorem foldl_trail {trail : List Char} (h : trail = [] ∨ trail = ['/']) (text : List Char)
    (res : List (List Char)) :
    ((text ++ trail).splitOn '/').foldl (normalizeStep above) res =
      (text.splitOn '/').foldl (normalizeStep above) res := by
  rcases h with rfl | rfl
  · rw [List.append_nil]
  · rw [foldl_splitOn_slash, foldl_splitOn_nil]

theorem pieces_normalizeParts (text : List Char) :
    ∀ q ∈ normalizeParts above text, q ≠ [] ∧ q ≠ ['.'] ∧ '/' ∉ q := by
  intro q hq
  rcases mem_foldl_normalizeStep hq with hnil | ⟨hin, hne, hdot⟩
  · cases hnil
  · exact ⟨hne, hdot, no_slash_of_mem_splitOn hin⟩

theorem foldl_normalizeString (text : List Char) (res : List (List Char)) :
    ((normalizeString text above).splitOn '/').foldl (normalizeStep false) res =
      (normalizeParts above text).foldl (normalizeStep false) res :=
  foldl_joinParts (fun p hp => (pieces_normalizeParts text p hp).2.2) res

theorem head?_normalizeString (text : List Char) :
    (normalizeString text above).head? ≠ some '/' := by
  apply head?_joinParts
  intro p hp
  obtain ⟨hne, -, hslash⟩ := pieces_normalizeParts text p hp
  exact ⟨hne, hslash⟩

theorem foldl_normalizeParts_true (text : List Char) (res : List (List Char)) :
    (normalizeParts true text).foldl (normalizeStep false) res =
      (text.splitOn '/').foldl (normalizeStep false) res :=
  foldl_normalizeStep_true _ (fun q hq => by cases hq) res

theorem isAbsolute_normalize (path : String) : isAbsolute (normalize path) = isAbsolute path := by
  rcases normalize_cases path with ⟨rfl, h⟩ | ⟨trail, htrail, h⟩
  · rw [h]
    rfl
  rcases h with ⟨habs, h⟩ | ⟨habs, ⟨-, h⟩ | ⟨hne, h⟩⟩
  · rw [h, isAbsolute_ofList, habs]
    rfl
  · rw [h, isAbsolute_ofList, habs]
    rfl
  · rw [h, isAbsolute_ofList, habs, List.head?_append_of_ne_nil _ hne]
    exact decide_eq_false (head?_normalizeString path.toList)

/-- Normalizing a path does not change where it leads. -/
theorem leads_normalize (cwd path : String) : leads cwd (normalize path) = leads cwd path := by
  rcases normalize_cases path with ⟨rfl, h⟩ | ⟨trail, htrail, h⟩
  · rw [h]
    rfl
  rw [leads, isAbsolute_normalize, leads]
  rcases h with ⟨habs, h⟩ | ⟨habs, h⟩
  · rw [h, if_pos habs, String.toList_ofList, foldl_trail htrail]
    have hslash := @foldl_splitOn_slash false [] (normalizeString path.toList false) []
    rw [List.nil_append, foldl_splitOn_nil, foldl_normalizeString] at hslash
    rw [hslash, normalizeParts]
    have hcanonical : Canonical ((path.toList.splitOn '/').foldl (normalizeStep false) []) :=
      canonical_foldl (fun p hp => no_slash_of_mem_splitOn hp) fun p hp => by cases hp
    rw [foldl_canonical hcanonical, List.nil_append]
  · rw [if_neg (by rw [habs]; exact Bool.false_ne_true)]
    generalize normalizeParts false cwd.toList = res
    have hsame := foldl_normalizeParts_true path.toList res
    rw [← foldl_normalizeString] at hsame
    rcases h with ⟨hnil, h⟩ | ⟨-, h⟩
    · rw [hnil, foldl_splitOn_nil] at hsame
      rw [h, ← hsame, String.toList_ofList]
      exact foldl_trail htrail ['.'] res
    · rw [h, String.toList_ofList, foldl_trail htrail, hsame]

theorem join_given {paths : List String} {given : List (List Char)}
    (h : (paths.map String.toList).filter (· ≠ []) = given) (hne : given ≠ []) :
    join paths = normalize (String.ofList (joinParts given)) := by
  rw [join, h, if_neg hne]

/-- A relative path behind a path starts where the first one leads. -/
theorem leads_join {root back : String} (hback : isAbsolute back = false) :
    leads cwd (join [root, back]) =
      (back.toList.splitOn '/').foldl (normalizeStep false) (leads cwd root) := by
  have hleads : leads cwd back =
      (back.toList.splitOn '/').foldl (normalizeStep false) (normalizeParts false cwd.toList) := by
    rw [leads, hback]
    rfl
  have hchars : ∀ s : String, s ≠ "" → s.toList ≠ [] := by
    intro s hs hnil
    exact hs (String.toList_eq_nil_iff.mp hnil)
  by_cases hroot : root = ""
  · subst hroot
    by_cases hempty : back = ""
    · subst hempty
      rfl
    · have hgiven : (["", back].map String.toList).filter (· ≠ []) = [back.toList] := by
        simp [hchars back hempty]
      have hjoin : join ["", back] = normalize back := by
        rw [join_given hgiven (List.cons_ne_nil _ _), joinParts, List.intercalate_singleton,
          String.ofList_toList]
      rw [hjoin, leads_normalize, hleads]
      rfl
  · by_cases hempty : back = ""
    · subst hempty
      have hgiven : ([root, ""].map String.toList).filter (· ≠ []) = [root.toList] := by
        simp [hchars root hroot]
      have hjoin : join [root, ""] = normalize root := by
        rw [join_given hgiven (List.cons_ne_nil _ _), joinParts, List.intercalate_singleton,
          String.ofList_toList]
      rw [hjoin, leads_normalize]
      rfl
    · have hgiven : ([root, back].map String.toList).filter (· ≠ []) =
          [root.toList, back.toList] := by
        simp [hchars root hroot, hchars back hempty]
      have htext : joinParts [root.toList, back.toList] = root.toList ++ '/' :: back.toList := by
        simp [joinParts, List.intercalate_cons_cons]
      have hjoin : join [root, back] =
          normalize (String.ofList (root.toList ++ '/' :: back.toList)) := by
        rw [join_given hgiven (List.cons_ne_nil _ _), htext]
      have habs : isAbsolute (String.ofList (root.toList ++ '/' :: back.toList)) =
          isAbsolute root := by
        rw [isAbsolute_ofList, List.head?_append_of_ne_nil _ (hchars root hroot), isAbsolute]
      rw [hjoin, leads_normalize, leads, habs, String.toList_ofList, foldl_splitOn_slash, leads]

/-- Without `..` the components are appended. -/
theorem foldl_plain (h : ∀ p ∈ parts, p ≠ ['.', '.']) (res : List (List Char)) :
    parts.foldl (normalizeStep above) res =
      res ++ parts.filter fun p => p ≠ [] ∧ p ≠ ['.'] := by
  induction parts generalizing res with
  | nil => rw [List.foldl_nil, List.filter_nil, List.append_nil]
  | cons part parts ih =>
    have hrest : ∀ p ∈ parts, p ≠ ['.', '.'] := fun p hp => h p (List.mem_cons_of_mem _ hp)
    rw [List.foldl_cons, ih hrest, normalizeStep, if_neg (h part List.mem_cons_self)]
    by_cases hplain : part = [] ∨ part = ['.']
    · rw [if_pos hplain, List.filter_cons_of_neg]
      simpa [or_iff_not_imp_left] using hplain
    · rw [if_neg hplain, List.filter_cons_of_pos, List.append_assoc]
      · rfl
      · simpa using hplain

/-- Below a directory: its components come first. -/
def Below (cwd root path : String) : Prop :=
  ∃ base rest, Canonical base ∧ Canonical rest ∧ resolve cwd [root] = absolute base ∧
    resolve cwd [path] = absolute (base ++ rest)

theorem below_of_leads (hcwd : isAbsolute cwd = true) {root : String}
    (h : leads cwd path = leads cwd root ++ rest) : Below cwd root path := by
  refine ⟨leads cwd root, rest, canonical_leads cwd root, ?_, resolve_eq_absolute hcwd, ?_⟩
  · exact (h ▸ canonical_leads cwd path).sublist (List.sublist_append_right _ _)
  · rw [resolve_eq_absolute hcwd, h]

/-- A relative path without `..` leads below. -/
theorem exists_leads_join {root back : String} (hback : isAbsolute back = false)
    (hdots : ['.', '.'] ∉ back.toList.splitOn '/') :
    ∃ rest, leads cwd (join [root, back]) = leads cwd root ++ rest := by
  have hparts : ∀ p ∈ back.toList.splitOn '/', p ≠ ['.', '.'] := by
    rintro p hp rfl
    exact hdots hp
  exact ⟨_, (leads_join hback).trans (foldl_plain hparts _)⟩

end T560.Js.Path
