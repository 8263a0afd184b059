import Mathlib.Data.List.Basic
import Mathlib.Data.List.Infix
import T560.Foundation.Words
import T560.Js.Path

/-!
# Absolute paths

An absolute path in its normal form is the list of its components. `resolve` gives such paths,
`join` adds a component at the end, and `relative` takes the common components off.
-/

namespace T560.Js.Path

/-- A component of a path in normal form. -/
structure Component (part : List Char) : Prop where
  ne_nil : part ≠ []
  no_slash : '/' ∉ part
  ne_dot : part ≠ ['.']
  ne_dots : part ≠ ['.', '.']

def Canonical (parts : List (List Char)) : Prop := ∀ part ∈ parts, Component part

/-- The absolute path with the components. -/
def absolute (parts : List (List Char)) : String := String.ofList ('/' :: joinParts parts)

variable {parts base rest : List (List Char)} {part : List Char} {above : Bool} {cwd : String}

theorem Canonical.append (h : Canonical parts) (h' : Canonical rest) : Canonical (parts ++ rest) := by
  intro part hpart
  rcases List.mem_append.mp hpart with hpart | hpart
  · exact h part hpart
  · exact h' part hpart

theorem Canonical.sublist (h : Canonical parts) (hsub : rest.Sublist parts) : Canonical rest :=
  fun part hpart => h part (hsub.subset hpart)

theorem Canonical.ne_nil_no_slash (h : Canonical parts) : ∀ part ∈ parts, part ≠ [] ∧ '/' ∉ part :=
  fun part hpart => ⟨(h part hpart).ne_nil, (h part hpart).no_slash⟩

theorem normalizeStep_component (h : Component part) (res : List (List Char)) :
    normalizeStep above res part = res ++ [part] := by
  unfold normalizeStep
  rw [if_neg (by rintro (hnil | hdot); exacts [h.ne_nil hnil, h.ne_dot hdot]), if_neg h.ne_dots]

theorem foldl_canonical (h : Canonical parts) (res : List (List Char)) :
    parts.foldl (normalizeStep above) res = res ++ parts := by
  induction parts generalizing res with
  | nil => rw [List.foldl_nil, List.append_nil]
  | cons part parts ih =>
    rw [List.foldl_cons, normalizeStep_component (h part (List.mem_cons_self ..)),
      ih fun p hp => h p (List.mem_cons_of_mem _ hp), List.append_assoc]
    rfl

/-- Normalizing the joined components appends them. -/
theorem foldl_splitOn_joinParts (h : Canonical parts) (res : List (List Char)) :
    ((joinParts parts).splitOn '/').foldl (normalizeStep above) res = res ++ parts := by
  by_cases hnil : parts = []
  · subst hnil
    rw [List.append_nil]
    rfl
  · rw [joinParts, List.splitOn_intercalate '/' (fun p hp => (h p hp).no_slash) hnil]
    exact foldl_canonical h res

/-- A slash ends the component in front of it. -/
theorem foldl_splitOn_slash (front back : List Char) (res : List (List Char)) :
    ((front ++ '/' :: back).splitOn '/').foldl (normalizeStep above) res =
      (back.splitOn '/').foldl (normalizeStep above)
        ((front.splitOn '/').foldl (normalizeStep above) res) := by
  rw [List.splitOn_append_cons_self, List.foldl_append]

theorem foldl_splitOn_nil (res : List (List Char)) :
    (([] : List Char).splitOn '/').foldl (normalizeStep above) res = res := rfl

/-- Below the root, normalizing keeps components only. -/
theorem canonical_foldl {split : List (List Char)} (hsplit : ∀ p ∈ split, '/' ∉ p)
    {res : List (List Char)} (hres : Canonical res) :
    Canonical (split.foldl (normalizeStep false) res) := by
  induction split generalizing res with
  | nil => exact hres
  | cons p split ih =>
    rw [List.foldl_cons]
    apply ih fun q hq => hsplit q (List.mem_cons_of_mem _ hq)
    unfold normalizeStep
    split
    · exact hres
    · next hplain =>
      split
      · split
        · exact hres.sublist (List.dropLast_sublist res)
        · exact hres
      · next hdots =>
        refine hres.append fun q hq => ?_
        obtain rfl := List.mem_singleton.mp hq
        rw [not_or] at hplain
        exact ⟨hplain.1, hsplit _ (List.mem_cons_self ..), hplain.2, hdots⟩

theorem no_slash_of_mem_splitOn {text : List Char} (h : part ∈ text.splitOn '/') :
    '/' ∉ part := by
  rw [List.splitOn_eq_splitOnP] at h
  intro hslash
  have hsep := Words.no_separator_of_mem_splitOnP h '/' hslash
  cases hsep

section Resolve

/-- With an absolute path among them, paths resolve to an absolute path. -/
theorem resolveLoop_absolute {paths : List String} (h : ∃ path ∈ paths, isAbsolute path = true)
    (resolved : List Char) : (resolveLoop paths resolved).2 = true := by
  induction paths generalizing resolved with
  | nil =>
    obtain ⟨path, hmem, -⟩ := h
    cases hmem
  | cons path paths ih =>
    unfold resolveLoop
    by_cases hempty : path = ""
    · rw [if_pos hempty]
      apply ih
      obtain ⟨other, hmem, habs⟩ := h
      rcases List.mem_cons.mp hmem with rfl | hmem
      · rw [hempty] at habs
        cases habs
      · exact ⟨other, hmem, habs⟩
    · rw [if_neg hempty]
      by_cases habs : isAbsolute path = true
      · rw [if_pos habs]
      · rw [if_neg habs]
        apply ih
        obtain ⟨other, hmem, hother⟩ := h
        rcases List.mem_cons.mp hmem with rfl | hmem
        · exact (habs hother).elim
        · exact ⟨other, hmem, hother⟩

theorem resolve_canonical (hcwd : isAbsolute cwd = true) (paths : List String) :
    ∃ parts, Canonical parts ∧ resolve cwd paths = absolute parts := by
  have habs := @resolveLoop_absolute (paths.reverse ++ [cwd]) ⟨cwd, by simp, hcwd⟩ []
  unfold resolve
  rcases hloop : resolveLoop (paths.reverse ++ [cwd]) [] with ⟨resolved, flag⟩
  rw [hloop] at habs
  obtain rfl : flag = true := habs
  refine ⟨normalizeParts false resolved, ?_, rfl⟩
  exact canonical_foldl (fun p hp => no_slash_of_mem_splitOn hp) fun p hp => by cases hp

theorem isAbsolute_absolute (parts : List (List Char)) : isAbsolute (absolute parts) = true := by
  simp [isAbsolute, absolute]

theorem toList_absolute (parts : List (List Char)) :
    (absolute parts).toList = '/' :: joinParts parts := String.toList_ofList

theorem absolute_ne_empty (parts : List (List Char)) : absolute parts ≠ "" := by
  intro h
  have hlist := congrArg String.toList h
  rw [toList_absolute] at hlist
  cases hlist

/-- Normalizing an absolute path with a text behind it starts at its components. -/
theorem normalizeParts_absolute (h : Canonical parts) (back : List Char) :
    normalizeParts false ((absolute parts).toList ++ '/' :: back) =
      (back.splitOn '/').foldl (normalizeStep false) parts := by
  have hfront : ((absolute parts).toList.splitOn '/').foldl (normalizeStep false) [] = parts := by
    rw [toList_absolute]
    have hslash := @foldl_splitOn_slash false [] (joinParts parts) []
    rw [List.nil_append, foldl_splitOn_nil, foldl_splitOn_joinParts h, List.nil_append] at hslash
    exact hslash
  rw [normalizeParts, foldl_splitOn_slash, hfront]

theorem resolve_absolute (h : Canonical parts) : resolve cwd [absolute parts] = absolute parts := by
  have hloop : resolveLoop ([absolute parts].reverse ++ [cwd]) [] =
      ((absolute parts).toList ++ '/' :: [], true) := by
    show resolveLoop [absolute parts, cwd] [] = _
    rw [resolveLoop, if_neg (absolute_ne_empty parts), if_pos (isAbsolute_absolute parts)]
  unfold resolve
  rw [hloop]
  show String.ofList ('/' :: joinParts (normalizeParts false _)) = _
  rw [normalizeParts_absolute h, foldl_splitOn_nil]
  rfl

theorem joinParts_eq_nil_iff (h : Canonical parts) : joinParts parts = [] ↔ parts = [] := by
  constructor
  · intro hnil
    have hparts := @foldl_splitOn_joinParts parts false h []
    rw [hnil, foldl_splitOn_nil, List.nil_append] at hparts
    exact hparts.symm
  · rintro rfl
    rfl

/-- A relative path in normal form does not start with a slash. -/
theorem head?_joinParts (h : ∀ part ∈ parts, part ≠ [] ∧ '/' ∉ part) :
    (joinParts parts).head? ≠ some '/' := by
  cases parts with
  | nil => simp [joinParts]
  | cons part parts =>
    obtain ⟨c, chars, rfl⟩ := List.exists_cons_of_ne_nil (h part (List.mem_cons_self ..)).1
    have hc : c ≠ '/' := by
      rintro rfl
      exact (h _ (List.mem_cons_self ..)).2 (List.mem_cons_self ..)
    cases parts with
    | nil => simpa [joinParts] using hc
    | cons next parts => simpa [joinParts, List.intercalate_cons_cons] using hc

/-- Resolving a relative path in normal form appends its components. -/
theorem resolve_under (hbase : Canonical base) (h : Canonical parts) (hne : parts ≠ []) :
    resolve cwd [absolute base, String.ofList (joinParts parts)] = absolute (base ++ parts) := by
  have hempty : String.ofList (joinParts parts) ≠ "" := by
    intro hnil
    have hlist := congrArg String.toList hnil
    rw [String.toList_ofList] at hlist
    exact hne ((joinParts_eq_nil_iff h).mp hlist)
  have hrelative : ¬ isAbsolute (String.ofList (joinParts parts)) = true := by
    simpa [isAbsolute] using head?_joinParts h.ne_nil_no_slash
  have hloop : resolveLoop ([absolute base, String.ofList (joinParts parts)].reverse ++ [cwd]) [] =
      ((absolute base).toList ++ '/' :: (joinParts parts ++ '/' :: []), true) := by
    show resolveLoop [String.ofList (joinParts parts), absolute base, cwd] [] = _
    rw [resolveLoop, if_neg hempty, if_neg hrelative, resolveLoop,
      if_neg (absolute_ne_empty base), if_pos (isAbsolute_absolute base), String.toList_ofList]
  unfold resolve
  rw [hloop]
  show String.ofList ('/' :: joinParts (normalizeParts false _)) = _
  rw [normalizeParts_absolute hbase, foldl_splitOn_slash, foldl_splitOn_nil,
    foldl_splitOn_joinParts h]
  rfl

end Resolve

section Join

/-- Joining a name to an absolute path appends it. -/
theorem join_absolute (h : Canonical parts) {name : String} (hname : Component name.toList) :
    join [absolute parts, name] = absolute (parts ++ [name.toList]) := by
  have hall : Canonical (parts ++ [name.toList]) := h.append fun p hp => by
    obtain rfl := List.mem_singleton.mp hp
    exact hname
  have hgiven : ([absolute parts, name].map String.toList).filter (· ≠ []) =
      [(absolute parts).toList, name.toList] := by
    simp [hname.ne_nil, toList_absolute]
  have htext : joinParts [(absolute parts).toList, name.toList] =
      (absolute parts).toList ++ '/' :: name.toList := by
    simp [joinParts, List.intercalate_cons_cons]
  have hlast : ((absolute parts).toList ++ '/' :: name.toList).getLast? ≠ some '/' := by
    intro hslash
    rw [List.getLast?_append_of_ne_nil _ (List.cons_ne_nil _ _),
      List.getLast?_cons_of_ne_nil hname.ne_nil] at hslash
    exact hname.no_slash (List.mem_of_getLast? hslash)
  have hsplit : name.toList.splitOn '/' = [name.toList] := List.splitOn_eq_singleton hname.no_slash
  have hres : normalizeString ((absolute parts).toList ++ '/' :: name.toList) false =
      joinParts (parts ++ [name.toList]) := by
    rw [normalizeString, normalizeParts_absolute h, hsplit, List.foldl_cons,
      normalizeStep_component hname]
    rfl
  have hne : joinParts (parts ++ [name.toList]) ≠ [] := by
    rw [Ne, joinParts_eq_nil_iff hall]
    simp
  have habs : isAbsolute (String.ofList ((absolute parts).toList ++ '/' :: name.toList)) = true := by
    simp [isAbsolute, toList_absolute]
  have hempty : String.ofList ((absolute parts).toList ++ '/' :: name.toList) ≠ "" := by
    simp [toList_absolute]
  unfold join
  rw [hgiven, if_neg (List.cons_ne_nil _ _), htext]
  unfold normalize
  simp only [habs, Bool.not_true, String.toList_ofList, hres, hempty, hne, hlast, if_false, if_true,
    decide_false, List.append_nil, Bool.false_eq_true]
  rfl

end Join

section Relative

theorem components_absolute (h : Canonical parts) : components (absolute parts) = parts := by
  unfold components
  rw [toList_absolute]
  have hslash : ('/' :: joinParts parts).splitOn '/' = [] :: (joinParts parts).splitOn '/' := by
    have h := List.splitOn_append_cons_self [] (joinParts parts) (a := '/')
    simpa using h
  rw [hslash, List.filter_cons_of_neg (by simp)]
  by_cases hnil : parts = []
  · subst hnil
    rfl
  · rw [joinParts, List.splitOn_intercalate '/' (fun p hp => (h p hp).no_slash) hnil]
    exact List.filter_eq_self.mpr fun p hp => by simpa using (h p hp).ne_nil

/-- The common components are a common front. -/
theorem take_commonLength (source target : List (List Char)) :
    source.take (commonLength source target) = target.take (commonLength source target) := by
  induction source generalizing target with
  | nil => simp [commonLength]
  | cons a source ih =>
    cases target with
    | nil => simp [commonLength]
    | cons b target =>
      unfold commonLength
      by_cases hab : a = b
      · rw [if_pos hab, List.take_succ_cons, List.take_succ_cons, hab, ih]
      · rw [if_neg hab]
        rfl

theorem commonLength_append (base rest : List (List Char)) :
    commonLength base (base ++ rest) = base.length := by
  induction base with
  | nil => cases rest <;> rfl
  | cons a base ih => rw [List.cons_append, commonLength, if_pos rfl, ih, List.length_cons]

theorem relative_absolute (hbase : Canonical base) (h : Canonical parts) :
    relative cwd (absolute base) (absolute parts) = String.ofList (joinParts
      (List.replicate (base.length - commonLength base parts) ['.', '.'] ++
        parts.drop (commonLength base parts))) := by
  unfold relative
  rw [resolve_absolute hbase, resolve_absolute h, components_absolute hbase, components_absolute h]

theorem relative_append (hbase : Canonical base) (h : Canonical rest) :
    relative cwd (absolute base) (absolute (base ++ rest)) = String.ofList (joinParts rest) := by
  rw [relative_absolute hbase (hbase.append h), commonLength_append, Nat.sub_self,
    List.drop_left]
  rfl

/-- A relative path that does not lead up leads into the first path. -/
theorem front_of_relative (hbase : Canonical base) (h : Canonical parts)
    (hup : ¬ ['.', '.'] <+: (relative cwd (absolute base) (absolute parts)).toList) :
    ∃ rest, parts = base ++ rest := by
  rw [relative_absolute hbase h, String.toList_ofList] at hup
  have hcommon := take_commonLength base parts
  by_cases hall : base.length ≤ commonLength base parts
  · rw [List.take_of_length_le hall] at hcommon
    exact ⟨parts.drop (commonLength base parts), by
      conv_lhs => rw [← List.take_append_drop (commonLength base parts) parts, ← hcommon]⟩
  · obtain ⟨n, hn⟩ : ∃ n, base.length - commonLength base parts = n + 1 :=
      ⟨base.length - commonLength base parts - 1, by omega⟩
    rw [hn, List.replicate_succ, List.cons_append] at hup
    refine (hup ?_).elim
    cases hrest : List.replicate n ['.', '.'] ++ parts.drop (commonLength base parts) with
    | nil => exact List.prefix_rfl
    | cons next more =>
      rw [joinParts, List.intercalate_cons_cons, List.append_assoc]
      exact List.prefix_append _ _

end Relative

end T560.Js.Path
