import T560.Js.AbsolutePath
import T560.Memory.Documents
import T560.Memory.Isolation
import T560.Memory.SaveSpec
import T560.Memory.SearchWords

/-!
# References

A reference that `memory_search` returns leads `memory_get` back to the entry or to the lines it
stands for.
-/

namespace T560.Memory

open Js (Value Runtime isSpace trim trimChars isLineTerminator normalizeLineBreaks startsWith endsWith)
open Js.Path
open Js.Value (trimmedText coalesce)

section Paths
variable {env : DocumentEnv}

/-- What the documents rely on: an absolute working directory, `Number` of a decimal text, and that
lower-casing leaves white space at the ends of a text. -/
structure DocumentEnv.Lawful (env : DocumentEnv) : Prop where
  cwd : isAbsolute env.processCwd = true
  decimal : ∀ n : Nat, n ≤ 1000000 → env.rt.textNumber (toString n) = .fin n
  lower_head : ∀ c text, isSpace c = true →
    (env.rt.toLowerCase (String.ofList (c :: text))).toList.head? = some c
  lower_last : ∀ text c, isSpace c = true →
    (env.rt.toLowerCase (String.ofList (text ++ [c]))).toList.getLast? = some c

end Paths

section Split
variable {front digits : List Char}

theorem lineSuffix_digits (hne : digits ≠ []) (hdigits : digits.all Js.isDigit = true) :
    lineSuffix ('#' :: 'L' :: digits) = some digits := by
  simp only [lineSuffix, hdigits, Bool.and_true, decide_eq_true hne, if_true]

/-- A text in front of a line suffix is no line suffix with it. -/
theorem lineSuffix_longer (hne : front ≠ []) (digits : List Char) :
    lineSuffix (front ++ '#' :: 'L' :: digits) = none := by
  cases front with
  | nil => exact (hne rfl).elim
  | cons c front =>
    have hhash : ∀ text : List Char, (text ++ '#' :: 'L' :: digits).all Js.isDigit = false := by
      intro text
      rw [List.all_append, List.all_cons]
      have hbad : Js.isDigit '#' = false := by decide
      rw [hbad, Bool.false_and, Bool.and_false]
    cases front with
    | nil =>
      rw [List.cons_append, List.nil_append]
      unfold lineSuffix
      split
      · next heq => cases heq
      · next heq =>
        have hhash : '#' = 'L' := (List.cons.inj (List.cons.inj heq).2).1
        exact absurd hhash (by decide)
      · rfl
    | cons d front =>
      rw [List.cons_append, List.cons_append]
      unfold lineSuffix
      split
      · next heq => cases heq
      · next heq =>
        obtain ⟨-, heq⟩ := List.cons.inj heq
        obtain ⟨-, rfl⟩ := List.cons.inj heq
        rw [hhash, Bool.and_false]
        rfl
      · rfl

/-- The shortest front that a line suffix follows is the whole path, whatever it contains. -/
theorem splitRef_line {path : List Char} (hpath : ∀ c ∈ path, isLineTerminator c = false)
    (hne : digits ≠ []) (hdigits : digits.all Js.isDigit = true) :
    splitRef front (path ++ '#' :: 'L' :: digits) = some (front ++ path, digits) := by
  induction path generalizing front with
  | nil =>
    rw [List.nil_append, splitRef, lineSuffix_digits hne hdigits, List.append_nil]
  | cons c path ih =>
    have hlonger := lineSuffix_longer (List.cons_ne_nil c path) digits
    rw [List.cons_append] at hlonger ⊢
    rw [splitRef, hlonger]
    dsimp only
    rw [hpath c (List.mem_cons_self ..), if_neg Bool.false_ne_true,
      ih fun d hd => hpath d (List.mem_cons_of_mem c hd), List.append_assoc]
    rfl

end Split

section Collect
variable {env : DocumentEnv} {disk : Disk} {path : String}

/-- A memory file that may be searched and read. -/
structure Document (env : DocumentEnv) (disk : Disk) (path : String) : Prop where
  normal : ∃ parts, Canonical parts ∧ path = absolute parts
  source : isMemorySourceFilePath env env.workspaceDir path = true
  plain : isSensitivePath env path env.workspaceDir = false
  file : ∃ info, disk.stat path = some info ∧ info.isFile = true

theorem component_of_name {name : List Char} (hne : name ≠ []) (hslash : '/' ∉ name)
    (hdot : ¬ ['.'] <+: name) : Component name where
  ne_nil := hne
  no_slash := hslash
  ne_dot := by
    rintro rfl
    exact hdot List.prefix_rfl
  ne_dots := by
    rintro rfl
    exact hdot (List.prefix_append ['.'] ['.'])

theorem workspaceDir_absolute (h : env.Lawful) :
    ∃ parts, Canonical parts ∧ env.workspaceDir = absolute parts :=
  resolve_canonical h.cwd [env.workspaceOption]

theorem resolve_workspaceDir (h : env.Lawful) :
    resolve env.processCwd [env.workspaceDir] = env.workspaceDir := by
  obtain ⟨parts, hparts, hdir⟩ := workspaceDir_absolute h
  rw [hdir, resolve_absolute hparts]

/-- Only documents are added to the files that were found. -/
theorem mem_addIfMemoryFile {found : List String} {candidate : String}
    (hcandidate : ∃ parts, Canonical parts ∧ candidate = absolute parts)
    (h : path ∈ addIfMemoryFile env disk env.workspaceDir candidate found) :
    path ∈ found ∨ Document env disk path := by
  unfold addIfMemoryFile at h
  split at h
  · exact .inl h
  · next hsource =>
    split at h
    · exact .inl h
    · next hplain =>
      split at h
      · exact .inl h
      · next info hstat =>
        split at h
        · exact .inl h
        · next hfile =>
          obtain ⟨parts, hparts, rfl⟩ := hcandidate
          dsimp only at h
          rw [resolve_absolute hparts] at h
          split at h
          · exact .inl h
          · rcases List.mem_append.mp h with h | h
            · exact .inl h
            · obtain rfl := List.mem_singleton.mp h
              refine .inr ⟨⟨parts, hparts, rfl⟩, by simpa using hsource, by simpa using hplain, ?_⟩
              exact ⟨info, hstat, by simpa using hfile⟩

/-- The files found and the directories to read, as the scan of the memory directory keeps them. -/
def ScanSound (env : DocumentEnv) (disk : Disk) (found : List String)
    (stack : List (String × Listing)) : Prop :=
  (∀ path ∈ found, Document env disk path) ∧
    ∀ dir ∈ stack, ∃ parts, Canonical parts ∧ dir.1 = absolute parts

theorem scanEntries_sound {current : String} (hcurrent : ∃ parts, Canonical parts ∧ current = absolute parts)
    (entries : List (FileName × DirEntry)) {found : List String} {stack : List (String × Listing)}
    (h : ScanSound env disk found stack) :
    ScanSound env disk (scanEntries env disk env.workspaceDir current entries found stack).1
      (scanEntries env disk env.workspaceDir current entries found stack).2 := by
  induction entries generalizing found stack with
  | nil => exact h
  | cons first rest ih =>
    obtain ⟨name, entry⟩ := first
    unfold scanEntries
    split
    · exact h
    · split
      · exact ih h
      · next hname =>
        obtain ⟨parts, hparts, rfl⟩ := hcurrent
        simp only [Bool.or_eq_true, decide_eq_true_eq, not_or, startsWith,
          List.isPrefixOf_iff_prefix] at hname
        have hcomponent : Component name.text.toList :=
          component_of_name (by simpa using hname.1) name.no_slash hname.2
        have hpath : ∃ parts', Canonical parts' ∧ join [absolute parts, name.text] = absolute parts' :=
          ⟨parts ++ [name.text.toList], hparts.append fun p hp => by
            obtain rfl := List.mem_singleton.mp hp
            exact hcomponent, join_absolute hparts hcomponent⟩
        cases entry with
        | directory listing =>
          refine ih ⟨h.1, fun dir hdir => ?_⟩
          rcases List.mem_cons.mp hdir with rfl | hdir
          · exact hpath
          · exact h.2 dir hdir
        | other => exact ih h
        | file =>
          dsimp only
          split
          · exact ih h
          · refine ih ⟨fun path hmem => ?_, h.2⟩
            rcases mem_addIfMemoryFile hpath hmem with hmem | hdoc
            · exact h.1 path hmem
            · exact hdoc

theorem scanDirectories_sound (stack : List (String × Listing)) (found : List String)
    (h : ScanSound env disk found stack) :
    ∀ path ∈ scanDirectories env disk env.workspaceDir stack found, Document env disk path := by
  induction stack, found using scanDirectories.induct env disk env.workspaceDir with
  | case1 found =>
    rw [scanDirectories]
    exact h.1
  | case2 found current listing stack hfull =>
    rw [scanDirectories.eq_def]
    dsimp only
    rw [if_pos hfull]
    exact h.1
  | case3 found current stack hroom ih =>
    rw [scanDirectories, if_neg hroom]
    exact ih ⟨h.1, fun dir hdir => h.2 dir (List.mem_cons_of_mem _ hdir)⟩
  | case4 found current stack hroom entries ih =>
    rw [scanDirectories, if_neg hroom]
    apply ih
    exact scanEntries_sound (h.2 _ (List.mem_cons_self ..)) entries
      ⟨h.1, fun dir hdir => h.2 dir (List.mem_cons_of_mem _ hdir)⟩

theorem component_of_listed {name : String}
    (h : name ∈ ["MEMORY.md", "memory.md", "memory"] ++ SURROUNDING_FILENAMES) :
    Component name.toList := by
  have hplain : ∀ name ∈ ["MEMORY.md", "memory.md", "memory"] ++ SURROUNDING_FILENAMES,
      name.toList ≠ [] ∧ '/' ∉ name.toList ∧ ¬ ['.'] <+: name.toList := by decide +kernel
  obtain ⟨hne, hslash, hdot⟩ := hplain name h
  exact component_of_name hne hslash hdot

theorem join_workspaceDir (hlaw : env.Lawful) {name : String} (h : Component name.toList) :
    ∃ parts, Canonical parts ∧ join [env.workspaceDir, name] = absolute parts := by
  obtain ⟨root, hroot, hdir⟩ := workspaceDir_absolute hlaw
  refine ⟨root ++ [name.toList], hroot.append fun p hp => ?_, ?_⟩
  · obtain rfl := List.mem_singleton.mp hp
    exact h
  · rw [hdir, join_absolute hroot h]

theorem collectMemoryFiles_sound (hlaw : env.Lawful) {includeSurrounding : Bool}
    (h : path ∈ collectMemoryFiles env disk includeSurrounding) : Document env disk path := by
  let add := fun found name =>
    addIfMemoryFile env disk env.workspaceDir (join [env.workspaceDir, name]) found
  have hadd : ∀ name : String, Component name.toList → ∀ found,
      (∀ path ∈ found, Document env disk path) → ∀ path ∈ add found name, Document env disk path := by
    intro name hname found hfound path hpath
    rcases mem_addIfMemoryFile (join_workspaceDir hlaw hname) hpath with hpath | hdoc
    · exact hfound path hpath
    · exact hdoc
  have hfold : ∀ names : List String, (∀ name ∈ names, Component name.toList) → ∀ found,
      (∀ path ∈ found, Document env disk path) →
        ∀ path ∈ names.foldl add found, Document env disk path := by
    intro names hnames
    induction names with
    | nil => exact fun found hfound => hfound
    | cons name names ih =>
      intro found hfound
      rw [List.foldl_cons]
      exact ih (fun n hn => hnames n (List.mem_cons_of_mem _ hn)) (add found name)
        (hadd name (hnames name (List.mem_cons_self ..)) found hfound)
  have hmain : ∀ path ∈ add (add [] "MEMORY.md") "memory.md", Document env disk path :=
    hadd "memory.md" (component_of_listed (by decide +kernel)) (add [] "MEMORY.md")
      (hadd "MEMORY.md" (component_of_listed (by decide +kernel)) [] fun path hpath => by cases hpath)
  have hfound : ∀ path ∈ if includeSurrounding then
      SURROUNDING_FILENAMES.foldl add (add (add [] "MEMORY.md") "memory.md")
      else add (add [] "MEMORY.md") "memory.md", Document env disk path := by
    split
    · exact hfold SURROUNDING_FILENAMES
        (fun name hname => component_of_listed (List.mem_append_right _ hname)) _ hmain
    · exact hmain
  unfold collectMemoryFiles at h
  rw [resolve_workspaceDir hlaw] at h
  have hmem := (env.byLocale_perm _).mem_iff.mp h
  split at hmem
  · refine scanDirectories_sound _ _ ⟨hfound, fun dir hdir => ?_⟩ path hmem
    obtain rfl := List.mem_singleton.mp hdir
    exact join_workspaceDir hlaw (component_of_listed (by decide +kernel))
  · exact hfound path hmem

end Collect

section Relative
variable {env : DocumentEnv} {disk : Disk} {path : String}

/-- Lower-casing leaves no white space at the ends of a path of a memory file, so there was none. -/
theorem trim_of_lowered (hlaw : env.Lawful) {relative : String} {first last : Char}
    (hfirst : (env.rt.toLowerCase relative).toList.head? = some first)
    (hlast : (env.rt.toLowerCase relative).toList.getLast? = some last)
    (hfirstPlain : isSpace first = false) (hlastPlain : isSpace last = false) :
    trim relative = relative := by
  have hchars : trimChars relative.toList = relative.toList := by
    apply Js.trimChars_eq_self
    · intro c hc
      by_contra hspace
      obtain ⟨text, htext⟩ := List.head?_eq_some_iff.mp hc
      have hlower := hlaw.lower_head c text (by simpa using hspace)
      rw [← htext, String.ofList_toList, hfirst] at hlower
      obtain rfl := Option.some.inj hlower
      exact hspace hfirstPlain
    · intro c hc
      by_contra hspace
      obtain ⟨text, htext⟩ := List.getLast?_eq_some_iff.mp hc
      have hlower := hlaw.lower_last text c (by simpa using hspace)
      rw [← htext, String.ofList_toList, hlast] at hlower
      obtain rfl := Option.some.inj hlower
      exact hspace hlastPlain
  rw [trim, hchars, String.ofList_toList]

theorem head?_of_startsWith {front text : String} {c : Char} (hfront : front.toList.head? = some c)
    (h : startsWith front text = true) : text.toList.head? = some c := by
  obtain ⟨back, hback⟩ := List.isPrefixOf_iff_prefix.mp h
  rw [← hback, List.head?_append, hfront]
  rfl

theorem getLast?_of_endsWith {back text : String} {c : Char} (hback : back.toList.getLast? = some c)
    (h : endsWith back text = true) : text.toList.getLast? = some c := by
  obtain ⟨front, hfront⟩ := List.isSuffixOf_iff_suffix.mp h
  rw [← hfront, List.getLast?_append, hback]
  rfl

/-- A path inside the workspace is not empty and does not lead up. -/
theorem pathInWorkspace_some {dir target name : String}
    (h : pathInWorkspace env dir target = some name) :
    name = normalizeRelativePath env (resolve env.processCwd [dir])
        (resolve env.processCwd [target]) ∧
      name ≠ "" ∧ ¬ ['.', '.'] <+: name.toList := by
  unfold pathInWorkspace at h
  dsimp only at h
  split at h
  · cases h
  · next hinside =>
    obtain rfl := Option.some.inj h
    simp only [Bool.or_eq_true, decide_eq_true_eq, not_or, startsWith,
      List.isPrefixOf_iff_prefix] at hinside
    exact ⟨rfl, hinside.1⟩

/-- The path of a document from the workspace, when it has no backslash. -/
theorem Document.path_in_workspace (hlaw : env.Lawful) (h : Document env disk path)
    (hplain : '\\' ∉ (relative env.processCwd env.workspaceDir path).toList) :
    pathInWorkspace env env.workspaceDir path =
        some (relative env.processCwd env.workspaceDir path) ∧
      normalizeRelativePath env env.workspaceDir path =
        relative env.processCwd env.workspaceDir path := by
  obtain ⟨parts, hparts, rfl⟩ := h.normal
  have hsame : normalizeRelativePath env env.workspaceDir (absolute parts) =
      relative env.processCwd env.workspaceDir (absolute parts) := by
    have hid : ∀ c ∈ (relative env.processCwd env.workspaceDir (absolute parts)).toList,
        (if c = '\\' then '/' else c) = id c := by
      intro c hc
      refine if_neg ?_
      rintro rfl
      exact hplain hc
    unfold normalizeRelativePath
    rw [List.map_congr_left hid, List.map_id, String.ofList_toList]
  refine ⟨?_, hsame⟩
  have hsource := h.source
  unfold isMemorySourceFilePath isMemoryFilePath isSurroundingFilePath at hsource
  cases hinside : pathInWorkspace env env.workspaceDir (absolute parts) with
  | none =>
    rw [hinside] at hsource
    cases hsource
  | some name =>
    obtain ⟨rfl, -⟩ := pathInWorkspace_some hinside
    rw [resolve_workspaceDir hlaw, resolve_absolute hparts, hsame]

/-- The path from the workspace has no white space at its ends. -/
theorem Document.trimmed (hlaw : env.Lawful) (h : Document env disk path)
    (hplain : '\\' ∉ (relative env.processCwd env.workspaceDir path).toList) :
    trim (relative env.processCwd env.workspaceDir path) =
      relative env.processCwd env.workspaceDir path := by
  have hsource := h.source
  unfold isMemorySourceFilePath isMemoryFilePath isSurroundingFilePath at hsource
  rw [(h.path_in_workspace hlaw hplain).1] at hsource
  generalize relative env.processCwd env.workspaceDir path = name at hsource ⊢
  simp only [Option.any_some, Bool.or_eq_true, Bool.and_eq_true, decide_eq_true_eq] at hsource
  rcases hsource with (hmain | ⟨hfront, hback⟩) | ⟨-, hname⟩
  · exact @trim_of_lowered env hlaw name 'm' 'd' (by rw [hmain]; rfl) (by rw [hmain]; rfl)
      (by decide) (by decide)
  · exact trim_of_lowered hlaw (head?_of_startsWith (c := 'm') rfl hfront)
      (getLast?_of_endsWith (c := 'd') rfl hback) (by decide) (by decide)
  · have htrimmed : ∀ name ∈ SURROUNDING_FILENAMES, trim name = name := by decide +kernel
    exact htrimmed name hname

/-- The path from the workspace leads back to the document. -/
theorem Document.leads_back (hlaw : env.Lawful) (h : Document env disk path)
    (hplain : '\\' ∉ (relative env.processCwd env.workspaceDir path).toList) :
    relative env.processCwd env.workspaceDir path ≠ "" ∧
      resolve env.processCwd [env.workspaceDir, relative env.processCwd env.workspaceDir path] =
        path := by
  obtain ⟨root, hroot, hdir⟩ := workspaceDir_absolute hlaw
  obtain ⟨-, hne, hup⟩ := pathInWorkspace_some (h.path_in_workspace hlaw hplain).1
  refine ⟨hne, ?_⟩
  obtain ⟨parts, hparts, rfl⟩ := h.normal
  rw [hdir] at hne hup ⊢
  obtain ⟨rest, rfl⟩ := front_of_relative hroot hparts hup
  have hrest : Canonical rest := hparts.sublist (List.sublist_append_right root rest)
  rw [relative_append hroot hrest] at hne ⊢
  refine resolve_under hroot hrest ?_
  rintro rfl
  exact hne rfl

end Relative

section Parse
variable {env : DocumentEnv} {line : Nat}

theorem toList_fileRef (path : String) (line : Nat) : (fileRef path line).toList =
    ['f', 'i', 'l', 'e', ':'] ++ (path.toList ++ '#' :: 'L' :: (toString line).toList) := by
  simp [fileRef]

theorem trim_fileRef (path : String) (line : Nat) : trim (fileRef path line) = fileRef path line := by
  obtain ⟨hne, hdigits⟩ := Js.digits_toString line
  have hlast : Trimmed (toString line) := by
    refine ⟨Js.trim_eq_self_of_noSpace fun c hc => ?_, fun h => hne (by rw [h]; rfl)⟩
    exact Js.isSpace_of_isDigit (List.all_eq_true.mp hdigits c hc)
  have hfirst : Trimmed "file:" := by decide
  have hjoin : fileRef path line = "file:" ++ (path ++ "#L") ++ toString line := by
    simp only [fileRef, String.append_assoc]
  rw [hjoin]
  exact (trimmed_around hfirst hlast (path ++ "#L")).1

/-- A file reference is taken apart into its path and its line. -/
theorem parseFileRef_fileRef (hlaw : env.Lawful) {path : String} (hne : path ≠ "")
    (htrim : trim path = path) (hpath : ∀ c ∈ path.toList, isLineTerminator c = false)
    (hline : 1 ≤ line) (hmax : line ≤ 1000000) :
    parseFileRef env (fileRef path line) = .ok (some ⟨path, some line⟩) := by
  obtain ⟨hdigitsNe, hdigits⟩ := Js.digits_toString line
  have hfront : startsWith "file:" (fileRef path line) = true := by
    rw [startsWith, List.isPrefixOf_iff_prefix, toList_fileRef]
    exact List.prefix_append _ _
  have hsplit : splitRef [] ((fileRef path line).toList.drop 5) =
      some (path.toList, (toString line).toList) := by
    rw [toList_fileRef]
    show splitRef [] (path.toList ++ '#' :: 'L' :: (toString line).toList) = _
    rw [splitRef_line hpath hdigitsNe hdigits, List.nil_append]
  have hclamp : clampInt env.rt (some (.str (toString line))) 1 1000000 1 = .ok (line : Int) := by
    have hnumber : clampInt env.rt (some (.str (toString line))) 1 1000000 1 =
        clampInt env.rt (some (.num (.fin ((line : Int) : ℚ)))) 1 1000000 1 := by
      simp only [clampInt, Value.number, hlaw.decimal line hmax]
      norm_num
    rw [hnumber]
    exact clampInt_stable (by omega) (by omega)
  unfold parseFileRef
  simp only [trim_fileRef, hfront, hsplit, Bool.not_true, Bool.false_eq_true, if_false,
    String.ofList_toList, htrim, hne, hdigitsNe, hclamp]
  rfl

end Parse

section Lookup
variable {env : ReadEnv} {g : GetRequest} {file : Option String} {e : MemoryStoreEntry}

theorem readGet_ref {params : Value} (h : readGet env params = .ok g) {ref : String}
    (href : params.get? "ref" = some (.str ref)) (hid : params.get? "id" = none) :
    g.ref = trim ref ∧ g.explicitId = "" := by
  obtain ⟨_, -, h⟩ := Js.exists_of_bind_ok h
  obtain ⟨_, -, h⟩ := Js.exists_of_bind_ok h
  obtain ⟨_, -, h⟩ := Js.exists_of_bind_ok h
  obtain ⟨text, htext, h⟩ := Js.exists_of_bind_ok h
  obtain ⟨id, hidText, h⟩ := Js.exists_of_bind_ok h
  obtain rfl := Except.ok.inj h
  rw [href] at htext
  rw [hid] at hidText
  exact ⟨(Except.ok.inj htext).symm, (Except.ok.inj hidText).symm⟩

/-- A loaded entry of the scope is found by its id. -/
theorem findStoreEntryById_of_loaded {scope : MemoryScope}
    (he : e ∈ loadStoreEntries env.toStore none file) (hscope : entryMatchesScope e scope = true) :
    findStoreEntryById env.toStore e.id (some scope) file = some e := by
  have hall := loadStoreEntries_subset none file he
  rw [loadStoreEntries_live] at hall
  rw [findStoreEntryById_scope, findStoreEntryById_replay, ReplayLog.mem_live_iff.mp hall, Option.filter_some,
    if_pos hscope]

/-- The reference of an entry names its id, whatever the id looks like. -/
theorem targetIdOf_store {id : String} (h : Trimmed id) :
    targetIdOf (trim ("store:" ++ id)) "" = id := by
  have hprefix : Trimmed "store:" := by decide
  have htrim := (trimmed_around hprefix h "").1
  rw [String.append_empty] at htrim
  have hfront : "store:".toList.isPrefixOf ("store:" ++ id).toList = true := by
    rw [List.isPrefixOf_iff_prefix, String.toList_append]
    exact List.prefix_append _ _
  have hid : textAfter "store:" ("store:" ++ id) = some id := by
    rw [textAfter, if_pos hfront, String.toList_append, ← String.length_toList, List.drop_left,
      String.ofList_toList, h.1]
  have hnone : textAfter "store:" "" = none := rfl
  rw [htrim, targetIdOf, hnone, hid]
  rfl

end Lookup

section Resolve

def MemorySearchHit.ref : MemorySearchHit → String
  | .store hit => hit.ref
  | .file hit => hit.ref

/-- What `memory_get` returns for a hit: the same entry with its content clipped, and where the call
reinforces it with what that changes; or of the same file the lines around the line of the hit. -/
inductive SameTarget (env : DocumentEnv) (disk : Disk) (r : SearchRequest) (now : Int)
    (call : GetCall) (g : GetRequest) (contextLines : Int) (file : Option String) :
    MemorySearchHit → GetOutcome → Prop
  | store (entry : MemoryStoreEntry) (hlive : entry ∈ loadStoreEntries env.toStore none file)
      (hscope : entryMatchesScope entry r.scope = true) :
    SameTarget env disk r now call g contextLines file (.store (r.hit env.toReadEnv now entry))
      (.store {
        ref := "store:" ++ entry.id
        id := entry.id
        title := entry.title
        content := (clipText entry.content g.maxChars.toNat).1
        truncated := (clipText entry.content g.maxChars.toNat).2
        tags := entry.tags
        createdAt := entry.createdAt
        updatedAt := if g.reinforce then call.now else entry.updatedAt
        lastAccessedAt := if g.reinforce then call.now else entry.lastAccessedAt
        reinforceCount :=
          if g.reinforce then min 10000 (entry.reinforceCount + 1) else entry.reinforceCount
        importance := entry.importance
        confidence := if g.reinforce then max MIN_CONFIDENCE (min 1 (env.recalledConfidence entry.confidence))
          else entry.confidence
        memorySource := entry.source
        memoryNamespace := entry.memoryNamespace
        trustTier := entry.trustTier
        reinforced := g.reinforce })
  | document (path line : String) (lineIndex : Nat) (lines : List String) (name : String)
      (hpath : path ∈ collectMemoryFiles env disk r.includeSurrounding)
      (hlines : lines = normalizeLineBreaks (disk.readFile path))
      (hname : name = normalizeRelativePath env env.workspaceDir path)
      (hline : lines[lineIndex]? = some line) :
    SameTarget env disk r now call g contextLines file
      (.file (r.fileHit env name lines (line, lineIndex)))
      (.document {
        ref := fileRef name (lineIndex + 1)
        path := name
        lineStart := max 1 (lineIndex + 1 - contextLines)
        lineEnd := min lines.length (lineIndex + 1 + contextLines)
        content := (clipText (buildFileContextSnippet lines lineIndex contextLines.toNat)
          g.maxChars.toNat).1
        truncated := (clipText (buildFileContextSnippet lines lineIndex contextLines.toNat)
          g.maxChars.toNat).2 })

variable {env : DocumentEnv} {disk : Disk} {r : SearchRequest} {file : Option String}

theorem storeHits_entry {now : Int} {hit : StoreSearchHit}
    (h : hit ∈ (r.storeHits env.toReadEnv now file).1) :
    ∃ entry ∈ loadStoreEntries env.toStore none file,
      entryMatchesScope entry r.scope = true ∧ hit = r.hit env.toReadEnv now entry := by
  unfold SearchRequest.storeHits at h
  split at h
  · obtain ⟨entry, hentry, rfl⟩ := List.mem_map.mp h
    obtain ⟨hlive, hscope⟩ := List.mem_filter.mp (List.mem_of_mem_filter hentry)
    exact ⟨entry, hlive, hscope, rfl⟩
  · cases h

theorem searchFile_line {path : String} {hit : FileSearchHit}
    (h : hit ∈ r.searchFile env disk path) :
    ∃ row, (normalizeLineBreaks (disk.readFile path))[row.2]? = some row.1 ∧
      hit = r.fileHit env (normalizeRelativePath env env.workspaceDir path)
        (normalizeLineBreaks (disk.readFile path)) row := by
  unfold SearchRequest.searchFile at h
  split at h
  · cases h
  · split at h
    · cases h
    · obtain ⟨row, hrow, rfl⟩ := List.mem_map.mp h
      have hline := List.mem_of_mem_filter (List.mem_mergeSort.mp (List.mem_of_mem_take hrow))
      exact ⟨row, List.mem_zipIdx_iff_getElem?.mp hline, rfl⟩

/-- The hits of a search come from the entries of its scope and from lines of the documents. -/
theorem memorySearch_hit {params : Value} {now : Int} {report : SearchReport}
    (h : memorySearch env.toReadEnv (searchMemoryFiles env disk) now params file = .ok report)
    {hit : MemorySearchHit} (hhit : hit ∈ report.results) :
    (∃ entry ∈ loadStoreEntries env.toStore none file,
      entryMatchesScope entry report.request.scope = true ∧
        hit = .store (report.request.hit env.toReadEnv now entry)) ∨
    ∃ path ∈ collectMemoryFiles env disk report.request.includeSurrounding,
      ∃ row, (normalizeLineBreaks (disk.readFile path))[row.2]? = some row.1 ∧
        hit = .file (report.request.fileHit env (normalizeRelativePath env env.workspaceDir path)
          (normalizeLineBreaks (disk.readFile path)) row) := by
  unfold memorySearch at h
  cases hread : readSearch env.toReadEnv params with
  | error e =>
    rw [hread] at h
    cases h
  | ok r =>
    rw [hread] at h
    have hstore := @storeHits_entry env r file now
    rcases hhits : r.storeHits env.toReadEnv now file with ⟨hits, scanned⟩
    have hfile : ∀ hit ∈ (if r.includeFiles then searchMemoryFiles env disk r else ([], 0)).1,
        ∃ path ∈ collectMemoryFiles env disk r.includeSurrounding,
          hit ∈ r.searchFile env disk path := by
      intro hit hmem
      split at hmem
      · exact List.mem_flatMap.mp hmem
      · cases hmem
    rcases hfiles : (if r.includeFiles then searchMemoryFiles env disk r else ([], 0)) with
      ⟨fileHits, filesScanned⟩
    rw [hhits] at hstore
    rw [hfiles] at hfile
    simp only [hhits, hfiles] at h
    obtain rfl := Except.ok.inj h
    have hmem := List.mem_mergeSort.mp (List.mem_of_mem_take hhit)
    rcases List.mem_append.mp hmem with hmem | hmem
    · obtain ⟨storeHit, hin, rfl⟩ := List.mem_map.mp hmem
      obtain ⟨entry, hlive, hscope, rfl⟩ := hstore hin
      exact .inl ⟨entry, hlive, hscope, rfl⟩
    · obtain ⟨fileHit, hin, rfl⟩ := List.mem_map.mp hmem
      obtain ⟨path, hpath, hrow⟩ := hfile fileHit hin
      obtain ⟨row, hline, rfl⟩ := searchFile_line hrow
      exact .inr ⟨path, hpath, row, hline, rfl⟩

section Get
variable {call : GetCall} {g : GetRequest} {contextLines : Int}

/-- The report of an entry has the fields of the entry, but for those that reinforcing it changes. -/
theorem report_fields (env : ReadEnv) (g : GetRequest) (now : String) (entry : MemoryStoreEntry) :
    g.report entry (if g.reinforce then reinforcedEntry env now entry else entry) = {
      ref := "store:" ++ entry.id
      id := entry.id
      title := entry.title
      content := (clipText entry.content g.maxChars.toNat).1
      truncated := (clipText entry.content g.maxChars.toNat).2
      tags := entry.tags
      createdAt := entry.createdAt
      updatedAt := if g.reinforce then now else entry.updatedAt
      lastAccessedAt := if g.reinforce then now else entry.lastAccessedAt
      reinforceCount :=
        if g.reinforce then min 10000 (entry.reinforceCount + 1) else entry.reinforceCount
      importance := entry.importance
      confidence := if g.reinforce then max MIN_CONFIDENCE (min 1 (env.recalledConfidence entry.confidence))
        else entry.confidence
      memorySource := entry.source
      memoryNamespace := entry.memoryNamespace
      trustTier := entry.trustTier
      reinforced := g.reinforce } := by
  cases hreinforce : g.reinforce <;> simp [GetRequest.report, reinforcedEntry, hreinforce]

/-- `memory_get` of the reference of an entry returns the entry. -/
theorem memoryGetRef_store {entry : MemoryStoreEntry}
    (hlive : entry ∈ loadStoreEntries env.toStore none file)
    (hscope : entryMatchesScope entry g.scope = true)
    (href : call.params.get? "ref" = some (.str ("store:" ++ entry.id)))
    (hid : call.params.get? "id" = none) (hget : readGet env.toReadEnv call.params = .ok g) :
    ∃ after, memoryGetRef env disk call file = .ok (.store (g.report entry
      (if g.reinforce then reinforcedEntry env.toReadEnv call.now entry else entry)), after) := by
  have hnorm := @loaded_normalized env.toWriteEnv file entry (loadStoreEntries_subset none file hlive)
  obtain ⟨hrefText, hidText⟩ := readGet_ref hget href hid
  have htarget : targetIdOf g.ref g.explicitId = entry.id := by
    rw [hrefText, hidText]
    exact targetIdOf_store hnorm.id
  have hfound := @findStoreEntryById_of_loaded env.toReadEnv file entry g.scope hlive hscope
  unfold memoryGetRef memoryGet
  simp only [hget, htarget, hnorm.id.2, if_false, hfound]
  exact ⟨_, rfl⟩

/-- `memory_get` of the reference of a line of a document returns the lines around it. -/
theorem memoryGetRef_document (hlaw : env.Lawful) {path : String} {lineIndex : Nat}
    (hdoc : Document env disk path)
    (hplain : ∀ c ∈ (relative env.processCwd env.workspaceDir path).toList,
      isLineTerminator c = false ∧ c ≠ '\\')
    (hmax : lineIndex + 1 ≤ 1000000)
    (href : call.params.get? "ref" = some (.str
      (fileRef (normalizeRelativePath env env.workspaceDir path) (lineIndex + 1))))
    (hid : call.params.get? "id" = none) (hpath : call.params.get? "path" = none)
    (hnoLine : call.params.get? "line" = none) (hget : readGet env.toReadEnv call.params = .ok g)
    (hcontext : clampInt env.rt (call.params.get? "contextLines") 0 20 DEFAULT_CONTEXT_LINES =
      .ok contextLines) :
    memoryGetRef env disk call file = .ok (.document
      (documentReport env disk path (lineIndex + 1 : Nat) contextLines g.maxChars), file) := by
  have hslash : '\\' ∉ (relative env.processCwd env.workspaceDir path).toList :=
    fun hmem => (hplain _ hmem).2 rfl
  have hname := (hdoc.path_in_workspace hlaw hslash).2
  obtain ⟨hne, hback⟩ := hdoc.leads_back hlaw hslash
  obtain ⟨hrefText, hidText⟩ := readGet_ref hget href hid
  rw [hname, trim_fileRef] at hrefText
  have htarget : targetIdOf g.ref g.explicitId = "" := by
    have hstore : textAfter "store:" g.ref = none := by
      rw [textAfter, if_neg]
      rw [hrefText, toList_fileRef]
      simp [List.isPrefixOf]
    have hempty : textAfter "store:" "" = none := rfl
    rw [targetIdOf, hidText, hempty, hstore]
    rfl
  have hrequest : readDocument env call.params g.ref =
      .ok ⟨relative env.processCwd env.workspaceDir path, (lineIndex + 1 : Nat)⟩ := by
    have hparse := parseFileRef_fileRef hlaw hne (hdoc.trimmed hlaw hslash)
      (fun c hc => (hplain c hc).1) (Nat.le_add_left 1 lineIndex) hmax
    have hclamp : clampInt env.rt (some (.num (.fin (((lineIndex + 1 : Nat) : Int) : ℚ)))) 1 1000000 1 =
        .ok ((lineIndex + 1 : Nat) : Int) := clampInt_stable (by omega) (by omega)
    have hpathText : trimmedText env.rt [call.params.get? "path",
        some (.str (relative env.processCwd env.workspaceDir path))] =
          .ok (relative env.processCwd env.workspaceDir path) := by
      rw [hpath]
      exact congrArg Except.ok (hdoc.trimmed hlaw hslash)
    unfold readDocument
    rw [hrefText, hparse]
    simp only [bind, Except.bind, pure, Except.pure, Option.map_some, Option.bind_some, hpathText,
      hnoLine, coalesce, hclamp]
  obtain ⟨info, hstat, hfile⟩ := hdoc.file
  unfold memoryGetRef memoryGet
  simp only [hget, htarget, if_true]
  unfold getDocument
  simp only [hcontext, hrequest, hne, hback, hdoc.source, hdoc.plain, hstat, hfile, if_false,
    Bool.not_true, Bool.false_eq_true]
  rfl

/-- The report of a line that the document has is centred on it. -/
theorem documentReport_line {path line : String} {lineIndex : Nat}
    (hline : (normalizeLineBreaks (disk.readFile path))[lineIndex]? = some line)
    (contextLines maxChars : Int) :
    documentReport env disk path (lineIndex + 1 : Nat) contextLines maxChars =
      { ref := fileRef (normalizeRelativePath env env.workspaceDir path) (lineIndex + 1)
        path := normalizeRelativePath env env.workspaceDir path
        lineStart := max 1 (lineIndex + 1 - contextLines)
        lineEnd := min (normalizeLineBreaks (disk.readFile path)).length (lineIndex + 1 + contextLines)
        content := (clipText (buildFileContextSnippet (normalizeLineBreaks (disk.readFile path))
          lineIndex contextLines.toNat) maxChars.toNat).1
        truncated := (clipText (buildFileContextSnippet (normalizeLineBreaks (disk.readFile path))
          lineIndex contextLines.toNat) maxChars.toNat).2 } := by
  have hlt := (List.getElem?_eq_some_iff.mp hline).1
  have hindex : max 0 (min (((normalizeLineBreaks (disk.readFile path)).length : Int) - 1)
      (((lineIndex + 1 : Nat) : Int) - 1)) = lineIndex := by omega
  unfold documentReport
  simp only [hindex, Int.toNat_natCast]

/-- Every reference that a search returns, passed to `memory_get` with the same scope, returns what
it stands for. -/
theorem search_refs_resolve (env : DocumentEnv) (hlaw : env.Lawful) (disk : Disk) {params : Value}
    {now : Int} {file : Option String} {report : SearchReport}
    (h : memorySearch env.toReadEnv (searchMemoryFiles env disk) now params file = .ok report)
    (hpaths : ∀ path ∈ collectMemoryFiles env disk report.request.includeSurrounding,
      ∀ c ∈ (relative env.processCwd env.workspaceDir path).toList,
        isLineTerminator c = false ∧ c ≠ '\\')
    {hit : MemorySearchHit} (hhit : hit ∈ report.results)
    (hlines : ∀ fileHit, hit = .file fileHit → fileHit.line ≤ 1000000)
    {call : GetCall} {g : GetRequest} {contextLines : Int}
    (href : call.params.get? "ref" = some (.str hit.ref)) (hid : call.params.get? "id" = none)
    (hpath : call.params.get? "path" = none) (hnoLine : call.params.get? "line" = none)
    (hget : readGet env.toReadEnv call.params = .ok g) (hscope : g.scope = report.request.scope)
    (hcontext : clampInt env.rt (call.params.get? "contextLines") 0 20 DEFAULT_CONTEXT_LINES =
      .ok contextLines) :
    ∃ outcome after, memoryGetRef env disk call file = .ok (outcome, after) ∧
      SameTarget env disk report.request now call g contextLines file hit outcome := by
  rcases memorySearch_hit h hhit with ⟨entry, hlive, hentry, rfl⟩ | ⟨path, hmem, row, hrow, rfl⟩
  · obtain ⟨after, hresult⟩ := @memoryGetRef_store env disk file call g entry hlive (hscope ▸ hentry)
      href hid hget
    refine ⟨_, after, hresult, ?_⟩
    rw [report_fields]
    exact .store entry hlive hentry
  · have hresult := @memoryGetRef_document env disk file call g contextLines hlaw path row.2
      (collectMemoryFiles_sound hlaw hmem) (hpaths path hmem) (hlines _ rfl) href hid hpath hnoLine
      hget hcontext
    rw [documentReport_line hrow] at hresult
    exact ⟨_, file, hresult, .document path row.1 row.2 _ _ hmem rfl rfl hrow⟩

end Get

end Resolve

section Example

/-- A workspace with one memory file, of one line. -/
def notesDisk : Disk where
  stat path := if path = "/w/MEMORY.md" then some ⟨true, 13⟩ else none
  readFile _ := "release notes"
  memory := none

def notesEnv (json : Js.Json) : DocumentEnv where
  toReadEnv := roomyEnv json 0
  processCwd := "/"
  workspaceOption := "/w"
  byLocale paths := paths
  byLocale_perm _ := List.Perm.refl _

theorem notesEnv_lawful (json : Js.Json) : (notesEnv json).Lawful where
  cwd := show isAbsolute "/" = true by decide
  decimal n _ := by
    simp only [notesEnv, roomyEnv, Js.asciiRuntime]
    exact Js.decimalNumber_toString n
  lower_head := Js.head?_asciiLower
  lower_last := Js.getLast?_asciiLower

/-- The hit that the search for `notes` has in the workspace. -/
def notesHit (env : DocumentEnv) : FileSearchHit :=
  (plainSearch "notes").fileHit env "MEMORY.md" ["release notes"] ("release notes", 0)

def notesEntry : MemoryStoreEntry := wordEntry ⟨"global", .unverified⟩ "notes" "."

/-- A store with one entry, which the search finds too. -/
def notesStore (env : DocumentEnv) : Option String := appendStoreEntry env.toWriteEnv none notesEntry

def refCall (ref : String) : GetCall where
  params := .obj [("ref", .str ref)]
  now := newYear
  now_trimmed := newYear_trimmed

def refRequest (ref : String) : GetRequest := ⟨12000, true, ⟨"global", .unverified⟩, ref, ""⟩

section Found

noncomputable def notesJson : Js.Json := Classical.choice Js.json_nonempty

theorem notesStore_entries :
    loadStoreEntries (notesEnv notesJson).toStore none (notesStore (notesEnv notesJson)) = [notesEntry] :=
  @loadStoreEntries_one (notesEnv notesJson).toReadEnv _
    (wordEntry_normalized (by decide) (by decide) (by decide))

theorem notes_files : collectMemoryFiles (notesEnv notesJson) notesDisk true = ["/w/MEMORY.md"] := by
  decide +kernel

theorem notes_documents : searchMemoryFiles (notesEnv notesJson) notesDisk (plainSearch "notes") =
    ([notesHit (notesEnv notesJson)], 1) := by
  have hlines : normalizeLineBreaks (notesDisk.readFile "/w/MEMORY.md") = ["release notes"] := by
    decide +kernel
  have hmatches : ["release notes"].zipIdx.filter ((plainSearch "notes").matchesLine
      (notesEnv notesJson)) = [("release notes", 0)] := by decide +kernel
  have hname : normalizeRelativePath (notesEnv notesJson) (notesEnv notesJson).workspaceDir "/w/MEMORY.md" =
      "MEMORY.md" := by decide +kernel
  have hsearch : (plainSearch "notes").searchFile (notesEnv notesJson) notesDisk "/w/MEMORY.md" =
      [notesHit (notesEnv notesJson)] := by
    have hstat : notesDisk.stat "/w/MEMORY.md" = some ⟨true, 13⟩ := by
      simp only [notesDisk, if_true]
    unfold SearchRequest.searchFile
    rw [hstat]
    dsimp only
    rw [if_neg (by decide), hlines, hname, SearchRequest.perFileMatches, hmatches,
      List.mergeSort_singleton]
    rfl
  rw [searchMemoryFiles]
  rw [show (plainSearch "notes").includeSurrounding = true from rfl, notes_files]
  simp [hsearch]

theorem notes_storeHits :
    (plainSearch "notes").storeHits (notesEnv notesJson).toReadEnv 0 (notesStore (notesEnv notesJson)) =
      ([(plainSearch "notes").hit (notesEnv notesJson).toReadEnv 0 notesEntry], 1) := by
  have hfinds : (plainSearch "notes").finds (notesEnv notesJson).toReadEnv notesEntry = true := by
    decide +kernel
  have hscope : entryMatchesScope notesEntry (plainSearch "notes").scope = true := by decide
  unfold SearchRequest.storeHits SearchRequest.searchStoreEntries
  rw [if_pos (show (plainSearch "notes").includeStore = true from rfl), notesStore_entries]
  simp [hfinds, hscope]

/-- The search has both hits. -/
theorem notes_report : ∃ report, memorySearch (notesEnv notesJson).toReadEnv
      (searchMemoryFiles (notesEnv notesJson) notesDisk) 0 (queryParams "notes")
      (notesStore (notesEnv notesJson)) = .ok report ∧
    report.request = plainSearch "notes" ∧ .file (notesHit (notesEnv notesJson)) ∈ report.results ∧
    .store ((plainSearch "notes").hit (notesEnv notesJson).toReadEnv 0 notesEntry) ∈ report.results := by
  have hread : readSearch (notesEnv notesJson).toReadEnv (queryParams "notes") = .ok (plainSearch "notes") := rfl
  unfold memorySearch
  rw [hread]
  dsimp only
  rw [if_pos (show (plainSearch "notes").includeFiles = true from rfl), notes_documents, notes_storeHits]
  have htake : ∀ hits : List MemorySearchHit, hits.length ≤ 8 → ∀ hit ∈ hits,
      hit ∈ (hits.mergeSort fun a b => decide (b.score ≤ a.score)).take (plainSearch "notes").limit.toNat := by
    intro hits hlength hit hmem
    change hit ∈ List.take 8 _
    rw [List.take_of_length_le ((List.length_mergeSort hits).trans_le hlength)]
    exact List.mem_mergeSort.mpr hmem
  exact ⟨_, rfl, rfl, htake _ (by simp) _ (by simp), htake _ (by simp) _ (by simp)⟩

end Found

/-- The line of the document and the entry of the store are both got back by their references. -/
theorem search_refs_resolve_notes :
    ∃ json report, memorySearch (notesEnv json).toReadEnv (searchMemoryFiles (notesEnv json) notesDisk) 0
        (queryParams "notes") (notesStore (notesEnv json)) = .ok report ∧
      ∀ hit, hit = .file (notesHit (notesEnv json)) ∨
          hit = .store ((plainSearch "notes").hit (notesEnv json).toReadEnv 0 notesEntry) →
        ∃ outcome after, memoryGetRef (notesEnv json) notesDisk (refCall hit.ref)
            (notesStore (notesEnv json)) = .ok (outcome, after) ∧
          SameTarget (notesEnv json) notesDisk report.request 0 (refCall hit.ref) (refRequest hit.ref) 3
            (notesStore (notesEnv json)) hit outcome := by
  obtain ⟨report, hreport, hrequest, hfile, hstore⟩ := notes_report
  refine ⟨notesJson, report, hreport, fun hit hhit => ?_⟩
  have hplain : ∀ c ∈ (relative (notesEnv notesJson).processCwd (notesEnv notesJson).workspaceDir
      "/w/MEMORY.md").toList, isLineTerminator c = false ∧ c ≠ '\\' := by decide +kernel
  have hpaths : ∀ path ∈ collectMemoryFiles (notesEnv notesJson) notesDisk report.request.includeSurrounding,
      ∀ c ∈ (relative (notesEnv notesJson).processCwd (notesEnv notesJson).workspaceDir path).toList,
        isLineTerminator c = false ∧ c ≠ '\\' := by
    intro path hpath
    rw [hrequest, show (plainSearch "notes").includeSurrounding = true from rfl, notes_files] at hpath
    obtain rfl := List.mem_singleton.mp hpath
    exact hplain
  have hmem : hit ∈ report.results := by
    rcases hhit with rfl | rfl
    · exact hfile
    · exact hstore
  have hlines : ∀ fileHit, hit = .file fileHit → fileHit.line ≤ 1000000 := by
    rcases hhit with rfl | rfl
    · rintro _ ⟨⟩
      decide
    · rintro _ ⟨⟩
  have hget : readGet (notesEnv notesJson).toReadEnv (refCall hit.ref).params =
      .ok (refRequest (trim hit.ref)) := rfl
  have htrim : trim hit.ref = hit.ref := by
    rcases hhit with rfl | rfl
    · decide +kernel
    · decide +kernel
  rw [htrim] at hget
  exact search_refs_resolve (notesEnv notesJson) (notesEnv_lawful notesJson) notesDisk hreport hpaths hmem hlines
    rfl rfl rfl rfl hget (by rw [hrequest]; rfl) rfl

end Example

end T560.Memory
