import T560.Channels.Pairing
import T560.Js.Text

/-! The tool policies: names and groups, profiles, and `alsoAllow`. -/
namespace T560.Tools

open Js
open Channels (OBJECT_NAMES)

structure ToolPolicyLike where
  allow : Option (List String) := none
  deny : Option (List String) := none

/-- What a lookup in a plain object leaves of a name: a text, or the property of that name that
every object has. -/
inductive ToolName where
  | text (s : String)
  | inherited (property : String)
  deriving DecidableEq

def TOOL_NAME_ALIASES : List (String × String) :=
  [("bash", "exec"), ("apply-patch", "apply_patch")]

def TOOL_GROUPS : List (String × List String) :=
  [("group:fs", ["read", "write", "edit", "ls", "find", "exists"]),
    ("group:runtime", ["exec", "process"]),
    ("group:email", ["email"]),
    ("group:messaging", ["message", "sessions_send", "email"]),
    ("group:web", ["web_search", "web_fetch"]),
    ("group:memory", ["memory_search", "memory_get", "memory_save", "memory_delete", "memory_list",
      "memory_prune", "memory_feedback", "memory_stats", "memory_compact"]),
    ("group:ui", ["browser"]),
    ("group:t560", ["exec", "process", "browser", "email", "web_search", "web_fetch",
      "memory_search", "memory_get", "memory_save", "memory_delete", "memory_list",
      "memory_prune", "memory_feedback", "memory_stats", "memory_compact"])]

def TOOL_PROFILES : List (String × ToolPolicyLike) :=
  [("minimal", { allow := some ["process"] }),
    ("coding", { allow := some ["group:runtime", "group:fs", "group:web", "group:memory",
      "group:ui", "group:email"] }),
    ("messaging", { allow := some ["group:messaging", "process"] }),
    ("full", {})]

section Names
variable (rt : Runtime)

def normalizeToolName (name : String) : ToolName :=
  let normalized := rt.toLowerCase (trim name)
  match TOOL_NAME_ALIASES.lookup normalized with
  | some other => .text other
  | none => if normalized ∈ OBJECT_NAMES then .inherited normalized else .text normalized

def normalizeToolList (list : Option (List String)) : List ToolName :=
  ((list.getD []).map (normalizeToolName rt)).filter (· ≠ .text "")

/-- `TOOL_GROUPS[item]`, or the item. No text names an inherited property once it is normalized, and
nothing is found under what is not a text. -/
def expandItem : ToolName → List ToolName
  | .text s =>
    match TOOL_GROUPS.lookup s with
    | some group => group.map .text
    | none => [.text s]
  | .inherited property => [.inherited property]

def expandToolGroups (list : Option (List String)) : List ToolName :=
  ((normalizeToolList rt list).flatMap expandItem).eraseDups

/-- An unknown profile has no policy; what every object answers to has no lists. -/
def resolveToolProfilePolicy (profile : Option String) : Option ToolPolicyLike :=
  match profile with
  | none | some "" => none
  | some profile =>
    let normalized := rt.toLowerCase (trim profile)
    (TOOL_PROFILES.lookup normalized).or (if normalized ∈ OBJECT_NAMES then some {} else none)

end Names

def mergeAlsoAllowPolicy (policy : Option ToolPolicyLike) (alsoAllow : Option (List String)) :
    Option ToolPolicyLike :=
  if policy.isNone ∧ alsoAllow.getD [] = [] then none
  else
    let allow := (policy.bind (·.allow)).getD [] ++ alsoAllow.getD []
    some {
      allow := if allow ≠ [] then some allow else none
      deny := policy.bind (·.deny) }

/-- What is not a text has neither `endsWith` nor `startsWith`. -/
def matchToolPattern (toolName : ToolName) : ToolName → Except JsError Bool
  | .inherited _ => .error .typeError
  | .text pattern =>
    if pattern = "*" then .ok true
    else if pattern.toList.getLast? = some '*' then
      match toolName with
      | .text name => .ok (pattern.toList.dropLast.isPrefixOf name.toList)
      | .inherited _ => .error .typeError
    else .ok (toolName = .text pattern)

def isToolAllowedByPolicy (rt : Runtime) (toolName : String) (policy : Option ToolPolicyLike) :
    Except JsError Bool := do
  match policy with
  | none => return true
  | some policy =>
    let normalized := normalizeToolName rt toolName
    if ← (expandToolGroups rt policy.deny).anyM (matchToolPattern normalized) then
      return false
    let allow := expandToolGroups rt policy.allow
    if allow = [] then return true
    allow.anyM (matchToolPattern normalized)

section FirstHit
variable {α ε : Type} {test : α → Except ε Bool} {x : α} {xs ys : List α}

/-- In front of everything that cannot be tested stands a hit. -/
def Unobstructed (test : α → Except ε Bool) (xs : List α) : Prop :=
  ∀ before x after e, xs = before ++ x :: after → test x = .error e →
    ∃ y ∈ before, test y = .ok true

theorem anyM_cons_of_hit (h : test x = .ok true) : (x :: xs).anyM test = .ok true := by
  rw [List.anyM_cons, h]
  rfl

theorem anyM_cons_of_miss (h : test x = .ok false) : (x :: xs).anyM test = xs.anyM test := by
  rw [List.anyM_cons, h]
  rfl

theorem anyM_cons_of_error {e : ε} (h : test x = .error e) :
    (x :: xs).anyM test = .error e := by
  rw [List.anyM_cons, h]
  rfl

theorem unobstructed_cons_of_hit (h : test x = .ok true) : Unobstructed test (x :: xs) := by
  intro before z after e hsplit herror
  cases before with
  | nil =>
    obtain ⟨rfl, -⟩ := List.cons.inj hsplit
    rw [h] at herror
    cases herror
  | cons y before =>
    obtain ⟨rfl, -⟩ := List.cons.inj hsplit
    exact ⟨x, List.mem_cons_self, h⟩

theorem unobstructed_cons_of_miss (h : test x = .ok false) :
    Unobstructed test (x :: xs) ↔ Unobstructed test xs := by
  constructor
  · intro hun before z after e hsplit herror
    obtain ⟨y, hy, hhit⟩ := hun (x :: before) z after e (by rw [hsplit]; rfl) herror
    rcases List.mem_cons.mp hy with rfl | hy
    · rw [h] at hhit
      cases hhit
    · exact ⟨y, hy, hhit⟩
  · intro hun before z after e hsplit herror
    cases before with
    | nil =>
      obtain ⟨rfl, -⟩ := List.cons.inj hsplit
      rw [h] at herror
      cases herror
    | cons y before =>
      obtain ⟨rfl, hrest⟩ := List.cons.inj hsplit
      obtain ⟨y, hy, hhit⟩ := hun before z after e hrest herror
      exact ⟨y, List.mem_cons_of_mem _ hy, hhit⟩

/-- `some` gives `true` when there is a hit and no error in front of the first one. -/
theorem anyM_eq_true_iff :
    xs.anyM test = .ok true ↔ (∃ x ∈ xs, test x = .ok true) ∧ Unobstructed test xs := by
  induction xs with
  | nil =>
    constructor
    · intro h
      cases h
    · rintro ⟨⟨x, hx, -⟩, -⟩
      cases hx
  | cons x xs ih =>
    cases htest : test x with
    | error e =>
      rw [anyM_cons_of_error htest]
      constructor
      · intro h
        cases h
      · rintro ⟨-, hun⟩
        obtain ⟨y, hy, -⟩ := hun [] x xs e rfl htest
        cases hy
    | ok hit =>
      cases hit with
      | true =>
        have hany : ∃ y ∈ x :: xs, test y = .ok true := ⟨x, List.mem_cons_self, htest⟩
        simp only [anyM_cons_of_hit htest, hany, unobstructed_cons_of_hit htest, and_self]
      | false =>
        have hany : (∃ y ∈ x :: xs, test y = .ok true) ↔ ∃ y ∈ xs, test y = .ok true := by
          simp [htest]
        rw [anyM_cons_of_miss htest, ih, hany, unobstructed_cons_of_miss htest]

/-- What is found is found in every longer list. -/
theorem anyM_append_of_true (h : xs.anyM test = .ok true) : (xs ++ ys).anyM test = .ok true := by
  induction xs with
  | nil => cases h
  | cons x xs ih =>
    cases htest : test x with
    | error e =>
      rw [anyM_cons_of_error htest] at h
      cases h
    | ok hit =>
      cases hit with
      | true => exact anyM_cons_of_hit htest
      | false =>
        rw [anyM_cons_of_miss htest] at h
        rw [List.cons_append, anyM_cons_of_miss htest]
        exact ih h

end FirstHit

section Merge
variable {rt : Runtime} {policy : Option ToolPolicyLike} {alsoAllow : Option (List String)}
  {toolName : String}

/-- The texts of the merged allow list. -/
def mergedAllow (policy : Option ToolPolicyLike) (alsoAllow : Option (List String)) :
    List String :=
  (policy.bind (·.allow)).getD [] ++ alsoAllow.getD []

/-- Some entry of the list, or of a group in it, names the tool. -/
def Names (rt : Runtime) (list : Option (List String)) (toolName : String) : Prop :=
  ∃ entry ∈ expandToolGroups rt list,
    matchToolPattern (normalizeToolName rt toolName) entry = .ok true

/-- The deny list is read to its end, and no entry names the tool. -/
def NotDenied (rt : Runtime) (policy : Option ToolPolicyLike) (toolName : String) : Prop :=
  (expandToolGroups rt (policy.bind (·.deny))).anyM
    (matchToolPattern (normalizeToolName rt toolName)) = .ok false

/-- Everything is allowed that is not denied. -/
def Unlisted (rt : Runtime) (list : Option (List String)) : Prop := expandToolGroups rt list = []

theorem allowed_iff :
    isToolAllowedByPolicy rt toolName policy = .ok true ↔
      NotDenied rt policy toolName ∧
        (Unlisted rt (policy.bind (·.allow)) ∨
          (expandToolGroups rt (policy.bind (·.allow))).anyM
            (matchToolPattern (normalizeToolName rt toolName)) = .ok true) := by
  cases policy with
  | none => exact ⟨fun _ => ⟨rfl, .inl rfl⟩, fun _ => rfl⟩
  | some policy =>
    simp only [isToolAllowedByPolicy, NotDenied, Unlisted, Option.bind_some]
    cases hdeny : (expandToolGroups rt policy.deny).anyM
        (matchToolPattern (normalizeToolName rt toolName)) with
    | error e =>
      constructor
      · intro h
        cases h
      · rintro ⟨h, -⟩
        cases h
    | ok denied =>
      cases denied with
      | true =>
        constructor
        · intro h
          cases h
        · rintro ⟨h, -⟩
          cases h
      | false =>
        by_cases hnil : expandToolGroups rt policy.allow = []
        · rw [hnil]
          exact ⟨fun _ => ⟨rfl, .inl rfl⟩, fun _ => rfl⟩
        · simp [ok_bind, hnil]

theorem deny_merge :
    (mergeAlsoAllowPolicy policy alsoAllow).bind (·.deny) = policy.bind (·.deny) := by
  unfold mergeAlsoAllowPolicy
  split
  · rename_i hnone
    rw [Option.isNone_iff_eq_none.mp hnone.1, Option.bind_none]
  · rw [Option.bind_some]

theorem expand_merge :
    expandToolGroups rt ((mergeAlsoAllowPolicy policy alsoAllow).bind (·.allow)) =
      expandToolGroups rt (some (mergedAllow policy alsoAllow)) := by
  unfold mergeAlsoAllowPolicy
  split
  · rename_i hnone
    rw [mergedAllow, Option.isNone_iff_eq_none.mp hnone.1, hnone.2]
    rfl
  · change expandToolGroups rt (if mergedAllow policy alsoAllow ≠ [] then
      some (mergedAllow policy alsoAllow) else none) = _
    split
    · rfl
    · rename_i hnil
      rw [not_not.mp hnil]
      rfl

/-- The merged list names what the two lists name, the policy's entries first. -/
theorem expand_append (list more : List String) :
    ∃ rest, expandToolGroups rt (some (list ++ more)) = expandToolGroups rt (some list) ++ rest ∧
      ∀ entry, entry ∈ expandToolGroups rt (some (list ++ more)) ↔
        entry ∈ expandToolGroups rt (some list) ∨ entry ∈ expandToolGroups rt (some more) := by
  have happ : (normalizeToolList rt (some (list ++ more))).flatMap expandItem =
      (normalizeToolList rt (some list)).flatMap expandItem ++
        (normalizeToolList rt (some more)).flatMap expandItem := by
    simp [normalizeToolList]
  refine ⟨(((normalizeToolList rt (some more)).flatMap expandItem).removeAll
    ((normalizeToolList rt (some list)).flatMap expandItem)).eraseDups, ?_, ?_⟩
  · rw [expandToolGroups, happ, List.eraseDups_append, expandToolGroups]
  · intro entry
    simp only [expandToolGroups, List.mem_eraseDups, happ, List.mem_append]

theorem expand_getD (list : Option (List String)) :
    expandToolGroups rt (some (list.getD [])) = expandToolGroups rt list := by
  cases list <;> rfl

theorem names_merged_iff :
    Names rt (some (mergedAllow policy alsoAllow)) toolName ↔
      Names rt (policy.bind (·.allow)) toolName ∨ Names rt alsoAllow toolName := by
  obtain ⟨-, -, hmem⟩ := @expand_append rt ((policy.bind (·.allow)).getD []) (alsoAllow.getD [])
  simp only [Names, mergedAllow, hmem, expand_getD]
  constructor
  · rintro ⟨entry, hentry | hentry, hhit⟩
    · exact .inl ⟨entry, hentry, hhit⟩
    · exact .inr ⟨entry, hentry, hhit⟩
  · rintro (⟨entry, hentry, hhit⟩ | ⟨entry, hentry, hhit⟩)
    · exact ⟨entry, .inl hentry, hhit⟩
    · exact ⟨entry, .inr hentry, hhit⟩

theorem unlisted_merged_iff :
    Unlisted rt (some (mergedAllow policy alsoAllow)) ↔
      Unlisted rt (policy.bind (·.allow)) ∧ Unlisted rt alsoAllow := by
  obtain ⟨-, -, hmem⟩ := @expand_append rt ((policy.bind (·.allow)).getD []) (alsoAllow.getD [])
  simp only [Unlisted, mergedAllow, List.eq_nil_iff_forall_not_mem, hmem, expand_getD, not_or,
    forall_and]

/-- No comparison on the way to the first entry that names the tool throws. -/
def Reachable (rt : Runtime) (list : List String) (toolName : String) : Prop :=
  Unobstructed (matchToolPattern (normalizeToolName rt toolName)) (expandToolGroups rt (some list))

theorem merged_allowed_iff :
    isToolAllowedByPolicy rt toolName (mergeAlsoAllowPolicy policy alsoAllow) = .ok true ↔
      NotDenied rt policy toolName ∧
        (Unlisted rt (policy.bind (·.allow)) ∧ Unlisted rt alsoAllow ∨
          (Names rt (policy.bind (·.allow)) toolName ∨ Names rt alsoAllow toolName) ∧
            Reachable rt (mergedAllow policy alsoAllow) toolName) := by
  rw [allowed_iff, NotDenied, deny_merge, Unlisted, expand_merge, anyM_eq_true_iff]
  exact and_congr_right' (or_congr unlisted_merged_iff (and_congr_left' names_merged_iff))

/-- An allow list with entries only grows. -/
theorem allowed_of_listed (hlisted : ¬ Unlisted rt (policy.bind (·.allow)))
    (h : isToolAllowedByPolicy rt toolName policy = .ok true) :
    isToolAllowedByPolicy rt toolName (mergeAlsoAllowPolicy policy alsoAllow) = .ok true := by
  obtain ⟨hdeny, hallow⟩ := allowed_iff.mp h
  rcases hallow with hnil | hallow
  · exact absurd hnil hlisted
  obtain ⟨rest, hrest, -⟩ := @expand_append rt ((policy.bind (·.allow)).getD [])
    (alsoAllow.getD [])
  rw [expand_getD] at hrest
  rw [allowed_iff, NotDenied, deny_merge, expand_merge, mergedAllow, hrest]
  exact ⟨hdeny, .inr (anyM_append_of_true hallow)⟩

/-- A comparison throws at what is not a text: at such an entry, or at such a name when the entry
ends in a star. -/
theorem matchToolPattern_error_iff {name entry : ToolName} :
    (∃ e, matchToolPattern name entry = .error e) ↔
      (∃ property, entry = .inherited property) ∨
        (∃ property, name = .inherited property) ∧
          ∃ s, entry = .text s ∧ s ≠ "*" ∧ s.toList.getLast? = some '*' := by
  have : Nonempty JsError := ⟨.typeError⟩
  cases entry with
  | inherited property => simp [matchToolPattern]
  | text s =>
    by_cases hany : s = "*"
    · simp [matchToolPattern, hany]
    · by_cases hstar : s.toList.getLast? = some '*'
      · cases name with
        | text t => simp [matchToolPattern, hany, hstar]
        | inherited property => simp [matchToolPattern, hany, hstar]
      · simp [matchToolPattern, hany, hstar]

theorem mem_of_normalizeToolName_inherited {name property : String}
    (h : normalizeToolName rt name = .inherited property) :
    rt.toLowerCase (trim name) ∈ OBJECT_NAMES := by
  unfold normalizeToolName at h
  dsimp only at h
  split at h
  · cases h
  · split at h
    · assumption
    · cases h

theorem mem_of_inherited {list : List String} {property : String}
    (h : .inherited property ∈ expandToolGroups rt (some list)) :
    ∃ item ∈ list, rt.toLowerCase (trim item) ∈ OBJECT_NAMES := by
  rw [expandToolGroups, List.mem_eraseDups, List.mem_flatMap] at h
  obtain ⟨name, hname, hentry⟩ := h
  rw [normalizeToolList, List.mem_filter, List.mem_map] at hname
  obtain ⟨⟨item, hitem, rfl⟩, -⟩ := hname
  refine ⟨item, hitem, ?_⟩
  cases hnormal : normalizeToolName rt item with
  | inherited other => exact mem_of_normalizeToolName_inherited hnormal
  | text s =>
    rw [hnormal, expandItem] at hentry
    split at hentry <;> simp at hentry

/-- Without the names that every object answers to nothing stands in the way. -/
theorem reachable_of_plain {list : List String}
    (hlist : ∀ item ∈ list, rt.toLowerCase (trim item) ∉ OBJECT_NAMES)
    (hname : rt.toLowerCase (trim toolName) ∉ OBJECT_NAMES) : Reachable rt list toolName := by
  intro before entry after e hsplit herror
  rcases matchToolPattern_error_iff.mp ⟨e, herror⟩ with ⟨property, rfl⟩ | ⟨⟨property, hinherited⟩, -⟩
  · have hmem : .inherited property ∈ expandToolGroups rt (some list) := by
      rw [hsplit]
      exact List.mem_append_right _ List.mem_cons_self
    obtain ⟨item, hitem, hobject⟩ := mem_of_inherited hmem
    exact absurd hobject (hlist item hitem)
  · exact absurd (mem_of_normalizeToolName_inherited hinherited) hname

theorem expandItem_ne_nil (name : ToolName) : expandItem name ≠ [] := by
  have hgroups : ∀ entry ∈ TOOL_GROUPS, entry.2 ≠ [] := by decide
  cases name with
  | inherited property => simp [expandItem]
  | text s =>
    rw [expandItem]
    split
    · rename_i group hgroup
      intro hnil
      rw [List.map_eq_nil_iff] at hnil
      exact hgroups _ (PropertyMap.mem_of_lookup hgroup) hnil
    · simp

/-- A list names nothing when all its entries are blank. -/
theorem unlisted_iff {list : List String} :
    Unlisted rt (some list) ↔ ∀ item ∈ list, normalizeToolName rt item = .text "" := by
  rw [Unlisted, List.eq_nil_iff_forall_not_mem]
  constructor
  · intro h item hitem
    by_contra hname
    obtain ⟨entry, hentry⟩ := List.exists_mem_of_ne_nil _ (expandItem_ne_nil (normalizeToolName rt item))
    apply h entry
    rw [expandToolGroups, List.mem_eraseDups, List.mem_flatMap]
    exact ⟨_, List.mem_filter.mpr ⟨List.mem_map_of_mem hitem, by simpa using hname⟩, hentry⟩
  · intro h entry hentry
    rw [expandToolGroups, List.mem_eraseDups, List.mem_flatMap] at hentry
    obtain ⟨name, hname, -⟩ := hentry
    rw [normalizeToolList, List.mem_filter, List.mem_map] at hname
    obtain ⟨⟨item, hitem, rfl⟩, hne⟩ := hname
    exact absurd (h item hitem) (by simpa using hne)

/-- `alsoAllow` adds to every profile that has a list. -/
theorem listed_of_profile {profile : Option String} {list : List String}
    (h : (resolveToolProfilePolicy rt profile).bind (·.allow) = some list) :
    ¬ Unlisted rt (some list) := by
  have hplain : ∀ name ∈ ["process", "group:runtime", "group:messaging"],
      trim name = name ∧ name.toList.all isAscii = true ∧
        String.ofList (name.toList.map Char.toLower) = name ∧
        TOOL_NAME_ALIASES.lookup name = none ∧ name ∉ OBJECT_NAMES ∧ name ≠ "" := by decide
  have hlists : ∀ entry ∈ TOOL_PROFILES, ∀ list ∈ entry.2.allow,
      ∃ name ∈ ["process", "group:runtime", "group:messaging"], name ∈ list := by
    decide
  have hentry : ∃ entry ∈ TOOL_PROFILES, list ∈ entry.2.allow := by
    unfold resolveToolProfilePolicy at h
    split at h
    · cases h
    · cases h
    · dsimp only at h
      cases hlookup : TOOL_PROFILES.lookup (rt.toLowerCase (trim _)) with
      | none =>
        rw [hlookup, Option.none_or] at h
        split at h <;> cases h
      | some policy =>
        rw [hlookup] at h
        exact ⟨_, PropertyMap.mem_of_lookup hlookup, h⟩
  obtain ⟨entry, hmem, hlist⟩ := hentry
  obtain ⟨name, hname, hin⟩ := hlists entry hmem list hlist
  obtain ⟨htrim, hascii, hlower, hlookup, hobject, hne⟩ := hplain name hname
  have hnormal : normalizeToolName rt name = .text name := by
    rw [normalizeToolName, htrim, rt.lower_ascii name hascii, hlower, hlookup]
    exact if_neg hobject
  intro hnil
  have hblank := unlisted_iff.mp hnil name hin
  rw [hnormal] at hblank
  exact hne (ToolName.text.inj hblank)

theorem alsoAllow_only_adds_iff (rt : Runtime) (policy : Option ToolPolicyLike)
    (alsoAllow : Option (List String)) (toolName : String) :
    ((isToolAllowedByPolicy rt toolName policy = .ok true →
          isToolAllowedByPolicy rt toolName (mergeAlsoAllowPolicy policy alsoAllow) = .ok true) ∧
        (Names rt alsoAllow toolName → NotDenied rt policy toolName →
          isToolAllowedByPolicy rt toolName (mergeAlsoAllowPolicy policy alsoAllow) = .ok true)) ↔
      (NotDenied rt policy toolName →
        (Unlisted rt (policy.bind (·.allow)) →
          Unlisted rt alsoAllow ∨ Names rt alsoAllow toolName) ∧
        (Names rt alsoAllow toolName → Reachable rt (mergedAllow policy alsoAllow) toolName)) := by
  constructor
  · rintro ⟨hkeeps, hadds⟩ hdeny
    constructor
    · intro hnil
      have hallowed := hkeeps (allowed_iff.mpr ⟨hdeny, .inl hnil⟩)
      rcases (merged_allowed_iff.mp hallowed).2 with ⟨-, hnone⟩ | ⟨hnamed | hnamed, -⟩
      · exact .inl hnone
      · obtain ⟨entry, hentry, -⟩ := hnamed
        rw [hnil] at hentry
        cases hentry
      · exact .inr hnamed
    · intro hnamed
      rcases (merged_allowed_iff.mp (hadds hnamed hdeny)).2 with ⟨-, hnone⟩ | ⟨-, hreach⟩
      · obtain ⟨entry, hentry, -⟩ := hnamed
        rw [hnone] at hentry
        cases hentry
      · exact hreach
  · intro h
    constructor
    · intro hallowed
      by_cases hnil : Unlisted rt (policy.bind (·.allow))
      · have hdeny := (allowed_iff.mp hallowed).1
        obtain ⟨hopen, hreach⟩ := h hdeny
        rcases hopen hnil with hnone | hnamed
        · exact merged_allowed_iff.mpr ⟨hdeny, .inl ⟨hnil, hnone⟩⟩
        · exact merged_allowed_iff.mpr ⟨hdeny, .inr ⟨.inr hnamed, hreach hnamed⟩⟩
      · exact allowed_of_listed hnil hallowed
    · intro hnamed hdeny
      exact merged_allowed_iff.mpr ⟨hdeny, .inr ⟨.inr hnamed, (h hdeny).2 hnamed⟩⟩

/-- The profile that allows everything allows only `email` once `email` is allowed also. -/
theorem alsoAllow_closes_full_profile :
    ¬ ∀ (rt : Runtime) (policy : Option ToolPolicyLike) (alsoAllow : Option (List String))
      (toolName : String), isToolAllowedByPolicy rt toolName policy = .ok true →
        isToolAllowedByPolicy rt toolName (mergeAlsoAllowPolicy policy alsoAllow) = .ok true := by
  intro h
  have hfull : isToolAllowedByPolicy asciiRuntime "read"
      (resolveToolProfilePolicy asciiRuntime (some "full")) = .ok true := by decide
  have hclosed : isToolAllowedByPolicy asciiRuntime "read"
      (mergeAlsoAllowPolicy (resolveToolProfilePolicy asciiRuntime (some "full"))
        (some ["email"])) = .ok false := by decide
  have hopen := h asciiRuntime _ (some ["email"]) "read" hfull
  rw [hclosed] at hopen
  cases hopen

end Merge

end T560.Tools
