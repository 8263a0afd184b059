import T560.Browser.Forms

/-!
# The payload of a form

A row holds one value for a name, so fields of one name are all sent with the value of the last of
them, and filling one of them fills all. A field named `__proto__` has no place in a row.
-/

namespace T560.Browser

open Js (Runtime PropertyMap trim)

variable {rt : Runtime} {links : List BrowserLink} {forms : List BrowserForm} {form other : BrowserForm}
  {fields : List BrowserFormField} {field : BrowserFormField} {name value : String} {k : Nat}

/-- What the parser gives: forms counted from 1, and fields with names. -/
structure ParsedForms (forms : List BrowserForm) : Prop where
  indexed : forms.map BrowserForm.index = List.range' 1 forms.length
  named : ∀ form ∈ forms, ∀ field ∈ form.fields, field.name ≠ ""

/-- The value of the last field with the name. -/
def lastValue (name : String) : List BrowserFormField → Option String
  | [] => none
  | field :: rest => (lastValue name rest).or (if field.name = name then some field.value else none)

/-- What the fields of a name are sent with. -/
def sentValue (fields : List BrowserFormField) (name : String) : String :=
  if name = "__proto__" then "[object Object]" else (lastValue name fields).getD ""

section Rows

theorem lastValue_isSome (h : field ∈ fields) : (lastValue field.name fields).isSome = true := by
  induction fields with
  | nil => cases h
  | cons first rest ih =>
    rw [lastValue, Option.isSome_or]
    rcases List.mem_cons.mp h with rfl | h
    · simp
    · rw [ih h, Bool.true_or]

theorem lookup_foldl_put (row : PropertyMap String) (hname : name ≠ "__proto__") :
    (fields.foldl (fun row field => row.put field.name field.value) row).lookup name =
      (lastValue name fields).or (row.lookup name) := by
  induction fields generalizing row with
  | nil => rfl
  | cons field rest ih =>
    rw [List.foldl_cons, ih, lastValue, Option.or_assoc]
    congr 1
    by_cases hproto : field.name = "__proto__"
    · rw [if_neg (by rw [hproto]; exact Ne.symm hname), PropertyMap.put, if_pos hproto]
      rfl
    · rw [PropertyMap.lookup_put hproto]
      by_cases hsame : field.name = name
      · simp [hsame]
      · simp [hsame, Ne.symm hsame]

theorem lookup_proto_put {row : PropertyMap String} (h : row.lookup "__proto__" = none) :
    (row.put name value).lookup "__proto__" = none := by
  by_cases hproto : name = "__proto__"
  · rw [PropertyMap.put, if_pos hproto, h]
  · rw [PropertyMap.lookup_put hproto, if_neg (Ne.symm hproto), h]

theorem lookup_proto_foldl {row : PropertyMap String} (h : row.lookup "__proto__" = none) :
    (fields.foldl (fun row field => row.put field.name field.value) row).lookup "__proto__" = none := by
  induction fields generalizing row with
  | nil => exact h
  | cons field rest ih => exact ih (lookup_proto_put h)

theorem readRow_defaultRow (h : field ∈ fields) :
    readRow (defaultRow fields) field.name = some (sentValue fields field.name) := by
  unfold readRow sentValue defaultRow
  by_cases hproto : field.name = "__proto__"
  · rw [hproto, lookup_proto_foldl rfl, if_pos rfl]
    rfl
  · obtain ⟨v, hv⟩ := Option.isSome_iff_exists.mp (lastValue_isSome h)
    rw [lookup_foldl_put [] hproto, if_neg hproto, hv]
    rfl

/-- A row after a fill. -/
theorem readRow_put (h : field ∈ fields) :
    readRow ((defaultRow fields).put name value) field.name =
      some (if field.name = name ∧ name ≠ "__proto__" then value else sentValue fields field.name) := by
  by_cases hproto : name = "__proto__"
  · rw [PropertyMap.put, if_pos hproto, readRow_defaultRow h]
    simp [hproto]
  · unfold readRow
    rw [PropertyMap.lookup_put hproto]
    by_cases hsame : field.name = name
    · simp [hsame, hproto]
    · have := readRow_defaultRow h
      rw [readRow] at this
      simp [hsame, this]

end Rows

section Payload

theorem FormValues.lookup_others (values : FormValues) {index other : Nat} (hne : other ≠ index) :
    (values.filter fun entry => entry.1 ≠ index).lookup other = values.lookup other := by
  induction values with
  | nil => rfl
  | cons entry values ih =>
    by_cases hentry : entry.1 = index
    · have hother : (other == entry.1) = false := by simp [hentry, hne]
      rw [List.filter_cons_of_neg (by simp [hentry]), ih, List.lookup_cons, hother]
    · rw [List.filter_cons_of_pos (by simp [hentry]), List.lookup_cons, List.lookup_cons, ih]

theorem FormValues.lookup_put (values : FormValues) (index other : Nat) (row : PropertyMap String) :
    (FormValues.put values index row).lookup other =
      if other = index then some row else values.lookup other := by
  rw [FormValues.put, List.lookup_cons]
  by_cases hsame : other = index
  · simp [hsame]
  · have hne : (other == index) = false := by simp [hsame]
    rw [hne, if_neg hsame]
    exact FormValues.lookup_others values hsame

theorem ParsedForms.nodup (h : ParsedForms forms) : (forms.map BrowserForm.index).Nodup := by
  rw [h.indexed]
  exact List.nodup_range'

theorem ParsedForms.ext (h : ParsedForms forms) (hform : form ∈ forms) (hother : other ∈ forms)
    (hindex : form.index = other.index) : form = other :=
  List.inj_on_of_nodup_map h.nodup hform hother hindex

theorem lookup_buildDefault (h : ParsedForms forms) (hform : form ∈ forms) :
    (buildDefaultFormValues forms).lookup form.index = some (defaultRow form.fields) := by
  have hrun : ∀ (rest : List BrowserForm) (values : FormValues), (∀ f ∈ rest, f ∈ forms) →
      (rest.foldl (fun values form => FormValues.put values form.index (defaultRow form.fields))
        values).lookup form.index =
          if form ∈ rest then some (defaultRow form.fields) else values.lookup form.index := by
    intro rest
    induction rest with
    | nil => simp
    | cons first rest ih =>
      intro values hrest
      rw [List.foldl_cons, ih _ fun f hf => hrest f (List.mem_cons_of_mem _ hf), FormValues.lookup_put]
      by_cases hsame : form = first
      · simp [hsame]
      · have hindex : form.index ≠ first.index := fun heq =>
          hsame (h.ext hform (hrest first (List.mem_cons_self ..)) heq)
        simp [hsame, hindex]
  rw [buildDefaultFormValues, hrun forms [] fun f hf => hf, if_pos hform]

theorem collect_of_lookup {values : FormValues} {row : PropertyMap String} (h : ParsedForms forms)
    (hform : form ∈ forms) (hrow : values.lookup form.index = some row) {sent : String → String}
    (hsent : ∀ field ∈ form.fields, readRow row field.name = some (sent field.name)) :
    collectFormPayload values form = form.fields.map fun field => (field.name, sent field.name) := by
  unfold collectFormPayload
  dsimp only
  rw [hrow, Option.getD_some, List.filter_eq_self.mpr fun field hfield => by
    simpa using h.named form hform field hfield]
  apply List.map_congr_left
  intro field hfield
  rw [hsent field hfield, Option.getD_some]

theorem collect_captured (h : ParsedForms forms) (hform : form ∈ forms) :
    collectFormPayload (captureForms rt links forms).formValues form =
      form.fields.map fun field => (field.name, sentValue form.fields field.name) :=
  collect_of_lookup h hform (lookup_buildDefault h hform) fun _ hfield => readRow_defaultRow hfield

end Payload

section Refs

theorem ref_numbered {elements : List BrowserElementRef} {i : Nat} {entry : BrowserElementRef}
    (h : (numbered elements)[i]? = some entry) : entry.ref = "e" ++ toString (i + 1) := by
  simp only [numbered, List.getElem?_map, List.getElem?_zipIdx, Option.map_map, Option.map_eq_some_iff] at h
  obtain ⟨element, -, rfl⟩ := h
  simp

theorem lower_ref (rt : Runtime) (n : Nat) :
    rt.toLowerCase (trim ("e" ++ toString n)) = "e" ++ toString n ∧
      rt.toLowerCase ("e" ++ toString n) = "e" ++ toString n := by
  have hcodes : ∀ c ∈ ("e" ++ toString n).toList,
      45 ≤ c.toNat ∧ c.toNat ≤ 122 ∧ ¬ (65 ≤ c.toNat ∧ c.toNat ≤ 90) := by
    intro c hc
    rw [String.toList_append, List.mem_append] at hc
    rcases hc with hc | hc
    · obtain rfl : c = 'e' := by simpa using hc
      decide
    · have := Js.isDigit_of_mem_toString hc
      simp only [Js.isDigit, Bool.and_eq_true, decide_eq_true_eq] at this
      omega
  have hlower := Js.lower_trim_of_codes rt hcodes
  refine ⟨hlower, ?_⟩
  rw [← hlower, rt.lower_lower]

/-- The refs of a form's fields, in their order. -/
def fieldRefs (rt : Runtime) (links : List BrowserLink) (forms : List BrowserForm) (form : BrowserForm) :
    List String :=
  ((buildSnapshotRefs rt links forms).filter fun entry =>
    entry.kind = .field ∧ entry.formIndex = some form.index).map BrowserElementRef.ref

theorem filter_numbered {p : BrowserElementRef → Bool} (hp : ∀ entry ref, p { entry with ref := ref } = p entry)
    (elements : List BrowserElementRef) :
    ((numbered elements).filter p).map BrowserElementRef.fieldName =
      (elements.filter p).map BrowserElementRef.fieldName := by
  have hfrom : ∀ n, (((elements.zipIdx n).map fun numbered =>
      { numbered.1 with ref := "e" ++ toString (numbered.2 + 1) }).filter p).map BrowserElementRef.fieldName =
        (elements.filter p).map BrowserElementRef.fieldName := by
    induction elements with
    | nil => simp
    | cons element elements ih =>
      intro n
      rw [List.zipIdx_cons, List.map_cons]
      by_cases hkeep : p element = true
      · rw [List.filter_cons_of_pos hkeep, List.filter_cons_of_pos (by rw [hp]; exact hkeep), List.map_cons,
          List.map_cons, ih]
      · rw [List.filter_cons_of_neg hkeep, List.filter_cons_of_neg (by rw [hp]; exact hkeep), ih]
  exact hfrom 0

theorem flatMap_single {α β : Type} [DecidableEq α] {l : List α} {a : α} (hnd : l.Nodup) (ha : a ∈ l)
    (x : List β) : l.flatMap (fun b => if b = a then x else []) = x := by
  induction l with
  | nil => cases ha
  | cons b l ih =>
    rw [List.flatMap_cons]
    by_cases hb : b = a
    · subst hb
      have hrest : l.flatMap (fun c => if c = b then x else []) = [] := by
        rw [List.flatMap_eq_nil_iff]
        intro c hc
        rw [if_neg]
        rintro rfl
        exact (List.nodup_cons.mp hnd).1 hc
      rw [if_pos rfl, hrest, List.append_nil]
    · rw [if_neg hb, List.nil_append]
      exact ih (List.nodup_cons.mp hnd).2 ((List.mem_cons.mp ha).resolve_left (Ne.symm hb))

/-- The field elements of a form, among all elements of the page. -/
theorem filter_elements (h : ParsedForms forms) (hform : form ∈ forms) :
    ((links.map linkElement ++ forms.flatMap (formElements rt)).filter fun entry =>
      entry.kind = .field ∧ entry.formIndex = some form.index).map BrowserElementRef.fieldName =
        form.fields.map fun field => some field.name := by
  have hlinks : ((links.map linkElement).filter fun entry =>
      entry.kind = .field ∧ entry.formIndex = some form.index) = [] := by
    rw [List.filter_eq_nil_iff]
    intro entry hentry
    obtain ⟨link, -, rfl⟩ := List.mem_map.mp hentry
    simp [linkElement]
  have hone : ∀ f ∈ forms, ((formElements rt f).filter fun entry =>
      entry.kind = .field ∧ entry.formIndex = some form.index).map BrowserElementRef.fieldName =
        if f = form then form.fields.map (fun field => some field.name) else [] := by
    intro f hf
    by_cases hsame : f = form
    · subst hsame
      simp [formElements, List.filter_map, Function.comp_def]
    · have hindex : f.index ≠ form.index := fun heq => hsame (h.ext hf hform heq)
      simp [formElements, List.filter_map, Function.comp_def, hsame, hindex]
  rw [List.filter_append, hlinks, List.nil_append, List.filter_flatMap, List.map_flatMap,
    List.flatMap_congr hone]
  exact flatMap_single (List.Nodup.of_map _ h.nodup) hform _

theorem refs_ext {elements : List BrowserElementRef} {entry other : BrowserElementRef}
    (hentry : entry ∈ numbered elements) (hother : other ∈ numbered elements)
    (href : entry.ref = other.ref) : entry = other := by
  obtain ⟨i, hi⟩ := List.mem_iff_getElem?.mp hentry
  obtain ⟨j, hj⟩ := List.mem_iff_getElem?.mp hother
  rw [ref_numbered hi, ref_numbered hj, String.append_right_inj] at href
  obtain rfl : i = j := by
    have := Js.toString_nat_injective href
    omega
  exact Option.some.inj (hi.symm.trans hj)

/-- A ref of the snapshot leads to its element. -/
theorem resolve_of_mem {tab : FormTab} {elements : List BrowserElementRef} {entry : BrowserElementRef}
    (hrefs : tab.refs = some (numbered elements)) (hentry : entry ∈ numbered elements) :
    resolveSnapshotRef rt tab entry.ref = .ok (some entry) := by
  obtain ⟨i, hi⟩ := List.mem_iff_getElem?.mp hentry
  have hlower := (lower_ref rt (i + 1)).1
  rw [← ref_numbered hi] at hlower
  have hsome : ((numbered elements).find? fun other => rt.toLowerCase other.ref = entry.ref).isSome := by
    rw [List.find?_isSome]
    refine ⟨entry, hentry, ?_⟩
    have := (lower_ref rt (i + 1)).2
    rw [← ref_numbered hi] at this
    simpa using this
  obtain ⟨found, hfound⟩ := Option.isSome_iff_exists.mp hsome
  have hsame : found = entry := by
    have hmem := List.mem_of_find?_eq_some hfound
    obtain ⟨j, hj⟩ := List.mem_iff_getElem?.mp hmem
    apply refs_ext hmem hentry
    have hlowered := List.find?_some hfound
    rw [decide_eq_true_eq, ref_numbered hj, (lower_ref rt (j + 1)).2, ← ref_numbered hj] at hlowered
    exact hlowered
  have hne : entry.ref ≠ "" := by
    rw [ref_numbered hi]
    intro hempty
    have := congrArg String.toList hempty
    simp at this
  unfold resolveSnapshotRef
  dsimp only
  rw [hlower, if_neg hne, hrefs]
  dsimp only
  rw [hfound, hsame]

theorem getElem?_fieldRefs (h : ParsedForms forms) (hform : form ∈ forms)
    (hfield : form.fields[k]? = some field) :
    ∃ entry ∈ buildSnapshotRefs rt links forms, (fieldRefs rt links forms form)[k]? = some entry.ref ∧
      entry.kind = .field ∧ entry.formIndex = some form.index ∧ entry.fieldName = some field.name := by
  have hnames := filter_numbered (p := fun entry =>
    decide (entry.kind = .field ∧ entry.formIndex = some form.index)) (fun _ _ => rfl)
      (links.map linkElement ++ forms.flatMap (formElements rt))
  rw [filter_elements h hform] at hnames
  have hk := congrArg (·[k]?) hnames
  simp only [List.getElem?_map, hfield, Option.map_some, Option.map_eq_some_iff] at hk
  obtain ⟨entry, hentry, hname⟩ := hk
  have hmem := List.mem_filter.mp (List.mem_of_getElem? hentry)
  obtain ⟨hkind, hindex⟩ := of_decide_eq_true hmem.2
  refine ⟨entry, hmem.1, ?_, hkind, hindex, hname⟩
  rw [fieldRefs, List.getElem?_map, buildSnapshotRefs, hentry]
  rfl

end Refs

section Fill

/-- Filling a field by its ref writes its name into the row of its form. -/
theorem fill_field (h : ParsedForms forms) (hform : form ∈ forms) (hfield : form.fields[k]? = some field)
    (formIndex : Option Nat) (fieldName value : String) :
    ∃ ref, (fieldRefs rt links forms form)[k]? = some ref ∧
      fill rt (captureForms rt links forms) formIndex fieldName ref value =
        .ok { captureForms rt links forms with
          formValues := FormValues.put (buildDefaultFormValues forms) form.index
            ((defaultRow form.fields).put field.name value) } := by
  obtain ⟨entry, hentry, href, hkind, hindex, hname⟩ :=
    @getElem?_fieldRefs rt links _ _ _ _ h hform hfield
  have hmem := List.mem_of_getElem? hfield
  have hresolve : resolveSnapshotRef rt (captureForms rt links forms) entry.ref = .ok (some entry) :=
    resolve_of_mem rfl hentry
  have hfindForm : forms.find? (fun other => decide (other.index = form.index)) = some form := by
    obtain ⟨found, hfound⟩ := Option.isSome_iff_exists.mp (List.find?_isSome.mpr
      ⟨form, hform, by simp⟩ : (forms.find? fun other => decide (other.index = form.index)).isSome = true)
    rw [hfound, h.ext (List.mem_of_find?_eq_some hfound) hform (by simpa using List.find?_some hfound)]
  obtain ⟨found, hfound⟩ := Option.isSome_iff_exists.mp (List.find?_isSome.mpr
    ⟨field, hmem, by simp⟩ : (form.fields.find? fun other => decide (some field.name = some other.name)).isSome
      = true)
  have hfoundName : found.name = field.name := by
    have := List.find?_some hfound
    simpa [eq_comm] using this
  refine ⟨entry.ref, href, ?_⟩
  have hforms : (captureForms rt links forms).forms = forms := rfl
  have hne : forms ≠ [] := List.ne_nil_of_mem hform
  have hresolved : resolveForm rt (captureForms rt links forms) formIndex entry.ref = .ok form := by
    unfold resolveForm
    rw [if_neg (by rw [hforms]; exact hne), hresolve]
    simp only [bind, Except.bind, pure, Except.pure, Option.bind_some, hindex, Option.getD_some, hforms,
      hfindForm]
  have hfieldResolved : resolveFormField rt (captureForms rt links forms) form fieldName entry.ref =
      .ok found := by
    unfold resolveFormField
    rw [hresolve]
    simp only [bind, Except.bind, pure, Except.pure, hkind, hname, hindex, Option.getD_some, hfound,
      h.named form hform field hmem]
    simp
  unfold fill
  rw [hresolved]
  simp only [bind, Except.bind, hfieldResolved, hfoundName]
  rw [show (captureForms rt links forms).formValues.lookup form.index = some (defaultRow form.fields) from
    lookup_buildDefault h hform]
  rfl

/-- Filling the field at `k` by its ref changes its pair and nothing else that is sent. -/
def FillsAlone (rt : Runtime) (links : List BrowserLink) (forms : List BrowserForm) (form : BrowserForm)
    (k : Nat) (field : BrowserFormField) (formIndex : Option Nat) (fieldName value : String) : Prop :=
  ∃ ref tab, (fieldRefs rt links forms form)[k]? = some ref ∧
    fill rt (captureForms rt links forms) formIndex fieldName ref value = .ok tab ∧
    collectFormPayload tab.formValues form =
      (collectFormPayload (captureForms rt links forms).formValues form).set k (field.name, value) ∧
    ∀ other ∈ forms, other ≠ form → collectFormPayload tab.formValues other =
      collectFormPayload (captureForms rt links forms).formValues other

theorem payload_unfilled_iff (h : ParsedForms forms) (hform : form ∈ forms) :
    collectFormPayload (captureForms rt links forms).formValues form =
        form.fields.map (fun field => (field.name, field.value)) ↔
      ∀ field ∈ form.fields, sentValue form.fields field.name = field.value := by
  rw [collect_captured h hform, List.map_inj_left]
  simp

theorem payload_filled (h : ParsedForms forms) (hform : form ∈ forms) (name value : String) :
    collectFormPayload (FormValues.put (buildDefaultFormValues forms) form.index
        ((defaultRow form.fields).put name value)) form =
      form.fields.map fun field => (field.name,
        if field.name = name ∧ name ≠ "__proto__" then value else sentValue form.fields field.name) := by
  refine @collect_of_lookup forms form _ ((defaultRow form.fields).put name value) h hform ?_
    (fun n => if n = name ∧ name ≠ "__proto__" then value else sentValue form.fields n) ?_
  · rw [FormValues.lookup_put, if_pos rfl]
  · exact fun _ hfield => readRow_put hfield

theorem payload_other (h : ParsedForms forms) (hform : form ∈ forms) (hother : other ∈ forms)
    (hne : other ≠ form) (row : PropertyMap String) :
    collectFormPayload (FormValues.put (buildDefaultFormValues forms) form.index row) other =
      collectFormPayload (captureForms rt links forms).formValues other := by
  have hindex : other.index ≠ form.index := fun heq => hne (h.ext hother hform heq)
  have hlookup : (captureForms rt links forms).formValues.lookup other.index =
      (buildDefaultFormValues forms).lookup other.index := rfl
  unfold collectFormPayload
  dsimp only
  rw [FormValues.lookup_put, if_neg hindex, hlookup]

theorem map_eq_set_iff {α β : Type} {l : List α} {f g : α → β} {x : β} {a : α} (ha : l[k]? = some a) :
    l.map f = (l.map g).set k x ↔ f a = x ∧ ∀ j b, j ≠ k → l[j]? = some b → f b = g b := by
  have hk : k < (l.map g).length := by
    rw [List.length_map]
    exact (List.getElem?_eq_some_iff.mp ha).1
  constructor
  · intro heq
    constructor
    · have := congrArg (·[k]?) heq
      simpa [ha, List.getElem?_set_self hk] using this
    · intro j b hj hb
      have := congrArg (·[j]?) heq
      simpa [hb, List.getElem?_set_ne (Ne.symm hj)] using this
  · rintro ⟨hself, hothers⟩
    apply List.ext_getElem?
    intro j
    by_cases hj : j = k
    · subst hj
      rw [List.getElem?_set_self hk, List.getElem?_map, ha, Option.map_some, hself]
    · rw [List.getElem?_set_ne (Ne.symm hj), List.getElem?_map, List.getElem?_map]
      cases hb : l[j]? with
      | none => rfl
      | some b => rw [Option.map_some, Option.map_some, hothers j b hj hb]

/-- The pair at `k` changes alone when no other field has its name with another value. -/
theorem set_pair_iff (hfield : fields[k]? = some field) (hproto : field.name ≠ "__proto__") :
    (fields.map fun f => (f.name,
        if f.name = field.name ∧ field.name ≠ "__proto__" then value else sentValue fields f.name)) =
      (fields.map fun f => (f.name, sentValue fields f.name)).set k (field.name, value) ↔
    ∀ j f, j ≠ k → fields[j]? = some f → f.name = field.name → sentValue fields field.name = value := by
  rw [map_eq_set_iff hfield]
  simp only [hproto, ne_eq, not_false_eq_true, and_true, if_true, true_and, Prod.mk.injEq]
  constructor
  · intro h j f hj hf hname
    have := h j f hj hf
    rw [if_pos hname, hname] at this
    exact this.symm
  · intro h j f hj hf
    split_ifs with hname
    · rw [hname, h j f hj hf hname]
    · rfl

theorem set_proto_pair_iff (hfield : fields[k]? = some field) (hproto : field.name = "__proto__") :
    (fields.map fun f => (f.name,
        if f.name = field.name ∧ field.name ≠ "__proto__" then value else sentValue fields f.name)) =
      (fields.map fun f => (f.name, sentValue fields f.name)).set k (field.name, value) ↔
    value = "[object Object]" := by
  rw [map_eq_set_iff hfield]
  simp only [hproto, ne_eq, not_true_eq_false, and_false, if_false, Prod.mk.injEq, true_and, implies_true,
    and_true]
  rw [sentValue, if_pos rfl, eq_comm]

/-- The form's payload, and the effect of a fill. -/
theorem form_payload_iff (rt : Runtime) (links : List BrowserLink) (h : ParsedForms forms)
    (hform : form ∈ forms) :
    (collectFormPayload (captureForms rt links forms).formValues form =
        form.fields.map (fun field => (field.name, field.value)) ↔
      ∀ field ∈ form.fields, if field.name = "__proto__" then field.value = "[object Object]"
        else lastValue field.name form.fields = some field.value) ∧
    ∀ k field, form.fields[k]? = some field → ∀ formIndex fieldName value,
      (FillsAlone rt links forms form k field formIndex fieldName value ↔
        if field.name = "__proto__" then value = "[object Object]"
        else (∀ j other, j ≠ k → form.fields[j]? = some other → other.name ≠ field.name) ∨
          lastValue field.name form.fields = some value) := by
  constructor
  · rw [payload_unfilled_iff h hform]
    apply forall₂_congr
    intro field hfield
    rw [sentValue]
    split_ifs
    · exact eq_comm
    · obtain ⟨v, hv⟩ := Option.isSome_iff_exists.mp (lastValue_isSome hfield)
      simp [hv]
  · intro k field hfield formIndex fieldName value
    obtain ⟨ref, href, hfill⟩ := @fill_field rt links _ _ _ _ h hform hfield formIndex fieldName value
    have halone : FillsAlone rt links forms form k field formIndex fieldName value ↔
        (form.fields.map fun f => (f.name, if f.name = field.name ∧ field.name ≠ "__proto__" then value
          else sentValue form.fields f.name)) =
        (form.fields.map fun f => (f.name, sentValue form.fields f.name)).set k (field.name, value) := by
      rw [← payload_filled h hform, ← @collect_captured rt links _ _ h hform]
      constructor
      · rintro ⟨ref', tab, href', hfill', hpayload, -⟩
        obtain rfl : ref = ref' := Option.some.inj (href.symm.trans href')
        rw [hfill, Except.ok.injEq] at hfill'
        subst hfill'
        exact hpayload
      · exact fun hpayload => ⟨ref, _, href, hfill, hpayload,
          fun other hother hne => payload_other h hform hother hne _⟩
    rw [halone]
    split_ifs with hproto
    · exact set_proto_pair_iff hfield hproto
    · rw [set_pair_iff hfield hproto]
      obtain ⟨v, hv⟩ := Option.isSome_iff_exists.mp (lastValue_isSome (List.mem_of_getElem? hfield))
      have hsent : sentValue form.fields field.name = v := by simp [sentValue, hproto, hv]
      rw [hsent, hv, Option.some.injEq]
      constructor
      · intro hsame
        by_cases hv' : v = value
        · exact Or.inr hv'
        · exact Or.inl fun j other hj hother hname => hv' (hsame j other hj hother hname)
      · rintro (hnone | hv') j other hj hother hname
        · exact absurd hname (hnone j other hj hother)
        · exact hv'

end Fill

section Example

/-- Two choices of one name. -/
def sizeForm : BrowserForm where
  index := 1
  method := .get
  action := "https://shop.example/"
  fields := [⟨"size", "radio", "S", false⟩, ⟨"size", "radio", "M", false⟩]

/-- Both choices are sent with the value of the second. -/
theorem repeated_name_loses_value :
    collectFormPayload (captureForms Js.asciiRuntime [] [sizeForm]).formValues sizeForm ≠
        sizeForm.fields.map (fun field => (field.name, field.value)) ∧
      collectFormPayload (captureForms Js.asciiRuntime [] [sizeForm]).formValues sizeForm =
        [("size", "M"), ("size", "M")] := by
  constructor
  · decide
  · decide

def loginForm : BrowserForm where
  index := 1
  method := .post
  action := "https://shop.example/login"
  fields := [⟨"user", "text", "", true⟩, ⟨"token", "hidden", "t1", false⟩]

theorem form_payload_iff_login :
    collectFormPayload (captureForms Js.asciiRuntime [] [loginForm]).formValues loginForm =
        loginForm.fields.map (fun field => (field.name, field.value)) ∧
      FillsAlone Js.asciiRuntime [] [loginForm] loginForm 0 ⟨"user", "text", "", true⟩ none "" "ada" := by
  have hparsed : ParsedForms [loginForm] := ⟨by decide, by decide⟩
  obtain ⟨hpayload, hfill⟩ := form_payload_iff Js.asciiRuntime [] hparsed (List.mem_singleton_self loginForm)
  refine ⟨hpayload.mpr (by decide), (hfill 0 _ rfl none "" "ada").mpr ?_⟩
  rw [if_neg (by decide)]
  left
  rintro (_ | _ | j) other hj hother
  · exact absurd rfl hj
  · obtain rfl : ⟨"token", "hidden", "t1", false⟩ = other := Option.some.inj hother
    decide
  · cases hother

end Example

end T560.Browser
