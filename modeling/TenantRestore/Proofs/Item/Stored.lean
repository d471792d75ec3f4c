/-
# The storage format of items

An item that was read is read again from the text it is stored as, and that text has the same
fields without a meaning as the text it was read from: `Item.ofData_toStored`.

Not every item can be stored: its fields without a meaning must be sorted and canonical, and
must not take the place of a field with a meaning or of the kind.  Items that were read are
like this, `storable_of_ofFields?`, and items that are like this are read back,
`Storable.reads_toStored`.  What reading takes is always an object as a whole, `reader_ok`, so
only lists of fields are left to be compared.
-/
import TenantRestore.Item.Stored
import TenantRestore.Proofs.Json.Canonical
import TenantRestore.Proofs.Permission.Stored

namespace TenantRestore

open Permission (listField optionalField)

/-- The number of a token, if it is one. -/
def Token.number? : Token → Option Number
  | .number n => some n
  | _ => none

/-- Whether a number is an integer of 64 bits.  A zero with a sign is one, but is kept as a
float. -/
def Number.IsWhole : Number → Prop
  | .integer _ => True
  | .float x => x = .negativeZero

theorem Number.IsWhole.sound {n : Number} (h : n.IsWhole) (hrange : (Token.number n).InRange) :
    (Token.number n).Sound := by
  cases n with
  | integer i => exact hrange
  | float x => exact h

namespace Json

/-- A value is read back by a reader that allows for a number of levels. -/
structure Fits (levels : Nat) (v : Json) : Prop where
  /-- It is not nested too deep. -/
  depth : v.depth ≤ levels
  /-- All its tokens are read back. -/
  sound : v.Sound

theorem fits_string (levels : Nat) (s : String) : (string s).Fits levels :=
  ⟨Nat.zero_le _, sound_string s⟩

theorem fits_array_iff {levels : Nat} {vs : List Json} :
    (array vs).Fits (levels + 1) ↔ ∀ v ∈ vs, v.Fits levels :=
  ⟨fun h v hv => ⟨depth_array_le.1 h.depth v hv, sound_array_iff.1 h.sound v hv⟩, fun h =>
    ⟨depth_array_le.2 fun v hv => (h v hv).depth, sound_array fun v hv => (h v hv).sound⟩⟩

theorem fits_object {levels : Nat} {fs : List (String × Json)} (h : ∀ f ∈ fs, f.2.Fits levels) :
    (object fs).Fits (levels + 1) :=
  ⟨depth_object_le.2 fun f hf => (h f hf).depth, sound_object fun f hf => (h f hf).sound⟩

theorem Fits.canonical {levels : Nat} {v : Json} (h : v.Fits levels) :
    v.canonical.Fits levels :=
  ⟨depth_canonical h.depth, sound_canonical h.sound⟩

end Json

namespace Item

/-! ## Fields -/

section Fields

variable {α : Type} {name : String} {toJson : α → Json} {names : List String} {levels : Nat}

theorem optionalField_fits (hname : name ∈ names) (h : ∀ v, (toJson v).Fits levels)
    (value : Option α) :
    ∀ f ∈ optionalField name toJson value, f.1 ∈ names ∧ f.2.Fits levels := by
  cases value with
  | none => simp [optionalField]
  | some v => simpa [optionalField] using ⟨hname, h v⟩

theorem listField_fits {values : List α} (hname : name ∈ names)
    (h : ∀ v ∈ values, (toJson v).Fits levels) :
    ∀ f ∈ listField name toJson values, f.1 ∈ names ∧ f.2.Fits (levels + 1) := by
  have harray : (Json.array (values.map toJson)).Fits (levels + 1) :=
    Json.fits_array_iff.2 (List.forall_mem_map.2 h)
  unfold listField
  split_ifs
  · simp
  · simpa using ⟨hname, harray⟩

end Fields

/-- The fields of an item with a meaning. -/
def named : Item → List (String × Json)
  | .contact c =>
    optionalField "givenName" .string c.givenName ++ optionalField "surname" .string c.surname ++
      listField "emailAddresses" .string c.emails
  | .event e =>
    optionalField "subject" .string e.subject ++ optionalField "start" ZonedTime.toJson e.start ++
      optionalField "end" ZonedTime.toJson e.finish
  | .list l => optionalField "displayName" .string l.displayName ++ listField "items" id l.items
  | .page p => optionalField "name" .string p.name ++ optionalField "title" .string p.title

/-- The fields of an item without a meaning. -/
def extra : Item → ExtraFields
  | .contact c => c.extra
  | .event e => e.extra
  | .list l => l.extra
  | .page p => p.extra

theorem toFields_eq (item : Item) : item.toFields = item.named ++ item.extra := by
  cases item <;> rfl

/-- How deep the values of fields may be nested: the item around them is a level itself. -/
def fieldLevels : Nat := Reader.maxLevels - 2

/-- An item that is read back as it is from its stored form. -/
structure Storable (item : Item) : Prop where
  /-- The fields without a meaning are sorted, each key once. -/
  sorted : Json.Sorted item.extra
  /-- None of them has the key of a field with a meaning, or of the kind. -/
  foreign : ∀ f ∈ item.extra, f.1 ≠ kindField ∧ f.1 ∉ fieldNames item.kind
  /-- Their values are canonical and can be read back. -/
  values : ∀ f ∈ item.extra, f.2.canonical = f.2 ∧ f.2.Fits fieldLevels
  /-- The children are canonical and can be read back. -/
  children : ∀ v ∈ item.children, v.canonical = v ∧ v.Fits (fieldLevels - 1)

/-! ## What is written -/

theorem fits_zonedTime (t : ZonedTime) : t.toJson.Fits 1 := by
  have hfields : ∀ f ∈ [("dateTime", Json.string t.dateTime), ("timeZone", .string t.timeZone)],
      f.2.Fits 0 := by simp [Json.fits_string]
  exact Json.fits_object hfields

/-- The fields with a meaning have the names of their kind and can be read back. -/
theorem Storable.named_fit {item : Item} (h : item.Storable) :
    ∀ f ∈ item.named, f.1 ∈ fieldNames item.kind ∧ f.2.Fits fieldLevels := by
  have htext (s : String) : (Json.string s).Fits fieldLevels := Json.fits_string _ s
  have htime (t : ZonedTime) : t.toJson.Fits fieldLevels :=
    ⟨(fits_zonedTime t).depth.trans (by decide), (fits_zonedTime t).sound⟩
  cases item <;> simp only [named, kind, List.forall_mem_append]
  · exact ⟨⟨optionalField_fits (by decide) htext _, optionalField_fits (by decide) htext _⟩,
      listField_fits (by decide) fun s _ => Json.fits_string _ s⟩
  · exact ⟨⟨optionalField_fits (by decide) htext _, optionalField_fits (by decide) htime _⟩,
      optionalField_fits (by decide) htime _⟩
  · exact ⟨optionalField_fits (by decide) htext _,
      listField_fits (by decide) fun v hv => (h.children v hv).2⟩
  · exact ⟨optionalField_fits (by decide) htext _, optionalField_fits (by decide) htext _⟩

theorem kindField_not_mem_fieldNames (k : ItemKind) : kindField ∉ fieldNames k := by
  cases k <;> decide

/-- No field of an item stands for its kind, and all can be read back. -/
theorem Storable.fields_fit {item : Item} (h : item.Storable) :
    ∀ f ∈ item.toFields, f.1 ≠ kindField ∧ f.2.Fits fieldLevels := by
  rw [toFields_eq, List.forall_mem_append]
  refine ⟨fun f hf => ?_, fun f hf => ⟨(h.foreign f hf).1, (h.values f hf).2⟩⟩
  obtain ⟨hname, hfits⟩ := h.named_fit f hf
  exact ⟨fun e => kindField_not_mem_fieldNames _ (e ▸ hname), hfits⟩

theorem Storable.fits_toStored {item : Item} (h : item.Storable) :
    item.toStored.Fits (fieldLevels + 1) := by
  refine Json.fits_object ?_
  rw [List.forall_mem_cons]
  exact ⟨Json.fits_string .., fun f hf => (h.fields_fit f hf).2⟩

/-! ## Reading what is written -/

theorem filter_optionalField {α : Type} (name key : String) (toJson : α → Json)
    (value : Option α) : (optionalField name toJson value).filter (fun f => f.1 = key) =
      if name = key then optionalField name toJson value else [] := by
  cases value with
  | none => simp [optionalField]
  | some v => by_cases h : name = key <;> simp [optionalField, h]

theorem filter_listField {α : Type} (name key : String) (toJson : α → Json) (values : List α) :
    (listField name toJson values).filter (fun f => f.1 = key) =
      if name = key then listField name toJson values else [] := by
  unfold listField
  by_cases h : name = key <;> cases values <;> simp [h]

section Values

variable {α : Type} {r : Reader α} {name : String} {toJson : α → Json}
  {fields : List (String × Json)}

theorem readValue?_of_reads {v : Json} {a : α} (h : r.Reads v a) : r.readValue? v = some a := by
  have hread := h []
  rw [List.append_nil] at hread
  simp [Reader.readValue?, hread]

/-- A field that may be absent is read as what it was written for. -/
theorem fieldValue?_optionalField {value : Option α}
    (hfields : fields.filter (fun f => f.1 = name) = optionalField name toJson value)
    (hread : ∀ v, r.Reads (toJson v) v) (hnull : ∀ v, toJson v ≠ .null) :
    fieldValue? name (.optional r) none fields = some value := by
  rw [fieldValue?, hfields]
  cases value with
  | none => rfl
  | some v => exact readValue?_of_reads ((hread v).optional (hnull v))

/-- A list field is read as the list it was written for. -/
theorem fieldValue?_listField {values : List α}
    (hfields : fields.filter (fun f => f.1 = name) = listField name toJson values)
    (hread : ∀ v ∈ values, r.Reads (toJson v) v) :
    fieldValue? name (.array r) [] fields = some values := by
  rw [fieldValue?, hfields, listField]
  split_ifs with hempty
  · simp [List.isEmpty_iff.1 hempty]
  · refine readValue?_of_reads (Reader.Reads.array ?_)
    rw [List.forall₂_map_left_iff, List.forall₂_same]
    exact hread

end Values

theorem reads_zonedTime (t : ZonedTime) : ZonedTime.reader.Reads t.toJson t := by
  refine Reader.Reads.record ?_ (by simp) (by simp [Reader.field])
  change Reader.Fills _
    ([("dateTime", .string t.dateTime)] ++ [("timeZone", .string t.timeZone)]) _ _
  exact .append (.field (Reader.reads_string _) rfl rfl) (.field (Reader.reads_string _) rfl rfl)

/-- A value of any shape is read in its canonical form. -/
theorem reads_anyValue (v : Json) : anyValue.Reads v v.canonical := by
  intro ts
  have hdepth : v.depth ≤ (v.tokens ++ ts).length + 1 := by
    have := v.depth_le_length_tokens
    rw [List.length_append]
    omega
  rw [anyValue, Reader.reads_value hdepth]
  rfl

/-- Of the fields with the name of one with a meaning, none is without one. -/
theorem Storable.filter_toFields {item : Item} (h : item.Storable) {name : String}
    (hname : name ∈ fieldNames item.kind) : item.toFields.filter (fun f => f.1 = name) =
      item.named.filter fun f => f.1 = name := by
  have hextra : item.extra.filter (fun f => f.1 = name) = [] := by
    rw [List.filter_eq_nil_iff]
    intro f hf
    simpa using fun (e : f.1 = name) => (h.foreign f hf).2 (e ▸ hname)
  rw [toFields_eq, List.filter_append, hextra, List.append_nil]

theorem Storable.extraFields_toFields {item : Item} (h : item.Storable) :
    extraFields (fieldNames item.kind) item.toFields = item.extra := by
  have hnamed : item.named.filter (fun f => !(fieldNames item.kind).contains f.1) = [] := by
    rw [List.filter_eq_nil_iff]
    intro f hf
    simpa using (h.named_fit f hf).1
  have hextra : item.extra.filter (fun f => !(fieldNames item.kind).contains f.1) =
      item.extra := by
    rw [List.filter_eq_self]
    intro f hf
    simpa using (h.foreign f hf).2
  rw [extraFields, toFields_eq, List.filter_append, hnamed, hextra, List.nil_append,
    Json.canonicalFields_of_canonical fun f hf => (h.values f hf).1,
    Json.sortFields_of_sorted h.sorted]

/-- The fields of an item make the item again. -/
theorem Storable.ofFields?_toFields {item : Item} (h : item.Storable) :
    ofFields? item.kind item.toFields = some item := by
  have hextra := h.extraFields_toFields
  have hnames : ∀ name ∈ fieldNames item.kind, item.toFields.filter (fun f => f.1 = name) =
      item.named.filter fun f => f.1 = name := fun name => h.filter_toFields
  have htext {name : String} {value : Option String}
      (hfields : item.toFields.filter (fun f => f.1 = name) =
        optionalField name .string value) :=
    fieldValue?_optionalField hfields Reader.reads_string (by simp)
  have htime {name : String} {value : Option ZonedTime}
      (hfields : item.toFields.filter (fun f => f.1 = name) =
        optionalField name ZonedTime.toJson value) :=
    fieldValue?_optionalField hfields reads_zonedTime (by simp [ZonedTime.toJson])
  cases item with
  | contact c =>
    obtain ⟨hgiven, hsurname, hemails⟩ := by
      simpa [fieldNames, kind, named, filter_optionalField, filter_listField] using hnames
    have hemails' := fieldValue?_listField hemails fun s _ => Reader.reads_string s
    simp only [kind, ofFields?] at hextra ⊢
    simp [extra, hextra, htext hgiven, htext hsurname, hemails']
  | event e =>
    obtain ⟨hsubject, hstart, hfinish⟩ := by
      simpa [fieldNames, kind, named, filter_optionalField, filter_listField] using hnames
    simp only [kind, ofFields?] at hextra ⊢
    simp [extra, hextra, htext hsubject, htime hstart, htime hfinish]
  | list l =>
    obtain ⟨hname, hitems⟩ := by
      simpa [fieldNames, kind, named, filter_optionalField, filter_listField] using hnames
    have hitems' : fieldValue? "items" (.array anyValue) [] (toFields (.list l)) = some l.items :=
      fieldValue?_listField hitems fun v hv => by
        have hread := reads_anyValue v
        rwa [(h.children v hv).1] at hread
    simp only [kind, ofFields?] at hextra ⊢
    simp [extra, hextra, htext hname, hitems']
  | page p =>
    obtain ⟨hname, htitle⟩ := by
      simpa [fieldNames, kind, named, filter_optionalField, filter_listField] using hnames
    simp only [kind, ofFields?] at hextra ⊢
    simp [extra, hextra, htext hname, htext htitle]

/-- Fields none of which stands for the kind are read up to the end of their object. -/
theorem bodyFields_written {fs : List (String × Json)}
    (h : ∀ f ∈ fs, f.1 ≠ kindField ∧ f.2.Fits fieldLevels) (k : ItemKind) (first : Bool)
    {limit : Nat} (hlimit : fs.length < limit) (ts : List Token) :
    bodyFields limit (some k) first (Json.fieldsFrom first fs ++ .closeObject :: ts) =
      .ok ((k, fs), ts) := by
  induction fs generalizing first limit with
  | nil =>
    obtain ⟨limit, rfl⟩ : ∃ l, limit = l + 1 := ⟨limit - 1, by omega⟩
    rfl
  | cons f fs ih =>
    obtain ⟨limit, rfl⟩ : ∃ l, limit = l + 1 := ⟨limit - 1, by omega⟩
    obtain ⟨⟨hkey, hfits⟩, hmore⟩ := List.forall_mem_cons.1 h
    have hvalue : (Reader.value (Reader.maxLevels - 1)).Reads f.2 f.2 :=
      Reader.reads_value hfits.depth
    rw [bodyFields, Json.fieldsFrom, Json.fieldToken, List.append_assoc, List.append_assoc,
      List.cons_append, Reader.nextKey_written]
    simp [hkey, Reader.colon, hvalue _, ih hmore false (Nat.lt_of_succ_lt_succ hlimit), bind,
      Except.bind, pure, Except.pure]

theorem bodyFields_kind (k : ItemKind) (first : Bool) (limit : Nat) (ts : List Token) :
    bodyFields (limit + 1) none first
      (Json.separator first ++ Json.fieldToken (kindField, .string k.name) ++ ts) =
      bodyFields limit (some k) false ts := by
  have hkind : kindReader (.string k.name :: ts) = .ok (k, ts) := by cases k <;> rfl
  rw [bodyFields, Json.fieldToken, List.append_assoc, List.cons_append, Reader.nextKey_written]
  simp [Json.tokens, Reader.colon, hkind, bind, Except.bind]

/-- An item is read from its stored form. -/
theorem Storable.reads_toStored {item : Item} (h : item.Storable) :
    reader.Reads item.toStored item := by
  intro ts
  have hlength := Json.length_le_fieldsFrom false item.toFields
  rw [toStored, Json.tokens_object, List.cons_append, List.cons_append, List.append_assoc,
    List.singleton_append, reader, Json.fieldsFrom, List.append_assoc, bodyFields_kind,
    bodyFields_written h.fields_fit _ _ (by simp; omega) ts]
  simp [h.ofFields?_toFields, bind, Except.bind, pure, Except.pure]

/-! ## What is read -/

theorem name_of_ofName? {s : String} {k : ItemKind} (h : ItemKind.ofName? s = some k) :
    s = k.name := by
  simpa [eq_comm] using List.find?_some h

theorem kindReader_ok {ts rest : List Token} {k : ItemKind} (h : kindReader ts = .ok (k, rest)) :
    ts = .string k.name :: rest := by
  obtain ⟨⟨s, us⟩, hstring, h⟩ := Reader.bind_eq_ok.1 h
  dsimp only at h
  split at h <;> cases h
  rename_i hname
  unfold Reader.string at hstring
  split at hstring <;> cases hstring
  rw [name_of_ofName? hname]

/-- What is read as the fields of an item are the fields of an object, without the kind. -/
theorem bodyFields_ok {limit : Nat} {kind : Option ItemKind} {first : Bool}
    {ts rest : List Token} {k : ItemKind} {fs : List (String × Json)}
    (h : bodyFields limit kind first ts = .ok ((k, fs), rest)) :
    ∃ gs, ts = Json.fieldsFrom first gs ++ .closeObject :: rest ∧
      (∀ g ∈ gs, g.2.depth ≤ fieldLevels) ∧ gs.filter (fun g => g.1 ≠ kindField) = fs := by
  induction limit generalizing kind first ts fs with
  | zero => cases h
  | succ limit ih =>
    rw [bodyFields, Reader.bind_eq_ok] at h
    obtain ⟨⟨key, us⟩, hnext, h⟩ := h
    rcases Reader.nextKey_ok hnext with ⟨rfl, rfl⟩ | ⟨key, rfl, rfl⟩
    · cases kind with
      | none => cases h
      | some k =>
        cases h
        exact ⟨[], rfl, by simp, rfl⟩
    · simp only at h
      split_ifs at h with hkey hsome
      -- the kind is a field of the object, but none of the item
      · simp only [Reader.bind_eq_ok, Prod.exists] at h
        obtain ⟨_, us, hcolon, k', vs, hkind, hmore⟩ := h
        obtain rfl := Reader.colon_ok hcolon
        obtain rfl := kindReader_ok hkind
        obtain ⟨gs, rfl, hdepth, hfields⟩ := ih hmore
        refine ⟨(key, .string k'.name) :: gs, ?_, ?_, ?_⟩
        · simp [Json.fieldsFrom, Json.fieldToken, Json.tokens]
        · exact List.forall_mem_cons.2 ⟨Nat.zero_le _, hdepth⟩
        · simpa [hkey] using hfields
      · simp only [Reader.bind_eq_ok, Prod.exists] at h
        obtain ⟨_, us, hcolon, v, vs, hvalue, k', fs', ws, hmore, h⟩ := h
        cases h
        obtain rfl := Reader.colon_ok hcolon
        obtain ⟨hv, rfl⟩ := Reader.value_eq_ok_iff.1 hvalue
        obtain ⟨gs, rfl, hdepth, hfields⟩ := ih hmore
        refine ⟨(key, v) :: gs, by simp [Json.fieldsFrom, Json.fieldToken], ?_, ?_⟩
        · exact List.forall_mem_cons.2 ⟨hv, hdepth⟩
        · simpa [hkey] using hfields

theorem kind_ofFields? {k : ItemKind} {fs : List (String × Json)} {item : Item}
    (h : ofFields? k fs = some item) :
    item.kind = k ∧ item.extra = extraFields (fieldNames k) fs := by
  cases k <;> simp only [ofFields?, Option.bind_eq_bind, Option.bind_eq_some_iff,
    Option.pure_def, Option.some.injEq] at h
  · obtain ⟨_, _, _, _, _, _, rfl⟩ := h
    exact ⟨rfl, rfl⟩
  · obtain ⟨_, _, _, _, _, _, rfl⟩ := h
    exact ⟨rfl, rfl⟩
  · obtain ⟨_, _, _, _, rfl⟩ := h
    exact ⟨rfl, rfl⟩
  · obtain ⟨_, _, _, _, rfl⟩ := h
    exact ⟨rfl, rfl⟩

/-- An array is never read as an item. -/
theorem bodyItems_ne_ok {α : Type} (ts : List Token) (r : α × List Token) :
    bodyItems ts ≠ .ok r := by
  intro h
  obtain ⟨⟨more, us⟩, -, h⟩ := Reader.bind_eq_ok.1 h
  cases more with
  | false => cases h
  | true =>
    obtain ⟨_, -, h⟩ := Reader.bind_eq_ok.1 h
    obtain ⟨_, -, h⟩ := Reader.bind_eq_ok.1 h
    cases h

/-- What is read as an item is an object. -/
theorem reader_ok {ts rest : List Token} {item : Item} (h : reader ts = .ok (item, rest)) :
    ∃ gs, ts = (Json.object gs).tokens ++ rest ∧ (∀ g ∈ gs, g.2.depth ≤ fieldLevels) ∧
      ofFields? item.kind (gs.filter fun g => g.1 ≠ kindField) = some item := by
  unfold reader at h
  split at h
  · rename_i ts
    obtain ⟨⟨⟨k, fs⟩, us⟩, hbody, h⟩ := Reader.bind_eq_ok.1 h
    dsimp only at h
    split at h <;> cases h
    rename_i hitem
    obtain ⟨gs, rfl, hdepth, rfl⟩ := bodyFields_ok hbody
    refine ⟨gs, by simp [Json.tokens_object], hdepth, ?_⟩
    rwa [(kind_ofFields? hitem).1]
  · exact absurd h (bodyItems_ne_ok _ _)
  · cases h

theorem anyValue_takes : anyValue.Takes fun v a => v.canonical = a := by
  intro ts a rest h
  obtain ⟨⟨v, us⟩, hvalue, h⟩ := Reader.bind_eq_ok.1 h
  cases h
  exact ⟨v, rfl, (Reader.value_eq_ok_iff.1 hvalue).2⟩

/-- What is read as values of any shape is an array, whose elements are taken in their canonical
form. -/
theorem readValue?_anyValues {v : Json} {vs : List Json}
    (h : Reader.readValue? (.array anyValue) v = some vs) :
    ∃ ws, v = .array ws ∧ vs = ws.map Json.canonical := by
  unfold Reader.readValue? at h
  split at h <;> cases h
  rename_i hread
  unfold Reader.array at hread
  split at hread
  · rename_i ts htokens
    obtain ⟨ws, hws, rfl⟩ := Reader.items_ok anyValue_takes hread
    have heq : v.tokens ++ [] = (Json.array ws).tokens ++ [] := by
      rw [List.append_nil, htokens, Json.tokens_array]
      simp
    have hcanonical := List.forall₂_map_left_iff.2 hws
    rw [List.forall₂_eq_eq_eq] at hcanonical
    exact ⟨ws, (Reader.tokens_append_inj heq).1, hcanonical.symm⟩
  · cases hread

theorem children_ofFields? {k : ItemKind} {fs : List (String × Json)} {item : Item}
    (h : ofFields? k fs = some item) :
    item.children = [] ∨ fieldValue? "items" (.array anyValue) [] fs = some item.children := by
  cases k <;> simp only [ofFields?, Option.bind_eq_bind, Option.bind_eq_some_iff,
    Option.pure_def, Option.some.injEq] at h
  · obtain ⟨_, _, _, _, _, _, rfl⟩ := h
    exact .inl rfl
  · obtain ⟨_, _, _, _, _, _, rfl⟩ := h
    exact .inl rfl
  · obtain ⟨_, _, _, hitems, rfl⟩ := h
    exact .inr hitems
  · obtain ⟨_, _, _, _, rfl⟩ := h
    exact .inl rfl

/-- The children of an item are elements of one of its fields, in their canonical form. -/
theorem canonical_children {k : ItemKind} {fs : List (String × Json)} {item : Item}
    (hfs : ∀ f ∈ fs, f.2.Fits fieldLevels) (h : ofFields? k fs = some item) :
    ∀ v ∈ item.children, v.canonical = v ∧ v.Fits (fieldLevels - 1) := by
  rcases children_ofFields? h with hnone | hitems
  · simp [hnone]
  · unfold fieldValue? at hitems
    split at hitems
    · have hempty : item.children = [] := (Option.some.inj hitems).symm
      simp [hempty]
    · rename_i f hfilter
      obtain ⟨ws, hws, heq⟩ := readValue?_anyValues hitems
      have hf : f ∈ fs := (List.mem_filter.1 (hfilter ▸ List.mem_singleton_self f)).1
      have hfits := Json.fits_array_iff.1 (show (Json.array ws).Fits (fieldLevels - 1 + 1) from
        hws ▸ hfs f hf)
      rw [heq, List.forall_mem_map]
      exact fun w hw => ⟨w.canonical_canonical, (hfits w hw).canonical⟩
    · cases hitems

/-- An item of fields that can be read back can be stored. -/
theorem storable_of_ofFields? {k : ItemKind} {fs : List (String × Json)} {item : Item}
    (hfs : ∀ f ∈ fs, f.1 ≠ kindField ∧ f.2.Fits fieldLevels)
    (h : ofFields? k fs = some item) : item.Storable := by
  obtain ⟨hkind, hextra⟩ := kind_ofFields? h
  have hmem : ∀ f ∈ item.extra, ∃ g ∈ fs, g.1 ∉ fieldNames k ∧ f = (g.1, g.2.canonical) := by
    intro f hf
    rw [hextra, extraFields] at hf
    obtain ⟨g, hg, rfl⟩ := Json.exists_of_mem_canonicalFields hf
    obtain ⟨hg, hname⟩ := List.mem_filter.1 hg
    exact ⟨g, hg, by simpa using hname, rfl⟩
  refine ⟨?_, ?_, ?_, ?_⟩
  · rw [hextra]
    exact Json.sorted_sortFields _
  · intro f hf
    obtain ⟨g, hg, hname, rfl⟩ := hmem f hf
    exact ⟨(hfs g hg).1, hkind ▸ hname⟩
  · intro f hf
    obtain ⟨g, hg, -, rfl⟩ := hmem f hf
    exact ⟨g.2.canonical_canonical, (hfs g hg).2.canonical⟩
  · exact canonical_children (fun f hf => (hfs f hf).2) h

/-- The fields without a meaning are those of the object that was read. -/
theorem field?_extra {k : ItemKind} {fs : List (String × Json)} {item : Item}
    (h : ofFields? k fs = some item) {key : String} (hkey : key ∉ fieldNames k) :
    (Json.object item.extra).field? key = ((Json.object fs).field? key).map Json.canonical := by
  have hfilter : (Json.object (fs.filter fun f => !(fieldNames k).contains f.1)).field? key =
      (Json.object fs).field? key :=
    Json.field?_filter (p := fun name => !(fieldNames k).contains name) (by simpa using hkey) fs
  rw [(kind_ofFields? h).2, extraFields, Json.field?_sortFields, Json.field?_canonicalFields,
    hfilter]

/-- Of the fields of a stored item, those without a meaning are written as they are. -/
theorem Storable.field?_toStored {item : Item} (h : item.Storable) {key : String}
    (hkind : key ≠ kindField) (hkey : key ∉ fieldNames item.kind) :
    item.toStored.field? key = (Json.object item.extra).field? key := by
  have hnamed : ∀ f ∈ (kindField, .string item.kind.name) :: item.named, f.1 ≠ key := by
    rw [List.forall_mem_cons]
    exact ⟨hkind.symm, fun f hf e => hkey (e ▸ (h.named_fit f hf).1)⟩
  rw [toStored, toFields_eq, ← List.cons_append, Json.field?_append, Json.field?_eq_none hnamed,
    Option.or_none]

/-! ## Stored items -/

/-- A text that is read as an item is cut into the tokens of an object, whose fields other than
the kind make the item. -/
theorem ofData_ok {data : ByteArray} {item : Item} (h : ofData data = .ok item) :
    ∃ fs, Token.scan data.data.toList = (Json.object fs).tokens ∧
      (∀ f ∈ fs, f.2.depth ≤ fieldLevels) ∧
      ofFields? item.kind (fs.filter fun f => f.1 ≠ kindField) = some item := by
  obtain ⟨⟨item', rest⟩, hread, h⟩ := Reader.bind_eq_ok.1 h
  dsimp only at h
  split_ifs at h with hrest
  cases h
  obtain ⟨fs, htokens, hdepth, hitem⟩ := reader_ok hread
  rw [List.isEmpty_iff.1 hrest, List.append_nil] at htokens
  exact ⟨fs, htokens, hdepth, hitem⟩

/-- An item that was read from a text all of whose numbers are integers is read again from the
text it is stored as.  The fields without a meaning are the same in both texts. -/
theorem ofData_toStored {data : ByteArray} {item : Item} (h : ofData data = .ok item)
    (hwhole : ∀ n, .number n ∈ Token.scan data.data.toList → n.IsWhole) :
    ofData item.toStored.text.toUTF8 = .ok item ∧
    ∃ fs gs, Json.read data = .ok (.object fs) ∧
      Json.read item.toStored.text.toUTF8 = .ok (.object gs) ∧
      ∀ key, key ≠ kindField → key ∉ fieldNames item.kind →
        ((Json.object gs).field? key).map Json.canonical =
          ((Json.object fs).field? key).map Json.canonical := by
  obtain ⟨fs, hscan, hdepth, hitem⟩ := ofData_ok h
  have hsound : (Json.object fs).Sound := by
    refine Json.sound_of_numbers fun n hn => ?_
    rw [← hscan] at hn
    exact (hwhole n hn).sound (Token.inRange_of_mem_scan hn)
  have hfits (f) (hf : f ∈ fs) : f.2.Fits fieldLevels :=
    ⟨hdepth f hf, Json.sound_object_iff.1 hsound f hf⟩
  -- what was read can be stored, and what can be stored is read back
  have hstorable : item.Storable := by
    refine storable_of_ofFields? (fun f hf => ?_) hitem
    obtain ⟨hf, hkind⟩ := List.mem_filter.1 hf
    exact ⟨by simpa using hkind, hfits f hf⟩
  have htext : Token.scan item.toStored.text.toUTF8.data.toList = item.toStored.tokens :=
    Json.scan_text hstorable.fits_toStored.sound
  refine ⟨hstorable.reads_toStored.readText hstorable.fits_toStored.sound, fs, _,
    Json.read_eq_ok (Json.fits_object hfits).depth hscan,
    Json.read_eq_ok hstorable.fits_toStored.depth htext, fun key hkind hkey => ?_⟩
  have hother : (Json.object (fs.filter fun f => f.1 ≠ kindField)).field? key =
      (Json.object fs).field? key :=
    Json.field?_filter (p := fun name => name ≠ kindField) (by simpa using hkind) fs
  calc (item.toStored.field? key).map Json.canonical
    _ = ((Json.object item.extra).field? key).map Json.canonical := by
      rw [hstorable.field?_toStored hkind hkey]
    _ = (((Json.object fs).field? key).map Json.canonical).map Json.canonical := by
      rw [field?_extra hitem hkey, hother]
    _ = ((Json.object fs).field? key).map Json.canonical := by
      simp [Function.comp_def]

/-! ## A contact -/

/-- A contact with its kind among other fields, a field without a meaning that occurs twice, and
a zero with a sign. -/
def contactText : String :=
  "\x7b\"tags\":[1],\"emailAddresses\":[\"A@x\"],\"kind\":\"contact\",\"surname\":null," ++
    "\"tags\":\x7b\"b\":-0,\"a\":\"\\u00e9\"\x7d\x7d"

/-- The contact of the text. -/
def textContact : Item :=
  .contact {
    emails := ["A@x"]
    extra := [("tags", .object [("a", .string "é"), ("b", .number (.float .negativeZero))])] }

theorem ofData_contactText : ofData contactText.toUTF8 = .ok textContact := by
  have hread : (ofData contactText.toUTF8).toOption = some textContact := by decide +kernel
  cases h : ofData contactText.toUTF8 with
  | error p => rw [h] at hread; cases hread
  | ok item => rw [h] at hread; exact congrArg _ (Option.some.inj hread)

theorem isWhole_contactText :
    ∀ n, .number n ∈ Token.scan contactText.toUTF8.data.toList → n.IsWhole := by
  have hscan : (Token.scan contactText.toUTF8.data.toList).filterMap Token.number? =
      [.integer 1, .float .negativeZero] := by decide +kernel
  intro n hn
  have hmem : n ∈ [.integer 1, .float .negativeZero] := by
    rw [← hscan]
    exact List.mem_filterMap.2 ⟨.number n, hn, rfl⟩
  rcases List.mem_pair.1 hmem with rfl | rfl
  · trivial
  · rfl

/-- The contact is read again from its stored form, with the last of its tags. -/
theorem ofData_toStored_contactText :
    ofData contactText.toUTF8 = .ok textContact ∧
      (∀ n, .number n ∈ Token.scan contactText.toUTF8.data.toList → n.IsWhole) ∧
      ofData textContact.toStored.text.toUTF8 = .ok textContact ∧
      ∃ fs gs, Json.read contactText.toUTF8 = .ok (.object fs) ∧
        Json.read textContact.toStored.text.toUTF8 = .ok (.object gs) ∧
        ((Json.object gs).field? "tags").map Json.canonical =
          ((Json.object fs).field? "tags").map Json.canonical := by
  obtain ⟨hread, fs, gs, hfs, hgs, hfields⟩ :=
    ofData_toStored ofData_contactText isWhole_contactText
  exact ⟨ofData_contactText, isWhole_contactText, hread, fs, gs, hfs, hgs,
    hfields "tags" (by decide) (by decide)⟩

end Item

end TenantRestore
