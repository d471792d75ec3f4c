/-
# The storage format of metadata

Metadata is read back from the text it is stored as: `Metadata.ofData_text_inverse`.  A field
that is left out has the value an empty record starts with, so each field, written or not,
brings the record nearer to the one that was stored; the fields are written in the order in
which the record is filled here.
-/
import TenantRestore.Permission.Stored
import TenantRestore.Proofs.Json.Read
import TenantRestore.Proofs.Time

namespace TenantRestore

open Reader (Fills)

namespace Permission

section Fields

variable {α ρ : Type} {r : Reader α} {fields : List (Reader.Field ρ)} {name : String}

/-- A text field fills a record with its text, which an absent one has already. -/
theorem fills_textField {set : String → ρ → ρ} {text : String} {a b : ρ}
    (hfind : fields.find? (fun f => f.name = name) = some (Reader.field name .string set))
    (habsent : set "" a = a) (hset : set text a = b) : Fills fields (textField name text) a b := by
  unfold textField
  split_ifs with hempty
  · rw [← hset, hempty, habsent]
    exact .nil a
  · exact .field (Reader.reads_string text) hfind hset

/-- A list field fills a record with its list, which an absent one has already. -/
theorem fills_listField {set : List α → ρ → ρ} {toJson : α → Json} {values : List α} {a b : ρ}
    (hread : ∀ v, r.Reads (toJson v) v)
    (hfind : fields.find? (fun f => f.name = name) = some (Reader.field name (.array r) set))
    (habsent : set [] a = a) (hset : set values a = b) :
    Fills fields (listField name toJson values) a b := by
  unfold listField
  split_ifs with hempty
  · rw [← hset, List.isEmpty_iff.1 hempty, habsent]
    exact .nil a
  · have hitems : List.Forall₂ r.Reads (values.map toJson) values := by
      rw [List.forall₂_map_left_iff, List.forall₂_same]
      exact fun v _ => hread v
    exact .field (Reader.Reads.array hitems) hfind hset

/-- An optional field fills a record with its value, which an absent one has already. -/
theorem fills_optionalField {set : Option α → ρ → ρ} {toJson : α → Json} {value : Option α}
    {a b : ρ} (hread : ∀ v, r.Reads (toJson v) v) (hnull : ∀ v, toJson v ≠ .null)
    (hfind : fields.find? (fun f => f.name = name) = some (Reader.field name (.optional r) set))
    (habsent : set none a = a) (hset : set value a = b) :
    Fills fields (optionalField name toJson value) a b := by
  cases value with
  | none =>
    rw [← hset, habsent]
    exact .nil a
  | some v => exact .field ((hread v).optional (hnull v)) hfind hset

/-! Each of these fields is written at most once, and what is written is read back from its
text. -/

theorem keys_textField (name text : String) :
    ((textField name text).map Prod.fst).Sublist [name] := by
  unfold textField
  split_ifs <;> simp

theorem keys_listField (name : String) (toJson : α → Json) (values : List α) :
    ((listField name toJson values).map Prod.fst).Sublist [name] := by
  unfold listField
  split_ifs <;> simp

theorem keys_optionalField (name : String) (toJson : α → Json) (value : Option α) :
    ((optionalField name toJson value).map Prod.fst).Sublist [name] := by
  cases value <;> simp [optionalField]

theorem sound_textField (name text : String) : ∀ f ∈ textField name text, f.2.Sound := by
  unfold textField
  split_ifs
  · simp
  · simpa using Json.sound_string text

theorem sound_listField (name : String) {toJson : α → Json} (h : ∀ v, (toJson v).Sound)
    (values : List α) : ∀ f ∈ listField name toJson values, f.2.Sound := by
  unfold listField
  split_ifs
  · simp
  · have hitems : ∀ v ∈ values.map toJson, v.Sound := by simpa using fun v _ => h v
    simpa using Json.sound_array hitems

theorem sound_optionalField (name : String) {toJson : α → Json} (h : ∀ v, (toJson v).Sound)
    (value : Option α) : ∀ f ∈ optionalField name toJson value, f.2.Sound := by
  cases value with
  | none => simp [optionalField]
  | some v => simpa [optionalField] using h v

end Fields

theorem reads_kind (k : PrincipalKind) :
    (Reader.oneOf PrincipalKind.ofName?).Reads (.string k.name) k :=
  Reader.reads_oneOf (by cases k <;> rfl)

theorem reads_moment (m : Moment) : Moment.reader.Reads (.string m.text) m :=
  (Reader.reads_string m.text).convert m.ofRelaxed?_text

theorem nodup_keys (p : Permission) {fs : List (String × Json)} (h : p.toJson = .object fs) :
    (fs.map Prod.fst).Nodup := by
  obtain rfl := Json.object.inj h
  simp only [List.map_append]
  have hdistinct : ["id", "role", "email", "entityId", "entityType", "expiration"].Nodup := by
    decide
  exact hdistinct.sublist <| (((((keys_textField ..).append (keys_listField ..)).append
    (keys_textField ..)).append (keys_textField ..)).append (keys_optionalField ..)).append
    (keys_optionalField ..)

/-- A permission is read from its stored form. -/
theorem reads_toJson (p : Permission) : reader.Reads p.toJson p := by
  obtain ⟨id, roles, email, entityId, kind, expiration⟩ := p
  have hid : Fills fields (textField "id" id) {} { id } := fills_textField rfl rfl rfl
  have hroles : Fills fields (listField "role" .string roles) { id } { id, roles } :=
    fills_listField Reader.reads_string rfl rfl rfl
  have hemail : Fills fields (textField "email" email) { id, roles } { id, roles, email } :=
    fills_textField rfl rfl rfl
  have hentity : Fills fields (textField "entityId" entityId) { id, roles, email }
      { id, roles, email, entityId } := fills_textField rfl rfl rfl
  have hkind : Fills fields (optionalField "entityType" (fun k => .string k.name) kind)
      { id, roles, email, entityId } { id, roles, email, entityId, kind } :=
    fills_optionalField reads_kind (by simp) rfl rfl rfl
  have hexpiration : Fills fields (optionalField "expiration" (fun m => .string m.text) expiration)
      { id, roles, email, entityId, kind } ⟨id, roles, email, entityId, kind, expiration⟩ :=
    fills_optionalField reads_moment (by simp) rfl rfl rfl
  refine Reader.Reads.record (((((hid.append hroles).append hemail).append hentity).append
    hkind).append hexpiration) (nodup_keys _ rfl) (by simp [fields, Reader.field])

theorem sound_toJson (p : Permission) : p.toJson.Sound := by
  refine Json.sound_object fun f hf => ?_
  simp only [List.mem_append] at hf
  rcases hf with ((((hf | hf) | hf) | hf) | hf) | hf
  · exact sound_textField _ _ f hf
  · exact sound_listField _ Json.sound_string _ f hf
  · exact sound_textField _ _ f hf
  · exact sound_textField _ _ f hf
  · exact sound_optionalField _ (fun _ => Json.sound_string _) _ f hf
  · exact sound_optionalField _ (fun _ => Json.sound_string _) _ f hf

end Permission

namespace Metadata

theorem reads_code (s : Sharing) :
    (Reader.convert (.natural 255) Sharing.ofCode?).Reads (.number (.integer s.code)) s :=
  (Reader.reads_natural (by cases s <;> decide)).convert (by cases s <;> rfl)

theorem nodup_keys (m : Metadata) {fs : List (String × Json)} (h : m.toJson = .object fs) :
    (fs.map Prod.fst).Nodup := by
  obtain rfl := Json.object.inj h
  simp only [List.map_append]
  have hdistinct : ["filename", "permissionMode", "permissions"].Nodup := by decide
  exact hdistinct.sublist <|
    ((Permission.keys_textField ..).append (.refl _)).append (Permission.keys_listField ..)

/-- Metadata is read from its stored form. -/
theorem reads_toJson (m : Metadata) : reader.Reads m.toJson m := by
  obtain ⟨fileName, sharing, permissions⟩ := m
  have hname : Fills fields (Permission.textField "filename" fileName) {} { fileName } :=
    Permission.fills_textField rfl rfl rfl
  have hsharing : Fills fields [("permissionMode", .number (.integer sharing.code))] { fileName }
      { fileName, sharing } := .field (reads_code sharing) rfl rfl
  have hpermissions : Fills fields
      (Permission.listField "permissions" Permission.toJson permissions) { fileName, sharing }
      ⟨fileName, sharing, permissions⟩ :=
    Permission.fills_listField Permission.reads_toJson rfl rfl rfl
  exact Reader.Reads.record ((hname.append hsharing).append hpermissions) (nodup_keys _ rfl)
    (by simp [fields, Reader.field])

theorem sound_toJson (m : Metadata) : m.toJson.Sound := by
  refine Json.sound_object fun f hf => ?_
  simp only [List.mem_append, List.mem_singleton] at hf
  rcases hf with (hf | rfl) | hf
  · exact Permission.sound_textField _ _ f hf
  · exact Json.sound_integer (by cases m.sharing <;> decide) (by cases m.sharing <;> decide)
  · exact Permission.sound_listField _ Permission.sound_toJson _ f hf

/-- Metadata is read back from the text it is stored as. -/
theorem ofData_text (m : Metadata) : ofData m.toJson.text.toUTF8 = .ok m :=
  m.reads_toJson.readText m.sound_toJson

/-- Metadata is read back from the text it is stored as.  So storing metadata again that has
been read, from whatever text, makes no difference. -/
theorem ofData_text_inverse :
    (∀ m : Metadata, ofData m.toJson.text.toUTF8 = .ok m) ∧
    ∀ data : ByteArray,
      (ofData data).bind (fun m => ofData m.toJson.text.toUTF8) = ofData data := by
  refine ⟨ofData_text, fun data => ?_⟩
  cases ofData data with
  | error p => rfl
  | ok m => simp only [Except.bind, m.ofData_text]

end Metadata

end TenantRestore
