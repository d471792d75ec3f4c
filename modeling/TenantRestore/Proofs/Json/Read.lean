/-
# Reading what was written

A reader reads a value as something if it takes the tokens of the value, whatever follows
them, and leaves what follows: `Reader.Reads`.  This is closed under the ways readers are put
together, so that what a record is read as follows from what its fields are read as.

The fields of a record change it one after the other, each by its setter: `Reader.Fills`.
Fields that are left out don't appear there, so a record which leaves out the fields that
have their default is filled with the same values as one that has them all.
-/
import TenantRestore.Json.Reader
import TenantRestore.Proofs.Json.Scan

namespace TenantRestore

namespace Json

/-- What stands in front of an element or a field: a separator, unless it is the first one. -/
def separator (first : Bool) : List Token := if first then [] else [.comma]

/-- The tokens of elements up to the end of their array. -/
def itemsFrom : (first : Bool) → List Json → List Token
  | _, [] => []
  | first, v :: vs => separator first ++ v.tokens ++ itemsFrom false vs

/-- The tokens of a field. -/
def fieldToken (f : String × Json) : List Token := .string f.1 :: .colon :: f.2.tokens

/-- The tokens of fields up to the end of their object. -/
def fieldsFrom : (first : Bool) → List (String × Json) → List Token
  | _, [] => []
  | first, f :: fs => separator first ++ fieldToken f ++ fieldsFrom false fs

theorem tokens_ne_nil (v : Json) : v.tokens ≠ [] := by
  cases v <;> simp [tokens]

theorem itemTokens_eq (vs : List Json) : itemTokens vs = itemsFrom true vs := by
  induction vs with
  | nil => rfl
  | cons v vs ih =>
    cases vs with
    | nil => simp [itemTokens, itemsFrom, separator]
    | cons w vs => simp [itemTokens, ih, itemsFrom, separator]

theorem fieldTokens_eq (fs : List (String × Json)) : fieldTokens fs = fieldsFrom true fs := by
  induction fs with
  | nil => rfl
  | cons f fs ih =>
    cases fs with
    | nil => simp [fieldTokens, fieldsFrom, fieldToken, separator]
    | cons g fs => simp [fieldTokens, ih, fieldsFrom, fieldToken, separator]

theorem length_le_itemsFrom (first : Bool) (vs : List Json) :
    vs.length ≤ (itemsFrom first vs).length := by
  induction vs generalizing first with
  | nil => simp
  | cons v vs ih =>
    have hpos := List.length_pos_iff.2 v.tokens_ne_nil
    have hmore := ih false
    simp only [itemsFrom, List.length_append, List.length_cons]
    omega

theorem length_le_fieldsFrom (first : Bool) (fs : List (String × Json)) :
    fs.length ≤ (fieldsFrom first fs).length := by
  induction fs generalizing first with
  | nil => simp
  | cons f fs ih =>
    have hmore := ih false
    simp only [fieldsFrom, fieldToken, List.length_append, List.length_cons]
    omega

/-! ## Sound values -/

theorem sound_string (s : String) : (string s).Sound := by
  simp [Sound, tokens, Token.Sound]

theorem sound_integer {i : Int} (h : -0x8000000000000000 ≤ i) (h' : i ≤ maxUnsigned) :
    (number (.integer i)).Sound := by
  simpa [Sound, tokens, Token.Sound] using ⟨h, h'⟩

theorem sound_separator {first : Bool} {t : Token} (h : t ∈ separator first) : t.Sound := by
  cases first <;> simp_all [separator, Token.Sound]

theorem sound_itemsFrom {vs : List Json} (h : ∀ v ∈ vs, v.Sound) (first : Bool) :
    ∀ t ∈ itemsFrom first vs, t.Sound := by
  induction vs generalizing first with
  | nil => simp [itemsFrom]
  | cons v vs ih =>
    intro t ht
    rcases List.mem_append.1 ht with ht | ht
    · rcases List.mem_append.1 ht with ht | ht
      · exact sound_separator ht
      · exact h v (by simp) t ht
    · exact ih (fun w hw => h w (by simp [hw])) false t ht

theorem sound_fieldsFrom {fs : List (String × Json)} (h : ∀ f ∈ fs, f.2.Sound) (first : Bool) :
    ∀ t ∈ fieldsFrom first fs, t.Sound := by
  induction fs generalizing first with
  | nil => simp [fieldsFrom]
  | cons f fs ih =>
    intro t ht
    rcases List.mem_append.1 ht with ht | ht
    · rcases List.mem_append.1 ht with ht | ht
      · exact sound_separator ht
      · rcases List.mem_cons.1 ht with rfl | ht
        · trivial
        · rcases List.mem_cons.1 ht with rfl | ht
          · trivial
          · exact h f (by simp) t ht
    · exact ih (fun g hg => h g (by simp [hg])) false t ht

theorem sound_array {vs : List Json} (h : ∀ v ∈ vs, v.Sound) : (array vs).Sound := by
  intro t ht
  rw [tokens, itemTokens_eq, List.mem_append, List.mem_cons, List.mem_singleton] at ht
  rcases ht with (rfl | ht) | rfl
  · trivial
  · exact sound_itemsFrom h true t ht
  · trivial

theorem sound_object {fs : List (String × Json)} (h : ∀ f ∈ fs, f.2.Sound) :
    (object fs).Sound := by
  intro t ht
  rw [tokens, fieldTokens_eq, List.mem_append, List.mem_cons, List.mem_singleton] at ht
  rcases ht with (rfl | ht) | rfl
  · trivial
  · exact sound_fieldsFrom h true t ht
  · trivial

end Json

namespace Reader

variable {α β ρ : Type} {r : Reader α} {v : Json}

/-- A reader reads a value as something: it takes the tokens of the value and leaves what
follows them. -/
def Reads (r : Reader α) (v : Json) (a : α) : Prop :=
  ∀ ts, r (v.tokens ++ ts) = .ok (a, ts)

/-- A text that was written is read as what its value is read as. -/
theorem Reads.readText {a : α} (h : r.Reads v a) (hs : v.Sound) :
    r.readText v.text.toUTF8 = .ok a := by
  have hread := h []
  rw [List.append_nil] at hread
  simp only [Reader.readText, Json.scan_text hs]
  simp [hread, bind, Except.bind, pure, Except.pure]

/-! ## Scalars -/

theorem reads_string (s : String) : string.Reads (.string s) s := fun _ => rfl

theorem reads_natural {limit n : Nat} (h : n ≤ limit) :
    (natural limit).Reads (.number (.integer n)) n := by
  intro ts
  simp [Json.tokens, natural, h]

theorem Reads.convert {a : α} {b : β} {f : α → Option β} (h : r.Reads v a) (hf : f a = some b) :
    (convert r f).Reads v b := by
  intro ts
  simp [Reader.convert, h ts, hf, bind, Except.bind, pure, Except.pure]

theorem Reads.optional {a : α} (h : r.Reads v a) (hv : v ≠ .null) :
    (optional r).Reads v (some a) := by
  intro ts
  have hread := h ts
  cases v <;> simp_all [Json.tokens, Reader.optional, bind, Except.bind, pure, Except.pure]

theorem reads_oneOf {named : String → Option α} {s : String} {a : α} (h : named s = some a) :
    (oneOf named).Reads (.string s) a := by
  intro ts
  simp [Json.tokens, oneOf, Reader.convert, quoted, h, bind, Except.bind, pure, Except.pure]

/-! ## Arrays -/

/-- A value in an array is a further element. -/
theorem nextItem_written (first : Bool) (v : Json) (ts : List Token) :
    nextItem first (Json.separator first ++ v.tokens ++ ts) = .ok (true, v.tokens ++ ts) := by
  cases first <;> cases v <;> rfl

/-- Values that are read one by one are read as elements up to the end of an array. -/
theorem items_written {vs : List Json} {as : List α} (h : List.Forall₂ r.Reads vs as)
    (first : Bool) {limit : Nat} (hlimit : vs.length < limit) (ts : List Token) :
    items r limit first (Json.itemsFrom first vs ++ .closeArray :: ts) = .ok (as, ts) := by
  induction h generalizing first limit with
  | nil =>
    obtain ⟨limit, rfl⟩ : ∃ l, limit = l + 1 := ⟨limit - 1, by omega⟩
    rfl
  | @cons v a vs as hread _ ih =>
    obtain ⟨limit, rfl⟩ : ∃ l, limit = l + 1 := ⟨limit - 1, by omega⟩
    have hmore := ih false (Nat.lt_of_succ_lt_succ hlimit)
    rw [items, Json.itemsFrom, List.append_assoc, nextItem_written]
    simp [hread _, hmore, bind, Except.bind, pure, Except.pure]

/-- An array is read if all its elements are. -/
theorem Reads.array {vs : List Json} {as : List α} (h : List.Forall₂ r.Reads vs as) :
    (array r).Reads (.array vs) as := by
  intro ts
  have hlength := Json.length_le_itemsFrom true vs
  simp only [Json.tokens, Json.itemTokens_eq, List.cons_append, List.append_assoc, List.nil_append]
  exact items_written h true (by simp; omega) ts

/-! ## Records -/

variable {open_ : Bool} {fields : List (Field ρ)}

/-- Fields fill a record: each is known and read, and changes the record by its setter. -/
inductive Fills (fields : List (Field ρ)) : List (String × Json) → ρ → ρ → Prop
  /-- No field changes nothing. -/
  | nil (a : ρ) : Fills fields [] a a
  /-- A field in front changes the record before the others do. -/
  | cons {key : String} {v : Json} {f : Field ρ} {set : ρ → ρ} {fs : List (String × Json)}
      {a b : ρ} (hfind : fields.find? (fun f => f.name = key) = some f)
      (hread : f.read.Reads v set) (hmore : Fills fields fs (set a) b) :
      Fills fields ((key, v) :: fs) a b

theorem Fills.append {fs gs : List (String × Json)} {a b c : ρ} (h : Fills fields fs a b)
    (h' : Fills fields gs b c) : Fills fields (fs ++ gs) a c := by
  induction h with
  | nil => exact h'
  | cons hfind hread _ ih => exact .cons hfind hread (ih h')

/-- A field that stores what was read is filled with it. -/
theorem Fills.field {key : String} {set : α → ρ → ρ} {a : α} {b c : ρ} (hread : r.Reads v a)
    (hfind : fields.find? (fun f => f.name = key) = some (Reader.field key r set))
    (hset : set a b = c) : Fills fields [(key, v)] b c := by
  have hfield : (Reader.field key r set).read.Reads v (set a) := fun ts => by
    simp [Reader.field, hread ts, bind, Except.bind, pure, Except.pure]
  exact .cons hfind hfield (hset ▸ .nil _)

theorem nextKey_written (first : Bool) (key : String) (ts : List Token) :
    nextKey first (Json.separator first ++ .string key :: ts) = .ok (some key, ts) := by
  cases first <;> rfl

/-- A known field that has not been read yet is read and changes the record. -/
theorem members_field {key : String} {f : Field ρ} {set : ρ → ρ}
    (hfind : fields.find? (fun f => f.name = key) = some f) (hread : f.read.Reads v set)
    {seen : List String} (hseen : key ∉ seen) (first : Bool) (limit : Nat) (a : ρ)
    (ts : List Token) :
    members open_ fields (limit + 1) seen first a
      (Json.separator first ++ Json.fieldToken (key, v) ++ ts) =
      members open_ fields limit (key :: seen) false (set a) ts := by
  rw [members, Json.fieldToken, List.append_assoc, List.cons_append, nextKey_written]
  simp [hfind, hseen, colon, hread _, bind, Except.bind]

/-- At the end of an object the record is complete if all required fields have been read. -/
theorem members_end {seen : List String} (h : ∀ f ∈ fields, f.required → f.name ∈ seen)
    (first : Bool) (limit : Nat) (a : ρ) (ts : List Token) :
    members open_ fields (limit + 1) seen first a (.closeObject :: ts) = .ok (a, ts) := by
  simpa [members, nextKey, bind, Except.bind, pure, Except.pure, or_iff_not_imp_left] using h

/-- Fields that fill a record are read up to the end of an object. -/
theorem members_written {fs : List (String × Json)} {a b : ρ} (h : Fills fields fs a b)
    {seen : List String} (hkeys : (fs.map Prod.fst).Nodup)
    (hseen : ∀ k ∈ fs.map Prod.fst, k ∉ seen)
    (hrequired : ∀ f ∈ fields, f.required → f.name ∈ fs.map Prod.fst ∨ f.name ∈ seen)
    (first : Bool) {limit : Nat} (hlimit : fs.length < limit) (ts : List Token) :
    members open_ fields limit seen first a (Json.fieldsFrom first fs ++ .closeObject :: ts) =
      .ok (b, ts) := by
  induction h generalizing seen first limit with
  | nil a =>
    obtain ⟨limit, rfl⟩ : ∃ l, limit = l + 1 := ⟨limit - 1, by omega⟩
    exact members_end (by simpa using hrequired) first limit a ts
  | @cons key v f set fs a b hfind hread _ ih =>
    obtain ⟨limit, rfl⟩ : ∃ l, limit = l + 1 := ⟨limit - 1, by omega⟩
    simp only [List.map_cons, List.nodup_cons, List.mem_cons, List.length_cons, forall_eq_or_imp]
      at hkeys hseen hrequired hlimit
    rw [Json.fieldsFrom, List.append_assoc, members_field hfind hread hseen.1]
    refine ih hkeys.2 (fun k hk => ?_) (fun f hf hf' => ?_) false (by omega)
    · have hne : k ≠ key := fun e => hkeys.1 (e ▸ hk)
      simp [hne, hseen.2 k hk]
    · have := hrequired f hf hf'
      simp only [List.mem_cons]
      tauto

/-- A record is read from an object whose fields fill it. -/
theorem Reads.record {fs : List (String × Json)} {a b : ρ} (h : Fills fields fs a b)
    (hkeys : (fs.map Prod.fst).Nodup)
    (hrequired : ∀ f ∈ fields, f.required → f.name ∈ fs.map Prod.fst) :
    (record open_ fields a).Reads (.object fs) b := by
  intro ts
  have hlength := Json.length_le_fieldsFrom true fs
  simp only [Json.tokens, Json.fieldTokens_eq, List.cons_append, List.append_assoc,
    List.nil_append]
  exact members_written h hkeys (by simp) (fun f hf hf' => .inl (hrequired f hf hf')) true
    (by simp; omega) ts

end Reader

end TenantRestore
