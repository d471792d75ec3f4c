/-
# Values of any shape

A value is read at the front of some tokens if and only if its tokens stand there and its
arrays and objects are not nested too deep: `Reader.value_eq_ok_iff`.  So a reader of values
can be replaced by the value it finds, and what is known of the tokens of a text is known of
the value.

One direction says what written values are read as, `Reader.Reads`.  For the other one a
reader is said to take values: whatever it takes from the front of some tokens are the tokens
of a value.
-/
import Mathlib.Data.List.Forall2
import TenantRestore.Json.Tree
import TenantRestore.Proofs.Json.Read

namespace TenantRestore

namespace Json

/-- Induction over values: a property holds if it holds of an array and of an object as soon as
it holds of what is in them. -/
theorem induct {P : Json → Prop} (null : P .null) (bool : ∀ b, P (.bool b))
    (number : ∀ n, P (.number n)) (string : ∀ s, P (.string s))
    (array : ∀ vs, (∀ v ∈ vs, P v) → P (.array vs))
    (object : ∀ fs, (∀ f ∈ fs, P f.2) → P (.object fs)) : ∀ v, P v
  | .null => null
  | .bool b => bool b
  | .number n => number n
  | .string s => string s
  | .array vs => array vs fun v _ => induct null bool number string array object v
  | .object fs => object fs fun f hf =>
    have hlt : sizeOf f.2 < 1 + sizeOf fs := by
      have := List.sizeOf_lt_of_mem hf
      obtain ⟨k, v⟩ := f
      simp only [Prod.mk.sizeOf_spec] at this ⊢
      omega
    induct null bool number string array object f.2

/-! ## Depth -/

mutual

/-- How many arrays and objects are nested in a value. -/
def depth : Json → Nat
  | .array items => depthItems items + 1
  | .object fields => depthFields fields + 1
  | _ => 0

/-- How many arrays and objects are nested in some values. -/
def depthItems : List Json → Nat
  | [] => 0
  | v :: vs => max (depth v) (depthItems vs)

/-- How many arrays and objects are nested in the values of some fields. -/
def depthFields : List (String × Json) → Nat
  | [] => 0
  | (_, v) :: fs => max (depth v) (depthFields fs)

end

theorem depthItems_le {vs : List Json} {n : Nat} : depthItems vs ≤ n ↔ ∀ v ∈ vs, v.depth ≤ n := by
  induction vs with
  | nil => simp [depthItems]
  | cons v vs ih => simp [depthItems, ih]

theorem depthFields_le {fs : List (String × Json)} {n : Nat} :
    depthFields fs ≤ n ↔ ∀ f ∈ fs, f.2.depth ≤ n := by
  induction fs with
  | nil => simp [depthFields]
  | cons f fs ih => simp [depthFields, ih]

theorem depth_array_le {vs : List Json} {n : Nat} :
    (array vs).depth ≤ n + 1 ↔ ∀ v ∈ vs, v.depth ≤ n := by
  rw [depth, Nat.add_le_add_iff_right, depthItems_le]

theorem depth_object_le {fs : List (String × Json)} {n : Nat} :
    (object fs).depth ≤ n + 1 ↔ ∀ f ∈ fs, f.2.depth ≤ n := by
  rw [depth, Nat.add_le_add_iff_right, depthFields_le]

/-! ## Tokens within a value -/

theorem tokens_infix_itemsFrom {v : Json} {vs : List Json} (h : v ∈ vs) (first : Bool) :
    v.tokens <:+: itemsFrom first vs := by
  induction vs generalizing first with
  | nil => cases h
  | cons w vs ih =>
    rcases List.mem_cons.1 h with rfl | h
    · exact ⟨separator first, itemsFrom false vs, rfl⟩
    · exact (ih h false).trans (List.suffix_append ..).isInfix

theorem tokens_infix_fieldsFrom {f : String × Json} {fs : List (String × Json)} (h : f ∈ fs)
    (first : Bool) : f.2.tokens <:+: fieldsFrom first fs := by
  induction fs generalizing first with
  | nil => cases h
  | cons g fs ih =>
    rcases List.mem_cons.1 h with rfl | h
    · exact ⟨separator first ++ [.string f.1, .colon], fieldsFrom false fs,
        by simp [fieldsFrom, fieldToken]⟩
    · exact (ih h false).trans (List.suffix_append ..).isInfix

theorem tokens_array (vs : List Json) :
    (array vs).tokens = .openArray :: itemsFrom true vs ++ [.closeArray] := by
  rw [tokens, itemTokens_eq]

theorem tokens_object (fs : List (String × Json)) :
    (object fs).tokens = .openObject :: fieldsFrom true fs ++ [.closeObject] := by
  rw [tokens, fieldTokens_eq]

theorem tokens_subset_array {v : Json} {vs : List Json} (h : v ∈ vs) :
    v.tokens ⊆ (array vs).tokens := fun t ht => by
  simp [tokens_array, (tokens_infix_itemsFrom h true).subset ht]

theorem tokens_subset_object {f : String × Json} {fs : List (String × Json)} (h : f ∈ fs) :
    f.2.tokens ⊆ (object fs).tokens := fun t ht => by
  simp [tokens_object, (tokens_infix_fieldsFrom h true).subset ht]

/-- Each level takes a token at least. -/
theorem depth_le_length_tokens (v : Json) : v.depth ≤ v.tokens.length := by
  induction v using induct with
  | null | bool | number | string => exact Nat.zero_le _
  | array vs ih =>
    rw [tokens_array, List.length_append, List.length_singleton, depth_array_le]
    intro v hv
    have := (tokens_infix_itemsFrom hv true).length_le
    exact (ih v hv).trans (this.trans (Nat.le_succ _))
  | object fs ih =>
    rw [tokens_object, List.length_append, List.length_singleton, depth_object_le]
    intro f hf
    have := (tokens_infix_fieldsFrom hf true).length_le
    exact (ih f hf).trans (this.trans (Nat.le_succ _))

theorem sound_array_iff {vs : List Json} : (array vs).Sound ↔ ∀ v ∈ vs, v.Sound :=
  ⟨fun h _ hv t ht => h t (tokens_subset_array hv ht), sound_array⟩

theorem sound_object_iff {fs : List (String × Json)} :
    (object fs).Sound ↔ ∀ f ∈ fs, f.2.Sound :=
  ⟨fun h _ hf t ht => h t (tokens_subset_object hf ht), sound_object⟩

/-- A value is sound if its numbers are. -/
theorem sound_of_numbers {v : Json} (h : ∀ n, .number n ∈ v.tokens → (Token.number n).Sound) :
    v.Sound := by
  induction v using induct with
  | null | bool | string => simp [Sound, tokens, Token.Sound]
  | number n => simpa [Sound, tokens] using h n (by simp [tokens])
  | array vs ih =>
    exact sound_array fun v hv => ih v hv fun n hn => h n (tokens_subset_array hv hn)
  | object fs ih =>
    exact sound_object fun f hf => ih f hf fun n hn => h n (tokens_subset_object hf hn)

end Json

namespace Reader

variable {α β : Type} {r : Reader α}

/-- A computation of two steps succeeds if both do. -/
theorem bind_eq_ok {x : Except Problem α} {f : α → Except Problem β} {b : β} :
    x >>= f = .ok b ↔ ∃ a, x = .ok a ∧ f a = .ok b := by
  cases x <;> simp [bind, Except.bind]

theorem map_eq_ok {x : Except Problem α} {f : α → β} {b : β} :
    x.map f = .ok b ↔ ∃ a, x = .ok a ∧ f a = b := by
  cases x <;> simp [Except.map]

/-! ## Reading written values -/

/-- Values that are read one by one are read as the fields of an object. -/
theorem fields_written {fs : List (String × Json)} {as : List (String × α)}
    (h : List.Forall₂ (fun f a => f.1 = a.1 ∧ r.Reads f.2 a.2) fs as) (first : Bool)
    {limit : Nat} (hlimit : fs.length < limit) (ts : List Token) :
    fields r limit first (Json.fieldsFrom first fs ++ .closeObject :: ts) = .ok (as, ts) := by
  induction h generalizing first limit with
  | nil =>
    obtain ⟨limit, rfl⟩ : ∃ l, limit = l + 1 := ⟨limit - 1, by omega⟩
    rfl
  | @cons f a fs as hf _ ih =>
    obtain ⟨limit, rfl⟩ : ∃ l, limit = l + 1 := ⟨limit - 1, by omega⟩
    obtain ⟨hkey, hread⟩ := hf
    have hmore := ih false (Nat.lt_of_succ_lt_succ hlimit)
    rw [fields, Json.fieldsFrom, Json.fieldToken, List.append_assoc, List.append_assoc,
      List.cons_append, nextKey_written]
    simp [colon, hread _, hmore, hkey, bind, Except.bind, pure, Except.pure]

/-- A value is read if it is not nested too deep. -/
theorem reads_value {levels : Nat} {v : Json} (h : v.depth ≤ levels) :
    (value (levels + 1)).Reads v v := by
  induction v using Json.induct generalizing levels with
  | null | bool | number | string => exact fun ts => rfl
  | array vs ih =>
    obtain ⟨levels, rfl⟩ : ∃ l, levels = l + 1 :=
      ⟨levels - 1, by simp only [Json.depth] at h; omega⟩
    have hitems : List.Forall₂ (value (levels + 1)).Reads vs vs :=
      List.forall₂_same.2 fun v hv => ih v hv (Json.depth_array_le.1 h v hv)
    intro ts
    have hlength := Json.length_le_itemsFrom true vs
    rw [Json.tokens_array, List.cons_append, List.cons_append, List.append_assoc,
      List.singleton_append, value, items_written hitems true (by simp; omega) ts]
    rfl
  | object fs ih =>
    obtain ⟨levels, rfl⟩ : ∃ l, levels = l + 1 :=
      ⟨levels - 1, by simp only [Json.depth] at h; omega⟩
    have hfields :
        List.Forall₂ (fun f a => f.1 = a.1 ∧ (value (levels + 1)).Reads f.2 a.2) fs fs :=
      List.forall₂_same.2 fun f hf => ⟨rfl, ih f hf (Json.depth_object_le.1 h f hf)⟩
    intro ts
    have hlength := Json.length_le_fieldsFrom true fs
    rw [Json.tokens_object, List.cons_append, List.cons_append, List.append_assoc,
      List.singleton_append, value, fields_written hfields true (by simp; omega) ts]
    rfl

/-! ## Taking values -/

/-- A reader takes values: what it takes from the front of some tokens are the tokens of a
value, and `P` holds of the value and of what it is read as. -/
def Takes (r : Reader α) (P : Json → α → Prop) : Prop :=
  ∀ ⦃ts a rest⦄, r ts = .ok (a, rest) → ∃ v, P v a ∧ ts = v.tokens ++ rest

theorem nextItem_ok {first more : Bool} {ts rest : List Token}
    (h : nextItem first ts = .ok (more, rest)) :
    (more = false ∧ ts = .closeArray :: rest) ∨
      (more = true ∧ ts = Json.separator first ++ rest) := by
  unfold nextItem at h
  split at h
  · cases h
  · cases h; exact .inl ⟨rfl, rfl⟩
  · split_ifs at h with hfirst
    · cases h; simp [Json.separator, hfirst]
    · split at h <;> cases h
      simp [Json.separator, hfirst]
  · split_ifs at h with hfirst
    cases h; simp [Json.separator, hfirst]

theorem quoted_ok {k : String} {ts rest : List Token} (h : quoted ts = .ok (k, rest)) :
    ts = .string k :: rest := by
  unfold quoted at h
  split at h <;> cases h
  rfl

theorem nextKey_ok {first : Bool} {key : Option String} {ts rest : List Token}
    (h : nextKey first ts = .ok (key, rest)) :
    (key = none ∧ ts = .closeObject :: rest) ∨
      ∃ k, key = some k ∧ ts = Json.separator first ++ .string k :: rest := by
  unfold nextKey at h
  split at h
  · cases h
  · cases h; exact .inl ⟨rfl, rfl⟩
  · rename_i t ts _
    cases first with
    | true =>
      obtain ⟨⟨k, us⟩, hquoted, hkey⟩ := map_eq_ok.1 h
      cases hkey
      exact .inr ⟨k, rfl, quoted_ok hquoted⟩
    | false =>
      by_cases hcomma : t = .comma
      · simp only [hcomma, Bool.not_false, ne_eq, not_true_eq_false, and_false, if_false] at h
        obtain ⟨⟨k, us⟩, hquoted, hkey⟩ := map_eq_ok.1 h
        cases hkey
        have hts : ts = .string k :: us := quoted_ok hquoted
        subst hts
        exact .inr ⟨k, rfl, by rw [hcomma]; rfl⟩
      · simp [hcomma] at h

theorem colon_ok {ts rest : List Token} (h : colon ts = .ok ((), rest)) :
    ts = .colon :: rest := by
  unfold colon at h
  split at h <;> cases h
  rfl

/-- A reader that takes values takes those of an array up to its end. -/
theorem items_ok {P : Json → α → Prop} (h : r.Takes P) {limit : Nat} {first : Bool}
    {ts rest : List Token} {as : List α} (hread : items r limit first ts = .ok (as, rest)) :
    ∃ vs, List.Forall₂ P vs as ∧ ts = Json.itemsFrom first vs ++ .closeArray :: rest := by
  induction limit generalizing first ts as with
  | zero => cases hread
  | succ limit ih =>
    rw [items, bind_eq_ok] at hread
    obtain ⟨⟨more, ts'⟩, hnext, hread⟩ := hread
    rcases nextItem_ok hnext with ⟨rfl, rfl⟩ | ⟨rfl, rfl⟩
    · cases hread
      exact ⟨[], .nil, rfl⟩
    · simp only [if_true, bind_eq_ok, Prod.exists] at hread
      obtain ⟨a, us, hitem, as, _, hmore, hread⟩ := hread
      cases hread
      obtain ⟨v, hv, rfl⟩ := h hitem
      obtain ⟨vs, hvs, rfl⟩ := ih hmore
      exact ⟨v :: vs, .cons hv hvs, by simp [Json.itemsFrom]⟩

/-- A reader that takes values takes those of an object up to its end. -/
theorem fields_ok {P : Json → α → Prop} (h : r.Takes P) {limit : Nat} {first : Bool}
    {ts rest : List Token} {as : List (String × α)}
    (hread : fields r limit first ts = .ok (as, rest)) :
    ∃ fs, List.Forall₂ (fun f a => f.1 = a.1 ∧ P f.2 a.2) fs as ∧
      ts = Json.fieldsFrom first fs ++ .closeObject :: rest := by
  induction limit generalizing first ts as with
  | zero => cases hread
  | succ limit ih =>
    rw [fields, bind_eq_ok] at hread
    obtain ⟨⟨key, ts'⟩, hnext, hread⟩ := hread
    rcases nextKey_ok hnext with ⟨rfl, rfl⟩ | ⟨k, rfl, rfl⟩
    · cases hread
      exact ⟨[], .nil, rfl⟩
    · simp only [bind_eq_ok, Prod.exists] at hread
      obtain ⟨_, us, hcolon, a, vs, hvalue, as, _, hmore, hread⟩ := hread
      cases hread
      obtain rfl := colon_ok hcolon
      obtain ⟨v, hv, rfl⟩ := h hvalue
      obtain ⟨fs, hfs, rfl⟩ := ih hmore
      exact ⟨(k, v) :: fs, .cons ⟨rfl, hv⟩ hfs, by simp [Json.fieldsFrom, Json.fieldToken]⟩

/-- What is read as a value are its tokens, and it is not nested too deep. -/
theorem value_takes (levels : Nat) :
    (value (levels + 1)).Takes fun v a => v.depth ≤ levels ∧ v = a := by
  induction levels using Nat.strong_induction_on with
  | _ levels ih =>
    -- the elements of an array and the fields of an object are taken with one level less
    intro ts a rest h
    unfold value at h
    split at h
    · cases h; exact ⟨.null, ⟨Nat.zero_le _, rfl⟩, rfl⟩
    · cases h; exact ⟨.bool _, ⟨Nat.zero_le _, rfl⟩, rfl⟩
    · cases h; exact ⟨.number _, ⟨Nat.zero_le _, rfl⟩, rfl⟩
    · cases h; exact ⟨.string _, ⟨Nat.zero_le _, rfl⟩, rfl⟩
    · rename_i inner ts hlevels
      obtain rfl : levels = inner + 1 := by omega
      obtain ⟨⟨vs, us⟩, hitems, h⟩ := bind_eq_ok.1 h
      cases h
      obtain ⟨ws, hws, rfl⟩ := items_ok (ih inner (Nat.lt_succ_self _)) hitems
      obtain ⟨hdepth, heq⟩ := (List.forall₂_and_left ..).1 hws
      obtain rfl : ws = vs := by rwa [List.forall₂_eq_eq_eq] at heq
      exact ⟨.array ws, ⟨Json.depth_array_le.2 hdepth, rfl⟩, by simp [Json.tokens_array]⟩
    · rename_i inner ts hlevels
      obtain rfl : levels = inner + 1 := by omega
      obtain ⟨⟨fs, us⟩, hfields, h⟩ := bind_eq_ok.1 h
      cases h
      obtain ⟨gs, hgs, rfl⟩ := fields_ok (ih inner (Nat.lt_succ_self _)) hfields
      obtain ⟨hdepth, heq⟩ := (List.forall₂_and_left ..).1
        (hgs.imp fun f g hfg => ⟨hfg.2.1, Prod.ext hfg.1 hfg.2.2⟩)
      obtain rfl : gs = fs := by rwa [List.forall₂_eq_eq_eq] at heq
      exact ⟨.object gs, ⟨Json.depth_object_le.2 hdepth, rfl⟩, by simp [Json.tokens_object]⟩
    all_goals cases h

/-- A value is read if and only if its tokens come first and it is not nested too deep. -/
theorem value_eq_ok_iff {levels : Nat} {ts rest : List Token} {v : Json} :
    value (levels + 1) ts = .ok (v, rest) ↔ v.depth ≤ levels ∧ ts = v.tokens ++ rest := by
  constructor
  · intro h
    obtain ⟨_, ⟨hdepth, rfl⟩, hts⟩ := value_takes levels h
    exact ⟨hdepth, hts⟩
  · rintro ⟨hdepth, rfl⟩
    exact reads_value hdepth rest

/-- The tokens of a value show where it ends and which value it is. -/
theorem tokens_append_inj {v w : Json} {ts us : List Token}
    (h : v.tokens ++ ts = w.tokens ++ us) : v = w ∧ ts = us := by
  -- a reader that allows for both finds each of them at the front of the same tokens
  have hv := reads_value (Nat.le_max_left v.depth w.depth) ts
  have hw := reads_value (Nat.le_max_right v.depth w.depth) us
  rw [h, hw] at hv
  simpa [eq_comm] using hv

/-- A text is read as a value if it is cut into the tokens of the value. -/
theorem readText_value {levels : Nat} {data : ByteArray} {v : Json} (h : v.depth ≤ levels)
    (hscan : Token.scan data.data.toList = v.tokens) :
    (value (levels + 1)).readText data = .ok v := by
  have hread := reads_value h []
  rw [List.append_nil, ← hscan] at hread
  simp [readText, hread, bind, Except.bind, pure, Except.pure]

end Reader

theorem Json.read_eq_ok {data : ByteArray} {v : Json} (h : v.depth ≤ Reader.maxLevels - 1)
    (hscan : Token.scan data.data.toList = v.tokens) : Json.read data = .ok v := by
  have hread : (Reader.value Reader.maxLevels).readText data = .ok v :=
    Reader.readText_value h hscan
  rw [Json.read, hread]
  rfl

/-! ## The numbers of a text -/

namespace Numeral

theorem collect_le {limit : Nat} (ds : List Nat) {v : Nat} (h : v ≤ limit) :
    (collect limit v ds).1 ≤ limit := by
  induction ds generalizing v with
  | nil => exact h
  | cons d ds ih =>
    unfold collect
    split_ifs with hle
    · exact ih hle
    · exact h

theorem map_signed_ne (x : Option Float) (negative : Bool) (i : Int) :
    x.map (signed negative) ≠ some (.integer i) := by
  cases x <;> simp [signed]

/-- An integer of a text has no more than 64 bits. -/
theorem range_of_value? {n : Numeral} {i : Int} (h : n.value? = some (.integer i)) :
    -0x8000000000000000 ≤ i ∧ i ≤ maxUnsigned := by
  have hlead := collect_le n.whole (Nat.zero_le maxUnsigned)
  unfold value? at h
  dsimp only at h
  split at h
  · split_ifs at h with hshift hsign hrange
    · exact absurd h (map_signed_ne _ _ _)
    · cases h
      omega
    · cases h
      have hmax : maxUnsigned = 0xffffffffffffffff := rfl
      omega
    · simp [signed] at h
  · split at h
    · exact absurd h (map_signed_ne _ _ _)
    · split_ifs at h
      · simp [signed] at h
      all_goals exact absurd h (map_signed_ne _ _ _)

end Numeral

namespace Token

/-- Whether a token is not an integer of more than 64 bits. -/
def InRange : Token → Prop
  | .number (.integer i) => -0x8000000000000000 ≤ i ∧ i ≤ maxUnsigned
  | _ => True

theorem inRange_numberAt (negative : Bool) (bs : List UInt8) :
    (numberAt negative bs).1.InRange := by
  unfold numberAt
  split
  · split
    · rename_i n rest _ v hv
      cases v with
      | integer i => exact Numeral.range_of_value? hv
      | float x => trivial
    · trivial
  · trivial

theorem inRange_wordAt {word : Token} (h : word.InRange) (cs : List Char) (bs : List UInt8) :
    (wordAt word cs bs).1.InRange := by
  unfold wordAt
  split
  · exact h
  · trivial

theorem inRange_stringAt (bs : List UInt8) : (stringAt bs).1.InRange := by
  unfold stringAt
  dsimp only
  split <;> trivial

theorem inRange_ite {c : Prop} [Decidable c] {x y : Token × Option (List UInt8)}
    (hx : x.1.InRange) (hy : y.1.InRange) : (if c then x else y).1.InRange := by
  split
  · exact hx
  · exact hy

theorem inRange_next (b : UInt8) (bs : List UInt8) : (next b bs).1.InRange := by
  unfold next
  iterate 6 refine inRange_ite trivial ?_
  refine inRange_ite (inRange_stringAt bs) ?_
  iterate 3 refine inRange_ite (inRange_wordAt (by trivial) ..) ?_
  iterate 2 refine inRange_ite (inRange_numberAt ..) ?_
  trivial

/-- The integers of a text have no more than 64 bits. -/
theorem inRange_of_mem_scan {bs : List UInt8} {t : Token} (h : t ∈ scan bs) : t.InRange := by
  unfold scan at h
  generalize bs.length = limit at h
  induction limit generalizing bs with
  | zero => cases h
  | succ limit ih =>
    cases bs with
    | nil => cases h
    | cons b bs =>
      have hnext := inRange_next b bs
      rw [scanUpTo] at h
      split_ifs at h
      · exact ih h
      · split at h <;> rename_i heq <;> rw [heq] at hnext
        · rcases List.mem_cons.1 h with rfl | h
          · exact hnext
          · exact ih h
        · rwa [List.mem_singleton.1 h]

end Token

end TenantRestore
