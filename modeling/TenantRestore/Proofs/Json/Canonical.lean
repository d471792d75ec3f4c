/-
# Canonical forms

The canonical form of a value says the same as the value and is its own canonical form:
`Json.canonical_canonical`.  Sorting the fields of an object keeps of each key the last value,
`field?_sortFields`, and leaves fields alone that are sorted already; the latter is why forms
that were read back do not change again.
-/
import Mathlib.Data.String.Basic
import TenantRestore.Proofs.Json.Value

namespace TenantRestore

namespace Json

variable {α : Type}

/-! ## Sorted fields -/

/-- Fields are sorted by key, each key occurring once. -/
def Sorted (fs : List (String × α)) : Prop := fs.Pairwise fun f g => f.1 < g.1

theorem mem_insertField {k : String} {v : α} {fs : List (String × α)} {f : String × α}
    (h : f ∈ insertField k v fs) : f = (k, v) ∨ f ∈ fs := by
  induction fs with
  | nil => exact .inl (List.mem_singleton.1 h)
  | cons g fs ih =>
    obtain ⟨l, w⟩ := g
    rw [insertField] at h
    split_ifs at h with hlt heq
    · exact List.mem_cons.1 h
    · exact (List.mem_cons.1 h).imp_right (List.mem_cons_of_mem _)
    · rcases List.mem_cons.1 h with rfl | h
      · exact .inr (List.mem_cons_self ..)
      · exact (ih h).imp_right (List.mem_cons_of_mem _)

theorem Sorted.insertField {fs : List (String × α)} (h : Sorted fs) (k : String) (v : α) :
    Sorted (insertField k v fs) := by
  induction fs with
  | nil => exact List.pairwise_singleton ..
  | cons g fs ih =>
    obtain ⟨l, w⟩ := g
    obtain ⟨hhead, htail⟩ := List.pairwise_cons.1 h
    rw [Json.insertField]
    split_ifs with hlt heq
    · refine List.pairwise_cons.2 ⟨fun f hf => ?_, h⟩
      rcases List.mem_cons.1 hf with rfl | hf
      · exact hlt
      · exact String.lt_trans hlt (hhead f hf)
    · exact List.pairwise_cons.2 ⟨fun f hf => heq ▸ hhead f hf, htail⟩
    · refine List.pairwise_cons.2 ⟨fun f hf => ?_, ih htail⟩
      rcases mem_insertField hf with rfl | hf
      · exact (lt_or_gt_of_ne heq).resolve_left hlt
      · exact hhead f hf

theorem sortFields_concat (fs : List (String × α)) (f : String × α) :
    sortFields (fs ++ [f]) = insertField f.1 f.2 (sortFields fs) := by
  simp [sortFields]

theorem sorted_sortFields (fs : List (String × α)) : Sorted (sortFields fs) := by
  induction fs using List.reverseRecOn with
  | nil => exact List.Pairwise.nil
  | append_singleton fs f ih =>
    rw [sortFields_concat]
    exact ih.insertField ..

theorem mem_of_mem_sortFields {fs : List (String × α)} {f : String × α}
    (h : f ∈ sortFields fs) : f ∈ fs := by
  induction fs using List.reverseRecOn with
  | nil => exact h
  | append_singleton fs g ih =>
    rw [sortFields_concat] at h
    rcases mem_insertField h with rfl | h
    · simp
    · simp [ih h]

/-- A field behind all others is put at the end. -/
theorem insertField_of_lt {k : String} {v : α} {fs : List (String × α)}
    (h : ∀ f ∈ fs, f.1 < k) : insertField k v fs = fs ++ [(k, v)] := by
  induction fs with
  | nil => rfl
  | cons g fs ih =>
    obtain ⟨l, w⟩ := g
    have hlt : l < k := h (l, w) (by simp)
    rw [insertField, if_neg (lt_asymm hlt), if_neg hlt.ne', ih fun f hf => h f (by simp [hf])]
    rfl

theorem sortFields_of_sorted {fs : List (String × α)} (h : Sorted fs) : sortFields fs = fs := by
  induction fs using List.reverseRecOn with
  | nil => rfl
  | append_singleton fs f ih =>
    obtain ⟨hfs, -, hlt⟩ := List.pairwise_append.1 h
    rw [sortFields_concat, ih hfs, insertField_of_lt fun g hg => hlt g hg f (by simp)]

/-! ## The last field of a key -/

theorem field?_append (key : String) (fs gs : List (String × Json)) :
    (object (fs ++ gs)).field? key = ((object gs).field? key).or ((object fs).field? key) := by
  simp only [field?, List.reverse_append, List.find?_append]
  cases gs.reverse.find? fun f => f.1 = key <;> rfl

theorem field?_singleton (key k : String) (v : Json) :
    (object [(k, v)]).field? key = if k = key then some v else none := by
  by_cases h : k = key <;> simp [field?, h]

theorem field?_concat (key : String) (fs : List (String × Json)) (f : String × Json) :
    (object (fs ++ [f])).field? key =
      if f.1 = key then some f.2 else (object fs).field? key := by
  rw [field?_append, field?_singleton]
  split_ifs <;> rfl

theorem field?_cons (key : String) (f : String × Json) (fs : List (String × Json)) :
    (object (f :: fs)).field? key =
      ((object fs).field? key).or (if f.1 = key then some f.2 else none) := by
  rw [← field?_singleton, ← field?_append]
  rfl

theorem field?_eq_none {key : String} {fs : List (String × Json)} (h : ∀ f ∈ fs, f.1 ≠ key) :
    (object fs).field? key = none := by
  simpa [field?] using fun k v hf => h (k, v) hf

theorem field?_insertField {fs : List (String × Json)} (h : Sorted fs) (key k : String)
    (v : Json) : (object (insertField k v fs)).field? key =
      if k = key then some v else (object fs).field? key := by
  induction fs with
  | nil => exact field?_singleton key k v
  | cons g fs ih =>
    obtain ⟨l, w⟩ := g
    obtain ⟨hhead, htail⟩ := List.pairwise_cons.1 h
    rw [insertField]
    by_cases hlt : k < l
    · have habove : ∀ f ∈ (l, w) :: fs, f.1 ≠ k := by
        rintro f (_ | ⟨_, hf⟩)
        · exact hlt.ne'
        · exact (String.lt_trans hlt (hhead f hf)).ne'
      rw [if_pos hlt, field?_cons]
      split_ifs with hkey
      · rw [field?_eq_none (hkey ▸ habove)]
        rfl
      · exact Option.or_none
    · rw [if_neg hlt]
      split_ifs with heq hkey hkey
      · subst heq hkey
        rw [field?_cons, field?_eq_none fun f hf => (hhead f hf).ne', if_pos rfl]
        rfl
      · subst heq
        rw [field?_cons, field?_cons, if_neg hkey, if_neg hkey]
      · rw [field?_cons, ih htail, if_pos hkey]
        rfl
      · rw [field?_cons, ih htail, if_neg hkey, field?_cons]

/-- Sorting fields keeps the last value of each key. -/
theorem field?_sortFields (key : String) (fs : List (String × Json)) :
    (object (sortFields fs)).field? key = (object fs).field? key := by
  induction fs using List.reverseRecOn with
  | nil => rfl
  | append_singleton fs f ih =>
    rw [sortFields_concat, field?_insertField (sorted_sortFields fs), ih, field?_concat]

theorem field?_filter {key : String} {p : String → Bool} (h : p key = true)
    (fs : List (String × Json)) :
    (object (fs.filter fun f => p f.1)).field? key = (object fs).field? key := by
  induction fs with
  | nil => rfl
  | cons f fs ih =>
    rw [List.filter_cons, field?_cons, ← ih]
    split_ifs with hp hkey hkey
    · rw [field?_cons, if_pos hkey]
    · rw [field?_cons, if_neg hkey]
    · exact absurd (hkey ▸ h) hp
    · exact (Option.or_none).symm

/-! ## Canonical forms -/

theorem canonicalItems_eq_map (vs : List Json) : canonicalItems vs = vs.map canonical := by
  induction vs with
  | nil => rfl
  | cons v vs ih => simp [canonicalItems, ih]

theorem canonicalFields_eq_map (fs : List (String × Json)) :
    canonicalFields fs = fs.map fun f => (f.1, f.2.canonical) := by
  induction fs with
  | nil => rfl
  | cons f fs ih => simp [canonicalFields, ih]

theorem field?_canonicalFields (key : String) (fs : List (String × Json)) :
    (object (canonicalFields fs)).field? key = ((object fs).field? key).map canonical := by
  induction fs with
  | nil => rfl
  | cons f fs ih =>
    obtain ⟨k, v⟩ := f
    rw [canonicalFields, field?_cons, field?_cons, ih]
    split_ifs <;> cases (object fs).field? key <;> rfl

/-- Fields with canonical values. -/
theorem canonicalFields_of_canonical {fs : List (String × Json)}
    (h : ∀ f ∈ fs, f.2.canonical = f.2) : canonicalFields fs = fs := by
  rw [canonicalFields_eq_map, List.map_congr_left (g := id) fun f hf => by rw [h f hf]; rfl,
    List.map_id]

theorem exists_of_mem_canonicalFields {f : String × Json} {fs : List (String × Json)}
    (h : f ∈ sortFields (canonicalFields fs)) : ∃ g ∈ fs, f = (g.1, g.2.canonical) := by
  have hmem := mem_of_mem_sortFields h
  rw [canonicalFields_eq_map, List.mem_map] at hmem
  obtain ⟨g, hg, rfl⟩ := hmem
  exact ⟨g, hg, rfl⟩

/-- A canonical form is its own canonical form. -/
@[simp] theorem canonical_canonical (v : Json) : v.canonical.canonical = v.canonical := by
  induction v using induct with
  | null | bool | number | string => rfl
  | array vs ih =>
    simp only [canonical, canonicalItems_eq_map, List.map_map, array.injEq]
    exact List.map_congr_left ih
  | object fs ih =>
    have hvalues : ∀ f ∈ sortFields (canonicalFields fs), f.2.canonical = f.2 := by
      intro f hf
      obtain ⟨g, hg, rfl⟩ := exists_of_mem_canonicalFields hf
      exact ih g hg
    rw [canonical, canonical, canonicalFields_of_canonical hvalues,
      sortFields_of_sorted (sorted_sortFields _)]

theorem depth_canonical {v : Json} {n : Nat} (h : v.depth ≤ n) : v.canonical.depth ≤ n := by
  induction v using induct generalizing n with
  | null | bool | number | string => exact h
  | array vs ih =>
    obtain ⟨n, rfl⟩ : ∃ m, n = m + 1 := ⟨n - 1, by simp only [depth] at h; omega⟩
    rw [canonical, canonicalItems_eq_map, depth_array_le, List.forall_mem_map]
    exact fun v hv => ih v hv (depth_array_le.1 h v hv)
  | object fs ih =>
    obtain ⟨n, rfl⟩ : ∃ m, n = m + 1 := ⟨n - 1, by simp only [depth] at h; omega⟩
    rw [canonical, depth_object_le]
    intro f hf
    obtain ⟨g, hg, rfl⟩ := exists_of_mem_canonicalFields hf
    exact ih g hg (depth_object_le.1 h g hg)

theorem sound_canonical {v : Json} (h : v.Sound) : v.canonical.Sound := by
  induction v using induct with
  | null | bool | number | string => exact h
  | array vs ih =>
    rw [canonical, canonicalItems_eq_map, sound_array_iff, List.forall_mem_map]
    exact fun v hv => ih v hv (sound_array_iff.1 h v hv)
  | object fs ih =>
    refine sound_object fun f hf => ?_
    obtain ⟨g, hg, rfl⟩ := exists_of_mem_canonicalFields hf
    exact ih g hg (sound_object_iff.1 h g hg)

end Json

end TenantRestore
