/-
# Ids that have been given

A store in memory makes its ids of a word and a running number, which follows the last dash of
the id.  So an id with the next number has not been given before: `not_given_next`.

The keys of a folder or container are a table made of the list of what is in it.  What is found
in such a table is in the list, and each key of the list is found.
-/
import Mathlib.Data.List.Basic
import Mathlib.Data.String.Basic
import TenantRestore.Store.Drive

namespace TenantRestore

/-! ## Numbers of ids -/

theorem Progress.count_injective {m n : Nat} (h : Progress.count m = Progress.count n) : m = n := by
  have hdigits : Nat.toDigits 10 m = Nat.toDigits 10 n := String.ofList_injective h
  have hvalue := congrArg (fun l => Nat.ofDigitChars 10 l 0) hdigits
  simpa only [Nat.ofDigitChars_ten_toDigits] using hvalue

theorem Progress.dash_not_mem_count (n : Nat) : '-' ∉ (Progress.count n).toList := by
  intro h
  rw [Progress.count, String.toList_ofList] at h
  have hdigit := Nat.isDigit_of_mem_toDigits (by omega) (by omega) h
  exact absurd hdigit (by decide)

/-- What follows the last separator of a list is determined by the list. -/
theorem eq_of_append_cons_eq {α : Type} {sep : α} {as bs xs ys : List α}
    (h : as ++ sep :: xs = bs ++ sep :: ys) (hx : sep ∉ xs) (hy : sep ∉ ys) : xs = ys := by
  rcases List.append_eq_append_iff.1 h with ⟨cs, -, hcs⟩ | ⟨cs, -, hcs⟩
  · cases cs with
    | nil => exact (List.cons.inj hcs).2
    | cons c cs =>
      obtain ⟨rfl, rfl⟩ := List.cons.inj hcs
      exact absurd (by simp) hx
  · cases cs with
    | nil => exact (List.cons.inj hcs).2.symm
    | cons c cs =>
      obtain ⟨rfl, rfl⟩ := List.cons.inj hcs
      exact absurd (by simp) hy

/-- An id is among the first ones given: it is that of the root, or a word with a number that
has been used. -/
def Given (count : Nat) (id : String) : Prop :=
  id = rootId ∨ ∃ word n, n ≤ count ∧ id = word ++ "-" ++ Progress.count n

theorem Given.mono {m n : Nat} {id : String} (h : Given m id) (hmn : m ≤ n) : Given n id := by
  rcases h with h | ⟨word, k, hk, h⟩
  · exact Or.inl h
  · exact Or.inr ⟨word, k, by omega, h⟩

theorem given_next (count : Nat) (word : String) :
    Given (count + 1) (word ++ "-" ++ Progress.count (count + 1)) :=
  Or.inr ⟨word, count + 1, Nat.le_refl _, rfl⟩

/-- An id with the next number is new. -/
theorem not_given_next (count : Nat) (word : String) :
    ¬ Given count (word ++ "-" ++ Progress.count (count + 1)) := by
  rintro (h | ⟨word', n, hn, h⟩)
  · have hdash : '-' ∈ (word ++ "-" ++ Progress.count (count + 1)).toList := by simp
    rw [h] at hdash
    exact absurd hdash (by decide)
  · have hlist := congrArg String.toList h
    simp only [String.toList_append] at hlist
    have hdash : "-".toList = ['-'] := rfl
    rw [hdash, List.append_assoc, List.append_assoc, List.singleton_append,
      List.singleton_append] at hlist
    have hcount := eq_of_append_cons_eq hlist (Progress.dash_not_mem_count _)
      (Progress.dash_not_mem_count _)
    have hsame := Progress.count_injective (String.toList_injective hcount)
    omega

/-! ## Tables made of lists -/

namespace Table

variable {κ α : Type} [DecidableEq κ]

theorem find?_foldl_insert {es : List (κ × α)} {t : Table κ α} {k : κ} {a : α}
    (h : (es.foldl (fun t e => t.insert e.1 e.2) t).find? k = some a) :
    (k, a) ∈ es ∨ t.find? k = some a := by
  induction es generalizing t with
  | nil => exact Or.inr h
  | cons e es ih =>
    rw [List.foldl_cons] at h
    rcases ih h with hmem | hfind
    · exact Or.inl (List.mem_cons_of_mem _ hmem)
    · rw [find?_insert] at hfind
      split at hfind
      · rename_i hk
        cases hfind
        rw [← hk]
        exact Or.inl (List.mem_cons_self ..)
      · exact Or.inr hfind

theorem isSome_foldl_insert {es : List (κ × α)} {t : Table κ α} {k : κ}
    (h : (∃ a, (k, a) ∈ es) ∨ (t.find? k).isSome) :
    ((es.foldl (fun t e => t.insert e.1 e.2) t).find? k).isSome := by
  induction es generalizing t with
  | nil =>
    rcases h with ⟨a, ha⟩ | h
    · cases ha
    · exact h
  | cons e es ih =>
    rw [List.foldl_cons]
    refine ih ?_
    rcases h with ⟨a, ha⟩ | h
    · rcases List.mem_cons.1 ha with rfl | ha
      · exact Or.inr (by simp)
      · exact Or.inl ⟨a, ha⟩
    · right
      rw [find?_insert]
      split
      · rfl
      · exact h

/-- What is found in the table of a list is in the list. -/
theorem mem_of_find?_ofList {es : List (κ × α)} {k : κ} {a : α}
    (h : (ofList es).find? k = some a) : (k, a) ∈ es := by
  rcases find?_foldl_insert h with hmem | hfind
  · exact hmem
  · rw [find?_empty] at hfind
    cases hfind

/-- A key is found in the table of a list if it is in the list. -/
theorem contains_ofList {es : List (κ × α)} {k : κ} :
    (ofList es).contains k ↔ ∃ a, (k, a) ∈ es := by
  constructor
  · intro h
    obtain ⟨a, ha⟩ := Option.isSome_iff_exists.1 h
    exact ⟨a, mem_of_find?_ofList ha⟩
  · intro h
    exact isSome_foldl_insert (Or.inl h)

theorem put_put (k : κ) (a b : α) (es : List (κ × α)) : put k b (put k a es) = put k b es := by
  induction es with
  | nil => simp [put]
  | cons e es ih =>
    by_cases h : e.1 = k
    · simp [put, h]
    · simp [put, h, ih]

/-- What is stored last under a key is all that counts. -/
theorem insert_insert (t : Table κ α) (k : κ) (a b : α) :
    (t.insert k a).insert k b = t.insert k b :=
  congrArg Table.mk (put_put k a b t.entries)

end Table

end TenantRestore
