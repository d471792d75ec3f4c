/-
# Lookup tables

A restore remembers what it has learnt in small tables: the metadata of a folder, the new id
of a permission, the items a container holds.  Only the value found under a key can be
observed, so a table is a list of pairs with at most one pair per key, and everything about
it is said through `find?`.
-/

namespace TenantRestore

/-- A finite table from keys to values, as a list of pairs. -/
structure Table (κ α : Type) where
  /-- The pairs of the table. -/
  entries : List (κ × α) := []
deriving DecidableEq, Repr

namespace Table

variable {κ α : Type} [DecidableEq κ]

/-- The table without any entry. -/
def empty : Table κ α := ⟨[]⟩

instance : Inhabited (Table κ α) := ⟨empty⟩

/-- The value stored under a key. -/
def find? (t : Table κ α) (k : κ) : Option α :=
  (t.entries.find? fun e => e.1 = k).map Prod.snd

/-- Whether a key has a value. -/
def contains (t : Table κ α) (k : κ) : Bool :=
  (t.find? k).isSome

/-- Put a pair into a list of pairs, in place of the pair of the same key if there is one. -/
def put (k : κ) (a : α) : List (κ × α) → List (κ × α)
  | [] => [(k, a)]
  | e :: es => if e.1 = k then (k, a) :: es else e :: put k a es

/-- Store a value under a key; an older value of the key is forgotten. -/
def insert (t : Table κ α) (k : κ) (a : α) : Table κ α :=
  ⟨put k a t.entries⟩

/-- The table of a list of pairs, where a later pair wins over an earlier one. -/
def ofList (es : List (κ × α)) : Table κ α :=
  es.foldl (fun t e => t.insert e.1 e.2) empty

@[simp] theorem find?_empty (k : κ) : (empty : Table κ α).find? k = none := rfl

theorem find?_mk_put (k : κ) (a : α) (es : List (κ × α)) (k' : κ) :
    find? ⟨put k a es⟩ k' = if k = k' then some a else find? ⟨es⟩ k' := by
  induction es with
  | nil => by_cases h : k = k' <;> simp [put, find?, h]
  | cons e es ih =>
    simp only [find?] at ih
    by_cases he : e.1 = k
    · subst he
      by_cases h : e.1 = k' <;> simp [put, find?, h]
    · by_cases h : e.1 = k'
      · have hk : ¬ k = k' := fun hk => he (h.trans hk.symm)
        rw [put, if_neg he]
        simp [find?, h, hk]
      · rw [put, if_neg he]
        simpa [find?, h] using ih

@[simp] theorem find?_insert (t : Table κ α) (k : κ) (a : α) (k' : κ) :
    (t.insert k a).find? k' = if k = k' then some a else t.find? k' :=
  find?_mk_put k a t.entries k'

@[simp] theorem contains_insert (t : Table κ α) (k : κ) (a : α) (k' : κ) :
    (t.insert k a).contains k' = (decide (k = k') || t.contains k') := by
  by_cases h : k = k' <;> simp [contains, h]

end Table

end TenantRestore
