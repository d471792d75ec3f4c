/-
# Reading and writing paths

Reading a text cuts it at the separators, and writing a path joins its parts again, so each
undoes the other as far as it can.  Which texts are paths is decided by their parts alone, and
such a text is the text of the path that is read from it.  A path which was not read from a
text, such as a stored one, may have separators within its parts.  They move all later parts,
so such a path is not read back from its text: `parse_text_inverse`.
-/
import TenantRestore.Proofs.Path

namespace TenantRestore

namespace BackupPath

/-- The text of a path that was read is the text it was read from. -/
theorem text_of_parse {t : String} {p : BackupPath} (h : parse t = .ok p) : p.text = t := by
  have hparts := (parse_eq_ok_iff.1 h).1
  have hjoined : [pathSeparator].intercalate (t.toList.splitOn pathSeparator) = t.toList :=
    List.intercalate_splitOn pathSeparator
  rw [← String.toList_inj, text_eq_intercalate, ← hparts, splitAtChar, partsAt_eq_splitOn,
    String.toList_intercalate, List.map_map]
  simp only [Function.comp_def, String.toList_ofList, List.map_id']
  exact hjoined

/-- The well-formed paths, and no others, are read back from their texts. -/
theorem parse_text_iff {p : BackupPath} : parse p.text = .ok p ↔ p.WellFormed :=
  ⟨wellFormed_of_parse, parse_text⟩

/-- What a text is cut into has no separators, so only empty elements are refused. -/
theorem exists_parse_iff {t : String} :
    (∃ p, parse t = .ok p) ↔
      ∃ (tenant : String) (s : Service) (owner : String) (c : Category) (elements : List String),
        (t.split pathSeparator).toList.map String.Slice.copy =
          tenant :: s.name :: owner :: c.name :: elements ∧ ∀ e ∈ elements, e ≠ "" := by
  rw [← splitAtChar_eq_split]
  constructor
  · rintro ⟨p, hp⟩
    obtain ⟨hparts, helements⟩ := parse_eq_ok_iff.1 hp
    exact ⟨p.tenant, p.service, p.owner, p.category, p.elements, hparts,
      fun e he => (isElement_iff.1 (helements e he)).1⟩
  · rintro ⟨tenant, s, owner, c, elements, hparts, hne⟩
    refine ⟨⟨tenant, s, owner, c, elements⟩, parse_eq_ok_iff.2 ⟨hparts, fun e he => ?_⟩⟩
    have hmem : e ∈ splitAtChar pathSeparator t := by simp [hparts, he]
    exact isElement_iff.2 ⟨hne e he, not_mem_of_mem_splitAtChar hmem⟩

/-- A path is read back from its text exactly if it is well-formed, so that two well-formed
paths never share a text.  A text is read exactly if cutting it at the separators yields a
tenant, the name of a service, an owner, the name of a category, and elements that are not
empty, and it is then the text of the path that was read. -/
theorem parse_text_inverse :
    (∀ p : BackupPath, parse p.text = .ok p ↔ p.WellFormed) ∧
    (∀ p q : BackupPath, p.WellFormed → q.WellFormed → p.text = q.text → p = q) ∧
    (∀ t : String, (∃ p, parse t = .ok p) ↔
      ∃ (tenant : String) (s : Service) (owner : String) (c : Category) (elements : List String),
        (t.split pathSeparator).toList.map String.Slice.copy =
          tenant :: s.name :: owner :: c.name :: elements ∧ ∀ e ∈ elements, e ≠ "") ∧
    ∀ (t : String) (p : BackupPath), parse t = .ok p → p.text = t :=
  ⟨fun _ => parse_text_iff, fun _ _ => text_injective, fun _ => exists_parse_iff,
    fun _ _ => text_of_parse⟩

/-- A separator within the owner moves the name of the category out of its place. -/
example : (parse (text ⟨"t", .onedrive, "a/b", .files, []⟩)).toOption = none := by decide +kernel

end BackupPath
end TenantRestore
