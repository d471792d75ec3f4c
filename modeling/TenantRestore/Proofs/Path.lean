/-
# Paths and their texts

A path that was read from a text is well-formed: the separator is in none of its parts, and
none of its elements is empty.  A well-formed path is read back from its own text, so its text
stands for it in a table.  The directories above a well-formed path are well-formed, and each
of them comes before the path in the order of paths.
-/
import Mathlib.Tactic.Common
import TenantRestore.Path.Text
import TenantRestore.Permission.Restore
import TenantRestore.Collection

namespace TenantRestore

/-! ## The parts of a text -/

section Parts

variable {sep : Char} {w cs : List Char}

theorem partsAt_eq_splitOn (sep : Char) (cs : List Char) : partsAt sep cs = cs.splitOn sep := by
  induction cs with
  | nil => rfl
  | cons c cs ih =>
    rw [partsAt, ih, List.splitOn_cons_eq_if_modifyHead]
    cases hparts : cs.splitOn sep with
    | nil => exact absurd hparts (List.splitOn_ne_nil sep cs)
    | cons w ws => simp [consFirst]

theorem splitAtChar_eq_split (sep : Char) (t : String) :
    splitAtChar sep t = (t.split sep).toList.map String.Slice.copy := by
  rw [splitAtChar, partsAt_eq_splitOn, String.toList_split_char]

theorem not_mem_of_mem_partsAt (h : w ∈ partsAt sep cs) : sep ∉ w := by
  induction cs generalizing w with
  | nil =>
    rw [List.mem_singleton.1 h]
    exact List.not_mem_nil
  | cons c cs ih =>
    rw [partsAt] at h
    split at h
    · rcases List.mem_cons.1 h with rfl | h
      · exact List.not_mem_nil
      · exact ih h
    · rename_i hc
      -- the character is put in front of the first part, if there is one
      cases hparts : partsAt sep cs with
      | nil =>
        rw [hparts] at h
        rw [List.mem_singleton.1 h]
        exact fun hsep => hc (List.mem_singleton.1 hsep).symm
      | cons v ws =>
        rw [hparts] at h ih
        rcases List.mem_cons.1 h with rfl | h
        · rw [List.mem_cons, not_or]
          exact ⟨Ne.symm hc, ih (List.mem_cons_self ..)⟩
        · exact ih (List.mem_cons_of_mem _ h)

end Parts

theorem not_mem_of_mem_splitAtChar {sep : Char} {t w : String} (h : w ∈ splitAtChar sep t) :
    sep ∉ w.toList := by
  obtain ⟨v, hv, rfl⟩ := List.mem_map.1 h
  rw [String.toList_ofList]
  exact not_mem_of_mem_partsAt hv

theorem Service.ofName?_eq_some_iff {name : String} {s : Service} :
    Service.ofName? name = some s ↔ s.name = name := by
  constructor
  · exact fun h => by simpa using List.find?_some h
  · rintro rfl
    cases s <;> rfl

theorem Category.ofName?_eq_some_iff {name : String} {c : Category} :
    Category.ofName? name = some c ↔ c.name = name := by
  constructor
  · exact fun h => by simpa using List.find?_some h
  · rintro rfl
    cases c <;> rfl

namespace BackupPath

/-! ## Well-formed paths -/

/-- The separator is in no part of the path, and no element is empty. -/
structure WellFormed (p : BackupPath) : Prop where
  tenant : pathSeparator ∉ p.tenant.toList
  owner : pathSeparator ∉ p.owner.toList
  elements : ∀ e ∈ p.elements, isElement e

theorem isElement_iff {e : String} : isElement e ↔ e ≠ "" ∧ pathSeparator ∉ e.toList := by
  simp [isElement]

theorem make_eq_ok_iff {tenant owner : String} {s : Service} {c : Category}
    {elements : List String} {p : BackupPath} :
    make tenant s owner c elements = .ok p ↔
      p = ⟨tenant, s, owner, c, elements⟩ ∧ ∀ e ∈ elements, isElement e := by
  unfold make
  split
  · rename_i e he
    have hmem := List.mem_of_find?_eq_some he
    have hnot := List.find?_some he
    simp only [reduceCtorEq, false_iff, not_and]
    exact fun _ hall => by simp [hall e hmem] at hnot
  · rename_i hnone
    rw [List.find?_eq_none] at hnone
    simp only [Except.ok.injEq]
    exact ⟨fun h => ⟨h.symm, fun e he => by simpa using hnone e he⟩, fun h => h.1.symm⟩

/-- The parts of a path, which its text has a separator between. -/
def parts (p : BackupPath) : List String :=
  p.tenant :: p.service.name :: p.owner :: p.category.name :: p.elements

theorem parse_eq_ok_iff {t : String} {p : BackupPath} :
    parse t = .ok p ↔
      splitAtChar pathSeparator t = p.parts ∧ ∀ e ∈ p.elements, isElement e := by
  constructor
  · intro h
    unfold parse at h
    split at h
    · rename_i hparts
      split at h
      · cases h
      rename_i hs
      split at h
      · cases h
      rename_i hc
      obtain ⟨rfl, helements⟩ := make_eq_ok_iff.1 h
      rw [hparts, ← Service.ofName?_eq_some_iff.1 hs, ← Category.ofName?_eq_some_iff.1 hc]
      exact ⟨rfl, helements⟩
    · cases h
  · rintro ⟨hparts, helements⟩
    have hs : Service.ofName? p.service.name = some p.service := Service.ofName?_eq_some_iff.2 rfl
    have hc : Category.ofName? p.category.name = some p.category :=
      Category.ofName?_eq_some_iff.2 rfl
    unfold parse
    rw [hparts, parts]
    simp only [hs, hc]
    exact make_eq_ok_iff.2 ⟨rfl, helements⟩

theorem wellFormed_of_parse {t : String} {p : BackupPath} (h : parse t = .ok p) :
    p.WellFormed := by
  obtain ⟨hparts, helements⟩ := parse_eq_ok_iff.1 h
  have hsep : ∀ w ∈ p.parts, pathSeparator ∉ w.toList := fun w hw =>
    not_mem_of_mem_splitAtChar (hparts ▸ hw)
  exact ⟨hsep _ (by simp [parts]), hsep _ (by simp [parts]), helements⟩

theorem foldl_text (es : List String) (t : String) :
    es.foldl (fun t e => t ++ "/" ++ e) t = "/".intercalate (t :: es) := by
  induction es generalizing t with
  | nil => simp
  | cons e es ih =>
    rw [List.foldl_cons, ih, String.intercalate_cons_cons, String.intercalate_cons_append]

theorem text_eq_intercalate (p : BackupPath) : p.text = "/".intercalate p.parts := by
  rw [text, foldl_text]
  simp [parts, String.append_assoc]

theorem splitAtChar_text {p : BackupPath} (h : p.WellFormed) :
    splitAtChar pathSeparator p.text = p.parts := by
  have hsep : ∀ w ∈ p.parts.map String.toList, pathSeparator ∉ w := by
    intro w hw
    simp only [parts, List.map_cons, List.mem_cons, List.mem_map] at hw
    rcases hw with rfl | rfl | rfl | rfl | ⟨e, he, rfl⟩
    · exact h.tenant
    · cases p.service <;> decide
    · exact h.owner
    · cases p.category <;> decide
    · exact (isElement_iff.1 (h.elements e he)).2
  have hjoined : p.text.toList = [pathSeparator].intercalate (p.parts.map String.toList) := by
    rw [text_eq_intercalate, String.toList_intercalate]
    rfl
  rw [splitAtChar, partsAt_eq_splitOn, hjoined, List.splitOn_intercalate _ hsep (by simp [parts])]
  simp [Function.comp_def]

/-- A well-formed path is read back from its text. -/
theorem parse_text {p : BackupPath} (h : p.WellFormed) : parse p.text = .ok p :=
  parse_eq_ok_iff.2 ⟨splitAtChar_text h, h.elements⟩

theorem text_injective {p q : BackupPath} (hp : p.WellFormed) (hq : q.WellFormed)
    (h : p.text = q.text) : p = q := by
  have hparse := parse_text hp
  rw [h, parse_text hq] at hparse
  exact (Except.ok.inj hparse).symm

theorem WellFormed.append {p q : BackupPath} {e : String} (h : p.WellFormed)
    (hq : p.append e = .ok q) : q.WellFormed := by
  unfold BackupPath.append at hq
  split at hq
  · rename_i he
    cases hq
    refine ⟨h.tenant, h.owner, fun e' he' => ?_⟩
    rcases List.mem_append.1 he' with he' | he'
    · exact h.elements e' he'
    · rw [List.mem_singleton.1 he']
      exact he
  · cases hq

/-! ## The directories above a path -/

theorem mem_properBeginnings {es b : List String} :
    b ∈ properBeginnings es ↔ ∃ e rest, es = b ++ e :: rest := by
  induction es generalizing b with
  | nil => simp [properBeginnings]
  | cons x es ih =>
    rw [properBeginnings, List.mem_append, List.mem_map, List.mem_singleton]
    constructor
    · rintro (⟨b', hb', rfl⟩ | rfl)
      · obtain ⟨e, rest, rfl⟩ := ih.1 hb'
        exact ⟨e, rest, rfl⟩
      · exact ⟨x, es, rfl⟩
    · rintro ⟨e, rest, h⟩
      cases b with
      | nil => exact Or.inr rfl
      | cons y b =>
        obtain ⟨rfl, rfl⟩ := List.cons.inj h
        exact Or.inl ⟨b, ih.2 ⟨e, rest, rfl⟩, rfl⟩

/-- A directory is above a path if the path has its elements and then some more. -/
theorem mem_above {p folder : BackupPath} :
    folder ∈ p.above ↔
      folder = { p with elements := folder.elements } ∧
        ∃ e rest, p.elements = folder.elements ++ e :: rest := by
  rw [above, List.mem_map]
  constructor
  · rintro ⟨b, hb, rfl⟩
    exact ⟨rfl, mem_properBeginnings.1 hb⟩
  · rintro ⟨hfolder, h⟩
    exact ⟨folder.elements, mem_properBeginnings.2 h, hfolder.symm⟩

theorem WellFormed.above {p folder : BackupPath} (h : p.WellFormed) (hf : folder ∈ p.above) :
    folder.WellFormed := by
  obtain ⟨hfolder, e, rest, hes⟩ := mem_above.1 hf
  rw [hfolder]
  refine ⟨h.tenant, h.owner, fun e' he' => h.elements e' ?_⟩
  rw [hes]
  exact List.mem_append_left _ he'

theorem above_trans {p folder outer : BackupPath} (h : folder ∈ p.above)
    (houter : outer ∈ folder.above) : outer ∈ p.above := by
  obtain ⟨hfolder, e, rest, hes⟩ := mem_above.1 h
  obtain ⟨hout, e', rest', hes'⟩ := mem_above.1 houter
  refine mem_above.2 ⟨?_, e', rest' ++ e :: rest, by rw [hes, hes', List.append_assoc]; rfl⟩
  rw [hout, hfolder]

theorem properBeginnings_concat (es : List String) (e : String) :
    properBeginnings (es ++ [e]) = es :: properBeginnings es := by
  induction es with
  | nil => rfl
  | cons x es ih =>
    rw [List.cons_append, properBeginnings, ih]
    rfl

/-- Above what lies in a directory are the directory and those above it. -/
theorem above_of_concat {p : BackupPath} {es : List String} {e : String}
    (h : p.elements = es ++ [e]) :
    p.above = { p with elements := es } :: { p with elements := es : BackupPath }.above := by
  rw [above, h, properBeginnings_concat]
  rfl

theorem above_of_append {p q : BackupPath} {e : String} (h : p.append e = .ok q) :
    q.above = p :: p.above := by
  unfold append at h
  split at h
  · cases h
    exact above_of_concat rfl
  · cases h

/-! ## The order of paths -/

instance : Std.TransOrd BackupPath :=
  inferInstanceAs (Std.TransCmp (compareLex (compareOn tenant) <|
    compareLex (compareOn (·.service.rank)) <| compareLex (compareOn owner) <|
    compareLex (compareOn (·.category.rank)) <| compareOn elements))

theorem precedes_trans {a b c : BackupPath} (hab : a.precedes b) (hbc : b.precedes c) :
    a.precedes c :=
  Std.TransCmp.isLE_trans hab hbc

theorem precedes_total (a b : BackupPath) : a.precedes b || b.precedes a := by
  have hswap : compare b a = (compare a b).swap := Std.OrientedCmp.eq_swap
  rw [precedes, precedes, hswap]
  cases compare a b <;> rfl

theorem precedes_refl (p : BackupPath) : p.precedes p := by
  simpa using precedes_total p p

theorem compare_append_cons (b : List String) (e : String) (rest : List String) :
    compare b (b ++ e :: rest) = .lt := by
  rw [List.compare_eq_compareLex]
  induction b with
  | nil => exact List.compareLex_nil_cons
  | cons x b ih =>
    rw [List.cons_append, List.compareLex_cons_cons, ih]
    rw [show compare x x = .eq from Std.ReflCmp.compare_self]
    rfl

/-- A path does not precede the directories above it. -/
theorem not_precedes_of_mem_above {p folder : BackupPath} (h : folder ∈ p.above) :
    p.precedes folder = false := by
  obtain ⟨hfolder, e, rest, hes⟩ := mem_above.1 h
  have hlt : compare folder p = .lt := by
    rw [hfolder]
    change compareLex _ _ _ _ = _
    simp only [compareLex, compareOn, Std.ReflCmp.compare_self]
    rw [hes]
    exact compare_append_cons ..
  have hswap : compare p folder = (compare folder p).swap := Std.OrientedCmp.eq_swap
  rw [precedes, hswap, hlt]
  rfl

end BackupPath

/-! ## Sorted collections -/

namespace Collection

theorem mem_sort {c : Collection} {cs : List Collection} : c ∈ sort cs ↔ c ∈ cs :=
  List.mem_mergeSort

theorem mem_of_sort {cs pre post : List Collection} {c : Collection}
    (h : sort cs = pre ++ c :: post) : c ∈ cs :=
  mem_sort.1 (by simp [h])

theorem pairwise_sort (cs : List Collection) :
    (sort cs).Pairwise fun a b => a.path.precedes b.path := by
  refine List.pairwise_mergeSort ?_ ?_ cs
  · exact fun a b c hab hbc => BackupPath.precedes_trans hab hbc
  · exact fun a b => BackupPath.precedes_total a.path b.path

theorem sort_of_pairwise {cs : List Collection}
    (h : cs.Pairwise fun a b => a.path.precedes b.path) : sort cs = cs :=
  List.mergeSort_of_pairwise h

/-- A collection is put before the first one it precedes, in what the others are sorted to. -/
theorem sort_cons (c : Collection) (cs : List Collection) :
    ∃ pre post, sort (c :: cs) = pre ++ c :: post ∧ sort cs = pre ++ post ∧
      (∀ b ∈ pre, c.path.precedes b.path = false) ∧ ∀ b ∈ post, c.path.precedes b.path := by
  have htrans (a b d : Collection) (hab : a.path.precedes b.path) (hbd : b.path.precedes d.path) :
      a.path.precedes d.path := BackupPath.precedes_trans hab hbd
  have htotal (a b : Collection) : a.path.precedes b.path || b.path.precedes a.path :=
    BackupPath.precedes_total a.path b.path
  obtain ⟨pre, post, hcons, hsort, hpre⟩ := List.mergeSort_cons htrans htotal c cs
  have hsorted := pairwise_sort (c :: cs)
  rw [show sort (c :: cs) = _ from hcons, List.pairwise_append] at hsorted
  exact ⟨pre, post, hcons, hsort, fun b hb => by simpa using hpre b hb,
    (List.pairwise_cons.1 hsorted.2.1).1⟩

/-- Leaving out collections does not change the order of the others. -/
theorem sort_filter (p : Collection → Bool) (cs : List Collection) :
    sort (cs.filter p) = (sort cs).filter p := by
  induction cs with
  | nil => simp [sort]
  | cons c cs ih =>
    obtain ⟨pre, post, hcons, hsort, hpre, hpost⟩ := sort_cons c cs
    cases hc : p c with
    | false =>
      rw [List.filter_cons_of_neg (by simp [hc]), ih, hcons, hsort, List.filter_append,
        List.filter_append, List.filter_cons_of_neg (by simp [hc])]
    | true =>
      obtain ⟨pre', post', hcons', hsort', hpre', hpost'⟩ := sort_cons c (cs.filter p)
      rw [ih, hsort, List.filter_append] at hsort'
      -- both lists are split where `c` begins to precede
      have hcount (l l' : List Collection) (hl : ∀ b ∈ l, c.path.precedes b.path = false)
          (hl' : ∀ b ∈ l', c.path.precedes b.path) :
          (l ++ l').countP (fun b => !c.path.precedes b.path) = l.length := by
        rw [List.countP_append, List.countP_eq_length.2 (by simpa using hl),
          List.countP_eq_zero.2 (by simpa using hl'), Nat.add_zero]
      have hsplit : pre.filter p = pre' ∧ post.filter p = post' := by
        refine List.append_inj hsort' ?_
        have hleft := hcount (pre.filter p) (post.filter p)
          (fun b hb => hpre b (List.mem_filter.1 hb).1)
          (fun b hb => hpost b (List.mem_filter.1 hb).1)
        rw [hsort', hcount pre' post' hpre' hpost'] at hleft
        exact hleft.symm
      rw [List.filter_cons_of_pos hc, hcons', hcons, List.filter_append,
        List.filter_cons_of_pos hc, hsplit.1, hsplit.2]

/-- The collections of one path keep their order. -/
theorem sort_filter_path (cs : List Collection) (p : BackupPath) :
    (sort cs).filter (fun c => c.path = p) = cs.filter fun c => c.path = p := by
  rw [← sort_filter]
  refine sort_of_pairwise (List.pairwise_of_forall_mem_list fun a ha b hb => ?_)
  have ha : a.path = p := by simpa using (List.mem_filter.1 ha).2
  have hb : b.path = p := by simpa using (List.mem_filter.1 hb).2
  rw [ha, hb]
  exact BackupPath.precedes_refl p

/-- The collection of a directory above another collection comes before it. -/
theorem sort_before {cs pre post pre' post' : List Collection} {c c' : Collection}
    (h : sort cs = pre ++ c :: post) (h' : sort cs = pre' ++ c' :: post')
    (habove : c.path ∈ c'.path.above) : pre ++ [c] <+: pre' := by
  have hnot := BackupPath.not_precedes_of_mem_above habove
  have hne : c' ≠ c := by
    rintro rfl
    simpa [hnot] using BackupPath.precedes_refl c'.path
  have hsorted := pairwise_sort cs
  rw [h'] at h
  rcases List.append_eq_append_iff.1 h with ⟨mid, hpre, hmid⟩ | ⟨mid, hpre, hmid⟩
  · cases mid with
    | nil => exact absurd (List.cons.inj hmid).1 hne
    | cons x mid =>
      -- `c'` would come before `c`, which does not fit the order of their paths
      obtain ⟨rfl, hpost⟩ := List.cons.inj hmid
      rw [h', hpost, List.pairwise_append] at hsorted
      have hprecedes := (List.pairwise_cons.1 hsorted.2.1).1 c (by simp)
      rw [hnot] at hprecedes
      cases hprecedes
  · cases mid with
    | nil => exact absurd (List.cons.inj hmid).1.symm hne
    | cons x mid =>
      -- `c` is among those before `c'`
      obtain ⟨rfl, -⟩ := List.cons.inj hmid
      exact ⟨mid, by simp [hpre]⟩

end Collection
end TenantRestore
