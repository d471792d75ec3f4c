/-
# The order in which collections are restored

Sorting collections puts them in one order that depends on their paths only.  A path comes
before all that lies below it, and nothing that lies elsewhere comes between: whatever stands
between a path and something below it lies below the path, too (`isAtOrBelow_of_between`).
So the collections at or below a path stand together, those at the path first.

Two different paths never stand at the same place of the order (`precedes_antisymm`).
Collections of different paths are therefore sorted to the same list, and restored in the same
way, in whatever order they are given: `Collection.sort_arranges`.
-/
import Mathlib.Data.List.Nodup
import TenantRestore.Proofs.Path
import TenantRestore.Restore.Run

namespace TenantRestore

/-- A list is cut where a property ends which does not come back. -/
theorem eq_filter_append_filter {α : Type} {P : α → Prop} [DecidablePred P] {l : List α}
    (h : l.Pairwise fun a b => P b → P a) :
    l = l.filter (fun a => P a) ++ l.filter fun a => ¬ P a := by
  induction l with
  | nil => rfl
  | cons a l ih =>
    obtain ⟨hback, hl⟩ := List.pairwise_cons.1 h
    by_cases ha : P a
    · rw [List.filter_cons_of_pos (by simpa using ha), List.filter_cons_of_neg (by simpa using ha),
        List.cons_append, ← ih hl]
    · -- the property has ended already, so all of the list is in the second part
      have hnone : ∀ b ∈ a :: l, ¬ P b := by
        intro b hb
        rcases List.mem_cons.1 hb with rfl | hb
        · exact ha
        · exact fun hPb => ha (hback b hb hPb)
      rw [List.filter_eq_nil_iff.2 (by simpa using hnone), List.nil_append,
        List.filter_eq_self.2 (by simpa using hnone)]

theorem Service.rank_injective {s t : Service} (h : s.rank = t.rank) : s = t := by
  cases s <;> cases t <;> cases h <;> rfl

theorem Category.rank_injective {c d : Category} (h : c.rank = d.rank) : c = d := by
  cases c <;> cases d <;> cases h <;> rfl

namespace BackupPath

variable {dir p q : BackupPath}

/-! ## At or below a path -/

/-- A path lies at another one or below it: it has the same tenant, service, owner and category,
and starts with the elements of the other one. -/
structure IsAtOrBelow (p dir : BackupPath) : Prop where
  tenant : p.tenant = dir.tenant
  service : p.service = dir.service
  owner : p.owner = dir.owner
  category : p.category = dir.category
  elements : dir.elements <+: p.elements

/-- A path lies below another one: it has further elements. -/
structure IsBelow (p dir : BackupPath) : Prop extends IsAtOrBelow p dir where
  longer : p.elements ≠ dir.elements

theorem isBelow_iff : p.IsBelow dir ↔ dir ∈ p.above := by
  rw [mem_above]
  constructor
  · rintro ⟨⟨htenant, hservice, howner, hcategory, rest, hrest⟩, hlonger⟩
    refine ⟨by rw [htenant, hservice, howner, hcategory], ?_⟩
    cases rest with
    | nil => exact absurd (by rw [← hrest, List.append_nil]) hlonger
    | cons e rest => exact ⟨e, rest, hrest.symm⟩
  · rintro ⟨hdir, e, rest, hes⟩
    refine ⟨⟨?_, ?_, ?_, ?_, e :: rest, hes.symm⟩, by simp [hes]⟩
    all_goals rw [hdir]

theorem isBelow_iff_ne : p.IsBelow dir ↔ p.IsAtOrBelow dir ∧ p ≠ dir := by
  constructor
  · rintro ⟨hat, hlonger⟩
    refine ⟨hat, ?_⟩
    rintro rfl
    exact hlonger rfl
  · rintro ⟨hat, hne⟩
    refine ⟨hat, fun hsame => hne ?_⟩
    cases p
    cases dir
    obtain ⟨rfl, rfl, rfl, rfl, -⟩ := hat
    cases hsame
    rfl

/-- A path precedes everything below it. -/
theorem IsAtOrBelow.precedes (h : p.IsAtOrBelow dir) : dir.precedes p := by
  by_cases heq : p = dir
  · rw [heq]
    exact precedes_refl dir
  · have habove := isBelow_iff.1 (isBelow_iff_ne.2 ⟨h, heq⟩)
    simpa [not_precedes_of_mem_above habove] using precedes_total dir p

/-! ## What stands between two paths -/

theorem precedes_antisymm (hpq : p.precedes q) (hqp : q.precedes p) : p = q := by
  have heq : compare p q = .eq := Std.OrientedCmp.isLE_antisymm hpq hqp
  change compareLex _ _ _ _ = _ at heq
  simp only [compareLex_eq_eq, compareOn, Std.LawfulEqCmp.compare_eq_iff_eq] at heq
  obtain ⟨htenant, hservice, howner, hcategory, helements⟩ := heq
  cases p
  cases q
  cases htenant
  cases Service.rank_injective hservice
  cases howner
  cases Category.rank_injective hcategory
  cases helements
  rfl

/-- In a comparison part by part, what stands between two values with the same first part has
that first part, too, and the further parts decide. -/
theorem then_between {α : Type} [Ord α] [Std.TransOrd α] [Std.LawfulEqOrd α] {x y z : α}
    {xy yz : Ordering} (hxz : x = z) (hxy : ((compare x y).then xy).isLE)
    (hyz : ((compare y z).then yz).isLE) : y = x ∧ xy.isLE ∧ yz.isLE := by
  subst hxz
  rw [Ordering.isLE_then_iff_and] at hxy hyz
  have heq : x = y :=
    Std.LawfulEqCmp.eq_of_compare (Std.OrientedCmp.isLE_antisymm hxy.1 hyz.1)
  subst heq
  have hself : compare x x ≠ .lt := by simp
  exact ⟨rfl, hxy.2.resolve_left hself, hyz.2.resolve_left hself⟩

/-- What stands between a list and a longer one that starts with it starts with it, too. -/
theorem prefix_of_between {a b c : List String} (hac : a <+: c) (hab : (compare a b).isLE)
    (hbc : (compare b c).isLE) : a <+: b := by
  rw [List.compare_eq_compareLex] at hab hbc
  induction a generalizing b c with
  | nil => exact List.nil_prefix
  | cons x a ih =>
    obtain ⟨rest, rfl⟩ := hac
    cases b with
    | nil => simp [List.compareLex_cons_nil] at hab
    | cons y b =>
      rw [List.compareLex_cons_cons] at hab
      rw [List.cons_append, List.compareLex_cons_cons] at hbc
      obtain ⟨hyx, hab, hbc⟩ := then_between rfl hab hbc
      exact List.cons_prefix_cons.2 ⟨hyx.symm, ih (List.prefix_append a rest) hab hbc⟩

/-- What stands between a path and something below it lies below the path. -/
theorem isAtOrBelow_of_between (hq : q.IsAtOrBelow dir) (hdir : dir.precedes p)
    (hpq : p.precedes q) : p.IsAtOrBelow dir := by
  -- the parts are compared one after the other, so each is fixed once those before it are
  change (Ordering.then _ _).isLE at hdir hpq
  obtain ⟨htenant, hdir, hpq⟩ := then_between hq.tenant.symm hdir hpq
  obtain ⟨hservice, hdir, hpq⟩ :=
    then_between (congrArg Service.rank hq.service.symm) hdir hpq
  obtain ⟨howner, hdir, hpq⟩ := then_between hq.owner.symm hdir hpq
  obtain ⟨hcategory, hdir, hpq⟩ :=
    then_between (congrArg Category.rank hq.category.symm) hdir hpq
  exact {
    tenant := htenant
    service := Service.rank_injective hservice
    owner := howner
    category := Category.rank_injective hcategory
    elements := prefix_of_between hq.elements hdir hpq }

end BackupPath

/-! ## Sorting collections -/

namespace Collection

/-- Of two collections one of which lies below the other, the lower one comes later. -/
theorem lt_of_isBelow (cs : List Collection) {i j : Nat} (hi : i < (sort cs).length)
    (hj : j < (sort cs).length) (hbelow : (sort cs)[j].path.IsBelow (sort cs)[i].path) :
    i < j := by
  have hnot := BackupPath.not_precedes_of_mem_above (BackupPath.isBelow_iff.1 hbelow)
  rcases Nat.lt_trichotomy i j with hlt | heq | hlt
  · exact hlt
  · subst heq
    exact absurd rfl hbelow.longer
  · have hprecedes := List.pairwise_iff_getElem.1 (pairwise_sort cs) j i hj hi hlt
    rw [hnot] at hprecedes
    cases hprecedes

/-- The collections at or below a path stand together, those at the path first. -/
theorem sort_block (cs : List Collection) (dir : BackupPath) :
    ∃ before there below after, sort cs = before ++ (there ++ below) ++ after ∧
      (∀ c ∈ there, c.path = dir) ∧ (∀ c ∈ below, c.path.IsBelow dir) ∧
      ∀ c ∈ before ++ after, ¬ c.path.IsAtOrBelow dir := by
  classical
  have hsorted := pairwise_sort cs
  -- first comes what the path does not precede
  have hbefore : (sort cs).Pairwise fun a b => ¬ dir.precedes b.path → ¬ dir.precedes a.path :=
    hsorted.imp fun hab hb ha => hb (BackupPath.precedes_trans ha hab)
  obtain ⟨rest, hrest⟩ : ∃ rest, (sort cs).filter (fun c => ¬ ¬ dir.precedes c.path) = rest :=
    ⟨_, rfl⟩
  have hfrom : ∀ c ∈ rest, dir.precedes c.path := by
    rintro c hc
    rw [← hrest] at hc
    simpa using (List.mem_filter.1 hc).2
  have hrestSorted : rest.Pairwise fun a b => a.path.precedes b.path := by
    rw [← hrest]
    exact hsorted.filter _
  -- of the rest the block comes first, since nothing from elsewhere stands in it
  have hblock : rest.Pairwise fun a b => b.path.IsAtOrBelow dir → a.path.IsAtOrBelow dir :=
    hrestSorted.imp_of_mem fun ha _ hab hb =>
      BackupPath.isAtOrBelow_of_between hb (hfrom _ ha) hab
  -- and of the block what is at the path itself
  have hthere : (rest.filter fun c => c.path.IsAtOrBelow dir).Pairwise
      fun a b => b.path = dir → a.path = dir := by
    refine (hrestSorted.filter _).imp_of_mem fun ha _ hab hb => ?_
    have ha := hfrom _ (List.mem_filter.1 ha).1
    exact (BackupPath.precedes_antisymm ha (hb ▸ hab)).symm
  refine ⟨(sort cs).filter fun c => ¬ dir.precedes c.path,
    (rest.filter fun c => c.path.IsAtOrBelow dir).filter fun c => c.path = dir,
    (rest.filter fun c => c.path.IsAtOrBelow dir).filter fun c => ¬ c.path = dir,
    rest.filter fun c => ¬ c.path.IsAtOrBelow dir, ?_, ?_, ?_, ?_⟩
  · rw [← eq_filter_append_filter hthere, List.append_assoc, ← eq_filter_append_filter hblock,
      ← hrest]
    exact eq_filter_append_filter hbefore
  · intro c hc
    simpa using (List.mem_filter.1 hc).2
  · intro c hc
    obtain ⟨hc, hne⟩ := List.mem_filter.1 hc
    exact BackupPath.isBelow_iff_ne.2
      ⟨by simpa using (List.mem_filter.1 hc).2, by simpa using hne⟩
  · intro c hc hat
    rcases List.mem_append.1 hc with hc | hc
    · exact absurd hat.precedes (by simpa using (List.mem_filter.1 hc).2)
    · exact absurd hat (by simpa using (List.mem_filter.1 hc).2)

/-- Collections of different paths are sorted to the same list in whatever order they are
given. -/
theorem sort_eq_of_perm {cs cs' : List Collection} (hperm : cs'.Perm cs)
    (hpaths : (cs.map Collection.path).Nodup) : sort cs' = sort cs := by
  have hsorts : (sort cs').Perm (sort cs) :=
    (List.mergeSort_perm ..).trans (hperm.trans (List.mergeSort_perm ..).symm)
  refine List.Perm.eq_of_pairwise ?_ (pairwise_sort cs') (pairwise_sort cs) hsorts
  intro a b ha hb hab hba
  have ha : a ∈ cs := hperm.mem_iff.1 (mem_sort.1 ha)
  exact List.inj_on_of_nodup_map hpaths ha (mem_sort.1 hb) (BackupPath.precedes_antisymm hab hba)

/-- What sorting collections does.  They are put in the order of their paths, and those of one
path keep theirs.  So each collection comes after those it lies below, and what is at or below a
path stands together, with what is at the path first.  If all paths are different, the list, and
everything a restore does with it, does not depend on the order the collections were given in. -/
theorem sort_arranges (cs : List Collection) :
    (sort cs).Perm cs ∧
    (sort cs).Pairwise (fun a b => a.path.precedes b.path) ∧
    (∀ p, (sort cs).filter (fun c => c.path = p) = cs.filter fun c => c.path = p) ∧
    (∀ i j (hi : i < (sort cs).length) (hj : j < (sort cs).length),
      (sort cs)[j].path.IsBelow (sort cs)[i].path → i < j) ∧
    (∀ dir, ∃ before there below after, sort cs = before ++ (there ++ below) ++ after ∧
      (∀ c ∈ there, c.path = dir) ∧ (∀ c ∈ below, c.path.IsBelow dir) ∧
      ∀ c ∈ before ++ after, ¬ c.path.IsAtOrBelow dir) ∧
    (∀ cs', cs'.Perm cs → (cs.map Collection.path).Nodup →
      sort cs' = sort cs ∧ ∀ (σ : Type) (plan : Plan σ), plan.run cs' = plan.run cs) := by
  refine ⟨List.mergeSort_perm .., pairwise_sort cs, sort_filter_path cs,
    fun i j hi hj => lt_of_isBelow cs hi hj, sort_block cs, fun cs' hperm hpaths => ?_⟩
  have hsort := sort_eq_of_perm hperm hpaths
  exact ⟨hsort, fun σ plan => by rw [Plan.run, Plan.run, hsort]⟩

/-- What lies below a folder comes before a folder whose name only starts with that of the first,
though its text comes after it. -/
example :
    let folder : BackupPath := ⟨"t", .onedrive, "user", .files, ["drives", "d", "root:", "a", "b"]⟩
    let other : BackupPath := ⟨"t", .onedrive, "user", .files, ["drives", "d", "root:", "a-b"]⟩
    folder.precedes other ∧ other.text < folder.text := by decide +kernel

end Collection

end TenantRestore
