import RegionLogic.Proofs.Cleanup.Bypassing
import RegionLogic.Proofs.Cleanup.Joining
import RegionLogic.Proofs.Cleanup.Merging

/-!
# Regions that go

A cleanup takes regions out of a graph in three ways. What is placed in a region that goes moves to the
region that takes it in; everything else stays where it is. The graph stays consistent, and its branches
are those that were there before and sums of them.

## Main definitions

* `Mergeable`, `Absorbable`, `Bypassable`: a region can go in one of the ways
* `Removal`: a region goes from a graph
* `Abandoned`: the graph that is left if the classifier fails while entrances are led round a region

## Main results

* `Removal.names`, `Removal.placedIn`, `Removal.keys_sites`: where everything is afterwards
* `Removal.consistent`, `Removal.keeps`: what is kept
-/

namespace RegionLogic

/-- The region `n` is to be merged into `p`, the only region with an exit into it. -/
structure Mergeable (kept : NameSet) (g : RegionGraph) (p n : Name) : Prop where
  /-- It need not be kept. -/
  not_kept : n ∉ kept
  /-- It has no exits. -/
  exits : g.exitsOf n = []
  /-- No transition is placed in it. -/
  transitions : g.placedIn .transitions n = []
  /-- It has one entrance. -/
  parents : g.parentsOf n = [p]

/-- The region `c` is to be joined to `p`: unconditional edges lead both ways. -/
structure Absorbable (kept : NameSet) (g : RegionGraph) (p c : Name) : Prop where
  /-- It need not be kept. -/
  not_kept : c ∉ kept
  /-- It is another region. -/
  ne : c ≠ p
  /-- There is an edge to it. -/
  out : c ∈ g.targetsOf p
  /-- There is an edge back. -/
  back : p ∈ g.targetsOf c
  /-- The edge to it is unconditional. -/
  out_free : ∀ {b}, g.Way p b c → b = .empty
  /-- The edge back is unconditional. -/
  back_free : ∀ {b}, g.Way c b p → b = .empty

/-- The entrances of the region `n` are to be led round it. -/
structure Bypassable (kept : NameSet) (g : RegionGraph) (n : Name) : Prop where
  /-- It need not be kept. -/
  not_kept : n ∉ kept
  /-- Nothing is placed in it. -/
  empty : ∀ kind, g.placedIn kind n = []
  /-- It has an entrance. -/
  parents : g.parentsOf n ≠ []
  /-- It does not lead to itself. -/
  no_loop : n ∉ g.parentsOf n

/-- A region goes from a graph. -/
inductive Removal (classify : Classifier) (kept : NameSet) :
    RegionGraph → Name → RegionGraph → Prop
  | merge {g p n} (h : Mergeable kept g p n) : Removal classify kept g n (g.mergedInto p n)
  | absorb {g p c} (h : Absorbable kept g p c) : Removal classify kept g c (g.absorbed p c)
  | bypass {g n} (h : Bypassable kept g n) (hok : ∀ w ∈ g.passages n, ∃ o, w.detour classify = .ok o) :
    Removal classify kept g n (g.bypassed classify n)

/-- The graph that is left if the classifier fails while the entrances of a region are led round it: only
the first edges have been laid. -/
def Abandoned (classify : Classifier) (kept : NameSet) (g g' : RegionGraph) : Prop :=
  ∃ n l, Bypassable kept g n ∧ l <+: g.passages n ∧
    g' = l.foldl (RegionGraph.addDetour classify) (g.without n)

open RegionGraph

variable {classify : Classifier} {kept : NameSet} {Q : Branch → Prop} {g g' : RegionGraph} {n p q : Name}

theorem Mergeable.parent_mem (h : Mergeable kept g p n) : p ∈ g.parentsOf n := by simp [h.parents]

theorem Mergeable.ne (h : Mergeable kept g p n) (hg : g.Consistent) : p ≠ n := by
  rintro rfl
  have htarget := hg.mem_parentsOf.1 h.parent_mem
  simp [targetsOf, h.exits] at htarget

theorem Bypassable.ne_start (h : Bypassable kept g n) (hstart : startRegion ∈ kept) :
    n ≠ startRegion :=
  fun hn => h.not_kept (hn ▸ hstart)

/-- Only the edges differ from those of the graph without the region. -/
theorem Bypassable.rewires (h : Bypassable kept g n) (hg : g.Consistent)
    (hstart : startRegion ∈ kept) :
    Rewires (fun _ => True) (g.without n) (g.bypassed classify n) :=
  hg.rewires_detours classify allBranches_true (fun _ _ => trivial) (h.ne_start hstart) h.no_loop
    fun _ hw => hw

theorem Removal.not_kept (h : Removal classify kept g n g') : n ∉ kept := by
  cases h with
  | merge h => exact h.not_kept
  | absorb h => exact h.not_kept
  | bypass h => exact h.not_kept

theorem Removal.ne_start (h : Removal classify kept g n g') (hstart : startRegion ∈ kept) :
    n ≠ startRegion :=
  fun hn => h.not_kept (hn ▸ hstart)

theorem Removal.mem_names (h : Removal classify kept g n g') (hg : g.Consistent) : n ∈ g.names := by
  cases h with
  | merge h => exact hg.mem_of_parent h.parent_mem
  | absorb h => exact hg.target_mem h.out
  | bypass h =>
    obtain ⟨p, hp⟩ := List.exists_mem_of_ne_nil _ h.parents
    exact hg.mem_of_parent hp

/-- The graph stays consistent, and what the branches satisfy they satisfy afterwards. -/
theorem Removal.keeps (h : Removal classify kept g n g') (hg : g.Consistent) (hall : g.AllBranches Q)
    (hadd : ∀ {a b}, Q a → Q b → Q (a + b)) (hstart : startRegion ∈ kept) :
    g'.Consistent ∧ g'.AllBranches Q := by
  have hn := h.ne_start hstart
  cases h with
  | merge h => exact hg.mergedInto hall hadd hn (h.ne hg) h.parent_mem
  | absorb h => exact hg.absorbed hall (mem_names_of_mem_targetsOf h.out) hn
  | bypass h hok =>
    have hw := hg.rewires_detours classify hall hadd hn h.no_loop fun _ hw => hw
    exact ⟨hw.consistent, hw.all⟩

theorem Removal.consistent (h : Removal classify kept g n g') (hg : g.Consistent)
    (hstart : startRegion ∈ kept) : g'.Consistent :=
  (h.keeps hg allBranches_true (fun _ _ => trivial) hstart).1

/-- The region has gone, and no other has gone or come. -/
theorem Removal.names (h : Removal classify kept g n g') (hg : g.Consistent)
    (hstart : startRegion ∈ kept) : g'.names = g.names.erase n := by
  cases h with
  | merge h => exact names_mergedInto
  | absorb h => exact hg.names_absorbed (mem_names_of_mem_targetsOf h.out)
  | bypass h => exact (h.rewires hg hstart).names.trans names_without

/-- The declared names stay. -/
theorem Removal.keys_sites (h : Removal classify kept g n g') (hg : g.Consistent)
    (hstart : startRegion ∈ kept) (kind : Placed) :
    Entries.keys (g'.sites kind) = Entries.keys (g.sites kind) := by
  cases h with
  | merge h => exact keys_sites_mergedInto kind
  | absorb h => rw [hg.sites_absorbed (mem_names_of_mem_targetsOf h.out)]
  | bypass h => rw [(h.rewires hg hstart).sites, sites_without]

/-- What is placed in the region moves to one other region, and nothing else moves. -/
theorem Removal.placedIn (h : Removal classify kept g n g') (hg : g.Consistent)
    (hstart : startRegion ∈ kept) :
    ∃ p ∈ g.names, p ≠ n ∧ ∀ kind q, g'.placedIn kind q =
      if q = n then []
      else if q = p then (g.placedIn kind n).foldl addOnce (g.placedIn kind q)
      else g.placedIn kind q := by
  cases h with
  | @merge p _ h =>
    refine ⟨p, hg.parent_mem h.parent_mem, h.ne hg, fun kind q => ?_⟩
    rw [hg.placedIn_mergedInto (hg.parent_mem h.parent_mem) (h.ne hg)]
    cases kind with
    | transitions => simp [h.transitions]
    | locations => simp
  | @absorb p _ h =>
    have hp := mem_names_of_mem_targetsOf h.out
    exact ⟨p, hp, h.ne.symm, fun kind q => hg.placedIn_absorbed hp kind⟩
  | bypass h =>
    -- the region is empty, so that any other one takes in what was placed in it
    refine ⟨startRegion, hg.start_mem, (h.ne_start hstart).symm, fun kind q => ?_⟩
    rw [(h.rewires hg hstart).placedIn, hg.placedIn_without, h.empty kind]
    simp [eq_comm]

/-- The graph that is left when entrances have been led round a region in part. -/
theorem Abandoned.exists_rewires (h : Abandoned classify kept g g') (hg : g.Consistent)
    (hall : g.AllBranches Q) (hadd : ∀ {a b}, Q a → Q b → Q (a + b)) (hstart : startRegion ∈ kept) :
    ∃ n, Bypassable kept g n ∧ n ≠ startRegion ∧ Rewires Q (g.without n) g' := by
  obtain ⟨n, l, hn, hl, rfl⟩ := h
  have hne := hn.ne_start hstart
  exact ⟨n, hn, hne, hg.rewires_detours classify hall hadd hne hn.no_loop fun w hw => hl.subset hw⟩

end RegionLogic
