import RegionLogic.Proofs.Region.Consistent
import RegionLogic.Proofs.Region.Outcome

/-!
# Leading edges elsewhere and taking regions out

On a consistent graph the operations that take edges and regions away do not fail, and what they leave is
the value of a function.

## Main definitions

* `RegionGraph.redirect`: the graph with one edge led elsewhere
* `RegionGraph.relabelled`: the graph with a region made the start region
* `RegionGraph.Relabelable`: a region that can be made the start region

## Main results

* `outcome_removeRegion`, `outcome_redirect`, `outcome_relabelAsStart`: the operations give these graphs
* `outcome_relabelAsStart_of_not`: where a region cannot be made the start region nothing is changed
* `Consistent.redirect`, `Consistent.relabelled`: and these graphs are consistent
-/

namespace RegionLogic

namespace RegionGraph

/-- The graph with the edge from `other` to `old` led to `new` instead. -/
def redirect (g : RegionGraph) (old new other : Name) : RegionGraph :=
  match g.exit? other old with
  | some e => (g.cut other old).addEdge other e.logic new
  | none => g.cut other old

/-- The graph with all edges into a region led to the start region, and without the region. -/
def relabelled (g : RegionGraph) (n : Name) : RegionGraph :=
  ((g.parentsOf n).foldl (redirect · n startRegion ·) g).without n

/-- The region can be made the start region: it is another region that is there, and it owns nothing. -/
structure Relabelable (g : RegionGraph) (n : Name) : Prop where
  /-- It is not the start region itself. -/
  ne_start : n ≠ startRegion
  /-- It is there. -/
  mem_names : n ∈ g.names
  /-- It has no exits. -/
  exitsOf : g.exitsOf n = []
  /-- Neither a location nor a transition is placed in it. -/
  placedIn : ∀ kind, g.placedIn kind n = []

variable {g : RegionGraph} {old new other p q t c n : Name}

theorem Consistent.redirect (h : g.Consistent) (old new other : Name) :
    (g.redirect old new other).Consistent := by
  unfold RegionGraph.redirect
  split
  · next e he => exact (h.cut other old).addEdge (h.exit_logic (mem_exitsOf_of_exit? he).1) ..
  · exact h.cut other old

/-- Between regions that are there edges are led without new regions. -/
theorem names_redirect (ho : other ∈ g.names) (hn : new ∈ g.names) :
    (g.redirect old new other).names = g.names := by
  unfold redirect
  split
  · rw [names_addEdge_of_mem, names_cut]
    · rwa [names_cut]
    · rwa [names_cut]
  · exact names_cut

@[simp] theorem placedIn_redirect (kind : Placed) :
    (g.redirect old new other).placedIn kind q = g.placedIn kind q := by
  unfold redirect
  split <;> simp

@[simp] theorem sites_redirect (kind : Placed) :
    (g.redirect old new other).sites kind = g.sites kind := by
  unfold redirect
  split <;> simp

section Redirections

variable {l : List Name}

theorem names_foldl_redirect (old : Name) (hl : ∀ o ∈ l, o ∈ g.names) (hn : new ∈ g.names) :
    (l.foldl (redirect · old new ·) g).names = g.names :=
  List.foldlRecOn (motive := fun g' : RegionGraph => g'.names = g.names) _ _ rfl
    fun _ hg o ho => (names_redirect (hg ▸ hl o ho) (hg ▸ hn)).trans hg

theorem Consistent.foldl_redirect (h : g.Consistent) (old new : Name) (l : List Name) :
    (l.foldl (RegionGraph.redirect · old new ·) g).Consistent :=
  List.foldlRecOn _ _ h fun _ hg o _ => hg.redirect old new o

theorem placedIn_foldl_redirect (kind : Placed) :
    (l.foldl (redirect · old new ·) g).placedIn kind q = g.placedIn kind q :=
  List.foldlRecOn (motive := fun g' : RegionGraph => g'.placedIn kind q = g.placedIn kind q) _ _ rfl
    fun _ hg _ _ => (placedIn_redirect kind).trans hg

theorem sites_foldl_redirect (kind : Placed) :
    (l.foldl (redirect · old new ·) g).sites kind = g.sites kind :=
  List.foldlRecOn (motive := fun g' : RegionGraph => g'.sites kind = g.sites kind) _ _ rfl
    fun _ hg _ _ => (sites_redirect kind).trans hg

end Redirections

theorem Consistent.relabelled (h : g.Consistent) (hn : n ≠ startRegion) :
    (g.relabelled n).Consistent :=
  (h.foldl_redirect ..).without hn

theorem Consistent.placedIn_relabelled (h : g.Consistent) (hn : g.Relabelable n) (kind : Placed) :
    (g.relabelled n).placedIn kind q = g.placedIn kind q := by
  rw [RegionGraph.relabelled, (h.foldl_redirect ..).placedIn_without, placedIn_foldl_redirect]
  split
  · next hq => rw [← hq, hn.placedIn]
  · rfl

@[simp] theorem sites_relabelled (kind : Placed) :
    (g.relabelled n).sites kind = g.sites kind := by
  rw [relabelled, sites_without, sites_foldl_redirect]

end RegionGraph

namespace Building

open RegionGraph

variable {s : Session} {old new other p t n : Name}

theorem outcome_disconnect (h : p ∈ s.graph.names) :
    outcome (disconnect p t) s = (.ok (), { s with graph := s.graph.cut p t }) := by
  rw [disconnect, outcome_graph_bind, disconnect_eq_cut h, outcome_except_bind_ok, outcome_change]

/-- A region of a consistent graph is taken out without a failure. -/
theorem outcome_removeRegion (h : s.graph.Consistent) (hn : n ∈ s.graph.names) :
    outcome (removeRegion n) s = (.ok (), { s with graph := s.graph.without n }) := by
  obtain ⟨r, hr⟩ := mem_names.1 hn
  rw [removeRegion, outcome_region_bind hr, outcome_graph_bind]
  -- the edges into the region
  have hinto : outcome ((s.graph.parentsOf n).forM (disconnect · n)) s =
      (.ok (), { s with graph := (s.graph.parentsOf n).foldl (fun g p => g.cut p n) s.graph }) :=
    outcome_forM (P := fun g => g.names = s.graph.names)
      (fun p hp _ hs => ⟨outcome_disconnect (hs ▸ h.parent_mem hp), names_cut.trans hs⟩) rfl
  rw [outcome_bind_of_ok hinto]
  -- the edges out of it
  let g₁ := (s.graph.parentsOf n).foldl (fun g p => g.cut p n) s.graph
  have hn₁ : n ∈ g₁.names := by
    rwa [names_foldl_cut_parents]
  obtain ⟨r₁, hr₁⟩ := mem_names.1 hn₁
  rw [outcome_region_bind hr₁, ← targetsOf_of_region? hr₁]
  have hout : outcome ((g₁.targetsOf n).forM (disconnect n ·)) { s with graph := g₁ } =
      (.ok (), { s with graph := (g₁.targetsOf n).foldl (fun g t => g.cut n t) g₁ }) :=
    outcome_forM (P := fun g => n ∈ g.names)
      (fun t _ _ hs => ⟨outcome_disconnect hs, by rwa [names_cut]⟩) hn₁
  rw [outcome_bind_of_ok hout, outcome_change]
  rfl

theorem outcome_redirect (h : other ∈ s.graph.names) :
    outcome (redirect old new other) s =
      (.ok (), { s with graph := s.graph.redirect old new other }) := by
  obtain ⟨r, hr⟩ := mem_names.1 h
  rw [redirect, outcome_region_bind hr, outcome_bind_of_ok (outcome_disconnect h),
    exit?_of_region? hr, RegionGraph.redirect]
  cases s.graph.exit? other old <;> rfl

/-- Edges are led elsewhere one after the other. -/
theorem outcome_forM_redirect (old : Name) {l : List Name} (hl : ∀ o ∈ l, o ∈ s.graph.names)
    (hn : new ∈ s.graph.names) :
    outcome (l.forM (redirect old new)) s =
      (.ok (), { s with graph := l.foldl (RegionGraph.redirect · old new ·) s.graph }) :=
  outcome_forM (P := fun g => g.names = s.graph.names)
    (fun o ho _ hs => ⟨outcome_redirect (hs ▸ hl o ho),
      (names_redirect (hs ▸ hl o ho) (hs ▸ hn)).trans hs⟩) rfl

/-- A region that cannot be made the start region makes the operation fail, and nothing is changed. -/
theorem outcome_relabelAsStart_of_not (h : ¬s.graph.Relabelable n) :
    ∃ cause, outcome (relabelAsStart n) s = (.error (.relabel cause), s) := by
  unfold relabelAsStart
  by_cases hstart : n = startRegion
  · exact ⟨.alreadyStart, by rw [if_pos hstart]; rfl⟩
  rw [if_neg hstart]
  show ∃ _, outcome (graph >>= _) s = _
  rw [outcome_graph_bind]
  cases hr : s.graph.region? n with
  | none => exact ⟨.unknownRegion n, rfl⟩
  | some r =>
    dsimp only
    have howns : (!r.exits.isEmpty || !r.isEmpty) = true := by
      by_contra hnone
      simp only [Region.isEmpty, Bool.or_eq_true, Bool.not_eq_true', not_or, Bool.not_eq_false,
        List.isEmpty_iff, Bool.and_eq_true] at hnone
      obtain ⟨hexits, hlocations, htransitions⟩ := hnone
      refine h ⟨hstart, mem_names.2 ⟨r, hr⟩, (exitsOf_of_region? hr).trans hexits, fun kind => ?_⟩
      rw [placedIn_of_region? hr]
      cases kind
      · exact htransitions
      · exact hlocations
    exact ⟨.ownsChildren n, by rw [if_pos howns]; rfl⟩

/-- Another region that is there and owns nothing is made the start region. -/
theorem outcome_relabelAsStart (h : s.graph.Consistent) (hn : s.graph.Relabelable n) :
    outcome (relabelAsStart n) s =
      (.ok (), ⟨s.graph.relabelled n,
        s.events ++ [⟨.info, .builder, s!"Relabelled start region {n} as {startRegion}"⟩]⟩) := by
  obtain ⟨r, hr⟩ := mem_names.1 hn.mem_names
  have hexits : r.exits = [] := (exitsOf_of_region? hr).symm.trans hn.exitsOf
  have hlocations : r.locations = [] := (placedIn_of_region? hr .locations).symm.trans (hn.placedIn _)
  have htransitions : r.transitions = [] :=
    (placedIn_of_region? hr .transitions).symm.trans (hn.placedIn _)
  have howns : ¬(!r.exits.isEmpty || !r.isEmpty) = true := by
    simp [Region.isEmpty, hexits, hlocations, htransitions]
  have hl : ∀ o ∈ s.graph.parentsOf n, o ∈ s.graph.names := fun o ho => h.parent_mem ho
  -- the region is left without edges by leading its entrances to the start region
  have hredirect := outcome_forM_redirect n hl h.start_mem
  have hnames := names_foldl_redirect n hl h.start_mem
  have hremove := outcome_removeRegion (n := n)
    (s := { s with graph := (s.graph.parentsOf n).foldl (RegionGraph.redirect · n startRegion ·) s.graph })
    (h.foldl_redirect ..) (by rw [hnames]; exact hn.mem_names)
  unfold relabelAsStart
  rw [if_neg hn.ne_start]
  show outcome (graph >>= _) s = _
  rw [outcome_graph_bind, hr]
  dsimp only
  rw [if_neg howns]
  show outcome (graph >>= _) s = _
  rw [outcome_graph_bind, outcome_bind_of_ok hredirect, outcome_bind_of_ok hremove]
  exact outcome_log ..

end Building

end RegionLogic
