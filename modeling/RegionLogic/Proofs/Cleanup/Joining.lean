import RegionLogic.Proofs.Region.Ways
import RegionLogic.Region.Cleanup

/-!
# Joining a region to its neighbour

What is placed in a region that is joined to a neighbour is placed in that one afterwards, and its edges
become those of the neighbour. An edge to itself becomes one of the neighbour to itself.

## Main definitions

* `RegionGraph.joined`: the graph in which a region has all that another one has
* `RegionGraph.absorbed`: the graph without the other one

## Main results

* `Consistent.way_absorbed`: the ways afterwards
* `Consistent.placedIn_absorbed`: where everything is afterwards
* `Consistent.absorbed`: the graph stays consistent
-/

namespace RegionLogic

theorem Region.foldl_addLocation (xs : List Name) (r : Region) :
    xs.foldl (·.addLocation ·) r = r.adjustPlaced (xs.foldl addOnce ·) .locations := by
  induction xs generalizing r with
  | nil => rfl
  | cons x xs ih => exact ih _

theorem Region.foldl_addTransition (xs : List Name) (r : Region) :
    xs.foldl (·.addTransition ·) r = r.adjustPlaced (xs.foldl addOnce ·) .transitions := by
  induction xs generalizing r with
  | nil => rfl
  | cons x xs ih => exact ih _

namespace RegionGraph

variable {Q : Branch → Prop} {g g' : RegionGraph} {p c q : Name}

/-- The graph in which what is placed in `c` is placed in `p` as well. -/
def adoptPlaced (g : RegionGraph) (p c : Name) : RegionGraph :=
  g.adjustRegion p fun r =>
    (g.placedIn .transitions c).foldl (·.addTransition ·)
      ((g.placedIn .locations c).foldl (·.addLocation ·) r)

/-- The graph in which `p` has an exit of `c` as well; an exit to `c` itself leads to `p`. -/
def adoptExit (p c : Name) (g : RegionGraph) (e : Exit) : RegionGraph :=
  if e.target = p then g else g.addEdge p e.logic (if e.target = c then p else e.target)

/-- The graph in which the edge from another region to `c` leads to `p`. -/
def adoptEntrance (p c : Name) (g : RegionGraph) (other : Name) : RegionGraph :=
  if other = p ∨ other = c then g else g.redirect c p other

/-- The graph in which `p` has all that `c` has. -/
def joined (g : RegionGraph) (p c : Name) : RegionGraph :=
  let g₁ := (g.exitsOf c).foldl (adoptExit p c) (g.adoptPlaced p c)
  (g₁.parentsOf c).foldl (adoptEntrance p c) g₁

/-- The graph with `c` joined to `p`. -/
def absorbed (g : RegionGraph) (p c : Name) : RegionGraph := (g.joined p c).without c

/-! ## What is placed -/

theorem placedIn_adoptPlaced (hp : p ∈ g.names) (kind : Placed) :
    (g.adoptPlaced p c).placedIn kind q =
      if q = p then (g.placedIn kind c).foldl addOnce (g.placedIn kind q) else g.placedIn kind q := by
  unfold adoptPlaced placedIn
  rw [region?_adjustRegion]
  by_cases hq : q = p
  · subst hq
    obtain ⟨r, hr⟩ := mem_names.1 hp
    rw [if_pos rfl, if_pos rfl, hr, Option.map_some, Region.foldl_addLocation, Region.foldl_addTransition]
    cases kind <;> rfl
  · rw [if_neg (Ne.symm hq), if_neg hq]

theorem exitsOf_adoptPlaced : (g.adoptPlaced p c).exitsOf q = g.exitsOf q :=
  exitsOf_adjustRegion_of_eq fun r => by
    rw [Region.foldl_addLocation, Region.foldl_addTransition]
    rfl

theorem Consistent.adoptPlaced (h : g.Consistent) (hp : p ∈ g.names) :
    (g.adoptPlaced p c).Consistent := by
  refine h.of_views names_adjustRegion (exists_of_region?_adjustRegion fun r => ?_) rfl
    (fun _ => by rw [targetsOf, exitsOf_adoptPlaced, targetsOf])
    (fun kind => by rw [RegionGraph.adoptPlaced, sites_adjustRegion]; exact h.keys_sites_nodup kind)
    (fun hl => h.site_name (sites_adjustRegion _ ▸ hl)) ?_
    (fun he => h.exit_logic (exitsOf_adoptPlaced ▸ he)) (fun hl => h.location_logic hl)
  · rw [Region.foldl_addLocation, Region.foldl_addTransition]
    rfl
  · intro kind q x hx
    rw [placedIn_adoptPlaced hp] at hx
    rw [RegionGraph.adoptPlaced, sites_adjustRegion]
    split at hx
    · rcases mem_foldl_addOnce.1 hx with hx | hx
      · exact h.declared hx
      · exact h.declared hx
    · exact h.declared hx

theorem AllBranches.adoptPlaced (hall : g.AllBranches Q) (h : g.Consistent) (hp : p ∈ g.names) :
    (g.adoptPlaced p c).AllBranches Q := by
  refine hall.of_ways h (h.adoptPlaced hp) (fun _ => sites_adjustRegion _) ?_
  rintro q b t ⟨e, he, ht, hb⟩
  exact Or.inl ⟨q, t, e, exitsOf_adoptPlaced ▸ he, ht, hb⟩

/-! ## Edges -/

theorem Rewires.adoptExit (h : Rewires Q g g') (hp : p ∈ g.names) {e : Exit}
    (ht : e.target ∈ g.names) (hne : e.logic ≠ []) (hbs : ∀ b ∈ e.logic, Q b) :
    Rewires Q g (RegionGraph.adoptExit p c g' e) := by
  unfold RegionGraph.adoptExit
  split
  · exact h
  · refine h.addEdge hp ?_ hne hbs
    split
    · exact hp
    · exact ht

theorem Rewires.adoptEntrance (h : Rewires Q g g') (hp : p ∈ g.names) {other : Name}
    (ho : other ∈ g.names) : Rewires Q g (RegionGraph.adoptEntrance p c g' other) := by
  unfold RegionGraph.adoptEntrance
  split
  · exact h
  · exact h.redirect ho hp

/-- The exits of `c` are laid to `p`. -/
theorem Consistent.rewires_adoptExit (h : g.Consistent) (hall : g.AllBranches Q) (hp : p ∈ g.names) :
    Rewires Q (g.adoptPlaced p c)
      ((g.exitsOf c).foldl (RegionGraph.adoptExit p c) (g.adoptPlaced p c)) := by
  refine List.foldlRecOn _ _ (.refl (h.adoptPlaced hp) (hall.adoptPlaced h hp)) fun g' hg e he => ?_
  have hnames : (g.adoptPlaced p c).names = g.names := names_adjustRegion
  exact hg.adoptExit (hnames ▸ hp) (hnames ▸ h.target_mem (target_mem_targetsOf he))
    (h.exit_logic he) fun b hb => (h.allBranches_iff.1 hall).1 ⟨e, he, rfl, hb⟩

theorem Consistent.rewires_joined (h : g.Consistent) (hall : g.AllBranches Q) (hp : p ∈ g.names) :
    Rewires Q (g.adoptPlaced p c) (g.joined p c) := by
  have hexits := h.rewires_adoptExit (c := c) hall hp
  have hnames : (g.adoptPlaced p c).names = g.names := names_adjustRegion
  refine List.foldlRecOn _ _ hexits fun g' hg other ho => ?_
  exact hg.adoptEntrance (hnames ▸ hp) (hexits.names ▸ hexits.consistent.parent_mem ho)

/-! ## Ways -/

section Ways

variable {b : Branch} {r : Name}

/-- The exits of `c` that are laid to `p`: those that lead to `p` are left out, and one that leads to `c`
itself leads to `p`. -/
theorem way_foldl_adoptExit {es : List Exit} :
    (es.foldl (RegionGraph.adoptExit p c) g).Way q b r ↔
      g.Way q b r ∨ q = p ∧ ∃ e ∈ es, e.target ≠ p ∧ b ∈ e.logic ∧
        r = if e.target = c then p else e.target := by
  induction es generalizing g with
  | nil => simp
  | cons e es ih =>
    rw [List.foldl_cons, ih, RegionGraph.adoptExit, List.exists_mem_cons_iff]
    split
    · next ht => simp [ht]
    · next ht =>
      rw [way_addEdge]
      constructor
      · rintro ((hw | ⟨hq, hr, hb⟩) | ⟨hq, h⟩)
        · exact Or.inl hw
        · exact Or.inr ⟨hq, Or.inl ⟨ht, hb, hr⟩⟩
        · exact Or.inr ⟨hq, Or.inr h⟩
      · rintro (hw | ⟨hq, ⟨-, hb, hr⟩ | h⟩)
        · exact Or.inl (Or.inl hw)
        · exact Or.inl (Or.inr ⟨hq, hr, hb⟩)
        · exact Or.inr ⟨hq, h⟩

/-- The ways to `c` from other regions lead to `p` instead. -/
theorem Consistent.way_foldl_adoptEntrance (h : g.Consistent) (hp : p ∈ g.names) (hne : c ≠ p)
    {l : List Name} (hl : ∀ o ∈ l, o ∈ g.names) :
    (l.foldl (RegionGraph.adoptEntrance p c) g).Way q b r ↔
      g.Way q b r ∧ ¬((q ∈ l ∧ q ≠ p ∧ q ≠ c) ∧ r = c) ∨
        (q ∈ l ∧ q ≠ p ∧ q ≠ c) ∧ r = p ∧ g.Way q b c := by
  induction l generalizing g with
  | nil => simp
  | cons o l ih =>
    rw [List.forall_mem_cons] at hl
    rw [List.foldl_cons, RegionGraph.adoptEntrance]
    split
    · next ho =>
      rw [ih h hp hl.2]
      have hmem : q ∈ o :: l ∧ q ≠ p ∧ q ≠ c ↔ q ∈ l ∧ q ≠ p ∧ q ≠ c := by
        simp only [List.mem_cons]
        grind
      rw [hmem]
    · next ho =>
      -- a redirected entrance has no way to `c` left, so it does not matter if it comes up again
      have hnames : (g.redirect c p o).names = g.names := names_redirect hl.1 hp
      rw [ih (h.redirect _ _ _) (hnames ▸ hp) (hnames ▸ hl.2), h.way_redirect, h.way_redirect]
      simp only [List.mem_cons]
      grind

theorem Consistent.way_absorbed (h : g.Consistent) (hp : p ∈ g.names) (hne : c ≠ p) :
    (g.absorbed p c).Way q b r ↔
      (q ≠ c ∧ r ≠ c) ∧
        (g.Way q b r ∨ q = p ∧ (∃ t, t ≠ p ∧ g.Way c b t ∧ r = if t = c then p else t) ∨
          q ≠ p ∧ r = p ∧ g.Way q b c) := by
  have hexits := h.rewires_adoptExit (c := c) allBranches_true hp
  have hjoined := h.rewires_joined (c := c) allBranches_true hp
  have hnames : (g.adoptPlaced p c).names = g.names := names_adjustRegion
  have hp₁ := hexits.names.trans hnames ▸ hp
  -- the ways once `p` has the exits of `c`
  have hway₁ {q : Name} {b : Branch} {r : Name} :
      ((g.exitsOf c).foldl (RegionGraph.adoptExit p c) (g.adoptPlaced p c)).Way q b r ↔
        g.Way q b r ∨ q = p ∧ ∃ t, t ≠ p ∧ g.Way c b t ∧ r = if t = c then p else t := by
    rw [way_foldl_adoptExit]
    refine or_congr (by unfold Way; rw [exitsOf_adoptPlaced]) (and_congr_right fun _ => ?_)
    constructor
    · rintro ⟨e, he, ht, hb, hr⟩
      exact ⟨e.target, ht, ⟨e, he, rfl, hb⟩, hr⟩
    · rintro ⟨t, ht, ⟨e, he, rfl, hb⟩, hr⟩
      exact ⟨e, he, ht, hb, hr⟩
  rw [RegionGraph.absorbed, hjoined.consistent.way_without, RegionGraph.joined]
  rw [hexits.consistent.way_foldl_adoptEntrance hp₁ hne fun o ho => hexits.consistent.parent_mem ho,
    hway₁, and_comm]
  refine and_congr_right fun hqr => ?_
  constructor
  · rintro (⟨hw | hw, -⟩ | ⟨⟨-, hq, -⟩, hr, hw⟩)
    · exact Or.inl hw
    · exact Or.inr (Or.inl hw)
    · rcases hway₁.1 hw with hw | hw
      · exact Or.inr (Or.inr ⟨hq, hr, hw⟩)
      · exact absurd hw.1 hq
  · rintro (hw | hw | ⟨hq, hr, hw⟩)
    · exact Or.inl ⟨Or.inl hw, fun hc => hqr.2 hc.2⟩
    · exact Or.inl ⟨Or.inr hw, fun hc => hqr.2 hc.2⟩
    · have hw₁ := hway₁.2 (Or.inl hw)
      exact Or.inr ⟨⟨hexits.consistent.mem_parentsOf.2 hw₁.mem_targetsOf, hq, hqr.1⟩, hr, hw₁⟩

end Ways

/-! ## Taking the region out -/

theorem Consistent.names_absorbed (h : g.Consistent) (hp : p ∈ g.names) :
    (g.absorbed p c).names = g.names.erase c := by
  rw [RegionGraph.absorbed, names_without, (h.rewires_joined (c := c) allBranches_true hp).names]
  exact congrArg (List.erase · c) names_adjustRegion

theorem Consistent.sites_absorbed (h : g.Consistent) (hp : p ∈ g.names) (kind : Placed) :
    (g.absorbed p c).sites kind = g.sites kind := by
  rw [RegionGraph.absorbed, sites_without, (h.rewires_joined (c := c) allBranches_true hp).sites]
  exact sites_adjustRegion kind

theorem Consistent.placedIn_absorbed (h : g.Consistent) (hp : p ∈ g.names) (kind : Placed) :
    (g.absorbed p c).placedIn kind q =
      if q = c then []
      else if q = p then (g.placedIn kind c).foldl addOnce (g.placedIn kind q)
      else g.placedIn kind q := by
  have hjoined := h.rewires_joined (c := c) allBranches_true hp
  rw [RegionGraph.absorbed, hjoined.consistent.placedIn_without, hjoined.placedIn,
    placedIn_adoptPlaced hp]
  simp only [eq_comm]

theorem Consistent.absorbed (h : g.Consistent) (hall : g.AllBranches Q) (hp : p ∈ g.names)
    (hc : c ≠ startRegion) : (g.absorbed p c).Consistent ∧ (g.absorbed p c).AllBranches Q :=
  have hjoined := h.rewires_joined hall hp
  ⟨hjoined.consistent.without hc, hjoined.all.without hjoined.consistent hc⟩

end RegionGraph

end RegionLogic
