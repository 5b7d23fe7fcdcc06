import RegionLogic.Proofs.Region.Alternatives
import RegionLogic.Proofs.Region.Removal

/-!
# Ways

A branch of an exit is a way from one region to another. Each change of the edges is described by the
ways that there are afterwards, whatever exits they belong to.

## Main definitions

* `RegionGraph.Way`: a branch leads from one region to another
* `RegionGraph.AllBranches`: what all branches of a graph satisfy
* `RegionGraph.Rewires`: a graph in which only the edges differ

## Main results

* `way_addEdge`, `way_cut`, `Consistent.way_without`, `Consistent.way_redirect`: the ways of a changed graph
* `Consistent.allBranches_iff`: the branches are those of the ways and of what is declared
-/

namespace RegionLogic

namespace RegionGraph

/-- The branch `b` leads from the region `p` to the region `t`. -/
def Way (g : RegionGraph) (p : Name) (b : Branch) (t : Name) : Prop :=
  ∃ e ∈ g.exitsOf p, e.target = t ∧ b ∈ e.logic

/-- All branches of a graph satisfy `Q`. -/
def AllBranches (Q : Branch → Prop) (g : RegionGraph) : Prop :=
  ∀ l ∈ g.logicLists, ∀ b ∈ l, Q b

variable {g g' : RegionGraph} {p q r t n old new other : Name} {b : Branch}
  {bs : List Branch}

theorem Way.mem_targetsOf (h : g.Way p b t) : t ∈ g.targetsOf p := by
  obtain ⟨e, he, rfl, -⟩ := h
  exact target_mem_targetsOf he

theorem Consistent.way_iff (h : g.Consistent) :
    g.Way p b t ↔ ∃ e, g.exit? p t = some e ∧ b ∈ e.logic := by
  constructor
  · rintro ⟨e, he, rfl, hb⟩
    exact ⟨e, exit?_of_mem (h.targetsOf_nodup p) he, hb⟩
  · rintro ⟨e, he, hb⟩
    obtain ⟨hmem, htarget⟩ := mem_exitsOf_of_exit? he
    exact ⟨e, hmem, htarget, hb⟩

theorem Consistent.way_iff_mem_exitLogic (h : g.Consistent) :
    g.Way p b t ↔ b ∈ g.exitLogic p t := by
  rw [h.way_iff, exitLogic]
  cases g.exit? p t <;> simp

/-- The ways to the region that an exit leads to are the alternatives of that exit. -/
theorem Consistent.way_target_iff (h : g.Consistent) {e : Exit} (he : e ∈ g.exitsOf p) :
    g.Way p b e.target ↔ b ∈ e.logic := by
  rw [h.way_iff_mem_exitLogic, exitLogic, exit?_of_mem (h.targetsOf_nodup p) he]
  rfl

/-- Where there is an exit there is a way. -/
theorem Consistent.exists_way (h : g.Consistent) (ht : t ∈ g.targetsOf p) : ∃ b, g.Way p b t := by
  obtain ⟨e, he, rfl⟩ := List.mem_map.1 ht
  obtain ⟨b, hb⟩ := List.exists_mem_of_ne_nil _ (h.exit_logic he)
  exact ⟨b, e, he, rfl, hb⟩

theorem Consistent.exitLogic_ne_nil (h : g.Consistent) (ht : t ∈ g.targetsOf p) :
    g.exitLogic p t ≠ [] := by
  obtain ⟨b, hb⟩ := h.exists_way ht
  exact List.ne_nil_of_mem (h.way_iff_mem_exitLogic.1 hb)

/-! ## The ways of a changed graph -/

theorem exists_mem_extendExits {es : List Exit} :
    (∃ e ∈ Region.extendExits t bs es, e.target = r ∧ b ∈ e.logic) ↔
      (∃ e ∈ es, e.target = r ∧ b ∈ e.logic) ∨ t = r ∧ b ∈ bs := by
  induction es with
  | nil => simp [Region.extendExits]
  | cons e es ih =>
    -- the first exit to `t` takes all the branches, and what is behind it stays as it is
    by_cases he : e.target = t
    · simp only [Region.extendExits, he, if_true, List.exists_mem_cons_iff, List.mem_append]
      constructor
      · rintro (⟨hr, hb | hb⟩ | h)
        · exact Or.inl (Or.inl ⟨hr, hb⟩)
        · exact Or.inr ⟨hr, hb⟩
        · exact Or.inl (Or.inr h)
      · rintro ((⟨hr, hb⟩ | h) | ⟨hr, hb⟩)
        · exact Or.inl ⟨hr, Or.inl hb⟩
        · exact Or.inr h
        · exact Or.inl ⟨hr, Or.inr hb⟩
    · simp only [Region.extendExits, he, if_false, List.exists_mem_cons_iff, ih, or_assoc]

theorem way_addEdge :
    (g.addEdge p bs t).Way q b r ↔ g.Way q b r ∨ q = p ∧ r = t ∧ b ∈ bs := by
  unfold Way
  rw [exitsOf_addEdge]
  split
  · next hpq => rw [exists_mem_extendExits, hpq]; simp [eq_comm]
  · next hpq => simp [Ne.symm hpq]

theorem way_cut : (g.cut p t).Way q b r ↔ g.Way q b r ∧ ¬(q = p ∧ r = t) := by
  unfold Way
  rw [exitsOf_cut]
  constructor
  · rintro ⟨e, he, rfl, hb⟩
    split at he
    · obtain ⟨he, hne⟩ := List.mem_filter.1 he
      exact ⟨⟨e, he, rfl, hb⟩, fun hc => by simp [hc.2] at hne⟩
    · next hpq => exact ⟨⟨e, he, rfl, hb⟩, fun hc => hpq hc.1.symm⟩
  · rintro ⟨⟨e, he, rfl, hb⟩, hne⟩
    refine ⟨e, ?_, rfl, hb⟩
    split
    · next hpq => exact List.mem_filter.2 ⟨he, by simpa [hpq] using hne⟩
    · exact he

theorem Consistent.way_without (h : g.Consistent) :
    (g.without n).Way q b r ↔ g.Way q b r ∧ q ≠ n ∧ r ≠ n := by
  unfold Way
  rw [h.exitsOf_without]
  constructor
  · rintro ⟨e, he, rfl, hb⟩
    split at he
    · cases he
    · next hq =>
      obtain ⟨he, hne⟩ := List.mem_filter.1 he
      exact ⟨⟨e, he, rfl, hb⟩, Ne.symm hq, by simpa using hne⟩
  · rintro ⟨⟨e, he, rfl, hb⟩, hq, hr⟩
    refine ⟨e, ?_, rfl, hb⟩
    rw [if_neg (Ne.symm hq)]
    exact List.mem_filter.2 ⟨he, by simpa using hr⟩

/-- The ways from `other` to `old` lead to `new` instead. -/
theorem Consistent.way_redirect (h : g.Consistent) :
    (g.redirect old new other).Way q b r ↔
      g.Way q b r ∧ ¬(q = other ∧ r = old) ∨ q = other ∧ r = new ∧ g.Way other b old := by
  unfold RegionGraph.redirect
  split
  · next e he =>
    rw [way_addEdge, way_cut, h.way_iff (p := other), he]
    simp
  · next he =>
    -- there is no exit to `old`: nothing is laid, and the cut takes nothing away
    have hnone : ¬g.Way other b old := fun hw => by simp [h.way_iff, he] at hw
    rw [way_cut]
    simp [hnone]

/-- A branch is left in the graph whose lists of alternatives have lost some. -/
theorem Relists.way_of_way {R : List Branch → List Branch → Prop} (hrel : Relists R g g')
    (hR : ∀ {l l'}, R l l' → l' ⊆ l) (h : g'.Way p b t) : g.Way p b t := by
  obtain ⟨e', he', rfl, hb⟩ := h
  obtain ⟨e, he, htarget, hlogic⟩ := exists_left_of_forall₂ hrel.exitsOf he'
  exact ⟨e, he, htarget.symm, hR hlogic hb⟩

/-! ## All branches -/

section AllBranches

variable {Q : Branch → Prop}

/-- The branches are those of the ways and those of what is declared. -/
theorem Consistent.allBranches_iff (h : g.Consistent) :
    g.AllBranches Q ↔
      (∀ {p b t}, g.Way p b t → Q b) ∧
        ∀ {kind x s}, Entries.find? (g.sites kind) x = some s → ∀ b ∈ s.logic, Q b := by
  simp only [AllBranches, h.mem_logicLists]
  constructor
  · intro hall
    constructor
    · rintro p b t ⟨e, he, -, hb⟩
      exact hall _ (Or.inl ⟨p, e, he, rfl⟩) b hb
    · intro kind x s hs
      exact hall _ (Or.inr ⟨kind, x, s, hs, rfl⟩)
  · rintro ⟨hways, hsites⟩ l (⟨p, e, he, rfl⟩ | ⟨kind, x, s, hs, rfl⟩)
    · exact fun b hb => hways ⟨e, he, rfl, hb⟩
    · exact hsites hs

theorem allBranches_true : g.AllBranches fun _ => True := fun _ _ _ _ => trivial

/-- Lists that only lose branches. -/
theorem AllBranches.relists {R : List Branch → List Branch → Prop} (hall : g.AllBranches Q)
    (h : g.Consistent) (h' : g'.Consistent) (hrel : Relists R g g')
    (hR : ∀ {l l'}, R l l' → l' ⊆ l) : g'.AllBranches Q := by
  obtain ⟨hways, hsites⟩ := h.allBranches_iff.1 hall
  refine h'.allBranches_iff.2 ⟨fun hw => hways (hrel.way_of_way hR hw), fun hs' b hb => ?_⟩
  obtain ⟨s, hs, hsite⟩ := hrel.exists_site hs'
  exact hsites hs b (hR hsite.logic hb)

/-- No branches but those of further edges are added. -/
theorem AllBranches.of_ways (hall : g.AllBranches Q) (h : g.Consistent) (h' : g'.Consistent)
    (hsites : ∀ kind, g'.sites kind = g.sites kind)
    (hways : ∀ {p b t}, g'.Way p b t → (∃ p t, g.Way p b t) ∨ Q b) : g'.AllBranches Q := by
  obtain ⟨hall, hall'⟩ := h.allBranches_iff.1 hall
  refine h'.allBranches_iff.2 ⟨fun hw => ?_, fun hs => ?_⟩
  · rcases hways hw with ⟨_, _, hw⟩ | hb
    · exact hall hw
    · exact hb
  · rw [hsites] at hs
    exact hall' hs

/-! ## Edges that are laid differently -/

/-- A consistent graph with the regions, placements and declarations of `g`, all of whose branches
satisfy `Q`. -/
structure Rewires (Q : Branch → Prop) (g g' : RegionGraph) : Prop where
  /-- The regions are the same. -/
  names : g'.names = g.names
  /-- The placements are the same. -/
  placedIn : ∀ kind p, g'.placedIn kind p = g.placedIn kind p
  /-- The declarations are the same. -/
  sites : ∀ kind, g'.sites kind = g.sites kind
  /-- The graph is consistent. -/
  consistent : g'.Consistent
  /-- The branches satisfy `Q`. -/
  all : g'.AllBranches Q

theorem Rewires.refl (h : g.Consistent) (hall : g.AllBranches Q) : Rewires Q g g :=
  ⟨rfl, fun _ _ => rfl, fun _ => rfl, h, hall⟩

theorem Rewires.addEdge (h : Rewires Q g g') (hp : p ∈ g.names) (ht : t ∈ g.names) (hne : bs ≠ [])
    (hbs : ∀ b ∈ bs, Q b) : Rewires Q g (g'.addEdge p bs t) where
  names := (names_addEdge_of_mem (h.names ▸ hp) (h.names ▸ ht)).trans h.names
  placedIn kind q := (placedIn_addEdge kind).trans (h.placedIn kind q)
  sites kind := (sites_addEdge kind).trans (h.sites kind)
  consistent := h.consistent.addEdge hne p t
  all := h.all.of_ways h.consistent (h.consistent.addEdge hne p t) sites_addEdge fun hw => by
    rcases way_addEdge.1 hw with hw | ⟨-, -, hb⟩
    · exact Or.inl ⟨_, _, hw⟩
    · exact Or.inr (hbs _ hb)

theorem Rewires.redirect (h : Rewires Q g g') (ho : other ∈ g.names) (hn : new ∈ g.names) :
    Rewires Q g (g'.redirect old new other) where
  names := (names_redirect (h.names ▸ ho) (h.names ▸ hn)).trans h.names
  placedIn kind q := (placedIn_redirect kind).trans (h.placedIn kind q)
  sites kind := (sites_redirect kind).trans (h.sites kind)
  consistent := h.consistent.redirect old new other
  all := h.all.of_ways h.consistent (h.consistent.redirect old new other) sites_redirect fun hw => by
    rcases h.consistent.way_redirect.1 hw with ⟨hw, -⟩ | ⟨-, -, hw⟩
    · exact Or.inl ⟨_, _, hw⟩
    · exact Or.inl ⟨_, _, hw⟩

theorem AllBranches.without (hall : g.AllBranches Q) (h : g.Consistent) (hn : n ≠ startRegion) :
    (g.without n).AllBranches Q :=
  hall.of_ways h (h.without hn) sites_without fun hw => Or.inl ⟨_, _, (h.way_without.1 hw).1⟩

end AllBranches

end RegionGraph

end RegionLogic
