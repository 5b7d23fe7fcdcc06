import RegionLogic.Proofs.Waypoint.Graph

/-!
# Roots, and the inverse of a graph

A name that is entered is a root until an update refers to it. It does not become a root again when an update
of another name takes the last reference to it away. So the roots are names that nothing refers to, but there
may be other such names. Where no update takes anything away the roots are all of them, and the inverse of a
graph is made by such updates.

## Main definitions

* `WaypointGraph.Rooted`: the roots are names that nothing refers to
* `WaypointGraph.RootsExact`: they are all of these
* `WaypointGraph.Reverses`: a graph with the edges of another one turned round

## Main results

* `WaypointGraph.Rooted.mem_roots_update`: the roots after an update
* `WaypointGraph.RootsExact.update`: updates that take nothing away
* `WaypointGraph.Coherent.reverses_inverse`: the inverse of a graph
-/

namespace RegionLogic.WaypointGraph

variable {g : WaypointGraph} {a b name target : Name} {l : List Name}

theorem referrers_of_not_mem (h : a ∉ g.names) : g.referrers a = [] := by
  rw [referrers, Entries.find?_eq_none.2 h]
  rfl

/-- A name has no referrers if no name refers to it. -/
theorem Coherent.referrers_eq_nil_iff (hg : g.Coherent) :
    g.referrers b = [] ↔ ∀ a, b ∉ g.references a := by
  rw [List.eq_nil_iff_forall_not_mem]
  simp only [hg.mem_referrers]

/-- Nothing refers to a name after an update if the update does not, and nothing else has done so before. -/
theorem Coherent.referrers_update_eq_nil_iff (hg : g.Coherent) :
    (g.update name l).referrers b = [] ↔ b ∉ l ∧ ∀ a ≠ name, b ∉ g.references a := by
  rw [(hg.update name l).referrers_eq_nil_iff]
  constructor
  · intro h
    refine ⟨fun hb => ?_, fun a ha hb => ?_⟩
    · exact h name (hg.mem_references_update.2 (Or.inl ⟨rfl, hb⟩))
    · exact h a (hg.mem_references_update.2 (Or.inr ⟨ha, hb⟩))
  · rintro ⟨hl, hothers⟩ a hb
    rcases hg.mem_references_update.1 hb with ⟨-, hb⟩ | ⟨ha, hb⟩
    · exact hl hb
    · exact hothers a ha hb

/-! ## The roots after each step -/

/-- The roots are listed once. They are names of the graph, and nothing refers to them. -/
structure Rooted (g : WaypointGraph) : Prop where
  nodup : g.roots.Nodup
  mem_names : ∀ {a}, a ∈ g.roots → a ∈ g.names
  unreferenced : ∀ {a}, a ∈ g.roots → g.referrers a = []

theorem rooted_empty : empty.Rooted where
  nodup := List.nodup_nil
  mem_names h := absurd h List.not_mem_nil
  unreferenced h := absurd h List.not_mem_nil

theorem mem_roots_enter : a ∈ (g.enter name).roots ↔ a ∈ g.roots ∨ a = name ∧ name ∉ g.names := by
  unfold enter
  split
  · next h => simp [h]
  · next h => simp [h]

theorem Rooted.enter (hr : g.Rooted) (name : Name) : (g.enter name).Rooted where
  nodup := by
    unfold WaypointGraph.enter
    split
    · exact hr.nodup
    · exact nodup_addOnce hr.nodup
  mem_names := by
    intro a ha
    rw [mem_names_enter]
    exact (mem_roots_enter.1 ha).imp hr.mem_names And.left
  unreferenced := by
    intro a ha
    rw [referrers_enter]
    rcases mem_roots_enter.1 ha with ha | ⟨rfl, hnew⟩
    · exact hr.unreferenced ha
    · exact referrers_of_not_mem hnew

theorem Rooted.clear (hr : g.Rooted) (hg : g.Coherent) (name : Name) : (g.clear name).Rooted where
  nodup := hr.nodup
  mem_names := by
    intro a ha
    rw [names_clear]
    exact hr.mem_names ha
  unreferenced := by
    intro a ha
    rw [hg.referrers_clear, hr.unreferenced ha]
    rfl

/-- A target ceases to be a root, whether it is new or not. -/
theorem Rooted.roots_link (hr : g.Rooted) (name target : Name) :
    (WaypointGraph.link name g target).roots = g.roots.erase target := by
  unfold WaypointGraph.link
  split
  · rfl
  · next h => exact (List.erase_of_not_mem fun ht => h (hr.mem_names ht)).symm

theorem Rooted.link (hr : g.Rooted) (name target : Name) : (WaypointGraph.link name g target).Rooted where
  nodup := by
    rw [hr.roots_link]
    exact hr.nodup.erase target
  mem_names := by
    intro a ha
    rw [hr.roots_link] at ha
    exact mem_names_link.2 (Or.inl (hr.mem_names (List.mem_of_mem_erase ha)))
  unreferenced := by
    intro a ha
    rw [hr.roots_link, hr.nodup.mem_erase_iff] at ha
    rw [referrers_link, if_neg ha.1]
    exact hr.unreferenced ha.2

theorem Rooted.foldl_link (hr : g.Rooted) (name : Name) (l : List Name) :
    (l.foldl (WaypointGraph.link name) g).Rooted ∧
      ∀ a, a ∈ (l.foldl (WaypointGraph.link name) g).roots ↔ a ∈ g.roots ∧ a ∉ l := by
  induction l generalizing g with
  | nil => exact ⟨hr, by simp⟩
  | cons target l ih =>
    obtain ⟨hrest, hroots⟩ := ih (hr.link name target)
    refine ⟨hrest, fun a => ?_⟩
    rw [List.foldl_cons, hroots, hr.roots_link, hr.nodup.mem_erase_iff, List.mem_cons]
    tauto

/-! ## The roots after an update -/

theorem Rooted.update (hr : g.Rooted) (hg : g.Coherent) (name : Name) (l : List Name) :
    (g.update name l).Rooted :=
  (((hr.enter name).clear (hg.enter name) name).foldl_link name l).1

/-- The roots are those before and a new name, without the names that the update refers to. -/
theorem Rooted.mem_roots_update (hr : g.Rooted) (hg : g.Coherent) :
    a ∈ (g.update name l).roots ↔ (a ∈ g.roots ∨ a = name ∧ name ∉ g.names) ∧ a ∉ l := by
  rw [← mem_roots_enter]
  exact (((hr.enter name).clear (hg.enter name) name).foldl_link name l).2 a

/-- After an update the roots are the names that nothing refers to, except for those that were no roots
before. -/
theorem Rooted.mem_roots_update_iff (hr : g.Rooted) (hg : g.Coherent) :
    a ∈ (g.update name l).roots ↔
      a ∈ (g.update name l).names ∧ (g.update name l).referrers a = [] ∧ (a ∈ g.names → a ∈ g.roots) := by
  constructor
  · intro ha
    refine ⟨(hr.update hg name l).mem_names ha, (hr.update hg name l).unreferenced ha, fun hn => ?_⟩
    rcases (hr.mem_roots_update hg).1 ha with ⟨ha | ⟨rfl, hnew⟩, -⟩
    · exact ha
    · exact absurd hn hnew
  · -- a name that the update mentions for the first time is either referred to or entered as a root
    rintro ⟨hn, hreferrers, hbefore⟩
    have hl : a ∉ l := (hg.referrers_update_eq_nil_iff.1 hreferrers).1
    refine (hr.mem_roots_update hg).2 ⟨?_, hl⟩
    by_cases hmem : a ∈ g.names
    · exact Or.inl (hbefore hmem)
    · rcases mem_names_update.1 hn with hn | rfl | hn
      · exact absurd hn hmem
      · exact Or.inr ⟨rfl, hmem⟩
      · exact absurd hn hl

/-- The roots are the names that nothing refers to. -/
def RootsExact (g : WaypointGraph) : Prop := ∀ a, a ∈ g.roots ↔ a ∈ g.names ∧ g.referrers a = []

theorem rootsExact_empty : empty.RootsExact := fun _ =>
  iff_of_false List.not_mem_nil fun h => List.not_mem_nil h.1

/-- An update of a name that refers to nothing takes no reference away. -/
theorem RootsExact.update (he : g.RootsExact) (hr : g.Rooted) (hg : g.Coherent)
    (h : g.references name = []) : (g.update name l).RootsExact := by
  intro a
  rw [hr.mem_roots_update_iff hg, ← and_assoc]
  refine and_iff_left_of_imp ?_
  rintro ⟨-, hreferrers⟩ hn
  obtain ⟨-, hothers⟩ := hg.referrers_update_eq_nil_iff.1 hreferrers
  -- the updated name refers to nothing, and whatever else refers to `a` would do so after the update
  refine (he a).2 ⟨hn, hg.referrers_eq_nil_iff.2 fun b hb => ?_⟩
  by_cases hb' : b = name
  · rw [hb', h] at hb
    cases hb
  · exact hothers b hb' hb

/-- Nor do updates of different names, each of which refers to nothing at first. -/
theorem RootsExact.updateAll {updates : List (Name × List Name)} (he : g.RootsExact) (hr : g.Rooted)
    (hg : g.Coherent) (hkeys : (updates.map (·.1)).Nodup) (h : ∀ u ∈ updates, g.references u.1 = []) :
    (g.updateAll updates).RootsExact ∧ (g.updateAll updates).Rooted := by
  induction updates generalizing g with
  | nil => exact ⟨he, hr⟩
  | cons u updates ih =>
    rw [List.map_cons, List.nodup_cons] at hkeys
    have hfirst := List.forall_mem_cons.1 h
    -- the first update gives references to its own name only, which no later one updates
    refine ih (he.update hr hg hfirst.1) (hr.update hg u.1 u.2) (hg.update u.1 u.2) hkeys.2 ?_
    intro v hv
    have hne : v.1 ≠ u.1 := fun heq => hkeys.1 (heq ▸ List.mem_map_of_mem hv)
    rw [hg.references_update, if_neg hne]
    exact hfirst.2 v hv

/-! ## The inverse -/

/-- The graph `g'` has the names of `g` and its edges turned round. Its roots are the names that refer to
nothing in `g`. -/
structure Reverses (g g' : WaypointGraph) : Prop where
  names : ∀ a, a ∈ g'.names ↔ a ∈ g.names
  edges : ∀ a b, b ∈ g'.references a ↔ a ∈ g.references b
  roots : ∀ a, a ∈ g'.roots ↔ a ∈ g.names ∧ g.references a = []

/-- What each name is updated with when the edges are turned round. -/
def reversed (g : WaypointGraph) : List (Name × List Name) :=
  g.nodes.map fun node => (node.1, node.2.referrers)

theorem inverse_eq (g : WaypointGraph) : g.inverse = empty.updateAll g.reversed := by
  rw [inverse, updateAll, reversed, List.foldl_map]

theorem map_fst_reversed (g : WaypointGraph) : g.reversed.map (·.1) = g.names := by
  rw [reversed, List.map_map]
  rfl

theorem mem_reversed (h : a ∈ g.names) : (a, g.referrers a) ∈ g.reversed := by
  obtain ⟨links, hlinks⟩ := Option.isSome_iff_exists.1 (Entries.isSome_find?.2 h)
  have hreferrers : g.referrers a = links.referrers := by
    rw [referrers, hlinks]
    rfl
  rw [hreferrers]
  exact List.mem_map.2 ⟨(a, links), Entries.mem_of_find? hlinks, rfl⟩

theorem Coherent.nodup_reversed (hg : g.Coherent) : (g.reversed.map (·.1)).Nodup := by
  rw [map_fst_reversed]
  exact hg.nodup_names

theorem Coherent.mem_reversed_iff (hg : g.Coherent) :
    (a, l) ∈ g.reversed ↔ a ∈ g.names ∧ l = g.referrers a := by
  constructor
  · intro hl
    have ha : a ∈ g.names := by
      rw [← map_fst_reversed]
      exact List.mem_map.2 ⟨(a, l), hl, rfl⟩
    have heq : (a, l) = (a, g.referrers a) :=
      List.inj_on_of_nodup_map hg.nodup_reversed hl (mem_reversed ha) rfl
    exact ⟨ha, congrArg Prod.snd heq⟩
  · rintro ⟨ha, rfl⟩
    exact mem_reversed ha

theorem coherent_inverse (g : WaypointGraph) : g.inverse.Coherent := by
  rw [inverse_eq]
  exact coherent_empty.updateAll _

theorem Coherent.rootsExact_inverse (hg : g.Coherent) : g.inverse.RootsExact ∧ g.inverse.Rooted := by
  rw [inverse_eq]
  exact rootsExact_empty.updateAll rooted_empty coherent_empty hg.nodup_reversed fun _ _ => rfl

theorem Coherent.references_inverse (hg : g.Coherent) (a : Name) :
    g.inverse.references a = g.referrers a := by
  rw [inverse_eq]
  by_cases ha : a ∈ g.names
  · rw [coherent_empty.references_updateAll_of_mem hg.nodup_reversed (mem_reversed ha),
      ← foldl_addOnce_nil]
    exact foldl_addOnce_of_nodup (hg.nodup_referrers a)
  · rw [coherent_empty.references_updateAll_of_not_mem (by rwa [map_fst_reversed]),
      referrers_of_not_mem ha]
    rfl

theorem Coherent.mem_names_inverse (hg : g.Coherent) : a ∈ g.inverse.names ↔ a ∈ g.names := by
  rw [inverse_eq, mem_names_updateAll]
  constructor
  · rintro (ha | ⟨u, hu, rfl | ha⟩)
    · cases ha
    · exact (hg.mem_reversed_iff.1 hu).1
    · rw [(hg.mem_reversed_iff.1 hu).2, hg.mem_referrers] at ha
      exact mem_names_of_mem_references ha
  · intro ha
    exact Or.inr ⟨_, mem_reversed ha, Or.inl rfl⟩

/-- The inverse has the same names and the edges turned round, and its roots are the names that refer to
nothing. -/
theorem Coherent.reverses_inverse (hg : g.Coherent) : Reverses g g.inverse where
  names _ := hg.mem_names_inverse
  edges a b := by rw [hg.references_inverse, hg.mem_referrers]
  roots a := by
    rw [hg.rootsExact_inverse.1 a, hg.mem_names_inverse, (coherent_inverse g).referrers_eq_nil_iff,
      List.eq_nil_iff_forall_not_mem]
    simp only [hg.references_inverse, hg.mem_referrers]

end RegionLogic.WaypointGraph
