import RegionLogic.Proofs.Region.Ways
import RegionLogic.Region.Cleanup

/-!
# Merging a region into the one in front of it

The locations of a region that is merged move to the region that it is entered from, behind the logic of
the edge that led to them.

## Main definitions

* `RegionGraph.adoptLocation`: the graph with one location moved
* `RegionGraph.mergedInto`: the graph with a region merged into another one

## Main results

* `Consistent.way_mergedInto`, `find?_locations_mergedInto`: the ways and the logic afterwards
* `placedIn_mergedInto`, `keys_sites_mergedInto`: where everything is afterwards
* `Consistent.mergedInto`: the graph stays consistent
-/

namespace RegionLogic.RegionGraph

variable {Q : Branch → Prop} {g : RegionGraph} {p n q : Name}

/-- The graph with a location moved into the region `p`, behind the logic of the edge that led to it. -/
def adoptLocation (g : RegionGraph) (p : Name) (entrance : List Branch) (x : Name) : RegionGraph :=
  let g := g.adjustRegion p (·.addLocation x)
  { g with locations :=
    Entries.adjust g.locations x fun l => { l with logic := distribute entrance l.logic } }

/-- The graph with a region merged into the one in front of it. -/
def mergedInto (g : RegionGraph) (p n : Name) : RegionGraph :=
  (g.placedIn .locations n).foldl (adoptLocation · p (g.exitLogic p n) ·) (g.without n)

section AdoptLocation

variable {entrance : List Branch} {x y : Name}

@[simp] theorem names_adoptLocation : (g.adoptLocation p entrance x).names = g.names :=
  names_adjustRegion

@[simp] theorem exitsOf_adoptLocation :
    (g.adoptLocation p entrance x).exitsOf q = g.exitsOf q :=
  exitsOf_adjustRegion_of_eq (f := (·.addLocation x)) fun _ => rfl

theorem placedIn_adoptLocation (hp : p ∈ g.names) (kind : Placed) :
    (g.adoptLocation p entrance x).placedIn kind q =
      if q = p ∧ kind = .locations then addOnce (g.placedIn kind q) x else g.placedIn kind q := by
  refine (placedIn_adjustPlaced (f := (addOnce · x)) (k := .locations)).trans ?_
  simp [hp, eq_comm]

theorem keys_sites_adoptLocation (kind : Placed) :
    Entries.keys ((g.adoptLocation p entrance x).sites kind) = Entries.keys (g.sites kind) := by
  cases kind
  · rfl
  · exact Entries.keys_adjust ..

theorem find?_locations_adoptLocation :
    Entries.find? ((g.adoptLocation p entrance x).sites .locations) y =
      if x = y then
        (Entries.find? (g.sites .locations) y).map fun l => { l with logic := distribute entrance l.logic }
      else Entries.find? (g.sites .locations) y :=
  Entries.find?_adjust ..

theorem Consistent.adoptLocation (h : g.Consistent) (hp : p ∈ g.names)
    (hx : x ∈ Entries.keys (g.sites .locations)) : (g.adoptLocation p entrance x).Consistent := by
  refine h.of_views names_adoptLocation
    (exists_of_region?_adjustRegion (f := (·.addLocation x)) fun _ => rfl) rfl
    (fun _ => by rw [targetsOf, exitsOf_adoptLocation, targetsOf])
    (fun kind => by rw [keys_sites_adoptLocation]; exact h.keys_sites_nodup kind) ?_ ?_
    (fun he => h.exit_logic (exitsOf_adoptLocation ▸ he)) ?_
  · intro kind y l hl
    cases kind with
    | transitions => exact (h.site_name : Entries.find? (g.sites .transitions) _ = some l → _) hl
    | locations =>
      rw [find?_locations_adoptLocation] at hl
      split at hl
      · obtain ⟨l', hl', rfl⟩ := Option.map_eq_some_iff.1 hl
        exact (h.site_name hl' : l'.name = y)
      · exact h.site_name hl
  · intro kind q y hy
    rw [placedIn_adoptLocation hp] at hy
    rw [keys_sites_adoptLocation]
    split at hy
    · next hc =>
      rcases mem_addOnce.1 hy with hy | rfl
      · exact h.declared hy
      · exact hc.2 ▸ hx
    · exact h.declared hy
  · intro y l hl
    rw [find?_locations_adoptLocation] at hl
    split at hl
    · obtain ⟨l', hl', rfl⟩ := Option.map_eq_some_iff.1 hl
      exact distribute_ne_nil (h.location_logic hl')
    · exact h.location_logic hl

theorem AllBranches.adoptLocation (hall : g.AllBranches Q) (h : g.Consistent)
    (hadd : ∀ {a b}, Q a → Q b → Q (a + b)) (hp : p ∈ g.names)
    (hx : x ∈ Entries.keys (g.sites .locations)) (hne : entrance ≠ [])
    (hentrance : ∀ b ∈ entrance, Q b) : (g.adoptLocation p entrance x).AllBranches Q := by
  obtain ⟨hways, hsites⟩ := h.allBranches_iff.1 hall
  refine (h.adoptLocation hp hx).allBranches_iff.2 ⟨?_, ?_⟩
  · rintro q b t ⟨e, he, ht, hb⟩
    rw [exitsOf_adoptLocation] at he
    exact hways ⟨e, he, ht, hb⟩
  · intro kind y l hl b hb
    cases kind with
    | transitions => exact (hsites : Entries.find? (g.sites .transitions) _ = some l → _) hl b hb
    | locations =>
      rw [find?_locations_adoptLocation] at hl
      split at hl
      · obtain ⟨l', hl', rfl⟩ := Option.map_eq_some_iff.1 hl
        obtain ⟨a, ha, c, hc, rfl⟩ := (mem_distribute hne (h.location_logic hl')).1 hb
        exact hadd (hentrance a ha) (hsites hl' c hc)
      · exact hsites hl b hb

end AdoptLocation

section MergedInto

variable {xs : List Name} {entrance : List Branch}

theorem placedIn_foldl_adoptLocation (hp : p ∈ g.names) (kind : Placed) :
    (xs.foldl (adoptLocation · p entrance ·) g).placedIn kind q =
      if q = p ∧ kind = .locations then xs.foldl addOnce (g.placedIn kind q)
      else g.placedIn kind q := by
  induction xs generalizing g with
  | nil => simp
  | cons x xs ih =>
    rw [List.foldl_cons, ih (by simpa using hp), placedIn_adoptLocation hp]
    split <;> rfl

theorem names_foldl_adoptLocation :
    (xs.foldl (adoptLocation · p entrance ·) g).names = g.names :=
  List.foldlRecOn (motive := fun g' : RegionGraph => g'.names = g.names) _ _ rfl
    fun _ hg _ _ => names_adoptLocation.trans hg

theorem exitsOf_foldl_adoptLocation :
    (xs.foldl (adoptLocation · p entrance ·) g).exitsOf q = g.exitsOf q :=
  List.foldlRecOn (motive := fun g' : RegionGraph => g'.exitsOf q = g.exitsOf q) _ _ rfl
    fun _ hg _ _ => exitsOf_adoptLocation.trans hg

theorem parentsOf_foldl_adoptLocation :
    (xs.foldl (adoptLocation · p entrance ·) g).parentsOf q = g.parentsOf q :=
  List.foldlRecOn (motive := fun g' : RegionGraph => g'.parentsOf q = g.parentsOf q) _ _ rfl
    fun _ hg _ _ => hg

theorem keys_sites_foldl_adoptLocation (kind : Placed) :
    Entries.keys ((xs.foldl (adoptLocation · p entrance ·) g).sites kind) =
      Entries.keys (g.sites kind) :=
  List.foldlRecOn
    (motive := fun g' : RegionGraph => Entries.keys (g'.sites kind) = Entries.keys (g.sites kind))
    _ _ rfl fun _ hg _ _ => (keys_sites_adoptLocation kind).trans hg

/-- A location that is moved once gets the logic of the edge once. -/
theorem find?_locations_foldl_adoptLocation (hxs : xs.Nodup) {y : Name} :
    Entries.find? ((xs.foldl (adoptLocation · p entrance ·) g).sites .locations) y =
      if y ∈ xs then
        (Entries.find? (g.sites .locations) y).map fun l => { l with logic := distribute entrance l.logic }
      else Entries.find? (g.sites .locations) y := by
  induction xs generalizing g with
  | nil => simp
  | cons x xs ih =>
    -- the head is not moved again, so that the logic of the edge is not distributed over it twice
    obtain ⟨hx, hxs⟩ := List.nodup_cons.1 hxs
    rw [List.foldl_cons, ih hxs, find?_locations_adoptLocation]
    by_cases hy : y = x
    · subst hy
      simp [hx]
    · simp [hy, Ne.symm hy]

/-- Locations that are moved one after the other. -/
theorem Consistent.foldl_adoptLocation (h : g.Consistent) (hall : g.AllBranches Q)
    (hadd : ∀ {a b}, Q a → Q b → Q (a + b)) (hp : p ∈ g.names)
    (hxs : ∀ x ∈ xs, x ∈ Entries.keys (g.sites .locations)) (hne : entrance ≠ [])
    (hentrance : ∀ b ∈ entrance, Q b) :
    (xs.foldl (RegionGraph.adoptLocation · p entrance ·) g).Consistent ∧
      (xs.foldl (RegionGraph.adoptLocation · p entrance ·) g).AllBranches Q := by
  induction xs generalizing g with
  | nil => exact ⟨h, hall⟩
  | cons x xs ih =>
    have hx := hxs x (by simp)
    refine ih (h.adoptLocation hp hx) (hall.adoptLocation h hadd hp hx hne hentrance)
      (by simpa using hp) fun y hy => ?_
    rw [keys_sites_adoptLocation]
    exact hxs y (List.mem_cons_of_mem x hy)

end MergedInto

theorem names_mergedInto : (g.mergedInto p n).names = g.names.erase n :=
  names_foldl_adoptLocation.trans names_without

theorem Consistent.mem_names_mergedInto (h : g.Consistent) :
    q ∈ (g.mergedInto p n).names ↔ q ∈ g.names ∧ q ≠ n := by
  rw [names_mergedInto, h.names_nodup.mem_erase_iff, and_comm]

theorem keys_sites_mergedInto (kind : Placed) :
    Entries.keys ((g.mergedInto p n).sites kind) = Entries.keys (g.sites kind) :=
  (keys_sites_foldl_adoptLocation kind).trans (by rw [sites_without])

theorem Consistent.way_mergedInto (h : g.Consistent) {b : Branch} {r : Name} :
    (g.mergedInto p n).Way q b r ↔ g.Way q b r ∧ q ≠ n ∧ r ≠ n := by
  rw [← h.way_without]
  unfold Way mergedInto
  rw [exitsOf_foldl_adoptLocation]

theorem Consistent.targetsOf_mergedInto (h : g.Consistent) :
    (g.mergedInto p n).targetsOf q = if n = q then [] else (g.targetsOf q).filter (· != n) := by
  rw [← h.targetsOf_without, targetsOf, mergedInto, exitsOf_foldl_adoptLocation, targetsOf]

theorem Consistent.parentsOf_mergedInto (h : g.Consistent) :
    (g.mergedInto p n).parentsOf q = if n = q then [] else (g.parentsOf q).erase n := by
  rw [← h.parentsOf_without, mergedInto, parentsOf_foldl_adoptLocation]

theorem sites_transitions_mergedInto : (g.mergedInto p n).sites .transitions = g.sites .transitions :=
  List.foldlRecOn (motive := fun g' : RegionGraph => g'.sites .transitions = g.sites .transitions) _ _
    (by rw [sites_without]) fun _ hg _ _ => hg

theorem find?_locations_mergedInto (h : (g.placedIn .locations n).Nodup) {y : Name} :
    Entries.find? ((g.mergedInto p n).sites .locations) y =
      if y ∈ g.placedIn .locations n then
        (Entries.find? (g.sites .locations) y).map fun l =>
          { l with logic := distribute (g.exitLogic p n) l.logic }
      else Entries.find? (g.sites .locations) y := by
  rw [mergedInto, find?_locations_foldl_adoptLocation h, sites_without]

/-- What was not placed in the region keeps its logic. -/
theorem find?_sites_mergedInto_of_not_mem (h : (g.placedIn .locations n).Nodup) {kind : Placed}
    {y : Name} (hy : y ∉ g.placedIn kind n) :
    Entries.find? ((g.mergedInto p n).sites kind) y = Entries.find? (g.sites kind) y := by
  cases kind with
  | transitions => rw [sites_transitions_mergedInto]
  | locations => rw [find?_locations_mergedInto h, if_neg hy]

theorem Consistent.placedIn_mergedInto (h : g.Consistent) (hp : p ∈ g.names) (hne : p ≠ n)
    (kind : Placed) :
    (g.mergedInto p n).placedIn kind q =
      if q = n then []
      else if q = p ∧ kind = .locations then
        (g.placedIn .locations n).foldl addOnce (g.placedIn kind q)
      else g.placedIn kind q := by
  rw [mergedInto, placedIn_foldl_adoptLocation (h.mem_names_without.2 ⟨hp, hne⟩), h.placedIn_without]
  by_cases hq : q = n
  · simp [hq, Ne.symm hne]
  · simp [hq, Ne.symm hq]

/-- A region that is entered from another one can be merged into it. -/
theorem Consistent.mergedInto (h : g.Consistent) (hall : g.AllBranches Q)
    (hadd : ∀ {a b}, Q a → Q b → Q (a + b)) (hn : n ≠ startRegion) (hne : p ≠ n)
    (hparent : p ∈ g.parentsOf n) :
    (g.mergedInto p n).Consistent ∧ (g.mergedInto p n).AllBranches Q := by
  have htarget := h.mem_parentsOf.1 hparent
  refine (h.without hn).foldl_adoptLocation (hall.without h hn) hadd
    (h.mem_names_without.2 ⟨h.parent_mem hparent, hne⟩) ?_ (h.exitLogic_ne_nil htarget) ?_
  · intro x hx
    rw [sites_without]
    exact h.declared hx
  · intro b hb
    exact (h.allBranches_iff.1 hall).1 (h.way_iff_mem_exitLogic.2 hb)

end RegionLogic.RegionGraph
