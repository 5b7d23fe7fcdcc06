import Mathlib.Data.List.Nodup
import RegionLogic.Region.Edit
import RegionLogic.Region.Ingestion

/-!
# What a graph shows

A region graph is seen through six views: the names of its regions, the exits of each region, what is
placed in it, the regions with an exit into it, and the tables of locations and transitions. A region
that is not there has no exits and holds nothing. Each change of the graph is described by what it does
to the views.

## Main definitions

* `RegionGraph.exitsOf`, `RegionGraph.targetsOf`, `RegionGraph.placedIn`, `RegionGraph.sites`: the views
  beside `RegionGraph.names` and `RegionGraph.parentsOf`
* `RegionGraph.cut`: the graph without one edge

## Main results

* `names_addEdge`, `exitsOf_addEdge`, `parentsOf_addEdge`: a further edge
* `exitsOf_cut`, `parentsOf_cut`: an edge less
-/

namespace RegionLogic

namespace RegionGraph

/-- The exits of a region. -/
def exitsOf (g : RegionGraph) (p : Name) : List Exit := (g.region? p).elim [] (·.exits)

/-- The regions that the exits of a region lead to, in order. -/
def targetsOf (g : RegionGraph) (p : Name) : List Name := (g.exitsOf p).map (·.target)

/-- The names of one kind that are placed in a region. -/
def placedIn (g : RegionGraph) (kind : Placed) (p : Name) : List Name :=
  (g.region? p).elim [] (·.placed kind)

/-- The declared locations or transitions. -/
def sites (g : RegionGraph) : Placed → List (Name × Site)
  | .locations => g.locations
  | .transitions => g.transitions

/-- The graph without the edge from `p` to `t`. -/
def cut (g : RegionGraph) (p t : Name) : RegionGraph :=
  { g.adjustRegion p (·.removeExits t) with parents := Entries.adjust g.parents t (·.erase p) }

variable {g : RegionGraph} {p q t c : Name}

theorem mem_names : p ∈ g.names ↔ ∃ r, g.region? p = some r := by
  rw [← Option.isSome_iff_exists]
  exact Entries.isSome_find?.symm

theorem region?_eq_none (h : p ∉ g.names) : g.region? p = none := Entries.find?_eq_none.2 h

theorem exitsOf_of_region? {r : Region} (h : g.region? p = some r) : g.exitsOf p = r.exits := by
  simp [exitsOf, h]

theorem targetsOf_of_region? {r : Region} (h : g.region? p = some r) :
    g.targetsOf p = r.targets := by
  rw [targetsOf, exitsOf_of_region? h]
  rfl

theorem placedIn_of_region? {r : Region} (h : g.region? p = some r) (kind : Placed) :
    g.placedIn kind p = r.placed kind := by
  simp [placedIn, h]

theorem exitsOf_of_not_mem (h : p ∉ g.names) : g.exitsOf p = [] := by
  simp [exitsOf, region?_eq_none h]

theorem placedIn_of_not_mem (h : p ∉ g.names) (kind : Placed) : g.placedIn kind p = [] := by
  simp [placedIn, region?_eq_none h]

theorem target_mem_targetsOf {e : Exit} (h : e ∈ g.exitsOf p) : e.target ∈ g.targetsOf p :=
  List.mem_map_of_mem h

/-- What has an exit is a region. -/
theorem mem_names_of_mem_targetsOf (h : c ∈ g.targetsOf p) : p ∈ g.names := by
  by_contra hp
  simp [targetsOf, exitsOf_of_not_mem hp] at h

/-- What holds something is a region. -/
theorem mem_names_of_mem_placedIn {kind : Placed} {x : Name} (h : x ∈ g.placedIn kind p) :
    p ∈ g.names := by
  by_contra hp
  simp [placedIn_of_not_mem hp] at h

/-! ## The exit to a region -/

theorem exit?_eq_find? : g.exit? p t = (g.exitsOf p).find? (·.target = t) := by
  unfold exit? exitsOf
  cases g.region? p <;> rfl

theorem exit?_of_region? {r : Region} (h : g.region? p = some r) : r.exitTo? t = g.exit? p t := by
  simp [exit?, h]

theorem exit?_isSome : (g.exit? p t).isSome = true ↔ t ∈ g.targetsOf p := by
  rw [exit?_eq_find?, List.find?_isSome, targetsOf, List.mem_map]
  simp

theorem mem_exitsOf_of_exit? {e : Exit} (h : g.exit? p t = some e) :
    e ∈ g.exitsOf p ∧ e.target = t := by
  rw [exit?_eq_find?] at h
  exact ⟨List.mem_of_find?_eq_some h, by simpa using List.find?_some h⟩

/-- Where no two exits lead to the same region, the exit to the target of an exit is that exit. -/
theorem exit?_of_mem {e : Exit} (hn : (g.targetsOf p).Nodup) (h : e ∈ g.exitsOf p) :
    g.exit? p e.target = some e := by
  have ht := target_mem_targetsOf h
  obtain ⟨e', he'⟩ := Option.isSome_iff_exists.1 (exit?_isSome.2 ht)
  obtain ⟨hmem, htarget⟩ := mem_exitsOf_of_exit? he'
  rw [he', List.inj_on_of_nodup_map hn hmem h htarget]

/-! ## Changes of one region -/

section AdjustRegion

variable {f : Region → Region}

theorem region?_adjustRegion :
    (g.adjustRegion p f).region? q = if p = q then (g.region? q).map f else g.region? q :=
  Entries.find?_adjust ..

/-- A change that leaves the names of regions alone. -/
theorem exists_of_region?_adjustRegion (h : ∀ r, (f r).name = r.name) {r' : Region}
    (hr : (g.adjustRegion p f).region? q = some r') :
    ∃ r, g.region? q = some r ∧ r'.name = r.name := by
  rw [region?_adjustRegion] at hr
  split at hr
  · obtain ⟨r, hr', rfl⟩ := Option.map_eq_some_iff.1 hr
    exact ⟨r, hr', h r⟩
  · exact ⟨r', hr, rfl⟩

@[simp] theorem names_adjustRegion : (g.adjustRegion p f).names = g.names := Entries.keys_adjust ..

@[simp] theorem sites_adjustRegion (kind : Placed) :
    (g.adjustRegion p f).sites kind = g.sites kind := by
  cases kind <;> rfl

/-- A change that leaves the exits alone. -/
theorem exitsOf_adjustRegion_of_eq (h : ∀ r, (f r).exits = r.exits) :
    (g.adjustRegion p f).exitsOf q = g.exitsOf q := by
  unfold exitsOf
  rw [region?_adjustRegion]
  split
  · cases g.region? q <;> simp [h]
  · rfl

/-- A change of the names of one kind that are placed in a region. -/
theorem placedIn_adjustPlaced {f : List Name → List Name} {k kind : Placed} :
    (g.adjustRegion p (·.adjustPlaced f k)).placedIn kind q =
      if p = q ∧ k = kind ∧ p ∈ g.names then f (g.placedIn kind q) else g.placedIn kind q := by
  unfold placedIn
  rw [region?_adjustRegion]
  by_cases hpq : p = q
  · subst hpq
    cases hr : g.region? p with
    | none =>
      have hp : p ∉ g.names := fun hp => by simpa [hr] using mem_names.1 hp
      simp [hp]
    | some r =>
      have hp : p ∈ g.names := mem_names.2 ⟨r, hr⟩
      cases k <;> cases kind <;> simp [hp, Region.adjustPlaced, Region.placed]
  · simp [hpq]

/-- A change that leaves the placed names alone. -/
theorem placedIn_adjustRegion_of_eq (h : ∀ r k, (f r).placed k = r.placed k) (kind : Placed) :
    (g.adjustRegion p f).placedIn kind q = g.placedIn kind q := by
  unfold placedIn
  rw [region?_adjustRegion]
  split
  · cases g.region? q <;> simp [h]
  · rfl

end AdjustRegion

/-! ## New regions -/

theorem names_ensureRegion : (g.ensureRegion p).names = addOnce g.names p := by
  unfold ensureRegion
  by_cases h : p ∈ g.names
  · have hs : (g.region? p).isSome = true := Entries.isSome_find?.2 h
    rw [if_pos hs, addOnce_of_mem h]
  · have hs : ¬(g.region? p).isSome = true := fun hs => h (Entries.isSome_find?.1 hs)
    rw [if_neg hs, addOnce_of_not_mem h]
    exact (Entries.keys_set ..).trans (if_neg h)

theorem region?_ensureRegion :
    (g.ensureRegion p).region? q =
      if p = q then some ((g.region? q).getD { name := q }) else g.region? q := by
  unfold ensureRegion
  split
  · next h =>
    obtain ⟨r, hr⟩ := Option.isSome_iff_exists.1 h
    split
    · next hpq => simp [← hpq, hr]
    · rfl
  · next h =>
    have hnone := Option.not_isSome_iff_eq_none.1 h
    rw [region?, addRegion, Entries.find?_set]
    split
    · next hpq => simp [← hpq, hnone]
    · rfl

@[simp] theorem exitsOf_ensureRegion : (g.ensureRegion p).exitsOf q = g.exitsOf q := by
  unfold exitsOf
  rw [region?_ensureRegion]
  split
  · cases g.region? q <;> simp
  · rfl

@[simp] theorem targetsOf_ensureRegion : (g.ensureRegion p).targetsOf q = g.targetsOf q := by
  rw [targetsOf, exitsOf_ensureRegion, targetsOf]

@[simp] theorem placedIn_ensureRegion (kind : Placed) :
    (g.ensureRegion p).placedIn kind q = g.placedIn kind q := by
  unfold placedIn
  rw [region?_ensureRegion]
  split
  · cases g.region? q <;> cases kind <;> simp [Region.placed]
  · rfl

@[simp] theorem parentsOf_ensureRegion : (g.ensureRegion p).parentsOf c = g.parentsOf c := by
  unfold ensureRegion
  split
  · rfl
  · unfold parentsOf addRegion
    simp only
    split
    · rfl
    · next h =>
      -- an entry that was missing and an empty one look the same
      have hnone : Entries.find? g.parents p = none := by
        simpa [Entries.has] using h
      rw [Entries.find?_set]
      split
      · next hpc => simp [← hpc, hnone]
      · rfl

@[simp] theorem sites_ensureRegion (kind : Placed) :
    (g.ensureRegion p).sites kind = g.sites kind := by
  unfold ensureRegion
  split <;> cases kind <;> rfl

/-! ## A further edge -/

section AddEdge

variable {bs : List Branch}

theorem names_addEdge : (g.addEdge p bs t).names = addOnce (addOnce g.names p) t := by
  have h : (g.addEdge p bs t).names =
      (((g.ensureRegion p).ensureRegion t).adjustRegion p (·.addBranches t bs)).names := rfl
  rw [h, names_adjustRegion, names_ensureRegion, names_ensureRegion]

/-- Between regions that are there an edge adds none. -/
theorem names_addEdge_of_mem (hp : p ∈ g.names) (ht : t ∈ g.names) :
    (g.addEdge p bs t).names = g.names := by
  rw [names_addEdge, addOnce_of_mem hp, addOnce_of_mem ht]

theorem mem_names_addEdge : q ∈ (g.addEdge p bs t).names ↔ q ∈ g.names ∨ q = p ∨ q = t := by
  rw [names_addEdge, mem_addOnce, mem_addOnce, or_assoc]

theorem region?_addEdge :
    (g.addEdge p bs t).region? q =
      if p = q then some (((g.region? q).getD { name := q }).addBranches t bs)
      else if t = q then some ((g.region? q).getD { name := q }) else g.region? q := by
  have h : (g.addEdge p bs t).region? q =
      (((g.ensureRegion p).ensureRegion t).adjustRegion p (·.addBranches t bs)).region? q := rfl
  rw [h, region?_adjustRegion, region?_ensureRegion, region?_ensureRegion]
  by_cases hpq : p = q <;> by_cases htq : t = q <;> simp [hpq, htq]

theorem exitsOf_addEdge :
    (g.addEdge p bs t).exitsOf q =
      if p = q then Region.extendExits t bs (g.exitsOf q) else g.exitsOf q := by
  unfold exitsOf
  rw [region?_addEdge]
  split
  · cases g.region? q <;> rfl
  · split
    · cases g.region? q <;> rfl
    · rfl

theorem find?_extendExits {es : List Exit} :
    ((Region.extendExits t bs es).find? (·.target = q)).elim [] (·.logic) =
      (es.find? (·.target = q)).elim [] (·.logic) ++ if t = q then bs else [] := by
  induction es with
  | nil => by_cases htq : t = q <;> simp [Region.extendExits, htq]
  | cons e es ih =>
    -- the first exit to `t` takes all the branches
    by_cases he : e.target = t
    · by_cases htq : t = q <;> simp [Region.extendExits, he, htq]
    · rw [Region.extendExits, if_neg he]
      by_cases heq : e.target = q
      · have htq : ¬t = q := fun h => he (heq.trans h.symm)
        simp [heq, htq]
      · simp only [List.find?_cons, heq, decide_false]
        exact ih

/-- The branches of a further edge come behind the alternatives that are there. -/
theorem exitLogic_addEdge {r : Name} :
    (g.addEdge p bs t).exitLogic q r = g.exitLogic q r ++ if p = q ∧ t = r then bs else [] := by
  unfold exitLogic
  rw [exit?_eq_find?, exit?_eq_find?, exitsOf_addEdge]
  by_cases hpq : p = q
  · rw [if_pos hpq, find?_extendExits]
    simp [hpq]
  · rw [if_neg hpq, if_neg fun h => hpq h.1, List.append_nil]

theorem targetsOf_addEdge :
    (g.addEdge p bs t).targetsOf q =
      if p = q then addOnce (g.targetsOf q) t else g.targetsOf q := by
  unfold targetsOf
  rw [exitsOf_addEdge]
  split
  · exact Region.map_target_extendExits ..
  · rfl

@[simp] theorem placedIn_addEdge (kind : Placed) :
    (g.addEdge p bs t).placedIn kind q = g.placedIn kind q := by
  unfold placedIn
  rw [region?_addEdge]
  split
  · cases g.region? q <;> cases kind <;> rfl
  · split
    · cases g.region? q <;> cases kind <;> rfl
    · rfl

theorem parentsOf_addEdge :
    (g.addEdge p bs t).parentsOf c =
      if t = c then addOnce (g.parentsOf c) p else g.parentsOf c := by
  have hn : ∀ c, ((g.ensureRegion p).ensureRegion t).parentsOf c = g.parentsOf c := fun c =>
    parentsOf_ensureRegion.trans parentsOf_ensureRegion
  unfold parentsOf addEdge
  simp only [Entries.find?_set]
  split
  · next h => exact congrArg (addOnce · p) (h ▸ hn t)
  · exact hn c

@[simp] theorem sites_addEdge (kind : Placed) : (g.addEdge p bs t).sites kind = g.sites kind := by
  have h : (g.addEdge p bs t).sites kind = ((g.ensureRegion p).ensureRegion t).sites kind := by
    cases kind <;> rfl
  rw [h, sites_ensureRegion, sites_ensureRegion]

end AddEdge

/-! ## An edge less -/

theorem disconnect_eq_cut (h : p ∈ g.names) : g.disconnect p t = .ok (g.cut p t) := by
  have hs : (g.region? p).isSome = true := Entries.isSome_find?.2 h
  exact if_pos hs

@[simp] theorem names_cut : (g.cut p t).names = g.names := Entries.keys_adjust ..

theorem region?_cut :
    (g.cut p t).region? q = if p = q then (g.region? q).map (·.removeExits t) else g.region? q :=
  region?_adjustRegion

theorem exitsOf_cut :
    (g.cut p t).exitsOf q =
      if p = q then (g.exitsOf q).filter (·.target != t) else g.exitsOf q := by
  unfold exitsOf
  rw [region?_cut]
  split
  · cases g.region? q <;> rfl
  · rfl

theorem targetsOf_cut :
    (g.cut p t).targetsOf q =
      if p = q then (g.targetsOf q).filter (· != t) else g.targetsOf q := by
  unfold targetsOf
  rw [exitsOf_cut]
  split
  · rw [List.filter_map]
    rfl
  · rfl

@[simp] theorem placedIn_cut (kind : Placed) :
    (g.cut p t).placedIn kind q = g.placedIn kind q :=
  placedIn_adjustRegion_of_eq (fun _ k => by cases k <;> rfl) kind

theorem parentsOf_cut :
    (g.cut p t).parentsOf c = if t = c then (g.parentsOf c).erase p else g.parentsOf c := by
  unfold parentsOf cut
  simp only [Entries.find?_adjust]
  split
  · cases Entries.find? g.parents c <;> simp
  · rfl

@[simp] theorem sites_cut (kind : Placed) : (g.cut p t).sites kind = g.sites kind := by
  cases kind <;> rfl

end RegionGraph

end RegionLogic
