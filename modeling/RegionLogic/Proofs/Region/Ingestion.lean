import RegionLogic.Proofs.Calls

/-!
# The order in which objects are added

What a graph shows that has been built from objects is what each of them adds for itself: its region, its
place, and the ways and the logic of its clauses, up to the first one that cannot be read. So it does not
depend on the order in which the objects have been added.

## Main definitions

* `Feature`, `RegionGraph.Shows`: what can be seen of a graph regardless of any order
* `LogicObject.features`: what an object adds
* `RegionGraph.SameShape`: graphs with the same regions, targets and placements

## Main results

* `shows_ingest`: what a graph shows after one object has been added
* `LogicObject.holds_of_mem_features`: the branches that an object adds
* `shows_after_perm`: objects in another order
-/

namespace RegionLogic

/-- Something that can be seen of a graph. -/
inductive Feature where
  | region (n : Name)
  | way (p : Name) (b : Branch) (t : Name)
  | placed (kind : Placed) (x p : Name)
  /-- A branch of the logic of a location or a transition. -/
  | logic (b : Branch)

/-- What can be seen of a graph. -/
def RegionGraph.Shows (g : RegionGraph) : Feature → Prop
  | .region n => n ∈ g.names
  | .way p b t => g.Way p b t
  | .placed kind x p => x ∈ g.placedIn kind p
  | .logic b => ∃ kind x l, Entries.find? (g.sites kind) x = some l ∧ b ∈ l.logic

/-- The branch that is seen, if any, satisfies `Q`. -/
def Feature.Holds (Q : Branch → Prop) : Feature → Prop
  | .way _ b _ => Q b
  | .logic b => Q b
  | _ => True

/-- Graphs with the same regions, whose exits lead to the same regions and in which the same is placed. -/
structure RegionGraph.SameShape (g g' : RegionGraph) : Prop where
  /-- The regions are the same. -/
  names : ∀ {n}, n ∈ g.names ↔ n ∈ g'.names
  /-- The exits lead to the same regions. -/
  targets : ∀ {p t}, t ∈ g.targetsOf p ↔ t ∈ g'.targetsOf p
  /-- The same is placed in each region. -/
  placed : ∀ {kind p x}, x ∈ g.placedIn kind p ↔ x ∈ g'.placedIn kind p

/-- The provider's region and the branch of each clause, up to the first clause that cannot be read. -/
def Clause.readable : List Clause → List (Name × Branch)
  | [] => []
  | c :: cs =>
    match c.parentRegion, c.branch with
    | .ok p, .ok b => (p, b) :: readable cs
    | _, _ => []

namespace LogicObject

/-- The graph with the branch of a clause of an object. -/
def enter (o : LogicObject) (g : RegionGraph) (e : Name × Branch) : RegionGraph :=
  if o.handling = .transition ∧ e.1 = o.name then g.addTransitionLogic o.name e.2
  else g.addEdge e.1 [e.2] o.name

/-- What placing an object adds. -/
def placedFeatures (o : LogicObject) : List Feature :=
  .region o.name ::
    match o.handling with
    | .region => []
    | .location => [.placed .locations o.name o.name, .logic .empty]
    | .transition => [.placed .transitions o.name o.name]

/-- What the branch of a clause of an object adds. -/
def enteredFeatures (o : LogicObject) (e : Name × Branch) : List Feature :=
  if o.handling = .transition ∧ e.1 = o.name then [.logic e.2]
  else [.region e.1, .region o.name, .way e.1 e.2 o.name]

/-- What an object adds. -/
def features (o : LogicObject) : List Feature :=
  o.placedFeatures ++ (Clause.readable o.logic).flatMap o.enteredFeatures

end LogicObject

open Building RegionGraph

variable {g g' : RegionGraph} {o : LogicObject} {e : Name × Branch} {f : Feature} {s : Session}

/-! ## Graphs that show the same -/

theorem RegionGraph.SameShape.symm (h : SameShape g g') : SameShape g' g :=
  ⟨h.names.symm, h.targets.symm, h.placed.symm⟩

/-- Entrances are exits seen from the other side. -/
theorem RegionGraph.SameShape.parents (h : SameShape g g') (hg : g.Consistent) (hg' : g'.Consistent)
    (c : Name) : (g.parentsOf c).Perm (g'.parentsOf c) := by
  refine (List.perm_ext_iff_of_nodup (hg.parentsOf_nodup c) (hg'.parentsOf_nodup c)).2 fun p => ?_
  rw [hg.mem_parentsOf, hg'.mem_parentsOf, h.targets]

theorem sameShape_of_shows (h : ∀ f, g.Shows f ↔ g'.Shows f) (hg : g.Consistent) (hg' : g'.Consistent) :
    SameShape g g' := by
  have htargets {g : RegionGraph} (hg : g.Consistent) (p t : Name) :
      t ∈ g.targetsOf p ↔ ∃ b, g.Shows (.way p b t) :=
    ⟨fun ht => hg.exists_way ht, fun ⟨_, hw⟩ => hw.mem_targetsOf⟩
  refine ⟨h (.region _), fun {p t} => ?_, h (.placed _ _ _)⟩
  rw [htargets hg, htargets hg']
  exact exists_congr fun b => h (.way p b t)

/-- The branches of a graph are those that it shows. -/
theorem RegionGraph.Consistent.allBranches_iff_shows {Q : Branch → Prop} (hg : g.Consistent) :
    g.AllBranches Q ↔ ∀ f, g.Shows f → f.Holds Q := by
  rw [hg.allBranches_iff]
  constructor
  · rintro ⟨hways, hsites⟩ f hf
    cases f with
    | region | placed => trivial
    | way p b t => exact hways hf
    | logic b =>
      obtain ⟨kind, x, l, hl, hb⟩ := hf
      exact hsites hl b hb
  · intro h
    exact ⟨fun hw => h (.way _ _ _) hw, fun hl b hb => h (.logic b) ⟨_, _, _, hl, hb⟩⟩

theorem allBranches_of_shows {Q : Branch → Prop} (h : ∀ f, g.Shows f ↔ g'.Shows f) (hg : g.Consistent)
    (hg' : g'.Consistent) (hall : g.AllBranches Q) : g'.AllBranches Q :=
  hg'.allBranches_iff_shows.2 fun f hf => hg.allBranches_iff_shows.1 hall f ((h f).2 hf)

/-! ## One object -/

/-- The locations of a graph are free to take once their regions are reached. -/
def RegionGraph.LocationsFree (g : RegionGraph) : Prop :=
  ∀ {x l}, Entries.find? (g.sites .locations) x = some l → l.logic = [.empty]

/-- The graph is ready for the clauses of an object: a transition has been declared. -/
def RegionGraph.ReadyFor (o : LogicObject) (g : RegionGraph) : Prop :=
  g.LocationsFree ∧ (o.handling = .transition → o.name ∈ Entries.keys (g.sites .transitions))

theorem readyFor_place (hg : g.LocationsFree) : (g.place o).ReadyFor o := by
  refine ⟨fun {x l} hl => ?_, fun ho => ?_⟩
  · rcases find?_sites_place hl with ⟨-, hlogic⟩ | hl
    · exact hlogic rfl
    · exact hg hl
  · rw [keys_sites_place, if_pos (by rw [ho]; rfl)]
    exact mem_addOnce.2 (Or.inr rfl)

theorem RegionGraph.ReadyFor.enter (h : g.ReadyFor o) : (o.enter g e).ReadyFor o := by
  unfold LogicObject.enter
  split
  · refine ⟨h.1, fun ho => ?_⟩
    rw [keys_sites_addTransitionLogic]
    exact h.2 ho
  · refine ⟨fun {x l} hl => ?_, fun ho => ?_⟩
    · rw [sites_addEdge] at hl
      exact h.1 hl
    · rw [sites_addEdge]
      exact h.2 ho

/-- A branch of the logic of what is declared. -/
theorem shows_addTransitionLogic {x : Name} {b : Branch}
    (hx : x ∈ Entries.keys (g.sites .transitions)) :
    (g.addTransitionLogic x b).Shows f ↔ g.Shows f ∨ f = .logic b := by
  cases f with
  | region n => exact (or_iff_left (by rintro ⟨⟩)).symm
  | way p b' t => exact (or_iff_left (by rintro ⟨⟩)).symm
  | placed kind y p => exact (or_iff_left (by rintro ⟨⟩)).symm
  | logic b' =>
    obtain ⟨t, ht⟩ := Option.isSome_iff_exists.1 (Entries.isSome_find?.2 hx)
    rw [Feature.logic.injEq]
    constructor
    · rintro ⟨_ | _, y, l, hl, hb⟩
      · rw [find?_transitions_addTransitionLogic] at hl
        split at hl
        · obtain ⟨l', hl', rfl⟩ := Option.map_eq_some_iff.1 hl
          rcases List.mem_append.1 hb with hb | hb
          · exact Or.inl ⟨.transitions, y, l', hl', hb⟩
          · exact Or.inr (List.mem_singleton.1 hb)
        · exact Or.inl ⟨.transitions, y, l, hl, hb⟩
      · exact Or.inl ⟨.locations, y, l, hl, hb⟩
    · rintro (⟨_ | _, y, l, hl, hb⟩ | rfl)
      · by_cases hxy : x = y
        · refine ⟨.transitions, y, { l with logic := l.logic ++ [b] }, ?_, List.mem_append_left _ hb⟩
          rw [find?_transitions_addTransitionLogic, if_pos hxy, hl]
          rfl
        · refine ⟨.transitions, y, l, ?_, hb⟩
          rw [find?_transitions_addTransitionLogic, if_neg hxy, hl]
      · exact ⟨.locations, y, l, hl, hb⟩
      · refine ⟨.transitions, x, { t with logic := t.logic ++ [b'] }, ?_,
          List.mem_append_right _ (List.mem_singleton_self b')⟩
        rw [find?_transitions_addTransitionLogic, if_pos rfl, ht]
        rfl

theorem shows_enter (h : g.ReadyFor o) :
    (o.enter g e).Shows f ↔ g.Shows f ∨ f ∈ o.enteredFeatures e := by
  unfold LogicObject.enter LogicObject.enteredFeatures
  by_cases hself : o.handling = .transition ∧ e.1 = o.name
  · rw [if_pos hself, if_pos hself, shows_addTransitionLogic (h.2 hself.1), List.mem_singleton]
  · rw [if_neg hself, if_neg hself]
    cases f with
    | region n => simp [Shows, mem_names_addEdge]
    | way p b t => simp [Shows, way_addEdge, and_left_comm, and_comm]
    | placed kind x p => simp [Shows]
    | logic b => simp [Shows]

/-- The locations after an object has been placed. -/
theorem sites_place_locations :
    (g.place o).sites .locations =
      if o.handling = .location then
        Entries.set (g.sites .locations) o.name ⟨o.name, [.empty], o.isEvent⟩
      else g.sites .locations := by
  rw [← sites_ensureRegion (g := g) (p := o.name)]
  unfold RegionGraph.place
  cases o.handling with
  | region => rfl
  | location => rfl
  | transition =>
    dsimp only
    split <;> rfl

/-- The transitions after an object has been placed. -/
theorem sites_place_transitions :
    (g.place o).sites .transitions =
      if o.handling = .transition ∧ o.name ∉ Entries.keys (g.sites .transitions) then
        Entries.set (g.sites .transitions) o.name ⟨o.name, [], false⟩
      else g.sites .transitions := by
  rw [← sites_ensureRegion (g := g) (p := o.name)]
  unfold RegionGraph.place
  cases o.handling with
  | region => rfl
  | location => rfl
  | transition =>
    dsimp only
    split
    · next h => rw [if_neg fun hc => hc.2 (Entries.has_iff.1 h)]; rfl
    · next h => rw [if_pos ⟨rfl, fun hc => h (Entries.has_iff.2 hc)⟩]; rfl

/-- The logic that is shown once an object has been placed. A location that is declared again is as free as
before. -/
theorem shows_logic_place (hg : g.LocationsFree) {b : Branch} :
    (g.place o).Shows (.logic b) ↔ g.Shows (.logic b) ∨ o.handling = .location ∧ b = .empty := by
  constructor
  · rintro ⟨_ | _, x, l, hl, hb⟩
    · rw [sites_place_transitions] at hl
      split at hl
      · rw [Entries.find?_set] at hl
        split at hl
        · -- a transition is declared without any logic
          obtain rfl := Option.some.inj hl
          cases hb
        · exact Or.inl ⟨.transitions, x, l, hl, hb⟩
      · exact Or.inl ⟨.transitions, x, l, hl, hb⟩
    · rw [sites_place_locations] at hl
      split at hl
      · next ho =>
        rw [Entries.find?_set] at hl
        split at hl
        · obtain rfl := Option.some.inj hl
          exact Or.inr ⟨ho, List.mem_singleton.1 hb⟩
        · exact Or.inl ⟨.locations, x, l, hl, hb⟩
      · exact Or.inl ⟨.locations, x, l, hl, hb⟩
  · have hnew (ho : o.handling = .location) : (g.place o).Shows (.logic .empty) := by
      refine ⟨.locations, o.name, ⟨o.name, [.empty], o.isEvent⟩, ?_, List.mem_singleton_self _⟩
      rw [sites_place_locations, if_pos ho, Entries.find?_set, if_pos rfl]
    rintro (⟨_ | _, x, l, hl, hb⟩ | ⟨ho, rfl⟩)
    · refine ⟨.transitions, x, l, ?_, hb⟩
      rw [sites_place_transitions]
      split
      · next ho =>
        have hx : o.name ≠ x := by
          rintro rfl
          exact ho.2 (Entries.isSome_find?.1 (hl ▸ rfl))
        rw [Entries.find?_set, if_neg hx, hl]
      · exact hl
    · by_cases ho : o.handling = .location ∧ o.name = x
      · rw [hg hl, List.mem_singleton] at hb
        exact hb ▸ hnew ho.1
      · refine ⟨.locations, x, l, ?_, hb⟩
        rw [sites_place_locations]
        split
        · next hloc => rw [Entries.find?_set, if_neg fun hx => ho ⟨hloc, hx⟩, hl]
        · exact hl
    · exact hnew ho

theorem shows_place (hg : g.LocationsFree) :
    (g.place o).Shows f ↔ g.Shows f ∨ f ∈ o.placedFeatures := by
  unfold LogicObject.placedFeatures
  cases f with
  | region n => cases o.handling <;> simp [Shows, names_place]
  | way p b t => cases o.handling <;> simp [Shows, Way, exitsOf_place]
  | placed kind x p =>
    have hplaced : x ∈ (g.place o).placedIn kind p ↔
        x ∈ g.placedIn kind p ∨ (o.name = p ∧ o.handling.placed? = some kind) ∧ x = o.name := by
      rw [placedIn_place]
      split
      · next h => rw [mem_addOnce, and_iff_right h]
      · next h => exact (or_iff_left fun hc => h hc.1).symm
    rw [Shows, hplaced]
    cases o.handling <;> cases kind <;> simp [Shows, Handling.placed?, eq_comm, and_comm]
  | logic b =>
    rw [shows_logic_place hg]
    cases o.handling <;> simp

/-- The branches that an object adds are those of its clauses, and the empty one. -/
theorem LogicObject.holds_of_mem_features {Q : Branch → Prop} (hempty : Q .empty)
    (h : ∀ e ∈ Clause.readable o.logic, Q e.2) (hf : f ∈ o.features) : f.Holds Q := by
  rcases List.mem_append.1 hf with hf | hf
  · rcases List.mem_cons.1 hf with rfl | hf
    · trivial
    split at hf
    · cases hf
    · simp only [List.mem_cons, List.not_mem_nil, or_false] at hf
      rcases hf with rfl | rfl
      · trivial
      · exact hempty
    · obtain rfl := List.mem_singleton.1 hf
      trivial
  · obtain ⟨e, he, hf⟩ := List.mem_flatMap.1 hf
    unfold enteredFeatures at hf
    split at hf
    · obtain rfl := List.mem_singleton.1 hf
      exact h e he
    · simp only [List.mem_cons, List.not_mem_nil, or_false] at hf
      rcases hf with rfl | rfl | rfl
      · trivial
      · trivial
      · exact h e he

/-! ## A list of objects -/

theorem outcome_ingestClause {c : Clause} {p : Name} {b : Branch} (hp : c.parentRegion = .ok p)
    (hb : c.branch = .ok b) :
    outcome (ingestClause o c) s = (.ok (), { s with graph := o.enter s.graph (p, b) }) := by
  rw [ingestClause, hp, outcome_except_bind_ok, hb, outcome_except_bind_ok, LogicObject.enter]
  split <;> rfl

/-- The clauses of an object are added up to the first one that cannot be read. -/
theorem graph_forM_ingestClause (cs : List Clause) :
    (outcome (cs.forM (ingestClause o)) s).2.graph = (Clause.readable cs).foldl o.enter s.graph := by
  induction cs generalizing s with
  | nil => rfl
  | cons c cs ih =>
    show (outcome (ingestClause o c >>= fun _ => cs.forM (ingestClause o)) s).2.graph = _
    rw [Clause.readable]
    cases hp : c.parentRegion with
    | error fault =>
      rw [outcome_bind, ingestClause, hp]
      rfl
    | ok p =>
      cases hb : c.branch with
      | error fault =>
        rw [outcome_bind, ingestClause, hp, outcome_except_bind_ok, hb]
        rfl
      | ok b =>
        rw [outcome_bind_of_ok (outcome_ingestClause hp hb)]
        exact ih

theorem shows_ingest (hg : s.graph.LocationsFree) :
    (outcome (ingest o) s).2.graph.LocationsFree ∧
      ((outcome (ingest o) s).2.graph.Shows f ↔ s.graph.Shows f ∨ f ∈ o.features) := by
  have hclauses (es : List (Name × Branch)) {g : RegionGraph} (h : g.ReadyFor o) :
      (es.foldl o.enter g).LocationsFree ∧
        ((es.foldl o.enter g).Shows f ↔ g.Shows f ∨ f ∈ es.flatMap o.enteredFeatures) := by
    -- each branch leaves the graph ready for the next one
    induction es generalizing g with
    | nil => exact ⟨h.1, by simp⟩
    | cons e es ih =>
      obtain ⟨hfree, hshows⟩ := ih h.enter
      refine ⟨hfree, ?_⟩
      rw [List.foldl_cons, hshows, shows_enter h, List.flatMap_cons, List.mem_append, or_assoc]
  rw [ingest, outcome_change_bind, graph_forM_ingestClause]
  obtain ⟨hfree, hshows⟩ := hclauses (Clause.readable o.logic) (readyFor_place hg)
  refine ⟨hfree, ?_⟩
  rw [hshows, shows_place hg, LogicObject.features, List.mem_append, or_assoc]

theorem shows_after (hg : s.graph.LocationsFree) (objects : List LogicObject) :
    (s.after (objects.map .ingest)).graph.Shows f ↔
      s.graph.Shows f ∨ f ∈ objects.flatMap LogicObject.features := by
  induction objects generalizing s with
  | nil => simp [Session.after]
  | cons o objects ih =>
    obtain ⟨hfree, hshows⟩ := shows_ingest (f := f) (o := o) hg
    rw [List.map_cons, List.flatMap_cons, List.mem_append, ← or_assoc, ← hshows]
    exact ih hfree

theorem locationsFree_fresh : fresh.LocationsFree := by
  intro x l h
  cases h

/-- What a graph shows does not depend on the order in which objects have been added. -/
theorem shows_after_perm {objects objects' : List LogicObject} (h : objects.Perm objects') :
    (Session.after {} (objects.map .ingest)).graph.Shows f ↔
      (Session.after {} (objects'.map .ingest)).graph.Shows f := by
  rw [shows_after locationsFree_fresh, shows_after locationsFree_fresh]
  exact or_congr_right (h.flatMap_right _).mem_iff

end RegionLogic
