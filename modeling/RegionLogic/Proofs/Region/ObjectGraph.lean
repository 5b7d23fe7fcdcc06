import RegionLogic.Proofs.Region.Ingestion

/-!
# The graph of a list of objects

The graph that a list of objects gives can be read off the list. The regions are the names in the order in
which they are mentioned. The alternatives of an exit are the branches of the clauses that lead along it,
in order, whichever objects of that name they belong to; a clause of a transition that draws its state from
the transition itself leads nowhere and is logic of the transition. The objects are added one after the
other and clause by clause, so this is shown for a list whose last object has some of its clauses only.

## Main definitions

* `Clause.Gives`: the branch of a clause
* `clausesInto`, `selfClauses`: the clauses of an exit and of the logic of a transition
* `mentionedNames`, `lastLocation?`: the names in a list of objects, and the last location of a name
* `RegionGraph.IsGraphOf`: the graph of a list of objects

## Main results

* `IsGraphOf.place`, `IsGraphOf.enter`: a further object, and a further clause of the last one
* `IsGraphOf.mem_targetsOf`: where there is an exit
* `isGraphOf_of_ingest`: the graph that a list of objects gives
-/

namespace RegionLogic

/-- The branch `b` is that of the clause `c`. -/
structure Clause.Gives (c : Clause) (b : Branch) : Prop where
  /-- It requires what the conditions require. -/
  partition : c.partition = .ok ⟨b.items, b.locations, b.regions⟩
  /-- It has the modifiers of the clause. -/
  modifiers : b.modifiers = c.modifiers

/-- The clauses of an object that draw their state from the region `p`, in order. -/
def LogicObject.clausesFrom (o : LogicObject) (p : Name) : List Clause :=
  o.logic.filter (·.parentRegion = .ok p)

/-- The clauses that lead from `p` to `t`: those of the objects named `t`, but none of a transition that
draws its state from itself. -/
def clausesInto (objects : List LogicObject) (p t : Name) : List Clause :=
  objects.flatMap fun o =>
    if o.name = t ∧ ¬(o.handling = .transition ∧ p = t) then o.clausesFrom p else []

/-- The clauses of the transitions named `t` that draw their state from the transition itself. -/
def selfClauses (objects : List LogicObject) (t : Name) : List Clause :=
  objects.flatMap fun o =>
    if o.name = t ∧ o.handling = .transition then o.clausesFrom t else []

/-- The names in a list of objects: the name of each, and then the regions that provide its states. -/
def mentionedNames (objects : List LogicObject) : List Name :=
  objects.flatMap fun o => o.name :: o.logic.filterMap (·.parentRegion.toOption)

/-- The last location named `x`. -/
def lastLocation? (objects : List LogicObject) (x : Name) : Option LogicObject :=
  objects.reverse.find? fun o => o.name = x ∧ o.handling = .location

namespace RegionGraph

/-- The logic of a transition; what is not declared has none. -/
def transitionLogic (g : RegionGraph) (t : Name) : List Branch :=
  (Entries.find? g.transitions t).elim [] (·.logic)

/-- The graph `g` is that of a list of objects. -/
structure IsGraphOf (g : RegionGraph) (objects : List LogicObject) : Prop where
  /-- The graph is consistent. -/
  consistent : g.Consistent
  /-- Every clause can be read. -/
  read : ∀ o ∈ objects, ∀ c ∈ o.logic, ∃ p b, c.parentRegion = .ok p ∧ c.Gives b
  /-- The regions are the start region and the names in the objects, as they come first. -/
  names : g.names = (startRegion :: mentionedNames objects).eraseDups
  /-- The alternatives of an exit are the branches of the clauses that lead along it. -/
  exits : ∀ p t, List.Forall₂ Clause.Gives (clausesInto objects p t) (g.exitLogic p t)
  /-- The logic of a transition is that of the clauses that draw their state from it. -/
  transitions : ∀ t, List.Forall₂ Clause.Gives (selfClauses objects t) (g.transitionLogic t)
  /-- What is declared are the objects that are to be placed. -/
  declared : ∀ kind x, x ∈ Entries.keys (g.sites kind) ↔
    ∃ o ∈ objects, o.name = x ∧ o.handling.placed? = some kind
  /-- Whatever is declared is placed in the region of its own name, once and nowhere else. -/
  placed : ∀ kind p, g.placedIn kind p = if p ∈ Entries.keys (g.sites kind) then [p] else []
  /-- A location has the empty branch, and is an event if the last object of the name is one. -/
  locations : ∀ x, Entries.find? g.locations x =
    (lastLocation? objects x).map fun o => ⟨x, [.empty], o.isEvent⟩

end RegionGraph

open Building RegionGraph

variable {objects : List LogicObject} {o : LogicObject} {cs : List Clause} {c : Clause} {b : Branch}
  {g : RegionGraph} {s t : Session} {p q r x : Name}

theorem Clause.branch_eq_ok_iff : c.branch = .ok b ↔ c.Gives b := by
  rw [Clause.branch, bind_eq_ok]
  constructor
  · rintro ⟨⟨items, locations, regions⟩, hpartition, hb⟩
    obtain rfl := Except.ok.inj hb
    exact ⟨hpartition, rfl⟩
  · rintro ⟨hpartition, hmodifiers⟩
    refine ⟨_, hpartition, ?_⟩
    rw [← hmodifiers]
    rfl

/-! ## A further clause of the last object -/

section Clauses

variable (objects o cs)

theorem clausesFrom_snoc (hp : c.parentRegion = .ok p) :
    ({ o with logic := cs ++ [c] } : LogicObject).clausesFrom q =
      ({ o with logic := cs } : LogicObject).clausesFrom q ++ if p = q then [c] else [] := by
  by_cases hpq : p = q <;> simp [LogicObject.clausesFrom, hp, hpq]

theorem clausesInto_snoc (hp : c.parentRegion = .ok p) :
    clausesInto (objects ++ [{ o with logic := cs ++ [c] }]) q r =
      clausesInto (objects ++ [{ o with logic := cs }]) q r ++
        if (o.name = r ∧ ¬(o.handling = .transition ∧ q = r)) ∧ p = q then [c] else [] := by
  simp only [clausesInto, List.flatMap_append, List.flatMap_singleton, List.append_assoc]
  by_cases hinto : o.name = r ∧ ¬(o.handling = .transition ∧ q = r)
  · rw [if_pos hinto, if_pos hinto, clausesFrom_snoc o cs hp]
    simp [hinto]
  · rw [if_neg hinto, if_neg hinto, if_neg fun h => hinto h.1]
    rfl

theorem selfClauses_snoc (hp : c.parentRegion = .ok p) :
    selfClauses (objects ++ [{ o with logic := cs ++ [c] }]) r =
      selfClauses (objects ++ [{ o with logic := cs }]) r ++
        if (o.name = r ∧ o.handling = .transition) ∧ p = r then [c] else [] := by
  simp only [selfClauses, List.flatMap_append, List.flatMap_singleton, List.append_assoc]
  by_cases hself : o.name = r ∧ o.handling = .transition
  · rw [if_pos hself, if_pos hself, clausesFrom_snoc o cs hp]
    simp [hself]
  · rw [if_neg hself, if_neg hself, if_neg fun h => hself h.1]
    rfl

theorem mentionedNames_snoc (hp : c.parentRegion = .ok p) :
    mentionedNames (objects ++ [{ o with logic := cs ++ [c] }]) =
      mentionedNames (objects ++ [{ o with logic := cs }]) ++ [p] := by
  simp [mentionedNames, hp, Except.toOption]

theorem lastLocation?_concat :
    lastLocation? (objects ++ [o]) x =
      if o.name = x ∧ o.handling = .location then some o else lastLocation? objects x := by
  rw [lastLocation?, List.reverse_append, List.reverse_singleton, List.singleton_append, List.find?_cons]
  split
  · next h => rw [if_pos (of_decide_eq_true h)]
  · next h => rw [if_neg (of_decide_eq_false h)]; rfl

end Clauses

/-! ## A further branch in the graph -/

section Enter

theorem exitLogic_enter :
    (o.enter g (p, b)).exitLogic q r = g.exitLogic q r ++
      if (o.name = r ∧ ¬(o.handling = .transition ∧ q = r)) ∧ p = q then [b] else [] := by
  unfold LogicObject.enter
  by_cases hself : o.handling = .transition ∧ p = o.name
  · -- a branch of the logic of a transition is on no exit
    have hnot : ¬((o.name = r ∧ ¬(o.handling = .transition ∧ q = r)) ∧ p = q) := by
      rintro ⟨⟨rfl, hnot⟩, rfl⟩
      exact hnot hself
    rw [if_pos hself, if_neg hnot, List.append_nil]
    rfl
  · rw [if_neg hself, exitLogic_addEdge]
    congr 1
    refine if_congr ?_ rfl rfl
    constructor
    · rintro ⟨rfl, rfl⟩
      exact ⟨⟨rfl, hself⟩, rfl⟩
    · rintro ⟨⟨rfl, -⟩, rfl⟩
      exact ⟨rfl, rfl⟩

theorem transitionLogic_enter
    (ho : o.handling = .transition → o.name ∈ Entries.keys (g.sites .transitions)) :
    (o.enter g (p, b)).transitionLogic r = g.transitionLogic r ++
      if (o.name = r ∧ o.handling = .transition) ∧ p = r then [b] else [] := by
  unfold LogicObject.enter
  by_cases hself : o.handling = .transition ∧ p = o.name
  · rw [if_pos hself]
    obtain ⟨l, hl⟩ := Option.isSome_iff_exists.1 (Entries.isSome_find?.2 (ho hself.1))
    show (Entries.find? ((g.addTransitionLogic o.name b).sites .transitions) r).elim [] (·.logic) =
      (Entries.find? (g.sites .transitions) r).elim [] (·.logic) ++ _
    rw [find?_transitions_addTransitionLogic]
    by_cases hr : o.name = r
    · rw [if_pos hr, if_pos ⟨⟨hr, hself.1⟩, hself.2.trans hr⟩, ← hr, hl]
      rfl
    · rw [if_neg hr, if_neg fun h => hr h.1.1, List.append_nil]
  · have hnot : ¬((o.name = r ∧ o.handling = .transition) ∧ p = r) := by
      rintro ⟨⟨rfl, ht⟩, rfl⟩
      exact hself ⟨ht, rfl⟩
    have hsites : (g.addEdge p [b] o.name).transitions = g.transitions := sites_addEdge .transitions
    rw [if_neg hself, if_neg hnot, List.append_nil, transitionLogic, hsites]
    rfl

theorem names_enter (ho : o.name ∈ g.names) : (o.enter g (p, b)).names = addOnce g.names p := by
  unfold LogicObject.enter
  by_cases hself : o.handling = .transition ∧ p = o.name
  · rw [if_pos hself, addOnce_of_mem (hself.2 ▸ ho)]
    rfl
  · rw [if_neg hself, names_addEdge, addOnce_of_mem (mem_addOnce.2 (Or.inl ho))]

theorem placedIn_enter (kind : Placed) : (o.enter g (p, b)).placedIn kind q = g.placedIn kind q := by
  unfold LogicObject.enter
  split
  · rfl
  · exact placedIn_addEdge kind

theorem keys_sites_enter (kind : Placed) :
    Entries.keys ((o.enter g (p, b)).sites kind) = Entries.keys (g.sites kind) := by
  unfold LogicObject.enter
  split
  · exact keys_sites_addTransitionLogic kind
  · rw [sites_addEdge]

theorem locations_enter : (o.enter g (p, b)).locations = g.locations := by
  unfold LogicObject.enter
  split
  · rfl
  · exact sites_addEdge .locations

theorem RegionGraph.Consistent.enter (h : g.Consistent) : (o.enter g (p, b)).Consistent := by
  unfold LogicObject.enter
  split
  · exact h.addTransitionLogic o.name b
  · exact h.addEdge (by simp) p o.name

end Enter

/-! ## One step -/

theorem isGraphOf_fresh : fresh.IsGraphOf [] where
  consistent := fresh_consistent
  read := fun o ho => by cases ho
  names := rfl
  exits := fun p t => by
    have hnone : fresh.exitLogic p t = [] := by rw [exitLogic, exit?_eq_find?, exitsOf_fresh]; rfl
    rw [hnone]
    exact .nil
  transitions := fun _ => .nil
  declared := fun kind x => by cases kind <;> simp [fresh, sites, addRegion]
  placed := fun kind p => by
    rw [placedIn_fresh]
    cases kind <;> rfl
  locations := fun _ => rfl

theorem transitionLogic_place : (g.place o).transitionLogic r = g.transitionLogic r := by
  show (Entries.find? ((g.place o).sites .transitions) r).elim [] (·.logic) =
    (Entries.find? (g.sites .transitions) r).elim [] (·.logic)
  rw [sites_place_transitions]
  split
  · next hnew =>
    rw [Entries.find?_set]
    split
    · next hr =>
      -- a transition that is new has no logic, as if it were not there
      rw [← hr, Entries.find?_eq_none.2 hnew.2]
      rfl
    · rfl
  · rfl

theorem mem_keys_sites_place {kind : Placed} : x ∈ Entries.keys ((g.place o).sites kind) ↔
    x ∈ Entries.keys (g.sites kind) ∨ o.name = x ∧ o.handling.placed? = some kind := by
  rw [keys_sites_place]
  split
  · next hkind => rw [mem_addOnce, and_iff_left hkind, eq_comm (a := x)]
  · next hkind => rw [or_iff_left fun h => hkind h.2]

namespace RegionGraph.IsGraphOf

/-- A further object is placed before its clauses are added. -/
theorem place (h : g.IsGraphOf objects) (o : LogicObject) :
    (g.place o).IsGraphOf (objects ++ [{ o with logic := [] }]) where
  consistent := h.consistent.place o
  read := by
    intro o' ho' c hc
    rcases List.mem_append.1 ho' with ho' | ho'
    · exact h.read o' ho' c hc
    · rw [List.mem_singleton.1 ho'] at hc
      cases hc
  names := by
    have hmentioned : mentionedNames (objects ++ [{ o with logic := [] }]) =
        mentionedNames objects ++ [o.name] := by simp [mentionedNames]
    rw [names_place, h.names, hmentioned, ← List.cons_append, eraseDups_concat]
  exits := by
    intro p t
    have hclauses : clausesInto (objects ++ [{ o with logic := [] }]) p t = clausesInto objects p t := by
      simp [clausesInto, LogicObject.clausesFrom]
    rw [hclauses, exitLogic, exit?_eq_find?, exitsOf_place, ← exit?_eq_find?]
    exact h.exits p t
  transitions := by
    intro t
    have hclauses : selfClauses (objects ++ [{ o with logic := [] }]) t = selfClauses objects t := by
      simp [selfClauses, LogicObject.clausesFrom]
    rw [hclauses, transitionLogic_place]
    exact h.transitions t
  declared := by
    intro kind x
    rw [mem_keys_sites_place, h.declared]
    simp [or_and_right, exists_or]
  placed := by
    intro kind p
    rw [placedIn_place, h.placed]
    by_cases ho : o.name = p ∧ o.handling.placed? = some kind
    · rw [if_pos ho, if_pos (mem_keys_sites_place.2 (Or.inr ho)), ← ho.1]
      -- an object of the same name may have been placed there before
      split
      · exact addOnce_of_mem (List.mem_singleton_self _)
      · rfl
    · have hkeys : p ∈ Entries.keys ((g.place o).sites kind) ↔ p ∈ Entries.keys (g.sites kind) := by
        rw [mem_keys_sites_place, or_iff_left ho]
      rw [if_neg ho]
      exact if_congr hkeys.symm rfl rfl
  locations := by
    intro x
    show Entries.find? ((g.place o).sites .locations) x = _
    rw [sites_place_locations, lastLocation?_concat]
    by_cases ho : o.handling = .location
    · rw [if_pos ho, Entries.find?_set]
      by_cases hx : o.name = x
      · rw [if_pos hx, if_pos ⟨hx, ho⟩, ← hx]
        rfl
      · rw [if_neg hx, if_neg fun h => hx h.1]
        exact h.locations x
    · rw [if_neg ho, if_neg fun h => ho h.2]
      exact h.locations x

/-- A further clause of the last object adds its branch. -/
theorem enter (h : g.IsGraphOf (objects ++ [{ o with logic := cs }])) (hp : c.parentRegion = .ok p)
    (hb : c.Gives b) :
    (o.enter g (p, b)).IsGraphOf (objects ++ [{ o with logic := cs ++ [c] }]) := by
  have hname : o.name ∈ g.names := by
    rw [h.names, List.mem_eraseDups]
    simp [mentionedNames]
  have hdeclared : o.handling = .transition → o.name ∈ Entries.keys (g.sites .transitions) := by
    intro ho
    rw [h.declared]
    exact ⟨_, List.mem_append_right _ (List.mem_singleton_self _), rfl, by rw [ho]; rfl⟩
  -- the clause and its branch come last in the same lists
  have happend {l : List Clause} {m : List Branch} {P : Prop} [Decidable P]
      (hl : List.Forall₂ Clause.Gives l m) :
      List.Forall₂ Clause.Gives (l ++ if P then [c] else []) (m ++ if P then [b] else []) := by
    apply List.rel_append hl
    split
    · exact .cons hb .nil
    · exact .nil
  exact {
    consistent := h.consistent.enter
    read := by
      intro o' ho' c' hc'
      rcases List.mem_append.1 ho' with ho' | ho'
      · exact h.read o' (List.mem_append_left _ ho') c' hc'
      · rw [List.mem_singleton.1 ho'] at hc'
        rcases List.mem_append.1 hc' with hc' | hc'
        · exact h.read _ (List.mem_append_right _ (List.mem_singleton_self _)) c' hc'
        · rw [List.mem_singleton.1 hc']
          exact ⟨p, b, hp, hb⟩
    names := by
      rw [names_enter hname, h.names, mentionedNames_snoc objects o cs hp, ← List.cons_append,
        eraseDups_concat]
    exits := by
      intro q r
      rw [exitLogic_enter, clausesInto_snoc objects o cs hp]
      exact happend (h.exits q r)
    transitions := by
      intro r
      rw [transitionLogic_enter hdeclared, selfClauses_snoc objects o cs hp]
      exact happend (h.transitions r)
    declared := by
      intro kind x
      rw [keys_sites_enter, h.declared]
      simp [or_and_right, exists_or]
    placed := by
      intro kind q
      rw [placedIn_enter, keys_sites_enter]
      exact h.placed kind q
    locations := by
      intro x
      rw [locations_enter, h.locations, lastLocation?_concat, lastLocation?_concat]
      split <;> rfl }

/-! ## Where there is an exit -/

/-- There is an exit where a clause leads along it. -/
theorem mem_targetsOf (h : g.IsGraphOf objects) :
    r ∈ g.targetsOf p ↔ ∃ o ∈ objects, o.name = r ∧ ¬(o.handling = .transition ∧ p = r) ∧
      ∃ c ∈ o.logic, c.parentRegion = .ok p := by
  have hlogic : r ∈ g.targetsOf p ↔ g.exitLogic p r ≠ [] := by
    refine ⟨h.consistent.exitLogic_ne_nil, fun hne => ?_⟩
    obtain ⟨b, hb⟩ := List.exists_mem_of_ne_nil _ hne
    exact (h.consistent.way_iff_mem_exitLogic.2 hb).mem_targetsOf
  have hclauses : g.exitLogic p r ≠ [] ↔ clausesInto objects p r ≠ [] := by
    rw [← List.length_pos_iff, ← List.length_pos_iff, (h.exits p r).length_eq]
  rw [hlogic, hclauses]
  constructor
  · intro hne
    obtain ⟨c, hc⟩ := List.exists_mem_of_ne_nil _ hne
    obtain ⟨o, ho, hc⟩ := List.mem_flatMap.1 hc
    split at hc
    · next hinto =>
      obtain ⟨hmem, hparent⟩ := List.mem_filter.1 hc
      exact ⟨o, ho, hinto.1, hinto.2, c, hmem, of_decide_eq_true hparent⟩
    · cases hc
  · rintro ⟨o, ho, hname, hinto, c, hc, hparent⟩
    apply List.ne_nil_of_mem (a := c)
    refine List.mem_flatMap.2 ⟨o, ho, ?_⟩
    rw [if_pos ⟨hname, hinto⟩]
    exact List.mem_filter.2 ⟨hc, decide_eq_true hparent⟩

end RegionGraph.IsGraphOf

/-! ## All objects -/

/-- A clause that is added without a failure can be read. -/
theorem exists_of_ingestClause (ho : outcome (ingestClause o c) s = (.ok (), t)) :
    ∃ p b, c.parentRegion = .ok p ∧ c.Gives b ∧ t = { s with graph := o.enter s.graph (p, b) } := by
  cases hp : c.parentRegion with
  | error fault =>
    rw [ingestClause, hp] at ho
    cases ho
  | ok p =>
    cases hb : c.branch with
    | error fault =>
      rw [ingestClause, hp, outcome_except_bind_ok, hb] at ho
      cases ho
    | ok b =>
      obtain ⟨-, rfl⟩ := Prod.mk.inj ((outcome_ingestClause hp hb).symm.trans ho)
      exact ⟨p, b, rfl, Clause.branch_eq_ok_iff.1 hb, rfl⟩

namespace RegionGraph.IsGraphOf

theorem forM_ingestClause {cs' : List Clause} (h : s.graph.IsGraphOf (objects ++ [{ o with logic := cs }]))
    (ho : outcome (cs'.forM (ingestClause o)) s = (.ok (), t)) :
    t.graph.IsGraphOf (objects ++ [{ o with logic := cs ++ cs' }]) := by
  induction cs' generalizing cs s with
  | nil =>
    obtain ⟨-, rfl⟩ := Prod.mk.inj ho
    rwa [List.append_nil]
  | cons c cs' ih =>
    obtain ⟨_, u, hfirst, hrest⟩ := outcome_bind_eq_ok.1 ho
    obtain ⟨p, b, hp, hb, rfl⟩ := exists_of_ingestClause hfirst
    have hall := ih (h.enter hp hb) hrest
    rwa [List.append_assoc] at hall

theorem ingest (h : s.graph.IsGraphOf objects) (ho : outcome (ingest o) s = (.ok (), t)) :
    t.graph.IsGraphOf (objects ++ [o]) := by
  rw [Building.ingest, outcome_change_bind] at ho
  exact (h.place o).forM_ingestClause ho

theorem forM_ingest {objects' : List LogicObject} (h : s.graph.IsGraphOf objects)
    (ho : outcome (objects'.forM Building.ingest) s = (.ok (), t)) :
    t.graph.IsGraphOf (objects ++ objects') := by
  induction objects' generalizing objects s with
  | nil =>
    obtain ⟨-, rfl⟩ := Prod.mk.inj ho
    rwa [List.append_nil]
  | cons o objects' ih =>
    obtain ⟨_, u, hfirst, hrest⟩ := outcome_bind_eq_ok.1 ho
    have hall := ih (h.ingest hfirst) hrest
    rwa [List.append_assoc] at hall

end RegionGraph.IsGraphOf

/-- A list of objects that is added to a fresh graph without a failure gives the graph of that list. There
is an exit from `p` to `t` if and only if an object named `t` has a clause that draws its state from `p`;
clauses of the transition `p` itself do not count. -/
theorem isGraphOf_of_ingest (objects : List LogicObject)
    (ho : outcome (objects.forM Building.ingest) {} = (.ok (), s)) :
    s.graph.IsGraphOf objects ∧
      ∀ p t, t ∈ s.graph.targetsOf p ↔ ∃ o ∈ objects, o.name = t ∧
        ¬(o.handling = .transition ∧ p = t) ∧ ∃ c ∈ o.logic, c.parentRegion = .ok p := by
  have h : s.graph.IsGraphOf ([] ++ objects) := isGraphOf_fresh.forM_ingest ho
  rw [List.nil_append] at h
  exact ⟨h, fun p t => h.mem_targetsOf⟩

/-- A bridge that is a transition at first and a plain region later, so that of its two ways to itself only
the second one is an exit. -/
def bridgeObjects : List LogicObject :=
  [{ name := "Bridge",
     logic := [{ provider := some "Shore", conditions := {("Plank" : Name)} },
       { provider := some "*Bridge", modifiers := ["$REST"] }],
     handling := .transition },
    { name := "Shell", logic := [{ provider := some "Shore" }], handling := .location },
    { name := "Bridge", logic := [{ provider := some "Shore" }, { provider := some "Bridge" }] },
    { name := "Shell", logic := [{}], handling := .location, isEvent := true }]

theorem isGraphOf_bridgeObjects :
    let s := (outcome (bridgeObjects.forM Building.ingest) {}).2
    outcome (bridgeObjects.forM Building.ingest) {} = (.ok (), s) ∧
      s.graph.names = [startRegion, "Bridge", "Shore", "Shell"] ∧ s.graph.IsGraphOf bridgeObjects ∧
      ∀ p t, t ∈ s.graph.targetsOf p ↔ ∃ o ∈ bridgeObjects, o.name = t ∧
        ¬(o.handling = .transition ∧ p = t) ∧ ∃ c ∈ o.logic, c.parentRegion = .ok p := by
  intro s
  have hok : (outcome (bridgeObjects.forM Building.ingest) {}).1 = .ok () := by decide +kernel
  have ho : outcome (bridgeObjects.forM Building.ingest) {} = (.ok (), s) := Prod.ext hok rfl
  have hnames : s.graph.names = [startRegion, "Bridge", "Shore", "Shell"] := by decide +kernel
  exact ⟨ho, hnames, isGraphOf_of_ingest bridgeObjects ho⟩

end RegionLogic
