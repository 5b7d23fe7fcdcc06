import RegionLogic.Proofs.Fallible
import RegionLogic.Proofs.Region.Consistent

/-!
# Changing the alternatives alone

A traversal of all lists of alternatives leaves the regions, the placements and the edges of a graph as
they are. It is enough to know what one step of the traversal does to one list: two graphs are related
if they differ in their lists alone and each list is related to the one in its place.

## Main definitions

* `RegionGraph.Relists`: a graph that differs from another one in its lists of alternatives alone
* `Yields`: what a computation with a state gives whenever its last state satisfies a condition

## Main results

* `traverseLogic_yields`: a traversal relates the graphs as its steps relate the lists
* `traverseLogic_preserves`: a traversal preserves what its steps preserve
* `traverseLogic_run`: a traversal with a function
* `Consistent.relists`: the graph stays consistent if no list becomes empty
-/

namespace RegionLogic

variable {R : List Branch → List Branch → Prop}

/-- An exit to the same region whose alternatives are related. -/
def Exit.Relists (R : List Branch → List Branch → Prop) (e e' : Exit) : Prop :=
  e'.target = e.target ∧ R e.logic e'.logic

/-- A region in which nothing but the alternatives of the exits differs. -/
structure Region.Relists (R : List Branch → List Branch → Prop) (r r' : Region) : Prop where
  /-- The name is the same. -/
  name : r'.name = r.name
  /-- The same names are placed. -/
  placed : ∀ kind, r'.placed kind = r.placed kind
  /-- The exits are in the same places. -/
  exits : List.Forall₂ (Exit.Relists R) r.exits r'.exits

/-- A location or transition that differs in its alternatives alone. -/
structure Site.Relists (R : List Branch → List Branch → Prop) (l l' : Site) : Prop where
  /-- The name is the same. -/
  name : l'.name = l.name
  /-- It is an event if the other is. -/
  isEvent : l'.isEvent = l.isEvent
  /-- The alternatives are related. -/
  logic : R l.logic l'.logic

/-! ## Tables with related members -/

namespace Entries

variable {κ α : Type} {S : α → α → Prop} {t t' : List (κ × α)}

/-- An entry of the same name with a related value. -/
def Relates (S : α → α → Prop) (e e' : κ × α) : Prop := e'.1 = e.1 ∧ S e.2 e'.2

theorem keys_of_relates (h : List.Forall₂ (Relates S) t t') : keys t' = keys t := by
  induction h with
  | nil => rfl
  | cons h _ ih => rw [keys_cons, keys_cons, ih, h.1]

theorem find?_of_relates [DecidableEq κ] (h : List.Forall₂ (Relates S) t t') (k : κ) :
    Option.Rel S (find? t k) (find? t' k) := by
  induction h with
  | nil => exact .none
  | @cons e e' t t' h _ ih =>
    obtain ⟨a, v⟩ := e
    obtain ⟨a', v'⟩ := e'
    obtain ⟨ha, hv⟩ := h
    obtain rfl : a' = a := ha
    by_cases hk : a' = k
    · simpa [find?, hk] using hv
    · simpa [find?, hk] using ih

end Entries

/-! ## Graphs that differ in their alternatives alone -/

namespace RegionGraph

/-- A graph that differs in its lists of alternatives alone, where the lists in the same places are
related by `R`. -/
structure Relists (R : List Branch → List Branch → Prop) (g g' : RegionGraph) : Prop where
  /-- The index of entrances is the same. -/
  parents : g'.parents = g.parents
  /-- The regions are in the same places. -/
  regions : List.Forall₂ (Entries.Relates (Region.Relists R)) g.regions g'.regions
  /-- The locations and the transitions are in the same places. -/
  sites : ∀ kind, List.Forall₂ (Entries.Relates (Site.Relists R)) (g.sites kind) (g'.sites kind)

variable {g g' : RegionGraph} {p t c n : Name} {kind : Placed}

namespace Relists

theorem mono {R' : List Branch → List Branch → Prop} (h : Relists R g g')
    (hR : ∀ {l l'}, R l l' → R' l l') : Relists R' g g' where
  parents := h.parents
  regions := h.regions.imp fun _ _ hr =>
    ⟨hr.1, hr.2.name, hr.2.placed, hr.2.exits.imp fun _ _ he => ⟨he.1, hR he.2⟩⟩
  sites kind := (h.sites kind).imp fun _ _ hs => ⟨hs.1, hs.2.name, hs.2.isEvent, hR hs.2.logic⟩

theorem names (h : Relists R g g') : g'.names = g.names := Entries.keys_of_relates h.regions

theorem keys_sites (h : Relists R g g') :
    Entries.keys (g'.sites kind) = Entries.keys (g.sites kind) :=
  Entries.keys_of_relates (h.sites kind)

theorem parentsOf (h : Relists R g g') : g'.parentsOf c = g.parentsOf c := by
  unfold RegionGraph.parentsOf
  rw [h.parents]

theorem region? (h : Relists R g g') (n : Name) :
    Option.Rel (Region.Relists R) (g.region? n) (g'.region? n) :=
  Entries.find?_of_relates h.regions n

theorem exitsOf (h : Relists R g g') :
    List.Forall₂ (Exit.Relists R) (g.exitsOf p) (g'.exitsOf p) := by
  unfold RegionGraph.exitsOf
  generalize g.region? p = r, g'.region? p = r', h.region? p = hr
  cases hr with
  | none => exact .nil
  | some hr => exact hr.exits

theorem placedIn (h : Relists R g g') : g'.placedIn kind p = g.placedIn kind p := by
  unfold RegionGraph.placedIn
  generalize g.region? p = r, g'.region? p = r', h.region? p = hr
  cases hr with
  | none => rfl
  | some hr => exact hr.placed kind

theorem targetsOf (h : Relists R g g') : g'.targetsOf p = g.targetsOf p := by
  unfold RegionGraph.targetsOf
  generalize g.exitsOf p = l, g'.exitsOf p = l', h.exitsOf (p := p) = he
  induction he with
  | nil => rfl
  | cons he _ ih => rw [List.map_cons, List.map_cons, ih, he.1]

/-- A location or transition comes from one of the same name. -/
theorem exists_site (h : Relists R g g') {x : Name} {l' : Site}
    (hl : Entries.find? (g'.sites kind) x = some l') :
    ∃ l, Entries.find? (g.sites kind) x = some l ∧ Site.Relists R l l' := by
  have hrel := Entries.find?_of_relates (h.sites kind) x
  rw [hl] at hrel
  generalize Entries.find? (g.sites kind) x = o at hrel
  cases hrel with
  | some hrel => exact ⟨_, rfl, hrel⟩

/-- A location or transition is left as one of the same name. -/
theorem exists_site_left (h : Relists R g g') {x : Name} {l : Site}
    (hl : Entries.find? (g.sites kind) x = some l) :
    ∃ l', Entries.find? (g'.sites kind) x = some l' ∧ Site.Relists R l l' := by
  have hrel := Entries.find?_of_relates (h.sites kind) x
  rw [hl] at hrel
  generalize Entries.find? (g'.sites kind) x = o at hrel
  cases hrel with
  | some hrel => exact ⟨_, rfl, hrel⟩

/-- Each list comes from the one in its place. -/
theorem exists_mem_logicLists (h : Relists R g g') {l' : List Branch} (hl : l' ∈ g'.logicLists) :
    ∃ l ∈ g.logicLists, R l l' := by
  simp only [logicLists, connections, List.mem_append, List.mem_map, List.mem_flatMap] at hl ⊢
  rcases hl with (⟨_, ⟨r', hr', e', he', rfl⟩, rfl⟩ | ⟨s', hs', rfl⟩) | ⟨s', hs', rfl⟩
  · obtain ⟨r, hr, -, hrel⟩ := exists_left_of_forall₂ h.regions hr'
    obtain ⟨e, he, -, hlogic⟩ := exists_left_of_forall₂ hrel.exits he'
    exact ⟨e.logic, Or.inl (Or.inl ⟨_, ⟨r, hr, e, he, rfl⟩, rfl⟩), hlogic⟩
  · obtain ⟨s, hs, -, hrel⟩ := exists_left_of_forall₂ (h.sites .locations) hs'
    exact ⟨s.2.logic, Or.inl (Or.inr ⟨s, hs, rfl⟩), hrel.logic⟩
  · obtain ⟨s, hs, -, hrel⟩ := exists_left_of_forall₂ (h.sites .transitions) hs'
    exact ⟨s.2.logic, Or.inr ⟨s, hs, rfl⟩, hrel.logic⟩

/-- Where each list is the one in its place, the graphs are the same. -/
theorem eq (h : Relists (fun l l' => l' = l) g g') : g' = g := by
  have hexits {es es' : List Exit} (he : List.Forall₂ (Exit.Relists fun l l' => l' = l) es es') :
      es = es' := by
    refine List.forall₂_eq_eq_eq ▸ he.imp ?_
    rintro ⟨t, l⟩ ⟨t', l'⟩ ⟨htarget, hlogic⟩
    rw [Exit.mk.injEq]
    exact ⟨htarget.symm, hlogic.symm⟩
  have hregions : g.regions = g'.regions := by
    refine List.forall₂_eq_eq_eq ▸ h.regions.imp ?_
    rintro ⟨n, r⟩ ⟨n', r'⟩ ⟨hname, hr⟩
    obtain rfl : n' = n := hname
    have hlocations : r'.locations = r.locations := hr.placed .locations
    have htransitions : r'.transitions = r.transitions := hr.placed .transitions
    rw [Prod.mk.injEq, eq_self, true_and, Region.mk.injEq]
    exact ⟨hr.name.symm, hlocations.symm, htransitions.symm, hexits hr.exits⟩
  have hsites (kind : Placed) : g.sites kind = g'.sites kind := by
    refine List.forall₂_eq_eq_eq ▸ (h.sites kind).imp ?_
    rintro ⟨x, s⟩ ⟨x', s'⟩ ⟨hname, hs⟩
    obtain rfl : x' = x := hname
    rw [Prod.mk.injEq, eq_self, true_and, Site.mk.injEq]
    exact ⟨hs.name.symm, hs.logic.symm, hs.isEvent.symm⟩
  have hlocations : g.locations = g'.locations := hsites .locations
  have htransitions : g.transitions = g'.transitions := hsites .transitions
  obtain ⟨regions, parents, locations, transitions⟩ := g
  obtain ⟨regions', parents', locations', transitions'⟩ := g'
  obtain rfl : regions = regions' := hregions
  obtain rfl : parents' = parents := h.parents
  obtain rfl : locations = locations' := hlocations
  obtain rfl : transitions = transitions' := htransitions
  rfl

/-- What is known of the lists of the first graph can be added. -/
theorem and_left {P : List Branch → Prop} (h : Relists R g g') (hP : ∀ l ∈ g.logicLists, P l) :
    Relists (fun l l' => P l ∧ R l l') g g' := by
  simp only [logicLists, connections, List.mem_append, List.mem_map, List.mem_flatMap] at hP
  refine ⟨h.parents, ?_, fun kind => ?_⟩
  · refine ((List.forall₂_and_left (p := fun r => ∀ e ∈ r.2.exits, P e.logic) _ _).2
      ⟨fun r hr e he => hP _ (Or.inl (Or.inl ⟨_, ⟨r, hr, e, he, rfl⟩, rfl⟩)), h.regions⟩).imp ?_
    rintro r r' ⟨hlogic, hname, hrel⟩
    refine ⟨hname, hrel.name, hrel.placed, ((List.forall₂_and_left _ _).2 ⟨hlogic, hrel.exits⟩).imp ?_⟩
    rintro e e' ⟨he, htarget, hlogic⟩
    exact ⟨htarget, he, hlogic⟩
  · have hsite : ∀ s ∈ g.sites kind, P s.2.logic := by
      intro s hs
      cases kind with
      | transitions => exact hP _ (Or.inr ⟨s, hs, rfl⟩)
      | locations => exact hP _ (Or.inl (Or.inr ⟨s, hs, rfl⟩))
    refine ((List.forall₂_and_left _ _).2 ⟨hsite, h.sites kind⟩).imp ?_
    rintro s s' ⟨hs, hname, hrel⟩
    exact ⟨hname, hrel.name, hrel.isEvent, hs, hrel.logic⟩

end Relists

/-- The graph stays consistent if no list of alternatives becomes empty. -/
theorem Consistent.relists (h : g.Consistent) (hrel : Relists R g g')
    (hR : ∀ {l l'}, R l l' → l ≠ [] → l' ≠ []) : g'.Consistent := by
  refine h.of_views hrel.names ?_ hrel.parents (fun _ => hrel.targetsOf) ?_ ?_ ?_ ?_ ?_
  · intro n r' hr
    have hregion := hrel.region? n
    rw [hr] at hregion
    generalize g.region? n = o at hregion
    cases hregion with
    | some hregion => exact ⟨_, rfl, hregion.name⟩
  · intro kind
    rw [hrel.keys_sites]
    exact h.keys_sites_nodup kind
  · intro kind x l' hl'
    obtain ⟨l, hl, hsite⟩ := hrel.exists_site hl'
    exact hsite.name.trans (h.site_name hl)
  · intro kind p x hx
    rw [hrel.placedIn] at hx
    exact hrel.keys_sites ▸ h.declared hx
  · intro p e' he'
    obtain ⟨e, he, -, hlogic⟩ := exists_left_of_forall₂ hrel.exitsOf he'
    exact hR hlogic (h.exit_logic he)
  · intro x l' hl'
    obtain ⟨l, hl, hsite⟩ := hrel.exists_site hl'
    exact hR hsite.logic (h.location_logic hl)

end RegionGraph

/-! ## Traversals -/

section Yields

variable {σ α β : Type} {I : σ → Prop} {Q : α → Prop} {Q' : β → Prop}

/-- Whenever `x` ends in a state that satisfies `I` it has started in one, and its value satisfies
`Q`. -/
def Yields (I : σ → Prop) (Q : α → Prop) (x : StateM σ α) : Prop :=
  ∀ s, I (x.run s).2 → I s ∧ Q (x.run s).1

theorem yields_pure {a : α} (h : Q a) : Yields I Q (pure a) := fun _ hs => ⟨hs, h⟩

theorem yields_bind {x : StateM σ α} {k : α → StateM σ β} (hx : Yields I Q x)
    (hk : ∀ a, Yields I (fun b => Q a → Q' b) (k a)) : Yields I Q' (x >>= k) := by
  intro s hs
  obtain ⟨hmid, hvalue⟩ := hk (x.run s).1 (x.run s).2 hs
  obtain ⟨hstart, hq⟩ := hx s hmid
  exact ⟨hstart, hvalue hq⟩

theorem yields_mapM {S : α → β → Prop} {f : α → StateM σ β} {l : List α}
    (h : ∀ a ∈ l, Yields I (S a) (f a)) : Yields I (List.Forall₂ S l) (l.mapM f) := by
  induction l with
  | nil => exact yields_pure .nil
  | cons a l ih =>
    rw [List.mapM_cons]
    exact yields_bind (h a (by simp)) fun b =>
      yields_bind (ih fun c hc => h c (List.mem_cons_of_mem a hc)) fun l' =>
        yields_pure fun hl ha => .cons ha hl

end Yields

namespace RegionGraph

theorem logic_mem_logicLists {g : RegionGraph} {r : Name × Region} {e : Exit} (hr : r ∈ g.regions)
    (he : e ∈ r.2.exits) : e.logic ∈ g.logicLists := by
  have hc : (r.2.name, e) ∈ g.connections := List.mem_flatMap.2 ⟨r, hr, List.mem_map_of_mem he⟩
  simp only [logicLists, List.mem_append, List.mem_map]
  exact Or.inl (Or.inl ⟨_, hc, rfl⟩)

/-- A traversal relates the graphs as its steps relate the lists. -/
theorem traverseLogic_yields {σ : Type} {I : σ → Prop} {f : List Branch → StateM σ (List Branch)}
    {g : RegionGraph} (h : ∀ l ∈ g.logicLists, Yields I (R l) (f l)) :
    Yields I (Relists R g) (g.traverseLogic f) := by
  -- the steps of the traversal relate their parts; they are put together in the order of the traversal
  have hsites : ∀ t : List (Name × Site), (∀ s ∈ t, s.2.logic ∈ g.logicLists) →
      Yields I (List.Forall₂ (Entries.Relates (Site.Relists R)) t)
        (t.mapM fun s => do return (s.1, { s.2 with logic := ← f s.2.logic })) := fun t ht =>
    yields_mapM fun s hs => yields_bind (h _ (ht s hs)) fun l' => yields_pure fun hl =>
      ⟨rfl, ⟨rfl, rfl, hl⟩⟩
  have hexits : ∀ r ∈ g.regions, Yields I (List.Forall₂ (Exit.Relists R) r.2.exits)
      (r.2.exits.mapM fun e => do return { e with logic := ← f e.logic }) := fun r hr =>
    yields_mapM fun e he => yields_bind (h _ (logic_mem_logicLists hr he)) fun l' =>
      yields_pure fun hl => ⟨rfl, hl⟩
  have hregions := yields_mapM (I := I) (S := Entries.Relates (Region.Relists R))
    (f := fun r : Name × Region => do
      let exits ← r.2.exits.mapM fun e => do return { e with logic := ← f e.logic }
      return (r.1, { r.2 with exits })) (l := g.regions)
    (fun r hr => yields_bind (hexits r hr) fun es => yields_pure fun hes =>
      ⟨rfl, ⟨rfl, fun kind => by cases kind <;> rfl, hes⟩⟩)
  have hlocations := hsites g.locations fun s hs => by
    simp only [logicLists, List.mem_append, List.mem_map]
    exact Or.inl (Or.inr ⟨s, hs, rfl⟩)
  have htransitions := hsites g.transitions fun s hs => by
    simp only [logicLists, List.mem_append, List.mem_map]
    exact Or.inr ⟨s, hs, rfl⟩
  refine yields_bind hregions fun regions => yields_bind hlocations fun locations =>
    yields_bind htransitions fun transitions => yields_pure fun ht hl hr => ?_
  exact ⟨rfl, hr, fun kind => by cases kind; exacts [ht, hl]⟩

/-- What every step of a traversal preserves holds at its end. -/
theorem traverseLogic_preserves {σ : Type} {I : σ → Prop}
    {f : List Branch → StateM σ (List Branch)} {g : RegionGraph}
    (h : ∀ l ∈ g.logicLists, ∀ s, I s → I ((f l).run s).2) {s : σ} (hs : I s) :
    I ((g.traverseLogic f).run s).2 := by
  -- a traversal that relates nothing, read backwards: had it ended outside `I` it had started there
  by_contra hend
  have hback := traverseLogic_yields (I := fun s => ¬I s) (R := fun _ _ => True) (f := f) (g := g)
    fun l hl s hs => ⟨fun hstart => hs (h l hl s hstart), trivial⟩
  exact (hback s hend).1 hs

/-- A traversal with a function. -/
theorem traverseLogic_run (f : List Branch → List Branch) (g : RegionGraph) :
    Relists (fun l l' => l' = f l) g (g.traverseLogic (m := Id) fun l => pure (f l)).run := by
  have hsites : ∀ t : List (Name × Site), List.Forall₂
      (Entries.Relates (Site.Relists fun l l' => l' = f l)) t
      (t.map fun s => (s.1, { s.2 with logic := f s.2.logic })) := fun t =>
    List.forall₂_map_right_iff.2 <| List.forall₂_same.2 fun s _ => ⟨rfl, ⟨rfl, rfl, rfl⟩⟩
  have hexits : ∀ es : List Exit, List.Forall₂ (Exit.Relists fun l l' => l' = f l) es
      (es.map fun e => { e with logic := f e.logic }) := fun es =>
    List.forall₂_map_right_iff.2 <| List.forall₂_same.2 fun e _ => ⟨rfl, rfl⟩
  have hregions : List.Forall₂ (Entries.Relates (Region.Relists fun l l' => l' = f l)) g.regions
      (g.regions.map fun r =>
        (r.1, { r.2 with exits := r.2.exits.map fun e => { e with logic := f e.logic } })) :=
    List.forall₂_map_right_iff.2 <| List.forall₂_same.2 fun r _ =>
      ⟨rfl, ⟨rfl, fun kind => by cases kind <;> rfl, hexits r.2.exits⟩⟩
  simp only [traverseLogic, Id.run_bind, Id.run_pure, List.idRun_mapM]
  exact ⟨rfl, hregions, fun kind => by cases kind; exacts [hsites g.transitions, hsites g.locations]⟩

end RegionGraph

end RegionLogic
