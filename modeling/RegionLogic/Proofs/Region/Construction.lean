import RegionLogic.Proofs.Region.Consistent
import RegionLogic.Proofs.Region.Outcome

/-!
# Building a graph from objects

An object that is added to a graph is placed in the region of its own name, and its clauses become
branches. The addition may fail at a clause that cannot be read; what it has changed until then stays.
So whatever the three changes that it is made of preserve holds afterwards in any case.

## Main definitions

* `Handling.placed?`: the kind of things that an object is placed as

## Main results

* `placedIn_place`, `keys_sites_place`: an object is placed in its region and declared
* `Consistent.place`, `Consistent.addTransitionLogic`: the graph stays consistent
* `ingest_preserves`: what an addition preserves
-/

namespace RegionLogic

/-- The kind of things that an object is placed as. -/
def Handling.placed? : Handling → Option Placed
  | region => none
  | location => some .locations
  | transition => some .transitions

namespace RegionGraph

variable {g : RegionGraph} {o : LogicObject} {q : Name}

theorem names_place : (g.place o).names = addOnce g.names o.name := by
  rw [← names_ensureRegion]
  unfold place
  cases o.handling with
  | region => rfl
  | location => exact names_adjustRegion
  | transition =>
    dsimp only
    split <;> exact names_adjustRegion

theorem exitsOf_place : (g.place o).exitsOf q = g.exitsOf q := by
  rw [← exitsOf_ensureRegion (g := g) (p := o.name)]
  unfold place
  cases o.handling with
  | region => rfl
  | location => exact exitsOf_adjustRegion_of_eq (f := (·.addLocation o.name)) fun _ => rfl
  | transition =>
    dsimp only
    split <;> exact exitsOf_adjustRegion_of_eq (f := (·.addTransition o.name)) fun _ => rfl

/-- An object is placed in the region of its own name, once. -/
theorem placedIn_place (kind : Placed) :
    (g.place o).placedIn kind q =
      if o.name = q ∧ o.handling.placed? = some kind then addOnce (g.placedIn kind q) o.name
      else g.placedIn kind q := by
  have hmem : o.name ∈ (g.ensureRegion o.name).names := by simp [names_ensureRegion]
  rw [← placedIn_ensureRegion (g := g) (p := o.name) kind]
  unfold place
  cases o.handling with
  | region => simp [Handling.placed?]
  | location =>
    refine (placedIn_adjustPlaced (f := (addOnce · o.name)) (k := .locations)).trans ?_
    simp [Handling.placed?, hmem]
  | transition =>
    dsimp only
    split <;>
    · refine (placedIn_adjustPlaced (f := (addOnce · o.name)) (k := .transitions)).trans ?_
      simp [Handling.placed?, hmem]

theorem keys_set_addOnce (t : List (Name × Site)) (k : Name) (v : Site) :
    Entries.keys (Entries.set t k v) = addOnce (Entries.keys t) k :=
  (Entries.keys_set t k v).trans rfl

/-- The declared names with the name of an object. -/
theorem keys_sites_place (kind : Placed) :
    Entries.keys ((g.place o).sites kind) =
      if o.handling.placed? = some kind then addOnce (Entries.keys (g.sites kind)) o.name
      else Entries.keys (g.sites kind) := by
  rw [← sites_ensureRegion (g := g) (p := o.name) kind]
  unfold place
  cases o.handling with
  | region => simp [Handling.placed?]
  | location => cases kind <;> simp [Handling.placed?, sites, adjustRegion, keys_set_addOnce]
  | transition =>
    dsimp only
    split
    · next h =>
      rw [Entries.has_iff] at h
      cases kind
      · exact (addOnce_of_mem h).symm
      · rfl
    · cases kind <;> simp [Handling.placed?, sites, adjustRegion, keys_set_addOnce]

/-- What is declared anew has the name of the object; the rest stays as it is. A location that is declared
anew has the empty branch. -/
theorem find?_sites_place {kind : Placed} {x : Name} {l : Site}
    (h : Entries.find? ((g.place o).sites kind) x = some l) :
    l.name = x ∧ (kind = .locations → l.logic = [Branch.empty]) ∨
      Entries.find? (g.sites kind) x = some l := by
  rw [← sites_ensureRegion (g := g) (p := o.name)]
  have hset {t : List (Name × Site)} {s : Site} (hs : s.name = o.name)
      (h : Entries.find? (Entries.set t o.name s) x = some l) :
      l = s ∧ l.name = x ∨ Entries.find? t x = some l := by
    rw [Entries.find?_set] at h
    split at h
    · next hx =>
      obtain rfl := Option.some.inj h
      exact Or.inl ⟨rfl, hs.trans hx⟩
    · exact Or.inr h
  unfold place at h
  cases ho : o.handling with
  | region => exact Or.inr (by simpa only [ho] using h)
  | location =>
    simp only [ho] at h
    cases kind with
    | transitions => exact Or.inr h
    | locations =>
      rcases hset rfl h with ⟨rfl, hx⟩ | h
      · exact Or.inl ⟨hx, fun _ => rfl⟩
      · exact Or.inr h
  | transition =>
    simp only [ho] at h
    split at h
    · cases kind <;> exact Or.inr h
    · cases kind with
      | transitions =>
        rcases hset rfl h with ⟨-, hx⟩ | h
        · exact Or.inl ⟨hx, by rintro ⟨⟩⟩
        · exact Or.inr h
      | locations => exact Or.inr h

theorem Consistent.place (h : g.Consistent) (o : LogicObject) : (g.place o).Consistent := by
  -- only the placement and the declarations differ from the graph in which the region is there
  have he := h.ensureRegion o.name
  have hnames : (g.place o).names = (g.ensureRegion o.name).names := by
    rw [names_place, names_ensureRegion]
  have hexits : ∀ p, (g.place o).exitsOf p = (g.ensureRegion o.name).exitsOf p := fun p => by
    rw [exitsOf_place, exitsOf_ensureRegion]
  refine he.of_views hnames ?_ ?_ (fun p => by rw [targetsOf, hexits, targetsOf]) ?_ ?_ ?_
    (fun hx => he.exit_logic (hexits _ ▸ hx)) ?_
  · intro n r' hr
    unfold RegionGraph.place at hr
    cases ho : o.handling with
    | region => exact ⟨r', by simpa only [ho] using hr, rfl⟩
    | location =>
      simp only [ho] at hr
      exact exists_of_region?_adjustRegion (f := (·.addLocation o.name)) (fun _ => rfl) hr
    | transition =>
      simp only [ho] at hr
      split at hr <;>
        exact exists_of_region?_adjustRegion (f := (·.addTransition o.name)) (fun _ => rfl) hr
  · unfold RegionGraph.place
    cases o.handling with
    | region => rfl
    | location => rfl
    | transition =>
      dsimp only
      split <;> rfl
  · intro kind
    rw [keys_sites_place]
    split
    · exact nodup_addOnce (h.keys_sites_nodup kind)
    · exact h.keys_sites_nodup kind
  · intro kind x l hl
    rcases find?_sites_place hl with ⟨hname, -⟩ | hl
    · exact hname
    · exact h.site_name hl
  · intro kind p x hx
    rw [placedIn_place] at hx
    rw [keys_sites_place]
    by_cases hk : o.handling.placed? = some kind
    · rw [if_pos hk, mem_addOnce]
      split at hx
      · rcases mem_addOnce.1 hx with hx | rfl
        · exact Or.inl (h.declared hx)
        · exact Or.inr rfl
      · exact Or.inl (h.declared hx)
    · rw [if_neg hk]
      rw [if_neg fun hc => hk hc.2] at hx
      exact h.declared hx
  · intro x l hl
    rcases find?_sites_place hl with ⟨-, hlogic⟩ | hl
    · simp [hlogic rfl]
    · exact h.location_logic hl

theorem keys_sites_addTransitionLogic {name : Name} {b : Branch} (kind : Placed) :
    Entries.keys ((g.addTransitionLogic name b).sites kind) = Entries.keys (g.sites kind) := by
  cases kind
  · exact Entries.keys_adjust ..
  · rfl

theorem find?_transitions_addTransitionLogic {name x : Name} {b : Branch} :
    Entries.find? ((g.addTransitionLogic name b).sites .transitions) x =
      if name = x then
        (Entries.find? (g.sites .transitions) x).map fun t => { t with logic := t.logic ++ [b] }
      else Entries.find? (g.sites .transitions) x :=
  Entries.find?_adjust ..

theorem Consistent.addTransitionLogic (h : g.Consistent) (name : Name) (b : Branch) :
    (g.addTransitionLogic name b).Consistent := by
  refine h.of_views rfl (fun hr => ⟨_, hr, rfl⟩) rfl (fun _ => rfl)
    (fun kind => (keys_sites_addTransitionLogic kind).symm ▸ h.keys_sites_nodup kind) ?_
    (fun hx => (keys_sites_addTransitionLogic _).symm ▸ h.declared hx) h.exit_logic h.location_logic
  intro kind x l hl
  cases kind with
  | locations => exact (h.site_name : Entries.find? (g.sites .locations) _ = some l → _) hl
  | transitions =>
    rw [find?_transitions_addTransitionLogic] at hl
    split at hl
    · obtain ⟨l', hl', rfl⟩ := Option.map_eq_some_iff.1 hl
      exact (h.site_name hl' : l'.name = x)
    · exact h.site_name hl

end RegionGraph

namespace Building

open RegionGraph

variable {s : Session}

/-- What an operation that may fail preserves for every member of a list it preserves for the list. -/
theorem forM_preserves {α : Type} {P : RegionGraph → Prop} {f : α → Building Unit} {l : List α}
    (h : ∀ a ∈ l, ∀ s : Session, P s.graph → P (outcome (f a) s).2.graph) (hs : P s.graph) :
    P (outcome (l.forM f) s).2.graph := by
  induction l generalizing s with
  | nil => exact hs
  | cons a l ih =>
    show P (outcome (f a >>= fun _ => l.forM f) s).2.graph
    exact bind_preserves (h a (by simp) s hs) fun _ _ ht =>
      ih (fun b hb => h b (List.mem_cons_of_mem a hb)) ht

/-- What each change that an addition is made of preserves holds after it, also if it fails. -/
theorem ingest_preserves {P : RegionGraph → Prop} {o : LogicObject}
    (hplace : ∀ g : RegionGraph, P g → P (g.place o))
    (hlogic : ∀ (g : RegionGraph) b, P g → P (g.addTransitionLogic o.name b))
    (hedge : ∀ (g : RegionGraph) p b, P g → P (g.addEdge p [b] o.name)) (hs : P s.graph) :
    P (outcome (ingest o) s).2.graph := by
  rw [ingest, outcome_change_bind]
  -- the clauses are added one after the other; one that cannot be read ends the addition
  refine forM_preserves (fun c _ s hs => ?_) (hplace _ hs)
  unfold ingestClause
  cases c.parentRegion with
  | error f => exact hs
  | ok parent =>
    rw [outcome_except_bind_ok]
    cases c.branch with
    | error f => exact hs
    | ok b =>
      rw [outcome_except_bind_ok]
      split
      · exact hlogic _ b hs
      · exact hedge _ parent b hs

end Building

end RegionLogic
