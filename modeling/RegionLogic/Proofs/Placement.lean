import Mathlib.Data.List.Induction
import RegionLogic.Proofs.Calls

/-!
# Everything stays in its place

As long as no object is added after a cleanup, every declared location and transition is placed once.
Objects are placed in the regions of their own names, so that adding one again changes nothing; what a
cleanup takes out of a region it places in another one, also if the classifier fails on the way.

## Main definitions

* `RegionGraph.AtHome`: everything is in the region of its own name
* `RegionGraph.PlacedOnce`: what is declared is placed exactly once, and nothing else is placed
* `Call.ingests`, `Call.cleans`: the calls that add objects, and those that clean up

## Main results

* `wellPlaced_afterCall`, `atHome_afterCall`: one call
* `placed_once_after_calls`: any sequence of calls
-/

namespace RegionLogic

open Building RegionGraph

namespace RegionGraph

/-- Everything is placed in the region of its own name. -/
def AtHome (g : RegionGraph) : Prop := ∀ kind p, ∀ x ∈ g.placedIn kind p, p = x

/-- What is declared is placed exactly once, in exactly one region, and nothing else is placed. -/
def PlacedOnce (g : RegionGraph) (kind : Placed) : Prop :=
  ∀ x, (x ∈ Entries.keys (g.sites kind) →
      ∃ p, (g.placedIn kind p).count x = 1 ∧ ∀ q ≠ p, x ∉ g.placedIn kind q) ∧
    (x ∉ Entries.keys (g.sites kind) → ∀ p, x ∉ g.placedIn kind p)

variable {g g' : RegionGraph} {n p : Name} {o : LogicObject}

theorem WellPlaced.placedOnce (h : g.WellPlaced) (hg : g.Consistent) (kind : Placed) :
    g.PlacedOnce kind := by
  refine fun x => ⟨fun hx => ?_, fun hx p hp => hx (hg.declared hp)⟩
  obtain ⟨p, hp⟩ := h.placed hx
  refine ⟨p, ?_, fun q hq hxq => hq (h.unique hxq hp)⟩
  have := List.nodup_iff_count_le_one.1 (h.nodup kind p) x
  have := List.count_pos_iff.2 hp
  omega

theorem wellPlaced_fresh : fresh.WellPlaced where
  nodup kind p := by
    rw [placedIn_fresh]
    exact List.nodup_nil
  placed {kind _} hx := by cases kind <;> cases hx
  unique {kind x p q} hx := by
    rw [placedIn_fresh] at hx
    cases hx

theorem atHome_fresh : fresh.AtHome := by
  intro kind p x hx
  rw [placedIn_fresh] at hx
  cases hx

/-! ## Changes that move nothing -/

theorem WellPlaced.of_eq (h : g.WellPlaced) (hplaced : ∀ kind p, g'.placedIn kind p = g.placedIn kind p)
    (hkeys : ∀ kind, Entries.keys (g'.sites kind) = Entries.keys (g.sites kind)) : g'.WellPlaced where
  nodup kind p := hplaced kind p ▸ h.nodup kind p
  placed {kind x} hx := by
    obtain ⟨p, hp⟩ := h.placed (hkeys kind ▸ hx)
    exact ⟨p, (hplaced kind p).symm ▸ hp⟩
  unique {kind x p q} hp hq := h.unique (hplaced kind p ▸ hp) (hplaced kind q ▸ hq)

theorem AtHome.of_eq (h : g.AtHome) (hplaced : ∀ kind p, g'.placedIn kind p = g.placedIn kind p) :
    g'.AtHome := fun kind p x hx => h kind p x (hplaced kind p ▸ hx)

/-- Without a region in which nothing is placed everything is where it was. -/
theorem Consistent.placedIn_without_of_empty (hg : g.Consistent) (hn : ∀ kind, g.placedIn kind n = [])
    (kind : Placed) (q : Name) : (g.without n).placedIn kind q = g.placedIn kind q := by
  rw [hg.placedIn_without]
  split
  · next hq => rw [← hq, hn]
  · rfl

/-! ## Adding objects -/

/-- An object that is added is placed in the region of its own name, so it is placed nowhere else. -/
theorem AtHome.place (h : g.AtHome) : (g.place o).AtHome := by
  intro kind p x hx
  rw [placedIn_place] at hx
  split at hx
  · next hc =>
    rcases mem_addOnce.1 hx with hx | rfl
    · exact h kind p x hx
    · exact hc.1.symm
  · exact h kind p x hx

theorem WellPlaced.place (h : g.WellPlaced) (ha : g.AtHome) : (g.place o).WellPlaced where
  nodup kind p := by
    rw [placedIn_place]
    split
    · exact nodup_addOnce (h.nodup kind p)
    · exact h.nodup kind p
  placed {kind x} hx := by
    rw [keys_sites_place] at hx
    by_cases hk : o.handling.placed? = some kind
    · rw [if_pos hk, mem_addOnce] at hx
      rcases hx with hx | rfl
      · obtain ⟨p, hp⟩ := h.placed hx
        refine ⟨p, ?_⟩
        rw [placedIn_place]
        split
        · exact mem_addOnce.2 (Or.inl hp)
        · exact hp
      · refine ⟨o.name, ?_⟩
        rw [placedIn_place, if_pos ⟨rfl, hk⟩]
        exact mem_addOnce.2 (Or.inr rfl)
    · rw [if_neg hk] at hx
      obtain ⟨p, hp⟩ := h.placed hx
      refine ⟨p, ?_⟩
      rw [placedIn_place, if_neg fun hc => hk hc.2]
      exact hp
  unique hp hq := (ha.place _ _ _ hp).trans (ha.place _ _ _ hq).symm

end RegionGraph

variable {classify : Classifier} {kept keep : NameSet} {options : CleanupOptions} {g g' : RegionGraph}
  {n : Name} {s : Session}

/-! ## Cleaning up -/

/-- What is placed in a region that goes is placed once afterwards. -/
theorem Removal.wellPlaced (h : Removal classify kept g n g') (hg : g.Consistent)
    (hstart : startRegion ∈ kept) (hw : g.WellPlaced) : g'.WellPlaced := by
  -- all three ways of going move the contents to one other region `p`
  obtain ⟨p, -, hpn, hplaced⟩ := h.placedIn hg hstart
  have hmem (kind : Placed) (q x : Name) :
      x ∈ g'.placedIn kind q ↔
        q ≠ n ∧ (x ∈ g.placedIn kind q ∨ q = p ∧ x ∈ g.placedIn kind n) := by
    rw [hplaced]
    by_cases hqn : q = n
    · simp [hqn]
    · by_cases hqp : q = p
      · simp [hqp, hpn, mem_foldl_addOnce]
      · simp [hqn, hqp]
  refine ⟨fun kind q => ?_, fun {kind x} hx => ?_, fun {kind x q r} hq hr => ?_⟩
  · rw [hplaced]
    split
    · exact List.nodup_nil
    · split
      · exact nodup_foldl_addOnce (hw.nodup kind q)
      · exact hw.nodup kind q
  · rw [h.keys_sites hg hstart] at hx
    obtain ⟨q, hq⟩ := hw.placed hx
    by_cases hqn : q = n
    · exact ⟨p, (hmem kind p x).2 ⟨hpn, Or.inr ⟨rfl, hqn ▸ hq⟩⟩⟩
    · exact ⟨q, (hmem kind q x).2 ⟨hqn, Or.inl hq⟩⟩
  · obtain ⟨hqn, hq⟩ := (hmem kind q x).1 hq
    obtain ⟨hrn, hr⟩ := (hmem kind r x).1 hr
    rcases hq with hq | ⟨rfl, hq⟩
    · rcases hr with hr | ⟨rfl, hr⟩
      · exact hw.unique hq hr
      · exact absurd (hw.unique hq hr) hqn
    · rcases hr with hr | ⟨rfl, hr⟩
      · exact absurd (hw.unique hr hq) hrn
      · rfl

/-- A cleanup places everything that was declared, and declares nothing else, whether it fails or not. -/
theorem wellPlaced_clean (classify : Classifier) (keep : NameSet) (options : CleanupOptions)
    (hs : s.graph.Consistent) (hw : s.graph.WellPlaced) :
    let t := (outcome (clean classify keep options) s).2
    t.graph.Consistent ∧ t.graph.WellPlaced ∧
      ∀ kind, Entries.keys (t.graph.sites kind) = Entries.keys (s.graph.sites kind) := by
  have hstart := start_mem_protectedRegions keep s.graph
  refine clean_preserves (I := fun g => g.Consistent ∧ g.WellPlaced ∧
    ∀ kind, Entries.keys (g.sites kind) = Entries.keys (s.graph.sites kind))
    (fun hg => hg.1) ?_ ?_ ?_ ⟨hs, hw, fun _ => rfl⟩
  · rintro g n g' ⟨hg, hw, hkeys⟩ h
    exact ⟨h.consistent hg hstart, h.wellPlaced hg hstart hw,
      fun kind => (h.keys_sites hg hstart kind).trans (hkeys kind)⟩
  · rintro R g g' ⟨hg, hw, hkeys⟩ h hR
    exact ⟨hg.relists h fun hl => (hR hl).2, hw.of_eq (fun _ _ => h.placedIn) fun _ => h.keys_sites,
      fun kind => h.keys_sites.trans (hkeys kind)⟩
  -- a region that is given up in part has nothing placed in it
  · rintro g g' ⟨hg, hw, hkeys⟩ h
    obtain ⟨n, hn, hne, hrewires⟩ := h.exists_rewires hg allBranches_true (fun _ _ => trivial) hstart
    have hsites (kind : Placed) : Entries.keys (g'.sites kind) = Entries.keys (g.sites kind) := by
      rw [hrewires.sites, sites_without]
    refine ⟨hrewires.consistent, hw.of_eq (fun kind p => ?_) hsites,
      fun kind => (hsites kind).trans (hkeys kind)⟩
    rw [hrewires.placedIn, hg.placedIn_without_of_empty hn.empty]

/-! ## One call -/

namespace Call

/-- The call adds an object. -/
def ingests : Call → Prop
  | ingest _ => True
  | _ => False

/-- The call cleans up. -/
def cleans : Call → Prop
  | clean .. => True
  | build .. => True
  | _ => False

end Call

theorem placedIn_relabelAsStart (hs : s.graph.Consistent) (name : Name) :
    (∀ kind p, (outcome (relabelAsStart name) s).2.graph.placedIn kind p = s.graph.placedIn kind p) ∧
      ∀ kind, (outcome (relabelAsStart name) s).2.graph.sites kind = s.graph.sites kind := by
  by_cases hname : s.graph.Relabelable name
  · rw [outcome_relabelAsStart hs hname]
    exact ⟨fun kind _ => hs.placedIn_relabelled hname kind, sites_relabelled⟩
  · obtain ⟨cause, ho⟩ := outcome_relabelAsStart_of_not hname
    rw [ho]
    exact ⟨fun _ _ => rfl, fun _ => rfl⟩

theorem graph_validate (hs : s.graph.Consistent) : (outcome validate s).2.graph = s.graph := by
  rcases outcome_validate hs with ho | ⟨fault, ho, -⟩ <;> rw [ho]

/-- Every call leaves a well-placed graph well placed; an object may be added as long as everything is in
the region of its own name. -/
theorem wellPlaced_afterCall (hs : s.graph.Consistent) (hw : s.graph.WellPlaced) (c : Call)
    (hc : c.ingests → s.graph.AtHome) : (s.afterCall c).graph.WellPlaced := by
  unfold Session.afterCall Call.perform
  cases c with
  | ingest o =>
    -- an object of a name that is taken is placed anew, so it must not have moved away from home
    refine (ingest_preserves (P := fun g => g.WellPlaced ∧ g.AtHome) ?_ ?_ ?_ ⟨hw, hc trivial⟩).1
    · exact fun g hg => ⟨hg.1.place hg.2, hg.2.place⟩
    · exact fun g b hg => ⟨hg.1.of_eq (fun _ _ => rfl) keys_sites_addTransitionLogic, hg.2⟩
    · exact fun g p b hg => ⟨hg.1.of_eq (fun kind _ => placedIn_addEdge kind) fun kind => by rw [sites_addEdge],
        hg.2.of_eq fun kind _ => placedIn_addEdge kind⟩
  | connect parent b target =>
    exact hw.of_eq (fun kind _ => placedIn_addEdge kind) fun kind => congrArg _ (sites_addEdge kind)
  | relabel name =>
    obtain ⟨hplaced, hsites⟩ := placedIn_relabelAsStart hs name
    exact hw.of_eq hplaced fun kind => by rw [hsites]
  | validate =>
    dsimp only
    rwa [graph_validate hs]
  | clean classify keep options =>
    dsimp only
    rw [outcome_discard]
    exact (wellPlaced_clean _ _ _ hs hw).2.1
  | build classify keep options =>
    dsimp only
    rw [outcome_discard, graph_build, outcome_validate_of_wellPlaced hs hw]
    exact (wellPlaced_clean _ _ _ hs hw).2.1

/-- Only a cleanup takes anything out of the region of its own name. -/
theorem atHome_afterCall (hs : s.graph.Consistent) (ha : s.graph.AtHome) (c : Call)
    (hc : ¬c.cleans) : (s.afterCall c).graph.AtHome := by
  unfold Session.afterCall Call.perform
  cases c with
  | ingest o =>
    exact ingest_preserves (P := fun g => g.AtHome) (fun g hg => hg.place) (fun g b hg => hg)
      (fun g p b hg => hg.of_eq fun kind _ => placedIn_addEdge kind) ha
  | connect parent b target => exact ha.of_eq fun kind _ => placedIn_addEdge kind
  | relabel name => exact ha.of_eq (placedIn_relabelAsStart hs name).1
  | validate =>
    dsimp only
    rwa [graph_validate hs]
  | clean classify keep options => exact absurd trivial hc
  | build classify keep options => exact absurd trivial hc

/-! ## The world -/

theorem find?_foldl_set {names : List Name} {t : List (Name × Name)} {v x : Name} :
    Entries.find? (names.foldl (fun t n => Entries.set t n v) t) x =
      if x ∈ names then some v else Entries.find? t x := by
  induction names generalizing t with
  | nil => rfl
  | cons n names ih =>
    rw [List.foldl_cons, ih, Entries.find?_set]
    by_cases hn : n = x
    · simp [hn]
    · simp [hn, Ne.symm hn]

/-- The region of a transition that all regions holding it agree on. -/
theorem find?_foldl_regions {regions : List (Name × Region)} {t : List (Name × Name)} {v x : Name}
    (hunique : ∀ r ∈ regions, x ∈ r.2.transitions → r.2.name = v)
    (hx : (∃ r ∈ regions, x ∈ r.2.transitions) ∨ Entries.find? t x = some v) :
    Entries.find? (regions.foldl (fun table r =>
      r.2.transitions.foldl (fun table name => Entries.set table name r.2.name) table) t) x =
      some v := by
  induction regions generalizing t with
  | nil => simpa using hx
  | cons r regions ih =>
    refine ih (fun r' hr' => hunique r' (List.mem_cons_of_mem r hr')) ?_
    -- a later region overwrites what an earlier one has entered, with the same value
    rw [find?_foldl_set]
    by_cases hr : x ∈ r.2.transitions
    · exact Or.inr (by rw [if_pos hr, hunique r (by simp) hr])
    · rw [if_neg hr]
      rcases hx with ⟨r', hr', hx⟩ | hx
      · rcases List.mem_cons.1 hr' with rfl | hr'
        · exact absurd hx hr
        · exact Or.inl ⟨r', hr', hx⟩
      · exact Or.inr hx

/-- The world of a well-placed graph gives each transition the one region that lists it. -/
theorem regionOfTransition_world (hg : g.Consistent) (hw : g.WellPlaced) {l : Site}
    (hl : l ∈ g.world.transitions) :
    ∃ r ∈ g.world.regions, l.name ∈ r.transitions ∧
      Entries.find? g.world.regionOfTransition l.name = some r.name ∧
      ∀ r' ∈ g.world.regions, l.name ∈ r'.transitions → r' = r := by
  obtain ⟨⟨x, l⟩, hmem, rfl⟩ := List.mem_map.1 hl
  have hfind := (find?_eq_some_iff_mem (hg.keys_sites_nodup .transitions)).2 hmem
  have hname : l.name = x := hg.site_name hfind
  have hdeclared : x ∈ Entries.keys (g.sites .transitions) := Entries.isSome_find?.1 (by rw [hfind]; rfl)
  obtain ⟨p, hp⟩ := hw.placed hdeclared
  obtain ⟨r, hr⟩ := mem_names.1 (mem_names_of_mem_placedIn hp)
  -- every region that lists the transition is the one it is placed in
  have hlists {n : Name} {r' : Region} (hr' : (n, r') ∈ g.regions) (hx : x ∈ r'.transitions) :
      r' = r := by
    have hr' := (find?_eq_some_iff_mem hg.names_nodup).2 hr'
    have hxn : x ∈ g.placedIn .transitions n := by
      rw [placedIn_of_region? hr']
      exact hx
    have hn : n = p := hw.unique hxn hp
    exact Option.some.inj ((hn ▸ hr' : g.region? p = some r').symm.trans hr)
  rw [placedIn_of_region? hr] at hp
  have hrmem := Entries.mem_of_find? hr
  refine ⟨r, List.mem_map_of_mem (f := (·.2)) hrmem, hname.symm ▸ hp, ?_, ?_⟩
  · rw [hname]
    exact find?_foldl_regions (fun r' hr' hx => by rw [hlists hr' hx]) (Or.inl ⟨_, hrmem, hp⟩)
  · intro r' hr' hx
    obtain ⟨⟨n, r''⟩, hr'', rfl⟩ := List.mem_map.1 hr'
    exact hlists hr'' (hname ▸ hx)

/-! ## All calls -/

theorem after_append (s : Session) (calls : List Call) (c : Call) :
    s.after (calls ++ [c]) = (s.after calls).afterCall c := by
  simp [Session.after]

/-- As long as there has been no cleanup everything is in the region of its own name. -/
theorem wellPlaced_after (calls : List Call) (h : calls.Pairwise fun a b => a.cleans → ¬b.ingests) :
    (Session.after {} calls).graph.WellPlaced ∧
      ((∀ c ∈ calls, ¬c.cleans) → (Session.after {} calls).graph.AtHome) := by
  induction calls using List.reverseRecOn with
  | nil => exact ⟨wellPlaced_fresh, fun _ => atHome_fresh⟩
  | append_singleton calls c ih =>
    obtain ⟨hcalls, -, hlast⟩ := List.pairwise_append.1 h
    obtain ⟨hw, ha⟩ := ih hcalls
    have hs := consistent_after (s := {}) fresh_consistent calls
    rw [after_append]
    refine ⟨wellPlaced_afterCall hs hw c fun hc => ha fun a hmem hclean => ?_, fun hnone => ?_⟩
    · exact hlast a hmem c (by simp) hclean hc
    · exact atHome_afterCall hs (ha fun a hmem => hnone a (by simp [hmem])) c (hnone c (by simp))

/-- If no object is added after a cleanup the check of the placement accepts every graph that calls
leave: what is declared is placed exactly once and nothing else is placed. A further cleanup keeps it so
and loses and adds no name, also if the classifier fails on the way. A world that a build hands on shows the
graph after the cleanup, and it gives each transition the one region that lists it. -/
theorem placed_once_after_calls (calls : List Call)
    (h : calls.Pairwise fun a b => a.cleans → ¬b.ingests) :
    let s : Session := Session.after {} calls
    outcome validate s = (.ok (), s) ∧
      (∀ kind, s.graph.PlacedOnce kind) ∧
      ∀ (classify : Classifier) (keep : NameSet) (options : CleanupOptions),
        (let t := (outcome (clean classify keep options) s).2
          ∀ kind, t.graph.PlacedOnce kind ∧
            Entries.keys (t.graph.sites kind) = Entries.keys (s.graph.sites kind)) ∧
        ∀ w, (outcome (build classify keep options) s).1 = .ok w →
          w.Shows (outcome (clean classify keep options) s).2.graph ∧
          ∀ l ∈ w.transitions, ∃ r ∈ w.regions, l.name ∈ r.transitions ∧
            Entries.find? w.regionOfTransition l.name = some r.name ∧
            ∀ r' ∈ w.regions, l.name ∈ r'.transitions → r' = r := by
  intro s
  have hs : s.graph.Consistent := consistent_after (s := {}) fresh_consistent calls
  have hw : s.graph.WellPlaced := (wellPlaced_after calls h).1
  refine ⟨outcome_validate_of_wellPlaced hs hw, hw.placedOnce hs, fun classify keep options => ?_⟩
  obtain ⟨ht, hwt, hkeys⟩ :=
    wellPlaced_clean classify keep options hs hw
  refine ⟨fun kind => ⟨hwt.placedOnce ht kind, hkeys kind⟩, fun w hbuild => ?_⟩
  obtain rfl := world_of_build hs hbuild
  exact ⟨ht.shows_world, fun l hl => regionOfTransition_world ht hwt hl⟩

/-- A location behind a gate, a cleanup by a classifier that knows nothing, and an edge afterwards. -/
def gateCalls : List Call :=
  [.ingest { name := "Gate", logic := [{ conditions := {("Key" : Name)} }] },
    .ingest { name := "Chest", logic := [{ provider := some "Gate" }], handling := .location },
    .clean (fun _ => .error .noNode) ∅ {},
    .connect "Chest" .empty "Gate"]

/-- The world that is built then. -/
def gateWorld : World where
  regions := [{ name := "Menu", locations := ["Chest"] }, { name := "Chest" }]
  locations := [{ name := "Chest", logic := [{ items := {("Key" : Name)} }] }]
  transitions := []
  regionOfTransition := []

theorem placed_once_after_gateCalls :
    (gateCalls.Pairwise fun a b => a.cleans → ¬b.ingests) ∧
      outcome validate (Session.after {} gateCalls) = (.ok (), Session.after {} gateCalls) ∧
      (outcome (build (fun _ => .error .noNode) ∅ {}) (Session.after {} gateCalls)).1 = .ok gateWorld ∧
      gateWorld.Shows (outcome (clean (fun _ => .error .noNode) ∅ {}) (Session.after {} gateCalls)).2.graph := by
  have h : gateCalls.Pairwise fun a b => a.cleans → ¬b.ingests := by
    simp [gateCalls, Call.cleans, Call.ingests]
  have hbuild : (outcome (build (fun _ => .error .noNode) ∅ {}) (Session.after {} gateCalls)).1 =
      .ok gateWorld := by decide +kernel
  obtain ⟨hvalidate, -, hrest⟩ := placed_once_after_calls gateCalls h
  obtain ⟨-, hworld⟩ := hrest (fun _ => .error .noNode) ∅ {}
  exact ⟨h, hvalidate, hbuild, (hworld gateWorld hbuild).1⟩

end RegionLogic
