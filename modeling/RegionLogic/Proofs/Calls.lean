import RegionLogic.Proofs.Cleanup.Rounds
import RegionLogic.Proofs.Region.Construction
import RegionLogic.Proofs.Region.Placement
import RegionLogic.World.Basic

/-!
# Sequences of calls

A graph is worked on by calls, one after the other. A call that fails leaves what it has changed, and the
next call goes on from there. Every call keeps the graph consistent, so none of them comes upon a region
that is not there.

## Main definitions

* `Call`: the calls
* `Session.after`: the session that calls leave
* `World.Shows`: the world has the regions, the locations and the transitions of a graph

## Main results

* `consistent_afterCall`: one call
* `world_of_build`: a build hands on the graph that the cleanup leaves
* `consistent_after_calls`: any sequence of calls, and how a cleanup or a build can fail then
-/

namespace RegionLogic

/-- A call on a graph in work. -/
inductive Call where
  | ingest (o : LogicObject)
  /-- Adds a branch to an edge. -/
  | connect (parent : Name) (b : Branch) (target : Name)
  /-- Makes a region the start region. -/
  | relabel (name : Name)
  | validate
  | clean (classify : Classifier) (keep : NameSet) (options : CleanupOptions)
  /-- Hands the graph on as a world. -/
  | build (classify : Classifier) (keep : NameSet) (options : CleanupOptions)

namespace Call

/-- What a call does. -/
def perform : Call → Building Unit
  | ingest o => Building.ingest o
  | connect parent b target => do let _ ← Building.connect parent b target
  | relabel name => Building.relabelAsStart name
  | validate => Building.validate
  | clean classify keep options => do let _ ← Building.clean classify keep options
  | build classify keep options => do let _ ← Building.build classify keep options

end Call

/-- The session that a call leaves, whether it fails or not. -/
def Session.afterCall (s : Session) (c : Call) : Session := (Building.outcome c.perform s).2

/-- The session that calls leave. -/
def Session.after (s : Session) (calls : List Call) : Session := calls.foldl Session.afterCall s

/-- The locations or the transitions of a world. -/
def World.sites (w : World) : Placed → List Site
  | .locations => w.locations
  | .transitions => w.transitions

/-- The world shows a graph: it has its regions in order, each with the same exits and with the same things
placed in it, and what is declared in the graph. -/
structure World.Shows (w : World) (g : RegionGraph) : Prop where
  names : w.regions.map (·.name) = g.names
  exits : ∀ r ∈ w.regions, r.exits = g.exitsOf r.name
  placed : ∀ r ∈ w.regions, ∀ kind, r.placed kind = g.placedIn kind r.name
  sites : ∀ kind, (w.sites kind).map (fun l => (l.name, l)) = g.sites kind

open Building RegionGraph

variable {s : Session} {classify : Classifier} {keep : NameSet} {options : CleanupOptions}

/-- What is done with a result does not matter for the session. -/
theorem outcome_discard {α : Type} (m : Building α) (s : Session) :
    (outcome (do let _ ← m) s).2 = (outcome m s).2 := by
  rw [outcome_bind]
  rcases outcome m s with ⟨_ | _, _⟩ <;> rfl

/-! ## One call -/

/-- What the changes of a cleanup preserve holds after it, whether it fails or not. -/
theorem clean_preserves {I : RegionGraph → Prop}
    (hsound : ∀ {g}, I g → g.Consistent)
    (hremoval : ∀ {g n g'}, I g → Removal classify (s.graph.protectedRegions keep) g n g' → I g')
    (hrelists : ∀ {R g g'}, I g → Relists R g g' →
      (∀ {l l'}, R l l' → l' ⊆ l ∧ (l ≠ [] → l' ≠ [])) → I g')
    (habandoned : ∀ {g g'}, I g → Abandoned classify (s.graph.protectedRegions keep) g g' → I g')
    (hs : I s.graph) : I (outcome (clean classify keep options) s).2.graph := by
  have hends := simplify_ends_of_consistent classify keep options (hsound hs)
  -- the rounds preserve `I` however they end; stripping follows only if they succeed
  have hsimplified : I (outcome (simplify classify keep options) s).2.graph :=
    hends.preserves hremoval (fun hg h => hrelists hg h fun hl => ⟨hl.sublist.subset, hl.ne_nil⟩)
      habandoned hs
  rcases outcome_clean classify keep options s with
    ⟨fault, t, ht, ho⟩ | ⟨report, t, g, ht, hstrip, ho⟩
  · rw [ho]
    rwa [ht] at hsimplified
  · rw [ho]
    rw [ht] at hsimplified
    refine hrelists hsimplified hstrip fun hl => ?_
    subst hl
    exact ⟨stripEmpty_subset _, stripEmpty_ne_nil⟩

theorem graph_build :
    (outcome (build classify keep options) s).2.graph =
      match outcome validate s with
      | (.ok _, t) => (outcome (clean classify keep options) t).2.graph
      | (.error _, t) => t.graph := by
  rw [build, outcome_bind]
  rcases outcome validate s with ⟨_ | _, t⟩
  · rfl
  · dsimp only
    rw [outcome_bind]
    rcases outcome (clean classify keep options) t with ⟨_ | _, _⟩ <;> rfl

theorem Abandoned.consistent {kept : NameSet} {g g' : RegionGraph}
    (h : Abandoned classify kept g g') (hg : g.Consistent) (hstart : startRegion ∈ kept) :
    g'.Consistent := by
  obtain ⟨_, _, _, hw⟩ :=
    h.exists_rewires hg allBranches_true (fun _ _ => trivial) hstart
  exact hw.consistent

theorem consistent_clean (hs : s.graph.Consistent) :
    (outcome (clean classify keep options) s).2.graph.Consistent :=
  have hstart := start_mem_protectedRegions keep s.graph
  clean_preserves (fun hg => hg) (fun hg h => h.consistent hg hstart)
    (fun hg h hR => hg.relists h fun hl => (hR hl).2) (fun hg h => h.consistent hg hstart) hs

theorem consistent_of_clean {t : Session} {report : CleanupReport} (hs : s.graph.Consistent)
    (ho : outcome (clean classify keep options) s = (.ok report, t)) : t.graph.Consistent := by
  have hclean : (outcome (clean classify keep options) s).2.graph.Consistent := consistent_clean hs
  rwa [ho] at hclean

/-- Every call keeps the graph consistent, whether it fails or not. -/
theorem consistent_afterCall (hs : s.graph.Consistent) (c : Call) :
    (s.afterCall c).graph.Consistent := by
  unfold Session.afterCall Call.perform
  cases c with
  | ingest o =>
    exact ingest_preserves (fun g hg => hg.place o) (fun g b hg => hg.addTransitionLogic o.name b)
      (fun g p b hg => hg.addEdge (by simp) p o.name) hs
  | connect parent b target => exact hs.addEdge (by simp) parent target
  | relabel name =>
    dsimp only
    by_cases hname : s.graph.Relabelable name
    · rw [outcome_relabelAsStart hs hname]
      exact hs.relabelled hname.ne_start
    · obtain ⟨cause, ho⟩ := outcome_relabelAsStart_of_not hname
      rwa [ho]
  | validate =>
    rcases outcome_validate hs with ho | ⟨fault, ho, -⟩ <;>
    · dsimp only
      rwa [ho]
  | clean classify keep options =>
    dsimp only
    rw [outcome_discard]
    exact consistent_clean hs
  | build classify keep options =>
    dsimp only
    rw [outcome_discard, graph_build]
    rcases outcome_validate hs with ho | ⟨fault, ho, -⟩
    · rw [ho]
      exact consistent_clean hs
    · rwa [ho]

/-! ## Failures -/

/-- A cleanup of a consistent graph fails where the classifier does. -/
theorem clean_fault (classify : Classifier) (keep : NameSet) (options : CleanupOptions)
    (hs : s.graph.Consistent) :
    (∃ report, (outcome (clean classify keep options) s).1 = .ok report) ∨
      ∃ fault, (outcome (clean classify keep options) s).1 = .error fault ∧
        ∃ m, classify m = .error fault := by
  -- nothing need be known of the modifiers
  have hsound : s.graph.Sound (·.Modifies fun _ => True) := ⟨hs, fun _ _ _ _ _ _ => trivial⟩
  rcases clean_ends classify keep options hsound with ⟨report, t, ho⟩ | ⟨fault, t, ho, m, -, hm⟩
  · exact Or.inl ⟨report, by rw [ho]⟩
  · exact Or.inr ⟨fault, by rw [ho], m, hm⟩

/-- A build from a consistent graph fails where the placement is not sound or the classifier fails. -/
theorem build_fault (hs : s.graph.Consistent) :
    (∃ w, (outcome (build classify keep options) s).1 = .ok w) ∨
      ∃ fault, (outcome (build classify keep options) s).1 = .error fault ∧
        ((∃ causes, fault = .placement causes) ∨ (∃ m, classify m = .error fault) ∨
          (∃ cause, fault = .shape cause) ∧ s.graph.HasOddName) := by
  rw [build]
  rcases outcome_validate hs with ho | ⟨fault, ho, hfault⟩
  · rw [outcome_bind_of_ok ho, outcome_bind]
    rcases clean_fault classify keep options hs with
      ⟨report, hreport⟩ | ⟨fault, hfault, hm⟩
    · rcases h : outcome (clean classify keep options) s with ⟨r, t⟩
      obtain rfl : r = .ok report := by rw [← hreport, h]
      exact Or.inl ⟨_, rfl⟩
    · rcases h : outcome (clean classify keep options) s with ⟨r, t⟩
      obtain rfl : r = .error fault := by rw [← hfault, h]
      exact Or.inr ⟨fault, rfl, Or.inr (Or.inl hm)⟩
  · rw [outcome_bind_of_error ho]
    refine Or.inr ⟨fault, rfl, ?_⟩
    rcases hfault with hcauses | hodd
    · exact Or.inl hcauses
    · exact Or.inr (Or.inr hodd)

/-! ## The world that is handed on -/

/-- A graph is shown by its world, since regions, locations and transitions are kept under their own
names. -/
theorem RegionGraph.Consistent.shows_world {g : RegionGraph} (hg : g.Consistent) : g.world.Shows g := by
  have hregion {r : Region} (hr : r ∈ g.world.regions) : g.region? r.name = some r := by
    obtain ⟨⟨n, r⟩, hmem, rfl⟩ := List.mem_map.1 hr
    have hfind := (find?_eq_some_iff_mem hg.names_nodup).2 hmem
    exact (hg.name_eq hfind).symm ▸ hfind
  have hnames : (g.placements .locations).map (·.1) = g.names := hg.keyed.map_fst_placements
  refine ⟨?_, fun r hr => ?_, fun r hr kind => ?_, fun kind => ?_⟩
  · rw [← hnames, placements, world, List.map_map, List.map_map]
    rfl
  · exact (exitsOf_of_region? (hregion hr)).symm
  · exact (placedIn_of_region? (hregion hr) kind).symm
  · have hsites : g.world.sites kind = (g.sites kind).map (·.2) := by cases kind <;> rfl
    rw [hsites, List.map_map]
    refine (List.map_congr_left fun l hl => ?_).trans (List.map_id _)
    have hname := hg.site_name ((find?_eq_some_iff_mem (hg.keys_sites_nodup kind)).2 hl)
    exact Prod.ext hname rfl

/-- A build hands on the graph that the cleanup leaves. -/
theorem world_of_build {w : World} (hs : s.graph.Consistent)
    (h : (outcome (build classify keep options) s).1 = .ok w) :
    w = (outcome (clean classify keep options) s).2.graph.world := by
  rw [build] at h
  rcases outcome_validate hs with hvalidate | ⟨fault, hvalidate, -⟩
  · rw [outcome_bind_of_ok hvalidate, outcome_bind] at h
    rcases hclean : outcome (clean classify keep options) s with ⟨fault | report, t⟩
    · rw [hclean] at h
      cases h
    · rw [hclean] at h
      exact (Except.ok.inj h).symm
  · rw [outcome_bind_of_error hvalidate] at h
    cases h

/-! ## All calls -/

theorem consistent_after (hs : s.graph.Consistent) (calls : List Call) :
    (s.after calls).graph.Consistent := by
  induction calls generalizing s with
  | nil => exact hs
  | cons c calls ih => exact ih (consistent_afterCall hs c)

/-- After any calls the graph is consistent. A cleanup then fails only where the classifier does, and a
build only if the placement is not sound or the classifier fails. The problems of the placement are the
fault, unless a name that is no text is in the way of listing them. -/
theorem consistent_after_calls (calls : List Call) :
    let s : Session := Session.after {} calls
    s.graph.Consistent ∧
      ∀ (classify : Classifier) (keep : NameSet) (options : CleanupOptions),
        ((∃ report, (outcome (clean classify keep options) s).1 = .ok report) ∨
          ∃ fault, (outcome (clean classify keep options) s).1 = .error fault ∧
            ∃ m, classify m = .error fault) ∧
        ((∃ w, (outcome (build classify keep options) s).1 = .ok w) ∨
          ∃ fault, (outcome (build classify keep options) s).1 = .error fault ∧
            ((∃ causes, fault = .placement causes) ∨ (∃ m, classify m = .error fault) ∨
              (∃ cause, fault = .shape cause) ∧ s.graph.HasOddName)) := by
  have hs := consistent_after (s := {}) fresh_consistent calls
  exact ⟨hs, fun classify keep options => ⟨clean_fault classify keep options hs, build_fault hs⟩⟩

end RegionLogic
