import RegionLogic.Proofs.Cleanup.Protection

/-!
# Cleaning up twice

A cleanup keeps the regions that some branch required when it began. Branches go on the way, so that in
the end fewer regions may be required, and a second cleanup can take out those that are not. Nothing else
is left for it: all lists of alternatives are as reduced and stripped as they can be, and no region can go
that was not to be kept.

## Main results

* `irreducible_of_clean`: the lists that are left cannot be reduced further
* `protectedRegions_subset_of_clean`: no more regions are to be kept than before
* `clean_again_after_calls`: when a second cleanup does nothing
-/

namespace RegionLogic

open Building RegionGraph

variable {classify : Classifier} {keep : NameSet} {options : CleanupOptions}
  {g g' : RegionGraph} {s t : Session} {report : CleanupReport} {n : Name}

/-! ## What a cleanup leaves -/

/-- No list of alternatives can be reduced or stripped any further. -/
theorem irreducible_of_clean (hg : s.graph.Consistent)
    (ho : outcome (clean classify keep options) s = (.ok report, t)) :
    ∀ l ∈ t.graph.logicLists,
      removeRedundant classify options.compareRegions l = ⟨l, [], none⟩ ∧ stripEmpty l = l := by
  intro l hl
  obtain ⟨hpairwise, hstrip⟩ := pairwise_of_clean hg ho hl
  exact ⟨eliminate_of_pairwise hpairwise, hstrip⟩

/-- No region is to be kept afterwards that was not to be kept before. -/
theorem protectedRegions_subset_of_clean (hg : s.graph.Consistent)
    (ho : outcome (clean classify keep options) s = (.ok report, t)) :
    t.graph.protectedRegions keep ⊆ s.graph.protectedRegions keep := by
  have hprotects := protects_clean classify keep options hg
  rw [ho] at hprotects
  intro n hn
  rcases mem_protectedRegions.1 hn with hn | hn | hn
  · exact mem_protectedRegions.2 (Or.inl hn)
  · exact mem_protectedRegions.2 (Or.inr (Or.inl hn))
  · exact mem_protectedRegions.2 (Or.inr (Or.inr (hprotects.requires_of_requires hn)))

/-- Where no list can be reduced or stripped and no region can go, a cleanup does nothing. -/
theorem clean_of_idle (hg : s.graph.Consistent)
    (hidle : Idle (s.graph.protectedRegions keep) options s.graph)
    (hlists : ∀ l ∈ s.graph.logicLists,
      removeRedundant classify options.compareRegions l = ⟨l, [], none⟩ ∧ stripEmpty l = l) :
    outcome (clean classify keep options) s = (.ok {}, s) := by
  have hsweep := outcome_sweep_of_irreducible fun l hl => (hlists l hl).1
  have hsimplify : outcome (simplify classify keep options) s = (.ok {}, s) := by
    rw [simplify, outcome_graph_bind, outcome_bind_of_ok hsweep, outcome_graph_bind]
    exact rounds_of_idle hg hidle _ _
  obtain ⟨g, hstrip, hrel⟩ := outcome_strip s
  have hgraph : g = s.graph := by
    refine Relists.eq ((hrel.and_left fun l hl => (hlists l hl).2).mono ?_)
    rintro l l' ⟨hl, hl'⟩
    rw [hl', hl]
  rw [clean, outcome_bind_of_ok hsimplify, outcome_bind_of_ok hstrip, hgraph]
  rfl

/-- After any calls, where the classifier knows the modifiers: a second cleanup with the same arguments
takes nothing out, drops nothing and leaves the graph as it is if and only if, of the regions that the
first one kept, none can go once only those regions are kept that are required then. No region is kept
then that was not kept before. -/
theorem clean_again_after_calls (calls : List Call) (classify : Classifier) (keep : NameSet)
    (options : CleanupOptions)
    (hclassify : (Session.after {} calls).graph.AllBranches
      (·.Modifies fun m => ∃ kind, classify m = .ok kind)) :
    let s := Session.after {} calls
    ∃ report t, outcome (clean classify keep options) s = (.ok report, t) ∧
      t.graph.protectedRegions keep ⊆ s.graph.protectedRegions keep ∧
      ((∃ t', outcome (clean classify keep options) t = (.ok {}, t') ∧ t'.graph = t.graph) ↔
        ∀ n ∈ s.graph.protectedRegions keep,
          ¬CanGo (t.graph.protectedRegions keep) options t.graph n) := by
  intro s
  have hg : s.graph.Consistent := consistent_after fresh_consistent calls
  obtain ⟨report, t, ho⟩ := exists_of_clean keep options hg hclassify
  have ht := consistent_of_clean hg ho
  refine ⟨report, t, ho, protectedRegions_subset_of_clean hg ho, ?_⟩
  constructor
  · rintro ⟨t', ho', hsame⟩ n -
    -- what the second cleanup leaves is idle, and it has left the graph as it was
    have hnot := not_canGo_of_clean (n := n) ht ho'
    rwa [hsame] at hnot
  · intro hlapsed
    have hidle : Idle (t.graph.protectedRegions keep) options t.graph := by
      refine (idle_iff ht).2 fun n hn => ?_
      by_cases hkept : n ∈ s.graph.protectedRegions keep
      · exact hlapsed n hkept hn
      · exact not_canGo_of_clean hg ho (hn.of_not_mem hkept)
    exact ⟨t, clean_of_idle ht hidle (irreducible_of_clean hg ho), rfl⟩

/-- A key that is free to take, or else from a ledge. -/
def ledgeCalls : List Call :=
  [.ingest { name := "Ledge", logic := [{}] },
    .ingest
      { name := "Key", logic := [{ conditions := {("Ledge/" : Name)} }, {}], handling := .location }]

theorem clean_again_after_ledgeCalls :
    let classify : Classifier := fun _ => .ok .neutral
    let s := Session.after {} ledgeCalls
    ∃ report t, outcome (clean classify ∅ {}) s = (.ok report, t) ∧
      t.graph.protectedRegions ∅ ⊆ s.graph.protectedRegions ∅ ∧
      ((∃ t', outcome (clean classify ∅ {}) t = (.ok {}, t') ∧ t'.graph = t.graph) ↔
        ∀ n ∈ s.graph.protectedRegions ∅, ¬CanGo (t.graph.protectedRegions ∅) {} t.graph n) :=
  clean_again_after_calls ledgeCalls _ ∅ {} fun _ _ _ _ _ _ => ⟨_, rfl⟩

/-- The ledge stays at first, since the dropped way to the key requires it. A second cleanup takes it out. -/
theorem clean_again_takes_ledge :
    let classify : Classifier := fun _ => .ok .neutral
    let t := (outcome (clean classify ∅ {}) (Session.after {} ledgeCalls)).2
    let t' := (outcome (clean classify ∅ {}) t).2
    (∃ report, outcome (clean classify ∅ {}) (Session.after {} ledgeCalls) = (.ok report, t)) ∧
      t.graph.names = [startRegion, "Ledge"] ∧
      (∃ report, outcome (clean classify ∅ {}) t = (.ok report, t') ∧ report.rounds = 1) ∧
      t'.graph.names = [startRegion] := by
  intro classify t t'
  have hfirst : (outcome (clean classify ∅ {}) (Session.after {} ledgeCalls)).1 =
      .ok { rounds := 1, merged := ["Key"], branches := 1 } := by decide +kernel
  have hsecond : (outcome (clean classify ∅ {}) t).1 = .ok { rounds := 1, merged := ["Ledge"] } := by
    decide +kernel
  have hnames : t.graph.names = [startRegion, "Ledge"] := by decide +kernel
  have hnames' : t'.graph.names = [startRegion] := by decide +kernel
  exact ⟨⟨_, Prod.ext hfirst rfl⟩, hnames, ⟨_, Prod.ext hsecond rfl, rfl⟩, hnames'⟩

end RegionLogic
