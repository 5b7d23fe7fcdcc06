import RegionLogic.Proofs.Calls
import RegionLogic.Proofs.Cleanup.Idle

/-!
# What a cleanup leaves

Each of the ways in which a region goes makes room for the others, and all of them change the lists of
alternatives. When the rounds have ended no region can go in any of the ways, and every list has been swept
since it was last changed. Stripping the lists of empty branches at the very end changes neither: it
conditions no edge that was unconditional and frees none that was not.

## Main definitions

* `Simplified`: a graph without any leftover

## Main results

* `simplified_of_clean`: a cleanup leaves none
* `simplified_after_calls`: a cleanup after any calls
-/

namespace RegionLogic

/-- The graph `g` has no leftover that a cleanup with the given options looks for. The regions that satisfy
`P` stay in any case. -/
structure Simplified (classify : Classifier) (P : Name → Prop) (options : CleanupOptions)
    (g : RegionGraph) : Prop where
  /-- No other region that has neither exits nor transitions has a single entrance. -/
  leaves : ∀ n ∈ g.names, ¬P n → g.exitsOf n = [] → g.placedIn .transitions n = [] →
    (g.parentsOf n).length ≠ 1
  /-- Exits that lead from one region to another and back are not both unconditional, unless both regions
  have to stay. -/
  neighbours : options.mergeCycles → ∀ {p q e e'}, p ≠ q → ¬(P p ∧ P q) →
    e ∈ g.exitsOf p → e.target = q → e' ∈ g.exitsOf q → e'.target = p →
    ¬((∀ b ∈ e.logic, b = .empty) ∧ ∀ b ∈ e'.logic, b = .empty)
  /-- No other region in which nothing is placed has an entrance, unless it leads to itself. -/
  empties : options.removeEmpty → ∀ n ∈ g.names, ¬P n → (∀ kind, g.placedIn kind n = []) →
    g.parentsOf n = [] ∨ n ∈ g.parentsOf n
  /-- No branch dominates another one in its list. -/
  independent : ∀ l ∈ g.logicLists, l.Pairwise fun a b =>
    dominates classify options.compareRegions a b = .ok false ∧
      dominates classify options.compareRegions b a = .ok false
  /-- An empty branch is the only one in its list. -/
  alone : ∀ l ∈ g.logicLists, .empty ∈ l → l = [.empty]

open Building RegionGraph

variable {classify : Classifier} {kept keep : NameSet} {options : CleanupOptions} {g : RegionGraph}
  {s t : Session} {report : CleanupReport} {n p q : Name}

/-! ## Regions that cannot go -/

theorem length_parentsOf_ne_one (h : ¬CanGo kept options g n) (hn : n ∉ kept) (he : g.exitsOf n = [])
    (ht : g.placedIn .transitions n = []) : (g.parentsOf n).length ≠ 1 := by
  intro hone
  obtain ⟨p, hp⟩ := List.length_eq_one_iff.1 hone
  apply h
  exact Or.inl ⟨p, ⟨hn, he, ht, hp⟩⟩

/-- A region that cannot be joined to another one is not connected with it by unconditional exits. -/
theorem not_free_of_not_canGo (hg : g.Consistent) (h : ¬CanGo kept options g q)
    (hcycles : options.mergeCycles) (hne : p ≠ q) (hq : q ∉ kept) {e e' : Exit} (he : e ∈ g.exitsOf p)
    (ht : e.target = q) (he' : e' ∈ g.exitsOf q) (ht' : e'.target = p) :
    ¬((∀ b ∈ e.logic, b = .empty) ∧ ∀ b ∈ e'.logic, b = .empty) := by
  rintro ⟨hfree, hfree'⟩
  subst ht ht'
  apply h
  refine Or.inr (Or.inl ⟨hcycles, e'.target, ?_⟩)
  -- there is one exit each way, so that its alternatives are all there are
  exact {
    not_kept := hq
    ne := hne.symm
    out := target_mem_targetsOf he
    back := target_mem_targetsOf he'
    out_free := fun {b} hb => hfree b ((hg.way_target_iff he).1 hb)
    back_free := fun {b} hb => hfree' b ((hg.way_target_iff he').1 hb) }

theorem parentsOf_of_not_canGo (h : ¬CanGo kept options g n) (hempty : options.removeEmpty) (hn : n ∉ kept)
    (hplaced : ∀ kind, g.placedIn kind n = []) : g.parentsOf n = [] ∨ n ∈ g.parentsOf n := by
  by_contra hnot
  rw [not_or] at hnot
  apply h
  exact Or.inr (Or.inr ⟨hempty, hn, hplaced, hnot.1, hnot.2⟩)

/-! ## After a cleanup -/

/-- A cleanup leaves nothing that it looks for. -/
theorem simplified_of_clean (hg : s.graph.Consistent)
    (ho : outcome (clean classify keep options) s = (.ok report, t)) :
    Simplified classify (· ∈ s.graph.protectedRegions keep) options t.graph := by
  have ht := consistent_of_clean hg ho
  have hnot (n : Name) : ¬CanGo (s.graph.protectedRegions keep) options t.graph n :=
    not_canGo_of_clean hg ho
  refine {
    leaves := fun n _ hn => length_parentsOf_ne_one (hnot n) hn
    neighbours := ?_
    empties := fun hempty n _ hn => parentsOf_of_not_canGo (hnot n) hempty hn
    independent := fun l hl => (pairwise_of_clean hg ho hl).1
    alone := ?_ }
  · intro hcycles p q e e' hne hstay he htarget he' htarget'
    -- either region can be joined to the other one, unless it has to stay
    by_cases hq : q ∈ s.graph.protectedRegions keep
    · have hp : p ∉ s.graph.protectedRegions keep := fun hp => hstay ⟨hp, hq⟩
      rw [and_comm]
      exact not_free_of_not_canGo ht (hnot p) hcycles hne.symm hp he' htarget' he htarget
    · exact not_free_of_not_canGo ht (hnot q) hcycles hne hq he htarget he' htarget'
  · intro l hl hmem
    obtain ⟨-, hstrip⟩ := pairwise_of_clean hg ho hl
    rw [← hstrip] at hmem ⊢
    exact stripEmpty_eq_singleton hmem

/-- After any calls, where the classifier knows the modifiers, a cleanup succeeds and leaves nothing that
it looks for. The start region, the listed regions and those that some branch required before stay. -/
theorem simplified_after_calls (calls : List Call) (classify : Classifier) (keep : NameSet)
    (options : CleanupOptions)
    (hclassify : (Session.after {} calls).graph.AllBranches
      (·.Modifies fun m => ∃ kind, classify m = .ok kind)) :
    let s := Session.after {} calls
    ∃ report t, outcome (clean classify keep options) s = (.ok report, t) ∧
      Simplified classify (fun n => n = startRegion ∨ n ∈ keep ∨ s.graph.Requires n) options t.graph := by
  intro s
  have hg : s.graph.Consistent := consistent_after fresh_consistent calls
  obtain ⟨report, t, ho⟩ := exists_of_clean keep options hg hclassify
  refine ⟨report, t, ho, ?_⟩
  have hP : (fun n => n = startRegion ∨ n ∈ keep ∨ s.graph.Requires n) =
      (· ∈ s.graph.protectedRegions keep) := funext fun n => propext mem_protectedRegions.symm
  rw [hP]
  exact simplified_of_clean hg ho

/-- A yard and a lane that lead to each other, and a vault behind both, from the yard with a lamp only. -/
def yardCalls : List Call :=
  [.ingest { name := "Yard", logic := [{ conditions := {("Key" : Name)} }] },
    .connect "Yard" .empty "Lane", .connect "Lane" .empty "Yard",
    .ingest
      { name := "Vault",
        logic := [{ provider := some "Lane" },
          { provider := some "Yard", conditions := {("Lamp" : Name)} }],
        handling := .transition }]

theorem simplified_after_yardCalls :
    let classify : Classifier := fun _ => .ok .neutral
    let options : CleanupOptions := ⟨true, true, true⟩
    let s := Session.after {} yardCalls
    ∃ report t, outcome (clean classify ∅ options) s = (.ok report, t) ∧
      report = { rounds := 2, absorbed := ["Lane"], removed := ["Yard"], branches := 1 } ∧
      Simplified classify (fun n => n = startRegion ∨ n ∈ (∅ : NameSet) ∨ s.graph.Requires n) options
        t.graph := by
  intro classify options s
  obtain ⟨report, t, ho, hsimplified⟩ :=
    simplified_after_calls yardCalls classify ∅ options fun _ _ _ _ _ _ => ⟨_, rfl⟩
  have hreport : (outcome (clean classify ∅ options) s).1 =
      .ok { rounds := 2, absorbed := ["Lane"], removed := ["Yard"], branches := 1 } := by decide +kernel
  rw [ho] at hreport
  exact ⟨report, t, ho, Except.ok.inj hreport, hsimplified⟩

end RegionLogic
