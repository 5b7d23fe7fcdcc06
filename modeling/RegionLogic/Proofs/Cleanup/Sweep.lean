import RegionLogic.Proofs.Region.Ways
import RegionLogic.Proofs.Requirement.Dominance
import RegionLogic.Region.Cleanup

/-!
# Sweeps

A sweep reduces every list of alternatives to what an elimination leaves of it. If the classifier fails
on the way, the lists that have not been reached stay as they are. The last step of a cleanup strips the
lists of empty branches.

## Main definitions

* `Swept`, `Settled`: a list after a sweep, and after a sweep without a failure
* `Classifier.Fails`: a failure of the classifier

## Main results

* `mem_stripEmpty`: what stripping leaves of a list
* `outcome_sweep`: how a sweep ends
* `outcome_sweep_of_irreducible`: a sweep over lists that cannot be reduced
* `outcome_strip`: what the last step leaves
-/

namespace RegionLogic

/-- A list of alternatives after a sweep: it has been reduced or stays as it is. -/
def Swept (classify : Classifier) (compareRegions : Bool) (l l' : List Branch) : Prop :=
  l' = (removeRedundant classify compareRegions l).kept ∨ l' = l

/-- A list of alternatives after a sweep that has not failed. -/
def Settled (classify : Classifier) (compareRegions : Bool) (l l' : List Branch) : Prop :=
  l' = (removeRedundant classify compareRegions l).kept ∧
    (removeRedundant classify compareRegions l).fault = none

/-- The classifier fails with `fault` on a modifier that satisfies `P`. -/
def Classifier.Fails (classify : Classifier) (P : Name → Prop) (fault : Fault) : Prop :=
  ∃ m, P m ∧ classify m = .error fault

/-- The modifiers of a branch satisfy `P`. -/
def Branch.Modifies (P : Name → Prop) (b : Branch) : Prop := ∀ m ∈ b.modifiers, P m

variable {classify : Classifier} {compareRegions : Bool} {l l' : List Branch}

theorem Settled.swept (h : Settled classify compareRegions l l') :
    Swept classify compareRegions l l' :=
  Or.inl h.1

theorem Swept.sublist (h : Swept classify compareRegions l l') : l'.Sublist l := by
  rcases h with rfl | rfl
  · exact eliminate_sublist _ l
  · exact .refl _

theorem Swept.ne_nil (h : Swept classify compareRegions l l') (hl : l ≠ []) : l' ≠ [] := by
  rcases h with rfl | rfl
  · exact kept_ne_nil hl
  · exact hl

/-! ## One list -/

theorem run_sweepList (s : Sweep) :
    (sweepList classify compareRegions l).run s =
      if s.fault.isSome then (l, s)
      else
        let e := removeRedundant classify compareRegions l
        (e.kept, ⟨s.dropped ++ e.dropped, e.fault⟩) := by
  show StateT.run (if s.fault.isSome = true then _ else _) s = _
  split <;> rfl

theorem sweepList_yields_swept (l : List Branch) :
    Yields (fun _ => True) (Swept classify compareRegions l) (sweepList classify compareRegions l) := by
  intro s _
  rw [run_sweepList]
  refine ⟨trivial, ?_⟩
  split
  · exact Or.inr rfl
  · exact Or.inl rfl

theorem sweepList_yields_settled (l : List Branch) :
    Yields (fun s => s.fault = none) (Settled classify compareRegions l)
      (sweepList classify compareRegions l) := by
  intro s hs
  rw [run_sweepList] at hs ⊢
  split at hs
  · next h => exact absurd h (Option.not_isSome_iff_eq_none.2 hs)
  · next h => exact ⟨Option.not_isSome_iff_eq_none.1 h, by rw [if_neg h]; exact ⟨rfl, hs⟩⟩

/-- A failure on a list is one on the modifiers of its branches. -/
theorem fails_of_sweepList {P : Name → Prop} (hl : ∀ b ∈ l, b.Modifies P) {s : Sweep}
    (hs : ∀ fault, s.fault = some fault → classify.Fails P fault) {fault : Fault}
    (h : ((sweepList classify compareRegions l).run s).2.fault = some fault) :
    classify.Fails P fault := by
  rw [run_sweepList] at h
  split at h
  · exact hs fault h
  · obtain ⟨b, hb, m, hm, hfault⟩ := exists_fault_of_removeRedundant h
    exact ⟨m, hl b hb m hm, hfault⟩

/-! ## Stripping -/

/-- What is left of a list are the branches that are not empty, or else one empty branch. -/
theorem mem_stripEmpty {b : Branch} :
    b ∈ stripEmpty l ↔ b ∈ l ∧ (b ≠ .empty ∨ ∀ c ∈ l, c = .empty) := by
  have hfilter (c : Branch) : c ∈ l.filter (!·.isEmpty) ↔ c ∈ l ∧ c ≠ .empty := by
    simp [← Branch.isEmpty_iff]
  have hempty : (l.filter (!·.isEmpty)).isEmpty = true ↔ ∀ c ∈ l, c = .empty := by
    simp [List.isEmpty_iff, Branch.isEmpty_iff]
  unfold stripEmpty
  dsimp only
  by_cases hall : ∀ c ∈ l, c = .empty
  · rw [if_pos (hempty.2 hall)]
    refine ⟨fun hb => ⟨List.mem_of_mem_take hb, Or.inr hall⟩, ?_⟩
    rintro ⟨hb, -⟩
    -- all branches are the same, so the first one is any of them
    cases l with
    | nil => cases hb
    | cons c l => simp [hall b hb, hall c (by simp)]
  · rw [if_neg (hempty.not.2 hall), hfilter, or_iff_left hall]

theorem stripEmpty_subset (l : List Branch) : stripEmpty l ⊆ l := fun _ hb => (mem_stripEmpty.1 hb).1

theorem stripEmpty_sublist (l : List Branch) : (stripEmpty l).Sublist l := by
  unfold stripEmpty
  dsimp only
  split
  · exact List.take_sublist 1 l
  · exact List.filter_sublist

/-- A list that has been stripped stays as it is. -/
theorem stripEmpty_stripEmpty (l : List Branch) : stripEmpty (stripEmpty l) = stripEmpty l := by
  by_cases hall : l.filter (!·.isEmpty) = []
  · have hone : stripEmpty l = l.take 1 := by simp [stripEmpty, hall]
    -- the branch that stays is one of those that are empty
    have hnone : (l.take 1).filter (!·.isEmpty) = [] := by
      rw [List.filter_eq_nil_iff] at hall ⊢
      exact fun b hb => hall b (List.mem_of_mem_take hb)
    rw [hone, stripEmpty, hnone]
    simp [List.take_take]
  · have hleft : stripEmpty l = l.filter (!·.isEmpty) := by simp [stripEmpty, hall]
    rw [hleft, stripEmpty, List.filter_filter]
    simp [hall]

theorem stripEmpty_ne_nil (h : l ≠ []) : stripEmpty l ≠ [] := by
  by_cases hall : ∀ c ∈ l, c = .empty
  · obtain ⟨b, hb⟩ := List.exists_mem_of_ne_nil l h
    exact List.ne_nil_of_mem (mem_stripEmpty.2 ⟨hb, Or.inr hall⟩)
  · simp only [not_forall] at hall
    obtain ⟨b, hb, hne⟩ := hall
    exact List.ne_nil_of_mem (mem_stripEmpty.2 ⟨hb, Or.inl hne⟩)

/-- An empty branch stays only where nothing else does. -/
theorem stripEmpty_eq_singleton (h : .empty ∈ stripEmpty l) : stripEmpty l = [.empty] := by
  obtain ⟨hmem, hne | hall⟩ := mem_stripEmpty.1 h
  · exact absurd rfl hne
  · have hnone : l.filter (!·.isEmpty) = [] := by
      rw [List.filter_eq_nil_iff]
      intro b hb
      simp [hall b hb, Branch.isEmpty_iff]
    have hone : stripEmpty l = l.take 1 := by simp [stripEmpty, hnone]
    rw [hone]
    -- all branches are empty, so the first of them is the one that stays
    cases l with
    | nil => cases hmem
    | cons b l => simp [hall b List.mem_cons_self]

/-! ## The whole graph -/

namespace Building

open RegionGraph

variable {options : CleanupOptions} {s : Session}

/-- A sweep reduces every list, or it ends at a failure of the classifier. -/
theorem outcome_sweep (classify : Classifier) (options : CleanupOptions) {P : Name → Prop}
    (hall : s.graph.AllBranches (·.Modifies P)) :
    (∃ n g events, outcome (sweep classify options) s = (.ok n, ⟨g, events⟩) ∧
        Relists (Settled classify options.compareRegions) s.graph g) ∨
      ∃ fault g events, outcome (sweep classify options) s = (.error fault, ⟨g, events⟩) ∧
        Relists (Swept classify options.compareRegions) s.graph g ∧ classify.Fails P fault := by
  rw [sweep, outcome_graph_bind]
  dsimp only
  cases hfault : ((s.graph.traverseLogic
    (sweepList classify options.compareRegions)).run {}).2.fault with
  | some fault =>
    refine Or.inr ⟨fault, _, _, rfl, ?_, ?_⟩
    · exact (traverseLogic_yields (fun l _ => sweepList_yields_swept l) {} trivial).2
    · exact traverseLogic_preserves
        (I := fun s : Sweep => ∀ fault, s.fault = some fault → classify.Fails P fault)
        (fun l hl _ hs _ => fails_of_sweepList (hall l hl) hs) (fun _ h => by cases h) fault hfault
  | none =>
    exact Or.inl ⟨_, _, _, rfl,
      (traverseLogic_yields (fun l _ => sweepList_yields_settled l) {} hfault).2⟩

/-- A sweep that does not fail reduces every list. -/
theorem relists_of_sweep {t : Session} {n : Nat} (ho : outcome (sweep classify options) s = (.ok n, t)) :
    Relists (Settled classify options.compareRegions) s.graph t.graph := by
  have hall : s.graph.AllBranches (·.Modifies fun _ => True) := fun _ _ _ _ _ _ => trivial
  rcases outcome_sweep classify options hall with
    ⟨_, g, events, hsweep, hrel⟩ | ⟨fault, g, events, hsweep, -, -⟩
  · obtain ⟨-, rfl⟩ := Prod.mk.inj (hsweep.symm.trans ho)
    exact hrel
  · cases hsweep.symm.trans ho

/-- A sweep does nothing where no list can be reduced. -/
theorem outcome_sweep_of_irreducible
    (h : ∀ l ∈ s.graph.logicLists,
      removeRedundant classify options.compareRegions l = ⟨l, [], none⟩) :
    outcome (sweep classify options) s = (.ok 0, s) := by
  have hstep : ∀ l ∈ s.graph.logicLists, (sweepList classify options.compareRegions l).run {} = (l, {}) := by
    intro l hl
    rw [run_sweepList, h l hl]
    rfl
  have hstate : ((s.graph.traverseLogic (sweepList classify options.compareRegions)).run {}).2 = {} := by
    refine traverseLogic_preserves (I := fun s : Sweep => s = {}) (fun l hl s hs => ?_) rfl
    rw [hs, hstep l hl]
  have hgraph : ((s.graph.traverseLogic (sweepList classify options.compareRegions)).run {}).1 =
      s.graph := by
    have hyields : ∀ l ∈ s.graph.logicLists, Yields (fun s : Sweep => s.fault = none)
        (Settled classify options.compareRegions l) (sweepList classify options.compareRegions l) :=
      fun l _ => sweepList_yields_settled l
    have hrel := (traverseLogic_yields hyields {} (by rw [hstate])).2
    refine Relists.eq ((hrel.and_left h).mono ?_)
    rintro l l' ⟨hl, hl', -⟩
    rw [hl', hl]
  rw [sweep, outcome_graph_bind]
  dsimp only
  rw [hstate, hgraph]
  show (Except.ok 0, Session.mk s.graph (s.events ++ droppedEvents [])) = _
  rw [show droppedEvents [] = [] from rfl, List.append_nil]

/-- The last step strips every list. -/
theorem outcome_strip (s : Session) :
    ∃ g, outcome strip s = (.ok (), { s with graph := g }) ∧
      Relists (fun l l' => l' = stripEmpty l) s.graph g :=
  ⟨_, rfl, traverseLogic_run stripEmpty s.graph⟩

end Building

end RegionLogic
