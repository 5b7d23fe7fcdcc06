import RegionLogic.Proofs.Fallible
import RegionLogic.Proofs.Region.Ways
import RegionLogic.Proofs.Requirement.Dominance
import RegionLogic.Region.Cleanup

/-!
# Leading the entrances of an empty region round it

Every way into an empty region is continued by every way out of it. A way that would lead back to where
it started is laid only for the branches that are worth a round trip, and to find them the modifiers are
classified. If the classifier fails the graph stays as far as it has been changed.

## Main definitions

* `Passage`, `RegionGraph.passages`: the ways through a region
* `RegionGraph.addDetour`: the graph with a further edge round a region
* `RegionGraph.bypassed`: the graph with all entrances of a region led round it

## Main results

* `mem_detour`: the branches of an edge round a region
* `Consistent.way_bypassed`: the ways afterwards
* `Consistent.rewires_detours`: the graph stays consistent
-/

namespace RegionLogic

/-! ## The branches of a detour -/

section Detour

variable {classify : Classifier} {parent : Name} {entrance : List Branch} {e : Exit}
  {o : Option (List Branch)} {b : Branch}

/-- A branch is worth a round trip: it has modifiers, and they are not detrimental. -/
def Branch.Useful (classify : Classifier) (b : Branch) : Prop :=
  b.modifiers ≠ [] ∧ ∃ k, classify.many b.modifiers = .ok k ∧ k ≠ .detrimental

/-- The test of a branch that leads back to where it started. -/
def usefulTest (classify : Classifier) (b : Branch) : Except Fault Bool := do
  if b.modifiers.isEmpty then return false
  return (← classify.many b.modifiers) ≠ .detrimental

theorem usefulTest_eq_ok_true : usefulTest classify b = .ok true ↔ b.Useful classify := by
  unfold usefulTest Branch.Useful
  by_cases h : b.modifiers = []
  · simp only [h, List.isEmpty_nil, if_true, ne_eq, not_true_eq_false, false_and, iff_false]
    rintro ⟨⟩
  · simp only [List.isEmpty_iff, h, if_false, ne_eq, not_false_eq_true, true_and]
    rw [bind_eq_ok]
    refine exists_congr fun k => and_congr_right fun _ => ?_
    show Except.ok (decide (k ≠ .detrimental)) = .ok true ↔ _
    simp

theorem exists_fault_of_usefulTest {fault : Fault} (h : usefulTest classify b = .error fault) :
    ∃ m ∈ b.modifiers, classify m = .error fault := by
  unfold usefulTest at h
  split at h
  · cases h
  · rcases bind_eq_error.1 h with h | ⟨k, -, h⟩
    · exact exists_fault_of_many h
    · cases h

theorem detour_of_eq (h : parent = e.target) :
    Building.detour classify parent entrance e =
      (distribute entrance e.logic).filterM (usefulTest classify) >>= fun useful =>
        pure (if useful.isEmpty then none else some useful) :=
  if_pos h

theorem detour_of_ne (h : parent ≠ e.target) :
    Building.detour classify parent entrance e = .ok (some (distribute entrance e.logic)) :=
  if_neg h

/-- The branches of an edge round a region. -/
theorem mem_detour (h : Building.detour classify parent entrance e = .ok o) :
    b ∈ o.getD [] ↔
      b ∈ distribute entrance e.logic ∧ (parent = e.target → b.Useful classify) := by
  by_cases ht : parent = e.target
  · rw [detour_of_eq ht] at h
    obtain ⟨useful, hfilter, ho⟩ := bind_eq_ok.1 h
    have hgetD : o.getD [] = useful := by
      rw [← Except.ok.inj ho]
      cases useful <;> rfl
    simp [hgetD, mem_filterM hfilter, usefulTest_eq_ok_true, ht]
  · rw [detour_of_ne ht] at h
    simp [← Except.ok.inj h, ht]

/-- A round trip that is not laid changes nothing or is detrimental. -/
theorem modifiers_of_not_useful (h : Building.detour classify parent entrance e = .ok o)
    (ht : parent = e.target) (hb : b ∈ distribute entrance e.logic) (hu : ¬b.Useful classify) :
    b.modifiers = [] ∨ classify.many b.modifiers = .ok .detrimental := by
  rw [detour_of_eq ht] at h
  obtain ⟨useful, hfilter, -⟩ := bind_eq_ok.1 h
  obtain ⟨v, hv⟩ := exists_ok_of_filterM hfilter hb
  by_cases hm : b.modifiers = []
  · exact Or.inl hm
  · simp only [usefulTest, List.isEmpty_iff, hm, if_false] at hv
    obtain ⟨k, hk, -⟩ := bind_eq_ok.1 hv
    have hkind : k = .detrimental := Decidable.byContradiction fun hne => hu ⟨hm, k, hk, hne⟩
    exact Or.inr (hkind ▸ hk)

/-- An edge round a region has a branch. -/
theorem detour_ne_nil (hne : e.logic ≠ []) :
    Building.detour classify parent entrance e ≠ .ok (some []) := by
  intro h
  by_cases ht : parent = e.target
  · rw [detour_of_eq ht] at h
    obtain ⟨useful, -, ho⟩ := bind_eq_ok.1 h
    have ho := Except.ok.inj ho
    cases useful with
    | nil => cases ho
    | cons b useful => cases ho
  · rw [detour_of_ne ht] at h
    exact distribute_ne_nil hne (Option.some.inj (Except.ok.inj h))

theorem exists_fault_of_detour {fault : Fault}
    (h : Building.detour classify parent entrance e = .error fault) :
    ∃ b ∈ distribute entrance e.logic, ∃ m ∈ b.modifiers, classify m = .error fault := by
  by_cases ht : parent = e.target
  · rw [detour_of_eq ht] at h
    rcases bind_eq_error.1 h with h | ⟨_, -, h⟩
    · obtain ⟨b, hb, hfault⟩ := exists_error_of_filterM h
      exact ⟨b, hb, exists_fault_of_usefulTest hfault⟩
    · cases h
  · rw [detour_of_ne ht] at h
    cases h

end Detour

/-- A way through a region: an entrance of it and one of its exits. -/
structure Passage where
  /-- The region that is left. -/
  parent : Name
  /-- The alternatives of the entrance. -/
  entrance : List Branch
  exit : Exit

/-- The branches round a region that replace a passage. -/
def Passage.detour (classify : Classifier) (w : Passage) : Except Fault (Option (List Branch)) :=
  Building.detour classify w.parent w.entrance w.exit

namespace RegionGraph

/-- The ways through a region. -/
def passages (g : RegionGraph) (n : Name) : List Passage :=
  (g.parentsOf n).flatMap fun p => (g.exitsOf n).map fun e => ⟨p, g.exitLogic p n, e⟩

/-- The graph with a further edge round a region, if there are branches for it. -/
def addDetour (classify : Classifier) (g : RegionGraph) (w : Passage) : RegionGraph :=
  match w.detour classify with
  | .ok (some bs) => g.addEdge w.parent bs w.exit.target
  | _ => g

/-- The graph without a region, with its entrances led round it. -/
def bypassed (classify : Classifier) (g : RegionGraph) (n : Name) : RegionGraph :=
  (g.passages n).foldl (addDetour classify) (g.without n)

variable {classify : Classifier} {Q : Branch → Prop} {g g' : RegionGraph} {n q r : Name} {w : Passage}
  {b : Branch}

theorem mem_passages :
    w ∈ g.passages n ↔
      w.parent ∈ g.parentsOf n ∧ w.entrance = g.exitLogic w.parent n ∧ w.exit ∈ g.exitsOf n := by
  simp only [passages, List.mem_flatMap, List.mem_map]
  constructor
  · rintro ⟨p, hp, e, he, rfl⟩
    exact ⟨hp, rfl, he⟩
  · rintro ⟨hp, hentrance, he⟩
    exact ⟨_, hp, _, he, by rw [← hentrance]⟩

/-- The ways round a region are among its passages. -/
theorem way_addDetour {o : Option (List Branch)} (h : w.detour classify = .ok o) :
    (g.addDetour classify w).Way q b r ↔
      g.Way q b r ∨ q = w.parent ∧ r = w.exit.target ∧ b ∈ distribute w.entrance w.exit.logic ∧
        (w.parent = w.exit.target → b.Useful classify) := by
  rw [← mem_detour h, addDetour, h]
  cases o with
  | none => simp
  | some bs => exact way_addEdge

theorem way_foldl_addDetour {l : List Passage} (hok : ∀ w ∈ l, ∃ o, w.detour classify = .ok o) :
    (l.foldl (addDetour classify) g).Way q b r ↔
      g.Way q b r ∨ ∃ w ∈ l, q = w.parent ∧ r = w.exit.target ∧
        b ∈ distribute w.entrance w.exit.logic ∧ (w.parent = w.exit.target → b.Useful classify) := by
  induction l generalizing g with
  | nil => simp
  | cons w l ih =>
    rw [List.forall_mem_cons] at hok
    obtain ⟨⟨o, ho⟩, hok⟩ := hok
    rw [List.foldl_cons, ih hok, way_addDetour ho, List.exists_mem_cons_iff, or_assoc]

/-- A way through the region is laid round it, unless it is a round trip of no use. -/
theorem Consistent.way_bypassed (h : g.Consistent)
    (hok : ∀ w ∈ g.passages n, ∃ o, w.detour classify = .ok o) :
    (g.bypassed classify n).Way q b r ↔
      g.Way q b r ∧ q ≠ n ∧ r ≠ n ∨
        ∃ a c, g.Way q a n ∧ g.Way n c r ∧ b = a + c ∧ (q = r → b.Useful classify) := by
  rw [bypassed, way_foldl_addDetour hok, h.way_without]
  refine or_congr_right ?_
  constructor
  · rintro ⟨w, hw, rfl, rfl, hb, hu⟩
    obtain ⟨hparent, hentrance, hexit⟩ := mem_passages.1 hw
    have htarget := h.mem_parentsOf.1 hparent
    rw [hentrance, mem_distribute (h.exitLogic_ne_nil htarget) (h.exit_logic hexit)] at hb
    obtain ⟨a, ha, c, hc, rfl⟩ := hb
    exact ⟨a, c, h.way_iff_mem_exitLogic.2 ha, ⟨_, hexit, rfl, hc⟩, rfl, hu⟩
  · rintro ⟨a, c, ha, ⟨e, he, rfl, hc⟩, rfl, hu⟩
    refine ⟨⟨q, g.exitLogic q n, e⟩, mem_passages.2 ⟨?_, rfl, he⟩, rfl, rfl, ?_, hu⟩
    · exact h.mem_parentsOf.2 ha.mem_targetsOf
    · exact (mem_distribute (h.exitLogic_ne_nil ha.mem_targetsOf) (h.exit_logic he)).2
        ⟨a, h.way_iff_mem_exitLogic.1 ha, c, hc, rfl⟩

theorem Consistent.rewires_addDetour (h : g.Consistent) (hall : g.AllBranches Q)
    (hadd : ∀ {a b}, Q a → Q b → Q (a + b)) (hn : n ∉ g.parentsOf n)
    (hg : Rewires Q (g.without n) g') (hw : w ∈ g.passages n) :
    Rewires Q (g.without n) (g'.addDetour classify w) := by
  obtain ⟨hparent, hentrance, hexit⟩ := mem_passages.1 hw
  have htarget := h.mem_parentsOf.1 hparent
  -- neither end of a passage is the region itself, since it does not lead to itself
  have hp : w.parent ∈ (g.without n).names :=
    h.mem_names_without.2 ⟨h.parent_mem hparent, fun hp => hn (hp ▸ hparent)⟩
  have ht : w.exit.target ∈ (g.without n).names := by
    have hmem := target_mem_targetsOf hexit
    refine h.mem_names_without.2 ⟨h.target_mem hmem, fun ht => hn ?_⟩
    rw [ht] at hmem
    exact h.mem_parentsOf.2 hmem
  unfold addDetour
  split
  · next bs hd =>
    -- a branch of the edge is a sum of two branches of `g`, whether or not it is a round trip
    refine hg.addEdge hp ht (fun hbs => detour_ne_nil (h.exit_logic hexit) (hbs ▸ hd)) fun b hb => ?_
    have hmem := (mem_detour hd (b := b)).1 hb
    rw [hentrance] at hmem
    obtain ⟨a, ha, c, hc, rfl⟩ :=
      (mem_distribute (h.exitLogic_ne_nil htarget) (h.exit_logic hexit)).1 hmem.1
    obtain ⟨hways, -⟩ := h.allBranches_iff.1 hall
    exact hadd (hways (h.way_iff_mem_exitLogic.2 ha)) (hways ⟨_, hexit, rfl, hc⟩)
  · exact hg

/-- Edges round a region keep the graph consistent. -/
theorem Consistent.rewires_detours (classify : Classifier) (h : g.Consistent) (hall : g.AllBranches Q)
    (hadd : ∀ {a b}, Q a → Q b → Q (a + b)) (hstart : n ≠ startRegion) (hn : n ∉ g.parentsOf n)
    {l : List Passage} (hl : ∀ w ∈ l, w ∈ g.passages n) :
    Rewires Q (g.without n) (l.foldl (addDetour classify) (g.without n)) :=
  List.foldlRecOn _ _ (.refl (h.without hstart) (hall.without h hstart)) fun _ hg w hw =>
    h.rewires_addDetour hall hadd hn hg (hl w hw)

end RegionGraph

end RegionLogic
