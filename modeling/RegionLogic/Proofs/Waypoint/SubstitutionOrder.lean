import RegionLogic.Proofs.Region.Placement
import RegionLogic.Proofs.Waypoint.Order

/-!
# Orders of substitution, and the cycles that prevent them

A graph has an order of substitution if no name is reached from itself. Otherwise the fault tells the cycles:
the groups of the walks, or all names on cycles if there is no group. So it leaves out the names on cycles to
which no root leads, as soon as a root leads to another cycle, but it always tells some cycle.

## Main definitions

* `WaypointGraph.Told`: a name that a report of the cycles holds

## Main results

* `WaypointGraph.told_all_iff`: when a report holds all names on cycles
* `WaypointGraph.Coherent.substitutionOrder_of_onCycle`: the cycles that prevent an order
* `WaypointGraph.substitutionOrder_after`: the order of any graph that operations make
-/

namespace RegionLogic.WaypointGraph

variable {g : WaypointGraph} {a : Name}

/-! ## Reports of cycles -/

/-- A report of the cycles holds the name: it is on a cycle, and either a root leads to it or no root leads
to any cycle. -/
def Told (g : WaypointGraph) (a : Name) : Prop :=
  a ∈ g.cyclicNames ∧ (g.LedTo a ∨ ∀ b ∈ g.cyclicNames, ¬g.LedTo b)

/-- A report holds all names on cycles if and only if roots lead to all of them or to none. -/
theorem told_all_iff : (∀ a ∈ g.cyclicNames, g.Told a) ↔
    (∀ a ∈ g.cyclicNames, g.LedTo a) ∨ ∀ a ∈ g.cyclicNames, ¬g.LedTo a := by
  constructor
  · intro h
    by_cases hnone : ∀ a ∈ g.cyclicNames, ¬g.LedTo a
    · exact Or.inr hnone
    · exact Or.inl fun a ha => (h a ha).2.resolve_right hnone
  · rintro (hall | hnone) a ha
    · exact ⟨ha, Or.inl (hall a ha)⟩
    · exact ⟨ha, Or.inr hnone⟩

/-- The names in the groups, if there are any, and otherwise all names on cycles. -/
theorem Coherent.told_iff (hg : g.Coherent) :
    g.Told a ↔ if g.cycleGroups = [] then a ∈ g.cyclicNames else ∃ group ∈ g.cycleGroups, a ∈ group.names := by
  simp only [Told, hg.mem_cyclicNames]
  rw [← cycleGroups_eq_nil_iff, mem_cycleGroups]
  split
  · next hnil => exact and_iff_left (Or.inr hnil)
  · next hne => rw [or_iff_left hne]

/-- A graph with a cycle has no order. The cycles that prevent it are a report of the cycles. -/
theorem Coherent.substitutionOrder_of_onCycle (hg : g.Coherent) (hcycle : g.OnCycle a) :
    ∃ cycles, g.substitutionOrder = .error (.cyclic cycles) ∧ ∀ b, (∃ names ∈ cycles, b ∈ names) ↔ g.Told b := by
  have hshort : g.readyOrder.length ≠ g.names.length := fun hlength =>
    hg.length_readyOrder_eq_iff.1 hlength a hcycle
  rw [substitutionOrder, if_neg hshort]
  split
  · next hnil =>
    refine ⟨_, rfl, fun b => ?_⟩
    rw [hg.told_iff, if_pos hnil]
    simp
  · next hne =>
    refine ⟨_, rfl, fun b => ?_⟩
    rw [hg.told_iff, if_neg hne]
    simp

/-- The cycles can be told if all names are texts. -/
theorem toldOrder_of_texts {cycles : List (List Name)} (h : g.substitutionOrder = .error (.cyclic cycles))
    (htext : ∀ names ∈ cycles, ∀ a ∈ names, a.text? ≠ none) : g.toldOrder = .error (.cyclic cycles) := by
  have htold : (cycles.forM fun names => do let _ ← Walk.text ⟨names⟩ : Except Fault Unit) = .ok () := by
    cases hforM : (cycles.forM fun names => do let _ ← Walk.text ⟨names⟩ : Except Fault Unit) with
    | ok => rfl
    | error fault =>
      obtain ⟨names, hnames, hfault⟩ := exists_error_of_forM hforM
      rcases bind_eq_error.1 hfault with hfault | ⟨_, -, hfault⟩
      · obtain ⟨-, a, ha, hodd⟩ := exists_odd_of_joinNames hfault
        exact absurd hodd (htext names hnames a ha)
      · cases hfault
  rw [toldOrder, h]
  dsimp only
  rw [htold]
  rfl

/-- Some name is told if there is a cycle. -/
theorem exists_told (ha : a ∈ g.cyclicNames) : ∃ b, g.Told b := by
  by_cases hnone : ∀ b ∈ g.cyclicNames, ¬g.LedTo b
  · exact ⟨a, ha, Or.inr hnone⟩
  · obtain ⟨b, hb⟩ := not_forall.1 hnone
    obtain ⟨hb, hled⟩ := Classical.not_imp.1 hb
    exact ⟨b, hb, Or.inl (not_not.1 hled)⟩

/-! ## Orders -/

/-- Only a cycle keeps a graph from having an order. -/
theorem Coherent.exists_onCycle_of_error (hg : g.Coherent) {fault : Fault}
    (h : g.substitutionOrder = .error fault) : ∃ a, g.OnCycle a := by
  by_contra hnone
  obtain ⟨hok, -⟩ := hg.substitutionOrder_eq_ok (not_exists.1 hnone)
  rw [hok] at h
  cases h

/-- In any graph that operations make, the order of substitution fails if and only if some name is reached from
itself. The fault then tells at least one cycle, and only names on cycles. Otherwise the order holds every name
once, each after all names that it refers to. The cycles can be told if all names are texts. -/
theorem substitutionOrder_after (ops : List Operation) :
    ((∃ cycles, (after ops).substitutionOrder = .error (.cyclic cycles)) ↔ ∃ a, (after ops).OnCycle a) ∧
    (∀ cycles, (after ops).substitutionOrder = .error (.cyclic cycles) →
      (∃ names ∈ cycles, names ≠ []) ∧ ∀ names ∈ cycles, ∀ a ∈ names, (after ops).OnCycle a) ∧
    ((∀ a, ¬(after ops).OnCycle a) → ∃ order, (after ops).substitutionOrder = .ok order ∧
      order.Nodup ∧ (∀ a, a ∈ order ↔ a ∈ (after ops).names) ∧
      ∀ before a rest, order = before ++ a :: rest → ∀ b, (after ops).Refers a b → b ∈ before) ∧
    ((∀ a ∈ (after ops).names, a.text? ≠ none) → (after ops).toldOrder = (after ops).substitutionOrder) := by
  have hg := coherent_after ops
  refine ⟨⟨?_, ?_⟩, ?_, ?_, ?_⟩
  · rintro ⟨cycles, h⟩
    exact hg.exists_onCycle_of_error h
  · rintro ⟨a, ha⟩
    obtain ⟨cycles, h, -⟩ := hg.substitutionOrder_of_onCycle ha
    exact ⟨cycles, h⟩
  · intro cycles h
    obtain ⟨a, ha⟩ := hg.exists_onCycle_of_error h
    obtain ⟨cycles', h', htold⟩ := hg.substitutionOrder_of_onCycle ha
    rw [h', Except.error.injEq, Fault.cyclic.injEq] at h
    subst h
    obtain ⟨b, hb⟩ := exists_told (hg.mem_cyclicNames.2 ha)
    obtain ⟨names, hnames, hb⟩ := (htold b).2 hb
    refine ⟨⟨names, hnames, List.ne_nil_of_mem hb⟩, fun names hnames b hb => ?_⟩
    exact hg.mem_cyclicNames.1 ((htold b).1 ⟨names, hnames, hb⟩).1
  · intro hnone
    obtain ⟨hok, hperm, hresolved⟩ := hg.substitutionOrder_eq_ok hnone
    refine ⟨_, hok, hg.nodup_readyOrder, fun a => hperm.mem_iff, fun before a rest hsplit b hab => ?_⟩
    exact hresolved.mem_before hsplit hab
  · intro htext
    by_cases hcycle : ∃ a, (after ops).OnCycle a
    · obtain ⟨a, ha⟩ := hcycle
      obtain ⟨cycles, h, htold⟩ := hg.substitutionOrder_of_onCycle ha
      rw [h]
      refine toldOrder_of_texts h fun names hnames b hb => ?_
      exact htext b (hg.mem_cyclicNames.1 ((htold b).1 ⟨names, hnames, hb⟩).1).mem_names
    · obtain ⟨hok, -⟩ := hg.substitutionOrder_eq_ok (not_exists.1 hcycle)
      rw [toldOrder, hok]

/-- A graph without cycles has an order. One more reference closes a cycle, which the fault tells. -/
theorem substitutionOrder_after_closing :
    let ops : List Operation := [.update "A" ["B", "C"], .update "B" ["D"], .update "C" ["D", "B"]]
    let closed := ops ++ [.update "D" ["C"]]
    (∃ order, (after ops).toldOrder = .ok order ∧ order.Nodup ∧
      ∀ before a rest, order = before ++ a :: rest → ∀ b, (after ops).Refers a b → b ∈ before) ∧
    ∃ cycles, (after closed).toldOrder = .error (.cyclic cycles) ∧ ∃ names ∈ cycles, names ≠ [] := by
  intro ops closed
  constructor
  · obtain ⟨-, -, horder, htold⟩ := substitutionOrder_after ops
    have hnone : ∀ a, ¬(after ops).OnCycle a := (coherent_after ops).length_readyOrder_eq_iff.1 (by decide +kernel)
    obtain ⟨order, hok, hnodup, -, hafter⟩ := horder hnone
    exact ⟨order, (htold (by decide +kernel)).trans hok, hnodup, hafter⟩
  · obtain ⟨hcyclic, hcycles, -, htold⟩ := substitutionOrder_after closed
    have hto : (after closed).Refers "C" "D" := by decide +kernel
    have hback : (after closed).Refers "D" "C" := by decide +kernel
    obtain ⟨cycles, h⟩ := hcyclic.2 ⟨"C", .tail (.single hto) hback⟩
    exact ⟨cycles, (htold (by decide +kernel)).trans h, (hcycles cycles h).1⟩

end RegionLogic.WaypointGraph
