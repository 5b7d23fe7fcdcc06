import RegionLogic.Proofs.Access.Reachability

/-!
# Alternatives one after the other

Where a region is merged, and where a way is led round an empty one, the alternatives of an edge are put in
front of other alternatives. Chains of edges are worked off in any order, so it must not matter how the
alternatives along a chain are bracketed.

A list without alternatives asks for nothing, just as the empty branch on its own does. Both are neutral in
what they lead to. As lists they cannot both be neutral beside each other: there, the empty branch stays.

## Main definitions

* `LogicTakes`: alternatives lead from one state to another

## Main results

* `distribute_assoc`: the bracketing does not matter, not even for the order of the branches
* `logicTakes_distribute`: alternatives one after the other lead where they lead in turn
* `Site.open_behind`: what stands behind an edge is open to whoever gets through the edge to where it is open
* `alternatives_compose`: the laws together
-/

namespace RegionLogic

universe u

variable {σ : Type u} {S : Supply} {E : Effects σ} {s t : σ} {b : Branch} {l m r : List Branch}

/-! ## The lists -/

/-- Two lists of which neither is empty are multiplied out. -/
theorem distribute_of_ne_nil (hl : l ≠ []) (hr : r ≠ []) :
    distribute l r = l.flatMap fun a => r.map fun b => a + b := by
  unfold distribute
  rw [if_neg (by simpa using hl), if_neg (by simpa using hr)]

/-- The bracketing of alternatives does not matter. -/
theorem distribute_assoc (l m r : List Branch) :
    distribute (distribute l m) r = distribute l (distribute m r) := by
  rcases eq_or_ne l [] with rfl | hl
  · rw [nil_distribute, nil_distribute]
  rcases eq_or_ne m [] with rfl | hm
  · rw [distribute_nil, nil_distribute]
  rcases eq_or_ne r [] with rfl | hr
  · rw [distribute_nil, distribute_nil]
  -- none of the lists is empty, so that each product is a proper one
  calc distribute (distribute l m) r
      = (l.flatMap fun a => m.map fun b => a + b).flatMap fun x => r.map fun c => x + c := by
        rw [distribute_of_ne_nil (distribute_ne_nil hm) hr, distribute_of_ne_nil hl hm]
    _ = l.flatMap fun a => m.flatMap fun b => r.map fun c => a + b + c := by
        simp only [List.flatMap_assoc, List.flatMap_map]
    _ = l.flatMap fun a => m.flatMap fun b => r.map fun c => a + (b + c) := by
        simp only [Branch.add_assoc]
    _ = l.flatMap fun a => (m.flatMap fun b => r.map fun c => b + c).map fun x => a + x := by
        simp only [List.map_flatMap, List.map_map, Function.comp_def]
    _ = distribute l (distribute m r) := by
        rw [distribute_of_ne_nil hl (distribute_ne_nil hr), distribute_of_ne_nil hm hr]

/-- The empty branch in front of alternatives stays only if there are none. -/
theorem empty_distribute (l : List Branch) :
    distribute [.empty] l = if l = [] then [.empty] else l := by
  split
  · next h => rw [h, distribute_nil]
  · next h =>
    rw [distribute_of_ne_nil (List.cons_ne_nil _ _) h]
    simp only [List.flatMap_singleton, Branch.empty_add, List.map_id']

/-- So does the empty branch behind them. -/
theorem distribute_empty (l : List Branch) :
    distribute l [.empty] = if l = [] then [.empty] else l := by
  split
  · next h => rw [h, nil_distribute]
  · next h =>
    rw [distribute_of_ne_nil h (List.cons_ne_nil _ _)]
    simp only [List.map_singleton, Branch.add_empty, List.flatMap_singleton']

/-! ## Where alternatives lead -/

/-- One of the alternatives leads from the state `s` to `t`. If there are none, nothing is asked and the state
stays as it is. -/
def LogicTakes (S : Supply) (E : Effects σ) (l : List Branch) (s t : σ) : Prop :=
  l = [] ∧ s = t ∨ ∃ b ∈ l, b.Takes S E s t

theorem logicTakes_nil : LogicTakes S E [] s t ↔ s = t := by
  simp [LogicTakes]

theorem logicTakes_of_ne_nil (hl : l ≠ []) : LogicTakes S E l s t ↔ ∃ b ∈ l, b.Takes S E s t := by
  simp [LogicTakes, hl]

theorem logicTakes_of_mem (hb : b ∈ l) (h : b.Takes S E s t) : LogicTakes S E l s t :=
  Or.inr ⟨b, hb, h⟩

/-- The empty branch on its own leads where no alternatives lead. -/
theorem logicTakes_empty : LogicTakes S E [.empty] s t ↔ s = t := by
  rw [logicTakes_of_ne_nil (List.cons_ne_nil _ _)]
  simp only [List.mem_singleton, exists_eq_left]
  exact Branch.takes_empty

/-- Alternatives one after the other lead where they lead in turn. -/
theorem logicTakes_distribute :
    LogicTakes S E (distribute l r) s t ↔ ∃ u, LogicTakes S E l s u ∧ LogicTakes S E r u t := by
  rcases eq_or_ne l [] with rfl | hl
  · simp only [nil_distribute, logicTakes_nil, exists_eq_left']
  rcases eq_or_ne r [] with rfl | hr
  · simp only [distribute_nil, logicTakes_nil, exists_eq_right]
  rw [logicTakes_of_ne_nil (distribute_ne_nil hr)]
  simp only [logicTakes_of_ne_nil hl, logicTakes_of_ne_nil hr, mem_distribute hl hr]
  constructor
  · rintro ⟨_, ⟨a, ha, c, hc, rfl⟩, h⟩
    obtain ⟨u, hu, ht⟩ := Branch.takes_add.1 h
    exact ⟨u, ⟨a, ha, hu⟩, c, hc, ht⟩
  · rintro ⟨u, ⟨a, ha, hu⟩, c, hc, ht⟩
    exact ⟨a + c, ⟨a, ha, c, hc, rfl⟩, Branch.takes_add.2 ⟨u, hu, ht⟩⟩

/-- A location or transition is open where its alternatives lead somewhere. -/
theorem Site.open_iff {x : Site} : x.Open S E s ↔ ∃ t, LogicTakes S E x.logic s t := by
  constructor
  · rintro (hnil | ⟨b, hb, t, ht⟩)
    · exact ⟨s, Or.inl ⟨hnil, rfl⟩⟩
    · exact ⟨t, logicTakes_of_mem hb ht⟩
  · rintro ⟨t, ⟨hnil, -⟩ | ⟨b, hb, ht⟩⟩
    · exact Or.inl hnil
    · exact Or.inr ⟨b, hb, t, ht⟩

/-- What stands behind an edge is open to whoever gets through the edge to where it is open. -/
theorem Site.open_behind {x : Site} :
    ({ x with logic := distribute l x.logic } : Site).Open S E s ↔
      ∃ t, LogicTakes S E l s t ∧ x.Open S E t := by
  simp only [Site.open_iff, logicTakes_distribute]
  constructor
  · rintro ⟨u, t, hl, hx⟩
    exact ⟨t, hl, u, hx⟩
  · rintro ⟨t, hl, u, hx⟩
    exact ⟨u, t, hl, hx⟩

/-- Alternatives can be bracketed in any way. No alternatives are neutral, and the empty branch is neutral
beside any others; the two lead to the same. Alternatives one after the other lead where they lead in
turn, whatever is at hand and whatever the modifiers do. -/
theorem alternatives_compose :
    (∀ l m r, distribute (distribute l m) r = distribute l (distribute m r)) ∧
      (∀ l, distribute [] l = l ∧ distribute l [] = l) ∧
      (∀ l, distribute [.empty] l = (if l = [] then [.empty] else l) ∧
        distribute l [.empty] = if l = [] then [.empty] else l) ∧
      (∀ {σ : Type u} (S : Supply) (E : Effects σ) (s t : σ),
        (LogicTakes S E [] s t ↔ s = t) ∧ (LogicTakes S E [.empty] s t ↔ s = t)) ∧
      ∀ {σ : Type u} (S : Supply) (E : Effects σ) (l r : List Branch) (s t : σ),
        LogicTakes S E (distribute l r) s t ↔ ∃ u, LogicTakes S E l s u ∧ LogicTakes S E r u t := by
  refine ⟨distribute_assoc, ?_, ?_, ?_, ?_⟩
  · intro l
    exact ⟨nil_distribute l, distribute_nil l⟩
  · intro l
    exact ⟨empty_distribute l, distribute_empty l⟩
  · intro σ S E s t
    exact ⟨logicTakes_nil, logicTakes_empty⟩
  · intro σ S E l r s t
    exact logicTakes_distribute

/-- Beside no alternatives the empty branch is not neutral: it stays. -/
theorem empty_beside_none : distribute [.empty] [] ≠ [] ∧ distribute [] [.empty] ≠ [] :=
  ⟨List.cons_ne_nil _ _, List.cons_ne_nil _ _⟩

end RegionLogic
