import Mathlib.Data.List.Cycle
import RegionLogic.Proofs.Waypoint.Walks

/-!
# The cycles that walks find

A walk from a root follows references until it returns to a name. What it passes between the two occurrences
of that name is a cycle without repetitions, the group of the walk. Conversely, every cycle without repetitions
to which a root leads is the group of some walk: walk to it without a detour, stop at the first name that is on
it, and go round once. So the groups hold the names on cycles to which roots lead, and these only.

## Main definitions

* `WaypointGraph.SimpleCycle`: names that refer to one another in a round, each of them once
* `WaypointGraph.LedTo`: a root leads to a name

## Main results

* `exists_nodup_chain`: what is reached is reached without a detour
* `WaypointGraph.FullWalk.exists_group`: the group of a walk is a cycle
* `WaypointGraph.SimpleCycle.exists_walk`: a cycle to which a root leads is the group of a walk
* `WaypointGraph.mem_cycleGroups`: the names in the groups
* `WaypointGraph.cycleGroup_after`: the groups in any graph that operations make
-/

namespace RegionLogic

open Relation

/-- What is reached is reached without a detour. -/
theorem exists_nodup_chain {α : Type} {r : α → α → Prop} {a b : α} (h : ReflTransGen r a b) :
    ∃ l, (a :: l).Nodup ∧ (a :: l).IsChain r ∧ (a :: l).getLast? = some b := by
  induction h using ReflTransGen.head_induction_on with
  | refl => exact ⟨[], List.nodup_singleton b, .singleton b, rfl⟩
  | @head a c hac _ ih =>
    obtain ⟨l, hnodup, hchain, hlast⟩ := ih
    by_cases ha : a ∈ c :: l
    · -- the way from `c` comes through `a`, and can be taken from there
      obtain ⟨before, after, hsplit⟩ := List.append_of_mem ha
      rw [hsplit] at hnodup hchain hlast
      refine ⟨after, hnodup.of_append_right, hchain.right_of_append, ?_⟩
      rwa [List.getLast?_append_of_ne_nil before (List.cons_ne_nil a after)] at hlast
    · refine ⟨c :: l, List.nodup_cons.2 ⟨ha, hnodup⟩, hchain.cons_cons hac, ?_⟩
      rwa [List.getLast?_cons_cons]

namespace WaypointGraph

variable {g : WaypointGraph} {w group : Walk} {c : Cycle Name} {a next root : Name} {before rest : List Name}

/-! ## Cycles -/

/-- The names of a round, each of which occurs once and refers to the next one. -/
structure SimpleCycle (g : WaypointGraph) (c : Cycle Name) : Prop where
  ne_nil : c ≠ .nil
  nodup : c.Nodup
  chain : c.Chain g.Refers

theorem simpleCycle_coe_cons :
    g.SimpleCycle ((next :: rest : List Name) : Cycle Name) ↔
      (next :: rest).Nodup ∧ (next :: rest ++ [next]).IsChain g.Refers := by
  constructor
  · intro h
    exact ⟨Cycle.nodup_coe_iff.1 h.nodup, (Cycle.chain_coe_cons ..).1 h.chain⟩
  · rintro ⟨hnodup, hchain⟩
    refine ⟨fun hnil => ?_, Cycle.nodup_coe_iff.2 hnodup, (Cycle.chain_coe_cons ..).2 hchain⟩
    exact List.cons_ne_nil _ _ ((Cycle.coe_eq_nil _).1 hnil)

/-- A round can be begun at each of its names. -/
theorem exists_eq_coe_cons (ha : a ∈ c) : ∃ rest : List Name, c = ((a :: rest : List Name) : Cycle Name) := by
  induction c using Quotient.inductionOn' with
  | _ l =>
    obtain ⟨s, t, rfl⟩ := List.append_of_mem ha
    have hrotated : (s ++ a :: t).IsRotated (a :: t ++ s) := List.isRotated_append
    exact ⟨t ++ s, Cycle.coe_eq_coe.2 hrotated⟩

theorem SimpleCycle.exists_mem (h : g.SimpleCycle c) : ∃ a, a ∈ c := by
  induction c using Quotient.inductionOn' with
  | _ l => exact List.exists_mem_of_ne_nil l fun hnil => h.ne_nil ((Cycle.coe_eq_nil l).2 hnil)

/-- Each name of a round reaches itself. -/
theorem SimpleCycle.onCycle (h : g.SimpleCycle c) (ha : a ∈ c) : g.OnCycle a :=
  Cycle.chain_iff_pairwise.1 (h.chain.imp fun _ _ hab => TransGen.single hab) a ha a ha

/-- A name that reaches itself does so in a round without repetitions. -/
theorem OnCycle.exists_simpleCycle (h : g.OnCycle a) : ∃ c, g.SimpleCycle c ∧ a ∈ c := by
  obtain ⟨b, hab, hba⟩ := TransGen.head'_iff.1 h
  obtain ⟨l, hnodup, hchain, hlast⟩ := exists_nodup_chain hba
  refine ⟨((b :: l : List Name) : Cycle Name), simpleCycle_coe_cons.2 ⟨hnodup, ?_⟩, List.mem_of_getLast? hlast⟩
  refine List.isChain_append.2 ⟨hchain, List.IsChain.singleton b, ?_⟩
  rw [hlast]
  rintro _ ⟨⟩ _ ⟨⟩
  exact hab

/-! ## The group of a walk -/

/-- A walk that has a group returns to a name, and passes all names of the group. -/
theorem isCycle_of_cycleGroup? (h : w.cycleGroup? = some group) :
    w.isCycle = true ∧ group.names ⊆ w.names := by
  unfold Walk.cycleGroup? at h
  obtain ⟨last, -, h⟩ := Option.bind_eq_some_iff.1 h
  split at h
  · next hcycle =>
    obtain rfl := Option.some.inj h
    exact ⟨hcycle, fun a ha => (List.dropWhile_suffix _).subset (List.mem_of_mem_dropLast ha)⟩
  · cases h

/-- The group of a walk that returns to `next` begins there. -/
theorem cycleGroup?_of_returns (hnodup : (before ++ next :: rest).Nodup) :
    Walk.cycleGroup? ⟨before ++ next :: rest ++ [next]⟩ = some ⟨next :: rest⟩ := by
  have hlast : (before ++ next :: rest ++ [next]).getLast? = some next := List.getLast?_concat
  have hrepeats : ¬(before ++ next :: rest ++ [next]).Nodup := by
    intro h
    exact (List.nodup_append.1 h).2.2 next (by simp) next (by simp) rfl
  have hbefore : ∀ a ∈ before, decide (a ≠ next) = true := by
    intro a ha
    exact decide_eq_true fun heq => (List.nodup_append.1 hnodup).2.2 a ha next (by simp) heq
  have hdrop : (before ++ next :: rest ++ [next]).dropWhile (· ≠ next) = next :: rest ++ [next] := by
    rw [List.append_assoc, List.dropWhile_append_of_pos hbefore]
    simp
  unfold Walk.cycleGroup?
  rw [hlast, Option.bind_eq_bind, Option.bind_some, hdrop, List.dropLast_concat]
  exact if_pos (by simpa [Walk.isCycle] using hrepeats)

/-- A full walk that returns to a name has a group, which is a round of names that it passes. -/
theorem FullWalk.exists_group (h : g.FullWalk w) (hcycle : w.isCycle = true) :
    ∃ group, w.cycleGroup? = some group ∧ g.SimpleCycle group.names ∧ group.names ⊆ w.names := by
  have hrepeats : ¬w.names.Nodup := by simpa [Walk.isCycle] using hcycle
  obtain ⟨passed, next, rfl⟩ := exists_eq_snoc (w := w) fun hnil => hrepeats (hnil ▸ List.nodup_nil)
  have hpassed := h.passed
  rw [Walk.snoc, List.dropLast_concat] at hpassed
  rw [Walk.snoc, ← List.concat_eq_append, List.nodup_concat] at hrepeats
  have hnext : next ∈ passed.names := by_contra fun hnext => hrepeats ⟨hnext, hpassed⟩
  obtain ⟨before, rest, hsplit⟩ := List.append_of_mem hnext
  have hfollows := h.follows
  rw [Follows, Walk.snoc, hsplit] at hfollows
  rw [hsplit] at hpassed
  have hgroup := cycleGroup?_of_returns hpassed
  rw [← hsplit] at hgroup
  refine ⟨_, hgroup, simpleCycle_coe_cons.2 ⟨hpassed.of_append_right, ?_⟩, (isCycle_of_cycleGroup? hgroup).2⟩
  rw [List.append_assoc] at hfollows
  exact hfollows.right_of_append

/-! ## The walk to a cycle -/

/-- A root leads to the name. -/
def LedTo (g : WaypointGraph) (a : Name) : Prop := ∃ root ∈ g.roots, ReflTransGen g.Refers root a

/-- Whatever a walk passes is a name to which a root leads. -/
theorem FullWalk.ledTo (h : g.FullWalk w) (ha : a ∈ w.names) : g.LedTo a := by
  obtain ⟨root, hroot, hhead⟩ := h.rooted
  have hfollows := h.follows
  obtain ⟨rest, hnames⟩ := List.head?_eq_some_iff.1 hhead
  rw [Follows, hnames] at hfollows
  rw [hnames] at ha
  have hpairs : (root :: rest).Pairwise (TransGen g.Refers) :=
    (List.IsChain.imp (fun _ _ hab => TransGen.single hab) hfollows).pairwise
  rcases List.mem_cons.1 ha with rfl | ha
  · exact ⟨a, hroot, .refl⟩
  · exact ⟨root, hroot, ((List.pairwise_cons.1 hpairs).1 a ha).to_reflTransGen⟩

/-- A round to which a root leads is the group of a walk. -/
theorem SimpleCycle.exists_walk (h : g.SimpleCycle c) (ha : a ∈ c) (hled : g.LedTo a) :
    ∃ w ∈ g.cycles, ∃ group, w.cycleGroup? = some group ∧ (group.names : Cycle Name) = c := by
  obtain ⟨root, hroot, hled⟩ := hled
  obtain ⟨l, hnodup, hchain, hlast⟩ := exists_nodup_chain hled
  -- the way to `a` up to the first name on the round
  have hreturns : ((root :: l).find? (· ∈ c)).isSome := by
    rw [List.find?_isSome]
    exact ⟨a, List.mem_of_getLast? hlast, decide_eq_true ha⟩
  obtain ⟨next, hfind⟩ := Option.isSome_iff_exists.1 hreturns
  obtain ⟨hnext, before, beyond, hsplit, hbefore⟩ := List.find?_eq_some_iff_append.1 hfind
  obtain ⟨rest, rfl⟩ := exists_eq_coe_cons (of_decide_eq_true hnext)
  obtain ⟨hround, hback⟩ := simpleCycle_coe_cons.1 h
  have hpassed : (before ++ next :: rest).Nodup := by
    rw [hsplit] at hnodup
    refine List.nodup_append.2 ⟨hnodup.of_append_left, hround, fun x hx y hy hxy => ?_⟩
    have hnot : x ∉ ((next :: rest : List Name) : Cycle Name) := by simpa using hbefore x hx
    exact hnot (hxy ▸ hy)
  have hfollows : (before ++ [next] ++ (rest ++ [next])).IsChain g.Refers := by
    have hway : (before ++ [next] ++ beyond).IsChain g.Refers := by
      rw [hsplit] at hchain
      simpa using hchain
    exact hway.left_of_append.append_overlap (by simpa using hback) (List.cons_ne_nil _ _)
  have hhead : (before ++ next :: rest ++ [next]).head? = some root := by
    cases before with
    | nil =>
      rw [List.nil_append, List.cons.injEq] at hsplit
      simp [hsplit.1]
    | cons x before =>
      rw [List.cons_append, List.cons.injEq] at hsplit
      simp [hsplit.1]
  have hfull : g.FullWalk ⟨before ++ next :: rest ++ [next]⟩ := by
    refine ⟨⟨root, hroot, hhead⟩, by simpa [Follows] using hfollows, ?_, ?_, next, List.getLast?_concat, Or.inl ?_⟩
    · simp only [List.length_append, List.length_cons]
      omega
    · rwa [List.dropLast_concat]
    · rw [List.dropLast_concat]
      simp
  have hgroup := cycleGroup?_of_returns hpassed
  refine ⟨_, List.mem_filter.2 ⟨mem_walks_iff.2 hfull, (isCycle_of_cycleGroup? hgroup).1⟩, _, hgroup, rfl⟩

/-! ## The names in the groups -/

theorem mem_cycles_iff : w ∈ g.cycles ↔ g.FullWalk w ∧ w.isCycle = true := by
  rw [cycles, List.mem_filter, mem_walks_iff]

/-- The group of a walk from a root is a round to whose names that root leads. -/
theorem simpleCycle_of_cycleGroup? (hw : w ∈ g.cycles) (hgroup : w.cycleGroup? = some group) :
    g.SimpleCycle group.names ∧ ∀ a ∈ group.names, g.LedTo a := by
  obtain ⟨hfull, hcycle⟩ := mem_cycles_iff.1 hw
  obtain ⟨group', hgroup', hsimple, hsub⟩ := hfull.exists_group hcycle
  obtain rfl := Option.some.inj (hgroup.symm.trans hgroup')
  exact ⟨hsimple, fun a ha => hfull.ledTo (hsub ha)⟩

/-- Up to the name at which they begin, the groups are the rounds to which roots lead. -/
theorem exists_group_eq_iff :
    (∃ w ∈ g.cycles, ∃ group, w.cycleGroup? = some group ∧ (group.names : Cycle Name) = c) ↔
      g.SimpleCycle c ∧ ∃ a ∈ c, g.LedTo a := by
  constructor
  · rintro ⟨w, hw, group, hgroup, rfl⟩
    obtain ⟨hsimple, hled⟩ := simpleCycle_of_cycleGroup? hw hgroup
    obtain ⟨a, ha⟩ := hsimple.exists_mem
    exact ⟨hsimple, a, ha, hled a ha⟩
  · rintro ⟨hsimple, a, ha, hled⟩
    exact hsimple.exists_walk ha hled

/-- The names in the groups are those on cycles to which roots lead. -/
theorem mem_cycleGroups : (∃ group ∈ g.cycleGroups, a ∈ group.names) ↔ g.OnCycle a ∧ g.LedTo a := by
  constructor
  · rintro ⟨group, hgroup, ha⟩
    obtain ⟨w, hw, hgroup⟩ := List.mem_filterMap.1 hgroup
    obtain ⟨hsimple, hled⟩ := simpleCycle_of_cycleGroup? hw hgroup
    exact ⟨hsimple.onCycle ha, hled a ha⟩
  · rintro ⟨hcycle, hled⟩
    obtain ⟨c, hsimple, ha⟩ := hcycle.exists_simpleCycle
    obtain ⟨w, hw, group, hgroup, rfl⟩ := hsimple.exists_walk ha hled
    exact ⟨group, List.mem_filterMap.2 ⟨w, hw, hgroup⟩, ha⟩

/-- There is no group if and only if no root leads to a cycle. -/
theorem cycleGroups_eq_nil_iff : g.cycleGroups = [] ↔ ∀ a, g.OnCycle a → ¬g.LedTo a := by
  constructor
  · intro hnil a hcycle hled
    obtain ⟨group, hgroup, -⟩ := mem_cycleGroups.2 ⟨hcycle, hled⟩
    rw [hnil] at hgroup
    cases hgroup
  · intro h
    refine List.eq_nil_iff_forall_not_mem.2 fun group hgroup => ?_
    obtain ⟨w, hw, hwgroup⟩ := List.mem_filterMap.1 hgroup
    obtain ⟨a, ha⟩ := (simpleCycle_of_cycleGroup? hw hwgroup).1.exists_mem
    obtain ⟨hcycle, hled⟩ := mem_cycleGroups.1 ⟨group, hgroup, ha⟩
    exact h a hcycle hled

/-! ## All groups -/

theorem cycleGroup_eq_ok_iff : w.cycleGroup = .ok group ↔ w.cycleGroup? = some group := by
  unfold Walk.cycleGroup
  cases w.cycleGroup? with
  | none => cases w.text <;> simp [bind, Except.bind, throw, throwThe, MonadExceptOf.throw]
  | some group' => simp

/-- In any graph that operations make, each walk that returns to a name has a group, which is a round of names
each of which occurs once and refers to the next one. Up to the name at which they begin, the groups are all
such rounds to which a root leads. -/
theorem cycleGroup_after (ops : List Operation) :
    (∀ w ∈ (after ops).cycles, ∃ group, w.cycleGroup = .ok group ∧ (after ops).SimpleCycle group.names) ∧
    ∀ c : Cycle Name, (∃ w ∈ (after ops).cycles, ∃ group, w.cycleGroup = .ok group ∧ (group.names : Cycle Name) = c) ↔
      (after ops).SimpleCycle c ∧ ∃ a ∈ c, (after ops).LedTo a := by
  simp only [cycleGroup_eq_ok_iff]
  refine ⟨fun w hw => ?_, fun c => exists_group_eq_iff⟩
  obtain ⟨hfull, hcycle⟩ := mem_cycles_iff.1 hw
  obtain ⟨group, hgroup, hsimple, -⟩ := hfull.exists_group hcycle
  exact ⟨group, hgroup, hsimple⟩

/-- A gate leads to three rooms. Two rounds go through the first and the second one, and both are found, one of
them from its second room on. -/
theorem cycleGroup_after_rooms :
    let ops : List Operation :=
      [.update "Gate" ["Two"], .update "One" ["Two", "Three"], .update "Two" ["One"], .update "Three" ["Two"]]
    (∃ group, (⟨["Gate", "Two", "One", "Three", "Two"]⟩ : Walk).cycleGroup = .ok group ∧
      (after ops).SimpleCycle group.names) ∧
    ∃ w ∈ (after ops).cycles, ∃ group, w.cycleGroup = .ok group ∧
      (group.names : Cycle Name) = ((["One", "Two"] : List Name) : Cycle Name) := by
  intro ops
  obtain ⟨hgroup, hrounds⟩ := cycleGroup_after ops
  refine ⟨hgroup _ (by decide +kernel), (hrounds _).2 ⟨simpleCycle_coe_cons.2 ⟨by decide, ?_⟩, "Two", ?_, ?_⟩⟩
  · decide +kernel
  · decide
  · exact ⟨"Gate", by decide +kernel, .single (by decide +kernel)⟩

end WaypointGraph

end RegionLogic
