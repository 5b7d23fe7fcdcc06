import Mathlib.Order.Bounds.Basic
import RegionLogic.Proofs.Cleanup.Idle
import RegionLogic.Proofs.Region.Ingestion

/-!
# What is left where regions are only merged

Where only merges are to be tried, the regions that go are determined by the graph at the beginning: they
are the least set that holds every region which may go, holds no transitions and has one entrance, as soon
as it holds all regions that this one leads to. In what order the regions are merged does not matter. What
is placed in a region that goes ends in the first region in front of it that stays.

## Main definitions

* `Superfluous`: a region that can be merged once some others have gone
* `Heir`: the region in which that ends which is placed in a region
* `MergedFrom`: a graph that is left of another one after merges

## Main results

* `MergedFrom.mergedInto`, `MergedFrom.relists`: one more merge, and a change of the alternatives alone
* `MergedFrom.isLeast`: the regions that have gone when no more can be merged
* `clean_mergedFrom`: a cleanup where only merges are to be tried
-/

namespace RegionLogic

open Building RegionGraph

variable {classify : Classifier} {kept kept' keep : NameSet} {options : CleanupOptions}
  {g g₀ g' : RegionGraph} {X : Set Name} {m n p q : Name}

/-- The region `n` can be merged into the one in front of it once the regions of `X` have gone. -/
structure Superfluous (kept : NameSet) (g : RegionGraph) (X : Set Name) (n : Name) : Prop where
  /-- It need not be kept. -/
  not_kept : n ∉ kept
  /-- No transition is placed in it. -/
  transitions : g.placedIn .transitions n = []
  /-- It has one entrance. -/
  parents : ∃ p, g.parentsOf n = [p]
  /-- All its exits lead to regions that go. -/
  targets : ∀ c ∈ g.targetsOf n, c ∈ X

theorem Superfluous.mono (h : Superfluous kept' g X n) (hkept : kept ⊆ kept') :
    Superfluous kept g X n :=
  { h with not_kept := fun hn => h.not_kept (hkept n hn) }

/-- The regions of `g` that are not there in `g'`. -/
def gone (g g' : RegionGraph) : Set Name := {n | n ∈ g.names ∧ n ∉ g'.names}

theorem gone_self : gone g g = ∅ := Set.eq_empty_of_forall_notMem fun _ hn => hn.2 hn.1

/-! ## Where everything ends -/

/-- On the way that leads from a region to the only region in front of it, and on from there, `q` is the
first one outside of `X`. -/
inductive Heir (g : RegionGraph) (X : Set Name) : Name → Name → Prop
  | stays {n : Name} (h : n ∉ X) : Heir g X n n
  | goes {n p q : Name} (h : n ∈ X) (hparents : g.parentsOf n = [p]) (hq : Heir g X p q) : Heir g X n q

theorem Heir.eq_of_not_mem (h : Heir g X n q) (hn : n ∉ X) : q = n := by
  cases h with
  | stays => rfl
  | goes hmem => exact absurd hmem hn

theorem Heir.unique {q' : Name} (h : Heir g X n q) (h' : Heir g X n q') : q' = q := by
  induction h with
  | stays h => exact h'.eq_of_not_mem h
  | goes hmem hparents _ ih =>
    cases h' with
    | stays hn => exact absurd hmem hn
    | goes _ hparents' hq =>
      obtain rfl := List.singleton_inj.1 (hparents.symm.trans hparents')
      exact ih hq

theorem heir_empty : Heir g ∅ n q ↔ q = n := by
  constructor
  · exact fun h => h.eq_of_not_mem (Set.notMem_empty n)
  · rintro rfl
    exact .stays (Set.notMem_empty _)

/-- A further region goes: what would have ended in it ends in the one in front of it. -/
theorem heir_insert (hm : m ∉ X) (hp : p ∉ X) (hne : p ≠ m) (hparents : g.parentsOf m = [p]) :
    Heir g (insert m X) n q ↔ Heir g X n q ∧ q ≠ m ∨ Heir g X n m ∧ q = p := by
  have hp' : p ∉ insert m X := fun h => (Set.mem_insert_iff.1 h).elim hne hp
  constructor
  · -- the chain to `q` either avoids `m`, or it has ended in `m` before and goes on to `p` only
    intro h
    induction h with
    | @stays n hn =>
      rw [Set.mem_insert_iff, not_or] at hn
      exact Or.inl ⟨.stays hn.2, hn.1⟩
    | @goes n r q hn hr hq ih =>
      rcases Set.mem_insert_iff.1 hn with rfl | hn
      · obtain rfl := List.singleton_inj.1 (hparents.symm.trans hr)
        exact Or.inr ⟨.stays hm, hq.eq_of_not_mem hp'⟩
      · rcases ih with ⟨hq, hqm⟩ | ⟨hq, hqp⟩
        · exact Or.inl ⟨.goes hn hr hq, hqm⟩
        · exact Or.inr ⟨.goes hn hr hq, hqp⟩
  · rintro (⟨h, hqm⟩ | ⟨h, rfl⟩)
    · induction h with
      | stays hn => exact .stays fun hmem => (Set.mem_insert_iff.1 hmem).elim hqm hn
      | goes hn hr _ ih => exact .goes (Set.mem_insert_of_mem m hn) hr (ih hqm)
    · induction h with
      | stays => exact .goes (Set.mem_insert _ X) hparents (.stays hp')
      | goes hn hr _ ih => exact .goes (Set.mem_insert_of_mem _ hn) hr (ih hm hne hparents hp')

/-! ## Graphs that are left by merges -/

/-- The graph `g` is left of `g₀` when regions have been merged into those in front of them. -/
structure MergedFrom (kept : NameSet) (g₀ g : RegionGraph) : Prop where
  /-- No region has come, and none has moved. -/
  names : g.names.Sublist g₀.names
  /-- The regions that have gone belong to any set that holds what can be merged once it has gone. -/
  gone_subset : ∀ {X : Set Name}, (∀ n, Superfluous kept g₀ X n → n ∈ X) → gone g₀ g ⊆ X
  /-- The exits of what is left lead where they have led, as far as that is left. -/
  targets : ∀ p ∈ g.names, g.targetsOf p = (g₀.targetsOf p).filter (· ∈ g.names)
  /-- No entrance of what is left has gone. -/
  parents : ∀ c ∈ g.names, g.parentsOf c = g₀.parentsOf c
  /-- Transitions stay where they are. -/
  transitions : ∀ q ∈ g.names, g.placedIn .transitions q = g₀.placedIn .transitions q
  /-- What is placed in a region has one place to end. -/
  heirs : ∀ n ∈ g₀.names, ∃! q, Heir g₀ (gone g₀ g) n q
  /-- Each location ends there. -/
  locations : ∀ {q x}, x ∈ g.placedIn .locations q ↔
    ∃ n, Heir g₀ (gone g₀ g) n q ∧ x ∈ g₀.placedIn .locations n

namespace MergedFrom

theorem refl (kept : NameSet) (hg : g.Consistent) : MergedFrom kept g g where
  names := .refl _
  gone_subset _ := gone_self ▸ Set.empty_subset _
  targets _ _ := (List.filter_eq_self.2 fun _ hc => decide_eq_true (hg.target_mem hc)).symm
  parents _ _ := rfl
  transitions _ _ := rfl
  heirs n _ := by
    rw [gone_self]
    exact ⟨n, heir_empty.2 rfl, fun q hq => heir_empty.1 hq⟩
  locations := by simp only [gone_self, heir_empty, exists_eq_left', implies_true]

theorem mem_names (h : MergedFrom kept g₀ g) : n ∈ g.names ↔ n ∈ g₀.names ∧ n ∉ gone g₀ g :=
  ⟨fun hn => ⟨h.names.subset hn, fun hmem => hmem.2 hn⟩,
    fun hn => by_contra fun hnot => hn.2 ⟨hn.1, hnot⟩⟩

theorem mem_targetsOf (h : MergedFrom kept g₀ g) :
    q ∈ g.targetsOf p ↔ q ∈ g₀.targetsOf p ∧ p ∈ g.names ∧ q ∈ g.names := by
  constructor
  · intro hq
    have hp := mem_names_of_mem_targetsOf hq
    rw [h.targets p hp, List.mem_filter] at hq
    exact ⟨hq.1, hp, of_decide_eq_true hq.2⟩
  · rintro ⟨hq, hp, hmem⟩
    rw [h.targets p hp]
    exact List.mem_filter.2 ⟨hq, decide_eq_true hmem⟩

theorem mem_transitions (h : MergedFrom kept g₀ g) {x : Name} :
    x ∈ g.placedIn .transitions q ↔ x ∈ g₀.placedIn .transitions q ∧ q ∈ g.names := by
  constructor
  · intro hx
    have hq := mem_names_of_mem_placedIn hx
    exact ⟨h.transitions q hq ▸ hx, hq⟩
  · rintro ⟨hx, hq⟩
    rwa [h.transitions q hq]

/-- A change of the alternatives alone. -/
theorem relists {R : List Branch → List Branch → Prop} (h : MergedFrom kept g₀ g)
    (hrel : Relists R g g') : MergedFrom kept g₀ g' := by
  have hgone : gone g₀ g' = gone g₀ g := by
    unfold gone
    rw [hrel.names]
  exact {
    names := hrel.names ▸ h.names
    gone_subset := hgone ▸ h.gone_subset
    targets := fun p hp => by
      rw [hrel.targetsOf, hrel.names]
      exact h.targets p (hrel.names ▸ hp)
    parents := fun c hc => hrel.parentsOf.trans (h.parents c (hrel.names ▸ hc))
    transitions := fun q hq => hrel.placedIn.trans (h.transitions q (hrel.names ▸ hq))
    heirs := hgone ▸ h.heirs
    locations := fun {q x} => by
      rw [hrel.placedIn, hgone]
      exact h.locations }

/-- What can be merged could be merged at the beginning, once what has gone had gone. -/
theorem superfluous (h : MergedFrom kept g₀ g) (hg₀ : g₀.Consistent) (hn : n ∈ g.names)
    (hm : Mergeable kept g p n) : Superfluous kept g₀ (gone g₀ g) n where
  not_kept := hm.not_kept
  transitions := (h.transitions n hn).symm.trans hm.transitions
  parents := ⟨p, (h.parents n hn).symm.trans hm.parents⟩
  targets c hc := by
    refine ⟨hg₀.target_mem hc, fun hmem => ?_⟩
    -- an exit to a region that is left would be left
    have hleft : c ∈ g.targetsOf n := by
      rw [h.targets n hn]
      exact List.mem_filter.2 ⟨hc, decide_eq_true hmem⟩
    rw [targetsOf, hm.exits] at hleft
    cases hleft

/-! ### One more merge -/

theorem gone_mergedInto (h : MergedFrom kept g₀ g) (hg : g.Consistent) (hn : n ∈ g.names) :
    gone g₀ (g.mergedInto p n) = insert n (gone g₀ g) := by
  have hn₀ := h.names.subset hn
  ext q
  show q ∈ g₀.names ∧ q ∉ (g.mergedInto p n).names ↔ q = n ∨ q ∈ g₀.names ∧ q ∉ g.names
  rw [hg.mem_names_mergedInto]
  by_cases hq : q = n
  · simp [hq, hn₀]
  · simp [hq]

theorem heir_mergedInto (h : MergedFrom kept g₀ g) (hg : g.Consistent) (hm : Mergeable kept g p n) :
    Heir g₀ (gone g₀ (g.mergedInto p n)) m q ↔
      Heir g₀ (gone g₀ g) m q ∧ q ≠ n ∨ Heir g₀ (gone g₀ g) m n ∧ q = p := by
  have hn := hg.mem_of_parent hm.parent_mem
  have hp := hg.parent_mem hm.parent_mem
  rw [h.gone_mergedInto hg hn]
  exact heir_insert (fun hmem => hmem.2 hn) (fun hmem => hmem.2 hp) (hm.ne hg)
    ((h.parents n hn).symm.trans hm.parents)

theorem mem_locations_mergedInto (h : MergedFrom kept g₀ g) (hg : g.Consistent)
    (hm : Mergeable kept g p n) {x : Name} :
    x ∈ (g.mergedInto p n).placedIn .locations q ↔
      ∃ m, Heir g₀ (gone g₀ (g.mergedInto p n)) m q ∧ x ∈ g₀.placedIn .locations m := by
  have hne := hm.ne hg
  rw [hg.placedIn_mergedInto (hg.parent_mem hm.parent_mem) hne]
  simp only [h.heir_mergedInto hg hm]
  by_cases hqn : q = n
  · simp [hqn, Ne.symm hne]
  rw [if_neg hqn]
  by_cases hqp : q = p
  · -- the region in front takes in what has been placed in the one that goes
    simp only [hqp, and_self, if_true, mem_foldl_addOnce, h.locations, ← exists_or, ← or_and_right]
    simp [hne]
  · simp only [hqp, false_and, if_false, h.locations]
    simp [hqn]

theorem mergedInto (h : MergedFrom kept g₀ g) (hg₀ : g₀.Consistent) (hg : g.Consistent)
    (hm : Mergeable kept g p n) : MergedFrom kept g₀ (g.mergedInto p n) where
  names := by
    rw [names_mergedInto]
    exact List.erase_sublist.trans h.names
  gone_subset {X} hX := by
    -- the region is superfluous as soon as those have gone that have gone before it
    have hn := hg.mem_of_parent hm.parent_mem
    have hbefore := h.gone_subset hX
    have hsuper := h.superfluous hg₀ hn hm
    rw [h.gone_mergedInto hg hn]
    exact Set.insert_subset (hX n { hsuper with targets := fun c hc => hbefore (hsuper.targets c hc) }) hbefore
  targets q hq := by
    obtain ⟨hq, hqn⟩ := hg.mem_names_mergedInto.1 hq
    rw [hg.targetsOf_mergedInto, if_neg (Ne.symm hqn), h.targets q hq, List.filter_filter]
    refine List.filter_congr fun c _ => ?_
    rw [Bool.eq_iff_iff]
    simp [hg.mem_names_mergedInto, and_comm]
  parents c hc := by
    obtain ⟨hc, hcn⟩ := hg.mem_names_mergedInto.1 hc
    -- the region has no exits, so it is no entrance of what is left
    have hnot : n ∉ g.parentsOf c := fun hmem => by
      have htarget := hg.mem_parentsOf.1 hmem
      rw [targetsOf, hm.exits] at htarget
      cases htarget
    rw [hg.parentsOf_mergedInto, if_neg (Ne.symm hcn), List.erase_of_not_mem hnot, h.parents c hc]
  transitions q hq := by
    obtain ⟨hq, hqn⟩ := hg.mem_names_mergedInto.1 hq
    have hplaced : ¬(q = p ∧ Placed.transitions = Placed.locations) := by simp
    rw [hg.placedIn_mergedInto (hg.parent_mem hm.parent_mem) (hm.ne hg), if_neg hqn, if_neg hplaced,
      h.transitions q hq]
  heirs r hr := by
    obtain ⟨q, hq, -⟩ := h.heirs r hr
    have hexists : ∃ q, Heir g₀ (gone g₀ (g.mergedInto p n)) r q := by
      by_cases hqn : q = n
      · exact ⟨p, (h.heir_mergedInto hg hm).2 (Or.inr ⟨hqn ▸ hq, rfl⟩)⟩
      · exact ⟨q, (h.heir_mergedInto hg hm).2 (Or.inl ⟨hq, hqn⟩)⟩
    obtain ⟨q', hq'⟩ := hexists
    exact ⟨q', hq', fun _ h' => hq'.unique h'⟩
  locations := h.mem_locations_mergedInto hg hm

/-- When no more regions can be merged, the least set has gone that holds what can be merged once it has
gone. -/
theorem isLeast (h : MergedFrom kept g₀ g) (hg₀ : g₀.Consistent) (hidle : ∀ n, ¬∃ p, Mergeable kept g p n) :
    IsLeast {X : Set Name | ∀ n, Superfluous kept g₀ X n → n ∈ X} (gone g₀ g) := by
  refine ⟨fun n hn => ?_, fun X hX => h.gone_subset hX⟩
  obtain ⟨p, hp⟩ := hn.parents
  have hn₀ : n ∈ g₀.names := hg₀.mem_of_parent (by rw [hp]; exact List.mem_singleton_self p)
  refine ⟨hn₀, fun hmem => hidle n ⟨p, hn.not_kept, ?_, ?_, (h.parents n hmem).trans hp⟩⟩
  · have htargets : g.targetsOf n = [] := by
      rw [h.targets n hmem, List.filter_eq_nil_iff]
      intro c hc
      simpa using (hn.targets c hc).2
    exact List.map_eq_nil_iff.1 htargets
  · exact (h.transitions n hmem).trans hn.transitions

end MergedFrom

/-! ## The rounds -/

namespace Building

variable {s t : Session} {attempt : Name → Building (Option Name)} {I : RegionGraph → Prop}
  {report : CleanupReport}

/-- What each attempt preserves a pass over the regions preserves. -/
theorem forEachRegion_preserves
    (h : ∀ (s : Session) (n : Name), I s.graph → n ∈ s.graph.names → I (outcome (attempt n) s).2.graph)
    (hs : I s.graph) : I (outcome (forEachRegion attempt) s).2.graph := by
  have hpass (ns : List Name) : I (outcome (ns.filterMapM (attemptIfThere attempt)) s).2.graph := by
    induction ns generalizing s with
    | nil => exact hs
    | cons n ns ih =>
      have hone : I (outcome (attemptIfThere attempt n) s).2.graph := by
        rw [attemptIfThere, outcome_graph_bind]
        split
        · next hthere => exact h s n hs (Entries.isSome_find?.1 hthere)
        · exact hs
      rw [List.filterMapM_cons]
      refine bind_preserves hone fun r t ht => ?_
      cases r with
      | none => exact ih ht
      | some m => exact bind_preserves (ih ht) fun _ _ ht' => ht'
  exact hpass s.graph.names

/-- What each change of the alternatives preserves a sweep preserves. -/
theorem sweep_preserves (classify : Classifier) (options : CleanupOptions)
    (hlists : ∀ {R g g'}, I g → Relists R g g' → (∀ {l l'}, R l l' → l ≠ [] → l' ≠ []) → I g')
    (hs : I s.graph) : I (outcome (sweep classify options) s).2.graph := by
  have hall : s.graph.AllBranches (·.Modifies fun _ => True) := fun _ _ _ _ _ _ => trivial
  rcases outcome_sweep classify options hall with ⟨n, g, events, ho, hswept⟩ | ⟨fault, g, events, ho, hswept, -⟩
  · rw [ho]
    exact hlists hs hswept fun hl => hl.swept.ne_nil
  · rw [ho]
    exact hlists hs hswept fun hl => hl.ne_nil

section Merges

variable (hcycles : options.mergeCycles = false) (hempty : options.removeEmpty = false)
  (hconsistent : ∀ {g}, I g → g.Consistent)
  (hmerge : ∀ {g p n}, I g → Mergeable kept g p n → I (g.mergedInto p n))
  (hlists : ∀ {R g g'}, I g → Relists R g g' → (∀ {l l'}, R l l' → l ≠ [] → l' ≠ []) → I g')

include hcycles hempty hconsistent hmerge

/-- Where only merges are to be tried a round preserves what each merge preserves. -/
theorem round_preserves (classify : Classifier) (hs : I s.graph) :
    I (outcome (round classify kept options) s).2.graph := by
  have hattempt (s : Session) (n : Name) (hs : I s.graph) (hn : n ∈ s.graph.names) :
      I (outcome (mergeIntoParent? kept n) s).2.graph := by
    by_cases hm : ∃ p, Mergeable kept s.graph p n
    · obtain ⟨p, hm⟩ := hm
      obtain ⟨events, ho⟩ := outcome_mergeIntoParent? (hconsistent hs) hm
      rw [ho]
      exact hmerge hs hm
    · rw [outcome_mergeIntoParent?_of_not hn hm]
      exact hs
  rw [round_eq]
  refine bind_preserves (forEachRegion_preserves hattempt hs) fun m t ht => ?_
  -- the other passes are off
  simp only [hcycles, hempty, Bool.and_false]
  exact ht

include hlists

theorem rounds_preserves (limit : Nat) (report : CleanupReport) (hs : I s.graph) :
    I (outcome (rounds classify kept options limit report) s).2.graph := by
  induction limit generalizing report s with
  | zero => exact hs
  | succ limit ih =>
    rw [rounds]
    refine bind_preserves (round_preserves hcycles hempty hconsistent hmerge classify hs) fun r t ht => ?_
    split
    · exact ht
    · refine bind_preserves ht fun _ u hu => ?_
      exact bind_preserves (sweep_preserves classify options hlists hu) fun _ _ hv => ih _ hv

theorem simplify_preserves (hkept : s.graph.protectedRegions keep = kept) (hs : I s.graph) :
    I (outcome (simplify classify keep options) s).2.graph := by
  rw [simplify, outcome_graph_bind, hkept]
  refine bind_preserves (sweep_preserves classify options hlists hs) fun _ t ht => ?_
  rw [outcome_graph_bind]
  exact rounds_preserves hcycles hempty hconsistent hmerge hlists _ _ ht

end Merges

/-- A cleanup where only merges are to be tried leaves a graph from which as much has been merged as can
be. -/
theorem clean_mergedFrom (hcycles : options.mergeCycles = false) (hempty : options.removeEmpty = false)
    (hg : s.graph.Consistent) (ho : outcome (clean classify keep options) s = (.ok report, t)) :
    MergedFrom (s.graph.protectedRegions keep) s.graph t.graph ∧
      IsLeast {X : Set Name | ∀ n, Superfluous (s.graph.protectedRegions keep) s.graph X n → n ∈ X}
        (gone s.graph t.graph) := by
  have hstart := start_mem_protectedRegions keep s.graph
  let I : RegionGraph → Prop := fun g =>
    g.Consistent ∧ MergedFrom (s.graph.protectedRegions keep) s.graph g
  -- a graph that is left by merges stays one with each further merge and each sweep
  have hmerge {g : RegionGraph} {p n : Name} (h : I g)
      (hm : Mergeable (s.graph.protectedRegions keep) g p n) : I (g.mergedInto p n) := by
    have hremoval : Removal classify (s.graph.protectedRegions keep) g n (g.mergedInto p n) := .merge hm
    exact ⟨hremoval.consistent h.1 hstart, h.2.mergedInto hg h.1 hm⟩
  have hsimplified : I (outcome (simplify classify keep options) s).2.graph :=
    simplify_preserves hcycles hempty (fun h => h.1) hmerge
      (fun h hrel hR => ⟨h.1.relists hrel hR, h.2.relists hrel⟩) rfl ⟨hg, .refl _ hg⟩
  have hmerged : MergedFrom (s.graph.protectedRegions keep) s.graph t.graph := by
    rcases outcome_clean classify keep options s with
      ⟨fault, t', -, hfail⟩ | ⟨report', t', g, hok, hstrip, ho'⟩
    · cases hfail.symm.trans ho
    · obtain ⟨-, rfl⟩ := Prod.mk.inj (ho'.symm.trans ho)
      rw [hok] at hsimplified
      exact hsimplified.2.relists hstrip
  exact ⟨hmerged, hmerged.isLeast hg fun n hm => not_canGo_of_clean hg ho (Or.inl hm)⟩

end Building

/-! ## Which regions are kept -/

theorem protectedRegions_mono {keep' : NameSet} (h : keep ⊆ keep') :
    g.protectedRegions keep ⊆ g.protectedRegions keep' := by
  intro n hn
  rcases mem_protectedRegions.1 hn with hn | hn | hn
  · exact mem_protectedRegions.2 (Or.inl hn)
  · exact mem_protectedRegions.2 (Or.inr (Or.inl (h n hn)))
  · exact mem_protectedRegions.2 (Or.inr (Or.inr hn))

theorem protectedRegions_eq_of_shows (keep : NameSet) (h : ∀ f, g.Shows f ↔ g'.Shows f)
    (hg : g.Consistent) (hg' : g'.Consistent) :
    g.protectedRegions keep = g'.protectedRegions keep := by
  -- the regions that no branch requires are the same
  have hrequired (n : Name) : g.AllBranches (fun b => n ∉ b.regions) ↔
      g'.AllBranches fun b => n ∉ b.regions :=
    ⟨allBranches_of_shows h hg hg', allBranches_of_shows (fun f => (h f).symm) hg' hg⟩
  ext n
  rw [mem_protectedRegions, mem_protectedRegions, requires_iff_not_allBranches,
    requires_iff_not_allBranches, hrequired]

/-! ## Graphs of the same shape -/

section SameShape

variable (hshape : SameShape g g') (hg : g.Consistent) (hg' : g'.Consistent)

include hshape hg hg'

theorem Superfluous.of_sameShape (h : Superfluous kept g X n) : Superfluous kept g' X n where
  not_kept := h.not_kept
  transitions := List.eq_nil_iff_forall_not_mem.2 fun x hx =>
    List.eq_nil_iff_forall_not_mem.1 h.transitions x (hshape.placed.2 hx)
  parents := by
    obtain ⟨p, hp⟩ := h.parents
    exact ⟨p, List.perm_singleton.1 (hp ▸ (hshape.parents hg hg' n).symm)⟩
  targets c hc := h.targets c (hshape.targets.2 hc)

theorem Heir.of_sameShape (h : Heir g X n q) : Heir g' X n q := by
  induction h with
  | stays hn => exact .stays hn
  | goes hn hp _ ih => exact .goes hn (List.perm_singleton.1 (hp ▸ (hshape.parents hg hg' _).symm)) ih

end SameShape

/-- As much as can be merged of two graphs of the same shape leaves graphs of the same shape. -/
theorem MergedFrom.sameShape {g₀' : RegionGraph} (hshape : SameShape g₀ g₀') (hg₀ : g₀.Consistent)
    (hg₀' : g₀'.Consistent) (h : MergedFrom kept g₀ g) (h' : MergedFrom kept g₀' g')
    (hleast : IsLeast {X : Set Name | ∀ n, Superfluous kept g₀ X n → n ∈ X} (gone g₀ g))
    (hleast' : IsLeast {X : Set Name | ∀ n, Superfluous kept g₀' X n → n ∈ X} (gone g₀' g')) :
    SameShape g g' := by
  -- which regions can be merged is read off the shape, so that the same ones have gone
  have hsets : {X : Set Name | ∀ n, Superfluous kept g₀ X n → n ∈ X} =
      {X : Set Name | ∀ n, Superfluous kept g₀' X n → n ∈ X} := by
    ext X
    exact ⟨fun hX n hn => hX n (hn.of_sameShape hshape.symm hg₀' hg₀),
      fun hX n hn => hX n (hn.of_sameShape hshape hg₀ hg₀')⟩
  rw [hsets] at hleast
  have hgone : gone g₀ g = gone g₀' g' := hleast.unique hleast'
  have hnames (n : Name) : n ∈ g.names ↔ n ∈ g'.names := by
    rw [h.mem_names, h'.mem_names, hshape.names, hgone]
  refine ⟨fun {n} => hnames n, fun {p t} => ?_, fun {kind q x} => ?_⟩
  · rw [h.mem_targetsOf, h'.mem_targetsOf, hshape.targets, hnames, hnames]
  · cases kind with
    | transitions => rw [h.mem_transitions, h'.mem_transitions, hshape.placed, hnames]
    | locations =>
      rw [h.locations, h'.locations, hgone]
      refine exists_congr fun n => and_congr ?_ hshape.placed
      exact ⟨fun hq => hq.of_sameShape hshape hg₀ hg₀', fun hq => hq.of_sameShape hshape.symm hg₀' hg₀⟩

/-- Where more regions are to be kept fewer go. -/
theorem gone_subset_gone (hkept : kept ⊆ kept')
    (hleast : IsLeast {X : Set Name | ∀ n, Superfluous kept g₀ X n → n ∈ X} (gone g₀ g))
    (hleast' : IsLeast {X : Set Name | ∀ n, Superfluous kept' g₀ X n → n ∈ X} (gone g₀ g')) :
    gone g₀ g' ⊆ gone g₀ g :=
  hleast'.2 fun n hn => hleast.1 n (hn.mono hkept)

/-- Where only merges are to be tried and the classifier knows the modifiers, a cleanup after any calls
succeeds and merges the least set of regions that holds what can be merged once it has gone. Where more
regions are to be kept, no region goes that has stayed otherwise. After a list of objects has been added it
does not matter in what order that was. -/
theorem clean_merges_after_calls (calls : List Call) (classify : Classifier) {keep keep' : NameSet}
    (hkeep : keep ⊆ keep') {options : CleanupOptions} (hcycles : options.mergeCycles = false)
    (hempty : options.removeEmpty = false)
    (hclassify : (Session.after {} calls).graph.AllBranches
      (·.Modifies fun m => ∃ kind, classify m = .ok kind)) :
    let g := (Session.after {} calls).graph
    ∃ report t, outcome (clean classify keep options) (Session.after {} calls) = (.ok report, t) ∧
      MergedFrom (g.protectedRegions keep) g t.graph ∧
      IsLeast {X : Set Name | ∀ n, Superfluous (g.protectedRegions keep) g X n → n ∈ X}
        (gone g t.graph) ∧
      (∃ report' t', outcome (clean classify keep' options) (Session.after {} calls) = (.ok report', t') ∧
        t.graph.names ⊆ t'.graph.names) ∧
      ∀ objects objects' : List LogicObject, calls = objects.map .ingest → objects.Perm objects' →
        ∃ report' t', outcome (clean classify keep options) (Session.after {} (objects'.map .ingest)) =
            (.ok report', t') ∧ SameShape t.graph t'.graph := by
  intro g
  have hg : g.Consistent := consistent_after fresh_consistent calls
  obtain ⟨report, t, ho⟩ := exists_of_clean keep options hg hclassify
  obtain ⟨hmerged, hleast⟩ := clean_mergedFrom hcycles hempty hg ho
  refine ⟨report, t, ho, hmerged, hleast, ?_, ?_⟩
  · obtain ⟨report', t', ho'⟩ := exists_of_clean keep' options hg hclassify
    obtain ⟨hmerged', hleast'⟩ := clean_mergedFrom hcycles hempty hg ho'
    refine ⟨report', t', ho', fun n hn => ?_⟩
    rw [hmerged.mem_names] at hn
    rw [hmerged'.mem_names]
    exact ⟨hn.1, fun hmem => hn.2 (gone_subset_gone (protectedRegions_mono hkeep) hleast hleast' hmem)⟩
  · rintro objects objects' rfl hperm
    -- the graphs show the same, so that the same regions are to be kept and the same ones go
    have hshows (f : Feature) := shows_after_perm (f := f) hperm
    have hg' : (Session.after {} (objects'.map .ingest)).graph.Consistent :=
      consistent_after fresh_consistent _
    obtain ⟨report', t', ho'⟩ := exists_of_clean keep options hg' (allBranches_of_shows hshows hg hg' hclassify)
    obtain ⟨hmerged', hleast'⟩ := clean_mergedFrom hcycles hempty hg' ho'
    have hkept := protectedRegions_eq_of_shows keep hshows hg hg'
    rw [← hkept] at hmerged' hleast'
    exact ⟨report', t', ho',
      hmerged.sameShape (sameShape_of_shows hshows hg hg') hg hg' hmerged' hleast hleast'⟩

/-- A chest in a cave. -/
def caveObjects : List LogicObject :=
  [{ name := "Cave", logic := [{}] },
    { name := "Chest", logic := [{ provider := some "Cave" }], handling := .location }]

theorem clean_merges_after_caveObjects :
    let classify : Classifier := fun _ => .ok .neutral
    let s := Session.after {} (caveObjects.map .ingest)
    ∃ report t, outcome (clean classify ∅ {}) s = (.ok report, t) ∧ t.graph.names = [startRegion] ∧
      MergedFrom (s.graph.protectedRegions ∅) s.graph t.graph ∧
      (∃ report' t', outcome (clean classify {("Cave" : Name)} {}) s = (.ok report', t') ∧
        t.graph.names ⊆ t'.graph.names) ∧
      ∃ report' t', outcome (clean classify ∅ {})
          (Session.after {} (caveObjects.reverse.map .ingest)) = (.ok report', t') ∧
        SameShape t.graph t'.graph := by
  intro classify s
  have hkeep : (∅ : NameSet) ⊆ {("Cave" : Name)} := by decide
  obtain ⟨report, t, ho, hmerged, -, hmore, hperm⟩ :=
    clean_merges_after_calls (caveObjects.map .ingest) classify hkeep
      (show ({} : CleanupOptions).mergeCycles = false from rfl) rfl fun _ _ _ _ _ _ => ⟨_, rfl⟩
  have hnames : (outcome (clean classify ∅ {}) s).2.graph.names = [startRegion] := by decide +kernel
  rw [ho] at hnames
  exact ⟨report, t, ho, hnames, hmerged, hmore, hperm _ _ rfl (List.reverse_perm _).symm⟩

end RegionLogic
