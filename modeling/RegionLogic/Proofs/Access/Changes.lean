import RegionLogic.Proofs.Access.Distribution
import RegionLogic.Proofs.Cleanup.Rounds
import RegionLogic.Proofs.Region.Placement

/-!
# Each change gives the same access

A sweep leaves for each branch one that serves in its place. A region that is merged has one entrance and
no exits, and what is placed in it is asked for the entrance as well. Regions that are joined are reached
in the same states. Whoever passes through an empty region can take an edge round it, and the round trips
that are left out help nobody.

## Main results

* `Relists.sameAccess`, `Mergeable.sameAccess`, `Absorbable.sameAccess`, `Bypassable.sameAccess`: the
  changes of a cleanup
-/

namespace RegionLogic

open RegionGraph

universe u

variable {σ : Type u} {classify : Classifier} {kept : NameSet} {S : Supply} {E : Effects σ}
  {start s t : σ} {g g' : RegionGraph} {n p c r x : Name} {b : Branch} {kind : Placed}

/-! ## Sweeps -/

section Sweep

variable (hrel : Relists (Settled classify true) g g')

include hrel

theorem RegionGraph.Relists.exists_way [Preorder σ] (hE : E.Respects classify) (hw : g.Way p b r) :
    ∃ a, g'.Way p a r ∧ a.Serves S E b := by
  obtain ⟨e, he, rfl, hb⟩ := hw
  obtain ⟨e', he', htarget, hlogic⟩ := exists_right_of_forall₂ hrel.exitsOf he
  obtain ⟨a, ha, hserves⟩ := hE.exists_serves (S := S) hlogic hb
  exact ⟨a, ⟨e', he', htarget, ha⟩, hserves⟩

theorem RegionGraph.Relists.covers [Preorder σ] (hE : E.Respects classify)
    (h : g.Reaches S E start r s) : g'.Covers S E start r s := by
  induction h with
  | start => exact Reaches.start.covers
  | step _ hw ht ih =>
    obtain ⟨a, hw', hserves⟩ := hrel.exists_way (S := S) hE hw
    obtain ⟨t', hle, ht'⟩ := hserves ht
    exact (ih.step hE hw' ht').of_le hle

theorem RegionGraph.Relists.reaches (h : g'.Reaches S E start r s) : g.Reaches S E start r s :=
  h.mono fun hw => hrel.way_of_way (fun hl => hl.swept.sublist.subset) hw

/-- A sweep leaves for each branch one that serves in its place. -/
theorem RegionGraph.Relists.sameAccess [Preorder σ] (hE : E.Respects classify) :
    SameAccess S E start g g' where
  names := by rw [hrel.names]; exact List.Subset.refl _
  covers _ h := hrel.covers hE h
  reaches h := hrel.reaches h
  obtainable kind x := by
    constructor
    · rintro ⟨p, s, l', hx, hreach, hl', hopen⟩
      obtain ⟨l, hl, hsite⟩ := hrel.exists_site hl'
      rw [hrel.placedIn] at hx
      refine ⟨p, s, l, hx, hrel.reaches hreach, hl, ?_⟩
      rcases hopen with hnil | ⟨b, hb, hopen⟩
      · exact Or.inl (Decidable.byContradiction fun hne => hsite.logic.swept.ne_nil hne hnil)
      · exact Or.inr ⟨b, hsite.logic.swept.sublist.subset hb, hopen⟩
    · rintro ⟨p, s, l, hx, hreach, hl, hopen⟩
      obtain ⟨l', hl', hsite⟩ := hrel.exists_site_left hl
      refine (hrel.covers hE hreach).obtainable hE (hrel.placedIn ▸ hx) hl' ?_
      rcases hopen with hnil | ⟨b, hb, hopen⟩
      · have hsub := hsite.logic.swept.sublist
        rw [hnil] at hsub
        exact Or.inl (List.sublist_nil.1 hsub)
      · obtain ⟨a, ha, hserves⟩ := hE.exists_serves (S := S) hsite.logic hb
        exact Or.inr ⟨a, ha, hserves.satisfied hopen⟩

end Sweep

/-! ## Merging -/

section Merge

variable (h : Mergeable kept g p n) (hg : g.Consistent)

include h hg

/-- Nothing but the region itself was reached through it. -/
theorem Mergeable.reaches_iff (hstart : startRegion ∈ kept) :
    (g.mergedInto p n).Reaches S E start r s ↔ g.Reaches S E start r s ∧ r ≠ n := by
  constructor
  · intro hreach
    induction hreach with
    | start => exact ⟨.start, fun hn => h.not_kept (hn ▸ hstart)⟩
    | step _ hw ht ih =>
      obtain ⟨hw, -, hr⟩ := hg.way_mergedInto.1 hw
      exact ⟨ih.1.step hw ht, hr⟩
  · rintro ⟨hreach, hr⟩
    induction hreach with
    | start => exact .start
    | @step q r b s t _ hw ht ih =>
      have hq : q ≠ n := by
        rintro rfl
        have hmem := hw.mem_targetsOf
        simp [targetsOf, h.exits] at hmem
      exact (ih hq).step (hg.way_mergedInto.2 ⟨hw, hq, hr⟩) ht

/-- The region was entered from the one in front of it. -/
theorem Mergeable.exists_entrance (hstart : startRegion ∈ kept) (hreach : g.Reaches S E start n t) :
    ∃ s, g.Reaches S E start p s ∧ ∃ b ∈ g.exitLogic p n, b.Takes S E s t := by
  generalize hn : n = r at hreach
  cases hreach with
  | start => exact absurd (hn ▸ hstart) h.not_kept
  | @step q _ b s _ hreach hw ht =>
    subst hn
    have hq := hg.mem_parentsOf.2 hw.mem_targetsOf
    rw [h.parents, List.mem_singleton] at hq
    subst hq
    exact ⟨s, hreach, b, hg.way_iff_mem_exitLogic.1 hw, ht⟩

theorem Mergeable.mem_placedIn (hr : r ≠ n) :
    x ∈ (g.mergedInto p n).placedIn kind r ↔
      x ∈ g.placedIn kind r ∨ (r = p ∧ kind = .locations) ∧ x ∈ g.placedIn .locations n := by
  rw [hg.placedIn_mergedInto (hg.parent_mem h.parent_mem) (h.ne hg), if_neg hr]
  split
  · next hc => simp [hc, mem_foldl_addOnce]
  · next hc => simp [hc]

theorem Mergeable.obtainable_of_mergedInto (hw : g.WellPlaced) (hstart : startRegion ∈ kept)
    (hx : (g.mergedInto p n).Obtainable S E start kind x) : g.Obtainable S E start kind x := by
  obtain ⟨r, s, l', hx, hreach', hl', hopen⟩ := hx
  obtain ⟨hreach, hr⟩ := (h.reaches_iff hg hstart).1 hreach'
  by_cases hxn : x ∈ g.placedIn kind n
  · -- what was placed in the region is now placed in the one in front of it
    obtain hxr | ⟨⟨rfl, rfl⟩, -⟩ := (h.mem_placedIn hg hr).1 hx
    · exact absurd (hw.unique hxr hxn) hr
    rw [find?_locations_mergedInto (hw.nodup _ _), if_pos hxn] at hl'
    obtain ⟨l, hl, rfl⟩ := Option.map_eq_some_iff.1 hl'
    have hentrance := hg.exitLogic_ne_nil (hg.mem_parentsOf.1 h.parent_mem)
    obtain ⟨t, hentered, hopen⟩ := Site.open_behind.1 hopen
    obtain ⟨a, ha, hat⟩ := (logicTakes_of_ne_nil hentrance).1 hentered
    exact ⟨n, t, l, hxn, hreach.step (hg.way_iff_mem_exitLogic.2 ha) hat, hl, hopen⟩
  · rw [find?_sites_mergedInto_of_not_mem (hw.nodup _ _) hxn] at hl'
    obtain hxr | ⟨⟨-, rfl⟩, hxn'⟩ := (h.mem_placedIn hg hr).1 hx
    · exact ⟨r, s, l', hxr, hreach, hl', hopen⟩
    · exact absurd hxn' hxn

theorem Mergeable.obtainable_mergedInto (hw : g.WellPlaced) (hstart : startRegion ∈ kept)
    (hx : g.Obtainable S E start kind x) : (g.mergedInto p n).Obtainable S E start kind x := by
  obtain ⟨r, s, l, hx, hreach, hl, hopen⟩ := hx
  by_cases hr : r = n
  · subst hr
    cases kind with
    | transitions => simp [h.transitions] at hx
    | locations =>
      -- whoever entered the region to open the location opens it from the one in front of it
      obtain ⟨s₀, hreach₀, a, ha, hat⟩ := h.exists_entrance hg hstart hreach
      have hl' := find?_locations_mergedInto (p := p) (hw.nodup .locations r) (y := x)
      rw [if_pos hx, hl] at hl'
      exact ⟨p, s₀, _, (h.mem_placedIn hg (h.ne hg)).2 (Or.inr ⟨⟨rfl, rfl⟩, hx⟩),
        (h.reaches_iff hg hstart).2 ⟨hreach₀, h.ne hg⟩, hl',
        Site.open_behind.2 ⟨s, logicTakes_of_mem ha hat, hopen⟩⟩
  · have hxn : x ∉ g.placedIn kind n := fun hxn => hr (hw.unique hx hxn)
    exact ⟨r, s, l, (h.mem_placedIn hg hr).2 (Or.inl hx), (h.reaches_iff hg hstart).2 ⟨hreach, hr⟩,
      (find?_sites_mergedInto_of_not_mem (hw.nodup _ _) hxn).trans hl, hopen⟩

/-- Merging a region gives the same access. -/
theorem Mergeable.sameAccess [Preorder σ] (hw : g.WellPlaced) (hstart : startRegion ∈ kept) :
    SameAccess S E start g (g.mergedInto p n) where
  names := by rw [names_mergedInto]; exact List.erase_subset
  covers {r s} hr hreach := by
    rw [names_mergedInto] at hr
    have hrn : r ≠ n := by
      rintro rfl
      exact hg.names_nodup.not_mem_erase hr
    exact ((h.reaches_iff hg hstart).2 ⟨hreach, hrn⟩).covers
  reaches hreach := ((h.reaches_iff hg hstart).1 hreach).1
  obtainable _ _ := ⟨h.obtainable_of_mergedInto hg hw hstart, h.obtainable_mergedInto hg hw hstart⟩

end Merge

/-! ## Joining -/

section Join

variable (h : Absorbable kept g p c) (hg : g.Consistent)

include h hg

theorem Absorbable.reaches_out (hreach : g.Reaches S E start p s) : g.Reaches S E start c s := by
  obtain ⟨b, hw⟩ := hg.exists_way h.out
  obtain rfl := h.out_free hw
  exact hreach.step hw (Branch.takes_empty.2 rfl)

theorem Absorbable.reaches_back (hreach : g.Reaches S E start c s) : g.Reaches S E start p s := by
  obtain ⟨b, hw⟩ := hg.exists_way h.back
  obtain rfl := h.back_free hw
  exact hreach.step hw (Branch.takes_empty.2 rfl)

/-- What was reached is reached in the same state, and `p` where `c` was. -/
theorem Absorbable.reaches_absorbed (hstart : startRegion ∈ kept) (hreach : g.Reaches S E start r s) :
    (g.absorbed p c).Reaches S E start (if r = c then p else r) s := by
  have hp := mem_names_of_mem_targetsOf h.out
  induction hreach with
  | start =>
    have hne : startRegion ≠ c := fun hc => h.not_kept (hc ▸ hstart)
    rw [if_neg hne]
    exact .start
  | @step q r b s t _ hw ht ih =>
    by_cases hq : q = c
    · subst hq
      rw [if_pos rfl] at ih
      by_cases hr : r = p
      · -- the way back leads to where one is
        subst hr
        obtain rfl := h.back_free hw
        obtain rfl := Branch.takes_empty.1 ht
        rwa [if_neg h.ne.symm]
      · have hne : (if r = q then p else r) ≠ q := by
          split
          · exact h.ne.symm
          · next hrq => exact hrq
        exact ih.step ((hg.way_absorbed hp h.ne).2
          ⟨⟨h.ne.symm, hne⟩, Or.inr (Or.inl ⟨rfl, r, hr, hw, rfl⟩)⟩) ht
    · rw [if_neg hq] at ih
      by_cases hr : r = c
      · subst hr
        rw [if_pos rfl]
        by_cases hqp : q = p
        · subst hqp
          obtain rfl := h.out_free hw
          obtain rfl := Branch.takes_empty.1 ht
          exact ih
        · exact ih.step ((hg.way_absorbed hp h.ne).2
            ⟨⟨hq, h.ne.symm⟩, Or.inr (Or.inr ⟨hqp, rfl, hw⟩)⟩) ht
      · rw [if_neg hr]
        exact ih.step ((hg.way_absorbed hp h.ne).2 ⟨⟨hq, hr⟩, Or.inl hw⟩) ht

theorem Absorbable.reaches_of_absorbed (hreach : (g.absorbed p c).Reaches S E start r s) :
    g.Reaches S E start r s := by
  have hp := mem_names_of_mem_targetsOf h.out
  induction hreach with
  | start => exact .start
  | step _ hw' ht ih =>
    obtain ⟨-, hw | ⟨rfl, r, hr, hw, rfl⟩ | ⟨-, rfl, hw⟩⟩ := (hg.way_absorbed hp h.ne).1 hw'
    · exact ih.step hw ht
    · have hreach := (h.reaches_out hg ih).step hw ht
      split
      · next hrc => exact h.reaches_back hg (hrc ▸ hreach)
      · exact hreach
    · exact h.reaches_back hg (ih.step hw ht)

/-- Joining a region to its neighbour gives the same access. -/
theorem Absorbable.sameAccess [Preorder σ] (hstart : startRegion ∈ kept) :
    SameAccess S E start g (g.absorbed p c) where
  -- the states are the same, so what is moved to `p` is opened in them there
  names := by
    rw [hg.names_absorbed (mem_names_of_mem_targetsOf h.out)]
    exact List.erase_subset
  covers {r s} hr hreach := by
    rw [hg.names_absorbed (mem_names_of_mem_targetsOf h.out)] at hr
    have hrc : r ≠ c := by
      rintro rfl
      exact hg.names_nodup.not_mem_erase hr
    have hreach' := h.reaches_absorbed hg hstart hreach
    rw [if_neg hrc] at hreach'
    exact hreach'.covers
  reaches hreach := h.reaches_of_absorbed hg hreach
  obtainable kind x := by
    have hp := mem_names_of_mem_targetsOf h.out
    constructor
    · rintro ⟨r, s, l, hx, hreach', hl, hopen⟩
      have hreach := h.reaches_of_absorbed hg hreach'
      rw [hg.sites_absorbed hp] at hl
      rw [hg.placedIn_absorbed hp] at hx
      split at hx
      · cases hx
      split at hx
      · next hr =>
        subst hr
        rcases mem_foldl_addOnce.1 hx with hx | hx
        · exact ⟨r, s, l, hx, hreach, hl, hopen⟩
        · exact ⟨c, s, l, hx, h.reaches_out hg hreach, hl, hopen⟩
      · exact ⟨r, s, l, hx, hreach, hl, hopen⟩
    · rintro ⟨r, s, l, hx, hreach, hl, hopen⟩
      refine ⟨_, s, l, ?_, h.reaches_absorbed hg hstart hreach, by rwa [hg.sites_absorbed hp], hopen⟩
      rw [hg.placedIn_absorbed hp]
      by_cases hr : r = c
      · subst hr
        rw [if_pos rfl, if_neg h.ne.symm, if_pos rfl]
        exact mem_foldl_addOnce.2 (Or.inr hx)
      · rw [if_neg hr, if_neg hr]
        split
        · exact mem_foldl_addOnce.2 (Or.inl hx)
        · exact hx

end Join

/-! ## Leading entrances round a region -/

/-- A way of `g` leads into the region `n` from a region that `g'` reaches, to a state at least as good
as `s`. -/
def RegionGraph.Approaches [LE σ] (S : Supply) (E : Effects σ) (start : σ) (g g' : RegionGraph) (n : Name)
    (s : σ) : Prop :=
  ∃ q a s₀ t, q ≠ n ∧ g.Way q a n ∧ g'.Reaches S E start q s₀ ∧ a.Takes S E s₀ t ∧ s ≤ t

section Bypass

variable (hg : g.Consistent) (hok : ∀ w ∈ g.passages n, ∃ o, w.detour classify = .ok o)

include hg hok

/-- An edge round the region leads where a way through it does. -/
theorem RegionGraph.Consistent.reaches_of_bypassed (hreach : (g.bypassed classify n).Reaches S E start r s) :
    g.Reaches S E start r s := by
  induction hreach with
  | start => exact .start
  | step _ hw ht ih =>
    obtain ⟨hw, -, -⟩ | ⟨a, c, ha, hc, rfl, -⟩ := (hg.way_bypassed hok).1 hw
    · exact ih.step hw ht
    · obtain ⟨u, hau, hcu⟩ := Branch.takes_add.1 ht
      exact (ih.step ha hau).step hc hcu

variable [Preorder σ] (hE : E.Respects classify)

include hE

/-- Whoever has passed through the region gets as far by an edge round it, or is where one was before in no
better state. -/
theorem RegionGraph.Approaches.covers (hn : g.Approaches S E start (g.bypassed classify n) n s)
    (hw : g.Way n b r) (ht : b.Takes S E s t) : (g.bypassed classify n).Covers S E start r t := by
  obtain ⟨q, a, s₀, s₁, -, ha, hreach, has, hle⟩ := hn
  obtain ⟨t₁, htt, hbt⟩ := hE.takes_mono hle ht
  have hround : (a + b).Takes S E s₀ t₁ := Branch.takes_add.2 ⟨s₁, has, hbt⟩
  by_cases hu : q = r → (a + b).Useful classify
  · exact ⟨t₁, htt, hreach.step ((hg.way_bypassed hok).2 (Or.inr ⟨a, b, ha, hw, rfl, hu⟩)) hround⟩
  · rw [Classical.not_imp] at hu
    obtain ⟨rfl, hu⟩ := hu
    -- the round trip has been left out, and it makes nothing better
    have hworse : t₁ ≤ s₀ := by
      obtain ⟨e, he, ht, hb⟩ := hw
      obtain ⟨o, ho⟩ := hok ⟨q, g.exitLogic q n, e⟩
        (mem_passages.2 ⟨hg.mem_parentsOf.2 ha.mem_targetsOf, rfl, he⟩)
      have hmem : a + b ∈ distribute (g.exitLogic q n) e.logic :=
        (mem_distribute (hg.exitLogic_ne_nil ha.mem_targetsOf) (hg.exit_logic he)).2
          ⟨a, hg.way_iff_mem_exitLogic.1 ha, b, hb, rfl⟩
      have hrun := hround.2
      rcases modifiers_of_not_useful ho ht.symm hmem hu with hnil | hmany
      · rw [hnil] at hrun
        exact (Option.some.inj hrun).ge
      · exact hE.run_hurts (harms_of_many_eq_detrimental hmany) hrun
    exact ⟨s₀, htt.trans hworse, hreach⟩

variable (h : Bypassable kept g n)

include h

/-- What was reached is reached in a state at least as good; the region itself is approached. -/
theorem Bypassable.covers (hreach : g.Reaches S E start r s) (hstart : startRegion ∈ kept) :
    (r ≠ n → (g.bypassed classify n).Covers S E start r s) ∧
      (r = n → g.Approaches S E start (g.bypassed classify n) n s) := by
  induction hreach with
  | start =>
    refine ⟨fun _ => Reaches.start.covers, fun hn => ?_⟩
    exact absurd hn.symm (h.ne_start hstart)
  | @step q r b s t _ hw ht ih =>
    -- the last region is the one that goes, or it is left and covered
    by_cases hq : q = n
    · subst hq
      refine ⟨fun _ => (ih.2 rfl).covers hg hok hE hw ht, fun hr => ?_⟩
      subst hr
      exact absurd (hg.mem_parentsOf.2 hw.mem_targetsOf) h.no_loop
    · have hcovers := ih.1 hq
      constructor
      · intro hr
        exact hcovers.step hE ((hg.way_bypassed hok).2 (Or.inl ⟨hw, hq, hr⟩)) ht
      · rintro rfl
        obtain ⟨s₀, hle, hreach⟩ := hcovers
        obtain ⟨t', htt, ht'⟩ := hE.takes_mono hle ht
        exact ⟨q, b, s₀, t', hq, hw, hreach, ht', htt⟩

/-- Leading the entrances of an empty region round it gives the same access. -/
theorem Bypassable.sameAccess (hstart : startRegion ∈ kept) :
    SameAccess S E start g (g.bypassed classify n) := by
  have hrewires : Rewires (fun _ => True) (g.without n) (g.bypassed classify n) := h.rewires hg hstart
  have hnames : (g.bypassed classify n).names = g.names.erase n := hrewires.names.trans names_without
  have hsites kind : (g.bypassed classify n).sites kind = g.sites kind :=
    (hrewires.sites kind).trans (sites_without kind)
  have hplaced {kind r x} (hx : x ∈ g.placedIn kind r) :
      r ≠ n ∧ x ∈ (g.bypassed classify n).placedIn kind r := by
    have hr : r ≠ n := by
      rintro rfl
      simp [h.empty kind] at hx
    rw [hrewires.placedIn, hg.placedIn_without, if_neg (Ne.symm hr)]
    exact ⟨hr, hx⟩
  refine ⟨hnames ▸ List.erase_subset, fun {r s} hr hreach => ?_,
    fun hreach => hg.reaches_of_bypassed hok hreach, fun kind x => ⟨?_, ?_⟩⟩
  · rw [hnames] at hr
    refine (h.covers hg hok hE hreach hstart).1 ?_
    rintro rfl
    exact hg.names_nodup.not_mem_erase hr
  · rintro ⟨r, s, l, hx, hreach, hl, hopen⟩
    rw [hrewires.placedIn, hg.placedIn_without] at hx
    split at hx
    · cases hx
    · exact ⟨r, s, l, hx, hg.reaches_of_bypassed hok hreach, hsites kind ▸ hl, hopen⟩
  · rintro ⟨r, s, l, hx, hreach, hl, hopen⟩
    obtain ⟨hr, hx⟩ := hplaced hx
    have hcovers := (h.covers hg hok hE hreach hstart).1 hr
    exact hcovers.obtainable hE hx (by rwa [hsites]) hopen

end Bypass

end RegionLogic
