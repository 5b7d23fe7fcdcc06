import RegionLogic.Proofs.Region.Ways

/-!
# What a relabelling does to the graph

When a region is made the start region, each region in front of it leads its branches to the start region
instead. The entrances are followed in the order of the index, one after the other: what has been done for
some of them is described by induction, and for all of them together no edge into the region is left.

## Main definitions

* `rerouted`: exits of which one is joined to another
* `RegionGraph.Relabels`: the graph in which a region has been made the start region

## Main results

* `Consistent.exitsOf_redirect`, `parentsOf_redirect`: one edge is led elsewhere
* `Consistent.exitsOf_foldl_redirect`, `parentsOf_foldl_redirect`: several edges into one region
* `Consistent.relabels`: the graph that a relabelling gives
* `Consistent.allBranches_relabelled`: its branches are the same
-/

namespace RegionLogic

variable {old new t : Name} {es : List Exit} {bs : List Branch}

/-! ## Exits of which one is joined to another -/

/-- The exits without the one to `old`, whose branches come behind those of the exit to `new`; where there
is none they make a new last exit. -/
def rerouted (old new : Name) (es : List Exit) : List Exit :=
  match es.find? (·.target = old) with
  | none => es
  | some e =>
    let others := es.filter (·.target ≠ old)
    if new ∈ others.map (·.target) then
      others.map fun o => if o.target = new then { o with logic := o.logic ++ e.logic } else o
    else others ++ [⟨new, e.logic⟩]

theorem rerouted_of_not_mem (h : old ∉ es.map (·.target)) : rerouted old new es = es := by
  have hnone : es.find? (·.target = old) = none := by
    refine List.find?_eq_none.2 fun e he => ?_
    simpa using fun ht : e.target = old => h (ht ▸ List.mem_map_of_mem he)
  simp only [rerouted, hnone]

/-- No exit to `old` is left. -/
theorem target_ne_of_mem_rerouted (hne : new ≠ old) {e : Exit} (he : e ∈ rerouted old new es) :
    e.target ≠ old := by
  unfold rerouted at he
  split at he
  · next hnone => simpa using List.find?_eq_none.1 hnone e he
  · dsimp only at he
    split at he
    · obtain ⟨o, ho, rfl⟩ := List.mem_map.1 he
      have hold : o.target ≠ old := by simpa using (List.mem_filter.1 ho).2
      split
      · exact hold
      · exact hold
    · rcases List.mem_append.1 he with he | he
      · simpa using (List.mem_filter.1 he).2
      · rwa [List.mem_singleton.1 he]

/-- Further branches to a region that no exit leads to make a new last exit. -/
theorem extendExits_of_not_mem (h : t ∉ es.map (·.target)) :
    Region.extendExits t bs es = es ++ [⟨t, bs⟩] := by
  induction es with
  | nil => rfl
  | cons e es ih =>
    rw [List.map_cons, List.mem_cons, not_or] at h
    rw [Region.extendExits, if_neg (Ne.symm h.1), ih h.2, List.cons_append]

/-- Further branches to a region that one exit leads to come behind those of this exit. -/
theorem extendExits_of_mem (hn : (es.map (·.target)).Nodup) (h : t ∈ es.map (·.target)) :
    Region.extendExits t bs es =
      es.map fun o => if o.target = t then { o with logic := o.logic ++ bs } else o := by
  induction es with
  | nil => cases h
  | cons e es ih =>
    rw [List.map_cons, List.nodup_cons] at hn
    rw [Region.extendExits, List.map_cons]
    split
    · next he =>
      -- it is the only exit to `t`
      refine congrArg (_ :: ·) ((List.map_congr_left fun o ho => ?_).trans es.map_id).symm
      exact if_neg fun hot : o.target = t => hn.1 (he.trans hot.symm ▸ List.mem_map_of_mem ho)
    · next he => rw [ih hn.2 ((List.mem_cons.1 h).resolve_left (Ne.symm he))]

/-- Taking out the exit to `old` and laying its branches to `new` is rerouting. -/
theorem extendExits_filter_eq_rerouted (hn : (es.map (·.target)).Nodup) {e : Exit}
    (he : es.find? (·.target = old) = some e) :
    Region.extendExits new e.logic (es.filter (·.target != old)) = rerouted old new es := by
  have hothers : es.filter (·.target != old) = es.filter (·.target ≠ old) :=
    List.filter_congr fun o _ => by by_cases ho : o.target = old <;> simp [ho]
  have hn' : ((es.filter (·.target ≠ old)).map (·.target)).Nodup :=
    hn.sublist (List.filter_sublist.map _)
  simp only [rerouted, he, hothers]
  split
  · next h => exact extendExits_of_mem hn' h
  · next h => exact extendExits_of_not_mem h

theorem exists_branch_extendExits {b : Branch} :
    (∃ e ∈ Region.extendExits t bs es, b ∈ e.logic) ↔ (∃ e ∈ es, b ∈ e.logic) ∨ b ∈ bs := by
  induction es with
  | nil => simp [Region.extendExits]
  | cons e es ih =>
    by_cases he : e.target = t
    · simp only [Region.extendExits, he, if_true, List.exists_mem_cons_iff, List.mem_append]
      exact or_right_comm
    · simp only [Region.extendExits, he, if_false, List.exists_mem_cons_iff, ih, or_assoc]

/-- No branch is lost, and none is added. -/
theorem exists_branch_rerouted (hn : (es.map (·.target)).Nodup) {b : Branch} :
    (∃ e ∈ rerouted old new es, b ∈ e.logic) ↔ ∃ e ∈ es, b ∈ e.logic := by
  cases hfind : es.find? (·.target = old) with
  | none => simp only [rerouted, hfind]
  | some e =>
    have he : e ∈ es := List.mem_of_find?_eq_some hfind
    have htarget : e.target = old := by simpa using List.find?_some hfind
    rw [← extendExits_filter_eq_rerouted hn hfind, exists_branch_extendExits]
    constructor
    · rintro (⟨o, ho, hb⟩ | hb)
      · exact ⟨o, (List.mem_filter.1 ho).1, hb⟩
      · exact ⟨e, he, hb⟩
    · rintro ⟨o, ho, hb⟩
      by_cases hold : o.target = old
      · -- it is the exit whose branches have been joined
        have hoe : o = e := List.inj_on_of_nodup_map hn ho he (hold.trans htarget.symm)
        exact Or.inr (hoe ▸ hb)
      · exact Or.inl ⟨o, List.mem_filter.2 ⟨ho, by simpa using hold⟩, hb⟩

namespace RegionGraph

variable {g g' : RegionGraph} {other p q c n : Name} {l : List Name}

/-! ## Edges that are led elsewhere -/

theorem Consistent.exitsOf_redirect (h : g.Consistent) :
    (g.redirect old new other).exitsOf q =
      if other = q then rerouted old new (g.exitsOf q) else g.exitsOf q := by
  unfold RegionGraph.redirect
  split
  · next e he =>
    rw [exitsOf_addEdge, exitsOf_cut]
    split
    · next hq =>
      rw [exit?_eq_find?, hq] at he
      exact extendExits_filter_eq_rerouted (h.targetsOf_nodup q) he
    · rfl
  · next hnone =>
    rw [exitsOf_cut]
    split
    · next hq =>
      have hold : old ∉ g.targetsOf q := by
        rw [← hq, ← exit?_isSome, hnone]
        simp
      rw [rerouted_of_not_mem hold]
      exact List.filter_eq_self.2 fun e he => by
        simpa using fun ht : e.target = old => hold (ht ▸ target_mem_targetsOf he)
    · rfl

/-- The edges from the members of a list to `old` are led to `new`, and the others stay. -/
theorem Consistent.exitsOf_foldl_redirect (h : g.Consistent) (hl : l.Nodup) :
    (l.foldl (RegionGraph.redirect · old new ·) g).exitsOf q =
      if q ∈ l then rerouted old new (g.exitsOf q) else g.exitsOf q := by
  induction l generalizing g with
  | nil => rfl
  | cons o l ih =>
    obtain ⟨ho, hl⟩ := List.nodup_cons.1 hl
    rw [List.foldl_cons, ih (h.redirect old new o) hl, h.exitsOf_redirect]
    by_cases hq : o = q
    · subst hq
      simp [ho]
    · simp [hq, Ne.symm hq]

/-- With an edge from `other` to `old` that is led to `new` the entrance goes with it. -/
theorem parentsOf_redirect (hc : c ≠ old) (ho : old ∈ g.targetsOf other) :
    (g.redirect old new other).parentsOf c =
      if new = c then addOnce (g.parentsOf c) other else g.parentsOf c := by
  obtain ⟨e, he⟩ := Option.isSome_iff_exists.1 (exit?_isSome.2 ho)
  simp only [redirect, he]
  rw [parentsOf_addEdge, parentsOf_cut, if_neg (Ne.symm hc)]

/-- The other regions lead where they led before. -/
theorem Consistent.mem_targetsOf_redirect (h : g.Consistent) (hq : other ≠ q) :
    c ∈ (g.redirect old new other).targetsOf q ↔ c ∈ g.targetsOf q := by
  rw [targetsOf, h.exitsOf_redirect, if_neg hq, targetsOf]

/-- With the edges from the members of a list to `old` their entrances go to `new`, in the order of the
list. -/
theorem Consistent.parentsOf_foldl_redirect (h : g.Consistent) (hl : l.Nodup) (hc : c ≠ old)
    (ho : ∀ o ∈ l, old ∈ g.targetsOf o) :
    (l.foldl (RegionGraph.redirect · old new ·) g).parentsOf c =
      if new = c then l.foldl addOnce (g.parentsOf c) else g.parentsOf c := by
  induction l generalizing g with
  | nil => simp
  | cons o l ih =>
    obtain ⟨hol, hl⟩ := List.nodup_cons.1 hl
    obtain ⟨ho, hos⟩ := List.forall_mem_cons.1 ho
    -- the entrances that have not been followed yet are still there
    have hos' : ∀ o' ∈ l, old ∈ (g.redirect old new o).targetsOf o' := fun o' ho' =>
      (h.mem_targetsOf_redirect fun he : o = o' => hol (he ▸ ho')).2 (hos o' ho')
    rw [List.foldl_cons, ih (h.redirect old new o) hl hos', parentsOf_redirect hc ho]
    split
    · rw [List.foldl_cons]
    · rfl

/-! ## The graph in which a region has been made the start region -/

/-- A region of a consistent graph is what is seen of it. -/
theorem Consistent.region?_eq_map (h : g.Consistent) (h' : g'.Consistent)
    {f : List Exit → List Exit} (hnames : p ∈ g'.names ↔ p ∈ g.names)
    (hexits : g'.exitsOf p = f (g.exitsOf p)) (hplaced : ∀ kind, g'.placedIn kind p = g.placedIn kind p) :
    g'.region? p = (g.region? p).map fun r => { r with exits := f r.exits } := by
  by_cases hp : p ∈ g.names
  · obtain ⟨⟨name, locations, transitions, exits⟩, hr⟩ := mem_names.1 hp
    obtain ⟨⟨name', locations', transitions', exits'⟩, hr'⟩ := mem_names.1 (hnames.2 hp)
    obtain rfl : name = p := h.name_eq hr
    obtain rfl : name' = name := h'.name_eq hr'
    simp only [exitsOf_of_region? hr, exitsOf_of_region? hr'] at hexits
    have hlocations := hplaced .locations
    have htransitions := hplaced .transitions
    rw [placedIn_of_region? hr, placedIn_of_region? hr'] at hlocations htransitions
    simp only [Region.placed] at hlocations htransitions
    rw [hr, hr', Option.map_some, hexits, hlocations, htransitions]
  · rw [region?_eq_none hp, region?_eq_none fun hp' => hp (hnames.1 hp'), Option.map_none]

/-- In `g'` the region `n` of `g` has been made the start region: it is gone, its entrances lead to the
start region, and nothing else has changed. -/
structure Relabels (n : Name) (g g' : RegionGraph) : Prop where
  /-- The other regions are left, in their order. -/
  names : g'.names = g.names.erase n
  /-- The region is gone. -/
  gone : n ∉ g'.names
  /-- In every other region the branches to the region have been joined to those to the start region. -/
  region : ∀ p ≠ n, g'.region? p =
    (g.region? p).map fun r => { r with exits := rerouted n startRegion r.exits }
  /-- The start region has gained the entrances that it lacked. -/
  entrances : g'.parentsOf startRegion =
    g.parentsOf startRegion ++ (g.parentsOf n).filter (· ∉ g.parentsOf startRegion)
  /-- Every other region has kept its entrances. -/
  parentsOf : ∀ c ≠ n, c ≠ startRegion → g'.parentsOf c = g.parentsOf c
  /-- The locations are the same. -/
  locations : g'.locations = g.locations
  /-- The transitions are the same. -/
  transitions : g'.transitions = g.transitions
  /-- Exits and entrances are in step. -/
  consistent : g'.Consistent

/-- The exits of a region other than the one that is made the start region. -/
theorem Consistent.exitsOf_relabelled (h : g.Consistent) (hn : n ≠ startRegion) (hp : p ≠ n) :
    (g.relabelled n).exitsOf p = rerouted n startRegion (g.exitsOf p) := by
  -- a region that is no entrance has no exit to reroute
  have hfold : ((g.parentsOf n).foldl (RegionGraph.redirect · n startRegion ·) g).exitsOf p =
      rerouted n startRegion (g.exitsOf p) := by
    rw [h.exitsOf_foldl_redirect (h.parentsOf_nodup n)]
    split
    · rfl
    · next hnone => exact (rerouted_of_not_mem fun ht => hnone (h.mem_parentsOf.2 ht)).symm
  rw [RegionGraph.relabelled, (h.foldl_redirect ..).exitsOf_without, if_neg (Ne.symm hp), hfold]
  exact List.filter_eq_self.2 fun e he => by
    simpa using target_ne_of_mem_rerouted (Ne.symm hn) he

theorem Consistent.parentsOf_relabelled (h : g.Consistent) (hn : g.Relabelable n) (hc : c ≠ n) :
    (g.relabelled n).parentsOf c =
      if startRegion = c then (g.parentsOf n).foldl addOnce (g.parentsOf c) else g.parentsOf c := by
  -- without exits the region is an entrance of nothing
  have hnone : ∀ c, n ∉ g.parentsOf c := fun c hmem => by
    have ht := h.mem_parentsOf.1 hmem
    rw [targetsOf, hn.exitsOf] at ht
    cases ht
  rw [RegionGraph.relabelled, (h.foldl_redirect ..).parentsOf_without, if_neg (Ne.symm hc),
    h.parentsOf_foldl_redirect (h.parentsOf_nodup n) hc fun o ho => h.mem_parentsOf.1 ho]
  refine List.erase_of_not_mem ?_
  split
  · rw [mem_foldl_addOnce, not_or]
    exact ⟨hnone c, hnone n⟩
  · exact hnone c

theorem Consistent.names_relabelled (h : g.Consistent) : (g.relabelled n).names = g.names.erase n := by
  rw [RegionGraph.relabelled, names_without,
    names_foldl_redirect n (fun o ho => h.parent_mem ho) h.start_mem]

/-- The graph that a relabelling gives. -/
theorem Consistent.relabels (h : g.Consistent) (hn : g.Relabelable n) :
    Relabels n g (g.relabelled n) where
  names := h.names_relabelled
  gone := by
    rw [h.names_relabelled, h.names_nodup.mem_erase_iff]
    exact fun hmem => hmem.1 rfl
  region p hp := by
    refine h.region?_eq_map (h.relabelled hn.ne_start) ?_ (h.exitsOf_relabelled hn.ne_start hp)
      fun kind => h.placedIn_relabelled hn kind
    rw [h.names_relabelled, h.names_nodup.mem_erase_iff]
    exact and_iff_right hp
  entrances := by
    rw [h.parentsOf_relabelled hn (Ne.symm hn.ne_start), if_pos rfl,
      foldl_addOnce_append (h.parentsOf_nodup n)]
  parentsOf c hc hstart := by
    rw [h.parentsOf_relabelled hn hc, if_neg (Ne.symm hstart)]
  locations := sites_relabelled .locations
  transitions := sites_relabelled .transitions
  consistent := h.relabelled hn.ne_start

/-! ## The branches of that graph -/

/-- A relabelling leads branches elsewhere, and changes none. -/
theorem Consistent.exists_way_relabelled (h : g.Consistent) (hn : g.Relabelable n) {b : Branch} :
    (∃ t, (g.relabelled n).Way p b t) ↔ ∃ t, g.Way p b t := by
  have hway (g : RegionGraph) : (∃ t, g.Way p b t) ↔ ∃ e ∈ g.exitsOf p, b ∈ e.logic := by
    constructor
    · rintro ⟨_, e, he, -, hb⟩
      exact ⟨e, he, hb⟩
    · rintro ⟨e, he, hb⟩
      exact ⟨e.target, e, he, rfl, hb⟩
  rw [hway, hway]
  by_cases hp : p = n
  · rw [hp, exitsOf_of_not_mem (h.relabels hn).gone, hn.exitsOf]
  · rw [h.exitsOf_relabelled hn.ne_start hp]
    exact exists_branch_rerouted (h.targetsOf_nodup p)

theorem Consistent.allBranches_relabelled (h : g.Consistent) (hn : g.Relabelable n) {Q : Branch → Prop} :
    (g.relabelled n).AllBranches Q ↔ g.AllBranches Q := by
  have h' := h.relabelled hn.ne_start
  constructor
  · refine fun hall => hall.of_ways h' h (fun kind => (sites_relabelled kind).symm) fun hw => Or.inl ?_
    exact ⟨_, (h.exists_way_relabelled hn).2 ⟨_, hw⟩⟩
  · refine fun hall => hall.of_ways h h' sites_relabelled fun hw => Or.inl ?_
    exact ⟨_, (h.exists_way_relabelled hn).1 ⟨_, hw⟩⟩

end RegionGraph

end RegionLogic
