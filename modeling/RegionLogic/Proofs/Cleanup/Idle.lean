import RegionLogic.Proofs.Cleanup.Loop

/-!
# Where the rounds end

The rounds end at a graph from which no region can go any more. On such a graph a further round does
nothing.

## Main definitions

* `Requires`: some branch requires a region
* `CanGo`: a region can go in one of the ways that are to be tried

## Main results

* `Loop.idle`, `simplify_idle`: no region can go after the rounds
* `rounds_of_idle`: the rounds on a graph from which no region can go
* `reduced_of_clean`, `pairwise_of_clean`, `not_canGo_of_clean`: what a cleanup leaves
* `mem_protectedRegions`: the regions that are kept
* `canGo_relists_iff`: stripping lists of empty branches does not change which regions can go
-/

namespace RegionLogic

open RegionGraph

variable {classify : Classifier} {keep kept kept' : NameSet} {options : CleanupOptions} {P : Name → Prop}
  {g g' : RegionGraph} {l : List Name} {n p c : Name}

/-! ## The regions that are kept -/

/-- Some branch of a graph requires the region `n`. -/
def RegionGraph.Requires (g : RegionGraph) (n : Name) : Prop :=
  ∃ l ∈ g.logicLists, ∃ b ∈ l, n ∈ b.regions

instance (g : RegionGraph) (n : Name) : Decidable (g.Requires n) :=
  inferInstanceAs (Decidable (∃ l ∈ g.logicLists, ∃ b ∈ l, n ∈ b.regions))

theorem RegionGraph.requires_iff_not_allBranches :
    g.Requires n ↔ ¬g.AllBranches fun b => n ∉ b.regions := by
  simp [Requires, AllBranches]

theorem mem_protectedRegions :
    n ∈ g.protectedRegions keep ↔ n = startRegion ∨ n ∈ keep ∨ g.Requires n := by
  have hfold (bs : List Branch) (names : NameSet) :
      n ∈ bs.foldl (fun names b => names ∪ b.regions) names ↔ n ∈ names ∨ ∃ b ∈ bs, n ∈ b.regions := by
    induction bs generalizing names with
    | nil => simp
    | cons b bs ih => rw [List.foldl_cons, ih, NameSet.mem_union, List.exists_mem_cons_iff, or_assoc]
  rw [protectedRegions, NameSet.mem_insert, hfold]
  simp only [List.mem_flatten]
  constructor
  · rintro (hn | hn | ⟨b, ⟨l, hl, hb⟩, hn⟩)
    · exact Or.inl hn
    · exact Or.inr (Or.inl hn)
    · exact Or.inr (Or.inr ⟨l, hl, b, hb, hn⟩)
  · rintro (hn | hn | ⟨l, hl, b, hb, hn⟩)
    · exact Or.inl hn
    · exact Or.inr (Or.inl hn)
    · exact Or.inr (Or.inr ⟨b, ⟨l, hl, hb⟩, hn⟩)

/-! ## Regions that can go -/

/-- The region `n` can go from a graph in one of the ways that are to be tried. -/
def CanGo (kept : NameSet) (options : CleanupOptions) (g : RegionGraph) (n : Name) : Prop :=
  (∃ p, Mergeable kept g p n) ∨ (options.mergeCycles ∧ ∃ p, Absorbable kept g p n) ∨
    options.removeEmpty ∧ Bypassable kept g n

theorem idle_iff (hg : g.Consistent) : Idle kept options g ↔ ∀ n, ¬CanGo kept options g n := by
  constructor
  · rintro h n (⟨p, hm⟩ | ⟨hc, p, ha⟩ | ⟨he, hb⟩)
    · exact h.merge n (hg.mem_of_parent hm.parent_mem) ⟨p, hm⟩
    · exact h.absorb hc p (mem_names_of_mem_targetsOf ha.out) ⟨n, ha⟩
    · obtain ⟨p, hp⟩ := List.exists_mem_of_ne_nil _ hb.parents
      exact h.bypass he n (hg.mem_of_parent hp) hb
  · intro h
    refine ⟨fun n _ hm => h n (Or.inl hm), ?_, fun he n _ hb => h n (Or.inr (Or.inr ⟨he, hb⟩))⟩
    rintro hc p - ⟨n, ha⟩
    exact h n (Or.inr (Or.inl ⟨hc, p, ha⟩))

/-- Of what is to be kept only the region itself matters. -/
theorem CanGo.of_not_mem (h : CanGo kept options g n) (hn : n ∉ kept') : CanGo kept' options g n := by
  rcases h with ⟨p, h⟩ | ⟨hc, p, h⟩ | ⟨he, h⟩
  · exact Or.inl ⟨p, { h with not_kept := hn }⟩
  · exact Or.inr (Or.inl ⟨hc, p, { h with not_kept := hn }⟩)
  · exact Or.inr (Or.inr ⟨he, { h with not_kept := hn }⟩)

/-! ## Lists that are as unconditional as before -/

section Relists

variable {R : List Branch → List Branch → Prop}

theorem free_relists_iff (h : Relists R g g')
    (hR : ∀ {l l'}, R l l' → ((∀ b ∈ l', b = .empty) ↔ ∀ b ∈ l, b = .empty)) :
    (∀ {b}, g'.Way p b c → b = .empty) ↔ ∀ {b}, g.Way p b c → b = .empty := by
  constructor
  · rintro hfree b ⟨e, he, rfl, hb⟩
    obtain ⟨e', he', htarget, hlogic⟩ := exists_right_of_forall₂ h.exitsOf he
    exact (hR hlogic).1 (fun b' hb' => hfree ⟨e', he', htarget, hb'⟩) b hb
  · rintro hfree b ⟨e', he', rfl, hb⟩
    obtain ⟨e, he, htarget, hlogic⟩ := exists_left_of_forall₂ h.exitsOf he'
    exact (hR hlogic).2 (fun b' hb' => hfree ⟨e, he, htarget.symm, hb'⟩) b hb

/-- Which regions can go depends on the lists of alternatives only by what is unconditional. -/
theorem canGo_relists_iff (h : Relists R g g')
    (hR : ∀ {l l'}, R l l' → ((∀ b ∈ l', b = .empty) ↔ ∀ b ∈ l, b = .empty)) :
    CanGo kept options g' n ↔ CanGo kept options g n := by
  have hexits : g'.exitsOf n = [] ↔ g.exitsOf n = [] := by
    rw [← List.map_eq_nil_iff (f := Exit.target), ← List.map_eq_nil_iff (f := Exit.target)]
    exact iff_of_eq (congrArg (· = []) h.targetsOf)
  -- merging and removing do not look at the lists at all; absorbing asks for unconditional ways
  refine or_congr (exists_congr fun p => ?_) (or_congr (and_congr_right fun _ => exists_congr fun p => ?_)
    (and_congr_right fun _ => ?_))
  · constructor
    · rintro ⟨hkept, he, ht, hp⟩
      exact ⟨hkept, hexits.1 he, h.placedIn ▸ ht, h.parentsOf ▸ hp⟩
    · rintro ⟨hkept, he, ht, hp⟩
      exact ⟨hkept, hexits.2 he, h.placedIn.trans ht, h.parentsOf.trans hp⟩
  · constructor
    · rintro ⟨hkept, hne, hout, hback, hout', hback'⟩
      exact ⟨hkept, hne, h.targetsOf ▸ hout, h.targetsOf ▸ hback, (free_relists_iff h hR).1 hout',
        (free_relists_iff h hR).1 hback'⟩
    · rintro ⟨hkept, hne, hout, hback, hout', hback'⟩
      exact ⟨hkept, hne, h.targetsOf.symm ▸ hout, h.targetsOf.symm ▸ hback,
        (free_relists_iff h hR).2 hout', (free_relists_iff h hR).2 hback'⟩
  · constructor
    · rintro ⟨hkept, hempty, hparents, hloop⟩
      exact ⟨hkept, fun kind => h.placedIn ▸ hempty kind, h.parentsOf ▸ hparents, h.parentsOf ▸ hloop⟩
    · rintro ⟨hkept, hempty, hparents, hloop⟩
      exact ⟨hkept, fun kind => h.placedIn.trans (hempty kind), h.parentsOf.symm ▸ hparents,
        h.parentsOf.symm ▸ hloop⟩

theorem forall_mem_stripEmpty_eq_empty {l : List Branch} :
    (∀ b ∈ stripEmpty l, b = .empty) ↔ ∀ b ∈ l, b = .empty := by
  constructor
  · intro h b hb
    by_contra hne
    exact hne (h b (mem_stripEmpty.2 ⟨hb, Or.inl hne⟩))
  · exact fun h b hb => h b (stripEmpty_subset l hb)

/-- Stripping does not change which regions can go. -/
theorem canGo_strip_iff (h : Relists (fun l l' => l' = stripEmpty l) g g') :
    CanGo kept options g' n ↔ CanGo kept options g n :=
  canGo_relists_iff h fun hl => hl ▸ forall_mem_stripEmpty_eq_empty

end Relists

namespace Building

variable {s t : Session} {attempt : Name → Building (Option Name)} {report report' : CleanupReport}

/-! ## The end of the rounds -/

/-- When the loop has stopped no region can go. -/
theorem Loop.idle (h : Loop classify kept options report s report' t) (hstart : startRegion ∈ kept)
    (hs : s.graph.Consistent) : Idle kept options t.graph := by
  induction h with
  | stops hround hidle =>
    -- the last round has left the graph as it was
    obtain ⟨-, -, hlast⟩ := exists_of_round hstart hs hround
    obtain ⟨hsame, hnone⟩ := hlast hidle
    exact hsame ▸ hnone
  | goesOn hround _ hrecord _ ih =>
    obtain ⟨ht, -, -⟩ := exists_of_round hstart hs hround
    exact ih (exists_of_recordRound ht hrecord).1

/-- After the rounds no region can go. -/
theorem simplify_idle (hg : s.graph.Consistent)
    (ho : outcome (simplify classify keep options) s = (.ok report, t)) :
    Idle (s.graph.protectedRegions keep) options t.graph := by
  obtain ⟨dropped, u, -, hu, hloop⟩ := loop_of_simplify hg ho
  exact hloop.idle (start_mem_protectedRegions keep s.graph) hu

/-! ## A graph from which no region can go -/

theorem forEachRegion_of_idle (h : ∀ n ∈ s.graph.names, outcome (attempt n) s = (.ok none, s)) :
    outcome (forEachRegion attempt) s = (.ok [], s) := by
  have hpass (ns : List Name) (hns : ns ⊆ s.graph.names) :
      outcome (ns.filterMapM (attemptIfThere attempt)) s = (.ok [], s) := by
    induction ns with
    | nil => rfl
    | cons n ns ih =>
      rw [List.cons_subset] at hns
      have hthere : (s.graph.region? n).isSome = true := Entries.isSome_find?.2 hns.1
      have hone : outcome (attemptIfThere attempt n) s = (.ok none, s) := by
        rw [attemptIfThere, outcome_graph_bind, if_pos hthere]
        exact h n hns.1
      rw [List.filterMapM_cons, outcome_bind_of_ok hone]
      exact ih hns.2
  exact hpass s.graph.names fun _ hn => hn

theorem round_of_idle (hg : s.graph.Consistent) (h : Idle kept options s.graph) :
    outcome (round classify kept options) s = (.ok ⟨[], [], []⟩, s) := by
  have hmerge := forEachRegion_of_idle (s := s) fun n hn => outcome_mergeIntoParent?_of_not hn (h.merge n hn)
  have habsorb : outcome (passIf options.mergeCycles (absorbNeighbour? kept)) s = (.ok [], s) := by
    cases hc : options.mergeCycles with
    | false => rfl
    | true =>
      exact forEachRegion_of_idle fun n hn => outcome_absorbNeighbour?_of_not hg hn (h.absorb hc n hn)
  have hbypass : outcome (passIf options.removeEmpty (removeEmpty? classify kept)) s = (.ok [], s) := by
    cases he : options.removeEmpty with
    | false => rfl
    | true => exact forEachRegion_of_idle fun n hn => outcome_removeEmpty?_of_not hn (h.bypass he n hn)
  rw [round_eq, outcome_bind_of_ok hmerge, List.isEmpty_nil, Bool.true_and, outcome_bind_of_ok habsorb,
    List.isEmpty_nil, Bool.true_and, Bool.true_and, outcome_bind_of_ok hbypass]
  rfl

/-- Where no region can go the rounds do nothing. -/
theorem rounds_of_idle (hg : s.graph.Consistent) (h : Idle kept options s.graph) (limit : Nat)
    (report : CleanupReport) :
    outcome (rounds classify kept options limit report) s = (.ok report, s) := by
  cases limit with
  | zero => rfl
  | succ limit =>
    rw [rounds, outcome_bind_of_ok (round_of_idle hg h)]
    rfl

/-! ## After a cleanup -/

/-- Where the classifier knows the modifiers of a graph, a cleanup succeeds. -/
theorem exists_of_clean (keep : NameSet) (options : CleanupOptions) (hg : s.graph.Consistent)
    (hclassify : s.graph.AllBranches (·.Modifies fun m => ∃ kind, classify m = .ok kind)) :
    ∃ report t, outcome (clean classify keep options) s = (.ok report, t) := by
  rcases clean_ends classify keep options ⟨hg, hclassify⟩ with hok | ⟨fault, t, -, m, ⟨kind, hkind⟩, hm⟩
  · exact hok
  · rw [hkind] at hm
    cases hm

/-- A cleanup strips a graph that the rounds have reduced and from which no region can go. -/
theorem reduced_of_clean {report : CleanupReport} (hg : s.graph.Consistent)
    (ho : outcome (clean classify keep options) s = (.ok report, t)) :
    ∃ g, Reduced classify (s.graph.protectedRegions keep) options.compareRegions s.graph g ∧
      Idle (s.graph.protectedRegions keep) options g ∧
      Relists (fun l l' => l' = stripEmpty l) g t.graph := by
  have hends := simplify_ends_of_consistent classify keep options hg
  rcases outcome_clean classify keep options s with ⟨fault, t', -, hfail⟩ | ⟨report', t', g, hok, hstrip, ho'⟩
  · cases hfail.symm.trans ho
  · obtain ⟨-, rfl⟩ := Prod.mk.inj (ho'.symm.trans ho)
    have hidle := simplify_idle hg hok
    rw [hok] at hends
    cases hends with
    | done hreduced => exact ⟨t'.graph, hreduced, hidle, hstrip⟩

/-- No branch that is left dominates another one in its list, and no list can be stripped any further. -/
theorem pairwise_of_clean {report : CleanupReport} (hg : s.graph.Consistent)
    (ho : outcome (clean classify keep options) s = (.ok report, t)) {l : List Branch}
    (hl : l ∈ t.graph.logicLists) :
    l.Pairwise (fun a b => dominates classify options.compareRegions a b = .ok false ∧
      dominates classify options.compareRegions b a = .ok false) ∧ stripEmpty l = l := by
  obtain ⟨g, ⟨g₁, -, hsweep⟩, -, hstrip⟩ := reduced_of_clean hg ho
  -- the list has been stripped after a sweep
  obtain ⟨l₁, hl₁, rfl⟩ := hstrip.exists_mem_logicLists hl
  obtain ⟨l₀, -, rfl, hfault⟩ := hsweep.exists_mem_logicLists hl₁
  exact ⟨(pairwise_kept hfault).sublist (stripEmpty_sublist _), stripEmpty_stripEmpty _⟩

/-- No region can go that was not to be kept. -/
theorem not_canGo_of_clean {report : CleanupReport} (hg : s.graph.Consistent)
    (ho : outcome (clean classify keep options) s = (.ok report, t)) :
    ¬CanGo (s.graph.protectedRegions keep) options t.graph n := by
  obtain ⟨g, hreduced, hidle, hstrip⟩ := reduced_of_clean hg ho
  have hg' := hreduced.sound hg.sound (fun _ _ => trivial) (start_mem_protectedRegions keep s.graph)
  rw [canGo_strip_iff hstrip]
  exact (idle_iff hg'.1).1 hidle n

end Building

end RegionLogic
