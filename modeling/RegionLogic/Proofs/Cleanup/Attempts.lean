import RegionLogic.Proofs.Cleanup.Removal
import RegionLogic.Proofs.Cleanup.Sweep

/-!
# Attempts to take a region out

On a consistent graph an attempt to take a region out succeeds if the region can go, and otherwise leaves
the graph as it is. Only leading entrances round a region can fail, and it fails where the classifier
does.

## Main definitions

* `AttemptEnds`: how an attempt to take a region out ends

## Main results

* `mergeIntoParent?_ends`, `absorbNeighbour?_ends`, `removeEmpty?_ends`: the three attempts
* `outcome_mergeIntoParent?_of_not`, `outcome_absorbNeighbour?_of_not`, `outcome_removeEmpty?_of_not`: they do
  nothing where nothing can go
-/

namespace RegionLogic

/-- How an attempt to take a region out of the graph `g` ends: with the region that has gone and the graph
that is left. Where nothing goes nothing could. -/
inductive AttemptEnds (classify : Classifier) (kept : NameSet) (P : Name → Prop) (possible : Prop)
    (g : RegionGraph) : Except Fault (Option Name) → RegionGraph → Prop
  | nothing (h : ¬possible) : AttemptEnds classify kept P possible g (.ok none) g
  | gone {n g'} (h : Removal classify kept g n g') :
    AttemptEnds classify kept P possible g (.ok (some n)) g'
  | fails {fault g'} (h : Abandoned classify kept g g') (hfault : classify.Fails P fault) :
    AttemptEnds classify kept P possible g (.error fault) g'

namespace Building

open RegionGraph

variable {classify : Classifier} {kept : NameSet} {P : Name → Prop} {s : Session} {n p c : Name}

/-! ## Merging -/

theorem outcome_adoptLocation {entrance : List Branch} {x : Name}
    (hx : x ∈ Entries.keys (s.graph.sites .locations)) :
    outcome (adoptLocation p entrance x) s =
      (.ok (), { s with graph := s.graph.adoptLocation p entrance x }) := by
  have hhas : Entries.has (s.graph.adjustRegion p (·.addLocation x)).locations x = true :=
    Entries.has_iff.2 hx
  rw [adoptLocation, outcome_change_bind, outcome_graph_bind, if_pos hhas]
  rfl

theorem outcome_forM_adoptLocation {entrance : List Branch} {xs : List Name}
    (hxs : ∀ x ∈ xs, x ∈ Entries.keys (s.graph.sites .locations)) :
    outcome (xs.forM (adoptLocation p entrance)) s =
      (.ok (), { s with graph := xs.foldl (RegionGraph.adoptLocation · p entrance ·) s.graph }) :=
  outcome_forM
    (P := fun g => Entries.keys (g.sites .locations) = Entries.keys (s.graph.sites .locations))
    (fun x hx _ hs => ⟨outcome_adoptLocation (hs ▸ hxs x hx),
      (keys_sites_adoptLocation .locations).trans hs⟩) rfl

/-- The attempt does nothing where the region cannot be merged. -/
theorem outcome_mergeIntoParent?_of_not (hn : n ∈ s.graph.names)
    (hnot : ¬∃ p, Mergeable kept s.graph p n) :
    outcome (mergeIntoParent? kept n) s = (.ok none, s) := by
  unfold mergeIntoParent?
  by_cases hkept : n ∈ kept
  · rw [if_pos hkept]
    rfl
  rw [if_neg hkept]
  obtain ⟨r, hr⟩ := mem_names.1 hn
  show outcome (region n >>= _) s = _
  rw [outcome_region_bind hr]
  by_cases howns : (!r.exits.isEmpty || !r.transitions.isEmpty) = true
  · rw [if_pos howns]
    rfl
  rw [if_neg howns]
  simp only [Bool.or_eq_true, Bool.not_eq_true', not_or, Bool.not_eq_false,
    List.isEmpty_iff] at howns
  show outcome (graph >>= _) s = _
  rw [outcome_graph_bind]
  split
  · next p hparents =>
    -- all guards have been passed, so the region could have been merged
    exact absurd ⟨p, hkept, (exitsOf_of_region? hr).trans howns.1,
      (placedIn_of_region? hr _).trans howns.2, hparents⟩ hnot
  · rfl

/-- A region is merged into the one in front of it if it can be. -/
theorem outcome_mergeIntoParent? (hg : s.graph.Consistent) (h : Mergeable kept s.graph p n) :
    ∃ events, outcome (mergeIntoParent? kept n) s = (.ok (some n), ⟨s.graph.mergedInto p n, events⟩) := by
  have hn := hg.mem_of_parent h.parent_mem
  obtain ⟨r, hr⟩ := mem_names.1 hn
  obtain ⟨pr, hpr⟩ := mem_names.1 (hg.parent_mem h.parent_mem)
  have hexits : r.exits = [] := (exitsOf_of_region? hr).symm.trans h.exits
  have htransitions : r.transitions = [] := (placedIn_of_region? hr _).symm.trans h.transitions
  have hlocations : s.graph.placedIn .locations n = r.locations := placedIn_of_region? hr _
  -- the logic of the entrance is read before the region is taken out
  have hentrance : (pr.exitTo? n).elim [] (·.logic) = s.graph.exitLogic p n := by
    rw [exit?_of_region? hpr]
    rfl
  have hxs : ∀ x ∈ r.locations, x ∈ Entries.keys ((s.graph.without n).sites .locations) := by
    intro x hx
    rw [sites_without]
    exact hg.declared (hlocations ▸ hx)
  have howns : ¬(!r.exits.isEmpty || !r.transitions.isEmpty) = true := by simp [hexits, htransitions]
  unfold mergeIntoParent?
  rw [if_neg h.not_kept]
  show ∃ _, outcome (region n >>= _) s = _
  rw [outcome_region_bind hr, if_neg howns]
  show ∃ _, outcome (graph >>= _) s = _
  rw [outcome_graph_bind, h.parents]
  dsimp only
  rw [outcome_region_bind hpr, hentrance, outcome_bind_of_ok (outcome_removeRegion hg hn),
    outcome_bind_of_ok (outcome_forM_adoptLocation (s := { s with graph := s.graph.without n }) hxs),
    outcome_log_bind, ← hlocations]
  exact ⟨_, rfl⟩

theorem mergeIntoParent?_ends (hg : s.graph.Consistent) (hn : n ∈ s.graph.names) :
    AttemptEnds classify kept P (∃ p, Mergeable kept s.graph p n) s.graph
      (outcome (mergeIntoParent? kept n) s).1 (outcome (mergeIntoParent? kept n) s).2.graph := by
  by_cases hm : ∃ p, Mergeable kept s.graph p n
  · obtain ⟨p, hm⟩ := hm
    obtain ⟨events, ho⟩ := outcome_mergeIntoParent? hg hm
    rw [ho]
    exact .gone (.merge hm)
  · rw [outcome_mergeIntoParent?_of_not hn hm]
    exact .nothing hm

/-! ## Joining -/

theorem outcome_adoptExit {e : Exit} (s : Session) :
    outcome (if e.target = p then pure ()
        else change (·.addEdge p e.logic (if e.target = c then p else e.target))) s =
      (.ok (), { s with graph := adoptExit p c s.graph e }) := by
  unfold adoptExit
  split <;> rfl

theorem outcome_adoptEntrance {other : Name} (ho : other ∈ s.graph.names) :
    outcome (if other = p ∨ other = c then pure () else redirect c p other) s =
      (.ok (), { s with graph := adoptEntrance p c s.graph other }) := by
  unfold adoptEntrance
  split
  · rfl
  · exact outcome_redirect ho

/-- A region is joined to another one. -/
theorem outcome_absorb (hg : s.graph.Consistent) (hp : p ∈ s.graph.names) (hc : c ∈ s.graph.names) :
    ∃ events, outcome (absorb p c) s = (.ok (), ⟨s.graph.absorbed p c, events⟩) := by
  obtain ⟨r, hr⟩ := mem_names.1 hc
  have hexits := hg.rewires_adoptExit (c := c) allBranches_true hp
  have hjoined := hg.rewires_joined (c := c) allBranches_true hp
  have hnames : (s.graph.adoptPlaced p c).names = s.graph.names := names_adjustRegion
  -- the exits of `c` are laid to `p`, then its entrances, then it is taken out
  have hout := outcome_forM (l := s.graph.exitsOf c)
    (f := fun e : Exit => if e.target = p then pure ()
      else change (·.addEdge p e.logic (if e.target = c then p else e.target)))
    (P := fun _ => True) (fun e _ s' _ => ⟨outcome_adoptExit s', trivial⟩)
    (s := { s with graph := s.graph.adoptPlaced p c }) trivial
  have hinto := outcome_forM
    (l := ((s.graph.exitsOf c).foldl (adoptExit p c) (s.graph.adoptPlaced p c)).parentsOf c)
    (f := fun other => if other = p ∨ other = c then pure () else redirect c p other)
    (P := fun g => Rewires (fun _ => True) (s.graph.adoptPlaced p c) g)
    (fun other ho s' hs => by
      have hmem := hexits.names ▸ hexits.consistent.parent_mem ho
      exact ⟨outcome_adoptEntrance (hs.names.symm ▸ hmem), hs.adoptEntrance (hnames.symm ▸ hp) hmem⟩)
    (s := { s with graph := (s.graph.exitsOf c).foldl (adoptExit p c) (s.graph.adoptPlaced p c) })
    hexits
  have hremove := outcome_removeRegion (n := c) (s := { s with graph := s.graph.joined p c })
    hjoined.consistent (by rw [hjoined.names, hnames]; exact hc)
  -- what is placed in `c` is moved first, by one change
  have hchange : outcome (absorb p c) s =
      outcome (do
        (s.graph.exitsOf c).forM fun e => if e.target = p then pure ()
          else change (·.addEdge p e.logic (if e.target = c then p else e.target))
        (← graph).parentsOf c |>.forM fun other =>
          if other = p ∨ other = c then pure () else redirect c p other
        removeRegion c
        log .debug s!"Absorbed {c} into {p}") { s with graph := s.graph.adoptPlaced p c } := by
    rw [absorb, outcome_region_bind hr, exitsOf_of_region? hr, outcome_change_bind, adoptPlaced,
      placedIn_of_region? hr, placedIn_of_region? hr]
    rfl
  rw [hchange, outcome_bind_of_ok hout, outcome_graph_bind, outcome_bind_of_ok hinto]
  exact ⟨_, (outcome_bind_of_ok hremove).trans (outcome_log ..)⟩

/-- Two regions are joined if unconditional edges lead both ways. -/
theorem absorbable_iff (kept : NameSet) (hg : s.graph.Consistent) {e : Exit} (he : e ∈ s.graph.exitsOf p) :
    Absorbable kept s.graph p e.target ↔
      ¬(e.target = p ∨ e.target ∈ kept ∨ ¬e.logic.all (·.isEmpty)) ∧
        ∃ back, s.graph.exit? e.target p = some back ∧ back.logic.all (·.isEmpty) := by
  have hall (l : List Branch) : l.all (·.isEmpty) = true ↔ ∀ b ∈ l, b = .empty := by
    simp [Branch.isEmpty_iff]
  constructor
  · intro h
    refine ⟨?_, ?_⟩
    · rintro (ht | hkept | hfree)
      · exact h.ne ht
      · exact h.not_kept hkept
      · exact hfree ((hall _).2 fun b hb => h.out_free ⟨e, he, rfl, hb⟩)
    · obtain ⟨back, hback⟩ := Option.isSome_iff_exists.1 (exit?_isSome.2 h.back)
      exact ⟨back, hback, (hall _).2 fun b hb => h.back_free (hg.way_iff.2 ⟨back, hback, hb⟩)⟩
  · rintro ⟨hcond, back, hback, hfree⟩
    rw [not_or, not_or, Decidable.not_not] at hcond
    refine ⟨hcond.2.1, hcond.1, target_mem_targetsOf he, exit?_isSome.1 (hback ▸ rfl), ?_, ?_⟩
    · intro b hb
      exact (hall _).1 hcond.2.2 b ((hg.way_target_iff he).1 hb)
    · intro b hb
      obtain ⟨e', he', hb⟩ := hg.way_iff.1 hb
      rw [hback] at he'
      exact (hall _).1 hfree b (Option.some.inj he' ▸ hb)

/-- An exit to a region that cannot be joined is passed over. -/
theorem outcome_absorbFirst?_skip (hg : s.graph.Consistent) {e : Exit} {es : List Exit}
    (he : e ∈ s.graph.exitsOf p) (hnot : ¬Absorbable kept s.graph p e.target) :
    outcome (absorbFirst? kept p (e :: es)) s = outcome (absorbFirst? kept p es) s := by
  rw [absorbable_iff kept hg he] at hnot
  rw [absorbFirst?]
  by_cases hcond : e.target = p ∨ e.target ∈ kept ∨ ¬e.logic.all (·.isEmpty)
  · rw [if_pos hcond]
  obtain ⟨r, hr⟩ := mem_names.1 (hg.target_mem (target_mem_targetsOf he))
  rw [if_neg hcond, outcome_region_bind hr, exit?_of_region? hr]
  cases hback : s.graph.exit? e.target p with
  | none => rfl
  | some back =>
    have hfree : ¬back.logic.all (·.isEmpty) = true := fun hfree => hnot ⟨hcond, back, hback, hfree⟩
    dsimp only
    rw [if_neg hfree]

/-- The region that the first exit leads to is joined if it can be. -/
theorem outcome_absorbFirst?_join (hg : s.graph.Consistent) {e : Exit} (es : List Exit)
    (he : e ∈ s.graph.exitsOf p) (habs : Absorbable kept s.graph p e.target) :
    ∃ events, outcome (absorbFirst? kept p (e :: es)) s =
      (.ok (some e.target), ⟨s.graph.absorbed p e.target, events⟩) := by
  obtain ⟨hcond, back, hback, hfree⟩ := (absorbable_iff kept hg he).1 habs
  obtain ⟨r, hr⟩ := mem_names.1 (hg.target_mem (target_mem_targetsOf he))
  obtain ⟨events, habsorb⟩ := outcome_absorb hg (mem_names_of_mem_targetsOf habs.out)
    (hg.target_mem habs.out)
  rw [absorbFirst?, if_neg hcond, outcome_region_bind hr, exit?_of_region? hr, hback]
  dsimp only
  rw [if_pos hfree, outcome_bind_of_ok habsorb]
  exact ⟨events, rfl⟩

/-- The first of some exits that leads to a region that can be joined is looked for. -/
theorem absorbFirst?_ends (hg : s.graph.Consistent) {es : List Exit}
    (hes : ∀ e ∈ es, e ∈ s.graph.exitsOf p) :
    AttemptEnds classify kept P (∃ e ∈ es, Absorbable kept s.graph p e.target) s.graph
      (outcome (absorbFirst? kept p es) s).1 (outcome (absorbFirst? kept p es) s).2.graph := by
  induction es with
  | nil => exact .nothing (by simp)
  | cons e es ih =>
    have he := hes e (by simp)
    by_cases habs : Absorbable kept s.graph p e.target
    · obtain ⟨events, ho⟩ := outcome_absorbFirst?_join hg es he habs
      rw [ho]
      exact .gone (.absorb habs)
    · rw [outcome_absorbFirst?_skip hg he habs]
      simpa [habs] using ih fun e' he' => hes e' (List.mem_cons_of_mem e he')

theorem outcome_absorbFirst?_of_not (hg : s.graph.Consistent) {es : List Exit}
    (hes : ∀ e ∈ es, e ∈ s.graph.exitsOf p)
    (hnot : ∀ e ∈ es, ¬Absorbable kept s.graph p e.target) :
    outcome (absorbFirst? kept p es) s = (.ok none, s) := by
  induction es with
  | nil => rfl
  | cons e es ih =>
    rw [List.forall_mem_cons] at hes hnot
    rw [outcome_absorbFirst?_skip hg hes.1 hnot.1]
    exact ih hes.2 hnot.2

theorem absorbNeighbour?_ends (hg : s.graph.Consistent) (hp : p ∈ s.graph.names) :
    AttemptEnds classify kept P (∃ c, Absorbable kept s.graph p c) s.graph
      (outcome (absorbNeighbour? kept p) s).1 (outcome (absorbNeighbour? kept p) s).2.graph := by
  obtain ⟨r, hr⟩ := mem_names.1 hp
  rw [absorbNeighbour?, outcome_region_bind hr, ← exitsOf_of_region? hr]
  have hiff : (∃ e ∈ s.graph.exitsOf p, Absorbable kept s.graph p e.target) ↔
      ∃ c, Absorbable kept s.graph p c := by
    constructor
    · rintro ⟨e, -, h⟩
      exact ⟨_, h⟩
    · rintro ⟨c, h⟩
      obtain ⟨e, he, rfl⟩ := List.mem_map.1 h.out
      exact ⟨e, he, h⟩
  rw [← hiff]
  exact absorbFirst?_ends hg fun _ he => he

/-- The attempt does nothing where no neighbour can be joined. -/
theorem outcome_absorbNeighbour?_of_not (hg : s.graph.Consistent) (hp : p ∈ s.graph.names)
    (hnot : ¬∃ c, Absorbable kept s.graph p c) :
    outcome (absorbNeighbour? kept p) s = (.ok none, s) := by
  obtain ⟨r, hr⟩ := mem_names.1 hp
  rw [absorbNeighbour?, outcome_region_bind hr, ← exitsOf_of_region? hr]
  exact outcome_absorbFirst?_of_not hg (fun _ he => he) fun e _ h => hnot ⟨e.target, h⟩

/-! ## Leading round -/

/-- Lays an edge round a region, if there are branches for it. -/
def layDetour (classify : Classifier) (w : Passage) : Building Unit := do
  match ← (w.detour classify : Except Fault _) with
  | some bs => change (·.addEdge w.parent bs w.exit.target)
  | none => pure ()

/-- An edge round a region is laid, unless the classifier fails. -/
theorem outcome_layDetour (w : Passage) (s : Session) :
    outcome (layDetour classify w) s = (.ok (), { s with graph := s.graph.addDetour classify w }) ∧
        (∃ o, w.detour classify = .ok o) ∨
      ∃ fault, outcome (layDetour classify w) s = (.error fault, s) ∧
        w.detour classify = .error fault := by
  unfold layDetour addDetour
  cases h : w.detour classify with
  | error fault => exact Or.inr ⟨fault, rfl, rfl⟩
  | ok o =>
    rw [outcome_except_bind_ok]
    cases o with
    | none => exact Or.inl ⟨rfl, _, rfl⟩
    | some bs => exact Or.inl ⟨rfl, _, rfl⟩

theorem forM_leadRound (g : RegionGraph) (n : Name) :
    ((g.parentsOf n).map fun p => (p, g.exitLogic p n)).forM
        (fun w => leadRound classify (g.exitsOf n) w.1 w.2) =
      (g.passages n).forM (layDetour classify) := by
  rw [passages, forM_flatMap, forM_map]
  refine congrArg _ (funext fun p => ?_)
  rw [forM_map]
  rfl

/-- The entrances of a region that can go are led round it, as far as the classifier does not fail. -/
theorem outcome_forM_leadRound (classify : Classifier) (n : Name) (hg : s.graph.Consistent)
    (hall : s.graph.AllBranches (·.Modifies P))
    (t : Session) :
    outcome ((s.graph.passages n).forM (layDetour classify)) t =
        (.ok (), { t with graph := (s.graph.passages n).foldl (addDetour classify) t.graph }) ∧
        (∀ w ∈ s.graph.passages n, ∃ o, w.detour classify = .ok o) ∨
      ∃ l fault, l <+: s.graph.passages n ∧
        outcome ((s.graph.passages n).forM (layDetour classify)) t =
          (.error fault, { t with graph := l.foldl (addDetour classify) t.graph }) ∧
        classify.Fails P fault := by
  refine outcome_forM_prefix (fun w hw t => ?_) t
  rcases outcome_layDetour w t with hok | ⟨fault, hfail, hdetour⟩
  · exact Or.inl hok
  · refine Or.inr ⟨fault, hfail, ?_⟩
    obtain ⟨hparent, hentrance, hexit⟩ := mem_passages.1 hw
    obtain ⟨b, hb, m, hm, hfault⟩ := exists_fault_of_detour hdetour
    rw [hentrance, mem_distribute (hg.exitLogic_ne_nil (hg.mem_parentsOf.1 hparent))
      (hg.exit_logic hexit)] at hb
    obtain ⟨a, ha, c, hc, rfl⟩ := hb
    obtain ⟨hways, -⟩ := hg.allBranches_iff.1 hall
    rcases List.mem_append.1 hm with hm | hm
    · exact ⟨m, hways (hg.way_iff_mem_exitLogic.2 ha) m hm, hfault⟩
    · exact ⟨m, hways ⟨_, hexit, rfl, hc⟩ m hm, hfault⟩

/-- What guards the attempt to take out an empty region. -/
theorem bypassable_iff {r : Region} (hr : s.graph.region? n = some r) :
    Bypassable kept s.graph n ↔
      ¬(!r.isEmpty || (s.graph.parentsOf n).isEmpty || decide (n ∈ kept) ||
        decide (n ∈ s.graph.parentsOf n)) = true := by
  have hplaced (kind : Placed) : s.graph.placedIn kind n = r.placed kind := placedIn_of_region? hr kind
  constructor
  · intro h
    have hlocations : r.locations = [] := (hplaced .locations).symm.trans (h.empty _)
    have htransitions : r.transitions = [] := (hplaced .transitions).symm.trans (h.empty _)
    simp [Region.isEmpty, hlocations, htransitions, h.parents, h.not_kept, h.no_loop]
  · intro h
    simp only [Region.isEmpty, Bool.or_eq_true, Bool.not_eq_true', not_or, Bool.not_eq_false,
      List.isEmpty_iff, Bool.and_eq_true, decide_eq_true_eq] at h
    obtain ⟨⟨⟨⟨hlocations, htransitions⟩, hparents⟩, hkept⟩, hloop⟩ := h
    exact ⟨hkept, fun kind => (hplaced kind).trans (by cases kind <;> assumption), hparents, hloop⟩

/-- The attempt does nothing where the region cannot be taken out. -/
theorem outcome_removeEmpty?_of_not (hn : n ∈ s.graph.names) (hnot : ¬Bypassable kept s.graph n) :
    outcome (removeEmpty? classify kept n) s = (.ok none, s) := by
  obtain ⟨r, hr⟩ := mem_names.1 hn
  have hguard := (bypassable_iff hr).not_left.1 hnot
  rw [removeEmpty?, outcome_region_bind hr, outcome_graph_bind, if_pos hguard]
  rfl

/-- An empty region is taken out if its entrances can be led round it. -/
theorem removeEmpty?_ends (hg : s.graph.Consistent) (hall : s.graph.AllBranches (·.Modifies P))
    (hn : n ∈ s.graph.names) :
    AttemptEnds classify kept P (Bypassable kept s.graph n) s.graph
      (outcome (removeEmpty? classify kept n) s).1
      (outcome (removeEmpty? classify kept n) s).2.graph := by
  by_cases hb : Bypassable kept s.graph n
  swap
  · rw [outcome_removeEmpty?_of_not hn hb]
    exact .nothing hb
  obtain ⟨r, hr⟩ := mem_names.1 hn
  unfold removeEmpty?
  rw [outcome_region_bind hr, outcome_graph_bind, if_neg ((bypassable_iff hr).1 hb)]
  have hexits := exitsOf_of_region? hr
  have hremove := outcome_removeRegion hg hn
  show AttemptEnds _ _ _ _ _ (outcome (ite _ _ _) s).1 (outcome (ite _ _ _) s).2.graph
  by_cases hdead : r.exits.isEmpty = true
  · rw [if_pos hdead, outcome_bind_of_ok hremove]
    have hpassages : s.graph.passages n = [] := by
      simp [passages, hexits, List.isEmpty_iff.1 hdead]
    have hgone : s.graph.without n = s.graph.bypassed classify n := by
      rw [bypassed, hpassages, List.foldl_nil]
    exact .gone (hgone ▸ .bypass hb (by simp [hpassages]))
  · rw [if_neg hdead]
    -- the entrances are read before the region is taken out, so the passages are those of the old graph
    have hentrances := outcome_mapM (l := s.graph.parentsOf n) (s := s)
      (f := fun p => do return (p, ((← region p).exitTo? n).elim [] (·.logic)))
      (v := fun p => (p, s.graph.exitLogic p n)) fun p hp => by
        obtain ⟨pr, hpr⟩ := mem_names.1 (hg.parent_mem hp)
        rw [outcome_region_bind hpr, exit?_of_region? hpr]
        rfl
    rw [outcome_bind_of_ok hentrances, outcome_bind_of_ok hremove, ← hexits]
    have hlead := outcome_forM_leadRound classify n hg hall
      { s with graph := s.graph.without n }
    rw [← forM_leadRound] at hlead
    rcases hlead with ⟨hok, hdetours⟩ | ⟨l, fault, hl, hfail, hfault⟩
    · rw [outcome_bind_of_ok hok]
      exact .gone (.bypass hb hdetours)
    · rw [outcome_bind_of_error hfail]
      exact .fails ⟨n, l, hb, hl, rfl⟩ hfault

end Building

end RegionLogic
