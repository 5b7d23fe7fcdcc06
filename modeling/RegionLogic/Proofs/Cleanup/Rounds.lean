import Mathlib.Logic.Relation
import RegionLogic.Proofs.Cleanup.Attempts

/-!
# Rounds

The rounds of a cleanup are a sequence of changes: regions go, and lists of alternatives are reduced.
The rounds end right after a sweep, or at a failure of the classifier.

## Main definitions

* `Removals`: several regions go one after the other
* `Change`, `Reduced`: the changes that the rounds make, and a graph at their end
* `Interruption`: what is left by a failure
* `CleanupEnds`: how the rounds end
* `Building.recordRound`: what follows a round that has taken something out

## Main results

* `forEachRegion_ends`: a pass over all regions
* `round_ends`: one round
* `rounds_succ`: one round and those that follow it
* `simplify_ends`, `clean_ends`: the rounds, and a cleanup
* `CleanupEnds.preserves`: what each change preserves holds after the rounds
-/

namespace RegionLogic

/-- Several regions go from a graph one after the other. -/
inductive Removals (classify : Classifier) (kept : NameSet) :
    RegionGraph → List Name → RegionGraph → Prop
  | nil (g) : Removals classify kept g [] g
  | cons {g g₁ g₂ n l} (h : Removal classify kept g n g₁) (hs : Removals classify kept g₁ l g₂) :
    Removals classify kept g (n :: l) g₂

/-- A change that the rounds make. -/
inductive Change (classify : Classifier) (kept : NameSet) (compareRegions : Bool) :
    RegionGraph → RegionGraph → Prop
  | removal {g n g'} (h : Removal classify kept g n g') : Change classify kept compareRegions g g'
  | sweep {g g'} (h : RegionGraph.Relists (Settled classify compareRegions) g g') :
    Change classify kept compareRegions g g'

/-- What is left when the classifier fails during a change. -/
inductive Interruption (classify : Classifier) (kept : NameSet) (compareRegions : Bool) :
    RegionGraph → RegionGraph → Prop
  | removal {g g'} (h : Abandoned classify kept g g') :
    Interruption classify kept compareRegions g g'
  | sweep {g g'} (h : RegionGraph.Relists (Swept classify compareRegions) g g') :
    Interruption classify kept compareRegions g g'

/-- The graph `g'` arises from `g` by changes, the last of which is a sweep. -/
def Reduced (classify : Classifier) (kept : NameSet) (compareRegions : Bool) (g g' : RegionGraph) :
    Prop :=
  ∃ g₁, Relation.ReflTransGen (Change classify kept compareRegions) g g₁ ∧
    RegionGraph.Relists (Settled classify compareRegions) g₁ g'

/-- How the rounds end that start from the graph `g`. -/
inductive CleanupEnds (classify : Classifier) (kept : NameSet) (compareRegions : Bool)
    (P : Name → Prop) (g : RegionGraph) {α : Type} : Except Fault α → RegionGraph → Prop
  | done {a g'} (h : Reduced classify kept compareRegions g g') :
    CleanupEnds classify kept compareRegions P g (.ok a) g'
  | fails {fault g₁ g'} (h : Relation.ReflTransGen (Change classify kept compareRegions) g g₁)
    (hi : Interruption classify kept compareRegions g₁ g') (hfault : classify.Fails P fault) :
    CleanupEnds classify kept compareRegions P g (.error fault) g'

/-- How a pass over the regions of the graph `g` ends. Where no region goes none could. -/
inductive PassEnds (classify : Classifier) (kept : NameSet) (P : Name → Prop) (possible : Name → Prop)
    (g : RegionGraph) : Except Fault (List Name) → RegionGraph → Prop
  | done {l g'} (h : Removals classify kept g l g') (hidle : l = [] → ∀ n, ¬possible n) :
    PassEnds classify kept P possible g (.ok l) g'
  | fails {fault l g₁ g'} (h : Removals classify kept g l g₁) (ha : Abandoned classify kept g₁ g')
    (hfault : classify.Fails P fault) : PassEnds classify kept P possible g (.error fault) g'

/-- No region of a graph can go in one of the ways that are to be tried. -/
structure Idle (kept : NameSet) (options : CleanupOptions) (g : RegionGraph) : Prop where
  /-- No region can be merged. -/
  merge : ∀ n ∈ g.names, ¬∃ p, Mergeable kept g p n
  /-- No region can be joined to a neighbour. -/
  absorb : options.mergeCycles → ∀ n ∈ g.names, ¬∃ c, Absorbable kept g n c
  /-- No empty region can be taken out. -/
  bypass : options.removeEmpty → ∀ n ∈ g.names, ¬Bypassable kept g n

/-- How a round on the graph `g` ends. Where it takes nothing out nothing can go. -/
inductive RoundEnds (classify : Classifier) (kept : NameSet) (options : CleanupOptions)
    (P : Name → Prop) (g : RegionGraph) : Except Fault Building.RoundResult → RegionGraph → Prop
  | done {r g'} (h : Removals classify kept g (r.merged ++ r.absorbed ++ r.removed) g')
    (hidle : r.isIdle → Idle kept options g) : RoundEnds classify kept options P g (.ok r) g'
  | fails {fault l g₁ g'} (h : Removals classify kept g l g₁) (ha : Abandoned classify kept g₁ g')
    (hfault : classify.Fails P fault) : RoundEnds classify kept options P g (.error fault) g'

open RegionGraph

variable {classify : Classifier} {kept : NameSet} {compareRegions : Bool} {P : Name → Prop}
  {Q : Branch → Prop} {g g' : RegionGraph} {l : List Name} {n : Name}

/-! ## What the changes keep -/

theorem Branch.Modifies.add {a b : Branch} (ha : a.Modifies P) (hb : b.Modifies P) :
    (a + b).Modifies P :=
  fun _ hm => (List.mem_append.1 hm).elim (ha _) (hb _)

/-- A consistent graph whose branches satisfy `Q`. -/
def RegionGraph.Sound (Q : Branch → Prop) (g : RegionGraph) : Prop := g.Consistent ∧ g.AllBranches Q

theorem RegionGraph.Consistent.sound (h : g.Consistent) : g.Sound fun _ => True :=
  ⟨h, allBranches_true⟩

theorem Removal.sound (h : Removal classify kept g n g') (hg : g.Sound Q)
    (hadd : ∀ {a b}, Q a → Q b → Q (a + b)) (hstart : startRegion ∈ kept) : g'.Sound Q :=
  h.keeps hg.1 hg.2 hadd hstart

theorem sound_of_swept (h : Relists (Swept classify compareRegions) g g') (hg : g.Sound Q) :
    g'.Sound Q :=
  have hc := hg.1.relists h fun hl => hl.ne_nil
  ⟨hc, hg.2.relists hg.1 hc h fun hl => hl.sublist.subset⟩

theorem Change.sound (h : Change classify kept compareRegions g g') (hg : g.Sound Q)
    (hadd : ∀ {a b}, Q a → Q b → Q (a + b)) (hstart : startRegion ∈ kept) : g'.Sound Q := by
  cases h with
  | removal h => exact h.sound hg hadd hstart
  | sweep h => exact sound_of_swept (h.mono Settled.swept) hg

theorem Removals.sound (h : Removals classify kept g l g') (hg : g.Sound Q)
    (hadd : ∀ {a b}, Q a → Q b → Q (a + b)) (hstart : startRegion ∈ kept) : g'.Sound Q := by
  induction h with
  | nil => exact hg
  | cons h _ ih => exact ih (h.sound hg hadd hstart)

theorem Removals.append {l' : List Name} {g'' : RegionGraph} (h : Removals classify kept g l g')
    (h' : Removals classify kept g' l' g'') : Removals classify kept g (l ++ l') g'' := by
  induction h with
  | nil => exact h'
  | cons h _ ih => exact .cons h (ih h')

theorem Removals.eq_of_nil (h : Removals classify kept g [] g') : g' = g := by
  cases h
  rfl

theorem Removals.changes (h : Removals classify kept g l g') :
    Relation.ReflTransGen (Change classify kept compareRegions) g g' := by
  induction h with
  | nil => exact .refl
  | cons h _ ih => exact ih.head (.removal h)

theorem sound_of_changes (h : Relation.ReflTransGen (Change classify kept compareRegions) g g')
    (hg : g.Sound Q) (hadd : ∀ {a b}, Q a → Q b → Q (a + b)) (hstart : startRegion ∈ kept) :
    g'.Sound Q := by
  induction h with
  | refl => exact hg
  | tail _ h ih => exact h.sound ih hadd hstart

theorem Reduced.sound (h : Reduced classify kept compareRegions g g') (hg : g.Sound Q)
    (hadd : ∀ {a b}, Q a → Q b → Q (a + b)) (hstart : startRegion ∈ kept) : g'.Sound Q :=
  have ⟨_, hchanges, hsweep⟩ := h
  sound_of_swept (hsweep.mono Settled.swept) (sound_of_changes hchanges hg hadd hstart)

/-- What each change preserves, whether it is completed or not, holds after the rounds. -/
theorem CleanupEnds.preserves {α : Type} {r : Except Fault α} {Inv : RegionGraph → Prop}
    (hremoval : ∀ {g n g'}, Inv g → Removal classify kept g n g' → Inv g')
    (hswept : ∀ {g g'}, Inv g → Relists (Swept classify compareRegions) g g' → Inv g')
    (habandoned : ∀ {g g'}, Inv g → Abandoned classify kept g g' → Inv g')
    (h : CleanupEnds classify kept compareRegions P g r g') (hg : Inv g) : Inv g' := by
  -- the induction is on the changes; an interrupted one can only be the last
  have hchanges {g₁} (hc : Relation.ReflTransGen (Change classify kept compareRegions) g g₁) :
      Inv g₁ := by
    induction hc with
    | refl => exact hg
    | tail _ hc ih =>
      cases hc with
      | removal hc => exact hremoval ih hc
      | sweep hc => exact hswept ih (hc.mono Settled.swept)
  cases h with
  | done h =>
    obtain ⟨g₁, hc, hsweep⟩ := h
    exact hswept (hchanges hc) (hsweep.mono Settled.swept)
  | fails hc hi =>
    cases hi with
    | removal hi => exact habandoned (hchanges hc) hi
    | sweep hi => exact hswept (hchanges hc) hi

namespace Building

variable {options : CleanupOptions} {s : Session}

/-! ## A pass over the regions -/

/-- Tries something on a region if it is still there. -/
def attemptIfThere (attempt : Name → Building (Option Name)) (n : Name) : Building (Option Name) := do
  if ((← graph).region? n).isSome then attempt n else return none

/-- An attempt ends as it should where it is made on a region of a graph whose branches satisfy `P`. -/
def AttemptsEnd (classify : Classifier) (kept : NameSet) (P : Name → Prop)
    (possible : RegionGraph → Name → Prop) (attempt : Name → Building (Option Name)) : Prop :=
  ∀ (s : Session) (n : Name), s.graph.Sound (·.Modifies P) → n ∈ s.graph.names →
    AttemptEnds classify kept P (possible s.graph n) s.graph (outcome (attempt n) s).1
      (outcome (attempt n) s).2.graph

variable {attempt : Name → Building (Option Name)} {possible : RegionGraph → Name → Prop}

theorem attemptIfThere_ends (hattempt : AttemptsEnd classify kept P possible attempt)
    (hs : s.graph.Sound (·.Modifies P)) :
    AttemptEnds classify kept P (n ∈ s.graph.names ∧ possible s.graph n) s.graph
      (outcome (attemptIfThere attempt n) s).1 (outcome (attemptIfThere attempt n) s).2.graph := by
  rw [attemptIfThere, outcome_graph_bind]
  by_cases hn : n ∈ s.graph.names
  · have hsome : (s.graph.region? n).isSome = true := Entries.isSome_find?.2 hn
    rw [if_pos hsome]
    simpa only [hn, true_and] using hattempt s n hs hn
  · have hnone : ¬(s.graph.region? n).isSome = true := fun h => hn (Entries.isSome_find?.1 h)
    rw [if_neg hnone]
    exact .nothing fun h => hn h.1

/-- Where each attempt ends as it should a pass over some names does. -/
theorem filterMapM_ends (hstart : startRegion ∈ kept)
    (hattempt : AttemptsEnd classify kept P possible attempt) (ns : List Name)
    (hs : s.graph.Sound (·.Modifies P)) :
    PassEnds classify kept P (fun n => n ∈ ns ∧ n ∈ s.graph.names ∧ possible s.graph n) s.graph
      (outcome (ns.filterMapM (attemptIfThere attempt)) s).1
      (outcome (ns.filterMapM (attemptIfThere attempt)) s).2.graph := by
  induction ns generalizing s with
  | nil => exact .done (.nil _) (by simp)
  | cons n ns ih =>
    have hone := attemptIfThere_ends (n := n) hattempt hs
    rw [List.filterMapM_cons, outcome_bind]
    generalize outcome (attemptIfThere attempt n) s = o at hone ⊢
    obtain ⟨r, g', events⟩ := o
    dsimp only at hone
    -- nothing has gone, so the rest of the pass starts from the same graph
    cases hone with
    | nothing hnot =>
      have hrest := ih (s := ⟨s.graph, events⟩) hs
      dsimp only at hrest ⊢
      generalize outcome (ns.filterMapM (attemptIfThere attempt)) ⟨s.graph, events⟩ = o at hrest ⊢
      obtain ⟨r, g', events'⟩ := o
      cases hrest with
      | done hl hidle =>
        refine .done hl fun hnil m hm => ?_
        rcases List.mem_cons.1 hm.1 with rfl | hmem
        · exact hnot hm.2
        · exact hidle hnil m ⟨hmem, hm.2⟩
      | fails hl ha hfault => exact .fails hl ha hfault
    | @gone m _ hm =>
      have hrest := ih (s := ⟨g', events⟩) (hm.sound hs Branch.Modifies.add hstart)
      dsimp only
      rw [outcome_bind]
      generalize outcome (ns.filterMapM (attemptIfThere attempt)) ⟨g', events⟩ = o at hrest ⊢
      obtain ⟨r, g'', events'⟩ := o
      dsimp only at hrest
      cases hrest with
      | done hl _ => exact .done (.cons hm hl) (by simp)
      | fails hl ha hfault => exact .fails (.cons hm hl) ha hfault
    | fails ha hfault => exact .fails (.nil _) ha hfault

/-- Where each attempt ends as it should the pass over all regions does. -/
theorem forEachRegion_ends (hstart : startRegion ∈ kept)
    (hattempt : AttemptsEnd classify kept P possible attempt) (hs : s.graph.Sound (·.Modifies P)) :
    PassEnds classify kept P (fun n => n ∈ s.graph.names ∧ possible s.graph n) s.graph
      (outcome (forEachRegion attempt) s).1 (outcome (forEachRegion attempt) s).2.graph := by
  have hends := filterMapM_ends hstart hattempt s.graph.names hs
  simp only [and_self_left] at hends
  exact hends

theorem attemptsEnd_mergeIntoParent? :
    AttemptsEnd classify kept P (fun g n => ∃ p, Mergeable kept g p n) (mergeIntoParent? kept) :=
  fun _ _ hs hn => mergeIntoParent?_ends hs.1 hn

theorem attemptsEnd_absorbNeighbour? :
    AttemptsEnd classify kept P (fun g n => ∃ c, Absorbable kept g n c) (absorbNeighbour? kept) :=
  fun _ _ hs hn => absorbNeighbour?_ends hs.1 hn

theorem attemptsEnd_removeEmpty? :
    AttemptsEnd classify kept P (Bypassable kept) (removeEmpty? classify kept) :=
  fun _ _ hs hn => removeEmpty?_ends hs.1 hs.2 hn

theorem exists_of_passEnds {m : Building (List Name)} {possible : Name → Prop}
    (h : PassEnds classify kept P possible g (outcome m s).1 (outcome m s).2.graph) :
    (∃ l t, outcome m s = (.ok l, t) ∧ Removals classify kept g l t.graph ∧
        (l = [] → ∀ n, ¬possible n)) ∨
      ∃ fault t l g₁, outcome m s = (.error fault, t) ∧ Removals classify kept g l g₁ ∧
        Abandoned classify kept g₁ t.graph ∧ classify.Fails P fault := by
  generalize outcome m s = o at h
  obtain ⟨r, g', events⟩ := o
  cases h with
  | done hl hidle => exact Or.inl ⟨_, ⟨_, events⟩, rfl, hl, hidle⟩
  | fails hl ha hfault => exact Or.inr ⟨_, ⟨_, events⟩, _, _, rfl, hl, ha, hfault⟩

/-- A pass that is made on a condition. -/
def passIf (c : Bool) (attempt : Name → Building (Option Name)) : Building (List Name) :=
  if c then forEachRegion attempt else pure []

theorem passIf_ends (hstart : startRegion ∈ kept)
    (hattempt : AttemptsEnd classify kept P possible attempt) (hs : s.graph.Sound (·.Modifies P))
    (c : Bool) :
    PassEnds classify kept P (fun n => c = true ∧ n ∈ s.graph.names ∧ possible s.graph n) s.graph
      (outcome (passIf c attempt) s).1 (outcome (passIf c attempt) s).2.graph := by
  cases c with
  | true => simpa only [true_and, passIf, if_true] using forEachRegion_ends hstart hattempt hs
  | false => exact .done (.nil _) (by simp)

/-! ## Rounds -/

theorem round_eq : round classify kept options = do
    let m ← forEachRegion (mergeIntoParent? kept)
    let a ← passIf (m.isEmpty && options.mergeCycles) (absorbNeighbour? kept)
    let e ← passIf (m.isEmpty && a.isEmpty && options.removeEmpty) (removeEmpty? classify kept)
    return { merged := m, absorbed := a, removed := e } := by
  unfold passIf
  -- the branches differ in where the conditions stand, not in what is done
  refine congrArg (forEachRegion (mergeIntoParent? kept) >>= ·) (funext fun m => ?_)
  dsimp only
  split
  · refine congrArg (forEachRegion (absorbNeighbour? kept) >>= ·) (funext fun a => ?_)
    split <;> rfl
  · show (pure [] >>= _) = (pure [] >>= _)
    refine congrArg ((pure [] : Building (List Name)) >>= ·) (funext fun a => ?_)
    split <;> rfl

theorem round_ends (classify : Classifier) (options : CleanupOptions) (hstart : startRegion ∈ kept)
    (hs : s.graph.Sound (·.Modifies P)) :
    RoundEnds classify kept options P s.graph (outcome (round classify kept options) s).1
      (outcome (round classify kept options) s).2.graph := by
  rw [round_eq]
  rcases exists_of_passEnds (forEachRegion_ends hstart attemptsEnd_mergeIntoParent? hs) with
    ⟨m, t, ho, hm, hidle⟩ | ⟨fault, t, l, g₁, ho, hl, ha, hfault⟩
  case inr =>
    rw [outcome_bind_of_error ho]
    exact .fails hl ha hfault
  rw [outcome_bind_of_ok ho]
  have ht := hm.sound hs Branch.Modifies.add hstart
  rcases exists_of_passEnds (passIf_ends hstart attemptsEnd_absorbNeighbour? ht
    (m.isEmpty && options.mergeCycles)) with ⟨a, t', ho', ha, hidle'⟩ | ⟨fault, t', l, g₁, ho', hl, ha, hfault⟩
  case inr =>
    rw [outcome_bind_of_error ho']
    exact .fails (hm.append hl) ha hfault
  rw [outcome_bind_of_ok ho']
  have ht' := ha.sound ht Branch.Modifies.add hstart
  rcases exists_of_passEnds (passIf_ends hstart attemptsEnd_removeEmpty? ht'
    (m.isEmpty && a.isEmpty && options.removeEmpty)) with
    ⟨e, t'', ho'', he, hidle''⟩ | ⟨fault, t'', l, g₁, ho'', hl, ha', hfault⟩
  case inr =>
    rw [outcome_bind_of_error ho'']
    exact .fails ((hm.append ha).append hl) ha' hfault
  rw [outcome_bind_of_ok ho'']
  refine .done ((hm.append ha).append he) fun hall => ?_
  -- nothing has gone, so all three passes have seen the same graph
  simp only [RoundResult.isIdle, Bool.and_eq_true, List.isEmpty_iff] at hall
  obtain ⟨⟨rfl, rfl⟩, rfl⟩ := hall
  have hgraph := hm.eq_of_nil
  have hgraph' := ha.eq_of_nil.trans hgraph
  rw [hgraph] at hidle'
  rw [hgraph'] at hidle''
  exact ⟨fun n hn h => hidle rfl n ⟨hn, h⟩, fun hc n hn h => hidle' rfl n ⟨hc, hn, h⟩,
    fun hc n hn h => hidle'' rfl n ⟨hc, hn, h⟩⟩

/-- The regions that a round has taken out. -/
def RoundResult.regions (r : RoundResult) : List Name := r.merged ++ r.absorbed ++ r.removed

theorem RoundResult.isIdle_iff {r : RoundResult} : r.isIdle = true ↔ r.regions = [] := by
  simp [RoundResult.isIdle, RoundResult.regions, and_assoc]

/-- The report after a round. -/
def RoundResult.addTo (r : RoundResult) (report : CleanupReport) (dropped : Nat) : CleanupReport where
  rounds := report.rounds + 1
  merged := report.merged ++ r.merged
  absorbed := report.absorbed ++ r.absorbed
  removed := report.removed ++ r.removed
  branches := report.branches + dropped

/-- Records a round that has taken something out, and drops the branches that are dominated after it. -/
def recordRound (classify : Classifier) (options : CleanupOptions) (report : CleanupReport)
    (r : RoundResult) : Building CleanupReport := do
  log .debug <|
    s!"Cleanup round {report.rounds + 1}: merged {Name.displayList r.merged}, " ++
      s!"absorbed {Name.displayList r.absorbed}, removed {Name.displayList r.removed}"
  return r.addTo report (← sweep classify options)

/-- One round, and those that follow it if it has taken something out. -/
theorem rounds_succ (classify : Classifier) (kept : NameSet) (options : CleanupOptions) (limit : Nat)
    (report : CleanupReport) :
    rounds classify kept options (limit + 1) report =
      round classify kept options >>= fun r =>
        if r.isIdle then pure report
        else recordRound classify options report r >>= rounds classify kept options limit := by
  simp only [rounds, recordRound, RoundResult.addTo, bind_assoc, pure_bind]

/-- A round is recorded with a sweep, which ends with every list reduced or at a failure. -/
theorem outcome_recordRound (classify : Classifier) (options : CleanupOptions) (report : CleanupReport)
    (r : RoundResult) (hall : s.graph.AllBranches (·.Modifies P)) :
    (∃ n g events, outcome (recordRound classify options report r) s =
        (.ok (r.addTo report n), ⟨g, events⟩) ∧
      Relists (Settled classify options.compareRegions) s.graph g) ∨
      ∃ fault g events, outcome (recordRound classify options report r) s =
          (.error fault, ⟨g, events⟩) ∧
        Relists (Swept classify options.compareRegions) s.graph g ∧ classify.Fails P fault := by
  rw [recordRound, outcome_log_bind]
  rcases outcome_sweep (s := { s with events := s.events ++ [_] }) classify options hall with
    ⟨n, g, events, ho, hswept⟩ | ⟨fault, g, events, ho, hswept, hfault⟩
  · refine Or.inl ⟨n, g, events, ?_, hswept⟩
    rw [outcome_bind_of_ok ho]
    rfl
  · refine Or.inr ⟨fault, g, events, ?_, hswept, hfault⟩
    rw [outcome_bind_of_error ho]

/-- The rounds that follow a sweep end after a sweep, or at a failure. -/
theorem rounds_ends {g₀ : RegionGraph} (hstart : startRegion ∈ kept)
    (h₀ : g₀.Sound (·.Modifies P)) (limit : Nat) (report : CleanupReport)
    (hs : Reduced classify kept options.compareRegions g₀ s.graph) :
    CleanupEnds classify kept options.compareRegions P g₀
      (outcome (rounds classify kept options limit report) s).1
      (outcome (rounds classify kept options limit report) s).2.graph := by
  induction limit generalizing report s with
  | zero => exact .done hs
  | succ limit ih =>
    have hsound := hs.sound h₀ Branch.Modifies.add hstart
    have hround := round_ends classify options hstart hsound
    obtain ⟨g₁, hchanges, hsweep⟩ := hs
    have hchanges' := hchanges.tail (.sweep hsweep)
    rw [rounds_succ, outcome_bind]
    generalize outcome (round classify kept options) s = o at hround ⊢
    obtain ⟨r, g', events⟩ := o
    dsimp only at hround
    cases hround with
    | fails hl ha hfault => exact .fails (hchanges'.trans hl.changes) (.removal ha) hfault
    | @done r _ hl hidle =>
      dsimp only
      by_cases hr : r.isIdle = true
      · -- an idle round has left the graph as the last sweep has
        have hnil : r.merged ++ r.absorbed ++ r.removed = [] := RoundResult.isIdle_iff.1 hr
        rw [hnil] at hl
        rw [if_pos hr]
        exact .done ⟨g₁, hchanges, hl.eq_of_nil ▸ hsweep⟩
      · rw [if_neg hr]
        have hg' := hl.sound hsound Branch.Modifies.add hstart
        rcases outcome_recordRound (s := ⟨g', events⟩) classify options report r hg'.2 with
          ⟨n, g'', events', ho, hswept⟩ | ⟨fault, g'', events', ho, hswept, hfault⟩
        · rw [outcome_bind_of_ok ho]
          exact ih _ ⟨g', hchanges'.trans hl.changes, hswept⟩
        · rw [outcome_bind_of_error ho]
          exact .fails (hchanges'.trans hl.changes) (.sweep hswept) hfault

theorem start_mem_protectedRegions (keep : NameSet) (g : RegionGraph) :
    startRegion ∈ g.protectedRegions keep :=
  NameSet.mem_insert.2 (Or.inl rfl)

/-- The rounds end after a sweep, or at a failure. -/
theorem simplify_ends (classify : Classifier) (keep : NameSet) (options : CleanupOptions)
    (hs : s.graph.Sound (·.Modifies P)) :
    CleanupEnds classify (s.graph.protectedRegions keep) options.compareRegions P s.graph
      (outcome (simplify classify keep options) s).1
      (outcome (simplify classify keep options) s).2.graph := by
  rw [simplify, outcome_graph_bind]
  rcases outcome_sweep classify options hs.2 with
    ⟨n, g', events, ho, hswept⟩ | ⟨fault, g', events, ho, hswept, hfault⟩
  · rw [outcome_bind_of_ok ho, outcome_graph_bind]
    exact rounds_ends (start_mem_protectedRegions keep s.graph) hs _ _ ⟨s.graph, .refl, hswept⟩
  · rw [outcome_bind_of_error ho]
    exact .fails .refl (.sweep hswept) hfault

/-- Nothing need be known of the modifiers. -/
theorem simplify_ends_of_consistent (classify : Classifier) (keep : NameSet) (options : CleanupOptions)
    (hs : s.graph.Consistent) :
    CleanupEnds classify (s.graph.protectedRegions keep) options.compareRegions (fun _ => True) s.graph
      (outcome (simplify classify keep options) s).1
      (outcome (simplify classify keep options) s).2.graph :=
  simplify_ends classify keep options ⟨hs, fun _ _ _ _ _ _ => trivial⟩

/-- A cleanup fails where its rounds do, and otherwise strips what they leave. -/
theorem outcome_clean (classify : Classifier) (keep : NameSet) (options : CleanupOptions)
    (s : Session) :
    (∃ fault t, outcome (simplify classify keep options) s = (.error fault, t) ∧
        outcome (clean classify keep options) s = (.error fault, t)) ∨
      ∃ report t g, outcome (simplify classify keep options) s = (.ok report, t) ∧
        Relists (fun l l' => l' = stripEmpty l) t.graph g ∧
        outcome (clean classify keep options) s = (.ok report, { t with graph := g }) := by
  rw [clean]
  rcases h : outcome (simplify classify keep options) s with ⟨fault | report, t⟩
  · exact Or.inl ⟨fault, t, rfl, outcome_bind_of_error h⟩
  · obtain ⟨g, hstrip, hrel⟩ := outcome_strip t
    refine Or.inr ⟨report, t, g, rfl, hrel, ?_⟩
    rw [outcome_bind_of_ok h, outcome_bind_of_ok hstrip]
    rfl

/-- A cleanup fails where the classifier fails on a modifier in the graph. -/
theorem clean_ends (classify : Classifier) (keep : NameSet) (options : CleanupOptions)
    (hs : s.graph.Sound (·.Modifies P)) :
    (∃ report t, outcome (clean classify keep options) s = (.ok report, t)) ∨
      ∃ fault t, outcome (clean classify keep options) s = (.error fault, t) ∧ classify.Fails P fault := by
  have hends := simplify_ends classify keep options hs
  rcases outcome_clean classify keep options s with ⟨fault, t, hfail, ho⟩ | ⟨report, t, g, -, -, ho⟩
  · rw [hfail] at hends
    cases hends with
    | fails _ _ hfault => exact Or.inr ⟨fault, t, ho, hfault⟩
  · exact Or.inl ⟨report, _, ho⟩

end Building

end RegionLogic
