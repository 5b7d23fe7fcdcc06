import RegionLogic.Proofs.Cleanup.Rounds

/-!
# The loop of rounds

Rounds follow one another until one takes nothing out. Every other round takes regions out, so the loop
ends by itself: where as many rounds are allowed for as there are regions, the limit does not matter. What
holds of the loop is shown for one round and carried through the loop by induction.

## Main definitions

* `TakesOut`: some regions go from a graph, and nothing else happens to its regions
* `Building.Loop`: rounds until one takes nothing out, however many there are

## Main results

* `Removals.takesOut`: regions that go one after the other
* `TakesOut.length_names`: as many regions are left as have not gone
* `exists_of_round`, `exists_of_recordRound`: one step of the loop
* `loop_of_rounds`, `loop_of_simplify`: the rounds of a cleanup end by themselves
-/

namespace RegionLogic

/-- The graph `g'` is left when the regions of `l` go from `g`: no other one goes, none comes, and none
changes its place among the others. -/
structure TakesOut (g g' : RegionGraph) (l : List Name) : Prop where
  /-- No region goes twice. -/
  nodup : l.Nodup
  /-- The regions of the list are those that are not there any more. -/
  mem_iff : ∀ {n}, n ∈ l ↔ n ∈ g.names ∧ n ∉ g'.names
  /-- What is left was there before, in the same order. -/
  names : g'.names.Sublist g.names

open RegionGraph

variable {classify : Classifier} {kept : NameSet} {options : CleanupOptions} {g g' g'' : RegionGraph}
  {l l' : List Name} {n : Name}

/-! ## Regions that go -/

namespace TakesOut

theorem of_names_eq (h : g'.names = g.names) : TakesOut g g' [] where
  nodup := .nil
  mem_iff := by simp [h]
  names := h ▸ .refl _

theorem trans (h : TakesOut g g' l) (h' : TakesOut g' g'' l') : TakesOut g g'' (l ++ l') where
  nodup := by
    refine List.nodup_append.2 ⟨h.nodup, h'.nodup, ?_⟩
    rintro n hn _ hn' rfl
    -- what has gone first is not there to go again
    exact (h.mem_iff.1 hn).2 (h'.mem_iff.1 hn').1
  mem_iff {n} := by
    have hbefore : n ∈ g'.names → n ∈ g.names := fun hn => h.names.subset hn
    have hafter : n ∈ g''.names → n ∈ g'.names := fun hn => h'.names.subset hn
    rw [List.mem_append, h.mem_iff, h'.mem_iff]
    tauto
  names := h'.names.trans h.names

theorem perm (h : TakesOut g g' l) (hl : l.Perm l') : TakesOut g g' l' where
  nodup := hl.nodup_iff.1 h.nodup
  mem_iff := hl.mem_iff.symm.trans h.mem_iff
  names := h.names

/-- As many regions are left as have not gone. -/
theorem length_names (h : TakesOut g g' l) (hg : g.names.Nodup) :
    g'.names.length + l.length = g.names.length := by
  have hnodup : (g'.names ++ l).Nodup := by
    refine List.nodup_append.2 ⟨hg.sublist h.names, h.nodup, ?_⟩
    rintro n hn _ hn' rfl
    exact (h.mem_iff.1 hn').2 hn
  have hperm : (g'.names ++ l).Perm g.names := by
    refine (List.perm_ext_iff_of_nodup hnodup hg).2 fun n => ?_
    have hbefore : n ∈ g'.names → n ∈ g.names := fun hn => h.names.subset hn
    rw [List.mem_append, h.mem_iff]
    tauto
  rw [← List.length_append]
  exact hperm.length_eq

end TakesOut

theorem Removal.takesOut (h : Removal classify kept g n g') (hg : g.Consistent)
    (hstart : startRegion ∈ kept) : TakesOut g g' [n] where
  nodup := List.nodup_singleton n
  mem_iff {m} := by
    rw [List.mem_singleton, h.names hg hstart, hg.names_nodup.mem_erase_iff]
    constructor
    · rintro rfl
      exact ⟨h.mem_names hg, fun hm => hm.1 rfl⟩
    · rintro ⟨hm, hgone⟩
      by_contra hne
      exact hgone ⟨hne, hm⟩
  names := by
    rw [h.names hg hstart]
    exact List.erase_sublist

theorem Removals.takesOut (h : Removals classify kept g l g') (hg : g.Consistent)
    (hstart : startRegion ∈ kept) : TakesOut g g' l := by
  induction h with
  | nil => exact .of_names_eq rfl
  | cons h _ ih => exact (h.takesOut hg hstart).trans (ih (h.consistent hg hstart))

namespace Building

/-- Rounds until one takes nothing out, however many there are. -/
inductive Loop (classify : Classifier) (kept : NameSet) (options : CleanupOptions) :
    CleanupReport → Session → CleanupReport → Session → Prop
  | stops {report s r t} (hround : outcome (round classify kept options) s = (.ok r, t))
    (hidle : r.isIdle = true) : Loop classify kept options report s report t
  | goesOn {report s r t report₁ u report' v}
    (hround : outcome (round classify kept options) s = (.ok r, t)) (hgone : ¬r.isIdle = true)
    (hrecord : outcome (recordRound classify options report r) t = (.ok report₁, u))
    (hrest : Loop classify kept options report₁ u report' v) :
    Loop classify kept options report s report' v

/-! ## One round -/

variable {s t u : Session} {report report' : CleanupReport} {r : RoundResult}

/-- A round takes out the regions that it reports; where these are none no region can go. -/
theorem exists_of_round (hstart : startRegion ∈ kept) (hs : s.graph.Consistent)
    (ho : outcome (round classify kept options) s = (.ok r, t)) :
    t.graph.Consistent ∧ TakesOut s.graph t.graph r.regions ∧
      (r.isIdle = true → t.graph = s.graph ∧ Idle kept options s.graph) := by
  have hends := round_ends (P := fun _ => True) classify options hstart
    ⟨hs, fun _ _ _ _ _ _ => trivial⟩
  rw [ho] at hends
  cases hends with
  | done hl hidle =>
    refine ⟨(hl.sound hs.sound (fun _ _ => trivial) hstart).1, hl.takesOut hs hstart, fun hr => ?_⟩
    -- nothing has gone
    have hnil : r.merged ++ r.absorbed ++ r.removed = [] := RoundResult.isIdle_iff.1 hr
    rw [hnil] at hl
    exact ⟨hl.eq_of_nil, hidle hr⟩

/-- What follows a round changes lists of alternatives only, and adds the round to the report. -/
theorem exists_of_recordRound (ht : t.graph.Consistent)
    (ho : outcome (recordRound classify options report r) t = (.ok report', u)) :
    u.graph.Consistent ∧ u.graph.names = t.graph.names ∧ ∃ dropped, report' = r.addTo report dropped := by
  have hall : t.graph.AllBranches (·.Modifies fun _ => True) := fun _ _ _ _ _ _ => trivial
  rcases outcome_recordRound classify options report r hall with
    ⟨dropped, g, events, hrecord, hrel⟩ | ⟨fault, g, events, hrecord, -, -⟩
  · obtain ⟨hreport, rfl⟩ := Prod.mk.inj (hrecord.symm.trans ho)
    exact ⟨ht.relists hrel fun hl => hl.swept.ne_nil, hrel.names, dropped, (Except.ok.inj hreport).symm⟩
  · cases hrecord.symm.trans ho

/-! ## The whole loop -/

/-- Where as many rounds are allowed for as there are regions the rounds end by themselves. -/
theorem loop_of_rounds (hstart : startRegion ∈ kept) (limit : Nat) (hs : s.graph.Consistent)
    (hlimit : s.graph.names.length ≤ limit)
    (ho : outcome (rounds classify kept options limit report) s = (.ok report', u)) :
    Loop classify kept options report s report' u := by
  induction limit generalizing report s with
  | zero =>
    -- the start region is always there
    have hpos := List.length_pos_of_mem hs.start_mem
    omega
  | succ limit ih =>
    rw [rounds_succ] at ho
    obtain ⟨r, t, hround, hrest⟩ := outcome_bind_eq_ok.1 ho
    obtain ⟨ht, hgone, -⟩ := exists_of_round hstart hs hround
    by_cases hr : r.isIdle = true
    · rw [if_pos hr] at hrest
      obtain ⟨hreport, rfl⟩ := Prod.mk.inj hrest
      obtain rfl := Except.ok.inj hreport
      exact .stops hround hr
    · rw [if_neg hr] at hrest
      obtain ⟨report₁, v, hrecord, hrest⟩ := outcome_bind_eq_ok.1 hrest
      obtain ⟨hv, hnames, -⟩ := exists_of_recordRound ht hrecord
      refine .goesOn hround hr hrecord (ih hv ?_ hrest)
      -- a round that has taken something out leaves fewer regions than rounds
      have hlength := hgone.length_names hs.names_nodup
      have hpos := List.length_pos_iff.2 (mt RoundResult.isIdle_iff.2 hr)
      rw [hnames]
      omega

/-- A cleanup that does not fail sweeps, and goes through rounds that end by themselves. -/
theorem loop_of_simplify {keep : NameSet} (hs : s.graph.Consistent)
    (ho : outcome (simplify classify keep options) s = (.ok report, u)) :
    ∃ dropped t, outcome (sweep classify options) s = (.ok dropped, t) ∧ t.graph.Consistent ∧
      Loop classify (s.graph.protectedRegions keep) options { branches := dropped } t report u := by
  rw [simplify, outcome_graph_bind] at ho
  obtain ⟨dropped, t, hsweep, hrounds⟩ := outcome_bind_eq_ok.1 ho
  rw [outcome_graph_bind] at hrounds
  have ht := hs.relists (relists_of_sweep hsweep) fun hl => hl.swept.ne_nil
  refine ⟨dropped, t, hsweep, ht, ?_⟩
  refine loop_of_rounds (start_mem_protectedRegions keep s.graph) _ ht (Nat.le_of_eq ?_) hrounds
  exact List.length_map _

end Building

end RegionLogic
