import RegionLogic.Proofs.Calls
import RegionLogic.Proofs.Cleanup.Idle

/-!
# What a cleanup reports

The report of a cleanup names every region that has gone, and no other one, and each of them once. A round
is counted only if it has taken a region out, and the start region always stays; so there are fewer rounds
than regions, and the loop of rounds ends without a limit. Edges are laid between regions that are there,
so that none is created on the way.

## Main definitions

* `CleanupReport.regions`: the regions that a report names
* `Accounts`: a report tells what has gone from a graph
* `Building.CleansTo`: a cleanup whose rounds are not limited

## Main results

* `accounts_of_round`: a round that takes something out
* `Loop.accounts`: the loop of rounds
* `accounts_of_cleansTo`, `cleansTo_of_clean`: a whole cleanup
* `clean_accounts_after_calls`: a cleanup after any calls
-/

namespace RegionLogic

open RegionGraph

/-- The regions that a report names as merged, joined or taken out. -/
def CleanupReport.regions (r : CleanupReport) : List Name := r.merged ++ r.absorbed ++ r.removed

/-- The report `r` tells what has gone when the graph `g` is left of `g₀`. -/
structure Accounts (r : CleanupReport) (g₀ g : RegionGraph) : Prop where
  /-- The regions that it names have gone, and nothing else has happened to the regions. -/
  takesOut : TakesOut g₀ g r.regions
  /-- It counts no more rounds than regions. -/
  rounds_le : r.rounds ≤ r.regions.length

variable {classify : Classifier} {kept keep : NameSet} {options : CleanupOptions} {g₀ g g' : RegionGraph}
  {report report' : CleanupReport}

theorem Accounts.of_names_eq (h : Accounts report g₀ g) (hnames : g'.names = g.names) :
    Accounts report g₀ g' where
  takesOut := by
    have hsame := h.takesOut.trans (.of_names_eq hnames)
    rwa [List.append_nil] at hsame
  rounds_le := h.rounds_le

namespace Building

variable {s t u : Session} {r : RoundResult}

/-- A cleanup whose rounds are not limited leads from `s` to `t` and gives the report. -/
def CleansTo (classify : Classifier) (keep : NameSet) (options : CleanupOptions) (s : Session)
    (report : CleanupReport) (t : Session) : Prop :=
  ∃ dropped t₀ t₁, outcome (sweep classify options) s = (.ok dropped, t₀) ∧
    Loop classify (s.graph.protectedRegions keep) options { branches := dropped } t₀ report t₁ ∧
    outcome strip t₁ = (.ok (), t)

/-! ## One round -/

/-- The report after a round names the regions of the round as well. -/
theorem RoundResult.perm_regions_addTo (r : RoundResult) (report : CleanupReport) (dropped : Nat) :
    (report.regions ++ r.regions).Perm (r.addTo report dropped).regions := by
  rw [List.perm_iff_count]
  intro n
  simp only [CleanupReport.regions, RoundResult.regions, RoundResult.addTo, List.count_append]
  omega

/-- A round that takes something out is accounted for by the report that counts it. -/
theorem accounts_of_round (h : Accounts report g₀ s.graph) (hstart : startRegion ∈ kept)
    (hs : s.graph.Consistent) (hround : outcome (round classify kept options) s = (.ok r, t))
    (hgone : ¬r.isIdle = true)
    (hrecord : outcome (recordRound classify options report r) t = (.ok report', u)) :
    Accounts report' g₀ u.graph := by
  obtain ⟨ht, htakes, -⟩ := exists_of_round hstart hs hround
  obtain ⟨-, hnames, dropped, rfl⟩ := exists_of_recordRound ht hrecord
  have hperm := r.perm_regions_addTo report dropped
  apply Accounts.of_names_eq (g := t.graph) _ hnames
  refine ⟨(h.takesOut.trans htakes).perm hperm, ?_⟩
  -- the round counts for one, and it has taken out one region at least
  have hlength := hperm.length_eq
  have hpos : 0 < r.regions.length := List.length_pos_iff.2 (mt RoundResult.isIdle_iff.2 hgone)
  have hrounds := h.rounds_le
  rw [List.length_append] at hlength
  show report.rounds + 1 ≤ _
  omega

/-! ## The whole cleanup -/

/-- What has been accounted for before the loop of rounds is accounted for after it. -/
theorem Loop.accounts (h : Loop classify kept options report s report' t) (hstart : startRegion ∈ kept)
    (hs : s.graph.Consistent) (ha : Accounts report g₀ s.graph) : Accounts report' g₀ t.graph := by
  induction h with
  | stops hround hidle =>
    -- the last round has left the graph as it was
    obtain ⟨-, -, hlast⟩ := exists_of_round hstart hs hround
    rwa [(hlast hidle).1]
  | goesOn hround hgone hrecord _ ih =>
    obtain ⟨ht, -, -⟩ := exists_of_round hstart hs hround
    apply ih
    · exact (exists_of_recordRound ht hrecord).1
    · exact accounts_of_round ha hstart hs hround hgone hrecord

theorem accounts_of_cleansTo (hs : s.graph.Consistent)
    (h : CleansTo classify keep options s report t) : Accounts report s.graph t.graph := by
  obtain ⟨dropped, t₀, t₁, hsweep, hloop, hstrip⟩ := h
  have hswept := relists_of_sweep hsweep
  have ht₀ : t₀.graph.Consistent := hs.relists hswept fun hl => hl.swept.ne_nil
  -- nothing has gone before the rounds
  have hfirst : Accounts { branches := dropped } s.graph t₀.graph := ⟨.of_names_eq hswept.names, Nat.le.refl⟩
  have hlast := hloop.accounts (start_mem_protectedRegions keep s.graph) ht₀ hfirst
  obtain ⟨g, hstrip', hrel⟩ := outcome_strip t₁
  obtain ⟨-, rfl⟩ := Prod.mk.inj (hstrip'.symm.trans hstrip)
  exact hlast.of_names_eq hrel.names

/-- The limit on the rounds of a cleanup does not matter. -/
theorem cleansTo_of_clean (hs : s.graph.Consistent)
    (ho : outcome (clean classify keep options) s = (.ok report, t)) :
    CleansTo classify keep options s report t := by
  rw [clean] at ho
  obtain ⟨report', t₁, hsimplify, ho⟩ := outcome_bind_eq_ok.1 ho
  obtain ⟨u, t₂, hstrip, hreturn⟩ := outcome_bind_eq_ok.1 ho
  obtain ⟨hreport, rfl⟩ := Prod.mk.inj hreturn
  obtain rfl := Except.ok.inj hreport
  obtain ⟨dropped, t₀, hsweep, -, hloop⟩ := loop_of_simplify hs hsimplify
  exact ⟨dropped, t₀, t₁, hsweep, hloop, hstrip⟩

end Building

open Building

/-- After any calls, where the classifier knows the modifiers, a cleanup ends without a limit on its
rounds. The regions that its report names are those that have gone, each of them once; none has come, and
the others are in the same order as before. There are no more rounds than regions that have gone, and these
are fewer than there were. -/
theorem clean_accounts_after_calls (calls : List Call) (classify : Classifier) (keep : NameSet)
    (options : CleanupOptions)
    (hclassify : (Session.after {} calls).graph.AllBranches
      (·.Modifies fun m => ∃ kind, classify m = .ok kind)) :
    let s := Session.after {} calls
    ∃ report t, outcome (clean classify keep options) s = (.ok report, t) ∧
      CleansTo classify keep options s report t ∧
      TakesOut s.graph t.graph (report.merged ++ report.absorbed ++ report.removed) ∧
      report.rounds ≤ (report.merged ++ report.absorbed ++ report.removed).length ∧
      (report.merged ++ report.absorbed ++ report.removed).length < s.graph.names.length := by
  intro s
  have hs : s.graph.Consistent := consistent_after fresh_consistent calls
  obtain ⟨report, t, ho⟩ := exists_of_clean keep options hs hclassify
  have hcleans := cleansTo_of_clean hs ho
  obtain ⟨htakes, hrounds⟩ := accounts_of_cleansTo hs hcleans
  refine ⟨report, t, ho, hcleans, htakes, hrounds, ?_⟩
  -- the start region is still there
  have hpos := List.length_pos_of_mem (consistent_of_clean hs ho).start_mem
  have hlength := htakes.length_names hs.names_nodup
  show report.regions.length < _
  omega

/-- A chest in an attic, which a stair leads to and back from; and a roof behind a hatch. The chest has been
kept by a first cleanup. -/
def atticCalls : List Call :=
  [.ingest { name := "Stair", logic := [{ conditions := {("Lamp" : Name)} }] },
    .connect "Stair" .empty "Attic", .connect "Attic" .empty "Stair",
    .ingest { name := "Chest", logic := [{ provider := some "Attic" }], handling := .location },
    .ingest { name := "Hatch", logic := [{}] },
    .ingest { name := "Roof", logic := [{ provider := some "Hatch" }], handling := .transition },
    .clean (fun _ => .ok .neutral) {("Chest" : Name)} {}]

theorem clean_accounts_after_atticCalls :
    let classify : Classifier := fun _ => .ok .neutral
    let options : CleanupOptions := ⟨true, true, true⟩
    let s := Session.after {} atticCalls
    ∃ report t, outcome (clean classify ∅ options) s = (.ok report, t) ∧
      report = { rounds := 4, merged := ["Chest", "Stair"], absorbed := ["Attic"], removed := ["Hatch"] } ∧
      CleansTo classify ∅ options s report t ∧
      TakesOut s.graph t.graph (report.merged ++ report.absorbed ++ report.removed) ∧
      report.rounds ≤ (report.merged ++ report.absorbed ++ report.removed).length ∧
      (report.merged ++ report.absorbed ++ report.removed).length < s.graph.names.length := by
  intro classify options s
  obtain ⟨report, t, ho, haccounts⟩ :=
    clean_accounts_after_calls atticCalls classify ∅ options fun _ _ _ _ _ _ => ⟨_, rfl⟩
  have hreport : (outcome (clean classify ∅ options) s).1 =
      .ok { rounds := 4, merged := ["Chest", "Stair"], absorbed := ["Attic"], removed := ["Hatch"] } := by
    decide +kernel
  rw [ho] at hreport
  exact ⟨report, t, ho, Except.ok.inj hreport, haccounts⟩

end RegionLogic
