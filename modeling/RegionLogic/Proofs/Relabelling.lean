import RegionLogic.Proofs.Calls
import RegionLogic.Proofs.Cleanup.Idle
import RegionLogic.Proofs.Region.Rerouting

/-!
# Another start region

A region can be made the start region unless it is the start region or owns something; otherwise nothing
is changed. What leads into it leads to the start region then. The branches are the same as before, so
that a branch that requires the region still requires it when it is gone.

## Main definitions

* `RegionGraph.HasRequired`: every region that some branch requires is there

## Main results

* `relabel_after_calls`: what the call does after any calls
* `hasRequired_relabel_after_calls`: whether what is required is there afterwards
* `relabel_loses_required`: it need not be
-/

namespace RegionLogic

open Building RegionGraph

namespace Building

variable {s : Session} {n : Name}

/-- The call succeeds for the regions that can be made the start region. -/
theorem outcome_relabelAsStart_eq_ok_iff (hs : s.graph.Consistent) :
    (outcome (relabelAsStart n) s).1 = .ok () ↔ s.graph.Relabelable n := by
  constructor
  · intro hok
    by_contra hn
    obtain ⟨cause, ho⟩ := outcome_relabelAsStart_of_not hn
    rw [ho] at hok
    cases hok
  · intro hn
    rw [outcome_relabelAsStart hs hn]

end Building

/-- After any calls, making a region the start region succeeds for another region that is there and owns
nothing, and rewires the graph around it. Otherwise the call fails, and neither the graph nor the events
are changed. -/
theorem relabel_after_calls (calls : List Call) (n : Name) :
    let s := Session.after {} calls
    let t := (outcome (relabelAsStart n) s).2
    ((outcome (relabelAsStart n) s).1 = .ok () ↔ s.graph.Relabelable n) ∧
      (s.graph.Relabelable n → s.graph.Relabels n t.graph ∧
        t.events = s.events ++ [⟨.info, .builder, s!"Relabelled start region {n} as {startRegion}"⟩]) ∧
      (¬s.graph.Relabelable n →
        ∃ cause, outcome (relabelAsStart n) s = (.error (.relabel cause), s)) := by
  intro s t
  have hs : s.graph.Consistent := consistent_after fresh_consistent calls
  refine ⟨outcome_relabelAsStart_eq_ok_iff hs, fun hn => ?_, outcome_relabelAsStart_of_not⟩
  have ho := outcome_relabelAsStart hs hn
  have ht : t = ⟨s.graph.relabelled n, _⟩ := congrArg Prod.snd ho
  rw [ht]
  exact ⟨hs.relabels hn, rfl⟩

/-- A camp to which ways lead from the start region, and from a hall that has a way to the start region. -/
def campCalls : List Call :=
  [.connect startRegion .empty "Camp", .connect "Hall" { items := {("Lamp" : Name)} } startRegion,
    .connect "Hall" { items := {("Key" : Name)} } "Camp", .connect "Hall" .empty "Cave"]

theorem relabel_after_campCalls :
    let s := Session.after {} campCalls
    let t := (outcome (relabelAsStart "Camp") s).2
    s.graph.Relabelable "Camp" ∧ s.graph.Relabels "Camp" t.graph ∧
      t.graph.exitsOf "Hall" =
        [⟨startRegion, [{ items := {("Lamp" : Name)} }, { items := {("Key" : Name)} }]⟩,
          ⟨"Cave", [.empty]⟩] ∧
      t.graph.parentsOf startRegion = [("Hall" : Name), startRegion] := by
  intro s t
  have hcamp : s.graph.Relabelable "Camp" :=
    { ne_start := by decide
      mem_names := by decide +kernel
      exitsOf := by decide +kernel
      placedIn := fun kind => by cases kind <;> decide +kernel }
  have hexits : t.graph.exitsOf "Hall" =
      [⟨startRegion, [{ items := {("Lamp" : Name)} }, { items := {("Key" : Name)} }]⟩,
        ⟨"Cave", [.empty]⟩] := by decide +kernel
  have hparents : t.graph.parentsOf startRegion = [("Hall" : Name), startRegion] := by decide +kernel
  exact ⟨hcamp, ((relabel_after_calls campCalls "Camp").2.1 hcamp).1, hexits, hparents⟩

/-! ## What is required -/

namespace RegionGraph

variable {g : RegionGraph} {n m : Name}

/-- Every region that some branch requires is there. -/
def HasRequired (g : RegionGraph) : Prop := ∀ n, g.Requires n → n ∈ g.names

theorem hasRequired_iff :
    g.HasRequired ↔ ∀ l ∈ g.logicLists, ∀ b ∈ l, ∀ n ∈ b.regions.toList, n ∈ g.names := by
  constructor
  · intro h l hl b hb n hn
    exact h n ⟨l, hl, b, hb, hn⟩
  · rintro h n ⟨l, hl, b, hb, hn⟩
    exact h l hl b hb n hn

instance (g : RegionGraph) : Decidable g.HasRequired := decidable_of_iff _ hasRequired_iff.symm

/-- A relabelling leaves the requirements as they are, those of the region that goes included. -/
theorem Consistent.requires_relabelled (h : g.Consistent) (hn : g.Relabelable n) :
    (g.relabelled n).Requires m ↔ g.Requires m := by
  rw [requires_iff_not_allBranches, requires_iff_not_allBranches, h.allBranches_relabelled hn]

theorem Consistent.hasRequired_relabelled (h : g.Consistent) (hn : g.Relabelable n) :
    (g.relabelled n).HasRequired ↔ g.HasRequired ∧ ¬g.Requires n := by
  have hthere (m : Name) : m ∈ (g.relabelled n).names ↔ m ≠ n ∧ m ∈ g.names := by
    rw [h.names_relabelled, h.names_nodup.mem_erase_iff]
  simp only [HasRequired, h.requires_relabelled hn, hthere]
  constructor
  · exact fun hall => ⟨fun m hm => (hall m hm).2, fun hreq => (hall n hreq).1 rfl⟩
  · rintro ⟨hall, hnone⟩ m hm
    exact ⟨fun hmn => hnone (hmn ▸ hm), hall m hm⟩

end RegionGraph

/-- After any calls, making a region the start region changes no requirement. So all that is required is
there afterwards if it was there before and the region itself is not required. -/
theorem hasRequired_relabel_after_calls (calls : List Call) (n : Name)
    (hok : (outcome (relabelAsStart n) (Session.after {} calls)).1 = .ok ()) :
    let s := Session.after {} calls
    let t := (outcome (relabelAsStart n) s).2
    (∀ m, t.graph.Requires m ↔ s.graph.Requires m) ∧
      (t.graph.HasRequired ↔ s.graph.HasRequired ∧ ¬s.graph.Requires n) := by
  intro s t
  have hs : s.graph.Consistent := consistent_after fresh_consistent calls
  have hn : s.graph.Relabelable n := (outcome_relabelAsStart_eq_ok_iff hs).1 hok
  have ht : t.graph = s.graph.relabelled n :=
    congrArg (fun o => o.2.graph) (outcome_relabelAsStart hs hn)
  rw [ht]
  exact ⟨fun m => hs.requires_relabelled hn, hs.hasRequired_relabelled hn⟩

/-- A camp and a cave that are reached from the start, and a key that takes what the condition asks for. -/
def keyCalls (condition : Name) : List Call :=
  [.ingest { name := "Camp", logic := [{}] }, .ingest { name := "Cave", logic := [{}] },
    .ingest { name := "Key", logic := [{ conditions := {condition} }], handling := .location }]

/-- The key takes reaching the cave, and the camp is made the start region. -/
theorem hasRequired_relabel_after_keyCalls :
    let s := Session.after {} (keyCalls "Cave/")
    let t := (outcome (relabelAsStart "Camp") s).2
    (outcome (relabelAsStart "Camp") s).1 = .ok () ∧ t.graph.Requires "Cave" ∧ t.graph.HasRequired := by
  intro s t
  have hok : (outcome (relabelAsStart "Camp") s).1 = .ok () := by decide +kernel
  have hcave : s.graph.Requires "Cave" := by decide +kernel
  have hbefore : s.graph.HasRequired ∧ ¬s.graph.Requires "Camp" := by decide +kernel
  obtain ⟨hsame, hthere⟩ := hasRequired_relabel_after_calls (keyCalls "Cave/") "Camp" hok
  exact ⟨hok, (hsame "Cave").2 hcave, hthere.2 hbefore⟩

/-- The key takes reaching the camp, and still does when the camp has been made the start region and is
gone. -/
theorem relabel_loses_required :
    let s := Session.after {} (keyCalls "Camp/")
    let t := (outcome (relabelAsStart "Camp") s).2
    s.graph.HasRequired ∧ (outcome (relabelAsStart "Camp") s).1 = .ok () ∧
      t.graph.Requires "Camp" ∧ ("Camp" : Name) ∉ t.graph.names ∧ ¬t.graph.HasRequired := by
  decide +kernel

end RegionLogic
