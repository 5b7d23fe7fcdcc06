import RegionLogic.Proofs.Calls
import RegionLogic.Proofs.Cleanup.Idle

/-!
# Regions that branches require

Which regions stay is settled when a cleanup begins, while the branches change with every round. That is
sound because a branch that is new is the sum of two that were there: it requires no region that neither of
them required. So whatever is required at any time was required at the beginning and stays, also where
the classifier fails on the way.

## Main definitions

* `Protects`: a graph has kept the regions of a set and requires no further ones

## Main results

* `Protects.removal`, `Protects.relists`, `Protects.abandoned`: what each change of a cleanup preserves
* `protects_clean`: what a cleanup leaves
* `required_after_calls`: a cleanup after any calls
-/

namespace RegionLogic

open Building RegionGraph

/-- The graph `g`, left of `g₀`, has the regions of `kept` that were there, and its branches require only
regions that were required before. -/
structure Protects (kept : NameSet) (g₀ g : RegionGraph) : Prop where
  /-- The graph is consistent. -/
  consistent : g.Consistent
  /-- The regions that are to be kept are still there. -/
  mem_names : ∀ n ∈ g₀.names, n ∈ kept → n ∈ g.names
  /-- No branch requires a region that none required before. -/
  requires : g.AllBranches fun b => ∀ n ∈ b.regions, g₀.Requires n

variable {classify : Classifier} {kept keep : NameSet} {options : CleanupOptions} {g₀ g g' : RegionGraph}
  {R : List Branch → List Branch → Prop} {s t : Session} {n : Name}

/-- A sum of branches requires what they require. -/
theorem requires_add {P : Name → Prop} {a b : Branch} (ha : ∀ n ∈ a.regions, P n)
    (hb : ∀ n ∈ b.regions, P n) : ∀ n ∈ (a + b).regions, P n := by
  intro n hn
  rcases NameSet.mem_union.1 hn with hn | hn
  · exact ha n hn
  · exact hb n hn

namespace Protects

theorem refl (kept : NameSet) (h : g.Consistent) : Protects kept g g where
  consistent := h
  mem_names := fun _ hn _ => hn
  requires := fun l hl b hb _ hn => ⟨l, hl, b, hb, hn⟩

theorem requires_of_requires (h : Protects kept g₀ g) (hn : g.Requires n) : g₀.Requires n := by
  obtain ⟨l, hl, b, hb, hn⟩ := hn
  exact h.requires l hl b hb n hn

/-- Where a region goes that need not be kept the others stay. -/
theorem mem_names_of_erase (h : Protects kept g₀ g) (hgone : n ∉ kept)
    (hnames : g'.names = g.names.erase n) : ∀ m ∈ g₀.names, m ∈ kept → m ∈ g'.names := by
  intro m hm hkept
  rw [hnames, h.consistent.names_nodup.mem_erase_iff]
  refine ⟨?_, h.mem_names m hm hkept⟩
  rintro rfl
  exact hgone hkept

/-- A region that goes is none of those that are to be kept, whichever way it goes. -/
theorem removal (h : Protects kept g₀ g) (hstart : startRegion ∈ kept)
    (hr : Removal classify kept g n g') : Protects kept g₀ g' := by
  obtain ⟨hconsistent, hrequires⟩ := hr.keeps h.consistent h.requires requires_add hstart
  exact ⟨hconsistent, h.mem_names_of_erase hr.not_kept (hr.names h.consistent hstart), hrequires⟩

/-- Lists of alternatives that only lose branches require no more than before. -/
theorem relists (h : Protects kept g₀ g) (hrel : Relists R g g')
    (hR : ∀ {l l'}, R l l' → l' ⊆ l ∧ (l ≠ [] → l' ≠ [])) : Protects kept g₀ g' := by
  have hconsistent := h.consistent.relists hrel fun hl => (hR hl).2
  refine ⟨hconsistent, fun m hm hkept => ?_, ?_⟩
  · rw [hrel.names]
    exact h.mem_names m hm hkept
  · exact h.requires.relists h.consistent hconsistent hrel fun hl => (hR hl).1

/-- Where the classifier fails on the way round a region, that region has gone and the edges laid so far
require no more than the ways through it. -/
theorem abandoned (h : Protects kept g₀ g) (hstart : startRegion ∈ kept)
    (ha : Abandoned classify kept g g') : Protects kept g₀ g' := by
  obtain ⟨n, hbypass, -, hrewires⟩ := ha.exists_rewires h.consistent h.requires requires_add hstart
  have hnames : g'.names = g.names.erase n := hrewires.names.trans names_without
  exact ⟨hrewires.consistent, h.mem_names_of_erase hbypass.not_kept hnames, hrewires.all⟩

end Protects

/-- A cleanup keeps what is protected and requires nothing new, whether it fails or not. -/
theorem protects_clean (classify : Classifier) (keep : NameSet) (options : CleanupOptions)
    (hs : s.graph.Consistent) :
    Protects (s.graph.protectedRegions keep) s.graph
      (outcome (clean classify keep options) s).2.graph := by
  have hstart := start_mem_protectedRegions keep s.graph
  apply clean_preserves (I := Protects (s.graph.protectedRegions keep) s.graph)
  · exact fun h => h.consistent
  · exact fun h => h.removal hstart
  · exact fun h => h.relists
  · exact fun h => h.abandoned hstart
  · exact .refl _ hs

/-- After any calls a cleanup, whether it fails or not, keeps the start region, the listed regions and
those that some branch requires, as far as they are there. It leaves no branch that requires a region that
was not required before, and so no branch that requires a region that is not there, unless this was so
before. -/
theorem required_after_calls (calls : List Call) (classify : Classifier) (keep : NameSet)
    (options : CleanupOptions) :
    let s := Session.after {} calls
    let t := (outcome (clean classify keep options) s).2
    (∀ n ∈ s.graph.names, n = startRegion ∨ n ∈ keep ∨ s.graph.Requires n → n ∈ t.graph.names) ∧
      (∀ n, t.graph.Requires n → s.graph.Requires n) ∧
      ∀ n, t.graph.Requires n → n ∈ t.graph.names ∨ n ∉ s.graph.names ∧ s.graph.Requires n := by
  intro s t
  have hs : s.graph.Consistent := consistent_after fresh_consistent calls
  have ht : Protects (s.graph.protectedRegions keep) s.graph t.graph :=
    protects_clean classify keep options hs
  have hstays : ∀ n ∈ s.graph.names, n = startRegion ∨ n ∈ keep ∨ s.graph.Requires n →
      n ∈ t.graph.names := fun n hn hkept => ht.mem_names n hn (mem_protectedRegions.2 hkept)
  refine ⟨hstays, fun n hn => ht.requires_of_requires hn, fun n hn => ?_⟩
  -- a required region that was there is kept
  have hbefore := ht.requires_of_requires hn
  by_cases hmem : n ∈ s.graph.names
  · exact Or.inl (hstays n hmem (Or.inr (Or.inr hbefore)))
  · exact Or.inr ⟨hmem, hbefore⟩

end RegionLogic
