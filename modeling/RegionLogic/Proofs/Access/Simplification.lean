import Mathlib.Data.Nat.Basic
import RegionLogic.Proofs.Access.Changes
import RegionLogic.Proofs.Placement

/-!
# Access through a simplified graph

The rounds of a cleanup are changes each of which gives the same access, so the simplified graph gives the
access that the graph gave before. Region requirements have to be compared for this, since a branch that
requires a region does not serve in place of one that does not.

## Main results

* `Reduced.sameAccess`: the rounds give the same access
* `same_access_after_calls`: the rounds of a cleanup after any calls
-/

namespace RegionLogic

open Building RegionGraph

universe u

variable {σ : Type u} [Preorder σ] {classify : Classifier} {kept : NameSet} {S : Supply} {E : Effects σ}
  {start : σ} {g g' : RegionGraph} {n : Name}

theorem Removal.sameAccess (h : Removal classify kept g n g') (hE : E.Respects classify)
    (hg : g.Consistent) (hw : g.WellPlaced) (hstart : startRegion ∈ kept) :
    SameAccess S E start g g' := by
  cases h with
  | merge h => exact h.sameAccess hg hw hstart
  | absorb h => exact h.sameAccess hg hstart
  | bypass h hok => exact h.sameAccess hg hok hE hstart

theorem Change.wellPlaced {compareRegions : Bool} (h : Change classify kept compareRegions g g')
    (hg : g.Consistent) (hw : g.WellPlaced) (hstart : startRegion ∈ kept) : g'.WellPlaced := by
  cases h with
  | removal h => exact h.wellPlaced hg hstart hw
  | sweep h => exact hw.of_eq (fun _ _ => h.placedIn) fun _ => h.keys_sites

theorem Change.sameAccess (h : Change classify kept true g g') (hE : E.Respects classify)
    (hg : g.Consistent) (hw : g.WellPlaced) (hstart : startRegion ∈ kept) :
    SameAccess S E start g g' := by
  cases h with
  | removal h => exact h.sameAccess hE hg hw hstart
  | sweep h => exact h.sameAccess hE

theorem sameAccess_of_changes (h : Relation.ReflTransGen (Change classify kept true) g g')
    (hE : E.Respects classify) (hg : g.Consistent) (hw : g.WellPlaced) (hstart : startRegion ∈ kept) :
    g'.WellPlaced ∧ SameAccess S E start g g' := by
  induction h with
  | refl => exact ⟨hw, .refl g⟩
  | @tail g₁ g₂ hchanges h ih =>
    obtain ⟨hw₁, hsame⟩ := ih
    have hg₁ := (sound_of_changes hchanges hg.sound (fun _ _ => trivial) hstart).1
    exact ⟨h.wellPlaced hg₁ hw₁ hstart, hsame.trans (h.sameAccess hE hg₁ hw₁ hstart)⟩

/-- The rounds give the same access. -/
theorem Reduced.sameAccess (h : Reduced classify kept true g g') (hE : E.Respects classify)
    (hg : g.Consistent) (hw : g.WellPlaced) (hstart : startRegion ∈ kept) :
    SameAccess S E start g g' := by
  obtain ⟨g₁, hchanges, hsweep⟩ := h
  obtain ⟨-, hsame⟩ := sameAccess_of_changes hchanges hE hg hw hstart
  exact hsame.trans (hsweep.sameAccess hE)

/-- After calls of which none adds an object once the graph has been cleaned up, the rounds of a cleanup
succeed where the classifier knows the modifiers. The graph gives the same access before and after them,
whatever is at hand, and whatever the modifiers do that respects what the classifier says. -/
theorem same_access_after_calls (calls : List Call)
    (h : calls.Pairwise fun a b => a.cleans → ¬b.ingests) (classify : Classifier) (keep : NameSet)
    (options : CleanupOptions) (hregions : options.compareRegions = true)
    (hclassify : (Session.after {} calls).graph.AllBranches
      (·.Modifies fun m => ∃ kind, classify m = .ok kind)) :
    ∃ report t, outcome (simplify classify keep options) (Session.after {} calls) = (.ok report, t) ∧
      ∀ {σ : Type u} [Preorder σ] {E : Effects σ}, E.Respects classify →
        ∀ (S : Supply) (start : σ), SameAccess S E start (Session.after {} calls).graph t.graph := by
  have hg := consistent_after (s := {}) fresh_consistent calls
  have hw := (wellPlaced_after calls h).1
  have hstart := start_mem_protectedRegions keep (Session.after {} calls).graph
  have hends := simplify_ends classify keep options ⟨hg, hclassify⟩
  rw [hregions] at hends
  generalize outcome (simplify classify keep options) (Session.after {} calls) = o at hends ⊢
  obtain ⟨result, t⟩ := o
  cases hends with
  | done hreduced => exact ⟨_, t, rfl, fun hE S start => hreduced.sameAccess hE hg hw hstart⟩
  | fails _ _ hfault =>
    -- a failure is one of the classifier on a modifier of the graph, and there is none
    obtain ⟨m, ⟨kind, hkind⟩, hfault⟩ := hfault
    rw [hkind] at hfault
    cases hfault

/-- Healing helps, damage hurts, and nothing else matters. -/
def healthKinds : Classifier := fun m =>
  .ok (if m = "$REGAINSOUL" then .beneficial else if m = "$TAKEDAMAGE" then .detrimental else .neutral)

/-- The state is one's health. Damage cannot be taken without any. -/
def healthEffects : Effects Nat := fun m s =>
  if m = "$REGAINSOUL" then some (s + 1)
  else if m = "$TAKEDAMAGE" then (if s = 0 then none else some (s - 1))
  else some s

theorem healthEffects_respects : healthEffects.Respects healthKinds where
  mono m s s' t hs h := by
    unfold healthEffects at h ⊢
    split at h
    · next hm =>
      obtain rfl := Option.some.inj h
      exact ⟨s' + 1, by omega, if_pos hm⟩
    split at h
    · next hm hm' =>
      split at h
      · cases h
      · next hne =>
        obtain rfl := Option.some.inj h
        exact ⟨s' - 1, by omega, by rw [if_neg hm, if_pos hm', if_neg (by omega)]⟩
    · next hm hm' =>
      obtain rfl := Option.some.inj h
      exact ⟨s', hs, by rw [if_neg hm, if_neg hm']⟩
  helps {m} hkind s := by
    have hm : m = "$REGAINSOUL" := by
      by_contra hm
      simp only [healthKinds, hm, if_false] at hkind
      split at hkind <;> cases hkind
    exact ⟨s + 1, by omega, if_pos hm⟩
  hurts {m kind} hkind hharm s t h := by
    unfold healthEffects at h
    split at h
    · next hm =>
      obtain rfl : ModifierKind.beneficial = kind := by
        simpa only [healthKinds, hm, if_true, Except.ok.injEq] using hkind
      rcases hharm with hharm | hharm <;> cases hharm
    split at h
    · split at h
      · cases h
      · obtain rfl := Option.some.inj h
        omega
    · exact (Option.some.inj h).ge

/-- A chest behind a pit, which one can fall into or climb down with a rope. -/
def pitCalls : List Call :=
  [.ingest
    { name := "Pit",
      logic := [{ modifiers := ["$TAKEDAMAGE"] }, { conditions := {("Rope" : Name)} }] },
    .ingest { name := "Chest", logic := [{ provider := some "Pit" }], handling := .location }]

theorem same_access_after_pitCalls :
    let S : Supply := ⟨fun _ => False, fun _ => False, fun _ => False⟩
    ∃ report t, outcome (simplify healthKinds ∅ ⟨true, true, true⟩) (Session.after {} pitCalls) =
        (.ok report, t) ∧
      SameAccess S healthEffects 1 (Session.after {} pitCalls).graph t.graph := by
  intro S
  have h : pitCalls.Pairwise fun a b => a.cleans → ¬b.ingests := by
    simp [pitCalls, Call.cleans]
  obtain ⟨report, t, ho, hsame⟩ := same_access_after_calls pitCalls h healthKinds ∅
    ⟨true, true, true⟩ rfl fun _ _ _ _ _ _ => ⟨_, rfl⟩
  exact ⟨report, t, ho, hsame healthEffects_respects S 1⟩

end RegionLogic
