import RegionLogic.Proofs.Requirement.Dominance

/-!
# Where a run occurs in another one

The test for a run within another one commits itself to the first place where the run occurs, gives up at the
first term in front of it that is not of the kind asked for, and looks for missing terms before anything
else. None of this matters: the run may occur at many places, also at overlapping ones, but the terms outside
of it are the same at each of them, only in another order.

## Main results

* `embeds_iff_surrounds`: a run of known terms embeds a run if and only if it surrounds it somewhere
-/

namespace RegionLogic

variable {classify : Classifier} {kind : ModifierKind} {run part : List Name}

/-- Where the classifier knows all terms of a run, the test has an answer, and it says whether the run can be
taken apart into the part and terms of the kind around it. The answer is the same without the test for missing
terms, and at whatever place the part occurs, the terms around it there give the same answer. -/
theorem embeds_iff_surrounds (hknown : ∀ m ∈ run, ∃ k, classify m = .ok k) :
    ∃ answer, embeds classify kind run part = .ok answer ∧
      (answer = true ↔ Surrounds classify kind run part) ∧
      embedsFrom classify kind part run = .ok answer ∧
      ∀ before after, run = before ++ part ++ after →
        (answer = true ↔ ∀ m ∈ before ++ after, classify m = .ok kind) := by
  have hanswers {test : Except Fault Bool}
      (hfails : ∀ fault, test = .error fault → ∃ m ∈ run, classify m = .error fault) :
      ∃ answer, test = .ok answer := by
    cases test with
    | ok answer => exact ⟨answer, rfl⟩
    | error fault =>
      obtain ⟨m, hm, hfault⟩ := hfails fault rfl
      obtain ⟨k, hk⟩ := hknown m hm
      cases hk.symm.trans hfault
  obtain ⟨answer, hanswer⟩ := hanswers fun _ => exists_fault_of_embeds
  obtain ⟨found, hfound⟩ := hanswers fun _ => exists_fault_of_embedsFrom
  have hiff : answer = true ↔ Surrounds classify kind run part :=
    ⟨fun h => surrounds_of_embeds (h ▸ hanswer),
      fun h => Except.ok.inj (hanswer.symm.trans (embeds_of_surrounds h))⟩
  have hiff' : found = true ↔ Surrounds classify kind run part :=
    ⟨fun h => surrounds_of_embedsFrom (h ▸ hfound),
      fun h => Except.ok.inj (hfound.symm.trans (embedsFrom_of_surrounds h))⟩
  have hsame : found = answer := Bool.eq_iff_iff.2 (hiff'.trans hiff.symm)
  refine ⟨answer, hanswer, hiff, hsame ▸ hfound, fun before after hrun => hiff.trans ⟨?_, ?_⟩⟩
  · rintro ⟨before', after', hrun', hall⟩ m hm
    exact hall m ((perm_around (hrun.symm.trans hrun')).subset hm)
  · exact fun hall => ⟨before, after, hrun, hall⟩

/-- Spending soul can only hurt. -/
def soulModel : ClassificationModel :=
  { beneficial := ∅, detrimental := {("$SPENDSOUL" : Name)}, mixed := ∅, rules := [] }

/-- Two casts occur at two places in three, which overlap. -/
theorem embeds_iff_surrounds_casts :
    let casts : List Name := ["$SPENDSOUL", "$SPENDSOUL", "$SPENDSOUL"]
    (∀ m ∈ casts, ∃ k, soulModel.classify m = .ok k) ∧
      Surrounds soulModel.classify .detrimental casts ["$SPENDSOUL", "$SPENDSOUL"] ∧
      embeds soulModel.classify .detrimental casts ["$SPENDSOUL", "$SPENDSOUL"] = .ok true := by
  intro casts
  have hkind : soulModel.classify "$SPENDSOUL" = .ok .detrimental := by cbv
  have hknown : ∀ m ∈ casts, ∃ k, soulModel.classify m = .ok k := by
    intro m hm
    obtain rfl : m = "$SPENDSOUL" := by simpa [casts] using hm
    exact ⟨_, hkind⟩
  obtain ⟨answer, hanswer, hiff, -, hplaces⟩ :=
    @embeds_iff_surrounds _ .detrimental casts ["$SPENDSOUL", "$SPENDSOUL"] hknown
  -- the place that the test does not look at
  have htrue : answer = true := (hplaces ["$SPENDSOUL"] [] rfl).2 (by simp [hkind])
  exact ⟨hknown, hiff.1 htrue, htrue ▸ hanswer⟩

end RegionLogic
