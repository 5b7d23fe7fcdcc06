import RegionLogic.Proofs.Access.Simplification

/-!
# Eliminated branches are not missed

Of alternatives only those are dropped for which others serve. A branch may be dropped for one that is
dropped itself later on; the last one of such a chain is left, and it serves for all of them. So whatever
the alternatives lead to is matched by what is left of them, also where the classifier has failed on the way.

## Main results

* `removeRedundant_serves`: what is left of a list of branches serves in its place
-/

namespace RegionLogic

universe u

variable {σ : Type u} {classify classify' : Classifier} {E : Effects σ}

/-- Modifiers that do what a classifier says do what is said by one that knows less. -/
theorem Effects.Follows.of_knows_less [Preorder σ] (hE : E.Follows classify)
    (h : ∀ {m kind}, classify' m = .ok kind → classify m = .ok kind) : E.Follows classify' where
  mono := hE.mono
  helps hm := hE.helps (h hm)
  hurts hm := hE.hurts (h hm)

/-- Let the modifiers be monotone partial functions on states, of which those that help can always be applied
and make nothing worse, and those that hurt make nothing better. Then a branch that dominates another one
serves in its place, whatever is at hand: wherever the other one leads, it leads to a state at least as good.
Of any list of branches, each is served for by one that is left. If the classifier fails on the way, this holds
of the branches that are left then. -/
theorem removeRedundant_serves [Preorder σ] (classify : Classifier) (hE : E.Follows classify) :
    (∀ a b, dominates classify true a b = .ok true → ∀ S, a.Serves S E b) ∧
    ∀ l : List Branch, ∀ b ∈ l, ∃ a ∈ (removeRedundant classify true l).kept, ∀ S, a.Serves S E b := by
  refine ⟨fun a b h S => hE.serves_of_dominates h, fun l b hb => ?_⟩
  obtain ⟨a, ha, hchain⟩ := exists_kept (dominates classify true) l b hb
  exact ⟨a, ha, fun S => hE.serves_of_chain hchain⟩

/-- Healing helps, damage hurts, and a curse cannot be classified. -/
def cursedKinds : Classifier := fun m =>
  if m = "$CURSE]" then .error (.term (.misplacedBrackets "$CURSE]")) else healthKinds m

theorem healthEffects_follows : healthEffects.Follows cursedKinds := by
  refine healthEffects_respects.follows.of_knows_less fun {m kind} h => ?_
  unfold cursedKinds at h
  split at h
  · cases h
  · exact h

/-- Through damage, past it, and through a curse. -/
def trapLogic : List Branch := [{ modifiers := ["$TAKEDAMAGE"] }, {}, { modifiers := ["$CURSE]"] }]

/-- The way through damage is dropped before the classifier fails on the curse. The way past it serves. -/
theorem removeRedundant_serves_trapLogic :
    (removeRedundant cursedKinds true trapLogic).fault.isSome ∧
      { modifiers := ["$TAKEDAMAGE"] } ∉ (removeRedundant cursedKinds true trapLogic).kept ∧
      ∃ a ∈ (removeRedundant cursedKinds true trapLogic).kept, ∀ S : Supply,
        ∃ t, 4 ≤ t ∧ a.Takes S healthEffects 5 t := by
  have hends : removeRedundant cursedKinds true trapLogic =
      ⟨[{}, { modifiers := ["$CURSE]"] }], [({ modifiers := ["$TAKEDAMAGE"] }, {})],
        some (.term (.misplacedBrackets "$CURSE]"))⟩ := by cbv
  obtain ⟨a, ha, hserves⟩ := (removeRedundant_serves cursedKinds healthEffects_follows).2 trapLogic
    { modifiers := ["$TAKEDAMAGE"] } (by decide)
  refine ⟨by rw [hends]; rfl, by rw [hends]; decide, a, ha, fun S => hserves S ⟨?_, rfl⟩⟩
  exact ⟨Branch.met_empty.items, Branch.met_empty.locations, Branch.met_empty.regions⟩

end RegionLogic
