import Mathlib.Order.Bounds.Basic
import RegionLogic.Modifier.Classification

/-!
# The kind of a run

The kinds are ordered by how much is known of the effect: neutral is below beneficial and detrimental, and
both are below mixed. A run is classified from its beginning and given up as soon as it is mixed; its kind is
the least one above the kinds of its modifiers, in whatever order they come.

## Main definitions

* the order of the kinds, in which `ModifierKind.join` is the least upper bound
* `Classifier.kinds`: the kinds of the modifiers of a run

## Main results

* `Classifier.exists_manyAfter`: the kind of a run that follows other modifiers
* `ModifierKind.isLUB_mixed_iff`: what makes a run mixed
* `Classifier.many_joins`: the kind of a run is the join of the kinds of its modifiers
-/

namespace RegionLogic

namespace ModifierKind

/-- Neutral is below everything and mixed above everything; beneficial and detrimental cannot be compared. -/
instance : LE ModifierKind := ⟨fun j k => j = k ∨ j = neutral ∨ k = mixed⟩

instance (j k : ModifierKind) : Decidable (j ≤ k) :=
  inferInstanceAs (Decidable (j = k ∨ j = neutral ∨ k = mixed))

instance : SemilatticeSup ModifierKind where
  sup := join
  le_refl _ := Or.inl rfl
  le_trans i j k := by cases i <;> cases j <;> cases k <;> decide
  le_antisymm j k := by cases j <;> cases k <;> decide
  le_sup_left j k := by cases j <;> cases k <;> decide
  le_sup_right j k := by cases j <;> cases k <;> decide
  sup_le i j k := by cases i <;> cases j <;> cases k <;> decide

instance : OrderBot ModifierKind where
  bot := neutral
  bot_le _ := Or.inr (Or.inl rfl)

instance : OrderTop ModifierKind where
  top := mixed
  le_top _ := Or.inr (Or.inr rfl)

/-- Kinds are mixed together if one of them is, or if both beneficial and detrimental ones are among them. -/
theorem isLUB_mixed_iff {s : Set ModifierKind} :
    IsLUB s mixed ↔ mixed ∈ s ∨ (beneficial ∈ s ∧ detrimental ∈ s) := by
  constructor
  · intro h
    by_contra hnone
    rw [not_or, not_and_or] at hnone
    obtain ⟨hmixed, hnone⟩ := hnone
    -- without one of the two the other one is above all kinds
    have habove {j k : ModifierKind} (hjk : ∀ i, i = mixed ∨ i = j ∨ i ≤ k) (hj : j ∉ s) :
        k ∈ upperBounds s := by
      intro i hi
      rcases hjk i with rfl | rfl | hle
      · exact absurd hi hmixed
      · exact absurd hi hj
      · exact hle
    rcases hnone with hbeneficial | hdetrimental
    · have hle : mixed ≤ detrimental := h.2 (habove (by rintro (_ | _ | _ | _) <;> decide) hbeneficial)
      exact absurd hle (by decide)
    · have hle : mixed ≤ beneficial := h.2 (habove (by rintro (_ | _ | _ | _) <;> decide) hdetrimental)
      exact absurd hle (by decide)
  · rintro (hmixed | ⟨hbeneficial, hdetrimental⟩)
    · exact ⟨fun _ _ => le_top, fun k hk => hk hmixed⟩
    · exact ⟨fun _ _ => le_top, fun k hk => sup_le (hk hbeneficial) (hk hdetrimental)⟩

end ModifierKind

namespace Classifier

variable {classify : Classifier} {run run' : List Name} {m : Name} {before k : ModifierKind}

/-- The kinds of the modifiers of a run. -/
def kinds (classify : Classifier) (run : List Name) : Set ModifierKind := {k | ∃ m ∈ run, classify m = .ok k}

theorem kinds_nil : classify.kinds [] = ∅ := by
  simp [kinds]

theorem kinds_cons (hm : classify m = .ok k) : classify.kinds (m :: run) = insert k (classify.kinds run) := by
  ext j
  simp [kinds, hm, eq_comm]

theorem kinds_append (run run' : List Name) :
    classify.kinds (run ++ run') = classify.kinds run ∪ classify.kinds run' := by
  ext k
  simp [kinds, or_and_right, exists_or]

theorem kinds_perm (h : run.Perm run') : classify.kinds run = classify.kinds run' := by
  ext k
  simp [kinds, h.mem_iff]

/-- One more modifier is joined, and the run is given up if it is mixed then. -/
theorem manyAfter_cons (hm : classify m = .ok k) :
    classify.manyAfter before (m :: run) =
      if before ⊔ k = .mixed then .ok .mixed else classify.manyAfter (before ⊔ k) run := by
  have hjoin : before ⊔ k = before.join k := rfl
  rw [manyAfter, hm, hjoin]
  dsimp only [bind, Except.bind]
  cases before.join k <;> rfl

/-- A run of known modifiers has a kind, the least one above those of its modifiers and what comes before. -/
theorem exists_manyAfter (h : ∀ m ∈ run, ∃ k, classify m = .ok k) (before : ModifierKind) :
    ∃ kind, classify.manyAfter before run = .ok kind ∧ IsLUB (insert before (classify.kinds run)) kind := by
  induction run generalizing before with
  | nil =>
    refine ⟨before, rfl, ?_⟩
    rw [kinds_nil, insert_empty_eq]
    exact isLUB_singleton
  | cons m run ih =>
    obtain ⟨⟨k, hk⟩, hrun⟩ := List.forall_mem_cons.1 h
    rw [manyAfter_cons hk, kinds_cons hk]
    split
    · next hmixed =>
      -- what the rest adds is below mixed
      refine ⟨.mixed, rfl, fun _ _ => le_top, fun kind hkind => ?_⟩
      rw [← hmixed]
      exact sup_le (hkind (by simp)) (hkind (by simp))
    · obtain ⟨kind, hkind, hlub⟩ := ih hrun (before ⊔ k)
      refine ⟨kind, hkind, (isLUB_congr ?_).1 hlub⟩
      simp only [upperBounds_insert, ← Set.Ici_inter_Ici, Set.inter_assoc]

theorem exists_many (h : ∀ m ∈ run, ∃ k, classify m = .ok k) :
    ∃ kind, classify.many run = .ok kind ∧ IsLUB (classify.kinds run) kind := by
  obtain ⟨kind, hkind, hlub⟩ := exists_manyAfter h .neutral
  refine ⟨kind, hkind, (isLUB_congr ?_).1 hlub⟩
  rw [upperBounds_insert, show ModifierKind.neutral = ⊥ from rfl, Set.Ici_bot, Set.univ_inter]

/-- The kind of a run of known modifiers is the join of the kinds of its modifiers, the least one above them.
The kind of two runs in a row is the join of both kinds, and the order of the modifiers does not matter. A run
is mixed if and only if one of its modifiers is, or both a beneficial and a detrimental one are among them. -/
theorem many_joins (hrun : ∀ m ∈ run, ∃ k, classify m = .ok k)
    (hrun' : ∀ m ∈ run', ∃ k, classify m = .ok k) :
    ∃ kind kind', classify.many run = .ok kind ∧ classify.many run' = .ok kind' ∧
      IsLUB {k | ∃ m ∈ run, classify m = .ok k} kind ∧
      classify.many (run ++ run') = .ok (kind ⊔ kind') ∧
      (∀ other, other.Perm run → classify.many other = .ok kind) ∧
      (kind = .mixed ↔ (∃ m ∈ run, classify m = .ok .mixed) ∨
        (∃ m ∈ run, classify m = .ok .beneficial) ∧ ∃ m ∈ run, classify m = .ok .detrimental) := by
  have hmany {l : List Name} {kind : ModifierKind} (hl : ∀ m ∈ l, ∃ k, classify m = .ok k)
      (hlub : IsLUB (classify.kinds l) kind) : classify.many l = .ok kind := by
    obtain ⟨kind', hkind', hlub'⟩ := exists_many hl
    rw [hkind', hlub'.unique hlub]
  obtain ⟨kind, hkind, hlub⟩ := exists_many hrun
  obtain ⟨kind', hkind', hlub'⟩ := exists_many hrun'
  refine ⟨kind, kind', hkind, hkind', hlub, ?_, fun other hother => ?_, ?_⟩
  · exact hmany (List.forall_mem_append.2 ⟨hrun, hrun'⟩) (kinds_append run run' ▸ hlub.union hlub')
  · exact hmany (fun m hm => hrun m (hother.subset hm)) (kinds_perm hother ▸ hlub)
  · refine Iff.trans ⟨?_, hlub.unique⟩ ModifierKind.isLUB_mixed_iff
    rintro rfl
    exact hlub

/-- A potion helps, and damage hurts. -/
def potionModel : ClassificationModel :=
  { beneficial := {("$POTION" : Name)}, detrimental := {("$TAKEDAMAGE" : Name)}, mixed := ∅, rules := [] }

/-- A potion, what does not matter, and damage are mixed only together. -/
theorem many_joins_potions :
    (∀ m ∈ [("$POTION" : Name), "$WAIT"], ∃ k, potionModel.classify m = .ok k) ∧
      (∀ m ∈ [("$TAKEDAMAGE" : Name)], ∃ k, potionModel.classify m = .ok k) ∧
      many potionModel.classify ["$POTION", "$WAIT"] = .ok .beneficial ∧
      many potionModel.classify ["$WAIT", "$POTION"] = .ok .beneficial ∧
      many potionModel.classify ["$POTION", "$WAIT", "$TAKEDAMAGE"] = .ok .mixed := by
  have hpotion : potionModel.classify "$POTION" = .ok .beneficial := by decide +kernel
  have hwait : potionModel.classify "$WAIT" = .ok .neutral := by decide +kernel
  have hdamage : potionModel.classify "$TAKEDAMAGE" = .ok .detrimental := by decide +kernel
  have hknown : ∀ m ∈ [("$POTION" : Name), "$WAIT"], ∃ k, potionModel.classify m = .ok k :=
    List.forall_mem_cons.2 ⟨⟨_, hpotion⟩, List.forall_mem_singleton.2 ⟨_, hwait⟩⟩
  have hknown' : ∀ m ∈ [("$TAKEDAMAGE" : Name)], ∃ k, potionModel.classify m = .ok k :=
    List.forall_mem_singleton.2 ⟨_, hdamage⟩
  obtain ⟨kind, kind', hkind, hkind', -, happend, hperm, -⟩ := many_joins hknown hknown'
  have hbeneficial : many potionModel.classify ["$POTION", "$WAIT"] = .ok .beneficial := by decide +kernel
  have hdetrimental : many potionModel.classify ["$TAKEDAMAGE"] = .ok .detrimental := by decide +kernel
  obtain rfl := Except.ok.inj (hkind.symm.trans hbeneficial)
  obtain rfl := Except.ok.inj (hkind'.symm.trans hdetrimental)
  exact ⟨hknown, hknown', hbeneficial, hperm _ (.swap ..), happend⟩

end Classifier

end RegionLogic
