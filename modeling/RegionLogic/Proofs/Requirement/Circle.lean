import Mathlib.Algebra.BigOperators.Group.List.Basic
import Mathlib.Algebra.Ring.Int.Defs
import Mathlib.Data.Fin.SuccPred
import Mathlib.Data.Nat.Cast.Basic
import Mathlib.Order.Fin.Basic
import RegionLogic.Proofs.Requirement.Dominance

/-!
# Circles of branches

Dominance is reflexive, but it is not transitive: a branch may help more than a second one, and the second one
hurt less than a third one, while the first and the third cannot be compared. Nevertheless branches do not
dominate one another in a circle unless they are as good as the same. What carries the proof is the balance of
a run, how many of its modifiers help less how many hurt. A branch that dominates another has no smaller
balance, and where the balances are equal the runs are the same.

## Main definitions

* `Classifier.gain`, `Classifier.balance`: how much a modifier, or a run of modifiers, helps

## Main results

* `balance_le_of_dominates`, `modifiers_eq_of_dominates`: dominance and the balance
* `dominates_circle`: branches in a circle are as good as the same
-/

namespace RegionLogic

variable {classify : Classifier} {run part : List Name}

/-! ## Balances -/

/-- How much a modifier helps. -/
def Classifier.gain (classify : Classifier) (m : Name) : Int :=
  match classify m with
  | .ok .beneficial => 1
  | .ok .detrimental => -1
  | _ => 0

/-- How much the modifiers of a run help together. -/
def Classifier.balance (classify : Classifier) (run : List Name) : Int :=
  (run.map classify.gain).sum

@[simp] theorem Classifier.balance_append (run run' : List Name) :
    classify.balance (run ++ run') = classify.balance run + classify.balance run' := by
  simp [Classifier.balance]

/-- Modifiers that are all worth the same. -/
theorem Classifier.balance_of_gain {g : Int} (h : ∀ m ∈ run, classify.gain m = g) :
    classify.balance run = run.length * g := by
  rw [Classifier.balance, List.map_congr_left h, List.map_const', List.sum_replicate, nsmul_eq_mul]

/-- What surrounds a run changes its balance with each modifier by the worth of the kind. -/
theorem exists_balance_of_surrounds {kind : ModifierKind} {g : Int}
    (hgain : ∀ m, classify m = .ok kind → classify.gain m = g) (h : Surrounds classify kind run part) :
    ∃ extra : ℕ, classify.balance run = classify.balance part + extra * g ∧ (extra = 0 → run = part) := by
  obtain ⟨before, after, rfl, hall⟩ := h
  refine ⟨(before ++ after).length, ?_, fun hnone => ?_⟩
  · rw [← Classifier.balance_of_gain fun m hm => hgain m (hall m hm)]
    simp only [Classifier.balance_append]
    omega
  · obtain ⟨rfl, rfl⟩ := List.append_eq_nil_iff.1 (List.eq_nil_of_length_eq_zero hnone)
    simp

section Dominates

variable {compareRegions : Bool} {a b : Branch}

/-- How the balance of a branch that dominates another exceeds that of the other one. -/
theorem exists_balance_of_dominates (h : dominates classify compareRegions a b = .ok true) :
    ∃ extra : ℕ, classify.balance a.modifiers = classify.balance b.modifiers + extra ∧
      (extra = 0 → a.modifiers = b.modifiers) := by
  obtain ⟨-, -, -, hhelps | hhurts⟩ := dominates_eq_ok_true h
  · have hgain : ∀ m, classify m = .ok .beneficial → classify.gain m = 1 :=
      fun m hm => by rw [Classifier.gain, hm]
    obtain ⟨extra, hbalance, hsame⟩ := exists_balance_of_surrounds hgain hhelps
    exact ⟨extra, by omega, hsame⟩
  · have hgain : ∀ m, classify m = .ok .detrimental → classify.gain m = -1 :=
      fun m hm => by rw [Classifier.gain, hm]
    obtain ⟨extra, hbalance, hsame⟩ := exists_balance_of_surrounds hgain hhurts
    exact ⟨extra, by omega, fun hnone => (hsame hnone).symm⟩

/-- A branch that dominates another has no smaller balance. -/
theorem balance_le_of_dominates (h : dominates classify compareRegions a b = .ok true) :
    classify.balance b.modifiers ≤ classify.balance a.modifiers := by
  obtain ⟨extra, hbalance, -⟩ := exists_balance_of_dominates h
  omega

/-- A branch that dominates another one of the same balance has the same run of modifiers. -/
theorem modifiers_eq_of_dominates (h : dominates classify compareRegions a b = .ok true)
    (hbalance : classify.balance a.modifiers ≤ classify.balance b.modifiers) :
    a.modifiers = b.modifiers := by
  obtain ⟨extra, hextra, hsame⟩ := exists_balance_of_dominates h
  exact hsame (by omega)

/-- Every branch dominates itself. -/
theorem dominates_self (b : Branch) : dominates classify compareRegions b b = .ok true :=
  dominates_of_extends (fun _ h => h) (fun _ h => h) (fun _ h => h) (.inl ⟨[], by simp, by simp⟩)

end Dominates

/-! ## Circles -/

/-- Around a circle a preorder that holds of neighbours holds of all. -/
theorem related_around {α : Type} {r : α → α → Prop} (hrefl : ∀ a, r a a)
    (htrans : ∀ {a b c}, r a b → r b c → r a c) {n : ℕ} {f : Fin (n + 1) → α}
    (h : ∀ i, r (f i) (f (i + 1))) (i j : Fin (n + 1)) : r (f i) (f j) := by
  have hnext (k : Fin n) : r (f k.castSucc) (f k.succ) := Fin.coeSucc_eq_succ (a := k) ▸ h k.castSucc
  -- from the first one along the circle, and to it through the step that closes the circle
  have hfrom : r (f 0) (f j) := by
    induction j using Fin.induction with
    | zero => exact hrefl _
    | succ k ih => exact htrans ih (hnext k)
  have hto : r (f i) (f 0) := by
    induction i using Fin.reverseInduction with
    | last => simpa using h (Fin.last n)
    | cast k ih => exact htrans (hnext k) ih
  exact htrans hto hfrom

/-- A set that does not shrink from one branch to the next is the same all around a circle. -/
theorem set_eq_around {n : ℕ} {s : Fin (n + 1) → NameSet} (h : ∀ i, s i ⊆ s (i + 1))
    (i j : Fin (n + 1)) : s i = s j := by
  have hsub : ∀ i j, s i ⊆ s j :=
    related_around (r := fun s t : NameSet => s ⊆ t) (fun _ _ h => h)
      (fun hab hbc x hx => hbc x (hab x hx)) h
  exact NameSet.ext fun x => ⟨hsub i j x, hsub j i x⟩

/-- Each branch dominates itself, and branches that dominate one another in a circle require the same items
and locations and have the same modifiers; if also regions are compared, they are equal. -/
theorem dominates_circle (classify : Classifier) (compareRegions : Bool) :
    (∀ b, dominates classify compareRegions b b = .ok true) ∧
    ∀ (n : ℕ) (b : Fin (n + 1) → Branch),
      (∀ i, dominates classify compareRegions (b i) (b (i + 1)) = .ok true) →
      ∀ i j, (b i).items = (b j).items ∧ (b i).locations = (b j).locations ∧
        (b i).modifiers = (b j).modifiers ∧ (compareRegions = true → b i = b j) := by
  refine ⟨dominates_self, fun n b h i j => ?_⟩
  have hitems : (b i).items = (b j).items := set_eq_around (fun i => (dominates_eq_ok_true (h i)).1) i j
  have hlocations : (b i).locations = (b j).locations :=
    set_eq_around (fun i => (dominates_eq_ok_true (h i)).2.1) i j
  -- the balance does not grow around the circle, so that it is the same for all
  have hbalance : ∀ i j, classify.balance (b i).modifiers ≤ classify.balance (b j).modifiers :=
    fun i j => related_around (r := fun x y : Int => y ≤ x) (f := fun i => classify.balance (b i).modifiers)
      le_refl (fun hab hbc => le_trans hbc hab) (fun i => balance_le_of_dominates (h i)) j i
  have hmodifiers : (b i).modifiers = (b j).modifiers :=
    related_around (r := Eq) (f := fun i => (b i).modifiers) Eq.refl Eq.trans
      (fun i => modifiers_eq_of_dominates (h i) (hbalance i (i + 1))) i j
  refine ⟨hitems, hlocations, hmodifiers, fun hcompare => ?_⟩
  have hregions : (b i).regions = (b j).regions :=
    set_eq_around (fun i => (dominates_eq_ok_true (h i)).2.2.1 hcompare) i j
  exact Branch.ext hitems hlocations hregions hmodifiers

/-- Three ways to take damage that differ only in the region that they require. -/
def gateBranches : Fin 3 → Branch
  | 0 => { items := {("Key" : Name)}, regions := {("Town" : Name)}, modifiers := ["$TAKEDAMAGE"] }
  | 1 => { items := {("Key" : Name)}, modifiers := ["$TAKEDAMAGE"] }
  | 2 => { items := {("Key" : Name)}, regions := {("Camp" : Name)}, modifiers := ["$TAKEDAMAGE"] }

/-- Where regions are not compared the three ways form a circle, and they are not equal. -/
theorem dominates_circle_gateBranches :
    let classify : Classifier := fun _ => .ok .detrimental
    (∀ i, dominates classify false (gateBranches i) (gateBranches (i + 1)) = .ok true) ∧
      (∀ i j, (gateBranches i).items = (gateBranches j).items ∧
        (gateBranches i).modifiers = (gateBranches j).modifiers) ∧
      gateBranches 0 ≠ gateBranches 1 := by
  intro classify
  have hcircle : ∀ i, dominates classify false (gateBranches i) (gateBranches (i + 1)) = .ok true := by
    decide +kernel
  refine ⟨hcircle, fun i j => ?_, by decide +kernel⟩
  obtain ⟨hitems, -, hmodifiers, -⟩ := (dominates_circle classify false).2 2 gateBranches hcircle i j
  exact ⟨hitems, hmodifiers⟩

end RegionLogic
