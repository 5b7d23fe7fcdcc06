import Mathlib.Data.List.FinRange
import RegionLogic.Proofs.Requirement.Clause

/-!
# Places that an elimination leaves

A list may hold an alternative at several places. A pass sees the alternatives only through the relation that
compares them, so that it can as well be made over their places, of which no two are the same. This tells
which places are left, and for what each of the others has been dropped.

## Main definitions

* `Challenge.map`, `Elimination.map`: what comes of a pass over other alternatives
* `LeavesAt`: what is left, and why the rest is not
* `IrredundantAt`: nothing of what is left is redundant

## Main results

* `eliminate_map`: a pass sees the alternatives only through the relation
* `exists_leavesAt`: what every pass leaves
* `reduced_lists`: what is left of lists of branches and of clauses
-/

namespace RegionLogic

open Relation

variable {α β : Type} {r : β → β → Except Fault Bool} {l : List β}

/-! ## Passes over other alternatives -/

/-- The end of a challenge of alternatives that stand for others. -/
def Challenge.map (f : α → β) : Challenge α → Challenge β
  | stays rest dropped => .stays (rest.map f) (dropped.map (Prod.map f f))
  | falls rest dropped => .falls (rest.map f) (dropped.map (Prod.map f f))
  | fails rest dropped fault => .fails (rest.map f) (dropped.map (Prod.map f f)) fault

/-- The outcome of a pass over alternatives that stand for others. -/
def Elimination.map (f : α → β) (e : Elimination α) : Elimination β :=
  ⟨e.kept.map f, e.dropped.map (Prod.map f f), e.fault⟩

theorem Elimination.map_after (f : α → β) (dropped : List (α × α)) (e : Elimination α) :
    (e.after dropped).map f = (e.map f).after (dropped.map (Prod.map f f)) := by
  simp [Elimination.map, Elimination.after]

theorem challenge_map (f : α → β) (current : α) (passed others : List α) :
    challenge r (f current) (passed.map f) (others.map f) =
      (challenge (fun a b => r (f a) (f b)) current passed others).map f := by
  induction others generalizing passed with
  | nil => rfl
  | cons other rest ih =>
    have hpass := ih (passed ++ [other])
    rw [List.map_append] at hpass
    rw [List.map_cons, challenge, challenge]
    cases r (f other) (f current) with
    | error fault => simp [Challenge.map]
    | ok falls =>
      cases falls with
      | true => simp [Challenge.map]
      | false =>
        cases r (f current) (f other) with
        | error fault => simp [Challenge.map]
        | ok drops =>
          cases drops with
          | true =>
            dsimp only
            rw [ih passed]
            cases challenge (fun a b => r (f a) (f b)) current passed rest <;> rfl
          | false => exact hpass

/-- A pass sees the alternatives only through the relation. -/
theorem eliminate_map (f : α → β) (l : List α) :
    eliminate r (l.map f) = (eliminate (fun a b => r (f a) (f b)) l).map f := by
  fun_induction eliminate (fun a b => r (f a) (f b)) l with
  | case1 => rw [List.map_nil, eliminate]; rfl
  | case2 current others rest dropped h e ih =>
    have hstays := challenge_map (r := r) f current [] others
    rw [h] at hstays
    rw [List.map_cons, eliminate_of_stays hstays, ih, ← Elimination.map_after]
    rfl
  | case3 current others rest dropped h ih =>
    have hfalls := challenge_map (r := r) f current [] others
    rw [h] at hfalls
    rw [List.map_cons, eliminate_of_falls hfalls, ih, Elimination.map_after]
  | case4 current others rest dropped fault h =>
    have hfails := challenge_map (r := r) f current [] others
    rw [h] at hfails
    rw [List.map_cons, eliminate_of_fails hfails]
    rfl

/-! ## What a pass leaves -/

/-- What is left of `l` stands at the places `places`, in order. From every other place a chain of places
leads to one of them, and the alternative at each place of the chain makes the one before it redundant. -/
structure LeavesAt (r : β → β → Except Fault Bool) (l kept : List β) (places : List (Fin l.length)) :
    Prop where
  ordered : places.Pairwise (· < ·)
  kept_eq : kept = places.map l.get
  linked : ∀ i ∉ places, ∃ j ∈ places, TransGen (fun i j => r (l.get j) (l.get i) = .ok true) i j

/-- No alternative at one of the places makes the one at another of them redundant. -/
def IrredundantAt (r : β → β → Except Fault Bool) (l : List β) (places : List (Fin l.length)) : Prop :=
  ∀ i ∈ places, ∀ j ∈ places, i ≠ j → r (l.get i) (l.get j) = .ok false

theorem exists_leavesAt (r : β → β → Except Fault Bool) (l : List β) :
    ∃ places, LeavesAt r l (eliminate r l).kept places ∧
      ((eliminate r l).fault = none → IrredundantAt r l places) := by
  -- the pass over the places, of which no two are the same
  let onPlaces := eliminate (fun i j => r (l.get i) (l.get j)) (List.finRange l.length)
  have hmap : eliminate r l = onPlaces.map l.get := by
    rw [← eliminate_map, List.map_get_finRange]
  refine ⟨onPlaces.kept, ⟨?_, congrArg Elimination.kept hmap, fun i hi => ?_⟩, fun hnone i hi j hj hne => ?_⟩
  · exact (List.pairwise_lt_finRange l.length).sublist (eliminate_sublist _ _)
  · obtain ⟨j, hj, hchain⟩ := exists_kept _ (List.finRange l.length) i (List.mem_finRange i)
    rcases reflTransGen_iff_eq_or_transGen.1 hchain with rfl | hchain
    · exact absurd hj hi
    · exact ⟨j, hj, hchain⟩
  · have hplaces : onPlaces.fault = none := (congrArg Elimination.fault hmap).symm.trans hnone
    exact (incomparable_of_kept hplaces hi hj hne).1

/-- What a pass has left without a failure is left by a second one. -/
theorem eliminate_kept (h : (eliminate r l).fault = none) :
    eliminate r (eliminate r l).kept = ⟨(eliminate r l).kept, [], none⟩ :=
  eliminate_of_pairwise (pairwise_kept h)

/-! ## Branches and clauses -/

/-- The passes over branches and over clauses end. What they leave are some of the given alternatives in their
order, and some are left if any were given; whatever is dropped is linked to something that is left by a
chain of given alternatives, each of which makes the one before it redundant. This holds also of the
branches that are left where the classifier fails on the way. Where it knows all modifiers, nothing of what is
left is redundant for anything else that is left, and a second pass drops nothing. -/
theorem reduced_lists (classify : Classifier) :
    (∀ (compareRegions : Bool) (l : List Branch),
      let e := removeRedundant classify compareRegions l
      (l ≠ [] → e.kept ≠ []) ∧
      ∃ places, LeavesAt (dominates classify compareRegions) l e.kept places ∧
        ((∀ b ∈ l, ∀ m ∈ b.modifiers, ∃ kind, classify m = .ok kind) →
          e.fault = none ∧ IrredundantAt (dominates classify compareRegions) l places ∧
            removeRedundant classify compareRegions e.kept = ⟨e.kept, [], none⟩)) ∧
    ∀ l : List Clause, (∀ c ∈ l, ∀ m ∈ c.modifiers, ∃ kind, classify m = .ok kind) →
      ∃ kept places, Clause.reduceAll classify l = .ok kept ∧ (l ≠ [] → kept ≠ []) ∧
        LeavesAt (Clause.isSameOrBetter classify) l kept places ∧
        IrredundantAt (Clause.isSameOrBetter classify) l places ∧
        Clause.reduceAll classify kept = .ok kept := by
  constructor
  · intro compareRegions l e
    obtain ⟨places, hleaves, hirredundant⟩ := exists_leavesAt (dominates classify compareRegions) l
    refine ⟨kept_ne_nil, places, hleaves, fun hknown => ?_⟩
    have hnone : e.fault = none := by
      by_contra hfault
      obtain ⟨fault, hfault⟩ := Option.ne_none_iff_exists'.1 hfault
      obtain ⟨b, hb, m, hm, herror⟩ := exists_fault_of_removeRedundant hfault
      obtain ⟨kind, hkind⟩ := hknown b hb m hm
      cases hkind.symm.trans herror
    exact ⟨hnone, hirredundant hnone, eliminate_kept hnone⟩
  · intro l hknown
    obtain ⟨places, hleaves, hirredundant⟩ := exists_leavesAt (Clause.isSameOrBetter classify) l
    cases hl : Clause.reduceAll classify l with
    | error fault =>
      obtain ⟨c, hc, m, hm, herror⟩ := Clause.exists_fault_of_reduceAll hl
      obtain ⟨kind, hkind⟩ := hknown c hc m hm
      cases hkind.symm.trans herror
    | ok kept =>
      obtain ⟨hnone, rfl⟩ := Clause.reduceAll_eq_ok_iff.1 hl
      refine ⟨_, places, rfl, kept_ne_nil, hleaves, hirredundant hnone, ?_⟩
      rw [Clause.reduceAll_eq_ok_iff, eliminate_kept hnone]
      exact ⟨rfl, rfl⟩

/-- A potion helps, and a trap hurts. -/
def potionKinds : Classifier := fun m => .ok (if m = "$POTION" then .beneficial else .detrimental)

/-- Ways through a trap, past it, and past it with a potion. -/
def cellarLogic : List Clause := [{ modifiers := ["$TRAP"] }, {}, { modifiers := ["$POTION"] }]

/-- The way through the trap is dropped for the one past it, and that one for the way with a potion, which
does not itself make the first one redundant. -/
theorem reduced_lists_cellarLogic :
    let better := Clause.isSameOrBetter potionKinds
    Clause.reduceAll potionKinds cellarLogic = .ok [{ modifiers := ["$POTION"] }] ∧
      better { modifiers := ["$POTION"] } { modifiers := ["$TRAP"] } = .ok false ∧
      ∃ places, LeavesAt better cellarLogic [{ modifiers := ["$POTION"] }] places ∧
        IrredundantAt better cellarLogic places := by
  intro better
  have hreduced : Clause.reduceAll potionKinds cellarLogic = .ok [{ modifiers := ["$POTION"] }] := by cbv
  obtain ⟨kept, places, hkept, -, hleaves, hirredundant, -⟩ :=
    (reduced_lists potionKinds).2 cellarLogic fun _ _ _ _ => ⟨_, rfl⟩
  obtain rfl := Except.ok.inj (hreduced.symm.trans hkept)
  exact ⟨hreduced, by decide +kernel, places, hleaves, hirredundant⟩

end RegionLogic
