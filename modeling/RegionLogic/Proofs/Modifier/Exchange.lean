import Mathlib.Algebra.FreeMonoid.Basic
import Mathlib.Algebra.Group.Commute.Defs
import Mathlib.Algebra.Group.End
import Mathlib.Data.List.Lattice
import Mathlib.Data.List.Pairwise
import Mathlib.GroupTheory.Congruence.Hom
import RegionLogic.Modifier.Reducer

/-!
# Modifier runs of the same effect

A state setter that comes twice in a row sets the state once, and the setters of a commuting pair can change
places. Runs of heads that these exchanges make equal have the same effect. To tell such runs apart each
head acts on runs in shortened form: it is put in front, joined with what stands there if that is the same
setter or the other one of its pair. The exchanges do not change the action. So a run that no head changes
when it is put in front is the only one of its effect.

## Main definitions

* `Reducer.PairsSetters`: the commuting pairs are disjoint pairs of setters
* `Reducer.sameEffect`, `Reducer.effect`: the congruence of runs of the same effect, and the effect of a run
* `Reducer.Joined`: the same setter, or the setters of one pair
* `Reducer.push`, `Reducer.press`: a head, and a run of heads, put in front
* `Reducer.Settled`: a run that is in shortened form

## Main results

* `push_push_self`, `push_comm`: the exchanges do not change the action
* `press_eq_of_sameEffect`, `Settled.press`: settled runs of the same effect are equal
-/

namespace RegionLogic.Reducer

open FreeMonoid

variable {r : Reducer} {p q : List String} {x y z : String} {u v w : List String}

/-! ## Pairs of setters -/

/-- The commuting pairs can be read. They are pairs of two different setters, and no two of them share a
setter. -/
structure PairsSetters (r : Reducer) : Prop where
  /-- The pairs can be read. -/
  readable : r.pairFault = none
  /-- Each of them is a pair of two setters. -/
  setters : ∀ p ∈ r.pairs, ∃ x y, p = [x, y] ∧ x ≠ y ∧ .text x ∈ r.setters ∧ .text y ∈ r.setters
  /-- No setter is in two of them. -/
  disjoint : r.pairs.Pairwise List.Disjoint

/-- The same setter, or the setters of one pair. -/
def Joined (r : Reducer) (x y : String) : Prop :=
  .text x ∈ r.setters ∧ (x = y ∨ ∃ p ∈ r.pairs, x ∈ p ∧ y ∈ p)

namespace PairsSetters

variable (hr : r.PairsSetters)

include hr

theorem of_pair (hxy : [x, y] ∈ r.pairs) : x ≠ y ∧ .text x ∈ r.setters ∧ .text y ∈ r.setters := by
  obtain ⟨a, b, hab, h⟩ := hr.setters _ hxy
  obtain ⟨rfl, rfl⟩ : x = a ∧ y = b := by simpa using hab
  exact h

theorem mem_setters (hp : p ∈ r.pairs) (hx : x ∈ p) : .text x ∈ r.setters := by
  obtain ⟨a, b, rfl, -, ha, hb⟩ := hr.setters p hp
  rcases List.mem_pair.1 hx with rfl | rfl
  · exact ha
  · exact hb

theorem pair_unique (hp : p ∈ r.pairs) (hq : q ∈ r.pairs) (hxp : x ∈ p) (hxq : x ∈ q) : p = q := by
  by_contra hne
  have hsymm : Std.Symm (List.Disjoint : List String → List String → Prop) :=
    ⟨fun _ _ h => List.Disjoint.symm h⟩
  exact hr.disjoint.forall hp hq hne hxp hxq

theorem joined_trans (hxy : r.Joined x y) (hyz : r.Joined y z) : r.Joined x z := by
  rcases hxy with ⟨hx, rfl | ⟨p, hp, hxp, hyp⟩⟩
  · exact hyz
  · rcases hyz with ⟨-, rfl | ⟨q, hq, hyq, hzq⟩⟩
    · exact ⟨hx, Or.inr ⟨p, hp, hxp, hyp⟩⟩
    · obtain rfl := hr.pair_unique hp hq hyp hyq
      exact ⟨hx, Or.inr ⟨p, hp, hxp, hzq⟩⟩

/-- A setter of a pair is joined with nothing else. -/
theorem not_joined_of_not_mem (hp : p ∈ r.pairs) (hx : x ∈ p) (hz : z ∉ p) : ¬r.Joined x z := by
  rintro ⟨-, rfl | ⟨q, hq, hxq, hzq⟩⟩
  · exact hz hx
  · exact hz (hr.pair_unique hp hq hx hxq ▸ hzq)

/-- The pair that joins two different heads is found. -/
theorem commutingPair?_eq_some_iff :
    commutingPair? r.pairs x y = some p ↔ p ∈ r.pairs ∧ x ≠ y ∧ x ∈ p ∧ y ∈ p := by
  have hfound {q : List String} (h : commutingPair? r.pairs x y = some q) :
      q ∈ r.pairs ∧ x ≠ y ∧ x ∈ q ∧ y ∈ q := by
    have htest := List.find?_some h
    simp only [isPairOf, Bool.and_eq_true, decide_eq_true_eq] at htest
    exact ⟨List.mem_of_find?_eq_some h, htest.1, htest.2.1⟩
  constructor
  · exact hfound
  · rintro ⟨hp, hne, hxp, hyp⟩
    have htest : isPairOf p x y = true := by
      obtain ⟨a, b, rfl, -, -, -⟩ := hr.setters p hp
      simp only [List.mem_pair] at hxp hyp
      simp only [isPairOf, Bool.and_eq_true, decide_eq_true_eq, List.mem_pair, List.all_eq_true]
      grind
    have hsome : (commutingPair? r.pairs x y).isSome :=
      List.find?_isSome.2 ⟨p, hp, by simp [hne, htest]⟩
    -- whatever is found holds `x`, and no other pair does
    obtain ⟨q, hq⟩ := Option.isSome_iff_exists.1 hsome
    obtain ⟨hqr, -, hxq, -⟩ := hfound hq
    rw [hq, hr.pair_unique hp hqr hxp hxq]

/-- Heads that are joined are the same setter, or a pair joins them. -/
theorem joined_iff :
    r.Joined x y ↔ (x = y ∧ .text x ∈ r.setters) ∨ ∃ p, commutingPair? r.pairs x y = some p := by
  simp only [hr.commutingPair?_eq_some_iff]
  constructor
  · rintro ⟨hx, hxy | ⟨p, hp, hxp, hyp⟩⟩
    · exact Or.inl ⟨hxy, hx⟩
    · by_cases hxy : x = y
      · exact Or.inl ⟨hxy, hx⟩
      · exact Or.inr ⟨p, hp, hxy, hxp, hyp⟩
  · rintro (⟨hxy, hx⟩ | ⟨p, hp, -, hxp, hyp⟩)
    · exact ⟨hx, Or.inl hxy⟩
    · exact ⟨hr.mem_setters hp hxp, Or.inr ⟨p, hp, hxp, hyp⟩⟩

end PairsSetters

/-! ## Runs of the same effect -/

/-- The exchanges that do not change the effect of a run. -/
inductive Exchange (r : Reducer) : FreeMonoid String → FreeMonoid String → Prop
  /-- A setter that directly follows itself has no effect. -/
  | repeated {x : String} (h : .text x ∈ r.setters) : Exchange r (of x * of x) (of x)
  /-- The setters of a pair can change places. -/
  | swapped {x y : String} (h : [x, y] ∈ r.pairs) : Exchange r (of x * of y) (of y * of x)

/-- Runs of heads that exchanges anywhere within them make equal. -/
def sameEffect (r : Reducer) : Con (FreeMonoid String) := conGen r.Exchange

/-- The effect of a run. -/
def effect (r : Reducer) (u : List String) : r.sameEffect.Quotient := (ofList u : FreeMonoid String)

theorem effect_eq_iff : r.effect u = r.effect v ↔ r.sameEffect (ofList u) (ofList v) := Con.eq _

theorem effect_append : r.effect (u ++ v) = r.effect u * r.effect v := by
  simp only [effect, ofList_append, Con.coe_mul]

theorem effect_cons : r.effect (x :: u) = r.effect [x] * r.effect u := effect_append (u := [x])

theorem effect_mul_self (hx : .text x ∈ r.setters) : r.effect [x] * r.effect [x] = r.effect [x] :=
  (Con.eq _).2 (ConGen.Rel.of _ _ (.repeated hx))

theorem effect_comm (hxy : [x, y] ∈ r.pairs) :
    r.effect [x] * r.effect [y] = r.effect [y] * r.effect [x] :=
  (Con.eq _).2 (ConGen.Rel.of _ _ (.swapped hxy))

/-! ## Heads that are put in front -/

/-- The run with a head put in front. In front of the same setter it is left out. In front of the other
setter of its pair the two are put in their order, unless it stands behind that one already. -/
def push (r : Reducer) (x : String) : List String → List String
  | [] => [x]
  | y :: w =>
    match commutingPair? r.pairs x y with
    | none => if x = y ∧ .text x ∈ r.setters then y :: w else x :: y :: w
    | some p => if w.head? = some x then y :: w else if p.head? = some x then x :: y :: w else y :: x :: w

/-- The action of runs on runs by which each head is put in front, the last one first. -/
def press (r : Reducer) : FreeMonoid String →* Function.End (List String) :=
  lift fun x => (r.push x : Function.End (List String))

theorem press_of : r.press (of x) = r.push x := lift_eval_of _ x

theorem press_ofList_cons : r.press (ofList (x :: u)) w = r.push x (r.press (ofList u) w) := by
  rw [ofList_cons, map_mul, press_of]
  rfl

theorem commutingPair?_self : commutingPair? r.pairs x x = none := by
  simp [commutingPair?]

/-- A setter is left out in front of itself. -/
theorem push_cons_self (hx : .text x ∈ r.setters) : r.push x (x :: w) = x :: w := by
  simp [push, commutingPair?_self, hx]

theorem push_of_not_joined (hr : r.PairsSetters) (h : ∀ y ∈ w.head?, ¬r.Joined x y) :
    r.push x w = x :: w := by
  cases w with
  | nil => rfl
  | cons y w =>
    have hxy := h y rfl
    rw [hr.joined_iff, not_or] at hxy
    rw [push, Option.eq_none_iff_forall_ne_some.2 fun p hp => hxy.2 ⟨p, hp⟩]
    exact if_neg hxy.1

/-- A setter that is put in front twice has been put in front once. -/
theorem push_push_self (hx : .text x ∈ r.setters) : r.push x (r.push x w) = r.push x w := by
  cases w with
  | nil => exact push_cons_self hx
  | cons y w =>
    cases hpair : commutingPair? r.pairs x y with
    | none =>
      by_cases hxy : x = y
      · subst hxy
        rw [push_cons_self hx, push_cons_self hx]
      · have hpush : r.push x (y :: w) = x :: y :: w := by simp [push, hpair, hxy]
        rw [hpush, push_cons_self hx]
    | some p =>
      by_cases hw : w.head? = some x
      · have hpush : r.push x (y :: w) = y :: w := by simp [push, hpair, hw]
        rw [hpush, hpush]
      by_cases hfirst : p.head? = some x
      · have hpush : r.push x (y :: w) = x :: y :: w := by simp [push, hpair, hw, hfirst]
        rw [hpush, push_cons_self hx]
      · -- then `x` stands behind `y`, and is left out the second time
        have hpush : r.push x (y :: w) = y :: x :: w := by simp [push, hpair, hw, hfirst]
        rw [hpush]
        simp [push, hpair]

section Pair

variable (hr : r.PairsSetters) (hxy : [x, y] ∈ r.pairs)

include hr hxy

/-- The first setter of a pair comes in front of the second one. -/
theorem push_first : r.push x (y :: w) = if w.head? = some x then y :: w else x :: y :: w := by
  have hpair : commutingPair? r.pairs x y = some [x, y] :=
    hr.commutingPair?_eq_some_iff.2 ⟨hxy, (hr.of_pair hxy).1, by simp, by simp⟩
  simp [push, hpair]

/-- The second setter of a pair comes behind the first one. -/
theorem push_second : r.push y (x :: w) = if w.head? = some y then x :: w else x :: y :: w := by
  obtain ⟨hne, -, -⟩ := hr.of_pair hxy
  have hpair : commutingPair? r.pairs y x = some [x, y] :=
    hr.commutingPair?_eq_some_iff.2 ⟨hxy, hne.symm, by simp, by simp⟩
  simp [push, hpair, hne]

/-- It does not matter in which order the setters of a pair are put in front. -/
theorem push_comm : r.push x (r.push y w) = r.push y (r.push x w) := by
  obtain ⟨hne, hx, hy⟩ := hr.of_pair hxy
  cases w with
  | nil =>
    show r.push x [y] = r.push y [x]
    rw [push_first hr hxy, push_second hr hxy]
    rfl
  | cons z w =>
    by_cases hzx : z = x
    · -- both ways `x` is left out, and `y` comes behind it unless it is there
      rw [hzx, push_cons_self hx, push_second hr hxy]
      split <;> exact push_cons_self hx
    by_cases hzy : z = y
    · rw [hzy, push_cons_self hy, push_first hr hxy]
      split
      · exact (push_cons_self hy).symm
      · rw [push_second hr hxy, List.head?_cons, if_pos rfl]
    · -- both ways the two come in front of the run, in their order
      have hz : z ∉ [x, y] := by simp [hzx, hzy]
      have hcons {a : String} (ha : a ∈ [x, y]) : r.push a (z :: w) = a :: z :: w := by
        refine push_of_not_joined hr fun b hb => ?_
        obtain rfl : z = b := by simpa using hb
        exact hr.not_joined_of_not_mem hxy ha hz
      rw [hcons (by simp), hcons (by simp), push_first hr hxy, push_second hr hxy]
      simp [hzx, hzy]

end Pair

/-! ## Settled runs -/

/-- Runs of the same effect act in the same way. -/
theorem press_eq_of_sameEffect (hr : r.PairsSetters) {a b : FreeMonoid String} (h : r.sameEffect a b) :
    r.press a = r.press b := by
  have hle : r.sameEffect ≤ Con.ker r.press := by
    -- acting in the same way is a congruence, so only the exchanges themselves have to be looked at
    refine Con.conGen_le.2 fun a b hab => Con.ker_apply.2 ?_
    cases hab with
    | repeated hx =>
      rw [map_mul, press_of]
      exact funext fun w => push_push_self hx
    | swapped hxy =>
      rw [map_mul, map_mul, press_of, press_of]
      exact funext fun w => push_comm hr hxy
  exact hle h

/-- Every head of the run simply comes in front of what follows it. -/
inductive Settled (r : Reducer) : List String → Prop
  | nil : Settled r []
  | cons {x : String} {w : List String} (h : r.push x w = x :: w) (hw : Settled r w) : Settled r (x :: w)

theorem Settled.of_cons (h : r.Settled (x :: w)) : r.Settled w := by
  cases h with
  | cons _ hw => exact hw

/-- A settled run is what comes of putting it in front of nothing. -/
theorem Settled.press (h : r.Settled w) : r.press (ofList w) [] = w := by
  induction h with
  | nil => rfl
  | cons hx _ ih => rw [press_ofList_cons, ih, hx]

/-- Settled runs of the same effect are equal. -/
theorem Settled.eq_of_sameEffect (hr : r.PairsSetters) (hv : r.Settled v) (hw : r.Settled w)
    (h : r.sameEffect (ofList v) (ofList w)) : v = w := by
  rw [← hv.press, ← hw.press, press_eq_of_sameEffect hr h]

end RegionLogic.Reducer
