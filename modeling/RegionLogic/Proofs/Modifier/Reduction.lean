import Mathlib.Data.List.Chain
import Mathlib.Data.List.Forall2
import Mathlib.Data.List.TakeWhile
import RegionLogic.Proofs.Fallible
import RegionLogic.Proofs.Modifier.Exchange
import RegionLogic.Settings.Defaults

/-!
# Shortened runs are normal forms

Shortening a run drops repeated setters first and then orders every stretch of one commuting pair. Neither
changes the effect of the run, and what comes of both is settled. So the heads that are left tell the effect
of a run, and a shortened run is not shortened any further. Whether a run can be used is decided by the heads
that are left.

## Main definitions

* `Clause.heads`: the heads of the modifiers of a clause
* `Reducer.Unrepeated`: no setter directly follows itself

## Main results

* `effect_shorten`, `settled_shorten`, `shorten_of_settled`: shortening gives the normal form of a run
* `map_head_shorten_eq_iff`: runs are shortened to the same heads if they have the same effect
* `reduce_normalizes`: what this means for clauses
-/

namespace RegionLogic

/-- The heads of the modifiers. -/
def Clause.heads (c : Clause) : Except Fault (List String) := c.modifiers.mapM modifierHead

namespace Reducer

open FreeMonoid

variable {r : Reducer} {p : List String} {x y : String} {u w : List String} {run run' : List HeadedTerm}
  {s t : HeadedTerm} {last : Option String}

/-! ## Repeated setters -/

/-- No setter directly follows itself. -/
def Unrepeated (r : Reducer) : List String → Prop :=
  List.IsChain fun x y => ¬(x = y ∧ .text x ∈ r.setters)

theorem effect_dropRepeats (last : Option String) (run : List HeadedTerm) :
    r.effect (last.toList ++ (dropRepeats r.setters last run).map (·.head)) =
      r.effect (last.toList ++ run.map (·.head)) := by
  induction run generalizing last with
  | nil => rfl
  | cons t run ih =>
    rw [dropRepeats, List.map_cons]
    split
    · next h =>
      -- the head before the run is that of the term which is dropped
      obtain ⟨hsetter, rfl⟩ := h
      have hdrop := ih (some t.head)
      simp only [Option.toList_some, List.singleton_append] at hdrop ⊢
      rw [hdrop, effect_cons, effect_cons (u := t.head :: _), effect_cons (u := run.map _), ← mul_assoc,
        effect_mul_self hsetter]
    · have hrest := ih (some t.head)
      simp only [Option.toList_some, List.singleton_append] at hrest
      rw [List.map_cons, effect_append, hrest, ← effect_append]

theorem unrepeated_dropRepeats (last : Option String) (run : List HeadedTerm) :
    r.Unrepeated (last.toList ++ (dropRepeats r.setters last run).map (·.head)) := by
  induction run generalizing last with
  | nil => cases last <;> simp [dropRepeats, Unrepeated]
  | cons t run ih =>
    rw [dropRepeats]
    split
    · exact ih last
    · next h =>
      have hrest := ih (some t.head)
      cases last with
      | none => exact hrest
      | some l =>
        refine List.IsChain.cons_cons ?_ hrest
        rintro ⟨rfl, hsetter⟩
        exact h ⟨hsetter, rfl⟩

/-- Where no setter follows itself none is dropped. -/
theorem dropRepeats_of_unrepeated (h : r.Unrepeated (last.toList ++ run.map (·.head))) :
    dropRepeats r.setters last run = run := by
  induction run generalizing last with
  | nil => rfl
  | cons t run ih =>
    have hkept : ¬(.text t.head ∈ r.setters ∧ last = some t.head) := by
      rintro ⟨hsetter, rfl⟩
      exact (List.isChain_cons_cons.1 h).1 ⟨rfl, hsetter⟩
    have hrest : r.Unrepeated ((some t.head).toList ++ run.map (·.head)) := by
      cases last with
      | none => exact h
      | some l => exact (List.isChain_cons_cons.1 h).2
    rw [dropRepeats, if_neg hkept, ih hrest]

/-- A rest of a run without repetitions is one. -/
theorem unrepeated_after {f : HeadedTerm → Bool} (h : r.Unrepeated ((s :: t :: run).map (·.head))) :
    r.Unrepeated ((run.dropWhile f).map (·.head)) := by
  have hsuffix : run.dropWhile f <:+ s :: t :: run :=
    (List.dropWhile_suffix f).trans ((List.suffix_cons t run).trans (List.suffix_cons s _))
  exact h.suffix (hsuffix.map _)

theorem Settled.unrepeated (h : r.Settled w) : r.Unrepeated w := by
  induction h with
  | nil => exact .nil
  | @cons x w hx hw ih =>
    cases w with
    | nil => exact .singleton x
    | cons y w =>
      refine List.isChain_cons_cons.2 ⟨?_, ih⟩
      rintro ⟨rfl, hsetter⟩
      -- otherwise the setter would be left out
      rw [push_cons_self hsetter] at hx
      simpa using congrArg List.length hx

/-! ## Stretches of one pair -/

section Pairs

variable (hr : r.PairsSetters)

include hr

/-- The pair that joins two heads holds them in one order or in the other. -/
theorem eq_of_commutingPair? (h : commutingPair? r.pairs x y = some p) :
    p ∈ r.pairs ∧ (p = [x, y] ∧ p.head? = some x ∨ p = [y, x] ∧ p.head? ≠ some x) := by
  obtain ⟨hp, hne, hx, hy⟩ := hr.commutingPair?_eq_some_iff.1 h
  obtain ⟨a, b, rfl, -, -, -⟩ := hr.setters p hp
  refine ⟨hp, ?_⟩
  rcases List.mem_pair.1 hx with rfl | rfl <;> rcases List.mem_pair.1 hy with rfl | rfl
  · exact absurd rfl hne
  · exact Or.inl ⟨rfl, rfl⟩
  · exact Or.inr ⟨rfl, by simpa using hne.symm⟩
  · exact absurd rfl hne

theorem eq_pair_of_first (h : commutingPair? r.pairs x y = some p) (hfirst : p.head? = some x) :
    p = [x, y] := by
  obtain ⟨-, ⟨hp, -⟩ | ⟨-, hne⟩⟩ := eq_of_commutingPair? hr h
  · exact hp
  · exact absurd hfirst hne

theorem eq_pair_of_not_first (h : commutingPair? r.pairs x y = some p) (hfirst : p.head? ≠ some x) :
    p = [y, x] := by
  obtain ⟨-, ⟨-, heq⟩ | ⟨hp, -⟩⟩ := eq_of_commutingPair? hr h
  · exact absurd heq hfirst
  · exact hp

/-- Behind the two setters of a pair a stretch of that pair has no effect. -/
theorem effect_stretch (hxy : [x, y] ∈ r.pairs) (hu : ∀ a ∈ u, a ∈ [x, y]) :
    r.effect [x, y] * r.effect u = r.effect [x, y] := by
  obtain ⟨-, hx, hy⟩ := hr.of_pair hxy
  have hone (a : String) (ha : a ∈ [x, y]) : r.effect [x, y] * r.effect [a] = r.effect [x, y] := by
    rw [effect_cons]
    rcases List.mem_pair.1 ha with rfl | rfl
    · rw [effect_comm hxy, mul_assoc, effect_mul_self hx]
    · rw [mul_assoc, effect_mul_self hy]
  induction u with
  | nil => rw [← effect_append, List.append_nil]
  | cons a u ih =>
    obtain ⟨ha, hu⟩ := List.forall_mem_cons.1 hu
    rw [effect_cons (x := a), ← mul_assoc, hone a ha, ih hu]

/-- A stretch of one pair has the effect of that pair. -/
theorem effect_cons_cons (h : commutingPair? r.pairs s.head t.head = some p) :
    r.effect ((s :: t :: run).map (·.head)) =
      r.effect p * r.effect ((run.dropWhile (·.head ∈ p)).map (·.head)) := by
  obtain ⟨hp, hform⟩ := eq_of_commutingPair? hr h
  have hst : r.effect [s.head, t.head] = r.effect p := by
    rcases hform with ⟨rfl, -⟩ | ⟨rfl, -⟩
    · rfl
    · rw [effect_cons, ← effect_comm hp, ← effect_cons]
  have hstretch : r.effect p * r.effect ((run.takeWhile (·.head ∈ p)).map (·.head)) = r.effect p := by
    obtain ⟨x, y, rfl, -⟩ := hr.setters p hp
    refine effect_stretch hr hp fun a ha => ?_
    obtain ⟨t, ht, rfl⟩ := List.mem_map.1 ha
    simpa using List.mem_takeWhile_imp ht
  have hrun : r.effect (run.map (·.head)) =
      r.effect ((run.takeWhile (·.head ∈ p)).map (·.head)) *
        r.effect ((run.dropWhile (·.head ∈ p)).map (·.head)) := by
    rw [← effect_append, ← List.map_append, List.takeWhile_append_dropWhile]
  calc r.effect ((s :: t :: run).map (·.head))
      = r.effect [s.head, t.head] * r.effect (run.map (·.head)) := effect_append (u := [s.head, t.head])
    _ = r.effect p * r.effect ((run.dropWhile (·.head ∈ p)).map (·.head)) := by
        rw [hst, hrun, ← mul_assoc, hstretch]

theorem effect_collapsePairs (run : List HeadedTerm) :
    r.effect ((collapsePairs r.pairs run).map (·.head)) = r.effect (run.map (·.head)) := by
  fun_induction collapsePairs r.pairs run with
  | case1 s t rest hnone ih => rw [List.map_cons, effect_cons, ih, ← effect_cons, ← List.map_cons]
  | case2 s t rest p hpair after hfirst ih =>
    refine Eq.trans ?_ (effect_cons_cons hr hpair).symm
    rw [← ih, ← effect_append]
    obtain rfl := eq_pair_of_first hr hpair hfirst
    rfl
  | case3 s t rest p hpair after hfirst ih =>
    refine Eq.trans ?_ (effect_cons_cons hr hpair).symm
    rw [← ih, ← effect_append]
    obtain rfl := eq_pair_of_not_first hr hpair hfirst
    rfl
  | case4 t => rfl
  | case5 => rfl

/-- What is not joined with the first head is not joined with the first head that is left. -/
theorem not_joined_head_collapsePairs (h : ∀ z ∈ (run.map (·.head)).head?, ¬r.Joined x z) :
    ∀ z ∈ ((collapsePairs r.pairs run).map (·.head)).head?, ¬r.Joined x z := by
  fun_induction collapsePairs r.pairs run with
  | case1 s t rest hnone ih => exact h
  | case2 s t rest p hpair after hfirst ih => exact h
  | case3 s t rest p hpair after hfirst ih =>
    -- the first two have changed places, and they are joined
    intro z hz hjoined
    obtain rfl : t.head = z := by simpa using hz
    obtain ⟨hp, -, hs, ht⟩ := hr.commutingPair?_eq_some_iff.1 hpair
    exact h s.head rfl (hr.joined_trans hjoined ⟨hr.mem_setters hp ht, Or.inr ⟨p, hp, ht, hs⟩⟩)
  | case4 t => exact h
  | case5 => exact h

/-- A pair in its order in front of what is joined with neither. -/
theorem Settled.pair (hw : r.Settled w) (hxy : [x, y] ∈ r.pairs)
    (h : ∀ a ∈ [x, y], ∀ z ∈ w.head?, ¬r.Joined a z) : r.Settled (x :: y :: w) := by
  obtain ⟨-, hx, -⟩ := hr.of_pair hxy
  refine .cons ?_ (.cons (push_of_not_joined hr (h y (by simp))) hw)
  rw [push_first hr hxy, if_neg]
  exact fun hhead => h x (by simp) x hhead ⟨hx, Or.inl rfl⟩

/-- What is left behind a stretch of a pair is not joined with the setters of the pair. -/
theorem not_joined_after (hp : p ∈ r.pairs) (hx : x ∈ p) :
    ∀ z ∈ ((collapsePairs r.pairs (run.dropWhile (·.head ∈ p))).map (·.head)).head?, ¬r.Joined x z := by
  refine not_joined_head_collapsePairs hr fun z hz => hr.not_joined_of_not_mem hp hx ?_
  have hnot := List.head?_dropWhile_not (fun t : HeadedTerm => decide (t.head ∈ p)) run
  rw [List.head?_map] at hz
  obtain ⟨t, ht, rfl⟩ := Option.map_eq_some_iff.1 hz
  rw [ht] at hnot
  simpa using hnot

/-- Ordering the stretches of pairs in a run without repetitions settles it. -/
theorem settled_collapsePairs (h : r.Unrepeated (run.map (·.head))) :
    r.Settled ((collapsePairs r.pairs run).map (·.head)) := by
  fun_induction collapsePairs r.pairs run with
  | case1 s t rest hnone ih =>
    obtain ⟨hst, hrest⟩ := List.isChain_cons_cons.1 h
    -- the first head is joined neither with the next one nor with what takes its place
    have hjoined : ¬r.Joined s.head t.head := by
      rw [hr.joined_iff, hnone]
      rintro (heq | ⟨p, ⟨⟩⟩)
      exact hst heq
    refine .cons (push_of_not_joined hr (not_joined_head_collapsePairs hr fun z hz => ?_)) (ih hrest)
    obtain rfl : t.head = z := by simpa using hz
    exact hjoined
  | case2 s t rest p hpair after hfirst ih =>
    obtain rfl := eq_pair_of_first hr hpair hfirst
    have hp := (eq_of_commutingPair? hr hpair).1
    exact (ih (unrepeated_after h)).pair hr hp fun a ha => not_joined_after hr hp ha
  | case3 s t rest p hpair after hfirst ih =>
    -- the two have changed places
    obtain rfl := eq_pair_of_not_first hr hpair hfirst
    have hp := (eq_of_commutingPair? hr hpair).1
    exact (ih (unrepeated_after h)).pair hr hp fun a ha => not_joined_after hr hp ha
  | case4 t => exact .cons rfl .nil
  | case5 => exact .nil

/-- In a settled run a pair is in its order, and neither of its setters follows. -/
theorem Settled.of_commutingPair? (hw : r.Settled (x :: y :: w)) (h : commutingPair? r.pairs x y = some p) :
    p.head? = some x ∧ ∀ z ∈ w.head?, z ∉ p := by
  obtain ⟨hp, hform⟩ := eq_of_commutingPair? hr h
  cases hw with
  | cons hx hrest =>
    rcases hform with ⟨rfl, hhead⟩ | ⟨rfl, -⟩
    · refine ⟨hhead, fun z hz hmem => ?_⟩
      rw [push_first hr hp] at hx
      rcases List.mem_pair.1 hmem with rfl | rfl
      · rw [if_pos (Option.mem_def.1 hz)] at hx
        simpa using congrArg List.length hx
      · -- the second setter would follow itself
        obtain ⟨w', rfl⟩ := List.head?_eq_some_iff.1 hz
        exact (List.isChain_cons_cons.1 hrest.unrepeated).1 ⟨rfl, (hr.of_pair hp).2.2⟩
    · rw [push_second hr hp] at hx
      split at hx
      · simpa using congrArg List.length hx
      · exact absurd (List.cons.inj hx).1 (hr.of_pair hp).1

/-- A settled run is in order already. -/
theorem collapsePairs_of_settled (h : r.Settled (run.map (·.head))) : collapsePairs r.pairs run = run := by
  fun_induction collapsePairs r.pairs run with
  | case1 s t rest hnone ih => rw [ih h.of_cons]
  | case2 s t rest p hpair after hfirst ih =>
    have hnot := (Settled.of_commutingPair? hr h hpair).2
    -- nothing belongs to the stretch but the first two
    have hrest : rest.dropWhile (·.head ∈ p) = rest := by
      cases rest with
      | nil => rfl
      | cons u rest => exact List.dropWhile_cons_of_neg (by simpa using hnot u.head rfl)
    have hafter : after = rest := by
      rw [hrest] at ih
      exact (congrArg (collapsePairs r.pairs) hrest).trans (ih h.of_cons.of_cons)
    rw [hafter]
  | case3 s t rest p hpair after hfirst ih =>
    exact absurd (Settled.of_commutingPair? hr h hpair).1 hfirst
  | case4 t => rfl
  | case5 => rfl

/-! ## Shortened runs -/

theorem effect_shorten (run : List HeadedTerm) :
    r.effect ((r.shorten run).map (·.head)) = r.effect (run.map (·.head)) := by
  rw [shorten, effect_collapsePairs hr]
  exact effect_dropRepeats none run

theorem settled_shorten (run : List HeadedTerm) : r.Settled ((r.shorten run).map (·.head)) :=
  settled_collapsePairs hr (unrepeated_dropRepeats none run)

theorem shorten_of_settled (h : r.Settled (run.map (·.head))) : r.shorten run = run := by
  have hunrepeated : r.Unrepeated ((none : Option String).toList ++ run.map (·.head)) := h.unrepeated
  rw [shorten, dropRepeats_of_unrepeated hunrepeated, collapsePairs_of_settled hr h]

/-- Runs are shortened to the same heads if they have the same effect. -/
theorem map_head_shorten_eq_iff :
    (r.shorten run).map (·.head) = (r.shorten run').map (·.head) ↔
      r.sameEffect (ofList (run.map (·.head))) (ofList (run'.map (·.head))) := by
  rw [← effect_eq_iff]
  constructor
  · intro h
    rw [← effect_shorten hr run, h, effect_shorten hr run']
  · intro h
    refine (settled_shorten hr run).eq_of_sameEffect hr (settled_shorten hr run') (effect_eq_iff.1 ?_)
    rw [effect_shorten hr, effect_shorten hr, h]

/-- A shortened run is not shortened any further. -/
theorem shorten_shorten (run : List HeadedTerm) : r.shorten (r.shorten run) = r.shorten run :=
  shorten_of_settled hr (settled_shorten hr run)

end Pairs

theorem mem_of_mem_dropRepeats (h : t ∈ dropRepeats r.setters last run) : t ∈ run := by
  induction run generalizing last with
  | nil => exact h
  | cons s run ih =>
    rw [dropRepeats] at h
    split at h
    · exact List.mem_cons_of_mem s (ih h)
    · exact List.mem_cons.2 ((List.mem_cons.1 h).imp_right ih)

theorem mem_of_mem_collapsePairs (h : t ∈ collapsePairs r.pairs run) : t ∈ run := by
  fun_induction collapsePairs r.pairs run with
  | case1 s u rest hnone ih => exact List.mem_cons.2 ((List.mem_cons.1 h).imp_right ih)
  | case2 s u rest p hpair after hfirst ih =>
    simp only [List.mem_cons] at h ⊢
    exact h.imp_right (Or.imp_right fun h => (List.dropWhile_sublist _).subset (ih h))
  | case3 s u rest p hpair after hfirst ih =>
    simp only [List.mem_cons] at h ⊢
    exact or_left_comm.1 (h.imp_right (Or.imp_right fun h => (List.dropWhile_sublist _).subset (ih h)))
  | case4 => exact h
  | case5 => exact h

/-- Shortening adds no term. -/
theorem mem_of_mem_shorten (h : t ∈ r.shorten run) : t ∈ run :=
  mem_of_mem_dropRepeats (mem_of_mem_collapsePairs h)

/-- Whether a run can be used is decided by its heads. -/
theorem accepts_congr (h : run.map (·.head) = run'.map (·.head)) : r.accepts run = r.accepts run' := by
  have hlength : run.length = run'.length := by simpa using congrArg List.length h
  simp only [accepts, h, hlength]

/-! ## Clauses -/

/-- Modifiers that have heads, with their heads. -/
theorem exists_run_of_heads {l : List Name} (h : l.mapM modifierHead = .ok u) :
    ∃ run : List HeadedTerm, run.map (·.term) = l ∧ run.map (·.head) = u ∧
      ∀ t ∈ run, modifierHead t.term = .ok t.head := by
  have hall := forall₂_of_mapM h
  clear h
  induction hall with
  | nil => exact ⟨[], rfl, rfl, by simp⟩
  | @cons term head l u hhead _ ih =>
    obtain ⟨run, rfl, rfl, hrun⟩ := ih
    exact ⟨⟨term, head⟩ :: run, rfl, rfl, List.forall_mem_cons.2 ⟨hhead, hrun⟩⟩

/-- Terms that are listed with their heads. -/
theorem mapM_of_heads (h : ∀ t ∈ run, modifierHead t.term = .ok t.head) :
    (run.map (·.term)).mapM headed = .ok run ∧
      (run.map (·.term)).mapM modifierHead = .ok (run.map (·.head)) := by
  induction run with
  | nil => exact ⟨rfl, rfl⟩
  | cons t run ih =>
    obtain ⟨ht, hrun⟩ := List.forall_mem_cons.1 h
    obtain ⟨hheaded, hheads⟩ := ih hrun
    have hterm : headed t.term = .ok t := by
      rw [headed, ht]
      rfl
    constructor
    · rw [List.map_cons, List.mapM_cons, hterm, hheaded]
      rfl
    · rw [List.map_cons, List.mapM_cons, ht, hheads]
      rfl

/-- The clause with the terms of a run for its modifiers, if the run can be used. -/
def withRun? (r : Reducer) (c : Clause) (run : List HeadedTerm) : Option Clause :=
  if r.accepts run then some { c with modifiers := run.map (·.term) } else none

/-- A clause whose modifiers have heads is given the shortened run. -/
theorem reduce_eq_withRun? (hr : r.pairFault = none) {c : Clause} (hc : c.modifiers = run.map (·.term))
    (hrun : ∀ t ∈ run, modifierHead t.term = .ok t.head) :
    r.reduce c = .ok (r.withRun? c (r.shorten run)) := by
  rw [reduce, hc, (mapM_of_heads hrun).1, hr]
  rfl

theorem withRun?_eq_some_iff {c k : Clause} :
    r.withRun? c run = some k ↔ r.accepts run = true ∧ k = { c with modifiers := run.map (·.term) } := by
  unfold withRun?
  split
  · next h => rw [Option.some.injEq, and_iff_right h, eq_comm]
  · next h => exact iff_of_false (by rintro ⟨⟩) fun hk => h hk.1

theorem heads_of_withRun? {c k : Clause} (hrun : ∀ t ∈ run, modifierHead t.term = .ok t.head)
    (h : r.withRun? c run = some k) : k.heads = .ok (run.map (·.head)) := by
  obtain ⟨-, rfl⟩ := withRun?_eq_some_iff.1 h
  exact (mapM_of_heads hrun).2

/-- Reducing brings a clause whose modifiers have heads into a normal form, as far as the effect of its run
goes. Clauses whose runs have the same effect are both dropped, or both kept with the same heads; if they
are kept with the same heads their runs have the same effect; and a clause that is kept is not changed any
more. -/
theorem reduce_normalizes (r : Reducer) (hr : r.PairsSetters) (c d : Clause) (u v : List String)
    (hu : c.heads = .ok u) (hv : d.heads = .ok v) :
    ∃ c' d', r.reduce c = .ok c' ∧ r.reduce d = .ok d' ∧
      (r.sameEffect (ofList u) (ofList v) →
        c' = none ∧ d' = none ∨ ∃ k l w, c' = some k ∧ d' = some l ∧ k.heads = .ok w ∧ l.heads = .ok w) ∧
      (∀ k l w, c' = some k → d' = some l → k.heads = .ok w → l.heads = .ok w →
        r.sameEffect (ofList u) (ofList v)) ∧
      ∀ k, c' = some k →
        k.provider = c.provider ∧ k.conditions = c.conditions ∧ r.reduce k = .ok (some k) := by
  obtain ⟨run, hc, rfl, hrun⟩ := exists_run_of_heads hu
  obtain ⟨run', hd, rfl, hrun'⟩ := exists_run_of_heads hv
  -- the shortened runs are made of terms that are there, so that their heads are known too
  have hshort : ∀ t ∈ r.shorten run, modifierHead t.term = .ok t.head :=
    fun t ht => hrun t (mem_of_mem_shorten ht)
  have hshort' : ∀ t ∈ r.shorten run', modifierHead t.term = .ok t.head :=
    fun t ht => hrun' t (mem_of_mem_shorten ht)
  refine ⟨_, _, reduce_eq_withRun? hr.readable hc.symm hrun, reduce_eq_withRun? hr.readable hd.symm hrun', ?_, ?_, ?_⟩
  · intro hsame
    have hheads := (map_head_shorten_eq_iff hr).2 hsame
    have haccepts := accepts_congr (r := r) hheads
    cases hk : r.withRun? c (r.shorten run) with
    | none =>
      -- what accepts the one run accepts the other
      refine Or.inl ⟨rfl, if_neg fun hl => ?_⟩
      cases hk.symm.trans (withRun?_eq_some_iff.2 ⟨haccepts.trans hl, rfl⟩)
    | some k =>
      have hl : r.withRun? d (r.shorten run') =
          some { d with modifiers := (r.shorten run').map (·.term) } :=
        withRun?_eq_some_iff.2 ⟨haccepts.symm.trans (withRun?_eq_some_iff.1 hk).1, rfl⟩
      exact Or.inr ⟨k, _, _, rfl, hl, heads_of_withRun? hshort hk, hheads ▸ heads_of_withRun? hshort' hl⟩
  · intro k l w hk hl hkw hlw
    have hw := Except.ok.inj (hkw.symm.trans (heads_of_withRun? hshort hk))
    have hw' := Except.ok.inj (hlw.symm.trans (heads_of_withRun? hshort' hl))
    exact (map_head_shorten_eq_iff hr).1 (hw.symm.trans hw')
  · intro k hk
    obtain ⟨haccepts, rfl⟩ := withRun?_eq_some_iff.1 hk
    refine ⟨rfl, rfl, ?_⟩
    rw [reduce_eq_withRun? hr.readable rfl hshort, shorten_shorten hr]
    exact congrArg Except.ok (withRun?_eq_some_iff.2 ⟨haccepts, rfl⟩)

/-! ## The default rules -/

/-- The rules of the default settings. -/
def defaultRules : Reducer where
  setters := .ofList ["$FLOWERGET", "$BENCHRESET", "$HOTSPRINGRESET", "$SAVEQUITRESET", "$STARTRESPAWN",
    "$WARPTOBENCH", "$WARPTOSTART"]
  exclusive := [("$SHADESKIP", some "$BENCHRESET")]
  pairs := [["$BENCHRESET", "$HOTSPRINGRESET"]]
  maxModifiers := 10

theorem ofSettings_defaults : ofSettings (.obj Settings.defaults) = .ok defaultRules := by
  decide +kernel

theorem defaultRules_pairsSetters : defaultRules.PairsSetters where
  readable := rfl
  setters p hp := by
    obtain rfl : p = ["$BENCHRESET", "$HOTSPRINGRESET"] := by simpa [defaultRules] using hp
    exact ⟨_, _, rfl, by decide, by decide +kernel, by decide +kernel⟩
  disjoint := List.pairwise_singleton _ _

/-- A hot spring, a bench and the hot spring again, between taking damage and spending soul. -/
def springClause : Clause where
  modifiers := ["$TAKEDAMAGE", "$HOTSPRINGRESET", "$BENCHRESET[left1]", "$HOTSPRINGRESET", "$SPENDSOUL"]

/-- A bench twice and then a hot spring, between the same. -/
def benchClause : Clause where
  modifiers := ["$TAKEDAMAGE", "$BENCHRESET", "$BENCHRESET[right1]", "$HOTSPRINGRESET", "$SPENDSOUL"]

/-- The heads of the modifiers of `springClause`. -/
def springHeads : List String :=
  ["$TAKEDAMAGE", "$HOTSPRINGRESET", "$BENCHRESET", "$HOTSPRINGRESET", "$SPENDSOUL"]

/-- The heads of the modifiers of `benchClause`. -/
def benchHeads : List String :=
  ["$TAKEDAMAGE", "$BENCHRESET", "$BENCHRESET", "$HOTSPRINGRESET", "$SPENDSOUL"]

/-- The first hot spring and the bench change places, and then both runs repeat a setter. -/
theorem effect_springHeads : defaultRules.effect springHeads = defaultRules.effect benchHeads := by
  have hpair : ["$BENCHRESET", "$HOTSPRINGRESET"] ∈ defaultRules.pairs := List.mem_singleton_self _
  obtain ⟨-, hbench, hspring⟩ := defaultRules_pairsSetters.of_pair hpair
  have hsplit (x y : String) (u : List String) :
      defaultRules.effect (x :: y :: u) = defaultRules.effect [x] * defaultRules.effect (y :: u) :=
    effect_cons
  have hcomm := effect_comm hpair
  have hb := effect_mul_self hbench
  have hh := effect_mul_self hspring
  simp only [springHeads, benchHeads, hsplit]
  generalize defaultRules.effect ["$TAKEDAMAGE"] = d, defaultRules.effect ["$SPENDSOUL"] = s
  generalize defaultRules.effect ["$BENCHRESET"] = b, defaultRules.effect ["$HOTSPRINGRESET"] = h at *
  calc d * (h * (b * (h * s)))
      = d * (h * b * (h * s)) := by rw [mul_assoc h]
    _ = d * (b * (h * h * s)) := by rw [← hcomm, mul_assoc b, mul_assoc h]
    _ = d * (b * b * (h * s)) := by rw [hh, hb]
    _ = d * (b * (b * (h * s))) := by rw [mul_assoc b]

theorem reduce_normalizes_springClause :
    ofSettings (.obj Settings.defaults) = .ok defaultRules ∧ defaultRules.PairsSetters ∧
      springClause.heads = .ok springHeads ∧ benchClause.heads = .ok benchHeads ∧
      defaultRules.sameEffect (ofList springHeads) (ofList benchHeads) ∧
      ∃ k l w, defaultRules.reduce springClause = .ok (some k) ∧
        defaultRules.reduce benchClause = .ok (some l) ∧
        k.modifiers = ["$TAKEDAMAGE", "$BENCHRESET[left1]", "$HOTSPRINGRESET", "$SPENDSOUL"] ∧
        l.modifiers = ["$TAKEDAMAGE", "$BENCHRESET", "$HOTSPRINGRESET", "$SPENDSOUL"] ∧
        k.heads = .ok w ∧ l.heads = .ok w ∧ defaultRules.reduce k = .ok (some k) := by
  have hspring : springClause.heads = .ok springHeads := by decide +kernel
  have hbench : benchClause.heads = .ok benchHeads := by decide +kernel
  have hsame := effect_eq_iff.1 effect_springHeads
  obtain ⟨c', d', hc, hd, hkept, -, hstable⟩ := reduce_normalizes defaultRules defaultRules_pairsSetters
    springClause benchClause _ _ hspring hbench
  have hc' : defaultRules.reduce springClause = .ok (some
      { modifiers := ["$TAKEDAMAGE", "$BENCHRESET[left1]", "$HOTSPRINGRESET", "$SPENDSOUL"] }) := by
    decide +kernel
  have hd' : defaultRules.reduce benchClause = .ok (some
      { modifiers := ["$TAKEDAMAGE", "$BENCHRESET", "$HOTSPRINGRESET", "$SPENDSOUL"] }) := by
    decide +kernel
  obtain rfl := Except.ok.inj (hc'.symm.trans hc)
  obtain rfl := Except.ok.inj (hd'.symm.trans hd)
  rcases hkept hsame with ⟨⟨⟩, -⟩ | ⟨k, l, w, hk, hl, hkw, hlw⟩
  obtain rfl := Option.some.inj hk
  obtain rfl := Option.some.inj hl
  exact ⟨ofSettings_defaults, defaultRules_pairsSetters, hspring, hbench, hsame, _, _, w, hc, hd, rfl, rfl,
    hkw, hlw, (hstable _ rfl).2.2⟩

end Reducer

end RegionLogic
