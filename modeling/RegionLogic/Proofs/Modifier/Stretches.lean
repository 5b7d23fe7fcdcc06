import Mathlib.Data.List.Perm.Subperm
import RegionLogic.Proofs.Modifier.Reduction

/-!
# What shortening a run keeps

Some terms of a run are fixed: no rule for shortening is about their heads. They stay, in their order, and
divide the run into stretches. Within a stretch terms are dropped and change places, but no term is used
more often than it is there, and each head that is there is there afterwards. This holds for any setters and
any pairs, also for pairs that share a head. The run that is left decides whether the clause can be used.

## Main definitions

* `Condenses`: what shortening does to a stretch
* `Reducer.isFixed`, `Reducer.stretches`: the fixed terms of a run, and what stands between them
* `Reducer.Keeps`: the fixed terms stay, and the stretches are condensed
* `UsesTwice`: an exclusive head comes twice without its reset in between

## Main results

* `keeps_shorten`: what shortening keeps
* `violatesExclusive_eq_true_iff`: what the search for exclusive heads finds
* `reduce_condenses`: what this means for a clause
-/

namespace RegionLogic

/-- Some terms of a stretch are left, in any order, and among them every head that there is. -/
structure Condenses (a b : List HeadedTerm) : Prop where
  /-- Every term is used at most as often as it is there. -/
  subperm : b.Subperm a
  heads : ∀ x, x ∈ b.map (·.head) ↔ x ∈ a.map (·.head)

namespace Condenses

variable {a b c d : List HeadedTerm} {l m n : List (List HeadedTerm)}

theorem refl (a : List HeadedTerm) : Condenses a a := ⟨List.Subperm.refl a, fun _ => Iff.rfl⟩

theorem trans (hab : Condenses a b) (hbc : Condenses b c) : Condenses a c :=
  ⟨hbc.subperm.trans hab.subperm, fun x => (hbc.heads x).trans (hab.heads x)⟩

theorem append (hab : Condenses a b) (hcd : Condenses c d) : Condenses (a ++ c) (b ++ d) :=
  ⟨hab.subperm.append hcd.subperm, fun x => by
    simp only [List.map_append, List.mem_append, hab.heads, hcd.heads]⟩

theorem cons (t : HeadedTerm) (hab : Condenses a b) : Condenses (t :: a) (t :: b) :=
  (refl [t]).append hab

theorem forall₂_trans (h : List.Forall₂ Condenses l m) (h' : List.Forall₂ Condenses m n) :
    List.Forall₂ Condenses l n := by
  induction h generalizing n with
  | nil => exact h'
  | cons hab _ ih =>
    cases h' with
    | cons hbc h' => exact .cons (hab.trans hbc) (ih h')

/-- Only the first stretch is changed. -/
theorem forall₂_modifyHead {f g : List HeadedTerm → List HeadedTerm}
    (hfg : ∀ a b, Condenses a b → Condenses (f a) (g b)) (h : List.Forall₂ Condenses l m) :
    List.Forall₂ Condenses (l.modifyHead f) (m.modifyHead g) := by
  cases h with
  | nil => exact .nil
  | cons hab h => exact .cons (hfg _ _ hab) h

end Condenses

namespace Reducer

/-- No rule for shortening is about the head of the term: it is neither a setter nor in a pair. -/
def isFixed (r : Reducer) (t : HeadedTerm) : Bool :=
  .text t.head ∉ r.setters && r.pairs.all (t.head ∉ ·)

/-- The stretches of a run: before its first fixed term, between two of them, and after the last one. -/
def stretches (r : Reducer) (run : List HeadedTerm) : List (List HeadedTerm) := run.splitOnP r.isFixed

/-- The fixed terms are kept in order, and each stretch between them is condensed. -/
structure Keeps (r : Reducer) (run short : List HeadedTerm) : Prop where
  fixed : short.filter r.isFixed = run.filter r.isFixed
  stretches : List.Forall₂ Condenses (r.stretches run) (r.stretches short)

variable {r : Reducer} {run run' short : List HeadedTerm} {a b : List HeadedTerm} {s t : HeadedTerm}
  {p : List String} {last : Option HeadedTerm}

/-! ## Stretches -/

theorem isFixed_of_setter (h : .text t.head ∈ r.setters) : r.isFixed t = false := by
  simp [isFixed, h]

theorem isFixed_of_pair (hp : p ∈ r.pairs) (h : t.head ∈ p) : r.isFixed t = false := by
  simp only [isFixed, Bool.and_eq_false_iff, List.all_eq_false]
  exact Or.inr ⟨p, hp, by simpa using h⟩

theorem stretches_cons (r : Reducer) (t : HeadedTerm) (run : List HeadedTerm) :
    r.stretches (t :: run) =
      if r.isFixed t then [] :: r.stretches run else (r.stretches run).modifyHead (t :: ·) :=
  List.splitOnP_cons_eq_if_modifyHead ..

/-- What is not fixed belongs to the first stretch. -/
theorem stretches_append (ha : ∀ t ∈ a, r.isFixed t = false) (run : List HeadedTerm) :
    r.stretches (a ++ run) = (r.stretches run).modifyHead (a ++ ·) := by
  induction a with
  | nil => exact (congrFun List.modifyHead_id _).symm
  | cons t a ih =>
    obtain ⟨ht, ha⟩ := List.forall_mem_cons.1 ha
    rw [List.cons_append, stretches_cons, if_neg (by simp [ht]), ih ha, List.modifyHead_modifyHead]
    rfl

namespace Keeps

theorem refl (run : List HeadedTerm) : r.Keeps run run :=
  ⟨rfl, List.forall₂_same.2 fun a _ => .refl a⟩

theorem trans (h : r.Keeps run run') (h' : r.Keeps run' short) : r.Keeps run short :=
  ⟨h'.fixed.trans h.fixed, Condenses.forall₂_trans h.stretches h'.stretches⟩

/-- One more term in front. -/
theorem cons (t : HeadedTerm) (h : r.Keeps run short) : r.Keeps (t :: run) (t :: short) := by
  refine ⟨by simp only [List.filter_cons, h.fixed], ?_⟩
  rw [stretches_cons, stretches_cons]
  split
  · exact .cons (.refl []) h.stretches
  · exact Condenses.forall₂_modifyHead (fun _ _ hab => hab.cons t) h.stretches

/-- A part of the first stretch is condensed. -/
theorem of_condenses (ha : ∀ t ∈ a, r.isFixed t = false) (hab : Condenses a b) (run : List HeadedTerm) :
    r.Keeps (a ++ run) (b ++ run) := by
  have hb : ∀ t ∈ b, r.isFixed t = false := fun t ht => ha t (hab.subperm.subset ht)
  have hnone {l : List HeadedTerm} (hl : ∀ t ∈ l, r.isFixed t = false) : l.filter r.isFixed = [] :=
    List.filter_eq_nil_iff.2 fun t ht => by simp [hl t ht]
  refine ⟨by rw [List.filter_append, List.filter_append, hnone ha, hnone hb], ?_⟩
  rw [stretches_append ha, stretches_append hb]
  exact Condenses.forall₂_modifyHead (fun _ _ => hab.append) (refl run).stretches

end Keeps

/-! ## Shortening -/

/-- A repeated setter is dropped from its stretch. -/
theorem keeps_dropRepeats (last : Option HeadedTerm) (run : List HeadedTerm) :
    r.Keeps (last.toList ++ run) (last.toList ++ dropRepeats r.setters (last.map (·.head)) run) := by
  induction run generalizing last with
  | nil => exact .refl _
  | cons t run ih =>
    rw [dropRepeats]
    split
    · next h =>
      obtain ⟨hsetter, hlast⟩ := h
      obtain ⟨s, rfl, hs⟩ := Option.map_eq_some_iff.1 hlast
      have hdrop : Condenses [s, t] [s] :=
        ⟨(List.sublist_append_left [s] [t]).subperm, fun x => by simp [hs]⟩
      have hfixed : ∀ u ∈ [s, t], r.isFixed u = false := by
        simp [isFixed_of_setter hsetter, isFixed_of_setter (hs.symm ▸ hsetter)]
      exact (Keeps.of_condenses hfixed hdrop run).trans (ih (some s))
    · have hrest := ih (some t)
      cases last with
      | none => exact hrest
      | some s => exact hrest.cons s

/-- The stretch of a pair is condensed to its first two terms. -/
theorem keeps_pair (h : commutingPair? r.pairs s.head t.head = some p) (run : List HeadedTerm) :
    r.Keeps (s :: t :: run) (s :: t :: run.dropWhile (·.head ∈ p)) ∧
      r.Keeps (s :: t :: run) (t :: s :: run.dropWhile (·.head ∈ p)) := by
  have hp := List.mem_of_find?_eq_some h
  have htest := List.find?_some h
  simp only [isPairOf, Bool.and_eq_true, decide_eq_true_eq, List.all_eq_true] at htest
  obtain ⟨-, ⟨hs, ht⟩, hall⟩ := htest
  have hstretch : ∀ u ∈ run.takeWhile (·.head ∈ p), u.head ∈ p := fun u hu => by
    simpa using List.mem_takeWhile_imp hu
  have hfixed : ∀ u ∈ s :: t :: run.takeWhile (·.head ∈ p), r.isFixed u = false := by
    simp only [List.forall_mem_cons]
    exact ⟨isFixed_of_pair hp hs, isFixed_of_pair hp ht, fun u hu => isFixed_of_pair hp (hstretch u hu)⟩
  -- Each further head of the stretch is one of the two, so leaving it out loses no head.
  have hpair : Condenses (s :: t :: run.takeWhile (·.head ∈ p)) [s, t] := by
    refine ⟨(List.sublist_append_left [s, t] _).subperm, fun x => ⟨?_, ?_⟩⟩
    · intro hx
      exact (List.sublist_append_left [s, t] _).map _ |>.subset hx
    · intro hx
      obtain ⟨u, hu, rfl⟩ := List.mem_map.1 hx
      obtain rfl | rfl | hu := List.mem_cons.1 hu |>.imp_right List.mem_cons.1
      · simp
      · simp
      · simpa using hall u.head (hstretch u hu)
  have hswap : Condenses [s, t] [t, s] := ⟨(List.Perm.swap s t []).subperm, fun x => by simp [or_comm]⟩
  have hrun : s :: t :: run = (s :: t :: run.takeWhile (·.head ∈ p)) ++ run.dropWhile (·.head ∈ p) := by
    simp [List.takeWhile_append_dropWhile]
  rw [hrun]
  exact ⟨.of_condenses hfixed hpair _, .of_condenses hfixed (hpair.trans hswap) _⟩

theorem keeps_collapsePairs (run : List HeadedTerm) : r.Keeps run (collapsePairs r.pairs run) := by
  fun_induction collapsePairs r.pairs run with
  | case1 s t rest hnone ih => exact ih.cons s
  | case2 s t rest p hpair after hfirst ih => exact (keeps_pair hpair rest).1.trans ((ih.cons t).cons s)
  | case3 s t rest p hpair after hfirst ih => exact (keeps_pair hpair rest).2.trans ((ih.cons s).cons t)
  | case4 t => exact .refl _
  | case5 => exact .refl _

theorem keeps_shorten (run : List HeadedTerm) : r.Keeps run (r.shorten run) :=
  (keeps_dropRepeats none run).trans (keeps_collapsePairs _)

end Reducer

/-! ## Exclusive heads -/

/-- An exclusive head comes twice, and its reset, if it has one, does not come in between. -/
def UsesTwice (exclusive : List (String × Option String)) (w : List String) : Prop :=
  ∃ x reset before between after, Entries.find? exclusive x = some reset ∧
    w = before ++ x :: between ++ x :: after ∧ ∀ y ∈ between, some y ≠ reset

theorem comesAgain_eq_true_iff {x : String} {reset : Option String} {w : List String} :
    comesAgain x reset w = true ↔ ∃ between after, w = between ++ x :: after ∧ ∀ y ∈ between, some y ≠ reset := by
  induction w with
  | nil => simp [comesAgain]
  | cons z w ih =>
    rw [comesAgain]
    split
    · next h => exact iff_of_true rfl ⟨[], w, by simp [h], by simp⟩
    · next hz =>
      split
      · next hreset =>
        refine iff_of_false Bool.false_ne_true ?_
        rintro ⟨between, after, hw, hbetween⟩
        cases between with
        | nil => exact hz (List.cons.inj hw).1
        | cons y between =>
          obtain ⟨rfl, -⟩ := List.cons.inj hw
          exact hbetween z List.mem_cons_self hreset
      · next hreset =>
        rw [ih]
        constructor
        · rintro ⟨between, after, rfl, hbetween⟩
          exact ⟨z :: between, after, rfl, List.forall_mem_cons.2 ⟨hreset, hbetween⟩⟩
        · rintro ⟨between, after, hw, hbetween⟩
          cases between with
          | nil => exact absurd (List.cons.inj hw).1 hz
          | cons y between =>
            exact ⟨between, after, (List.cons.inj hw).2, (List.forall_mem_cons.1 hbetween).2⟩

theorem violatesExclusive_cons {exclusive : List (String × Option String)} {x : String} {w : List String} :
    violatesExclusive exclusive (x :: w) = true ↔
      (∃ reset, Entries.find? exclusive x = some reset ∧ comesAgain x reset w = true) ∨
        violatesExclusive exclusive w = true := by
  rw [violatesExclusive]
  cases Entries.find? exclusive x <;> simp

theorem violatesExclusive_eq_true_iff {exclusive : List (String × Option String)} {w : List String} :
    violatesExclusive exclusive w = true ↔ UsesTwice exclusive w := by
  induction w with
  | nil => simp [violatesExclusive, UsesTwice]
  | cons z w ih =>
    rw [violatesExclusive_cons, ih]
    constructor
    · rintro (⟨reset, hreset, hagain⟩ | ⟨x, reset, before, between, after, hreset, rfl, hbetween⟩)
      · obtain ⟨between, after, rfl, hbetween⟩ := comesAgain_eq_true_iff.1 hagain
        exact ⟨z, reset, [], between, after, hreset, rfl, hbetween⟩
      · exact ⟨x, reset, z :: before, between, after, hreset, rfl, hbetween⟩
    · rintro ⟨x, reset, before, between, after, hreset, hw, hbetween⟩
      cases before with
      | nil =>
        obtain ⟨rfl, rfl⟩ := List.cons.inj hw
        exact .inl ⟨reset, hreset, comesAgain_eq_true_iff.2 ⟨between, after, rfl, hbetween⟩⟩
      | cons y before =>
        exact .inr ⟨x, reset, before, between, after, hreset, (List.cons.inj hw).2, hbetween⟩

namespace Reducer

/-! ## Clauses -/

/-- A clause whose modifiers have heads is shortened and then judged. The fixed modifiers stay in order, and
between them no modifier is used more often than it is there and no head is lost. The clause is dropped
exactly if the run that is left is too long or uses an exclusive head twice; otherwise that run replaces its
modifiers, and nothing else is changed. -/
theorem reduce_condenses (r : Reducer) (hr : r.pairFault = none) (c : Clause) (w : List String)
    (hw : c.heads = .ok w) :
    ∃ run : List HeadedTerm, run.map (·.term) = c.modifiers ∧ run.map (·.head) = w ∧
      r.Keeps run (r.shorten run) ∧
      (r.reduce c = .ok none ↔
        r.maxModifiers < (r.shorten run).length ∨ UsesTwice r.exclusive ((r.shorten run).map (·.head))) ∧
      (r.reduce c ≠ .ok none → r.reduce c = .ok (some { c with modifiers := (r.shorten run).map (·.term) })) := by
  obtain ⟨run, hc, hheads, hrun⟩ := exists_run_of_heads hw
  have hreduce := reduce_eq_withRun? hr hc.symm hrun
  have haccepts : r.accepts (r.shorten run) = true ↔
      ¬(r.maxModifiers < (r.shorten run).length ∨ UsesTwice r.exclusive ((r.shorten run).map (·.head))) := by
    rw [accepts, ← violatesExclusive_eq_true_iff]
    simp [and_comm]
  refine ⟨run, hc, hheads, keeps_shorten run, ?_⟩
  rw [hreduce, withRun?]
  split
  · next h => exact ⟨iff_of_false (by rintro ⟨⟩) (haccepts.1 h), fun _ => rfl⟩
  · next h => exact ⟨iff_of_true rfl (not_not.1 (mt haccepts.2 h)), fun hne => absurd rfl hne⟩

/-- Rules with two pairs that share a head. -/
def benchRules : Reducer where
  setters := .ofList ["$BENCHRESET", "$HOTSPRINGRESET", "$WARPTOBENCH"]
  exclusive := [("$SHADESKIP", some "$BENCHRESET")]
  pairs := [["$WARPTOBENCH", "$BENCHRESET"], ["$BENCHRESET", "$HOTSPRINGRESET"]]
  maxModifiers := 5

/-- Benches and hot springs between two uses of the same exclusive head. -/
def shadeClause : Clause where
  conditions := .ofList ["SHADECLOAK"]
  modifiers := ["$SHADESKIP", "$BENCHRESET", "$WARPTOBENCH", "$BENCHRESET[right1]", "$HOTSPRINGRESET",
    "$HOTSPRINGRESET", "$SHADESKIP"]

theorem reduce_condenses_shadeClause :
    benchRules.pairFault = none ∧
      shadeClause.heads = .ok ["$SHADESKIP", "$BENCHRESET", "$WARPTOBENCH", "$BENCHRESET", "$HOTSPRINGRESET",
        "$HOTSPRINGRESET", "$SHADESKIP"] ∧
      benchRules.reduce shadeClause = .ok (some { shadeClause with
        modifiers := ["$SHADESKIP", "$WARPTOBENCH", "$BENCHRESET", "$HOTSPRINGRESET", "$SHADESKIP"] }) ∧
      ∃ run : List HeadedTerm, run.map (·.term) = shadeClause.modifiers ∧
        benchRules.Keeps run (benchRules.shorten run) ∧
        ¬UsesTwice benchRules.exclusive ((benchRules.shorten run).map (·.head)) := by
  have hheads : shadeClause.heads = .ok ["$SHADESKIP", "$BENCHRESET", "$WARPTOBENCH", "$BENCHRESET",
      "$HOTSPRINGRESET", "$HOTSPRINGRESET", "$SHADESKIP"] := by decide +kernel
  have hreduce : benchRules.reduce shadeClause = .ok (some { shadeClause with
      modifiers := ["$SHADESKIP", "$WARPTOBENCH", "$BENCHRESET", "$HOTSPRINGRESET", "$SHADESKIP"] }) := by
    decide +kernel
  obtain ⟨run, hterms, -, hkeeps, hdropped, -⟩ := reduce_condenses benchRules rfl shadeClause _ hheads
  have hkept : benchRules.reduce shadeClause ≠ .ok none := by rw [hreduce]; rintro ⟨⟩
  exact ⟨rfl, hheads, hreduce, run, hterms, hkeeps, fun htwice => hkept (hdropped.2 (.inr htwice))⟩

end Reducer

end RegionLogic
