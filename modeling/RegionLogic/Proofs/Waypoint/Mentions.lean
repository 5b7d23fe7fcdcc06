import RegionLogic.Proofs.Waypoint.Inlining

/-!
# What still involves a waypoint that is gone

A condition of a clause involves an object if it names it, or compares it with something. A clause of the
result of an inlining is made of a chain of given clauses: each draws on an inlined waypoint that the next
one belongs to, and the last one draws on none. Its conditions are those of the whole chain. As the choice of
the waypoints looks only at the names in conditions and not at what they compare, no waypoint that is gone is
named any more, but it is still compared wherever a clause of the chain compares it.

## Main definitions

* `Token.sides`, `Clause.Compares`: what conditions compare
* `Clause.Involves`: a condition names the object or compares it
* `WaypointSelection.Unfolds`: a clause with the chain that it stands at the head of, made into one clause

## Main results

* `WaypointSelection.Solution.unfolds`: the inlined clauses are made of chains
* `inline_involves`: which clauses of the result involve a waypoint that is gone
-/

namespace RegionLogic

open Logged

/-! ## What conditions involve -/

/-- The two sides of a comparison. -/
def Token.sides : Token → List Name
  | .comparison left _ right => [.text left, .text right]
  | _ => []

namespace Clause

variable {c d : Clause} {n : Name}

/-- A condition of the clause is a comparison with the object `n` on one of its sides. -/
def Compares (c : Clause) (n : Name) : Prop :=
  ∃ term ∈ c.conditions, ∃ token, Token.ofName term = .ok token ∧ n ∈ token.sides

/-- A condition of the clause names the object `n`, refers to it, projects it or compares it. -/
def Involves (c : Clause) (n : Name) : Prop := c.Mentions n ∨ c.Compares n

/-- The conditions of a clause with its provider replaced are those of both clauses. -/
theorem exists_condition_substitute {P : Name → Prop} :
    (∃ x ∈ (c.substitute d).conditions, P x) ↔ (∃ x ∈ c.conditions, P x) ∨ ∃ x ∈ d.conditions, P x := by
  simp only [substitute, NameSet.mem_union, or_and_right, exists_or]
  exact or_comm

end Clause

namespace WaypointSelection

/-! ## Chains -/

/-- `Unfolds c chain e`: the clause `c` is the first of a chain of given clauses, each of an inlined waypoint
that the one before it draws on, down to one that draws on none, and `e` is the chain made into one clause. -/
inductive Unfolds (w : WaypointSelection) (objects : List LogicObject) :
    Clause → List Clause → Clause → Prop
  | last {c : Clause} : (∀ p, c.DrawsFrom p → ¬w.Inlines objects p) → Unfolds w objects c [c] c
  | next {c d e : Clause} {o : LogicObject} {chain : List Clause} : c.DrawsFrom o.name →
      w.Inlines objects o.name → o ∈ objects → d ∈ o.logic → Unfolds w objects d chain e →
      Unfolds w objects c (c :: chain) (c.substitute e)

variable {w : WaypointSelection} {objects result : List LogicObject} {classify : Classifier}
  {order : List Name} {solved : List (Name × List Clause)} {c d e : Clause} {chain ds : List Clause}
  {n p : Name}

namespace Unfolds

/-- All clauses of the chain are given. -/
theorem given (h : w.Unfolds objects c chain e) {o : LogicObject} (ho : o ∈ objects) (hc : c ∈ o.logic) :
    ∀ d ∈ chain, ∃ o ∈ objects, d ∈ o.logic := by
  induction h generalizing o with
  | last => exact List.forall_mem_singleton.2 ⟨o, ho, hc⟩
  | next _ _ ho' hd _ ih => exact List.forall_mem_cons.2 ⟨⟨o, ho, hc⟩, ih ho' hd⟩

/-- The conditions are those of the whole chain. -/
theorem exists_condition_iff {P : Name → Prop} (h : w.Unfolds objects c chain e) :
    (∃ x ∈ e.conditions, P x) ↔ ∃ d ∈ chain, ∃ x ∈ d.conditions, P x := by
  induction h with
  | last => simp only [List.mem_singleton, exists_eq_left]
  | next _ _ _ _ _ ih =>
    rw [Clause.exists_condition_substitute, ih]
    simp only [List.mem_cons, exists_eq_or_imp]

/-- A waypoint that can be inlined is mentioned by no given clause, and so by none that is made of them. -/
theorem not_mentions (h : w.Unfolds objects c chain e) {o : LogicObject} (ho : o ∈ objects)
    (hc : c ∈ o.logic) (hn : w.Inlines objects n) : ¬e.Mentions n := by
  intro hmentions
  obtain ⟨d, hd, hmentions⟩ := h.exists_condition_iff.1 hmentions
  obtain ⟨o', ho', hd⟩ := h.given ho hc d hd
  exact hn.eligible.notRequired o' ho' d hd hmentions

end Unfolds

/-! ## The inlined clauses -/

/-- The inlined clauses are made of chains if those of the waypoints that they draw on are. -/
theorem exists_unfolds_of_inlineClauses (hordered : w.Ordered objects order)
    (hsol : w.Solution classify objects order solved) {o : LogicObject}
    (hsolved : ∀ c ∈ o.logic, ∀ p, c.DrawsFrom p → ∀ l, Entries.find? solved p = some l →
      ∀ e ∈ l, ∃ o' ∈ objects, o'.name = p ∧ ∃ d ∈ o'.logic, ∃ chain, w.Unfolds objects d chain e)
    (hds : inlineClauses classify solved o.logic = .ok ds) (he : e ∈ ds) :
    ∃ c ∈ o.logic, ∃ chain, w.Unfolds objects c chain e := by
  obtain ⟨c, hc, hstands⟩ := exists_standsFor_of_inlineClauses hds he
  cases hstands with
  | start hnone => exact ⟨_, hc, _, .last fun p hdraws => absurd hdraws (Clause.not_drawsFrom_of_none hnone)⟩
  | kept hdraws hnone =>
    -- a clause draws on one waypoint at most, and this one is not among the solved
    refine ⟨_, hc, _, .last fun p hdraws' hp => ?_⟩
    rw [hdraws'.unique hdraws, ← hordered.mem, ← hsol.keys, ← Entries.isSome_find?, hnone] at hp
    cases hp
  | @substituted p l d hdraws hfind hd =>
    have hp := hsol.inlines_of_find? hordered hfind
    obtain ⟨o', ho', rfl, d', hd', chain, hunfolds⟩ := hsolved c hc p hdraws l hfind d hd
    exact ⟨c, hc, _, .next hdraws hp ho' hd' hunfolds⟩

/-- The clauses of a solved waypoint are made of chains: by induction on the order. -/
theorem Solution.unfolds (hn : (objects.map (·.name)).Nodup) (hordered : w.Ordered objects order)
    (hsol : w.Solution classify objects order solved) (hp : w.Inlines objects p) :
    ∀ l, Entries.find? solved p = some l →
      ∀ e ∈ l, ∃ o ∈ objects, o.name = p ∧ ∃ c ∈ o.logic, ∃ chain, w.Unfolds objects c chain e := by
  refine hordered.induct (P := fun p => ∀ l, Entries.find? solved p = some l → ∀ e ∈ l, ∃ o ∈ objects,
    o.name = p ∧ ∃ c ∈ o.logic, ∃ chain, w.Unfolds objects c chain e) ?_ hp
  intro n hinlines ih l hfind e he
  obtain ⟨o, ho, rfl, -⟩ := hinlines.eligible.chosen
  have hds := hsol.solves hfind
  rw [logicOf_eq hn ho] at hds
  refine ⟨o, ho, rfl, exists_unfolds_of_inlineClauses hordered hsol (fun c hc p hdraws l hfind => ?_) hds he⟩
  have hp := hsol.inlines_of_find? hordered hfind
  exact ih p ⟨hinlines.eligible, hp.eligible, o, ho, rfl, c, hc, hdraws⟩ hp l hfind

/-! ## The result -/

/-- What is gone has been inlined. -/
theorem inlines_of_not_mem (hordered : w.Ordered objects order)
    (hsol : w.Solution classify objects order solved)
    (hall : List.Forall₂ (·.Inlined classify solved ·)
      (objects.filter fun o => !Entries.has solved o.name) result)
    (hn : n ∈ objects.map (·.name)) (hgone : n ∉ result.map (·.name)) : w.Inlines objects n := by
  obtain ⟨o, ho, rfl⟩ := List.mem_map.1 hn
  cases hfind : Entries.find? solved o.name with
  | some l => exact hsol.inlines_of_find? hordered hfind
  | none =>
    have hstays : o ∈ objects.filter fun o => !Entries.has solved o.name :=
      List.mem_filter.2 ⟨ho, by simp [Entries.has, hfind]⟩
    obtain ⟨o', ho', hinlined⟩ := exists_right_of_forall₂ hall hstays
    exact absurd (hinlined.name ▸ List.mem_map_of_mem ho') hgone

/-- The clauses of the result are those of chains, and what is gone has been inlined. -/
theorem exists_unfolds_of_inline (hn : (objects.map (·.name)).Nodup)
    (h : (w.inline classify objects).Gives (.ok result)) :
    (∀ n ∈ objects.map (·.name), n ∉ result.map (·.name) → w.Inlines objects n) ∧
      ∀ o' ∈ result, ∀ e ∈ o'.logic, ∃ o ∈ objects, o.name = o'.name ∧
        ∃ c ∈ o.logic, ∃ chain, w.Unfolds objects c chain e := by
  rcases inline_cases hn h with ⟨rfl, hnone⟩ | ⟨order, solved, hordered, hsol, hall⟩
  -- nothing was chosen, so each clause is a chain by itself
  · refine ⟨fun n hn hgone => absurd hn hgone, fun o ho c hc => ?_⟩
    refine ⟨o, ho, rfl, c, hc, [c], .last fun p _ hp => ?_⟩
    obtain ⟨o', ho', rfl, hchosen⟩ := hp.eligible.chosen
    exact hnone o' ho' hchosen
  · refine ⟨fun n => inlines_of_not_mem hordered hsol hall, fun o' ho' e he => ?_⟩
    obtain ⟨o, ho, hinlined⟩ := exists_left_of_forall₂ hall ho'
    refine ⟨o, List.mem_of_mem_filter ho, hinlined.name.symm, ?_⟩
    refine exists_unfolds_of_inlineClauses hordered hsol (fun c hc p hdraws l hfind => ?_) hinlined.logic he
    exact hsol.unfolds hn hordered (hsol.inlines_of_find? hordered hfind) l hfind

end WaypointSelection

/-- After an inlining of objects with distinct names each clause is made of a chain of given clauses. It
mentions no waypoint that is gone, and involves one exactly if a clause of its chain compares it. -/
theorem inline_involves (w : WaypointSelection) (classify : Classifier) (objects : List LogicObject)
    (hn : (objects.map (·.name)).Nodup) {result : List LogicObject} {events : List Event}
    (h : (w.inline classify objects).outcome = (.ok result, events)) :
    ∀ o' ∈ result, ∀ e ∈ o'.logic, ∃ o ∈ objects, o.name = o'.name ∧
      ∃ c ∈ o.logic, ∃ chain, w.Unfolds objects c chain e ∧
        ∀ n ∈ objects.map (·.name), n ∉ result.map (·.name) →
          ¬e.Mentions n ∧ (e.Involves n ↔ ∃ d ∈ chain, d.Compares n) := by
  have hgives : (w.inline classify objects).Gives (.ok result) := by
    have hgives := gives_outcome (w.inline classify objects)
    rwa [h] at hgives
  obtain ⟨hinlines, hclauses⟩ := WaypointSelection.exists_unfolds_of_inline hn hgives
  intro o' ho' e he
  obtain ⟨o, ho, hname, c, hc, chain, hunfolds⟩ := hclauses o' ho' e he
  refine ⟨o, ho, hname, c, hc, chain, hunfolds, fun n hmem hgone => ?_⟩
  have hnot := hunfolds.not_mentions ho hc (hinlines n hmem hgone)
  rw [Clause.Involves, or_iff_right hnot]
  exact ⟨hnot, hunfolds.exists_condition_iff⟩

/-- The selection of the waypoint `Pond`. -/
def onlyPond : WaypointSelection where
  patterns := [.seq (.start false) <| .seq (letter 'P') <| .seq (letter 'o') <| .seq (letter 'n') <|
    .seq (letter 'd') (.finish false)]
where
  /-- One character, as it is written. -/
  letter (c : Char) : Pattern := .one { items := [.range c.toNat c.toNat] }

/-- A pond, and a fish that a comparison with the pond gives access to, or the pond itself. -/
def comparedPond : List LogicObject :=
  [{ name := "Pond", logic := [{ conditions := {("Rod" : Name)} }] },
    { name := "Fish", logic := [{ conditions := {("Pond=1" : Name)} }, { provider := some "Pond" }],
      handling := .location }]

/-- The fish without the pond. -/
def comparedFish : LogicObject :=
  { name := "Fish", logic := [{ conditions := {("Pond=1" : Name)} }, { conditions := {("Rod" : Name)} }],
    handling := .location }

theorem inline_comparedPond : ((onlyPond.inline castHelps comparedPond).outcome).1 = .ok [comparedFish] := by
  decide +kernel

/-- A comparison outlives the waypoint that it compares. -/
theorem comparison_outlives_pond :
    WaypointSelection.read ["Pond"] = .ok onlyPond ∧ (comparedPond.map (·.name)).Nodup ∧
      ((onlyPond.inline castHelps comparedPond).outcome).1 = .ok [comparedFish] ∧
      ("Pond" : Name) ∈ comparedPond.map (·.name) ∧ ("Pond" : Name) ∉ [comparedFish].map (·.name) ∧
      ∃ c ∈ comparedFish.logic, c.Involves "Pond" := by
  refine ⟨rfl, by decide, inline_comparedPond, by decide, by decide, _, List.mem_cons_self, .inr ?_⟩
  refine ⟨"Pond=1", NameSet.mem_singleton.2 rfl, .comparison "Pond" .eq "1", by cbv, List.mem_cons_self⟩

/-- Of the two clauses of the fish only the one that is made of the comparison involves the pond. -/
theorem inline_involves_comparedPond :
    (comparedPond.map (·.name)).Nodup ∧
      ((onlyPond.inline castHelps comparedPond).outcome).1 = .ok [comparedFish] ∧
      ∀ e ∈ comparedFish.logic, ∃ o ∈ comparedPond, o.name = "Fish" ∧
        ∃ c ∈ o.logic, ∃ chain, onlyPond.Unfolds comparedPond c chain e ∧
          ¬e.Mentions "Pond" ∧ (e.Involves "Pond" ↔ ∃ d ∈ chain, d.Compares "Pond") := by
  have hnodup : (comparedPond.map (·.name)).Nodup := by decide
  refine ⟨hnodup, inline_comparedPond, fun e he => ?_⟩
  obtain ⟨o, ho, hname, c, hc, chain, hunfolds, hinvolves⟩ := inline_involves onlyPond castHelps
    comparedPond hnodup (Prod.ext inline_comparedPond rfl) comparedFish List.mem_cons_self e he
  exact ⟨o, ho, hname, c, hc, chain, hunfolds, hinvolves "Pond" (by decide) (by decide)⟩

end RegionLogic
