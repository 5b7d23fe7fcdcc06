import RegionLogic.Requirement.Branch

/-!
# What satisfies a branch

The requirements of a branch are held against what is at hand, and its modifiers are applied to a state,
one after the other. What the modifiers do is left open: a modifier is a partial function on states.

## Main definitions

* `Supply`: what is at hand
* `Effects`: what the modifiers do to a state
* `Branch.Takes`, `Branch.Satisfied`: a branch leads from one state to another, and it leads somewhere

## Main results

* `Branch.takes_add`: one branch after another
-/

namespace RegionLogic

universe u

/-- What is at hand. -/
structure Supply where
  /-- The items that are held. -/
  items : Name → Prop
  /-- The locations that are available. -/
  locations : Name → Prop
  /-- The regions that are available. -/
  regions : Name → Prop

/-- What each modifier does to a state. A modifier that gives no state cannot be applied. -/
def Effects (σ : Type u) : Type u := Name → σ → Option σ

variable {σ : Type u} {S : Supply} {E : Effects σ} {a b : Branch} {s t u : σ} {l l' : List Name}

/-- Applies modifiers in order. -/
def Effects.run (E : Effects σ) : List Name → σ → Option σ
  | [], s => some s
  | m :: l, s => (E m s).bind (E.run l)

theorem Effects.run_append : E.run (l ++ l') s = (E.run l s).bind (E.run l') := by
  induction l generalizing s with
  | nil => rfl
  | cons m l ih =>
    rw [List.cons_append, run, run, Option.bind_assoc]
    exact congrArg _ (funext fun _ => ih)

/-- What a branch asks for is at hand. -/
structure Branch.Met (S : Supply) (b : Branch) : Prop where
  /-- The items are held. -/
  items : ∀ x ∈ b.items, S.items x
  /-- The locations are available. -/
  locations : ∀ x ∈ b.locations, S.locations x
  /-- The regions are available. -/
  regions : ∀ x ∈ b.regions, S.regions x

/-- What a branch asks for is at hand, and its modifiers lead from the state `s` to `t`. -/
def Branch.Takes (S : Supply) (E : Effects σ) (b : Branch) (s t : σ) : Prop :=
  b.Met S ∧ E.run b.modifiers s = some t

/-- What a branch asks for is at hand, and its modifiers can be applied to the state `s`. -/
def Branch.Satisfied (S : Supply) (E : Effects σ) (s : σ) (b : Branch) : Prop :=
  ∃ t, b.Takes S E s t

namespace Branch

theorem met_empty : empty.Met S where
  items x hx := absurd hx (NameSet.not_mem_empty x)
  locations x hx := absurd hx (NameSet.not_mem_empty x)
  regions x hx := absurd hx (NameSet.not_mem_empty x)

theorem met_add : (a + b).Met S ↔ a.Met S ∧ b.Met S := by
  constructor
  · rintro ⟨hi, hl, hr⟩
    simp only [items_add, locations_add, regions_add, NameSet.mem_union, or_imp, forall_and]
      at hi hl hr
    exact ⟨⟨hi.1, hl.1, hr.1⟩, hi.2, hl.2, hr.2⟩
  · rintro ⟨ha, hb⟩
    refine ⟨fun x hx => ?_, fun x hx => ?_, fun x hx => ?_⟩
    · exact (NameSet.mem_union.1 hx).elim (ha.items x) (hb.items x)
    · exact (NameSet.mem_union.1 hx).elim (ha.locations x) (hb.locations x)
    · exact (NameSet.mem_union.1 hx).elim (ha.regions x) (hb.regions x)

theorem takes_empty : empty.Takes S E s t ↔ s = t := by
  unfold Takes
  rw [and_iff_right met_empty]
  exact Option.some_inj

/-- A branch after another one leads where the two lead in turn. -/
theorem takes_add : (a + b).Takes S E s u ↔ ∃ t, a.Takes S E s t ∧ b.Takes S E t u := by
  unfold Takes
  rw [met_add, modifiers_add, Effects.run_append, Option.bind_eq_some_iff]
  constructor
  · rintro ⟨⟨ha, hb⟩, t, hs, ht⟩
    exact ⟨t, ⟨ha, hs⟩, hb, ht⟩
  · rintro ⟨t, ⟨ha, hs⟩, hb, ht⟩
    exact ⟨⟨ha, hb⟩, t, hs, ht⟩

theorem satisfied_empty : empty.Satisfied S E s := ⟨s, takes_empty.2 rfl⟩

end Branch

end RegionLogic
