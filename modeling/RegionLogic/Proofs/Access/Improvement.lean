import Mathlib.Order.Basic
import RegionLogic.Proofs.Access.Satisfaction
import RegionLogic.Proofs.Cleanup.Sweep

/-!
# Better states, better branches

States are compared by a preorder in which a greater state is a better one. The modifiers respect what the
classifier says of them: a beneficial one can always be applied and never leads to a worse state, and a
detrimental one, or also a neutral one, never leads to a better state. A branch that dominates another one then
serves in its place.

## Main definitions

* `Effects.Follows`, `Effects.Respects`: the modifiers do what the classifier says
* `Branch.Serves`: a branch leads to states at least as good as another one does

## Main results

* `Effects.Follows.run_of_surrounds_detrimental`, `Effects.Follows.run_of_surrounds_beneficial`: what
  surrounds a run of modifiers
* `Effects.Follows.serves_of_dominates`: a branch that dominates another one serves in its place
* `Effects.Respects.takes_mono`: from a better state a branch leads to a better one
* `Effects.Respects.exists_serves`: a reduced list serves in place of the list
-/

namespace RegionLogic

universe u

variable {σ : Type u} [Preorder σ] {classify : Classifier} {S : Supply} {E : Effects σ}
  {a b c : Branch} {s s' t : σ} {l l' part : List Name} {bs bs' : List Branch}

/-- The modifiers are monotone partial functions on states. Those that the classifier calls beneficial help
and those that it calls detrimental hurt. -/
structure Effects.Follows (E : Effects σ) (classify : Classifier) : Prop where
  /-- What can be done to a state can be done to a better one, with a better outcome. -/
  mono : ∀ m {s s' t}, s ≤ s' → E m s = some t → ∃ t', t ≤ t' ∧ E m s' = some t'
  /-- A beneficial modifier can always be applied, and makes nothing worse. -/
  helps : ∀ {m}, classify m = .ok .beneficial → ∀ s, ∃ t, s ≤ t ∧ E m s = some t
  /-- A detrimental modifier makes nothing better. -/
  hurts : ∀ {m}, classify m = .ok .detrimental → ∀ {s t}, E m s = some t → t ≤ s

/-- The modifiers are monotone partial functions on states, and they do what the classifier says. -/
structure Effects.Respects (E : Effects σ) (classify : Classifier) : Prop where
  /-- What can be done to a state can be done to a better one, with a better outcome. -/
  mono : ∀ m {s s' t}, s ≤ s' → E m s = some t → ∃ t', t ≤ t' ∧ E m s' = some t'
  /-- A beneficial modifier can always be applied, and makes nothing worse. -/
  helps : ∀ {m}, classify m = .ok .beneficial → ∀ s, ∃ t, s ≤ t ∧ E m s = some t
  /-- A detrimental or neutral modifier makes nothing better. -/
  hurts : ∀ {m kind}, classify m = .ok kind → kind = .detrimental ∨ kind = .neutral →
    ∀ {s t}, E m s = some t → t ≤ s

/-- Wherever `b` leads, `a` leads to a state that is at least as good. -/
def Branch.Serves (S : Supply) (E : Effects σ) (a b : Branch) : Prop :=
  ∀ ⦃s t⦄, b.Takes S E s t → ∃ t', t ≤ t' ∧ a.Takes S E s t'

theorem Branch.Serves.refl : b.Serves S E b := fun _ t h => ⟨t, le_rfl, h⟩

theorem Branch.Serves.trans (hab : a.Serves S E b) (hbc : b.Serves S E c) : a.Serves S E c := by
  intro s t h
  obtain ⟨t₁, ht₁, h₁⟩ := hbc h
  obtain ⟨t₂, ht₂, h₂⟩ := hab h₁
  exact ⟨t₂, ht₁.trans ht₂, h₂⟩

theorem Branch.Serves.satisfied (h : a.Serves S E b) (hb : b.Satisfied S E s) : a.Satisfied S E s := by
  obtain ⟨t, ht⟩ := hb
  obtain ⟨t', -, ht'⟩ := h ht
  exact ⟨t', ht'⟩

namespace Effects.Follows

variable (hE : E.Follows classify)

include hE

/-! ## Runs of modifiers -/

theorem run_mono (hs : s ≤ s') (h : E.run l s = some t) : ∃ t', t ≤ t' ∧ E.run l s' = some t' := by
  induction l generalizing s s' with
  | nil =>
    obtain rfl := Option.some.inj h
    exact ⟨s', hs, rfl⟩
  | cons m l ih =>
    obtain ⟨u, hu, h⟩ := Option.bind_eq_some_iff.1 h
    obtain ⟨u', hle, hu'⟩ := hE.mono m hs hu
    obtain ⟨t', ht, h'⟩ := ih hle h
    exact ⟨t', ht, Option.bind_eq_some_iff.2 ⟨u', hu', h'⟩⟩

theorem run_helps (hl : ∀ m ∈ l, classify m = .ok .beneficial) (s : σ) :
    ∃ t, s ≤ t ∧ E.run l s = some t := by
  induction l generalizing s with
  | nil => exact ⟨s, le_rfl, rfl⟩
  | cons m l ih =>
    rw [List.forall_mem_cons] at hl
    obtain ⟨u, hsu, hu⟩ := hE.helps hl.1 s
    obtain ⟨t, hut, ht⟩ := ih hl.2 u
    exact ⟨t, hsu.trans hut, Option.bind_eq_some_iff.2 ⟨u, hu, ht⟩⟩

theorem run_detrimental (hl : ∀ m ∈ l, classify m = .ok .detrimental) (h : E.run l s = some t) :
    t ≤ s := by
  induction l generalizing s with
  | nil => exact (Option.some.inj h).ge
  | cons m l ih =>
    rw [List.forall_mem_cons] at hl
    obtain ⟨u, hu, h⟩ := Option.bind_eq_some_iff.1 h
    exact (ih hl.2 h).trans (hE.hurts hl.1 hu)

/-- What surrounds a run can be left out if it hurts: the state is at least as good. -/
theorem run_of_surrounds_detrimental (h : Surrounds classify .detrimental l part)
    (ht : E.run l s = some t) : ∃ t', t ≤ t' ∧ E.run part s = some t' := by
  obtain ⟨before, after, rfl, hall⟩ := h
  simp only [List.forall_mem_append] at hall
  rw [run_append, Option.bind_eq_some_iff] at ht
  obtain ⟨v, hv, ht⟩ := ht
  rw [run_append, Option.bind_eq_some_iff] at hv
  obtain ⟨u, hu, hv⟩ := hv
  -- the part runs from the state before the surroundings, which is at least as good
  have hbefore := hE.run_detrimental hall.1 hu
  have hafter := hE.run_detrimental hall.2 ht
  obtain ⟨v', hle, hv'⟩ := hE.run_mono hbefore hv
  exact ⟨v', hafter.trans hle, hv'⟩

/-- A run can be surrounded by what helps: the state is at least as good. -/
theorem run_of_surrounds_beneficial (h : Surrounds classify .beneficial l part)
    (ht : E.run part s = some t) : ∃ t', t ≤ t' ∧ E.run l s = some t' := by
  obtain ⟨before, after, rfl, hall⟩ := h
  simp only [List.forall_mem_append] at hall
  obtain ⟨u, hsu, hu⟩ := hE.run_helps hall.1 s
  obtain ⟨v, htv, hv⟩ := hE.run_mono hsu ht
  obtain ⟨w, hvw, hw⟩ := hE.run_helps hall.2 v
  refine ⟨w, htv.trans hvw, ?_⟩
  rw [run_append, run_append, hu, Option.bind_some, hv, Option.bind_some, hw]

/-! ## Branches -/

/-- A branch that dominates another one serves in its place. -/
theorem serves_of_dominates (h : dominates classify true a b = .ok true) : a.Serves S E b := by
  obtain ⟨hitems, hlocations, hregions, hruns⟩ := dominates_eq_ok_true h
  rintro s t ⟨hmet, hrun⟩
  have hmet' : a.Met S :=
    ⟨fun x hx => hmet.items x (hitems x hx), fun x hx => hmet.locations x (hlocations x hx),
      fun x hx => hmet.regions x (hregions rfl x hx)⟩
  rcases hruns with hruns | hruns
  · obtain ⟨t', hle, ht'⟩ := hE.run_of_surrounds_beneficial hruns hrun
    exact ⟨t', hle, hmet', ht'⟩
  · obtain ⟨t', hle, ht'⟩ := hE.run_of_surrounds_detrimental hruns hrun
    exact ⟨t', hle, hmet', ht'⟩

/-- So does the last one of a chain of branches, of which each dominates the one before it. -/
theorem serves_of_chain (h : Relation.ReflTransGen (fun a b => dominates classify true b a = .ok true) b a) :
    a.Serves S E b := by
  induction h with
  | refl => exact Branch.Serves.refl
  | tail _ h ih => exact (hE.serves_of_dominates h).trans ih

end Effects.Follows

theorem Effects.Respects.follows (hE : E.Respects classify) : E.Follows classify where
  mono := hE.mono
  helps := hE.helps
  hurts hm := hE.hurts hm (Or.inl rfl)

namespace Effects.Respects

variable (hE : E.Respects classify)

include hE

theorem run_hurts (hl : ∀ m ∈ l, classify.Harms m) (h : E.run l s = some t) : t ≤ s := by
  induction l generalizing s with
  | nil => exact (Option.some.inj h).ge
  | cons m l ih =>
    rw [List.forall_mem_cons] at hl
    obtain ⟨⟨kind, hm, hkind⟩, hl⟩ := hl
    obtain ⟨u, hu, h⟩ := Option.bind_eq_some_iff.1 h
    exact (ih hl h).trans (hE.hurts hm hkind hu)

/-! ## Branches -/

theorem takes_mono (hs : s ≤ s') (h : b.Takes S E s t) : ∃ t', t ≤ t' ∧ b.Takes S E s' t' := by
  obtain ⟨t', ht, hrun⟩ := hE.follows.run_mono hs h.2
  exact ⟨t', ht, h.1, hrun⟩

theorem satisfied_mono (hs : s ≤ s') (h : b.Satisfied S E s) : b.Satisfied S E s' := by
  obtain ⟨t, ht⟩ := h
  obtain ⟨t', -, ht'⟩ := hE.takes_mono hs ht
  exact ⟨t', ht'⟩

/-- What an elimination leaves serves in place of what it drops. -/
theorem exists_serves (h : Settled classify true bs bs') (hb : b ∈ bs) :
    ∃ a ∈ bs', a.Serves S E b := by
  obtain ⟨rfl, -⟩ := h
  obtain ⟨a, ha, hchain⟩ := exists_kept (dominates classify true) bs b hb
  exact ⟨a, ha, hE.follows.serves_of_chain hchain⟩

end Effects.Respects

end RegionLogic
