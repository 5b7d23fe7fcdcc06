import RegionLogic.Proofs.Access.Satisfaction
import RegionLogic.Proofs.Calls

/-!
# Access after stripping

The last step of a cleanup takes the empty branch out of a list in which other branches stand beside it.
Nothing is asked on the empty branch, so this can take access away. The rounds before the last step have
left no branch beside the empty one that is no worse or no better than it is.

## Main definitions

* `Branch.Rivals`: a branch that can stand beside the empty branch
* `StripsAccess`: what stripping does to the access through a list

## Main results

* `strip_after_calls`: the lists after any calls, the rounds of a cleanup and stripping
* `strip_loses_access`: the empty branch is taken away from a list no other branch of which is satisfied
-/

namespace RegionLogic

universe u

/-- A branch that is neither better nor worse than the empty branch for all the classifier knows. -/
structure Branch.Rivals (classify : Classifier) (compareRegions : Bool) (b : Branch) : Prop where
  /-- One of its modifiers does not merely hurt. -/
  gains : ∃ m ∈ b.modifiers, ∃ kind, classify m = .ok kind ∧ kind ≠ .detrimental
  /-- It asks for something, or one of its modifiers does not merely help. -/
  costs : b.items ≠ ∅ ∨ b.locations ≠ ∅ ∨ (compareRegions ∧ b.regions ≠ ∅) ∨
    ∃ m ∈ b.modifiers, ∃ kind, classify m = .ok kind ∧ kind ≠ .beneficial

/-- The access through the alternatives `l`, and through what stripping leaves of them. -/
structure StripsAccess (classify : Classifier) (compareRegions : Bool) (l l' : List Branch) :
    Prop where
  /-- Access is lost only where the empty branch stands beside others none of which is satisfied. -/
  satisfied : ∀ {σ : Type u} (S : Supply) (E : Effects σ) (s : σ),
    (∃ b ∈ l', b.Satisfied S E s) ↔
      (∃ b ∈ l, b.Satisfied S E s) ∧
        ¬(.empty ∈ l ∧ (∃ b ∈ l, b ≠ .empty) ∧ ∀ b ∈ l, b ≠ .empty → ¬b.Satisfied S E s)
  /-- What stands beside the empty branch is neither better nor worse than it. -/
  rivals : .empty ∈ l → ∀ b ∈ l, b ≠ .empty → b.Rivals classify compareRegions

open Building RegionGraph

variable {classify : Classifier} {compareRegions : Bool} {l l' : List Branch}

/-- Stripping leaves a branch that satisfies `P` unless only the empty one does and others stand beside
it. -/
theorem exists_mem_stripEmpty {P : Branch → Prop} :
    (∃ b ∈ stripEmpty l, P b) ↔
      (∃ b ∈ l, P b) ∧ ¬(.empty ∈ l ∧ (∃ b ∈ l, b ≠ .empty) ∧ ∀ b ∈ l, b ≠ .empty → ¬P b) := by
  simp only [mem_stripEmpty]
  constructor
  · rintro ⟨b, ⟨hb, hne | hall⟩, hP⟩
    · exact ⟨⟨b, hb, hP⟩, fun h => h.2.2 b hb hne hP⟩
    · refine ⟨⟨b, hb, hP⟩, ?_⟩
      rintro ⟨-, ⟨c, hc, hne⟩, -⟩
      exact hne (hall c hc)
  · rintro ⟨⟨b, hb, hP⟩, hkeeps⟩
    by_cases hne : b = .empty
    · subst hne
      by_cases hall : ∀ c ∈ l, c = .empty
      · exact ⟨.empty, ⟨hb, Or.inr hall⟩, hP⟩
      · simp only [not_forall] at hall
        obtain ⟨c, hc, hcne⟩ := hall
        -- some other branch is satisfied as well, and it stays
        have hother : ¬∀ b ∈ l, b ≠ .empty → ¬P b := fun h => hkeeps ⟨hb, ⟨c, hc, hcne⟩, h⟩
        simp only [not_forall, not_not] at hother
        obtain ⟨d, hd, hdne, hPd⟩ := hother
        exact ⟨d, ⟨hd, Or.inl hdne⟩, hPd⟩
    · exact ⟨b, ⟨hb, Or.inl hne⟩, hP⟩

/-- A sweep leaves nothing beside the empty branch that can be compared with it. -/
theorem Settled.rivals (h : Settled classify compareRegions l l') (hempty : .empty ∈ l') {b : Branch}
    (hb : b ∈ l') (hne : b ≠ .empty) : b.Rivals classify compareRegions := by
  obtain ⟨rfl, hfault⟩ := h
  obtain ⟨hover, hunder⟩ := incomparable_of_kept hfault hb hempty hne
  exact ⟨exists_of_empty_dominates_eq_ok_false hunder, exists_of_dominates_empty_eq_ok_false hover⟩

theorem Settled.stripsAccess (h : Settled classify compareRegions l l') :
    StripsAccess.{u} classify compareRegions l' (stripEmpty l') where
  satisfied _ _ _ := exists_mem_stripEmpty
  rivals hempty _ hb hne := h.rivals hempty hb hne

/-- After any calls and the rounds of a cleanup, stripping takes access away from a list only where the
empty branch stands beside others none of which is satisfied. -/
theorem strip_after_calls (calls : List Call) {keep : NameSet} {options : CleanupOptions}
    {report : CleanupReport} {t : Session}
    (h : outcome (simplify classify keep options) (Session.after {} calls) = (.ok report, t)) :
    ∃ g, outcome strip t = (.ok (), { t with graph := g }) ∧
      outcome (clean classify keep options) (Session.after {} calls) =
        (.ok report, { t with graph := g }) ∧
      Relists (StripsAccess.{u} classify options.compareRegions) t.graph g := by
  have hs := consistent_after (s := {}) fresh_consistent calls
  have hends := simplify_ends_of_consistent classify keep options hs
  rw [h] at hends
  cases hends with
  | done hreduced =>
    -- the rounds end right after a sweep, so every list is what an elimination leaves
    obtain ⟨g₁, -, hsettled⟩ := hreduced
    obtain ⟨g, hstrip, hrel⟩ := outcome_strip t
    refine ⟨g, hstrip, ?_, ?_⟩
    · rw [clean, outcome_bind_of_ok h, outcome_bind_of_ok hstrip]
      rfl
    · refine (hrel.and_left fun l hl => hsettled.exists_mem_logicLists hl).mono ?_
      rintro l l' ⟨⟨l₀, -, hl⟩, rfl⟩
      exact hl.stripsAccess

/-- A hub that is free to enter, or else with a sword by way of a bench. -/
def hubCalls : List Call :=
  [.ingest
    { name := "Hub",
      logic := [{}, { conditions := {("Sword" : Name)}, modifiers := ["$BENCHRESET"] }],
      handling := .transition }]

theorem strip_after_hubCalls :
    let classify : Classifier := fun _ => .ok .beneficial
    let s : Session := Session.after {} hubCalls
    ∃ t g, outcome (simplify classify ∅ {}) s = (.ok {}, t) ∧
      Relists (StripsAccess.{0} classify false) t.graph g := by
  intro classify s
  have hdone : (outcome (simplify classify ∅ {}) s).1 = .ok {} := by decide +kernel
  obtain ⟨g, -, -, hrel⟩ := strip_after_calls hubCalls (Prod.ext hdone rfl)
  exact ⟨_, g, Prod.ext hdone rfl, hrel⟩

/-- Nobody holds a sword: the rounds leave the hub free to enter, and stripping closes it. -/
theorem strip_loses_access :
    let classify : Classifier := fun _ => .ok .beneficial
    let s : Session := Session.after {} hubCalls
    let t := (outcome (simplify classify ∅ {}) s).2
    let S : Supply := ⟨fun _ => False, fun _ => False, fun _ => False⟩
    let E : Effects Unit := fun _ s => some s
    (∃ report, outcome (simplify classify ∅ {}) s = (.ok report, t)) ∧
      (∃ b ∈ t.graph.exitLogic startRegion "Hub", b.Satisfied S E ()) ∧
      ¬∃ b ∈ (outcome strip t).2.graph.exitLogic startRegion "Hub", b.Satisfied S E () := by
  intro classify s t S E
  have hdone : (outcome (simplify classify ∅ {}) s).1 = .ok {} := by decide +kernel
  have hfree : .empty ∈ t.graph.exitLogic startRegion "Hub" := by decide +kernel
  have hguarded : ∀ b ∈ (outcome strip t).2.graph.exitLogic startRegion "Hub",
      ("Sword" : Name) ∈ b.items := by decide +kernel
  refine ⟨⟨_, Prod.ext hdone rfl⟩, ⟨.empty, hfree, Branch.satisfied_empty⟩, ?_⟩
  rintro ⟨b, hb, u, hmet, -⟩
  exact hmet.items _ (hguarded b hb)

end RegionLogic
