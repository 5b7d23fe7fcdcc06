import RegionLogic.Proofs.Fallible
import RegionLogic.Proofs.Requirement.Elimination
import RegionLogic.Requirement.Dominance

/-!
# What the test of dominance says

A branch that dominates another requires no more, and its run of modifiers is that of the other one with
further modifiers that help, or the run of the other one is its own with further modifiers that hurt. The
test fails only where the classifier fails on a modifier of one of the branches.

## Main definitions

* `Surrounds`: a run that occurs in another one, surrounded by modifiers of one kind

## Main results

* `embeds_of_surrounds`: the first occurrence of a run serves as well as any other one
* `dominates_eq_ok_true`: what the test establishes
* `exists_of_empty_dominates_eq_ok_false`, `exists_of_dominates_empty_eq_ok_false`: branches that cannot be
  compared with the empty branch
* `harms_of_many_eq_detrimental`: the modifiers of a detrimental run
* `exists_fault_of_dominates`, `exists_fault_of_many`: failures are those of the classifier
-/

namespace RegionLogic

variable {classify : Classifier} {kind : ModifierKind} {fault : Fault} {run part : List Name}

/-- The run `part` occurs in `run`, and the other modifiers of `run` are of kind `kind`. -/
def Surrounds (classify : Classifier) (kind : ModifierKind) (run part : List Name) : Prop :=
  ∃ before after, run = before ++ part ++ after ∧ ∀ m ∈ before ++ after, classify m = .ok kind

/-! ## Runs of one kind -/

theorem allOfKind_eq_ok_true :
    allOfKind classify kind run = .ok true ↔ ∀ m ∈ run, classify m = .ok kind := by
  induction run with
  | nil => simp [allOfKind]
  | cons m run ih =>
    rw [allOfKind, bind_eq_ok, List.forall_mem_cons]
    constructor
    · rintro ⟨k, hm, h⟩
      split at h
      · next hk => exact ⟨hk ▸ hm, ih.1 h⟩
      · cases h
    · rintro ⟨hm, h⟩
      exact ⟨kind, hm, by rw [if_pos rfl]; exact ih.2 h⟩

theorem exists_of_allOfKind_eq_ok_false (h : allOfKind classify kind run = .ok false) :
    ∃ m ∈ run, ∃ k, classify m = .ok k ∧ k ≠ kind := by
  induction run with
  | nil => cases h
  | cons m run ih =>
    obtain ⟨k, hm, h⟩ := bind_eq_ok.1 h
    split at h
    · obtain ⟨m', hm', hk⟩ := ih h
      exact ⟨m', List.mem_cons_of_mem m hm', hk⟩
    · next hk => exact ⟨m, by simp, k, hm, hk⟩

theorem exists_fault_of_allOfKind (h : allOfKind classify kind run = .error fault) :
    ∃ m ∈ run, classify m = .error fault := by
  induction run with
  | nil => cases h
  | cons m run ih =>
    rcases bind_eq_error.1 h with hm | ⟨k, -, h⟩
    · exact ⟨m, by simp, hm⟩
    · split at h
      · obtain ⟨m', hm', hfault⟩ := ih h
        exact ⟨m', List.mem_cons_of_mem m hm', hfault⟩
      · cases h

/-! ## Runs within runs -/

theorem surrounds_of_embedsFrom (h : embedsFrom classify kind part run = .ok true) :
    Surrounds classify kind run part := by
  induction run with
  | nil =>
    have hpart : part = [] := by simpa [embedsFrom] using h
    exact ⟨[], [], by simp [hpart], by simp⟩
  | cons m run ih =>
    unfold embedsFrom at h
    split at h
    · cases h
    split at h
    · next hprefix =>
      -- the first occurrence decides: what follows it has to be of the kind as well
      obtain ⟨after, hafter⟩ := List.isPrefixOf_iff_prefix.1 hprefix
      rw [← hafter, List.drop_left] at h
      exact ⟨[], after, hafter.symm, by simpa using allOfKind_eq_ok_true.1 h⟩
    · obtain ⟨k, hm, h⟩ := bind_eq_ok.1 h
      split at h
      · next hk =>
        obtain ⟨before, after, hrun, hall⟩ := ih h
        refine ⟨m :: before, after, by simp [hrun], ?_⟩
        rw [List.cons_append, List.forall_mem_cons]
        exact ⟨hk ▸ hm, hall⟩
      · cases h

/-- What surrounds one occurrence of a run is, but for its order, what surrounds any other one. -/
theorem perm_around {before after before' after' : List Name}
    (h : before ++ part ++ after = before' ++ part ++ after') :
    (before ++ after).Perm (before' ++ after') := by
  have hall : (part ++ (before ++ after)).Perm (part ++ (before' ++ after')) := by
    calc part ++ (before ++ after)
        _ = part ++ before ++ after := (List.append_assoc ..).symm
        _ |>.Perm (before ++ part ++ after) := List.perm_append_comm.append_right after
        _ = before' ++ part ++ after' := h
        _ |>.Perm (part ++ before' ++ after') := List.perm_append_comm.append_right after'
        _ = part ++ (before' ++ after') := List.append_assoc ..
  exact (List.perm_append_left_iff part).1 hall

theorem embedsFrom_of_surrounds (h : Surrounds classify kind run part) :
    embedsFrom classify kind part run = .ok true := by
  induction run with
  | nil =>
    obtain ⟨before, after, hrun, -⟩ := h
    have hpart : part = [] := by simp_all
    rw [hpart]
    rfl
  | cons m run ih =>
    obtain ⟨before, after, hrun, hall⟩ := h
    have hlength : ¬(m :: run).length < part.length := by
      rw [hrun]
      simp only [List.length_append]
      omega
    rw [embedsFrom, if_neg hlength]
    by_cases hprefix : part.isPrefixOf (m :: run) = true
    · -- the run begins with `part`: what follows is what surrounds the given occurrence
      obtain ⟨rest, hrest⟩ := List.isPrefixOf_iff_prefix.1 hprefix
      have hperm : ([] ++ rest).Perm (before ++ after) := perm_around (hrest.trans hrun)
      rw [if_pos hprefix, ← hrest, List.drop_left]
      exact allOfKind_eq_ok_true.2 fun x hx => hall x (hperm.subset hx)
    · -- the given occurrence does not begin here, so that it is one of the rest
      rw [if_neg hprefix]
      cases before with
      | nil => exact absurd (List.isPrefixOf_iff_prefix.2 ⟨after, hrun.symm⟩) hprefix
      | cons x before =>
        obtain ⟨rfl, hrest⟩ := List.cons_eq_cons.1 hrun
        have hm : classify m = .ok kind := hall m (by simp)
        have hsurrounds : Surrounds classify kind run part :=
          ⟨before, after, hrest, fun y hy => hall y (List.mem_cons_of_mem m hy)⟩
        exact bind_eq_ok.2 ⟨kind, hm, by rw [if_pos rfl]; exact ih hsurrounds⟩

theorem exists_fault_of_embedsFrom (h : embedsFrom classify kind part run = .error fault) :
    ∃ m ∈ run, classify m = .error fault := by
  induction run with
  | nil => cases h
  | cons m run ih =>
    unfold embedsFrom at h
    split at h
    · cases h
    split at h
    · obtain ⟨m', hm', hfault⟩ := exists_fault_of_allOfKind h
      exact ⟨m', List.mem_of_mem_drop hm', hfault⟩
    · rcases bind_eq_error.1 h with hm | ⟨k, -, h⟩
      · exact ⟨m, by simp, hm⟩
      · split at h
        · obtain ⟨m', hm', hfault⟩ := ih h
          exact ⟨m', List.mem_cons_of_mem m hm', hfault⟩
        · cases h

theorem surrounds_of_embeds (h : embeds classify kind run part = .ok true) :
    Surrounds classify kind run part := by
  unfold embeds at h
  split at h
  · exact surrounds_of_embedsFrom h
  · cases h

theorem embeds_of_surrounds (h : Surrounds classify kind run part) :
    embeds classify kind run part = .ok true := by
  have hmem : part.all (· ∈ run) = true := by
    obtain ⟨before, after, rfl, -⟩ := h
    exact List.all_eq_true.2 fun m hm => decide_eq_true (by simp [hm])
  rw [embeds, if_pos hmem]
  exact embedsFrom_of_surrounds h

/-- A run with further modifiers of one kind behind it. -/
theorem embeds_append_right {rest : List Name} (hrest : ∀ m ∈ rest, classify m = .ok kind) :
    embeds classify kind (part ++ rest) part = .ok true :=
  embeds_of_surrounds ⟨[], rest, rfl, hrest⟩

/-- The empty run occurs at the very beginning. -/
theorem embeds_nil : embeds classify kind run [] = allOfKind classify kind run := by
  cases run <;> rfl

theorem exists_fault_of_embeds (h : embeds classify kind run part = .error fault) :
    ∃ m ∈ run, classify m = .error fault := by
  unfold embeds at h
  split at h
  · exact exists_fault_of_embedsFrom h
  · cases h

/-! ## Branches -/

section Dominates

variable {compareRegions : Bool} {a b : Branch}

/-- A branch that dominates another requires no more, and it helps more or hurts less. -/
theorem dominates_eq_ok_true (h : dominates classify compareRegions a b = .ok true) :
    a.items ⊆ b.items ∧ a.locations ⊆ b.locations ∧ (compareRegions → a.regions ⊆ b.regions) ∧
      (Surrounds classify .beneficial a.modifiers b.modifiers ∨
        Surrounds classify .detrimental b.modifiers a.modifiers) := by
  unfold dominates at h
  split at h
  · cases h
  next hitems =>
  split at h
  · cases h
  next hlocations =>
  split at h
  · cases h
  next hregions =>
  refine ⟨Decidable.not_not.1 hitems, Decidable.not_not.1 hlocations, fun hc => ?_, ?_⟩
  · exact Decidable.byContradiction fun hr => hregions ⟨hc, hr⟩
  · split at h
    · exact Or.inl (surrounds_of_embeds h)
    · exact Or.inr (surrounds_of_embeds h)

/-- A branch that requires no more than another dominates it if its run is that of the other one with
further modifiers that help, or the other run is its own with further modifiers that hurt. -/
theorem dominates_of_extends (hitems : a.items ⊆ b.items) (hlocations : a.locations ⊆ b.locations)
    (hregions : a.regions ⊆ b.regions)
    (h : (∃ helps, a.modifiers = b.modifiers ++ helps ∧ ∀ m ∈ helps, classify m = .ok .beneficial) ∨
      ∃ hurts, b.modifiers = a.modifiers ++ hurts ∧ ∀ m ∈ hurts, classify m = .ok .detrimental) :
    dominates classify compareRegions a b = .ok true := by
  rw [dominates, if_neg (not_not.2 hitems), if_neg (not_not.2 hlocations),
    if_neg fun hc => hc.2 hregions]
  rcases h with ⟨helps, ha, hhelps⟩ | ⟨hurts, hb, hhurts⟩
  · rw [if_pos (by simp [ha]), ha]
    exact embeds_append_right hhelps
  · rw [hb]
    cases hurts with
    | nil =>
      -- both runs are the same, and nothing is left that could hurt
      have hsame : embeds classify .beneficial (a.modifiers ++ []) a.modifiers = .ok true :=
        embeds_append_right (by simp)
      simpa using hsame
    | cons m hurts =>
      rw [if_neg (by simp)]
      exact embeds_append_right hhurts

/-- A branch that the empty branch does not dominate has a modifier that does not merely hurt. -/
theorem exists_of_empty_dominates_eq_ok_false
    (h : dominates classify compareRegions .empty b = .ok false) :
    ∃ m ∈ b.modifiers, ∃ k, classify m = .ok k ∧ k ≠ .detrimental := by
  have hsub (s : NameSet) : ∅ ⊆ s := fun x hx => absurd hx (NameSet.not_mem_empty x)
  simp only [dominates, Branch.empty, hsub, not_true_eq_false, and_false, if_false, embeds_nil] at h
  split at h
  · next hlength =>
    rw [List.eq_nil_of_length_eq_zero (Nat.le_zero.1 hlength), embeds_nil] at h
    cases h
  · exact exists_of_allOfKind_eq_ok_false h

/-- A branch that does not dominate the empty branch asks for something, or it has a modifier that does
not merely help. -/
theorem exists_of_dominates_empty_eq_ok_false
    (h : dominates classify compareRegions b .empty = .ok false) :
    b.items ≠ ∅ ∨ b.locations ≠ ∅ ∨ (compareRegions ∧ b.regions ≠ ∅) ∨
      ∃ m ∈ b.modifiers, ∃ k, classify m = .ok k ∧ k ≠ .beneficial := by
  have hsub {s : NameSet} (h : ¬s ⊆ ∅) : s ≠ ∅ := fun hs => h (hs ▸ fun _ hx => hx)
  unfold dominates at h
  split at h
  · next hitems => exact Or.inl (hsub hitems)
  split at h
  · next hlocations => exact Or.inr (Or.inl (hsub hlocations))
  split at h
  · next hregions => exact Or.inr (Or.inr (Or.inl ⟨hregions.1, hsub hregions.2⟩))
  · have hlength : Branch.empty.modifiers.length ≤ b.modifiers.length := Nat.zero_le _
    have hnil : Branch.empty.modifiers = [] := rfl
    rw [if_pos hlength, hnil, embeds_nil] at h
    exact Or.inr (Or.inr (Or.inr (exists_of_allOfKind_eq_ok_false h)))

/-- The test fails where the classifier does. -/
theorem exists_fault_of_dominates (h : dominates classify compareRegions a b = .error fault) :
    ∃ m ∈ a.modifiers ++ b.modifiers, classify m = .error fault := by
  unfold dominates at h
  split at h
  · cases h
  split at h
  · cases h
  split at h
  · cases h
  split at h
  · obtain ⟨m, hm, hfault⟩ := exists_fault_of_embeds h
    exact ⟨m, List.mem_append_left _ hm, hfault⟩
  · obtain ⟨m, hm, hfault⟩ := exists_fault_of_embeds h
    exact ⟨m, List.mem_append_right _ hm, hfault⟩

/-- A pass over the branches of a list fails where the classifier does. -/
theorem exists_fault_of_removeRedundant {l : List Branch}
    (h : (removeRedundant classify compareRegions l).fault = some fault) :
    ∃ b ∈ l, ∃ m ∈ b.modifiers, classify m = .error fault := by
  obtain ⟨a, ha, b, hb, hab⟩ := exists_fault h
  obtain ⟨m, hm, hfault⟩ := exists_fault_of_dominates hab
  rcases List.mem_append.1 hm with hm | hm
  · exact ⟨a, ha, m, hm, hfault⟩
  · exact ⟨b, hb, m, hm, hfault⟩

end Dominates

/-! ## The kind of a run -/

theorem exists_fault_of_manyAfter {before : ModifierKind}
    (h : classify.manyAfter before run = .error fault) : ∃ m ∈ run, classify m = .error fault := by
  induction run generalizing before with
  | nil => cases h
  | cons m run ih =>
    rcases bind_eq_error.1 h with hm | ⟨k, -, h⟩
    · exact ⟨m, by simp, hm⟩
    · split at h
      · cases h
      · obtain ⟨m', hm', hfault⟩ := ih h
        exact ⟨m', List.mem_cons_of_mem m hm', hfault⟩

/-- A modifier that can at most hurt. -/
def Classifier.Harms (classify : Classifier) (m : Name) : Prop :=
  ∃ kind, classify m = .ok kind ∧ (kind = .detrimental ∨ kind = .neutral)

theorem harms_of_manyAfter_eq_detrimental {before : ModifierKind}
    (h : classify.manyAfter before run = .ok .detrimental) :
    (before = .detrimental ∨ before = .neutral) ∧ ∀ m ∈ run, classify.Harms m := by
  induction run generalizing before with
  | nil => exact ⟨Or.inl (Except.ok.inj h), by simp⟩
  | cons m run ih =>
    obtain ⟨k, hm, h⟩ := bind_eq_ok.1 h
    have hrest : (before.join k = .detrimental ∨ before.join k = .neutral) ∧
        ∀ m ∈ run, classify.Harms m := by
      split at h
      · cases h
      · exact ih h
    obtain ⟨hjoin, hrun⟩ := hrest
    -- a kind that was joined can hurt no less than the joined kind
    have hkinds : (before = .detrimental ∨ before = .neutral) ∧ (k = .detrimental ∨ k = .neutral) := by
      cases before <;> cases k <;> simp [ModifierKind.join] at hjoin ⊢
    exact ⟨hkinds.1, List.forall_mem_cons.2 ⟨⟨k, hm, hkinds.2⟩, hrun⟩⟩

/-- Each modifier of a detrimental run can at most hurt. -/
theorem harms_of_many_eq_detrimental (h : classify.many run = .ok .detrimental) :
    ∀ m ∈ run, classify.Harms m :=
  (harms_of_manyAfter_eq_detrimental h).2

theorem exists_fault_of_many (h : classify.many run = .error fault) :
    ∃ m ∈ run, classify m = .error fault :=
  exists_fault_of_manyAfter h

end RegionLogic
