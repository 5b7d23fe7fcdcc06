import Mathlib.Data.List.Pairwise
import Mathlib.Logic.Relation
import RegionLogic.Requirement.Elimination

/-!
# What an elimination leaves

The alternatives that are left are some of the given ones in their order, and every given one is left or
has been dropped for another, that one perhaps for a third, up to one that is left. Where the relation
has not failed, no two that are left make each other redundant.

## Main results

* `eliminate_sublist`: nothing is added or moved
* `exists_kept`: whatever is dropped is dropped for something that is left
* `pairwise_kept`, `incomparable_of_kept`: what is left cannot be reduced further
* `eliminate_of_pairwise`: what cannot be reduced further is left as it is
* `exists_fault`: a failure is one of the relation
-/

namespace RegionLogic

variable {α : Type} {r : α → α → Except Fault Bool} {current : α} {passed others l : List α}

theorem challenge_rest_sublist (r : α → α → Except Fault Bool) (current : α)
    (passed others : List α) :
    (challenge r current passed others).rest.Sublist (passed ++ others) := by
  induction others generalizing passed with
  | nil => simp [challenge, Challenge.rest]
  | cons other rest ih =>
    unfold challenge
    split
    · exact .refl _
    · exact .refl _
    · split
      · exact .refl _
      · have hskip : (passed ++ rest).Sublist (passed ++ other :: rest) :=
          (List.Sublist.refl passed).append (List.sublist_cons_self other rest)
        have h := (ih passed).trans hskip
        split <;> simp_all [Challenge.rest]
      · simpa using ih (passed ++ [other])

/-- Whatever `current` meets survives the challenge or is made redundant by it. -/
theorem mem_rest_of_challenge (r : α → α → Except Fault Bool) (current : α) (passed : List α) {a : α}
    (ha : a ∈ passed ++ others) :
    a ∈ (challenge r current passed others).rest ∨ r current a = .ok true := by
  induction others generalizing passed with
  | nil => exact Or.inl (by simpa [challenge, Challenge.rest] using ha)
  | cons other rest ih =>
    unfold challenge
    split
    · exact Or.inl ha
    · exact Or.inl ha
    · split
      · exact Or.inl ha
      · next hdrop =>
        have hcases : a ∈ passed ++ rest ∨ a = other := by
          simp only [List.mem_append, List.mem_cons] at ha ⊢
          grind
        rcases hcases with h | rfl
        · have := ih passed h
          split <;> simp_all [Challenge.rest]
        · exact Or.inr hdrop
      · exact ih (passed ++ [other]) (by simpa using ha)

/-- An alternative falls for one that survives. -/
theorem exists_of_falls {rest : List α} {dropped : List (α × α)}
    (h : challenge r current passed others = .falls rest dropped) :
    ∃ b ∈ rest, r b current = .ok true := by
  induction others generalizing passed dropped with
  | nil => simp [challenge] at h
  | cons other rest' ih =>
    unfold challenge at h
    split at h
    · cases h
    · next hfall =>
      obtain ⟨rfl, -⟩ := Challenge.falls.inj h
      exact ⟨other, by simp, hfall⟩
    · split at h
      · cases h
      · split at h
        · cases h
        · next hc =>
          obtain ⟨rfl, -⟩ := Challenge.falls.inj h
          exact ih hc
        · cases h
      · exact ih h

/-- An alternative that stays and those that it has met are not redundant for each other. -/
theorem incomparable_of_stays {rest : List α} {dropped : List (α × α)}
    (h : challenge r current passed others = .stays rest dropped) {a : α} (ha : a ∈ rest) :
    a ∈ passed ∨ r current a = .ok false ∧ r a current = .ok false := by
  induction others generalizing passed dropped with
  | nil =>
    obtain ⟨rfl, -⟩ := Challenge.stays.inj h
    exact Or.inl ha
  | cons other rest' ih =>
    unfold challenge at h
    split at h
    · cases h
    · cases h
    · next hother =>
      split at h
      · cases h
      · split at h
        · next hc =>
          obtain ⟨rfl, -⟩ := Challenge.stays.inj h
          exact ih hc
        · cases h
        · cases h
      · next hcurrent =>
        rcases ih h with hp | hinc
        · rcases List.mem_append.1 hp with hp | hp
          · exact Or.inl hp
          · obtain rfl := List.mem_singleton.1 hp
            exact Or.inr ⟨hcurrent, hother⟩
        · exact Or.inr hinc

/-- Where nothing is redundant for the other, an alternative stays and so do all that follow it. -/
theorem challenge_of_incomparable (passed : List α)
    (h : ∀ b ∈ others, r current b = .ok false ∧ r b current = .ok false) :
    challenge r current passed others = .stays (passed ++ others) [] := by
  induction others generalizing passed with
  | nil => rw [challenge, List.append_nil]
  | cons b others ih =>
    obtain ⟨⟨hcurrent, hother⟩, hrest⟩ := List.forall_mem_cons.1 h
    have hpass : challenge r current passed (b :: others) =
        challenge r current (passed ++ [b]) others := by
      rw [challenge, hother, hcurrent]
    rw [hpass, ih (passed ++ [b]) hrest, List.append_assoc]
    rfl

/-- A challenge fails where the relation does. -/
theorem exists_of_fails {rest : List α} {dropped : List (α × α)} {fault : Fault}
    (h : challenge r current passed others = .fails rest dropped fault) :
    ∃ b ∈ others, r b current = .error fault ∨ r current b = .error fault := by
  induction others generalizing passed dropped with
  | nil => simp [challenge] at h
  | cons other rest' ih =>
    unfold challenge at h
    split at h
    · next hother =>
      obtain ⟨-, -, rfl⟩ := Challenge.fails.inj h
      exact ⟨other, by simp, Or.inl hother⟩
    · cases h
    · split at h
      · next hcurrent =>
        obtain ⟨-, -, rfl⟩ := Challenge.fails.inj h
        exact ⟨other, by simp, Or.inr hcurrent⟩
      · split at h
        · cases h
        · cases h
        · next hc =>
          obtain ⟨rfl, -, rfl⟩ := Challenge.fails.inj h
          obtain ⟨b, hb, hfault⟩ := ih hc
          exact ⟨b, List.mem_cons_of_mem _ hb, hfault⟩
      · obtain ⟨b, hb, hfault⟩ := ih h
        exact ⟨b, List.mem_cons_of_mem _ hb, hfault⟩

/-! ## The whole pass -/

theorem eliminate_of_stays {rest : List α} {dropped : List (α × α)}
    (h : challenge r current [] others = .stays rest dropped) :
    eliminate r (current :: others) =
      let e := (eliminate r rest).after dropped
      { e with kept := current :: e.kept } := by
  rw [eliminate]
  split <;> simp_all

theorem eliminate_of_falls {rest : List α} {dropped : List (α × α)}
    (h : challenge r current [] others = .falls rest dropped) :
    eliminate r (current :: others) = (eliminate r rest).after dropped := by
  rw [eliminate]
  split <;> simp_all

theorem eliminate_of_fails {rest : List α} {dropped : List (α × α)} {fault : Fault}
    (h : challenge r current [] others = .fails rest dropped fault) :
    eliminate r (current :: others) = ⟨current :: rest, dropped, some fault⟩ := by
  rw [eliminate]
  split <;> simp_all

theorem eliminate_sublist (r : α → α → Except Fault Bool) (l : List α) :
    (eliminate r l).kept.Sublist l := by
  fun_induction eliminate r l with
  | case1 => exact .refl _
  | case2 current others rest dropped h e ih =>
    have hrest := challenge_rest_sublist r current [] others
    rw [h] at hrest
    exact (ih.trans hrest).cons_cons current
  | case3 current others rest dropped h ih =>
    have hrest := challenge_rest_sublist r current [] others
    rw [h] at hrest
    exact (ih.trans hrest).cons current
  | case4 current others rest dropped fault h =>
    have hrest := challenge_rest_sublist r current [] others
    rw [h] at hrest
    exact hrest.cons_cons current

/-- Whatever is dropped is dropped for another alternative, which is left or dropped for a third. -/
theorem exists_kept (r : α → α → Except Fault Bool) (l : List α) :
    ∀ a ∈ l, ∃ b ∈ (eliminate r l).kept,
      Relation.ReflTransGen (fun a b => r b a = .ok true) a b := by
  fun_induction eliminate r l with
  | case1 => exact fun a ha => absurd ha List.not_mem_nil
  | case2 current others rest dropped h e ih =>
    intro a ha
    rcases List.mem_cons.1 ha with rfl | ha
    · exact ⟨a, by simp, .refl⟩
    · rcases mem_rest_of_challenge r current [] ha with hrest | hdrop
      · rw [h] at hrest
        obtain ⟨b, hb, hab⟩ := ih a hrest
        exact ⟨b, List.mem_cons_of_mem _ hb, hab⟩
      · exact ⟨current, by simp, .single hdrop⟩
  | case3 current others rest dropped h ih =>
    intro a ha
    -- what `current` has made redundant before it fell goes on to what `current` falls for
    obtain ⟨c, hc, hfall⟩ := exists_of_falls h
    obtain ⟨b, hb, hcb⟩ := ih c hc
    have hcurrent := hcb.head (r := fun a b => r b a = .ok true) hfall
    rcases List.mem_cons.1 ha with rfl | ha
    · exact ⟨b, hb, hcurrent⟩
    · rcases mem_rest_of_challenge r current [] ha with hrest | hdrop
      · rw [h] at hrest
        exact ih a hrest
      · exact ⟨b, hb, hcurrent.head hdrop⟩
  | case4 current others rest dropped fault h =>
    intro a ha
    rcases List.mem_cons.1 ha with rfl | ha
    · exact ⟨a, by simp, .refl⟩
    · rcases mem_rest_of_challenge r current [] ha with hrest | hdrop
      · rw [h] at hrest
        exact ⟨a, List.mem_cons_of_mem _ hrest, .refl⟩
      · exact ⟨current, by simp, .single hdrop⟩

theorem kept_ne_nil {l : List α} (h : l ≠ []) : (eliminate r l).kept ≠ [] := by
  obtain ⟨a, ha⟩ := List.exists_mem_of_ne_nil l h
  obtain ⟨b, hb, -⟩ := exists_kept r l a ha
  exact List.ne_nil_of_mem hb

/-- Where the relation has not failed, no two alternatives that are left make each other redundant. -/
theorem pairwise_kept {l : List α} (h : (eliminate r l).fault = none) :
    (eliminate r l).kept.Pairwise fun a b => r a b = .ok false ∧ r b a = .ok false := by
  fun_induction eliminate r l with
  | case1 => exact .nil
  | case2 current others rest dropped hc e ih =>
    refine List.pairwise_cons.2 ⟨fun b hb => ?_, ih h⟩
    have hrest : b ∈ rest := (eliminate_sublist r rest).subset hb
    rcases incomparable_of_stays hc hrest with hp | hinc
    · cases hp
    · exact hinc
  | case3 current others rest dropped hc ih => exact ih h
  | case4 current others rest dropped fault hc => cases h

theorem incomparable_of_kept {l : List α} (h : (eliminate r l).fault = none) {a b : α}
    (ha : a ∈ (eliminate r l).kept) (hb : b ∈ (eliminate r l).kept) (hne : a ≠ b) :
    r a b = .ok false ∧ r b a = .ok false := by
  have : Std.Symm fun a b => r a b = .ok false ∧ r b a = .ok false := ⟨fun _ _ => And.symm⟩
  exact (pairwise_kept h).forall ha hb hne

/-- Of alternatives that cannot be reduced further none is dropped. -/
theorem eliminate_of_pairwise {l : List α}
    (h : l.Pairwise fun a b => r a b = .ok false ∧ r b a = .ok false) :
    eliminate r l = ⟨l, [], none⟩ := by
  induction l with
  | nil => rw [eliminate]
  | cons a l ih =>
    obtain ⟨ha, hl⟩ := List.pairwise_cons.1 h
    rw [eliminate_of_stays (challenge_of_incomparable [] ha), List.nil_append, ih hl]
    rfl

/-- A pass fails where the relation does. -/
theorem exists_fault {l : List α} {fault : Fault} (h : (eliminate r l).fault = some fault) :
    ∃ a ∈ l, ∃ b ∈ l, r a b = .error fault := by
  fun_induction eliminate r l with
  | case1 => cases h
  | case2 current others rest dropped hc e ih =>
    have hsub := challenge_rest_sublist r current [] others
    rw [hc] at hsub
    obtain ⟨a, ha, b, hb, hab⟩ := ih h
    exact ⟨a, List.mem_cons_of_mem _ (hsub.subset ha), b, List.mem_cons_of_mem _ (hsub.subset hb), hab⟩
  | case3 current others rest dropped hc ih =>
    have hsub := challenge_rest_sublist r current [] others
    rw [hc] at hsub
    obtain ⟨a, ha, b, hb, hab⟩ := ih h
    exact ⟨a, List.mem_cons_of_mem _ (hsub.subset ha), b, List.mem_cons_of_mem _ (hsub.subset hb), hab⟩
  | case4 current others rest dropped fault' hc =>
    obtain rfl := Option.some.inj h
    obtain ⟨b, hb, hfault | hfault⟩ := exists_of_fails hc
    · exact ⟨b, List.mem_cons_of_mem _ hb, current, by simp, hfault⟩
    · exact ⟨current, by simp, b, List.mem_cons_of_mem _ hb, hfault⟩

end RegionLogic
