import RegionLogic.LogicObject
import RegionLogic.Proofs.Region.Placement
import RegionLogic.Proofs.Requirement.Dominance
import RegionLogic.Proofs.Term.Token

/-!
# What a clause draws on

A clause draws its state from the object that its provider names, and it mentions the objects that its
conditions name. Reading the terms of a clause can fail, but never with cycles.

## Main definitions

* `Clause.DrawsFrom`, `Clause.Mentions`: the objects that a clause needs
* `Fault.IsCyclic`: a fault that tells of cycles

## Main results

* `Clause.mentions_of_ok`, `Clause.drawsFrom_of_ok`: what the tests of a clause establish
* `Clause.isSameOrBetter_eq_ok_true`: what the comparison of two clauses establishes
* `Clause.reduceAll_eq_ok_iff`, `Clause.exists_fault_of_reduceAll`: how the reduction of clauses ends
-/

namespace RegionLogic

variable {c : Clause} {a n p : Name} {fault : Fault} {found : Bool}

/-- The fault tells of cycles. -/
def Fault.IsCyclic (fault : Fault) : Prop := ∃ cycles, fault = .cyclic cycles

theorem Fault.not_isCyclic_term (cause : TermFault) : ¬(Fault.term cause).IsCyclic := by
  rintro ⟨_, ⟨⟩⟩

theorem Fault.not_isCyclic_shape (cause : ShapeFault) : ¬(Fault.shape cause).IsCyclic := by
  rintro ⟨_, ⟨⟩⟩

/-! ## Reading terms -/

theorem Token.not_isCyclic_of_ofName (h : ofName a = .error fault) : ¬fault.IsCyclic := by
  unfold ofName ofJson at h
  split at h
  · obtain ⟨cause, rfl⟩ := exists_cause_of_read h
    exact Fault.not_isCyclic_term cause
  · split at h
    · obtain rfl := Except.error.inj h
      exact Fault.not_isCyclic_shape _
    · obtain rfl := Except.error.inj h
      exact Fault.not_isCyclic_term _

theorem not_isCyclic_of_joinNames {separator : String} {l : List Name}
    (h : joinNames separator l = .error fault) : ¬fault.IsCyclic := by
  obtain ⟨⟨cause, rfl⟩, -⟩ := exists_odd_of_joinNames h
  exact Fault.not_isCyclic_shape cause

namespace Clause

theorem not_isCyclic_of_providerRegion (h : providerRegion a = .error fault) : ¬fault.IsCyclic := by
  unfold providerRegion at h
  rcases bind_eq_error.1 h with h | ⟨token, -, h⟩
  · exact Token.not_isCyclic_of_ofName h
  · split at h
    · cases h
    · cases h
    · obtain rfl := Except.error.inj h
      exact Fault.not_isCyclic_term _

theorem not_isCyclic_of_text (h : c.text = .error fault) : ¬fault.IsCyclic := by
  unfold text at h
  rcases bind_eq_error.1 h with h | ⟨terms, -, h⟩
  · unfold terms at h
    rcases bind_eq_error.1 h with h | ⟨l, -, h⟩
    · obtain ⟨⟨cause, rfl⟩, -⟩ := exists_odd_of_inOrder h
      exact Fault.not_isCyclic_shape cause
    · cases h
  · rcases bind_eq_error.1 h with h | ⟨l, -, h⟩
    · exact not_isCyclic_of_joinNames h
    · cases h

/-- A failure for which the clause is written first. -/
theorem not_isCyclic_of_text_bind {α : Type} {k : String → Except Fault α}
    (hk : ∀ text, ∃ f, k text = .error f ∧ ¬f.IsCyclic) (h : c.text >>= k = .error fault) :
    ¬fault.IsCyclic := by
  rcases bind_eq_error.1 h with h | ⟨text, -, h⟩
  · exact not_isCyclic_of_text h
  · obtain ⟨f, hf, hcyclic⟩ := hk text
    rw [hf] at h
    exact Except.error.inj h ▸ hcyclic

/-! ## The objects that a clause needs -/

/-- The state comes from the object `p`. -/
def DrawsFrom (c : Clause) (p : Name) : Prop :=
  ∃ provider, c.provider = some provider ∧ providerRegion provider = .ok p

theorem DrawsFrom.unique {q : Name} (hp : c.DrawsFrom p) (hq : c.DrawsFrom q) : p = q := by
  obtain ⟨provider, hprovider, hp⟩ := hp
  obtain ⟨provider', hprovider', hq⟩ := hq
  rw [hprovider] at hprovider'
  obtain rfl := Option.some.inj hprovider'
  rw [hp] at hq
  exact Except.ok.inj hq

theorem not_drawsFrom_of_none (h : c.provider = none) : ¬c.DrawsFrom p := by
  rintro ⟨provider, hprovider, -⟩
  rw [h] at hprovider
  cases hprovider

/-- A condition of the clause mentions the object `n`. -/
def Mentions (c : Clause) (n : Name) : Prop :=
  ∃ term ∈ c.conditions, ∃ token, Token.ofName term = .ok token ∧ n ∈ token.names

theorem mentions_of_ok (h : c.mentions n = .ok found) : found = true ↔ c.Mentions n := by
  unfold mentions at h
  cases found with
  | true =>
    obtain ⟨term, hterm, h⟩ := exists_of_anyM h
    obtain ⟨token, htoken, h⟩ := bind_eq_ok.1 h
    exact iff_of_true rfl ⟨term, hterm, token, htoken, of_decide_eq_true (Except.ok.inj h)⟩
  | false =>
    refine iff_of_false Bool.false_ne_true ?_
    rintro ⟨term, hterm, token, htoken, hn⟩
    obtain ⟨token', htoken', h⟩ := bind_eq_ok.1 (forall_of_anyM h term hterm)
    rw [htoken] at htoken'
    obtain rfl := Except.ok.inj htoken'
    exact of_decide_eq_false (Except.ok.inj h) hn

theorem not_isCyclic_of_mentions (h : c.mentions n = .error fault) : ¬fault.IsCyclic := by
  obtain ⟨term, -, h⟩ := exists_error_of_anyM h
  rcases bind_eq_error.1 h with h | ⟨token, -, h⟩
  · exact Token.not_isCyclic_of_ofName h
  · cases h

theorem drawsFrom_of_ok (h : c.isSelfReferential n = .ok found) : found = true ↔ c.DrawsFrom n := by
  obtain ⟨_, -, h⟩ := bind_eq_ok.1 h
  unfold DrawsFrom
  cases hc : c.provider with
  | none =>
    rw [hc] at h
    obtain rfl := Except.ok.inj h
    simp
  | some provider =>
    rw [hc] at h
    obtain ⟨p, hp, h⟩ := bind_eq_ok.1 h
    obtain rfl := Except.ok.inj h
    simp [hp]

theorem not_isCyclic_of_isSelfReferential (h : c.isSelfReferential n = .error fault) :
    ¬fault.IsCyclic := by
  rcases bind_eq_error.1 h with h | ⟨_, -, h⟩
  · obtain ⟨term, -, h⟩ := exists_error_of_forM h
    rcases bind_eq_error.1 h with h | ⟨token, -, h⟩
    · exact Token.not_isCyclic_of_ofName h
    · -- the messages name the clause, which has to be written for them
      split at h
      · split at h
        · split at h
          · exact not_isCyclic_of_text_bind (fun _ => ⟨_, rfl, by rintro ⟨_, ⟨⟩⟩⟩) h
          · exact not_isCyclic_of_text_bind (fun _ => ⟨_, rfl, by rintro ⟨_, ⟨⟩⟩⟩) h
        · exact not_isCyclic_of_text_bind (fun _ => ⟨_, rfl, by rintro ⟨_, ⟨⟩⟩⟩) h
      · split at h
        · split at h
          · exact not_isCyclic_of_text_bind (fun _ => ⟨_, rfl, by rintro ⟨_, ⟨⟩⟩⟩) h
          · cases h
        · cases h
  · cases hc : c.provider with
    | none =>
      rw [hc] at h
      cases h
    | some provider =>
      rw [hc] at h
      rcases bind_eq_error.1 h with h | ⟨p, -, h⟩
      · exact not_isCyclic_of_providerRegion h
      · cases h

/-! ## One clause instead of another -/

section SameOrBetter

variable {classify : Classifier} {d : Clause}

/-- A clause that is the same or better has the same provider and requires no more. Its run is that of the
other clause with further modifiers that help, or the other run is its own with further modifiers that
hurt. -/
theorem extends_of_isSameOrBetter (h : isSameOrBetter classify c d = .ok true) :
    c.provider = d.provider ∧ c.conditions ⊆ d.conditions ∧
      ((∃ helps, c.modifiers = d.modifiers ++ helps ∧ ∀ m ∈ helps, classify m = .ok .beneficial) ∨
        ∃ hurts, d.modifiers = c.modifiers ++ hurts ∧ ∀ m ∈ hurts, classify m = .ok .detrimental) := by
  unfold isSameOrBetter at h
  dsimp only at h
  split at h
  · cases h
  next hprovider =>
  split at h
  · cases h
  next hconditions =>
  split at h
  · cases h
  next hshared =>
  refine ⟨not_not.1 hprovider, not_not.1 hconditions, ?_⟩
  rw [not_not] at hshared
  obtain ⟨helps, hhelps, h⟩ := bind_eq_ok.1 h
  split at h
  · next hhelpful =>
    rw [hhelpful] at hhelps
    -- the shorter run is the beginning of both
    rcases Nat.le_total d.modifiers.length c.modifiers.length with hle | hle
    · rw [Nat.min_eq_right hle] at hshared hhelps
      rw [List.take_length] at hshared
      have hrun := List.take_append_drop d.modifiers.length c.modifiers
      rw [hshared] at hrun
      exact Or.inl ⟨_, hrun.symm, allOfKind_eq_ok_true.1 hhelps⟩
    · rw [Nat.min_eq_left hle] at hshared h
      rw [List.take_length] at hshared
      have hrun := List.take_append_drop c.modifiers.length d.modifiers
      rw [← hshared] at hrun
      exact Or.inr ⟨_, hrun.symm, allOfKind_eq_ok_true.1 h⟩
  · cases h

/-- The runs of both clauses begin in the same way; then the one can only help, and the other can only
hurt. -/
theorem isSameOrBetter_eq_ok_true (h : isSameOrBetter classify c d = .ok true) :
    c.provider = d.provider ∧ c.conditions ⊆ d.conditions ∧ ∃ shared helps hurts,
      c.modifiers = shared ++ helps ∧ d.modifiers = shared ++ hurts ∧
        (∀ m ∈ helps, classify m = .ok .beneficial) ∧ ∀ m ∈ hurts, classify m = .ok .detrimental := by
  obtain ⟨hprovider, hconditions, hruns⟩ := extends_of_isSameOrBetter h
  refine ⟨hprovider, hconditions, ?_⟩
  rcases hruns with ⟨helps, hc, hhelps⟩ | ⟨hurts, hd, hhurts⟩
  · exact ⟨d.modifiers, helps, [], hc, (List.append_nil _).symm, hhelps, by simp⟩
  · exact ⟨c.modifiers, [], hurts, (List.append_nil _).symm, hd, by simp, hhurts⟩

/-- The comparison fails where the classifier does. -/
theorem exists_fault_of_isSameOrBetter (h : isSameOrBetter classify c d = .error fault) :
    ∃ m ∈ c.modifiers ++ d.modifiers, classify m = .error fault := by
  unfold isSameOrBetter at h
  dsimp only at h
  split at h
  · cases h
  split at h
  · cases h
  split at h
  · cases h
  rcases bind_eq_error.1 h with h | ⟨helps, -, h⟩
  · obtain ⟨m, hm, hfault⟩ := exists_fault_of_allOfKind h
    exact ⟨m, List.mem_append_left _ (List.mem_of_mem_drop hm), hfault⟩
  · split at h
    · obtain ⟨m, hm, hfault⟩ := exists_fault_of_allOfKind h
      exact ⟨m, List.mem_append_right _ (List.mem_of_mem_drop hm), hfault⟩
    · cases h

/-- Clauses that could be reduced are what the elimination leaves. -/
theorem reduceAll_eq_ok_iff {l kept : List Clause} :
    reduceAll classify l = .ok kept ↔
      (eliminate (isSameOrBetter classify) l).fault = none ∧
        kept = (eliminate (isSameOrBetter classify) l).kept := by
  unfold reduceAll
  dsimp only
  split
  · next hfault => simp [hfault]
  · next hnone => rw [and_iff_right hnone, Except.ok.injEq, eq_comm]

/-- Clauses cannot be reduced if the classifier fails on a modifier of one of them. -/
theorem exists_fault_of_reduceAll {l : List Clause} (h : reduceAll classify l = .error fault) :
    ∃ c ∈ l, ∃ m ∈ c.modifiers, classify m = .error fault := by
  unfold reduceAll at h
  dsimp only at h
  split at h
  · next hfault =>
    obtain rfl := Except.error.inj h
    obtain ⟨a, ha, b, hb, hab⟩ := exists_fault hfault
    obtain ⟨m, hm, hclassify⟩ := exists_fault_of_isSameOrBetter hab
    rcases List.mem_append.1 hm with hm | hm
    · exact ⟨a, ha, m, hm, hclassify⟩
    · exact ⟨b, hb, m, hm, hclassify⟩
  · cases h

end SameOrBetter

end Clause

end RegionLogic
