import Mathlib.Data.List.Forall2
import RegionLogic.Log
import RegionLogic.Proofs.Fallible

/-!
# How logged computations end

A logged computation reads no events, so what it gives can be followed without them: a computation of two
steps succeeds if both steps do, and fails with the first step or with the second one.

## Main definitions

* `Logged.Gives`: a computation ends with a value or a fault

## Main results

* `Logged.Gives.bind_cases`: how a computation of two steps ends
* `Logged.Gives.mapM_ok`, `Logged.Gives.foldlM_ok`: computations for the members of a list
-/

namespace RegionLogic.Logged

variable {α β : Type} {m : Logged α} {k : α → Logged β} {r : Except Fault α} {fault : Fault}

/-- The computation ends with `r`, whatever has been recorded before. -/
def Gives (m : Logged α) (r : Except Fault α) : Prop := ∃ events, ((m.run).run events).1 = r

theorem gives_outcome (m : Logged α) : m.Gives m.outcome.1 := ⟨[], rfl⟩

theorem run_bind (events : List Event) :
    ((m >>= k).run).run events =
      match (m.run).run events with
      | (.ok a, events) => ((k a).run).run events
      | (.error f, events) => (.error f, events) := by
  have h : ((m >>= k).run).run events =
      StateT.run (ExceptT.bindCont k ((m.run).run events).1) ((m.run).run events).2 := rfl
  rw [h]
  rcases (m.run).run events with ⟨_ | _, _⟩ <;> rfl

namespace Gives

theorem bind_cases {r : Except Fault β} (h : (m >>= k).Gives r) :
    (∃ f, r = .error f ∧ m.Gives (.error f)) ∨ ∃ a, m.Gives (.ok a) ∧ (k a).Gives r := by
  obtain ⟨events, h⟩ := h
  rw [run_bind] at h
  rcases hm : (m.run).run events with ⟨f | a, events'⟩
  · rw [hm] at h
    exact Or.inl ⟨f, h.symm, events, by rw [hm]⟩
  · rw [hm] at h
    exact Or.inr ⟨a, ⟨events, by rw [hm]⟩, events', h⟩

theorem bind_ok {b : β} (h : (m >>= k).Gives (.ok b)) : ∃ a, m.Gives (.ok a) ∧ (k a).Gives (.ok b) := by
  rcases h.bind_cases with ⟨f, h, -⟩ | h
  · cases h
  · exact h

theorem bind_error (h : (m >>= k).Gives (.error fault)) :
    m.Gives (.error fault) ∨ ∃ a, m.Gives (.ok a) ∧ (k a).Gives (.error fault) := by
  rcases h.bind_cases with ⟨f, hf, h⟩ | h
  · exact Or.inl (Except.error.inj hf ▸ h)
  · exact Or.inr h

/-! ## Single steps -/

theorem of_pure {a : α} (h : (pure a : Logged α).Gives r) : r = .ok a := by
  obtain ⟨events, h⟩ := h
  exact h.symm

theorem of_except {x : Except Fault α} (h : (liftM x : Logged α).Gives r) : r = x := by
  obtain ⟨events, h⟩ := h
  cases x <;> exact h.symm

theorem of_record {level : Level} {part : Part} {message : String} {r : Except Fault Unit}
    (h : (record level part message).Gives r) : r = .ok () := by
  obtain ⟨events, h⟩ := h
  exact h.symm

/-- A step that may fail and records nothing. -/
theorem except_bind {x : Except Fault α} {r : Except Fault β} (h : (liftM x >>= k).Gives r) :
    (∃ f, r = .error f ∧ x = .error f) ∨ ∃ a, x = .ok a ∧ (k a).Gives r := by
  rcases h.bind_cases with ⟨f, hf, hx⟩ | ⟨a, hx, h⟩
  · exact Or.inl ⟨f, hf, hx.of_except.symm⟩
  · exact Or.inr ⟨a, hx.of_except.symm, h⟩

/-- A step that only records an event. -/
theorem record_bind {level : Level} {part : Part} {message : String} {k : Unit → Logged β}
    {r : Except Fault β} (h : (record level part message >>= k).Gives r) : (k ()).Gives r := by
  rcases h.bind_cases with ⟨f, -, hrecord⟩ | ⟨⟨⟩, -, h⟩
  · cases hrecord.of_record
  · exact h

/-! ## Computations for the members of a list -/

theorem mapM_ok {f : α → Logged β} {l : List α} {l' : List β} (h : (l.mapM f).Gives (.ok l')) :
    List.Forall₂ (fun a b => (f a).Gives (.ok b)) l l' := by
  induction l generalizing l' with
  | nil =>
    obtain rfl := Except.ok.inj h.of_pure
    exact .nil
  | cons a l ih =>
    rw [List.mapM_cons] at h
    obtain ⟨b, ha, h⟩ := h.bind_ok
    obtain ⟨bs, hl, h⟩ := h.bind_ok
    obtain rfl := Except.ok.inj h.of_pure
    exact .cons ha (ih hl)

theorem mapM_error {f : α → Logged β} {l : List α} (h : (l.mapM f).Gives (.error fault)) :
    ∃ a ∈ l, (f a).Gives (.error fault) := by
  induction l with
  | nil => cases h.of_pure
  | cons a l ih =>
    rw [List.mapM_cons] at h
    rcases h.bind_error with ha | ⟨b, -, h⟩
    · exact ⟨a, by simp, ha⟩
    · rcases h.bind_error with hl | ⟨bs, -, h⟩
      · obtain ⟨a', ha', hfault⟩ := ih hl
        exact ⟨a', List.mem_cons_of_mem a ha', hfault⟩
      · cases h.of_pure

/-- What each step of a fold preserves holds at its end; `P` says what holds with a list still ahead. -/
theorem foldlM_ok {f : β → α → Logged β} {P : List α → β → Prop}
    (hstep : ∀ a l b b', P (a :: l) b → (f b a).Gives (.ok b') → P l b') {l : List α} {b b' : β}
    (hb : P l b) (h : (l.foldlM f b).Gives (.ok b')) : P [] b' := by
  induction l generalizing b with
  | nil =>
    obtain rfl := Except.ok.inj h.of_pure
    exact hb
  | cons a l ih =>
    rw [List.foldlM_cons] at h
    obtain ⟨b₁, ha, h⟩ := h.bind_ok
    exact ih (hstep a l b b₁ hb ha) h

theorem foldlM_error {f : β → α → Logged β} {l : List α} {b : β}
    (h : (l.foldlM f b).Gives (.error fault)) : ∃ a ∈ l, ∃ b, (f b a).Gives (.error fault) := by
  induction l generalizing b with
  | nil => cases h.of_pure
  | cons a l ih =>
    rw [List.foldlM_cons] at h
    rcases h.bind_error with ha | ⟨b', -, h⟩
    · exact ⟨a, by simp, b, ha⟩
    · obtain ⟨a', ha', hfault⟩ := ih h
      exact ⟨a', List.mem_cons_of_mem a ha', hfault⟩

theorem forM_error {f : α → Logged Unit} {l : List α} (h : (l.forM f).Gives (.error fault)) :
    ∃ a ∈ l, (f a).Gives (.error fault) := by
  induction l with
  | nil => cases h.of_pure
  | cons a l ih =>
    have h : (f a >>= fun _ => l.forM f).Gives (.error fault) := h
    rcases h.bind_error with ha | ⟨_, -, h⟩
    · exact ⟨a, by simp, ha⟩
    · obtain ⟨a', ha', hfault⟩ := ih h
      exact ⟨a', List.mem_cons_of_mem a ha', hfault⟩

/-- A search that records nothing. -/
theorem of_anyM {f : α → Except Fault Bool} {l : List α} {r : Except Fault Bool}
    (h : (l.anyM fun a => (liftM (f a) : Logged Bool)).Gives r) : r = l.anyM f := by
  induction l with
  | nil => exact h.of_pure
  | cons a l ih =>
    have h : (liftM (f a) >>= fun found => match found with
      | true => pure true
      | false => l.anyM fun a => (liftM (f a) : Logged Bool)).Gives r := h
    have hcons : (a :: l).anyM f = f a >>= fun found => match found with
      | true => pure true
      | false => l.anyM f := rfl
    rw [hcons]
    rcases h.except_bind with ⟨fault, rfl, ha⟩ | ⟨found, ha, h⟩
    · rw [ha]
      rfl
    · rw [ha]
      cases found with
      | true => exact h.of_pure
      | false => exact ih h

end Gives

end RegionLogic.Logged
