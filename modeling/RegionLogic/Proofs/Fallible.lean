import Mathlib.Data.List.Forall2
import RegionLogic.Fault

/-!
# Computations that may fail

A computation of two steps is taken apart: it succeeds if both steps do, and fails with the first step or
with the second one.

## Main results

* `bind_eq_ok`, `bind_eq_error`: how a computation of two steps ends
* `mem_filterM`, `exists_error_of_filterM`: how a selection from a list ends
* `forall₂_of_mapM`, `exists_ok_of_mapM`, `exists_error_of_mapM`: how a computation for every member of a list ends
* `exists_ok_of_foldlM`, `foldlM_eq_ok`, `holds_of_foldlM`: how a computation along a list ends, and what its
  steps preserve
* `exists_of_anyM`, `forall_of_anyM`, `exists_error_of_findM?`: how a search through a list ends
-/

namespace RegionLogic

variable {ε α β : Type} {x : Except ε α} {k : α → Except ε β}

theorem bind_eq_ok {b : β} : x >>= k = .ok b ↔ ∃ a, x = .ok a ∧ k a = .ok b := by
  cases x with
  | error e => exact ⟨by rintro ⟨⟩, by rintro ⟨_, ⟨⟩, _⟩⟩
  | ok a => exact ⟨fun h => ⟨a, rfl, h⟩, by rintro ⟨_, ⟨⟩, h⟩; exact h⟩

theorem bind_eq_error {e : ε} :
    x >>= k = .error e ↔ x = .error e ∨ ∃ a, x = .ok a ∧ k a = .error e := by
  cases x with
  | error e' =>
    constructor
    · exact fun h => Or.inl (congrArg Except.error (Except.error.inj h))
    · rintro (h | ⟨_, h, _⟩)
      · exact congrArg Except.error (Except.error.inj h)
      · cases h
  | ok a =>
    constructor
    · exact fun h => Or.inr ⟨a, rfl, h⟩
    · rintro (h | ⟨_, ha, h⟩)
      · cases h
      · exact Except.ok.inj ha ▸ h

/-! ## Lists with related members -/

section Forall₂

variable {S : α → β → Prop} {l : List α} {m : List β}

theorem exists_left_of_forall₂ (h : List.Forall₂ S l m) {b : β} (hb : b ∈ m) :
    ∃ a ∈ l, S a b := by
  induction h with
  | nil => cases hb
  | cons h _ ih =>
    rcases List.mem_cons.1 hb with rfl | hb
    · exact ⟨_, by simp, h⟩
    · obtain ⟨a, ha, hab⟩ := ih hb
      exact ⟨a, List.mem_cons_of_mem _ ha, hab⟩

theorem exists_right_of_forall₂ (h : List.Forall₂ S l m) {a : α} (ha : a ∈ l) :
    ∃ b ∈ m, S a b := by
  obtain ⟨b, hb, hab⟩ := exists_left_of_forall₂ (S := flip S) h.flip ha
  exact ⟨b, hb, hab⟩

end Forall₂

/-! ## Selecting from a list -/

section FilterM

variable {f : α → Except ε Bool} {l acc kept : List α}

theorem mem_of_filterAuxM (h : l.filterAuxM f acc = .ok kept) {a : α} :
    a ∈ kept ↔ a ∈ acc ∨ a ∈ l ∧ f a = .ok true := by
  induction l generalizing acc with
  | nil => simp [Except.ok.inj h]
  | cons b l ih =>
    obtain ⟨c, hb, h⟩ := bind_eq_ok.1 h
    rw [ih h, List.mem_cons]
    cases c with
    | false =>
      have hne : a = b → ¬f a = .ok true := by
        rintro rfl ha
        rw [hb] at ha
        cases ha
      grind
    | true => grind

/-- The selected members are those for which the test holds. -/
theorem mem_filterM (h : l.filterM f = .ok kept) {a : α} :
    a ∈ kept ↔ a ∈ l ∧ f a = .ok true := by
  obtain ⟨r, hr, hkept⟩ := bind_eq_ok.1 h
  rw [← Except.ok.inj hkept, List.mem_reverse, mem_of_filterAuxM hr]
  simp

/-- Where a selection succeeds the test has succeeded. -/
theorem exists_ok_of_filterAuxM (h : l.filterAuxM f acc = .ok kept) {a : α} (ha : a ∈ l) :
    ∃ c, f a = .ok c := by
  induction l generalizing acc with
  | nil => cases ha
  | cons b l ih =>
    obtain ⟨c, hb, h⟩ := bind_eq_ok.1 h
    rcases List.mem_cons.1 ha with rfl | ha
    · exact ⟨c, hb⟩
    · exact ih h ha

theorem exists_ok_of_filterM (h : l.filterM f = .ok kept) {a : α} (ha : a ∈ l) :
    ∃ c, f a = .ok c := by
  obtain ⟨r, hr, -⟩ := bind_eq_ok.1 h
  exact exists_ok_of_filterAuxM hr ha

theorem exists_error_of_filterAuxM {e : ε} (h : l.filterAuxM f acc = .error e) :
    ∃ a ∈ l, f a = .error e := by
  induction l generalizing acc with
  | nil => cases h
  | cons b l ih =>
    rcases bind_eq_error.1 h with hb | ⟨c, -, h⟩
    · exact ⟨b, by simp, hb⟩
    · obtain ⟨a, ha, he⟩ := ih h
      exact ⟨a, List.mem_cons_of_mem b ha, he⟩

/-- A selection fails where the test does. -/
theorem exists_error_of_filterM {e : ε} (h : l.filterM f = .error e) :
    ∃ a ∈ l, f a = .error e := by
  rcases bind_eq_error.1 h with hr | ⟨r, -, hr⟩
  · exact exists_error_of_filterAuxM hr
  · cases hr

end FilterM

/-- A computation that is repeated for the members of a list fails with one of them. -/
theorem exists_error_of_forM {f : α → Except ε Unit} {l : List α} {e : ε} (h : l.forM f = .error e) :
    ∃ a ∈ l, f a = .error e := by
  induction l with
  | nil => cases h
  | cons a l ih =>
    rcases bind_eq_error.1 h with ha | ⟨_, -, h⟩
    · exact ⟨a, by simp, ha⟩
    · obtain ⟨b, hb, he⟩ := ih h
      exact ⟨b, List.mem_cons_of_mem a hb, he⟩

/-- A computation that is repeated for the members of a list without a failure succeeds for each of them. -/
theorem forall_ok_of_forM {f : α → Except ε Unit} {l : List α} (h : l.forM f = .ok ()) :
    ∀ a ∈ l, f a = .ok () := by
  induction l with
  | nil => simp
  | cons a l ih =>
    obtain ⟨_, ha, h⟩ := bind_eq_ok.1 h
    exact List.forall_mem_cons.2 ⟨ha, ih h⟩

/-- A computation that is carried on through a list fails at one of the members. -/
theorem exists_error_of_foldlM {f : β → α → Except ε β} {l : List α} {b : β} {e : ε}
    (h : l.foldlM f b = .error e) : ∃ a ∈ l, ∃ c, f c a = .error e := by
  induction l generalizing b with
  | nil => cases h
  | cons a l ih =>
    rw [List.foldlM_cons] at h
    rcases bind_eq_error.1 h with ha | ⟨c, -, h⟩
    · exact ⟨a, by simp, b, ha⟩
    · obtain ⟨a', ha', c', he⟩ := ih h
      exact ⟨a', List.mem_cons_of_mem a ha', c', he⟩

/-- A computation that is carried on through a list without a failure succeeds at each of the members. -/
theorem exists_ok_of_foldlM {f : β → α → Except ε β} {l : List α} {b b' : β} (h : l.foldlM f b = .ok b') :
    ∀ a ∈ l, ∃ c c', f c a = .ok c' := by
  induction l generalizing b with
  | nil => simp
  | cons a l ih =>
    rw [List.foldlM_cons] at h
    obtain ⟨c, ha, h⟩ := bind_eq_ok.1 h
    exact List.forall_mem_cons.2 ⟨⟨b, c, ha⟩, ih h⟩

/-- A computation whose steps all succeed as those of another one do. -/
theorem foldlM_eq_ok {f : β → α → Except ε β} {g : β → α → β} {l : List α}
    (h : ∀ a ∈ l, ∀ c, f c a = .ok (g c a)) (b : β) : l.foldlM f b = .ok (l.foldl g b) := by
  induction l generalizing b with
  | nil => rfl
  | cons a l ih =>
    rw [List.foldlM_cons, h a (by simp), List.foldl_cons]
    exact ih (fun a ha => h a (List.mem_cons_of_mem _ ha)) (g b a)

/-- What each step of a computation preserves that is carried on through a list holds at its end. -/
theorem holds_of_foldlM {f : β → α → Except ε β} {P : β → Prop} {l : List α} {b b' : β}
    (hstep : ∀ a ∈ l, ∀ c c', P c → f c a = .ok c' → P c') (hb : P b) (h : l.foldlM f b = .ok b') : P b' := by
  induction l generalizing b with
  | nil =>
    obtain rfl := Except.ok.inj h
    exact hb
  | cons a l ih =>
    rw [List.foldlM_cons] at h
    obtain ⟨c, ha, h⟩ := bind_eq_ok.1 h
    exact ih (fun a ha => hstep a (List.mem_cons_of_mem _ ha)) (hstep a (by simp) b c hb ha) h

/-- A computation for every member of a list gives the values in the same order. -/
theorem forall₂_of_mapM {f : α → Except ε β} {l : List α} {l' : List β} (h : l.mapM f = .ok l') :
    List.Forall₂ (fun a b => f a = .ok b) l l' := by
  induction l generalizing l' with
  | nil =>
    obtain rfl := Except.ok.inj h
    exact .nil
  | cons a l ih =>
    rw [List.mapM_cons] at h
    obtain ⟨b, ha, h⟩ := bind_eq_ok.1 h
    obtain ⟨bs, hl, h⟩ := bind_eq_ok.1 h
    obtain rfl := Except.ok.inj h
    exact .cons ha (ih hl)

/-- A computation that succeeds for every member of a list gives a list of such values. -/
theorem exists_ok_of_mapM {f : α → Except ε β} {S : α → β → Prop} {l : List α}
    (h : ∀ a ∈ l, ∃ b, f a = .ok b ∧ S a b) : ∃ l', l.mapM f = .ok l' ∧ List.Forall₂ S l l' := by
  induction l with
  | nil => exact ⟨[], rfl, .nil⟩
  | cons a l ih =>
    obtain ⟨b, hb, hS⟩ := h a (by simp)
    obtain ⟨l', hl', hall⟩ := ih fun a ha => h a (List.mem_cons_of_mem _ ha)
    refine ⟨b :: l', ?_, .cons hS hall⟩
    rw [List.mapM_cons, hb, hl']
    rfl

theorem exists_error_of_mapM {f : α → Except ε β} {l : List α} {e : ε} (h : l.mapM f = .error e) :
    ∃ a ∈ l, f a = .error e := by
  induction l with
  | nil => cases h
  | cons a l ih =>
    rw [List.mapM_cons] at h
    rcases bind_eq_error.1 h with ha | ⟨b, -, h⟩
    · exact ⟨a, by simp, ha⟩
    · rcases bind_eq_error.1 h with hl | ⟨bs, -, h⟩
      · obtain ⟨a', ha', he⟩ := ih hl
        exact ⟨a', List.mem_cons_of_mem a ha', he⟩
      · cases h

/-! ## Searching a list -/

section AnyM

variable {f : α → Except ε Bool} {l : List α}

theorem exists_of_anyM (h : l.anyM f = .ok true) : ∃ a ∈ l, f a = .ok true := by
  induction l with
  | nil => cases h
  | cons a l ih =>
    obtain ⟨c, ha, h⟩ := bind_eq_ok.1 h
    cases c with
    | true => exact ⟨a, by simp, ha⟩
    | false =>
      obtain ⟨a', ha', h'⟩ := ih h
      exact ⟨a', List.mem_cons_of_mem a ha', h'⟩

theorem forall_of_anyM (h : l.anyM f = .ok false) : ∀ a ∈ l, f a = .ok false := by
  induction l with
  | nil => simp
  | cons a l ih =>
    obtain ⟨c, ha, h⟩ := bind_eq_ok.1 h
    cases c with
    | true => cases h
    | false => exact List.forall_mem_cons.2 ⟨ha, ih h⟩

theorem exists_error_of_anyM {e : ε} (h : l.anyM f = .error e) : ∃ a ∈ l, f a = .error e := by
  induction l with
  | nil => cases h
  | cons a l ih =>
    rcases bind_eq_error.1 h with ha | ⟨c, -, h⟩
    · exact ⟨a, by simp, ha⟩
    · cases c with
      | true => cases h
      | false =>
        obtain ⟨a', ha', he⟩ := ih h
        exact ⟨a', List.mem_cons_of_mem a ha', he⟩

theorem exists_error_of_findM? {e : ε} (h : l.findM? f = .error e) : ∃ a ∈ l, f a = .error e := by
  induction l with
  | nil => cases h
  | cons a l ih =>
    rcases bind_eq_error.1 h with ha | ⟨c, -, h⟩
    · exact ⟨a, by simp, ha⟩
    · cases c with
      | true => cases h
      | false =>
        obtain ⟨a', ha', he⟩ := ih h
        exact ⟨a', List.mem_cons_of_mem a ha', he⟩

end AnyM

end RegionLogic
