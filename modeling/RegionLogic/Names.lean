/-!
# Names in order of arrival

A list of names that grows at its end and holds no name twice.

## Main definitions

* `addOnce`: a list with one more name

## Main results

* `mem_addOnce`, `nodup_addOnce`: what the list holds then
* `mem_foldl_addOnce`, `nodup_foldl_addOnce`, `foldl_addOnce_append`: what it holds after several names
* `eraseDups_concat`, `foldl_addOnce_nil`, `nodup_eraseDups`: a list without repetitions
-/

namespace RegionLogic

variable {α : Type} [DecidableEq α]

/-- The list with `a` at its end, unless it holds `a`. -/
def addOnce (l : List α) (a : α) : List α := if a ∈ l then l else l ++ [a]

theorem addOnce_of_mem {l : List α} {a : α} (h : a ∈ l) : addOnce l a = l := if_pos h

theorem addOnce_of_not_mem {l : List α} {a : α} (h : a ∉ l) : addOnce l a = l ++ [a] :=
  if_neg h

@[simp] theorem mem_addOnce {l : List α} {a b : α} :
    b ∈ addOnce l a ↔ b ∈ l ∨ b = a := by
  by_cases h : a ∈ l
  · rw [addOnce_of_mem h]
    constructor
    · exact Or.inl
    · rintro (hb | rfl)
      · exact hb
      · exact h
  · rw [addOnce_of_not_mem h, List.mem_append, List.mem_singleton]

theorem mem_foldl_addOnce {l m : List α} {a : α} : a ∈ m.foldl addOnce l ↔ a ∈ l ∨ a ∈ m := by
  induction m generalizing l with
  | nil => simp
  | cons b m ih => rw [List.foldl_cons, ih, mem_addOnce, List.mem_cons, or_assoc]

theorem nodup_addOnce {l : List α} {a : α} (h : l.Nodup) : (addOnce l a).Nodup := by
  by_cases ha : a ∈ l
  · rwa [addOnce_of_mem ha]
  · rw [addOnce_of_not_mem ha, List.nodup_append]
    refine ⟨h, by simp, ?_⟩
    intro x hx y hy
    rw [List.mem_singleton] at hy
    rintro rfl
    exact ha (hy ▸ hx)

theorem nodup_foldl_addOnce {l m : List α} (h : l.Nodup) : (m.foldl addOnce l).Nodup := by
  induction m generalizing l with
  | nil => exact h
  | cons b m ih => exact ih (nodup_addOnce h)

/-- Of a list with one more name each name stays where it comes first. -/
theorem eraseDups_concat (l : List α) (a : α) : (l ++ [a]).eraseDups = addOnce l.eraseDups a := by
  rw [List.eraseDups_append]
  unfold addOnce
  simp only [List.mem_eraseDups]
  split
  · next h => simp [List.removeAll, h]
  · next h => simp [List.removeAll, h, List.eraseDups_cons]

theorem foldl_addOnce_eraseDups (l m : List α) : m.foldl addOnce l.eraseDups = (l ++ m).eraseDups := by
  induction m generalizing l with
  | nil => rw [List.foldl_nil, List.append_nil]
  | cons a m ih => rw [List.foldl_cons, ← eraseDups_concat, ih, List.append_assoc, List.singleton_append]

/-- Names that arrive one after the other, each where it comes first. -/
theorem foldl_addOnce_nil (l : List α) : l.foldl addOnce [] = l.eraseDups :=
  foldl_addOnce_eraseDups [] l

theorem nodup_eraseDups (l : List α) : l.eraseDups.Nodup := by
  rw [← foldl_addOnce_nil]
  exact nodup_foldl_addOnce .nil

/-- Of names that are different, those that have not arrived before come behind. -/
theorem foldl_addOnce_append {l m : List α} (h : m.Nodup) :
    m.foldl addOnce l = l ++ m.filter (· ∉ l) := by
  induction m generalizing l with
  | nil => rw [List.foldl_nil, List.filter_nil, List.append_nil]
  | cons a m ih =>
    obtain ⟨ha, hm⟩ := List.nodup_cons.1 h
    rw [List.foldl_cons, ih hm]
    by_cases hal : a ∈ l
    · rw [addOnce_of_mem hal, List.filter_cons_of_neg (by simpa using hal)]
    · rw [addOnce_of_not_mem hal, List.filter_cons_of_pos (by simpa using hal), List.append_assoc,
        List.singleton_append]
      -- none of the names that follow is `a`
      refine congrArg (l ++ a :: ·) (List.filter_congr fun b hb => ?_)
      have hba : b ≠ a := fun hba => ha (hba ▸ hb)
      simp [hba]

/-- Names none of which has arrived before. -/
theorem foldl_addOnce_of_nodup {l m : List α} (h : (l ++ m).Nodup) : m.foldl addOnce l = l ++ m := by
  obtain ⟨-, hm, hne⟩ := List.nodup_append.1 h
  rw [foldl_addOnce_append hm, List.filter_eq_self.2 fun a ha => ?_]
  simpa using fun hal => hne a hal a ha rfl

end RegionLogic
