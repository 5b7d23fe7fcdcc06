/-!
# Entries in insertion order

A table from names to values is a list of pairs in the order in which the names were first entered.
Names are of any type with decidable equality.
Entering a name again changes its value and keeps its place; a name entered after its removal goes
to the end.

## Main definitions

* `Entries.find?`, `Entries.set`, `Entries.erase`, `Entries.adjust`, `Entries.keys`

## Main results

* `Entries.find?_set`, `Entries.find?_erase`, `Entries.find?_adjust`: the value after each operation
* `Entries.keys_set`, `Entries.keys_erase`, `Entries.keys_adjust`: the names after each operation
* `Entries.adjust_concat`, `Entries.adjust_eq_map`: the entries after a change of one value
* `Entries.foldl_set_of_nodup`: a table into which others are entered
-/

namespace RegionLogic.Entries

variable {κ α : Type}

/-- The names of a table, in order. -/
def keys (t : List (κ × α)) : List κ := t.map (·.1)

@[simp] theorem keys_nil : keys ([] : List (κ × α)) = [] := rfl

@[simp] theorem keys_cons (e : κ × α) (t : List (κ × α)) :
    keys (e :: t) = e.1 :: keys t := rfl

variable [DecidableEq κ]

/-- The value of the first entry named `k`. -/
def find? : List (κ × α) → κ → Option α
  | [], _ => none
  | (k', v) :: t, k => if k' = k then some v else find? t k

/-- Whether an entry is named `k`. -/
def has (t : List (κ × α)) (k : κ) : Bool := (find? t k).isSome

/-- The table in which `k` has the value `v`. -/
def set : List (κ × α) → κ → α → List (κ × α)
  | [], k, v => [(k, v)]
  | (k', v') :: t, k, v => if k' = k then (k, v) :: t else (k', v') :: set t k v

/-- The table without the first entry named `k`. -/
def erase : List (κ × α) → κ → List (κ × α)
  | [], _ => []
  | (k', v) :: t, k => if k' = k then t else (k', v) :: erase t k

/-- The table in which the value of the first entry named `k` is changed by `f`. -/
def adjust : List (κ × α) → κ → (α → α) → List (κ × α)
  | [], _, _ => []
  | (k', v) :: t, k, f => if k' = k then (k', f v) :: t else (k', v) :: adjust t k f

/-! ## The names of a table -/

theorem isSome_find? {t : List (κ × α)} {k : κ} :
    (find? t k).isSome = true ↔ k ∈ keys t := by
  induction t with
  | nil => simp [find?]
  | cons e t ih =>
    by_cases h : e.1 = k
    · simp [find?, h]
    · simp [find?, h, ih, Ne.symm h]

theorem find?_eq_none {t : List (κ × α)} {k : κ} : find? t k = none ↔ k ∉ keys t := by
  rw [← isSome_find?]
  cases find? t k <;> simp

theorem has_iff {t : List (κ × α)} {k : κ} : has t k = true ↔ k ∈ keys t :=
  isSome_find?

theorem mem_of_find? {t : List (κ × α)} {k : κ} {v : α} (h : find? t k = some v) :
    (k, v) ∈ t := by
  induction t with
  | nil => simp [find?] at h
  | cons e t ih =>
    by_cases he : e.1 = k
    · simp only [find?, he, if_true, Option.some.injEq] at h
      subst h he
      simp
    · simp only [find?, he, if_false] at h
      exact List.mem_cons_of_mem _ (ih h)

theorem keys_set (t : List (κ × α)) (k : κ) (v : α) :
    keys (set t k v) = if k ∈ keys t then keys t else keys t ++ [k] := by
  induction t with
  | nil => simp [set]
  | cons e t ih =>
    by_cases h : e.1 = k
    · simp [set, h]
    · by_cases hk : k ∈ keys t <;> simp [set, h, hk, ih, Ne.symm h]

theorem keys_erase (t : List (κ × α)) (k : κ) : keys (erase t k) = (keys t).erase k := by
  induction t with
  | nil => simp [erase]
  | cons e t ih =>
    by_cases h : e.1 = k
    · simp [erase, h]
    · simp [erase, h, ih]

@[simp] theorem keys_adjust (t : List (κ × α)) (k : κ) (f : α → α) :
    keys (adjust t k f) = keys t := by
  induction t with
  | nil => simp [adjust]
  | cons e t ih =>
    by_cases h : e.1 = k
    · simp [adjust, h]
    · simp [adjust, h, ih]

/-! ## The values of a table -/

/-- A table that a function makes of names. -/
theorem find?_map {l : List κ} {f : κ → α} {k : κ} (h : k ∈ l) :
    find? (l.map fun k => (k, f k)) k = some (f k) := by
  induction l with
  | nil => cases h
  | cons k' l ih =>
    by_cases hk : k' = k
    · simp [find?, hk]
    · simp [find?, hk, ih ((List.mem_cons.1 h).resolve_left (Ne.symm hk))]

theorem find?_set (t : List (κ × α)) (k : κ) (v : α) (k' : κ) :
    find? (set t k v) k' = if k = k' then some v else find? t k' := by
  induction t with
  | nil => simp [set, find?]
  | cons e t ih => grind [set, find?]

theorem find?_adjust (t : List (κ × α)) (k : κ) (f : α → α) (k' : κ) :
    find? (adjust t k f) k' = if k = k' then (find? t k').map f else find? t k' := by
  induction t with
  | nil => simp [adjust, find?]
  | cons e t ih => grind [adjust, find?]

theorem find?_erase_of_ne (t : List (κ × α)) {k k' : κ} (h : k ≠ k') :
    find? (erase t k) k' = find? t k' := by
  induction t with
  | nil => simp [erase]
  | cons e t ih => by_cases he : e.1 = k <;> by_cases hk : e.1 = k' <;> simp_all [erase, find?]

theorem find?_erase_self {t : List (κ × α)} (h : (keys t).Nodup) (k : κ) :
    find? (erase t k) k = none := by
  induction t with
  | nil => simp [erase, find?]
  | cons e t ih =>
    rw [keys_cons, List.nodup_cons] at h
    by_cases he : e.1 = k
    · simp only [erase, he, if_true]
      exact find?_eq_none.2 (he ▸ h.1)
    · simp [erase, find?, he, ih h.2]

/-- The only entry of a name has its value. -/
theorem find?_of_mem {t : List (κ × α)} (h : (keys t).Nodup) {e : κ × α} (he : e ∈ t) :
    find? t e.1 = some e.2 := by
  induction t with
  | nil => cases he
  | cons e' t ih =>
    rw [keys_cons, List.nodup_cons] at h
    rcases List.mem_cons.1 he with rfl | he
    · simp [find?]
    · have hne : e'.1 ≠ e.1 := fun h' => h.1 (h' ▸ List.mem_map_of_mem he)
      rw [find?, if_neg hne, ih h.2 he]

/-- Entering the value that a name has changes nothing. -/
theorem set_of_find? {t : List (κ × α)} {k : κ} {v : α} (h : find? t k = some v) : set t k v = t := by
  induction t with
  | nil => cases h
  | cons e t ih =>
    rw [find?] at h
    split at h
    · next he =>
      obtain rfl := Option.some.inj h
      rw [set, if_pos he, ← he]
    · next he => rw [set, if_neg he, ih h]

theorem set_of_not_mem {t : List (κ × α)} {k : κ} {v : α} (h : k ∉ keys t) : set t k v = t ++ [(k, v)] := by
  induction t with
  | nil => rfl
  | cons e t ih =>
    rw [keys_cons, List.mem_cons, not_or] at h
    rw [set, if_neg (Ne.symm h.1), ih h.2]
    rfl

theorem adjust_of_not_mem {t : List (κ × α)} {k : κ} (h : k ∉ keys t) (f : α → α) : adjust t k f = t := by
  induction t with
  | nil => rfl
  | cons e t ih =>
    rw [keys_cons, List.mem_cons, not_or] at h
    rw [adjust, if_neg (Ne.symm h.1), ih h.2]

/-- The last entry is changed if no entry before it has its name. -/
theorem adjust_concat {t : List (κ × α)} {k : κ} (h : k ∉ keys t) (v : α) (f : α → α) :
    adjust (t ++ [(k, v)]) k f = t ++ [(k, f v)] := by
  induction t with
  | nil => simp [adjust]
  | cons e t ih =>
    rw [keys_cons, List.mem_cons, not_or] at h
    rw [List.cons_append, adjust, if_neg (Ne.symm h.1), ih h.2]
    rfl

/-- Where names are different a change of one value is a change of the entries of that name. -/
theorem adjust_eq_map {t : List (κ × α)} (h : (keys t).Nodup) (k : κ) (f : α → α) :
    adjust t k f = t.map fun e => if e.1 = k then (e.1, f e.2) else e := by
  induction t with
  | nil => rfl
  | cons e t ih =>
    rw [keys_cons, List.nodup_cons] at h
    rw [adjust, List.map_cons]
    split
    · next he =>
      have hrest : t.map (fun e => if e.1 = k then (e.1, f e.2) else e) = t := by
        rw [← ih h.2, adjust_of_not_mem (he ▸ h.1)]
      rw [hrest]
    · rw [ih h.2]

/-- Entries with different names are entered one after the other. -/
theorem foldl_set_of_nodup {t l : List (κ × α)} (h : (keys (t ++ l)).Nodup) :
    l.foldl (fun t e => set t e.1 e.2) t = t ++ l := by
  induction l generalizing t with
  | nil => simp
  | cons e l ih =>
    have hnew : e.1 ∉ keys t := by
      intro he
      rw [keys, List.map_append] at h
      exact (List.nodup_append.1 h).2.2 e.1 he e.1 (by simp) rfl
    rw [List.foldl_cons, set_of_not_mem hnew, ih (by simpa using h), List.append_assoc]
    rfl

end RegionLogic.Entries
