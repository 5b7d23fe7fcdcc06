import RegionLogic.Name

/-!
# Sets of names

Requirement sets, prefix tables and keep lists are finite sets of names. A set is kept as the
increasing list of its members, so equal sets are equal values, and a set of texts is written without
further sorting.

## Main definitions

* `NameSet`: a finite set of names
* `NameSet.insert`, `NameSet.erase`, `NameSet.filter`, `NameSet.ofList`, and `∪`, `⊆`, `∈`

## Main results

* `NameSet.ext`: sets with the same members are equal
* `NameSet.mem_insert`, `NameSet.mem_union`, `NameSet.mem_filter`, `NameSet.mem_ofList`
-/

namespace RegionLogic

/-- A finite set of names, as the increasing list of its members. -/
structure NameSet where
  /-- The members in increasing order. -/
  toList : List Name
  /-- The members increase strictly. -/
  sorted : toList.Pairwise (· < ·) := by simp
  deriving DecidableEq

namespace NameSet

instance : EmptyCollection NameSet := ⟨{ toList := [] }⟩

instance : Inhabited NameSet := ⟨∅⟩

instance : Membership Name NameSet := ⟨fun s a => a ∈ s.toList⟩

instance (a : Name) (s : NameSet) : Decidable (a ∈ s) :=
  inferInstanceAs (Decidable (a ∈ s.toList))

instance : HasSubset NameSet := ⟨fun s t => ∀ a ∈ s.toList, a ∈ t.toList⟩

instance (s t : NameSet) : Decidable (s ⊆ t) :=
  inferInstanceAs (Decidable (∀ a ∈ s.toList, a ∈ t.toList))

@[simp] theorem mem_toList {a : Name} {s : NameSet} : a ∈ s.toList ↔ a ∈ s := Iff.rfl

@[simp] theorem toList_empty : (∅ : NameSet).toList = [] := rfl

@[simp] theorem not_mem_empty (a : Name) : a ∉ (∅ : NameSet) := List.not_mem_nil

theorem nodup_toList (s : NameSet) : s.toList.Nodup := by
  refine s.sorted.imp ?_
  rintro a _ hlt rfl
  exact Name.lt_irrefl a hlt

theorem subset_iff {s t : NameSet} : s ⊆ t ↔ ∀ a ∈ s, a ∈ t := Iff.rfl

/-- Whether the set has no members. -/
def isEmpty (s : NameSet) : Bool := s.toList.isEmpty

/-! ## Sets with the same members -/

/-- An increasing list is determined by its members. -/
theorem eq_of_sorted : ∀ {l m : List Name}, l.Pairwise (· < ·) → m.Pairwise (· < ·) →
    (∀ a, a ∈ l ↔ a ∈ m) → l = m
  | [], [], _, _, _ => rfl
  | [], b :: m, _, _, h => absurd ((h b).2 (by simp)) (by simp)
  | a :: l, [], _, _, h => absurd ((h a).1 (by simp)) (by simp)
  | a :: l, b :: m, hl, hm, h => by
    rw [List.pairwise_cons] at hl hm
    have hab : a = b := by
      rcases List.mem_cons.1 ((h a).1 (by simp)) with h₁ | h₁
      · exact h₁
      · rcases List.mem_cons.1 ((h b).2 (by simp)) with h₂ | h₂
        · exact h₂.symm
        · exact absurd (hl.1 b h₂) (Name.lt_asymm (hm.1 a h₁))
    subst hab
    rw [eq_of_sorted hl.2 hm.2 fun c => ?_]
    constructor <;> intro hc
    · rcases List.mem_cons.1 ((h c).1 (List.mem_cons_of_mem _ hc)) with rfl | hc'
      · exact absurd (hl.1 _ hc) (Name.lt_irrefl _)
      · exact hc'
    · rcases List.mem_cons.1 ((h c).2 (List.mem_cons_of_mem _ hc)) with rfl | hc'
      · exact absurd (hm.1 _ hc) (Name.lt_irrefl _)
      · exact hc'

/-- Sets with the same members are equal. -/
@[ext] theorem ext {s t : NameSet} (h : ∀ a, a ∈ s ↔ a ∈ t) : s = t := by
  obtain ⟨l, hl⟩ := s
  obtain ⟨m, hm⟩ := t
  congr
  exact eq_of_sorted hl hm h

/-! ## Insertion -/

/-- The increasing list `l` with `a` put in its place, unless it is there. -/
def insertSorted (a : Name) : List Name → List Name
  | [] => [a]
  | b :: l => if a < b then a :: b :: l else if a = b then b :: l else b :: insertSorted a l

theorem mem_insertSorted {a c : Name} {l : List Name} :
    c ∈ insertSorted a l ↔ c = a ∨ c ∈ l := by
  induction l with
  | nil => simp [insertSorted]
  | cons b l ih => grind [insertSorted]

theorem sorted_insertSorted {a : Name} {l : List Name} (h : l.Pairwise (· < ·)) :
    (insertSorted a l).Pairwise (· < ·) := by
  induction l with
  | nil => simp [insertSorted]
  | cons b l ih =>
    rw [List.pairwise_cons] at h
    unfold insertSorted
    split
    · rename_i hab
      refine List.pairwise_cons.2 ⟨fun c hc => ?_, List.pairwise_cons.2 h⟩
      rcases List.mem_cons.1 hc with rfl | hc
      · exact hab
      · exact Name.lt_trans hab (h.1 c hc)
    · split
      · exact List.pairwise_cons.2 h
      · rename_i hab hne
        refine List.pairwise_cons.2 ⟨fun c hc => ?_, ih h.2⟩
        rcases mem_insertSorted.1 hc with rfl | hc
        · rcases Name.lt_trichotomy b c with h₁ | h₁ | h₁
          · exact h₁
          · exact absurd h₁.symm hne
          · exact absurd h₁ hab
        · exact h.1 c hc

/-- The set with one more member. -/
protected def insert (a : Name) (s : NameSet) : NameSet where
  toList := insertSorted a s.toList
  sorted := sorted_insertSorted s.sorted

instance : Insert Name NameSet := ⟨NameSet.insert⟩

instance : Singleton Name NameSet := ⟨fun a => NameSet.insert a ∅⟩

@[simp] theorem mem_insert {a c : Name} {s : NameSet} : c ∈ insert a s ↔ c = a ∨ c ∈ s :=
  mem_insertSorted

@[simp] theorem mem_singleton {a c : Name} : c ∈ ({a} : NameSet) ↔ c = a := by
  show c ∈ insert a (∅ : NameSet) ↔ c = a
  simp

/-- The set of the members of a list. -/
def ofList (l : List Name) : NameSet := l.foldr insert ∅

@[simp] theorem mem_ofList {a : Name} {l : List Name} : a ∈ ofList l ↔ a ∈ l := by
  induction l with
  | nil => simp [ofList]
  | cons b l ih =>
    have h : ofList (b :: l) = insert b (ofList l) := rfl
    simp [h, ih]

/-! ## Union, selection and removal -/

instance : Union NameSet := ⟨fun s t => s.toList.foldr insert t⟩

@[simp] theorem mem_union {a : Name} {s t : NameSet} : a ∈ s ∪ t ↔ a ∈ s ∨ a ∈ t := by
  have h : ∀ l : List Name, a ∈ l.foldr insert t ↔ a ∈ l ∨ a ∈ t := by
    intro l
    induction l with
    | nil => simp
    | cons b l ih => simp [ih, or_assoc]
  exact h s.toList

/-- The members that satisfy `p`. -/
def filter (p : Name → Bool) (s : NameSet) : NameSet where
  toList := s.toList.filter p
  sorted := s.sorted.filter p

@[simp] theorem mem_filter {p : Name → Bool} {a : Name} {s : NameSet} :
    a ∈ s.filter p ↔ a ∈ s ∧ p a = true :=
  List.mem_filter

/-- The set without one member. -/
def erase (s : NameSet) (a : Name) : NameSet := s.filter (· != a)

@[simp] theorem mem_erase {a c : Name} {s : NameSet} : c ∈ s.erase a ↔ c ∈ s ∧ c ≠ a := by
  simp [erase]

instance : SDiff NameSet := ⟨fun s t => s.filter (· ∉ t)⟩

@[simp] theorem mem_sdiff {a : Name} {s t : NameSet} : a ∈ s \ t ↔ a ∈ s ∧ a ∉ t := by
  show a ∈ s.filter (· ∉ t) ↔ _
  simp

instance : Inter NameSet := ⟨fun s t => s.filter (· ∈ t)⟩

@[simp] theorem mem_inter {a : Name} {s t : NameSet} : a ∈ s ∩ t ↔ a ∈ s ∧ a ∈ t := by
  show a ∈ s.filter (· ∈ t) ↔ _
  simp

end NameSet

end RegionLogic
