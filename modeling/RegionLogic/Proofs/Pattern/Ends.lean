import Mathlib.Data.List.Induction
import RegionLogic.Pattern.Reader

/-!
# Where sequences and alternatives end

A sequence ends where its last item ends after those before it, and one of several alternatives ends where some
of them does. Both come from lists: the items of a sequence are kept last first, and alternatives are joined
from the first on. Anchors at the two ends of a sequence only narrow where it begins and where it ends.

## Main definitions

* `Pattern.joined`: one of several alternatives
* `Pattern.matchesLine`: a stretch from the start of the text to its end, or to a newline that ends it

## Main results

* `mem_distinct`: no place is lost where places that occur earlier are left out
* `ends_sequence_append`, `referred_sequence_append`, `keepGroups_sequence`: sequences in two parts
* `mem_ends_joined`, `referred_joined`, `keepGroups_joined`: one of several alternatives
* `endsFromStart_sequence_start`, `endsFromStart_sequence_finish`: what anchors do
* `matchesStart_joined`, `matchesWhole_joined`: the names that one of several alternatives matches
-/

namespace RegionLogic.Pattern

variable {text : Array Char} {s t : Place} {l : List Place} {p q : Pattern} {ps : List Pattern}

/-! ## Places that occur earlier -/

/-- Whatever is found at a position is found. -/
def Found.Sound (f : Found) : Prop := ∀ s, f.has s = true → s ∈ f.places

theorem Found.Sound.add {f : Found} (h : f.Sound) (s : Place) : (f.add s).Sound := by
  unfold Found.add
  split
  · exact h
  · intro t ht
    have hmodify : t ∈ ((f.placesAt.modify s.offset (s :: ·))[t.offset]?).getD [] := by
      simpa [Found.has, Array.getD_eq_getD_getElem?] using ht
    rw [Array.getElem?_modify] at hmodify
    have hold : t ∈ (f.placesAt[t.offset]?).getD [] → t ∈ f.places := fun hold =>
      h t (by simpa [Found.has, Array.getD_eq_getD_getElem?] using hold)
    -- the places at one position are changed, and the others are as before
    split at hmodify
    · cases hplaces : f.placesAt[t.offset]? with
      | none => simp [hplaces] at hmodify
      | some places =>
        rw [hplaces] at hmodify hold
        rcases List.mem_cons.1 hmodify with rfl | hmem
        · exact List.mem_cons_self
        · exact List.mem_cons_of_mem _ (hold hmem)
    · exact List.mem_cons_of_mem _ (hold hmodify)

theorem Found.mem_places_add {f : Found} (h : f.Sound) : t ∈ (f.add s).places ↔ t = s ∨ t ∈ f.places := by
  unfold Found.add
  split
  · next hs =>
    refine ⟨Or.inr, ?_⟩
    rintro (rfl | ht)
    · exact h _ hs
    · exact ht
  · exact List.mem_cons

theorem Found.mem_places_foldl {f : Found} (h : f.Sound) :
    t ∈ (l.foldl Found.add f).places ↔ t ∈ l ∨ t ∈ f.places := by
  induction l generalizing f with
  | nil => simp
  | cons s l ih =>
    rw [List.foldl_cons, ih (h.add s), mem_places_add h, List.mem_cons]
    tauto

theorem mem_distinct {size : Nat} : t ∈ distinct size l ↔ t ∈ l := by
  have hnothing : (Found.nothing size).Sound := by
    intro s hs
    simp [Found.has, Found.nothing, Array.getD_eq_getD_getElem?, Array.getElem?_replicate] at hs
    grind
  unfold distinct
  split
  · rfl
  · rfl
  -- only here is there anything to be left out
  · rw [List.mem_reverse, Found.mem_places_foldl hnothing]
    simp [Found.nothing]

/-! ## Sequences -/

section Sequences

variable {a b : List Item} {i : Item}

theorem sequence_concat (a : List Item) (i : Item) :
    sequence (a ++ [i]) = if a = [] then i.pattern else .seq i.pattern (sequence a) := by
  cases a with
  | nil => rfl
  | cons j a => simp [sequence, List.foldl_append]

/-- What comes later in the text stands first among the items. -/
theorem ends_sequence_append (a b : List Item) (l : List Place) :
    (sequence (a ++ b)).ends text l = (sequence a).ends text ((sequence b).ends text l) := by
  induction b using List.reverseRecOn generalizing l with
  | nil => rw [List.append_nil, sequence, ends]
  | append_singleton b i ih =>
    have hconcat (a : List Item) (l : List Place) :
        (sequence (a ++ [i])).ends text l = (sequence a).ends text (i.pattern.ends text l) := by
      rw [sequence_concat]
      split
      · next ha => rw [ha, sequence, ends]
      · rw [ends]
    rw [← List.append_assoc, hconcat, ih, hconcat]

theorem referred_sequence_append (a b : List Item) :
    (sequence (a ++ b)).referred = (sequence b).referred ++ (sequence a).referred := by
  induction b using List.reverseRecOn with
  | nil => rw [List.append_nil]; rfl
  | append_singleton b i ih =>
    have hconcat (a : List Item) :
        (sequence (a ++ [i])).referred = i.pattern.referred ++ (sequence a).referred := by
      rw [sequence_concat]
      split
      · next ha => rw [ha]; exact (List.append_nil _).symm
      · rfl
    rw [← List.append_assoc, hconcat, ih, hconcat, List.append_assoc]

/-- The item in which only groups with the given numbers are kept. -/
def Item.keepGroups (numbers : List Nat) (i : Item) : Item :=
  { i with pattern := i.pattern.keepGroups numbers }

theorem keepGroups_sequence (numbers : List Nat) (a : List Item) :
    (sequence a).keepGroups numbers = sequence (a.map (·.keepGroups numbers)) := by
  induction a using List.reverseRecOn with
  | nil => rfl
  | append_singleton a i ih =>
    rw [List.map_append, List.map_singleton, sequence_concat, sequence_concat]
    by_cases ha : a = []
    · rw [if_pos ha, if_pos (List.map_eq_nil_iff.2 ha)]
      rfl
    · rw [if_neg ha, if_neg (mt List.map_eq_nil_iff.1 ha), Pattern.keepGroups, ih]
      rfl

/-! ## Anchors -/

/-- The start of the text is where every match begins. -/
theorem endsFromStart_sequence_start (a : List Item) (eachLine : Bool) (s : String) :
    (sequence (a ++ [⟨.edge, .start eachLine⟩])).endsFromStart s = (sequence a).endsFromStart s := by
  rw [endsFromStart, ends_sequence_append]
  rfl

/-- The end of the line is where a match has to end. -/
theorem endsFromStart_sequence_finish (a : List Item) (eachLine : Bool) (s : String) :
    (sequence (⟨.edge, .finish eachLine⟩ :: a)).endsFromStart s =
      ((sequence a).endsFromStart s).filter fun t => isFinish s.toList.toArray eachLine t.offset := by
  rw [endsFromStart, ← List.singleton_append, ends_sequence_append]
  rfl

end Sequences

/-! ## Alternatives -/

/-- One of several alternatives. -/
def joined : List Pattern → Pattern
  | [] => .empty
  | [p] => p
  | p :: ps => .alt p (joined ps)

theorem joined_cons (p : Pattern) (h : ps ≠ []) : joined (p :: ps) = .alt p (joined ps) := by
  cases ps with
  | nil => exact absurd rfl h
  | cons q ps => rfl

theorem mem_ends_joined (h : ps ≠ []) : t ∈ (joined ps).ends text [s] ↔ ∃ p ∈ ps, t ∈ p.ends text [s] := by
  induction ps with
  | nil => exact absurd rfl h
  | cons p ps ih =>
    by_cases hps : ps = []
    · simp [hps, joined]
    · rw [joined_cons p hps, ends, mem_distinct, List.flatMap_singleton, List.mem_append, ih hps]
      simp

theorem referred_joined (ps : List Pattern) : (joined ps).referred = ps.flatMap referred := by
  induction ps with
  | nil => rfl
  | cons p ps ih =>
    by_cases hps : ps = []
    · simp [hps, joined]
    · rw [joined_cons p hps, referred, ih, List.flatMap_cons]

theorem keepGroups_joined (numbers : List Nat) (ps : List Pattern) :
    (joined ps).keepGroups numbers = joined (ps.map (·.keepGroups numbers)) := by
  induction ps with
  | nil => rfl
  | cons p ps ih =>
    by_cases hps : ps = []
    · simp [hps, joined]
    · rw [joined_cons p hps, Pattern.keepGroups, ih, List.map_cons, joined_cons _ (by simpa using hps)]

/-! ## Matches -/

variable {name : String}

/-- A stretch from the start of the text to its end or to a newline that ends it is matched. -/
def matchesLine (p : Pattern) (s : String) : Bool :=
  (p.endsFromStart s).any fun t => isFinish s.toList.toArray false t.offset

theorem matchesStart_iff : p.matchesStart name = true ↔ ∃ t, t ∈ p.endsFromStart name := by
  rw [matchesStart, Bool.not_eq_true', List.isEmpty_eq_false_iff_exists_mem]

theorem matchesStart_joined (h : ps ≠ []) :
    (joined ps).matchesStart name = true ↔ ∃ p ∈ ps, p.matchesStart name = true := by
  simp only [matchesStart_iff, endsFromStart, mem_ends_joined h]
  exact ⟨fun ⟨t, p, hp, ht⟩ => ⟨p, hp, t, ht⟩, fun ⟨p, hp, t, ht⟩ => ⟨t, p, hp, ht⟩⟩

theorem matchesWhole_joined (h : ps ≠ []) :
    (joined ps).matchesWhole name = true ↔ ∃ p ∈ ps, p.matchesWhole name = true := by
  simp only [matchesWhole, List.any_eq_true, endsFromStart, mem_ends_joined h]
  exact ⟨fun ⟨t, ⟨p, hp, ht⟩, hend⟩ => ⟨p, hp, t, ht, hend⟩,
    fun ⟨p, hp, t, ht, hend⟩ => ⟨t, ⟨p, hp, ht⟩, hend⟩⟩

theorem matchesStart_sequence_start (a : List Item) (eachLine : Bool) :
    (sequence (a ++ [⟨.edge, .start eachLine⟩])).matchesStart name = (sequence a).matchesStart name := by
  rw [matchesStart, endsFromStart_sequence_start, matchesStart]

/-- What ends with the line is matched from the start if all of the line is. -/
theorem matchesStart_sequence_finish (a : List Item) :
    (sequence (⟨.edge, .finish false⟩ :: a)).matchesStart name = (sequence a).matchesLine name := by
  rw [Bool.eq_iff_iff, matchesStart_iff, endsFromStart_sequence_finish, matchesLine, List.any_eq_true]
  simp only [List.mem_filter]

/-- A match of all of the line begins at its start. -/
theorem matchesLine_sequence_start (a : List Item) (eachLine : Bool) :
    (sequence (a ++ [⟨.edge, .start eachLine⟩])).matchesLine name = (sequence a).matchesLine name := by
  rw [matchesLine, endsFromStart_sequence_start, matchesLine]

theorem matchesStart_of_matchesWhole (h : p.matchesWhole name = true) : p.matchesStart name = true := by
  obtain ⟨t, ht, -⟩ := List.any_eq_true.1 h
  exact matchesStart_iff.2 ⟨t, ht⟩

/-- The whole text is a line. -/
theorem matchesLine_of_matchesWhole (h : p.matchesWhole name = true) : p.matchesLine name = true := by
  obtain ⟨t, ht, hend⟩ := List.any_eq_true.1 h
  refine List.any_eq_true.2 ⟨t, ht, ?_⟩
  have hend : t.offset = name.toList.length := of_decide_eq_true hend
  simp [isFinish, hend]

/-- Where no newline ends the text, its line is the whole of it. -/
theorem matchesWhole_of_matchesLine (hname : name.toList.getLast? ≠ some '\n')
    (h : p.matchesLine name = true) : p.matchesWhole name = true := by
  obtain ⟨t, ht, hend⟩ := List.any_eq_true.1 h
  refine List.any_eq_true.2 ⟨t, ht, decide_eq_true ?_⟩
  unfold isFinish at hend
  rcases Bool.or_eq_true_iff.1 hend with hsize | hnewline
  · exact of_decide_eq_true hsize
  -- a newline is the last character
  · simp only [Bool.false_or, Bool.and_eq_true, decide_eq_true_eq, List.getElem?_toArray,
      List.size_toArray] at hnewline
    obtain ⟨hchar, hlast⟩ := hnewline
    refine absurd ?_ hname
    rw [List.getLast?_eq_getElem?, ← hlast, Nat.add_sub_cancel]
    exact hchar

end RegionLogic.Pattern
