import RegionLogic.Proofs.Fallible
import RegionLogic.Proofs.Text.LowerCase
import RegionLogic.Settings.Environment

/-!
# What the text of a variable is taken for

A text is a truth value if it is one of two words, whatever the case of its letters; it is a list or a table if
it begins with the bracket of one and is JSON. What begins with a bracket and is no JSON is a plain text like
any other, unless it holds something too large to be read. No text is taken for two of these, and an integer is
always a plain text.

## Main definitions

* `IsTruth`, `IsList`, `IsTable`, `IsTooLarge`, `IsPlain`: what a text is taken for
* `Taken`: the same with what is read

## Main results

* `taken_readValue`: what is read is what the text is taken for
* `isPlain_of_readInteger`: integers are plain texts
-/

namespace RegionLogic.Json

/-- A list that is read from its items on is a list. -/
theorem exists_arr_of_readItems {fuel room : Nat} {seen : List Json} {cs rest : List Char} {v : Json}
    (h : readItems fuel room seen cs = .ok (v, rest)) : ∃ items, v = .arr items := by
  induction fuel generalizing seen cs with
  | zero => cases h
  | succ fuel ih =>
    rw [readItems] at h
    obtain ⟨⟨item, after⟩, -, h⟩ := bind_eq_ok.1 h
    dsimp only at h
    split at h
    · cases h
      exact ⟨_, rfl⟩
    · exact ih h
    · cases h

/-- A table that is read from its fields on is a table. -/
theorem exists_obj_of_readFields {fuel room : Nat} {seen : List (String × Json)} {cs rest : List Char}
    {v : Json} (h : readFields fuel room seen cs = .ok (v, rest)) : ∃ fields, v = .obj fields := by
  induction fuel generalizing seen cs with
  | zero => cases h
  | succ fuel ih =>
    unfold readFields at h
    split at h
    · obtain ⟨⟨k, after⟩, -, h⟩ := bind_eq_ok.1 h
      dsimp only at h
      split at h
      · obtain ⟨⟨field, last⟩, -, h⟩ := bind_eq_ok.1 h
        dsimp only at h
        split at h
        · cases h
          exact ⟨_, rfl⟩
        · exact ih h
        · cases h
      · cases h
    · cases h

/-- The value at the head of a text that can be read. -/
theorem exists_readValue_of_read {s : String} {v : Json} (h : Json.read s = .ok v) :
    ∃ fuel room rest, readValue fuel room (skipBlanks s.toList) = .ok (v, rest) := by
  unfold Json.read at h
  dsimp only at h
  split at h
  · cases h
  · split at h
    · cases h
    · cases h
    · split at h
      · cases h
        exact ⟨_, _, _, ‹_›⟩
      · cases h

theorem exists_arr_of_readValue {fuel room : Nat} {cs rest : List Char} {v : Json}
    (h : readValue fuel room ('[' :: cs) = .ok (v, rest)) : ∃ items, v = .arr items := by
  cases fuel with
  | zero => cases h
  | succ fuel =>
    cases room with
    | zero => cases h
    | succ room =>
      simp only [readValue] at h
      split at h
      · cases h
        exact ⟨_, rfl⟩
      · exact exists_arr_of_readItems h

theorem exists_obj_of_readValue {fuel room : Nat} {cs rest : List Char} {v : Json}
    (h : readValue fuel room ('\x7b' :: cs) = .ok (v, rest)) : ∃ fields, v = .obj fields := by
  cases fuel with
  | zero => cases h
  | succ fuel =>
    cases room with
    | zero => cases h
    | succ room =>
      simp only [readValue] at h
      split at h
      · cases h
        exact ⟨_, rfl⟩
      · exact exists_obj_of_readFields h

/-- A JSON text that begins with the bracket of a list is a list. -/
theorem exists_arr_of_read {s : String} {v : Json} (hs : s.toList.head? = some '[') (h : Json.read s = .ok v) :
    ∃ items, v = .arr items := by
  obtain ⟨cs, hcs⟩ := List.head?_eq_some_iff.1 hs
  obtain ⟨fuel, room, rest, h⟩ := exists_readValue_of_read h
  have hvalue : readValue fuel room ('[' :: cs) = .ok (v, rest) := by
    rw [hcs] at h
    exact h
  exact exists_arr_of_readValue hvalue

/-- A JSON text that begins with the bracket of a table is a table. -/
theorem exists_obj_of_read {s : String} {v : Json} (hs : s.toList.head? = some '\x7b')
    (h : Json.read s = .ok v) : ∃ fields, v = .obj fields := by
  obtain ⟨cs, hcs⟩ := List.head?_eq_some_iff.1 hs
  obtain ⟨fuel, room, rest, h⟩ := exists_readValue_of_read h
  have hvalue : readValue fuel room ('\x7b' :: cs) = .ok (v, rest) := by
    rw [hcs] at h
    exact h
  exact exists_obj_of_readValue hvalue

end RegionLogic.Json

namespace RegionLogic

/-! ## Integers -/

theorem Text.readSigned?_eq_none {c : Char} (hsign : c ≠ '-' ∧ c ≠ '+') (hdigit : digitValue? c = none)
    (cs : List Char) : readSigned? (c :: cs) = none := by
  have hdigits : readDigits? (c :: cs) = none := by
    rw [readDigits?, hdigit]
    rfl
  unfold readSigned?
  split
  · next h => exact absurd (List.cons_eq_cons.1 h).1 hsign.1
  · next h => exact absurd (List.cons_eq_cons.1 h).1 hsign.2
  · rw [hdigits]
    rfl

/-- A text that begins with neither a blank nor a sign nor a digit denotes no integer. -/
theorem Text.readInteger_ne_ok {s : String} {c : Char} (hs : s.toList.head? = some c)
    (hblank : isIntegerBlank c = false) (hsign : c ≠ '-' ∧ c ≠ '+') (hdigit : digitValue? c = none)
    (n : Int) : readInteger s ≠ .ok n := by
  obtain ⟨cs, hcs⟩ := List.head?_eq_some_iff.1 hs
  have hstripped : ∃ rest,
      ((s.toList.dropWhile isIntegerBlank).reverse.dropWhile isIntegerBlank).reverse = c :: rest := by
    rw [hcs, List.dropWhile_cons_of_neg (by simp [hblank]), List.reverse_cons, List.dropWhile_append]
    split
    · exact ⟨[], by simp [hblank]⟩
    · exact ⟨_, List.reverse_concat ..⟩
  obtain ⟨rest, hrest⟩ := hstripped
  unfold readInteger
  dsimp only
  rw [hrest, readSigned?_eq_none hsign hdigit]
  split <;> nofun

namespace Settings

/-! ## What a text is taken for -/

/-- The text is a truth word, whatever the case of its letters. -/
def IsTruth (s : String) : Prop :=
  s.toList.map Char.toLower = "true".toList ∨ s.toList.map Char.toLower = "false".toList

/-- The text begins with the bracket of a list and is JSON. -/
def IsList (s : String) : Prop := s.toList.head? = some '[' ∧ ∃ v, Json.read s = .ok v

/-- The text begins with the bracket of a table and is JSON. -/
def IsTable (s : String) : Prop := s.toList.head? = some '\x7b' ∧ ∃ v, Json.read s = .ok v

/-- The text begins with the bracket of a list or a table and holds something too large to be read. -/
def IsTooLarge (s : String) (cause : Json.Excess) : Prop :=
  (s.toList.head? = some '[' ∨ s.toList.head? = some '\x7b') ∧ Json.read s = .error (.excess cause)

/-- The text is nothing but a text. -/
def IsPlain (s : String) : Prop :=
  ¬IsTruth s ∧ ¬IsList s ∧ ¬IsTable s ∧ ∀ cause, ¬IsTooLarge s cause

variable {s : String}

theorem isTruth_iff : IsTruth s ↔ Text.lower s = "true" ∨ Text.lower s = "false" :=
  or_congr (Text.lower_eq_iff (by decide) s).symm (Text.lower_eq_iff (by decide) s).symm

theorem IsTruth.exists_head (h : IsTruth s) :
    ∃ c, s.toList.head? = some c ∧ (c.toLower = 't' ∨ c.toLower = 'f') := by
  have hhead {word : List Char} (hword : s.toList.map Char.toLower = word) :
      s.toList.head?.map Char.toLower = word.head? := by
    rw [← hword, List.head?_map]
  rcases h with h | h
  · obtain ⟨c, hc, hlower⟩ := Option.map_eq_some_iff.1 (hhead h)
    exact ⟨c, hc, .inl hlower⟩
  · obtain ⟨c, hc, hlower⟩ := Option.map_eq_some_iff.1 (hhead h)
    exact ⟨c, hc, .inr hlower⟩

/-- What begins with a bracket is no truth word. -/
theorem not_isTruth_of_bracket (h : s.toList.head? = some '[' ∨ s.toList.head? = some '\x7b') :
    ¬IsTruth s := by
  intro htruth
  obtain ⟨c, hc, hlower⟩ := htruth.exists_head
  rw [hc, Option.some.injEq, Option.some.injEq] at h
  rcases h with rfl | rfl
  · revert hlower; decide
  · revert hlower; decide

theorem readValue_of_isTruth (h : IsTruth s) : ∃ b, readValue s = .ok (.bool b) := by
  rw [isTruth_iff] at h
  unfold readValue
  dsimp only
  split
  · exact ⟨true, rfl⟩
  · next hne => exact ⟨false, if_pos (h.resolve_left hne)⟩

/-- Of a text that is no truth word only the beginning decides whether it is read as JSON. -/
theorem readValue_of_not_isTruth (h : ¬IsTruth s) : readValue s =
    if s.toList.head? = some '[' ∨ s.toList.head? = some '\x7b' then
      match Json.read s with
      | .ok v => .ok v
      | .error (.malformed _) => .ok (.str s)
      | .error (.excess cause) => .error (.excess cause)
    else .ok (.str s) := by
  rw [isTruth_iff, not_or] at h
  unfold readValue
  dsimp only
  rw [if_neg h.1, if_neg h.2]
  split
  · next hs => exact (if_pos (.inl hs)).symm
  · next hs => exact (if_pos (.inr hs)).symm
  · next h1 h2 => rw [if_neg (not_or.2 ⟨h1, h2⟩)]

theorem readValue_of_isList (h : IsList s) : ∃ items, readValue s = .ok (.arr items) := by
  obtain ⟨hs, v, hv⟩ := h
  obtain ⟨items, rfl⟩ := Json.exists_arr_of_read hs hv
  rw [readValue_of_not_isTruth (not_isTruth_of_bracket (.inl hs)), if_pos (.inl hs), hv]
  exact ⟨items, rfl⟩

theorem readValue_of_isTable (h : IsTable s) : ∃ fields, readValue s = .ok (.obj fields) := by
  obtain ⟨hs, v, hv⟩ := h
  obtain ⟨fields, rfl⟩ := Json.exists_obj_of_read hs hv
  rw [readValue_of_not_isTruth (not_isTruth_of_bracket (.inr hs)), if_pos (.inr hs), hv]
  exact ⟨fields, rfl⟩

theorem readValue_of_isTooLarge {cause : Json.Excess} (h : IsTooLarge s cause) :
    readValue s = .error (.excess cause) := by
  rw [readValue_of_not_isTruth (not_isTruth_of_bracket h.1), if_pos h.1, h.2]

theorem readValue_of_isPlain (h : IsPlain s) : readValue s = .ok (.str s) := by
  obtain ⟨htruth, hlist, htable, hlarge⟩ := h
  rw [readValue_of_not_isTruth htruth]
  split
  · next hs =>
    split
    · next v hv =>
      exact (hs.elim (fun hs => hlist ⟨hs, v, hv⟩) fun hs => htable ⟨hs, v, hv⟩).elim
    · rfl
    · next cause hv => exact absurd ⟨hs, hv⟩ (hlarge cause)
  · rfl

/-- What a text is taken for, and what is read then. -/
inductive Taken (s : String) : Except Fault Json → Prop
  | truth (h : IsTruth s) (b : Bool) : Taken s (.ok (.bool b))
  | list (h : IsList s) (items : List Json) : Taken s (.ok (.arr items))
  | table (h : IsTable s) (fields : List (String × Json)) : Taken s (.ok (.obj fields))
  | tooLarge {cause : Json.Excess} (h : IsTooLarge s cause) : Taken s (.error (.excess cause))
  | plain (h : IsPlain s) : Taken s (.ok (.str s))

/-- What is read is what the text is taken for. -/
theorem taken_readValue (s : String) : Taken s (readValue s) := by
  by_cases htruth : IsTruth s
  · obtain ⟨b, hb⟩ := readValue_of_isTruth htruth
    exact hb ▸ .truth htruth b
  by_cases hlist : IsList s
  · obtain ⟨items, hitems⟩ := readValue_of_isList hlist
    exact hitems ▸ .list hlist items
  by_cases htable : IsTable s
  · obtain ⟨fields, hfields⟩ := readValue_of_isTable htable
    exact hfields ▸ .table htable fields
  by_cases hlarge : ∃ cause, IsTooLarge s cause
  · obtain ⟨cause, hlarge⟩ := hlarge
    exact readValue_of_isTooLarge hlarge ▸ .tooLarge hlarge
  · have hplain : IsPlain s := ⟨htruth, hlist, htable, not_exists.1 hlarge⟩
    exact readValue_of_isPlain hplain ▸ .plain hplain

theorem isPlain_of_readValue {t : String} (h : readValue s = .ok (.str t)) : IsPlain s ∧ t = s := by
  have htaken := taken_readValue s
  rw [h] at htaken
  cases htaken with
  | plain hs => exact ⟨hs, rfl⟩

/-- Only what is too large cannot be read. -/
theorem exists_isTooLarge_of_readValue {fault : Fault} (h : readValue s = .error fault) :
    ∃ cause, IsTooLarge s cause ∧ fault = .excess cause := by
  have htaken := taken_readValue s
  rw [h] at htaken
  cases htaken with
  | tooLarge hs => exact ⟨_, hs, rfl⟩

/-- A text is taken for one thing only. -/
theorem taken_unique : (IsTruth s → ¬IsList s ∧ ¬IsTable s) ∧ (IsList s → ¬IsTable s) := by
  refine ⟨fun htruth => ⟨fun hlist => ?_, fun htable => ?_⟩, fun hlist htable => ?_⟩
  · exact not_isTruth_of_bracket (.inl hlist.1) htruth
  · exact not_isTruth_of_bracket (.inr htable.1) htruth
  · cases hlist.1.symm.trans htable.1

/-- The letters that truth words begin with. -/
theorem eq_of_toLower {c : Char} (h : c.toLower = 't' ∨ c.toLower = 'f') :
    c = 't' ∨ c = 'T' ∨ c = 'f' ∨ c = 'F' := by
  have hascii : c.toNat < 128 := by
    by_contra hc
    rw [Text.toLower_of_le (Nat.not_lt.1 hc)] at h
    rcases h with rfl | rfl <;> exact hc (by decide)
  exact Text.forall_ascii
    (P := fun c => c.toLower = 't' ∨ c.toLower = 'f' → c = 't' ∨ c = 'T' ∨ c = 'f' ∨ c = 'F')
    (by decide) hascii h

/-- A truth word denotes no integer. -/
theorem IsTruth.readInteger_ne_ok (h : IsTruth s) (n : Int) : Text.readInteger s ≠ .ok n := by
  obtain ⟨c, hc, hlower⟩ := h.exists_head
  rcases eq_of_toLower hlower with rfl | rfl | rfl | rfl <;>
    exact Text.readInteger_ne_ok hc (by decide) (by decide) (by decide) n

/-- A text that denotes an integer is taken for nothing but a text. -/
theorem isPlain_of_readInteger {n : Int} (h : Text.readInteger s = .ok n) : IsPlain s := by
  have hbracket : ¬(s.toList.head? = some '[' ∨ s.toList.head? = some '\x7b') := by
    rintro (hs | hs) <;> exact Text.readInteger_ne_ok hs (by decide) (by decide) (by decide) n h
  exact ⟨fun htruth => htruth.readInteger_ne_ok n h, fun hlist => hbracket (.inl hlist.1),
    fun htable => hbracket (.inr htable.1), fun cause hlarge => hbracket hlarge.1⟩

end Settings

end RegionLogic
