import RegionLogic.Text.LowerCase

/-!
# Words in lower case

A text is mapped to a word of plain letters only if it is that word but for capital letters, whatever else there
is in Unicode. The letter k is left out: the Kelvin sign is the only character outside of ASCII that is mapped
to a letter of ASCII and nothing else.

## Main definitions

* `isPlainLetter`: the small letters but for k

## Main results

* `lower_eq_iff`: the texts that are mapped to a word of plain letters
-/

namespace RegionLogic.Text

/-- Whether a character is a small letter of ASCII other than k. -/
def isPlainLetter (c : Char) : Bool := c.isLower && c != 'k'

variable {c : Char}

/-- What is true of all characters of ASCII can be checked one by one. -/
theorem forall_ascii {P : Char → Prop} (h : ∀ n < 128, P (Char.ofNat n)) (hc : c.toNat < 128) : P c :=
  Char.ofNat_toNat c ▸ h c.toNat hc

/-- A character outside of ASCII is no plain letter. -/
theorem isPlainLetter_of_le (h : 128 ≤ c.toNat) : isPlainLetter c = false := by
  have hlower : c.isLower = false := by
    rw [Bool.eq_false_iff]
    intro hc
    have hz : c.toNat ≤ 122 :=
      UInt32.le_iff_toNat_le.1 (of_decide_eq_true (Bool.and_eq_true_iff.1 hc).2)
    omega
  rw [isPlainLetter, hlower, Bool.false_and]

theorem isPlainLetter_ofNat {n : Nat} (h : 128 ≤ n) : isPlainLetter (Char.ofNat n) = false := by
  by_cases hvalid : n.isValidChar
  · have hn : (Char.ofNat n).toNat = n := by
      rw [Char.ofNat, dif_pos hvalid]
      rfl
    exact isPlainLetter_of_le (hn.symm ▸ h)
  · rw [Char.ofNat, dif_neg hvalid]
    rfl

/-! ## One character -/

theorem lowerChar_of_lt (hc : c.toNat < 128) : lowerChar c = [c.toLower] := by
  have hascii : (if c.isUpper then Char.ofNat (c.toNat + 32) else c) = c.toLower :=
    forall_ascii (P := fun c => (if c.isUpper then Char.ofNat (c.toNat + 32) else c) = c.toLower)
      (by decide) hc
  rw [lowerChar, if_pos hc, hascii]

theorem toLower_of_le (hc : 128 ≤ c.toNat) : c.toLower = c := by
  refine dif_neg fun h => ?_
  have hz : c.toNat ≤ 90 := UInt32.le_iff_toNat_le.1 h.2
  omega

/-- The runs of capital letters outside of ASCII have their small letters there, too, but for the one that is
the Kelvin sign. -/
theorem le_of_mem_caseRuns : ∀ r ∈ caseRuns,
    r.last < 128 ∨ 128 ≤ r.first + r.shift ∨ r.first = 8490 ∧ r.last = 8490 ∧ r.shift = -8383 := by
  decide +kernel

/-- What a character outside of ASCII is mapped to does not consist of plain letters. -/
theorem exists_of_lowerChar (hc : 128 ≤ c.toNat) : ∃ d ∈ lowerChar c, isPlainLetter d = false := by
  rw [lowerChar, if_neg (Nat.not_lt.2 hc)]
  split
  · exact ⟨'\u0307', by simp, by decide⟩
  split
  · next r hr =>
    have hcovers := List.find?_some hr
    simp only [CaseRun.covers, Bool.and_eq_true, decide_eq_true_eq] at hcovers
    obtain ⟨⟨hfirst, hlast⟩, -⟩ := hcovers
    refine ⟨_, List.mem_singleton_self _, ?_⟩
    rcases le_of_mem_caseRuns r (List.mem_of_find?_eq_some hr) with hascii | hfar | ⟨hlow, hhigh, hshift⟩
    · omega
    · exact isPlainLetter_ofNat (by omega)
    · have hkelvin : (c.toNat + r.shift).toNat = 107 := by omega
      rw [hkelvin]
      decide
  · exact ⟨c, List.mem_singleton_self _, isPlainLetter_of_le hc⟩

/-! ## Texts -/

theorem exists_of_lowerAfter (hc : 128 ≤ c.toNat) (before cs : List Char) :
    ∃ d ∈ lowerAfter before (c :: cs), isPlainLetter d = false := by
  rw [lowerAfter]
  split
  · exact ⟨_, List.mem_append_left _ (List.mem_singleton_self _), by split <;> decide⟩
  · obtain ⟨d, hd, hplain⟩ := exists_of_lowerChar hc
    exact ⟨d, List.mem_append_left _ hd, hplain⟩

theorem lowerAfter_eq_iff {word : List Char} (hword : ∀ d ∈ word, isPlainLetter d = true)
    (before cs : List Char) : lowerAfter before cs = word ↔ cs.map Char.toLower = word := by
  induction cs generalizing before word with
  | nil => rfl
  | cons c cs ih =>
    by_cases hc : c.toNat < 128
    · -- the only letter that depends on its neighbours is outside of ASCII
      have hsigma : c ≠ '\u03a3' := by
        rintro rfl
        revert hc
        decide
      rw [lowerAfter, if_neg hsigma, lowerChar_of_lt hc, List.map_cons, List.singleton_append]
      cases word with
      | nil => simp
      | cons d word =>
        rw [List.cons_eq_cons, List.cons_eq_cons, ih fun x hx => hword x (List.mem_cons_of_mem d hx)]
    · -- neither side can hold, since the character gives one that is no plain letter
      have hle : 128 ≤ c.toNat := Nat.not_lt.1 hc
      constructor
      · intro h
        obtain ⟨d, hd, hplain⟩ := exists_of_lowerAfter hle before cs
        rw [hword d (h ▸ hd)] at hplain
        cases hplain
      · intro h
        have hplain := hword c.toLower (h ▸ by simp)
        rw [toLower_of_le hle, isPlainLetter_of_le hle] at hplain
        cases hplain

/-- The texts that are mapped to a word of plain letters are that word but for capital letters. -/
theorem lower_eq_iff {word : String} (hword : word.toList.all isPlainLetter = true) (s : String) :
    lower s = word ↔ s.toList.map Char.toLower = word.toList := by
  rw [← lowerAfter_eq_iff (List.all_eq_true.1 hword) [], lower, ← String.toList_inj, String.toList_ofList]

end RegionLogic.Text
