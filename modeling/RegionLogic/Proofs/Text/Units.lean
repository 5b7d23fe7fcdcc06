import Mathlib.Data.Bool.AllAny
import Mathlib.Data.List.Basic

/-!
# UTF-16 units

A character beyond the 16-bit code points is two surrogates in UTF-16, any other one is its code point. No
surrogate is a character, so the units of a text tell where its characters end, and no two texts have the same
units.

## Main definitions

* `Text.units`, `Text.codePoints`: the units and the code points of a text
* `Text.IsBasic`: the texts without characters beyond the 16-bit code points

## Main results

* `Text.units_eq_codePoints_iff`: the texts whose units are their code points
* `Text.units_injective`: a text is known from its units
-/

namespace RegionLogic.Text

/-- The UTF-16 units of a character. -/
def charUnits (c : Char) : List Nat :=
  if c.toNat < 0x10000 then [c.toNat]
  else [0xd800 + (c.toNat - 0x10000) / 0x400, 0xdc00 + (c.toNat - 0x10000) % 0x400]

/-- The UTF-16 units of a text. -/
def units (s : String) : List Nat := s.toList.flatMap charUnits

/-- The code points of a text. -/
def codePoints (s : String) : List Nat := s.toList.map Char.toNat

/-- The last code point is the largest one. -/
theorem toNat_lt (c : Char) : c.toNat < 0x110000 := by
  rcases c.valid with h | ⟨-, h⟩
  · exact Nat.lt_trans h (by decide)
  · exact h

/-- The text has no characters beyond the 16-bit code points. -/
def IsBasic (s : String) : Prop := ∀ c ∈ s.toList, c.toNat < 0x10000

instance (s : String) : Decidable (IsBasic s) :=
  decidable_of_iff ((s.toList.all fun c => c.toNat < 0x10000) = true) List.all_iff_forall_prop

/-- The units are the code points of a text if and only if it has no characters beyond the 16-bit code points. -/
theorem units_eq_codePoints_iff {s : String} : units s = codePoints s ↔ IsBasic s := by
  unfold units codePoints IsBasic
  induction s.toList with
  | nil => simp
  | cons c cs ih =>
    rw [List.flatMap_cons, List.map_cons, List.forall_mem_cons, ← ih]
    by_cases hc : c.toNat < 0x10000
    · simp [charUnits, hc]
    · have hsurrogate : 0xd800 + (c.toNat - 0x10000) / 0x400 ≠ c.toNat := by
        have := toNat_lt c
        omega
      simp [charUnits, hc, hsurrogate]

/-- A character and its end are known from its units. -/
theorem charUnits_append_inj {c d : Char} {l m : List Nat} (h : charUnits c ++ l = charUnits d ++ m) :
    c = d ∧ l = m := by
  have hc := toNat_lt c
  have hd := toNat_lt d
  -- no surrogate is a character, so the first unit tells whether there is a second one
  have hc' : c.toNat < 0xd800 ∨ 0xdfff < c.toNat := c.valid.imp id And.left
  have hd' : d.toNat < 0xd800 ∨ 0xdfff < d.toNat := d.valid.imp id And.left
  unfold charUnits at h
  rw [← Char.toNat_inj]
  split at h <;> split at h <;> simp only [List.cons_append, List.nil_append, List.cons.injEq] at h
  · exact h
  · exact absurd h.1 (by omega)
  · exact absurd h.1 (by omega)
  · exact ⟨by omega, h.2.2⟩

theorem charUnits_ne_nil (c : Char) : charUnits c ≠ [] := by
  unfold charUnits
  split <;> exact List.cons_ne_nil _ _

theorem flatMap_charUnits_inj : ∀ {cs ds : List Char}, cs.flatMap charUnits = ds.flatMap charUnits → cs = ds
  | [], [], _ => rfl
  | [], d :: _, h => absurd (List.append_eq_nil_iff.1 h.symm).1 (charUnits_ne_nil d)
  | c :: _, [], h => absurd (List.append_eq_nil_iff.1 h).1 (charUnits_ne_nil c)
  | c :: cs, d :: ds, h => by
    obtain ⟨rfl, hrest⟩ := charUnits_append_inj h
    rw [flatMap_charUnits_inj hrest]

/-- No two texts have the same units. -/
theorem units_injective : Function.Injective units := fun _ _ h =>
  String.toList_inj.1 (flatMap_charUnits_inj h)

theorem codePoints_injective : Function.Injective codePoints := by
  have htoNat : Function.Injective Char.toNat := fun _ _ => Char.toNat_inj.1
  exact fun _ _ h => String.toList_inj.1 (List.map_injective_iff.2 htoNat h)

end RegionLogic.Text
