import Mathlib.Data.List.TakeWhile
import RegionLogic.Proofs.Term.Token
import RegionLogic.Term.Application

/-!
# Reading terms with parameters

A term with brackets is a head with its parameters if the head comes first and the list of parameters, up to
the first closing bracket, comes last. Whatever has misplaced brackets is malformed, although it may well have
a token: reading a token only counts its brackets.

## Main definitions

* `Application.InPlace`: texts whose brackets stand around parameters
* `Application.Spells`: the head and the arguments of such a text

## Main results

* `Application.readChars_eq_ok_iff`: which texts have a head with arguments, and which one
* `Application.eq_misplaced_of_readChars`: the fault of the other texts
-/

namespace RegionLogic.Application

variable {cs head inner rest before after : List Char} {x : Char} {a : Application} {fault : Fault}

/-- Brackets stand around parameters: there are none, or a head is followed by one list in brackets. -/
def InPlace (cs : List Char) : Prop :=
  ('[' ∉ cs ∧ ']' ∉ cs) ∨
    ∃ head inner, head ≠ [] ∧ '[' ∉ head ∧ ']' ∉ head ∧ ']' ∉ inner ∧ cs = head ++ '[' :: (inner ++ [']'])

/-- The text `cs` is written for a head and its arguments. -/
inductive Spells : List Char → Application → Prop
  | bare {cs : List Char} (hopen : '[' ∉ cs) (hclose : ']' ∉ cs) : Spells cs ⟨.ofList cs, []⟩
  | applied {head inner : List Char} (hne : head ≠ []) (hopen : '[' ∉ head) (hclose : ']' ∉ head)
      (hinner : ']' ∉ inner) : Spells (head ++ '[' :: (inner ++ [']'])) ⟨.ofList head, argsOf inner⟩

theorem inPlace_iff : InPlace cs ↔ ∃ a, Spells cs a := by
  constructor
  · rintro (⟨hopen, hclose⟩ | ⟨head, inner, hne, hopen, hclose, hinner, rfl⟩)
    · exact ⟨_, .bare hopen hclose⟩
    · exact ⟨_, .applied hne hopen hclose hinner⟩
  · rintro ⟨a, h⟩
    cases h with
    | bare hopen hclose => exact Or.inl ⟨hopen, hclose⟩
    | applied hne hopen hclose hinner => exact Or.inr ⟨_, _, hne, hopen, hclose, hinner, rfl⟩

/-! ## Reading -/

theorem takeWhile_ne (h : x ∉ before) : (before ++ x :: after).takeWhile (· ≠ x) = before := by
  rw [List.takeWhile_append_of_pos]
  · simp
  · intro c hc
    simpa using ne_of_mem_of_not_mem hc h

theorem dropWhile_ne (h : x ∉ before) : (before ++ x :: after).dropWhile (· ≠ x) = x :: after := by
  rw [List.dropWhile_append_of_pos]
  · simp
  · intro c hc
    simpa using ne_of_mem_of_not_mem hc h

theorem dropWhile_ne_of_not_mem (h : x ∉ cs) : cs.dropWhile (· ≠ x) = [] := by
  rw [List.dropWhile_eq_nil_iff]
  intro c hc
  simpa using ne_of_mem_of_not_mem hc h

/-- Without an opening bracket there is a head alone, if it is one. -/
theorem readChars_bare (h : '[' ∉ cs) :
    readChars cs =
      if ']' ∈ cs then .error (.term (.misplacedBrackets (Token.shown cs))) else .ok ⟨.ofList cs, []⟩ := by
  unfold readChars
  rw [dropWhile_ne_of_not_mem h]

/-- The head ends at the first opening bracket and the parameters at the first closing bracket after it, which
has to be the end. -/
theorem readChars_applied (hopen : '[' ∉ head) (hinner : ']' ∉ inner) :
    readChars (head ++ '[' :: (inner ++ ']' :: after)) =
      if after = [] ∧ head ≠ [] ∧ ']' ∉ head then .ok ⟨.ofList head, argsOf inner⟩
      else .error (.term (.misplacedBrackets (Token.shown (head ++ '[' :: (inner ++ ']' :: after))))) := by
  unfold readChars
  rw [takeWhile_ne hopen, dropWhile_ne hopen]
  dsimp only
  rw [takeWhile_ne hinner, dropWhile_ne hinner]
  cases after with
  | nil => by_cases hne : head = [] <;> by_cases hclose : ']' ∈ head <;> simp [hne, hclose]
  | cons c after => simp

theorem readChars_unclosed (hopen : '[' ∉ head) (hclose : ']' ∉ rest) :
    readChars (head ++ '[' :: rest) =
      .error (.term (.misplacedBrackets (Token.shown (head ++ '[' :: rest)))) := by
  unfold readChars
  rw [takeWhile_ne hopen, dropWhile_ne hopen]
  dsimp only
  rw [dropWhile_ne_of_not_mem hclose]

/-- A text has the head and the arguments that it is written for. -/
theorem readChars_eq_ok_iff : readChars cs = .ok a ↔ Spells cs a := by
  constructor
  · intro h
    by_cases hopen : '[' ∈ cs
    · obtain ⟨head, rest, rfl, hhead⟩ := List.eq_append_cons_of_mem hopen
      by_cases hclose : ']' ∈ rest
      · obtain ⟨inner, after, rfl, hinner⟩ := List.eq_append_cons_of_mem hclose
        rw [readChars_applied hhead hinner] at h
        split at h
        · next hplaced =>
          obtain ⟨rfl, hne, hclose⟩ := hplaced
          obtain rfl := Except.ok.inj h
          exact .applied hne hhead hclose hinner
        · cases h
      · rw [readChars_unclosed hhead hclose] at h
        cases h
    -- without an opening bracket there may still be a closing one
    · rw [readChars_bare hopen] at h
      split at h
      · cases h
      · next hclose =>
        obtain rfl := Except.ok.inj h
        exact .bare hopen hclose
  · intro h
    cases h with
    | bare hopen hclose => rw [readChars_bare hopen, if_neg hclose]
    | applied hne hopen hclose hinner => rw [readChars_applied hopen hinner, if_pos ⟨rfl, hne, hclose⟩]

/-- The one fault of a text without head and arguments: its brackets are misplaced. -/
theorem eq_misplaced_of_readChars (h : readChars cs = .error fault) :
    fault = .term (.misplacedBrackets (Token.shown cs)) := by
  unfold readChars at h
  dsimp only at h
  split at h
  · split at h
    · exact (Except.error.inj h).symm
    · cases h
  · split at h
    · split at h
      · exact (Except.error.inj h).symm
      · cases h
    · exact (Except.error.inj h).symm

theorem exists_read_eq_ok_iff {term : String} : (∃ a, read term = .ok a) ↔ InPlace term.toList := by
  rw [inPlace_iff]
  exact exists_congr fun a => readChars_eq_ok_iff

theorem exists_cause_of_read {term : String} (h : read term = .error fault) :
    ∃ cause, fault = .term cause :=
  ⟨_, eq_misplaced_of_readChars h⟩

end RegionLogic.Application
