import RegionLogic.Json.Basic

/-!
# Names

What objects, regions, items and modifiers are called. As a rule a name is a text. Worlds are read
leniently: a number, a truth value or the absent value may stand in the place of a name. It is kept as
it is, compared as a value and not by its size, and is a fault only where a text is needed.

## Main definitions

* `Scalar`: the values other than texts that may stand for a name
* `Name`: the names
* `Name.ofJson?`, `Name.toJson`: names and JSON values
* `Name.spelling`, `Name.display`: the forms of a name in messages
* `Name.lt`: the order of names, `<`

## Main results

* `Name.lt_trans`, `Name.lt_asymm`, `Name.lt_trichotomy`: the order is strict and total
* `Name.text_lt_text`: texts are ordered by their characters
-/

namespace RegionLogic

/-- A value that is neither a text nor made of other values. -/
inductive Scalar where
  | null
  | bool (b : Bool)
  | int (n : Int)
  | float (x : Binary64)
  deriving DecidableEq

namespace Scalar

/-- The JSON value. -/
def toJson : Scalar → Json
  | null => .null
  | bool b => .bool b
  | int n => .int n
  | float x => .float x

/-- A truth value as a number. -/
def truthCode (b : Bool) : Int := if b then 1 else 0

theorem truthCode_inj {a b : Bool} : truthCode a = truthCode b ↔ a = b := by
  cases a <;> cases b <;> simp [truthCode]

/-- Numbers that tell a value from all others. -/
def code : Scalar → List Int
  | null => [0]
  | bool b => [1, truthCode b]
  | int n => [2, n]
  | float .nan => [3]
  | float (.infinity negative) => [4, truthCode negative]
  | float (.finite negative m q) => [5, truthCode negative, m, q]

theorem code_inj {v w : Scalar} (h : v.code = w.code) : v = w := by
  unfold code at h
  split at h <;> split at h <;> grind [truthCode_inj]

end Scalar

/-- A name: a text, or another value that stands in its place. Two names are the same if they are the same
value. So the number one, the floating-point number one and the truth value `true` are three names, although
they are the same in size, and the floating-point value that is not a number is one name wherever it stands. -/
inductive Name where
  | text (s : String)
  /-- A value that is no text. -/
  | odd (v : Scalar)
  deriving DecidableEq

namespace Name

instance : Inhabited Name := ⟨.text ""⟩

instance : Coe String Name := ⟨.text⟩

/-- The name that a value is; lists and tables name nothing. -/
def ofJson? : Json → Option Name
  | .str s => some (.text s)
  | .null => some (.odd .null)
  | .bool b => some (.odd (.bool b))
  | .int n => some (.odd (.int n))
  | .float x => some (.odd (.float x))
  | .arr _ => none
  | .obj _ => none

/-- A name as a value. -/
def toJson : Name → Json
  | text s => .str s
  | odd v => v.toJson

@[simp] theorem ofJson?_toJson (a : Name) : ofJson? a.toJson = some a := by
  cases a with
  | text s => rfl
  | odd v => cases v <;> rfl

/-- The text that a name is, if it is one. -/
def text? : Name → Option String
  | text s => some s
  | odd _ => none

/-- The kind of value that a name is. -/
def shape (a : Name) : Shape := a.toJson.shape

/-- A text as it is, any other value in its form for messages. -/
def spelling (a : Name) : String := a.toJson.spelling

/-- The form of a name in lists and in messages that quote it. -/
def display (a : Name) : String := a.toJson.display

instance : ToString Name := ⟨spelling⟩

@[simp] theorem spelling_text (s : String) : (text s).spelling = s := rfl

/-- Names in the form of a list. -/
def displayList (l : List Name) : String := "[" ++ ", ".intercalate (l.map display) ++ "]"

/-! ## Order -/

/-- Texts come first, by their characters; other values follow, by their codes. -/
protected def lt : Name → Name → Prop
  | text a, text b => a < b
  | text _, odd _ => True
  | odd _, text _ => False
  | odd v, odd w => v.code < w.code

instance : LT Name := ⟨Name.lt⟩

instance : (a b : Name) → Decidable (a < b)
  | text a, text b => inferInstanceAs (Decidable (a < b))
  | text _, odd _ => inferInstanceAs (Decidable True)
  | odd _, text _ => inferInstanceAs (Decidable False)
  | odd v, odd w => inferInstanceAs (Decidable (v.code < w.code))

@[simp] theorem text_lt_text {a b : String} : text a < text b ↔ a < b := Iff.rfl

theorem lt_irrefl (a : Name) : ¬a < a := by
  cases a with
  | text s => exact String.lt_irrefl s
  | odd v => exact List.lt_irrefl v.code

theorem lt_trans {a b c : Name} (hab : a < b) (hbc : b < c) : a < c := by
  cases a <;> cases b <;> cases c
  · exact String.lt_trans hab hbc
  · trivial
  · exact hbc.elim
  · trivial
  · exact hab.elim
  · exact hab.elim
  · exact hbc.elim
  · exact List.lt_trans hab hbc

theorem lt_asymm {a b : Name} (h : a < b) : ¬b < a := fun h' => lt_irrefl a (lt_trans h h')

theorem lt_trichotomy (a b : Name) : a < b ∨ a = b ∨ b < a := by
  cases a with
  | text s =>
    cases b with
    | text t =>
      rcases Std.Trichotomous.rel_or_eq_or_rel_swap (r := (· < · : String → String → Prop))
        (a := s) (b := t) with h | h | h
      · exact Or.inl h
      · exact Or.inr (Or.inl (congrArg text h))
      · exact Or.inr (Or.inr h)
    | odd w => exact Or.inl trivial
  | odd v =>
    cases b with
    | text t => exact Or.inr (Or.inr trivial)
    | odd w =>
      rcases Std.Trichotomous.rel_or_eq_or_rel_swap (r := (· < · : List Int → List Int → Prop))
        (a := v.code) (b := w.code) with h | h | h
      · exact Or.inl h
      · exact Or.inr (Or.inl (congrArg odd (Scalar.code_inj h)))
      · exact Or.inr (Or.inr h)

end Name

end RegionLogic
