import RegionLogic.Fault
import RegionLogic.Text.LowerCase

/-!
# Kinds of modifiers

A state modifier changes some resource or progress as logic is traversed. For simplification it
matters only whether it can help, hurt, do either, or does not matter.

## Main definitions

* `ModifierKind`: the kinds
* `ModifierKind.join`: the kind of two effects together
* `ModifierKind.read`: the kind that a setting names
-/

namespace RegionLogic

/-- The effect of a modifier or of a run of modifiers. -/
inductive ModifierKind where
  /-- It does not matter. -/
  | neutral
  /-- It can only help. -/
  | beneficial
  /-- It can only hurt. -/
  | detrimental
  /-- It might do either. -/
  | mixed
  deriving DecidableEq, Inhabited

namespace ModifierKind

/-- The name of a kind. -/
def name : ModifierKind → String
  | neutral => "None"
  | beneficial => "Beneficial"
  | detrimental => "Detrimental"
  | mixed => "Mixed"

/-- The kinds in order. -/
def all : List ModifierKind := [neutral, beneficial, detrimental, mixed]

/-- The kind with exactly the given name. -/
def ofName? (s : String) : Option ModifierKind := all.find? (·.name = s)

/-- The kind that a value names exactly. -/
def readExact (v : Json) : Except Fault ModifierKind :=
  match v with
  | .str s =>
    match ofName? s with
    | some k => .ok k
    | none => .error (.notInVocabulary .kind v.display)
  | v => .error (.notInVocabulary .kind v.display)

/-- The kind that a setting names; case does not matter. -/
def read (v : Json) : Except Fault ModifierKind :=
  match all.find? fun k => Text.lower k.name = Text.lower v.spelling with
  | some k => .ok k
  | none => .error (.unknownKind v.display)

/-- The kind of two effects together: neutral below beneficial and detrimental, both below mixed. -/
def join : ModifierKind → ModifierKind → ModifierKind
  | neutral, k => k
  | k, neutral => k
  | beneficial, beneficial => beneficial
  | detrimental, detrimental => detrimental
  | _, _ => mixed

@[simp] theorem neutral_join (k : ModifierKind) : join neutral k = k := rfl

@[simp] theorem join_neutral (k : ModifierKind) : join k neutral = k := by cases k <;> rfl

@[simp] theorem mixed_join (k : ModifierKind) : join mixed k = mixed := by cases k <;> rfl

@[simp] theorem join_mixed (k : ModifierKind) : join k mixed = mixed := by cases k <;> rfl

end ModifierKind

end RegionLogic
