import RegionLogic.Json.Basic

/-!
# Merging settings

Settings are laid over others table by table: where both have a table, its fields are merged in turn;
any other value takes the place of what was there.

## Main definitions

* `Settings.merge`: the fields of one table laid over those of another

## Main results

* `Settings.merge_cons`: fields are laid over a table one after the other
-/

namespace RegionLogic.Settings

mutual

/-- The fields of `base` with those of a second table laid over them. New fields come last. -/
def merge (base : List (String × Json)) : List (String × Json) → List (String × Json)
  | [] => base
  | (k, v) :: fields => merge (Entries.set base k (mergeValue (Entries.find? base k) v)) fields

/-- A value laid over what was there. -/
def mergeValue (base : Option Json) : Json → Json
  | .obj fields =>
    match base with
    | some (.obj under) => .obj (merge under fields)
    | _ => .obj fields
  | v => v

end

@[simp] theorem merge_nil (base : List (String × Json)) : merge base [] = base := by
  simp [merge]

theorem merge_cons (base : List (String × Json)) (k : String) (v : Json)
    (fields : List (String × Json)) :
    merge base ((k, v) :: fields) =
      merge (Entries.set base k (mergeValue (Entries.find? base k) v)) fields := by
  simp [merge]

end RegionLogic.Settings
