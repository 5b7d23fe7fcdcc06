import RegionLogic.Json.Basic

/-!
# Default settings

Every setting that the program knows, with the value that it has unless a settings file or the
environment says otherwise.

## Main definitions

* `Settings.defaults`: the default settings
-/

namespace RegionLogic.Settings

/-- A list of texts. -/
def texts (l : List String) : Json := .arr (l.map .str)

/-- The heads of spells, which can be timed around a refill. -/
def spells : List String := ["$CASTSPELL", "$SLOPEBALL", "$SHRIEKPOGO"]

/-- A spell that has no argument starting with `test` can only hurt. -/
def spellRule (spell test : String) : Json :=
  .obj [("prefix", .str spell), ("comparison", .str "no_arg_starts_with"), ("test", .str test),
    ("classification", .str "Detrimental")]

/-- The default settings: sections with their settings. -/
def defaults : List (String × Json) :=
  [("input", .obj [
      ("world", .str ""),
      ("start_term", .str ""),
      ("keep_regions", .arr []),
      ("keep_regions_file", .str "")]),
    ("output", .obj [
      ("directory", .str "output"),
      ("regions_file", .str "regions.json"),
      ("python_file", .str "region_data.py"),
      ("dot_file", .str "regionGraph.dot")]),
    ("classifier", .obj [
      ("beneficial", texts ["$BENCHRESET", "$HOTSPRINGRESET", "$REGAINSOUL"]),
      ("detrimental", texts ["$EQUIPPEDCHARM", "$TAKEDAMAGE", "$SPENDSOUL", "$SHADESKIP"]),
      ("mixed", texts (["$WARPTOBENCH", "$WARPTOSTART", "$STARTRESPAWN", "$SAVEQUITRESET",
        "$FLOWERGET"] ++ spells)),
      ("argument_rules",
        .arr (spells.flatMap fun s => [spellRule s "before:", spellRule s "after:"]))]),
    ("cleanup", .obj [
      ("compare_region_requirements", .bool false),
      ("merge_logicless_cycles", .bool false),
      ("remove_empty_regions", .bool false)]),
    ("waypoints", .obj [("inline", .arr [])]),
    ("reducer", .obj [
      ("enabled", .bool false),
      ("state_setters", texts ["$FLOWERGET", "$BENCHRESET", "$HOTSPRINGRESET", "$SAVEQUITRESET",
        "$STARTRESPAWN", "$WARPTOBENCH", "$WARPTOSTART"]),
      ("exclusive", .obj [("$SHADESKIP", .str "$BENCHRESET")]),
      ("commuting_pairs", .arr [texts ["$BENCHRESET", "$HOTSPRINGRESET"]]),
      ("max_modifiers", .int 10)])]

/-- The default of a setting. -/
def default? (sectionName key : String) : Option Json :=
  (Entries.find? defaults sectionName).bind (·.field? key)

end RegionLogic.Settings
