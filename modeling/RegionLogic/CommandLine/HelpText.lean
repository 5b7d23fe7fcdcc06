/-!
# Help texts

How the program and its commands are called, and what they do.

## Main definitions

* `HelpText`: a help text
* `HelpText.main` and its companions: the help texts of the program and its commands
-/

namespace RegionLogic.CommandLine

/-- A help text. -/
structure HelpText where
  /-- The lines that say how a command is called. -/
  usage : List String
  /-- The lines that say what it does. -/
  details : List String
  deriving DecidableEq

namespace HelpText

/-- Lines as a text. -/
def lines (l : List String) : String := "".intercalate (l.map (· ++ "\n"))

/-- How a command is called. -/
def usageText (h : HelpText) : String := lines h.usage

/-- The whole text. -/
def text (h : HelpText) : String := lines (h.usage ++ h.details)

/-- The help on the program. -/
def main : HelpText where
  usage := [
    "usage: logicgraph [-h] [--version] [--config PATH] [-v] [-q]",
    "                  \x7bbuild,cycles,classify,config\x7d ..."]
  details := [
    "",
    "Compile stateful DNF logic into a minimized region graph",
    "",
    "positional arguments:",
    "  \x7bbuild,cycles,classify,config\x7d",
    "                        Available commands",
    "    build               Compile a world definition into a region graph",
    "    cycles              Report reference cycles between logic objects",
    "    classify            Show the classification of state modifier tokens",
    "    config              View configuration",
    "",
    "options:",
    "  -h, --help            show this help message and exit",
    "  --version             show program's version number and exit",
    "  --config PATH         Path to configuration file",
    "  -v, --verbose         Verbose output (-vv for debug logging)",
    "  -q, --quiet           Suppress non-error output",
    "",
    "Examples:",
    "  logicgraph build world.json                 # Write regions.json, region_data.py, .dot",
    "  logicgraph build world.json --start Start   # Relabel the start state as Menu",
    "  logicgraph build --keep Town --no-dot       # Keep a region, skip DOT output",
    "  logicgraph cycles world.json                # Report waypoint reference cycles",
    "  logicgraph classify '$TAKEDAMAGE' '$BENCHRESET'",
    "",
    "Configuration:",
    "  logicgraph config path                      # Show config file location",
    "  logicgraph config show                      # View all settings",
    "",
    "For detailed command help: logicgraph <command> --help",
    "        "]

/-- The help on `build`. -/
def build : HelpText where
  usage := [
    "usage: logicgraph build [-h] [-o DIR] [--start TERM] [--keep NAME [NAME ...]]",
    "                        [--keep-file FILE] [--inline-waypoint PATTERN]",
    "                        [--no-dot]",
    "                        [world]"]
  details := [
    "",
    "positional arguments:",
    "  world                 World definition JSON (default: input.world from",
    "                        config)",
    "",
    "options:",
    "  -h, --help            show this help message and exit",
    "  -o DIR, --output DIR  Output directory (default: output.directory from",
    "                        config)",
    "  --start TERM          State region to relabel as Menu",
    "  --keep NAME [NAME ...]",
    "                        Regions exempt from merging",
    "  --keep-file FILE      JSON array of regions exempt from merging",
    "  --inline-waypoint PATTERN",
    "                        Regex of stateful waypoints to inline (can be",
    "                        repeated)",
    "  --no-dot              Do not write the DOT rendering",
    "",
    "Examples:",
    "  logicgraph build world.json -o out",
    "  logicgraph build world.json --inline-waypoint 'Can_.*'",
    "  logicgraph build world.json --keep-file keep.json"]

/-- The help on `cycles`. -/
def cycles : HelpText where
  usage := [
    "usage: logicgraph cycles [-h] [--pattern PATTERN] [world]"]
  details := [
    "",
    "positional arguments:",
    "  world              World definition JSON (default: input.world from config)",
    "",
    "options:",
    "  -h, --help         show this help message and exit",
    "  --pattern PATTERN  Only consider objects whose names match this regex (can",
    "                     be repeated)"]

/-- The help on `classify`. -/
def classify : HelpText where
  usage := [
    "usage: logicgraph classify [-h] TOKEN [TOKEN ...]"]
  details := [
    "",
    "positional arguments:",
    "  TOKEN       Modifier tokens, e.g. '$CASTSPELL[1]'",
    "",
    "options:",
    "  -h, --help  show this help message and exit"]

/-- The help on `config`. -/
def config : HelpText where
  usage := [
    "usage: logicgraph config [-h] \x7bshow,path\x7d ..."]
  details := [
    "",
    "positional arguments:",
    "  \x7bshow,path\x7d",
    "    show       Show effective configuration",
    "    path       Show configuration file location",
    "",
    "options:",
    "  -h, --help   show this help message and exit"]

/-- The help on `config show`. -/
def configShow : HelpText where
  usage := [
    "usage: logicgraph config show [-h] [--json]"]
  details := [
    "",
    "options:",
    "  -h, --help  show this help message and exit",
    "  --json      Output as JSON instead of TOML"]

/-- The help on `config path`. -/
def configPath : HelpText where
  usage := [
    "usage: logicgraph config path [-h]"]
  details := [
    "",
    "options:",
    "  -h, --help  show this help message and exit"]

end HelpText

end RegionLogic.CommandLine
