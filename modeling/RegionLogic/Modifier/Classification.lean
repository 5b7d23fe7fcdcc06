import RegionLogic.Json.Fields
import RegionLogic.Modifier.Kind
import RegionLogic.Term.Application

/-!
# Classification of modifiers

A modifier is classified by its head: the first argument rule that matches decides, then the tables
of heads. Whatever is no simple term might do anything.

## Main definitions

* `ArgumentRule`: a rule about the arguments of a head
* `ClassificationModel`: the rules and the tables
* `Classifier`: an oracle for the kinds of modifiers
* `ClassificationModel.classify`: the oracle of a model
* `Classifier.many`: the kind of a run of modifiers
-/

namespace RegionLogic

/-- How an argument rule compares arguments with its test. -/
inductive ArgumentComparison where
  /-- No argument is the test. -/
  | noneEquals
  /-- No argument starts with the test. -/
  | noneStartsWith
  /-- No argument ends with the test. -/
  | noneEndsWith
  deriving DecidableEq

namespace ArgumentComparison

/-- The name of a comparison. -/
def name : ArgumentComparison → String
  | noneEquals => "no_arg_equals"
  | noneStartsWith => "no_arg_starts_with"
  | noneEndsWith => "no_arg_ends_with"

/-- The comparisons in order. -/
def all : List ArgumentComparison := [noneEquals, noneStartsWith, noneEndsWith]

/-- The comparison that a setting names. -/
def read (v : Json) : Except Fault ArgumentComparison :=
  match v with
  | .str s =>
    match all.find? (·.name = s) with
    | some c => .ok c
    | none => .error (.notInVocabulary .comparison v.display)
  | v => .error (.notInVocabulary .comparison v.display)

/-- Whether an argument begins or ends with a test, as `holds` says of their characters; both have to
be texts. `operation` names the comparison in messages. -/
def affix (operation : String) (holds : List Char → List Char → Bool) (test : Json) :
    Name → Except Fault Bool
  | .text arg =>
    match test with
    | .str s => .ok (holds s.toList arg.toList)
    | v => .error (.shape (.notAffix operation v.shape))
  | .odd v => .error (.noOperation v.toJson.shape operation)

/-- Whether an argument is one of those that a rule with this comparison excludes. -/
def excludes (c : ArgumentComparison) (test : Json) (arg : Name) : Except Fault Bool :=
  match c with
  | noneEquals => .ok (Name.ofJson? test = some arg)
  | noneStartsWith => affix "startswith" List.isPrefixOf test arg
  | noneEndsWith => affix "endswith" List.isSuffixOf test arg

end ArgumentComparison

/-- A rule for the modifiers with a given head: it matches those none of whose arguments is
excluded. Settings may put any value in the place of the head, which then is the head of no modifier,
or of the test. -/
structure ArgumentRule where
  head : Json
  /-- How arguments are compared with the test. -/
  comparison : ArgumentComparison
  /-- What arguments are compared with. -/
  test : Json
  /-- The kind of the modifiers that match. -/
  kind : ModifierKind

namespace ArgumentRule

/-- Whether the rule matches a head with arguments. Arguments are looked at only if the head is that
of the rule, and only up to the first one that is excluded. -/
def holds (r : ArgumentRule) (head : Name) (args : List Name) : Except Fault Bool := do
  if Name.ofJson? r.head = some head then return !(← args.anyM (r.comparison.excludes r.test)) else return false

/-- Whether the rule matches a term with parameters. -/
def matchesTerm (r : ArgumentRule) (a : Application) : Except Fault Bool :=
  r.holds a.head (a.args.map .text)

/-- The rule that a setting gives. -/
def read (v : Json) : Except Fault ArgumentRule := do
  let head ← v.requiredField "prefix"
  let comparison ← ArgumentComparison.read (← v.fieldOr "comparison" (.str "no_arg_starts_with"))
  let test ← v.requiredField "test"
  let kind ← ModifierKind.read (← v.fieldOr "classification" (.str "Detrimental"))
  return { head, comparison, test, kind }

end ArgumentRule

/-- The rules and the tables of heads by which modifiers are classified. -/
structure ClassificationModel where
  /-- Heads of modifiers that can only help. -/
  beneficial : NameSet
  /-- Heads of modifiers that can only hurt. -/
  detrimental : NameSet
  /-- Heads of modifiers that might do either. -/
  mixed : NameSet
  /-- The rules, tried in order. -/
  rules : List ArgumentRule

/-- An oracle for the kinds of modifiers. It fails on what is no term. -/
abbrev Classifier := Name → Except Fault ModifierKind

namespace ClassificationModel

/-- The model that a section of the settings gives. -/
def read (v : Json) : Except Fault ClassificationModel := do
  let beneficial ← (← v.fieldOr "beneficial" (.arr [])).nameSet
  let detrimental ← (← v.fieldOr "detrimental" (.arr [])).nameSet
  let mixed ← (← v.fieldOr "mixed" (.arr [])).nameSet
  let rules ← (← (← v.fieldOr "argument_rules" (.arr [])).items).mapM ArgumentRule.read
  return { beneficial, detrimental, mixed, rules }

/-- The model of full settings. -/
def ofSettings (settings : Json) : Except Fault ClassificationModel := do
  read (← settings.fieldOr "classifier" (.obj []))

/-- The kind that the tables give to a head. -/
def kindOfHead (m : ClassificationModel) (head : Name) : ModifierKind :=
  if head ∈ m.beneficial then .beneficial
  else if head ∈ m.detrimental then .detrimental
  else if head ∈ m.mixed then .mixed
  else .neutral

/-- The kind of a head with arguments: that of the first rule that matches, or that of the head. -/
def kindOf (m : ClassificationModel) (a : Application) : Except Fault ModifierKind := do
  match ← m.rules.findM? (·.matchesTerm a) with
  | some r => return r.kind
  | none => return m.kindOfHead a.head

/-- The oracle of a model. What is no simple term, or no text at all, might do anything. -/
def classify (m : ClassificationModel) : Classifier
  | .text term => do
    match ← Token.read term with
    | .simple name => m.kindOf (← Application.read name)
    | _ => return .mixed
  | .odd _ => .ok .mixed

end ClassificationModel

/-- The kind of a run of modifiers that comes after modifiers of kind `before`. As soon as the run is
mixed the rest is not looked at. -/
def Classifier.manyAfter (classify : Classifier) :
    ModifierKind → List Name → Except Fault ModifierKind
  | before, [] => .ok before
  | before, term :: terms => do
    match before.join (← classify term) with
    | .mixed => return .mixed
    | kind => manyAfter classify kind terms

/-- The kind of a run of modifiers. -/
def Classifier.many (classify : Classifier) (terms : List Name) : Except Fault ModifierKind :=
  classify.manyAfter .neutral terms

end RegionLogic
