import Mathlib.Algebra.GroupWithZero.Nat
import Mathlib.Data.List.Count
import RegionLogic.Proofs.Region.Placement

/-!
# What the check of the placement reports

Whatever is placed in the regions and whatever is declared, the check finds a problem if a name is placed
more than once or the placed names are not the declared ones, for the transitions and for the locations. It
reports each problem that there is once and in a fixed order, by a text that tells the names that the problem
is about and nothing else. As the names come in a fixed order, too, there is one text on each problem of a
graph.

## Main definitions

* `Problem`, `Problem.entry`: the problems that there can be, and the text on one
* `RegionGraph.Concerns`, `RegionGraph.Has`: the names that a problem is about, and the problems of a graph
* `RegionGraph.Tells`, `RegionGraph.Writes`: a problem is told with the names that it is about, and so is the
  text on it
* `RegionGraph.Reports`: of several problems those that a graph has are told, in order

## Main results

* `Keyed.reports_faults`: the problems of a graph are reported
* `Tells.writes`, `Writes.unique`: what is told of a problem is written in its text, and there is no other text
* `validate_reports`: how the check ends
-/

namespace RegionLogic

open Building

/-- What can be wrong with the placement of the transitions or the locations. -/
inductive Problem where
  /-- Some names are placed more than once. -/
  | copies (kind : Placed)
  /-- Some names are placed and not declared, or declared and not placed. -/
  | unmatched (kind : Placed)
  deriving DecidableEq

/-- All problems, in the order in which they are reported. -/
def Problem.all : List Problem :=
  [copies .transitions, unmatched .transitions, copies .locations, unmatched .locations]

namespace Problem

/-- What the problem is about: the transitions or the locations. -/
def kind : Problem → Placed
  | copies kind => kind
  | unmatched kind => kind

/-- What the text on a problem begins with. -/
def heading : Problem → String
  | copies .transitions => "The following transitions appeared in multiple regions: "
  | copies .locations => "The following locations appeared in multiple regions: "
  | unmatched .transitions => "Expected declared transitions to exactly match placed transitions, " ++
      "but the following were not matched: "
  | unmatched .locations => "Expected declared locations to exactly match placed locations, " ++
      "but the following were not matched: "

/-- What the text says of a name: a name that is placed more than once stands with the regions that hold
it. -/
def detail : Problem → String → List String → String
  | copies _, name, regions => name ++ " (in " ++ ", ".intercalate regions ++ ")"
  | unmatched _, name, _ => name

/-- The text on a problem, for names with the regions that hold them. -/
def entry (problem : Problem) (names : List (String × List String)) : String :=
  problem.heading ++ ", ".intercalate (names.map fun n => problem.detail n.1 n.2)

end Problem

/-- The problem that is reported. -/
def PlacementFault.problem : PlacementFault → Problem
  | .duplicated kind _ => .copies kind
  | .mismatched kind _ => .unmatched kind

namespace RegionGraph

/-- How often a name is placed, in all regions together. -/
def copies (g : RegionGraph) (kind : Placed) (x : Name) : Nat :=
  (g.names.map fun p => (g.placedIn kind p).count x).sum

/-- The regions that hold a name, in order. -/
def holders (g : RegionGraph) (kind : Placed) (x : Name) : List Name :=
  g.names.filter (x ∈ g.placedIn kind ·)

/-- A name is placed and not declared, or declared and not placed. -/
def Unmatched (g : RegionGraph) (kind : Placed) (x : Name) : Prop :=
  ¬(x ∈ Entries.keys (g.sites kind) ↔ ∃ p, x ∈ g.placedIn kind p)

/-- The problem is about the name. -/
def Concerns (g : RegionGraph) : Problem → Name → Prop
  | .copies kind, x => 1 < g.copies kind x
  | .unmatched kind, x => g.Unmatched kind x

/-- The graph has the problem. -/
def Has (g : RegionGraph) (problem : Problem) : Prop := ∃ x, g.Concerns problem x

/-- The order of the names in a report: names that are placed more than once stand in the order in which they
are first placed, and names that are not matched in the order of names. -/
def InOrder (g : RegionGraph) : Problem → List Name → Prop
  | .copies kind, names => names.Sublist (g.names.flatMap (g.placedIn kind)).eraseDups
  | .unmatched _, names => names.Pairwise (· < ·)

/-- The names are those that the problem is about, each once and in order. -/
structure Lists (g : RegionGraph) (problem : Problem) (names : List Name) : Prop where
  nodup : names.Nodup
  mem_iff : ∀ {x}, x ∈ names ↔ g.Concerns problem x
  inOrder : g.InOrder problem names

/-- The problem is told with the names that it is about, and a name that is placed more than once with the
regions that hold it. -/
def Tells (g : RegionGraph) : PlacementFault → Prop
  | .duplicated kind names =>
      g.Lists (.copies kind) (names.map (·.1)) ∧ ∀ n ∈ names, n.2 = g.holders kind n.1
  | .mismatched kind names => g.Lists (.unmatched kind) names

/-- The text is the one on the problem, with the names that it is about and the regions that hold them. -/
def Writes (g : RegionGraph) (problem : Problem) (text : String) : Prop :=
  ∃ names : List (String × List String),
    g.Lists problem (names.map fun n => .text n.1) ∧
      (∀ n ∈ names, n.2.map .text = g.holders problem.kind (.text n.1)) ∧ text = problem.entry names

/-- Of several problems those that the graph has are told, each once and in order. -/
structure Reports (g : RegionGraph) (problems : List Problem) (causes : List PlacementFault) : Prop where
  inOrder : (causes.map (·.problem)).Sublist problems
  mem_iff : ∀ {problem}, problem ∈ problems → (problem ∈ causes.map (·.problem) ↔ g.Has problem)
  tells : ∀ cause ∈ causes, g.Tells cause

/-- Regions, and what is placed or declared, are named by texts. -/
structure TextNames (g : RegionGraph) : Prop where
  region : ∀ p ∈ g.names, p.text? ≠ none
  placed : ∀ kind p, ∀ x ∈ g.placedIn kind p, x.text? ≠ none
  declared : ∀ kind, ∀ x ∈ Entries.keys (g.sites kind), x.text? ≠ none

variable {g : RegionGraph} {kind : Placed} {x : Name} {problem : Problem} {names : List Name}
  {cause : PlacementFault}

/-! ## Reports -/

/-- One problem, if there is anything to be told of it. -/
theorem Reports.entry {α : Type} {l : List α} (cause : PlacementFault) (htells : g.Tells cause)
    (hhas : (∃ a, a ∈ l) ↔ g.Has cause.problem) :
    g.Reports [cause.problem] (if l.isEmpty then [] else [cause]) := by
  rw [← List.isEmpty_eq_false_iff_exists_mem] at hhas
  -- a problem is reported if there is anything to be told of it, and that is what the problem is
  cases hl : l.isEmpty with
  | true =>
    have hnone : ¬g.Has cause.problem := by simp [← hhas, hl]
    exact ⟨List.nil_sublist _, by simp [hnone], by simp⟩
  | false => exact ⟨List.Sublist.refl _, by simp [hhas.1 hl], by simpa using htells⟩

/-- Further problems are reported behind the others. -/
theorem Reports.append {l m : List Problem} {causes causes' : List PlacementFault}
    (h : g.Reports l causes) (h' : g.Reports m causes') : g.Reports (l ++ m) (causes ++ causes') where
  inOrder := by
    rw [List.map_append]
    exact h.inOrder.append h'.inOrder
  mem_iff {problem} hmem := by
    rw [List.map_append, List.mem_append]
    constructor
    · rintro (hc | hc)
      · exact (h.mem_iff (h.inOrder.subset hc)).1 hc
      · exact (h'.mem_iff (h'.inOrder.subset hc)).1 hc
    · intro hhas
      exact (List.mem_append.1 hmem).imp (fun hl => (h.mem_iff hl).2 hhas) fun hm => (h'.mem_iff hm).2 hhas
  tells cause hc := (List.mem_append.1 hc).elim (h.tells cause) (h'.tells cause)

/-- Nothing is reported of a graph that has none of the problems. -/
theorem Reports.eq_nil_iff {problems : List Problem} {causes : List PlacementFault}
    (h : g.Reports problems causes) : causes = [] ↔ ∀ problem ∈ problems, ¬g.Has problem := by
  constructor
  · rintro rfl problem hmem hhas
    simpa using (h.mem_iff hmem).2 hhas
  · intro hnone
    refine List.eq_nil_iff_forall_not_mem.2 fun cause hc => ?_
    have hmem := List.mem_map_of_mem (f := (·.problem)) hc
    have hproblem := h.inOrder.subset hmem
    exact hnone _ hproblem ((h.mem_iff hproblem).1 hmem)

/-! ## The problems of a graph -/

namespace Keyed

variable (h : g.Keyed)

include h

theorem count_placements : ((g.placements kind).flatMap (·.2)).count x = g.copies kind x := by
  rw [h.flatMap_placements, List.count_flatMap]
  rfl

theorem owners_placements : owners (g.placements kind) x = g.holders kind x := by
  rw [h.placements_eq, owners, List.filter_map, List.map_map]
  exact List.map_id _

theorem mem_placements_of_copies (hx : 1 < g.copies kind x) :
    x ∈ (g.placements kind).flatMap (·.2) := by
  rw [← h.count_placements] at hx
  apply List.count_pos_iff.1
  omega

/-- What is placed more than once is reported first, and then what is not matched. -/
theorem reports_placementFaults (kind : Placed) :
    g.Reports [.copies kind, .unmatched kind]
      (placementFaults kind (g.placements kind) (Entries.keys (g.sites kind))) := by
  unfold placementFaults
  extract_lets all duplicated mismatched
  refine Reports.append (l := [.copies kind]) (m := [.unmatched kind]) ?_ ?_
  · have hmem {x : Name} : x ∈ duplicated ↔ g.Concerns (.copies kind) x := by
      rw [List.mem_filter, List.mem_eraseDups, decide_eq_true_eq, h.count_placements]
      apply and_iff_right_of_imp
      exact h.mem_placements_of_copies
    have horder : g.InOrder (.copies kind) duplicated := by
      show duplicated.Sublist (g.names.flatMap (g.placedIn kind)).eraseDups
      rw [← h.flatMap_placements]
      exact List.filter_sublist
    -- the regions are told beside the names, which stay the same
    have hfst : (duplicated.map fun x => (x, owners (g.placements kind) x)).map (·.1) = duplicated := by
      rw [List.map_map]
      exact List.map_id _
    refine Reports.entry (.duplicated kind _) ⟨?_, ?_⟩ ?_
    · rw [hfst]
      exact ⟨(nodup_eraseDups all).filter _, hmem, horder⟩
    · intro n hn
      obtain ⟨x, -, rfl⟩ := List.mem_map.1 hn
      exact h.owners_placements
    · exact exists_congr fun _ => hmem
  · have hmem {x : Name} : x ∈ mismatched ↔ g.Concerns (.unmatched kind) x := by
      rw [Concerns, Unmatched, ← h.mem_flatMap_placements, NameSet.mem_ofList]
      simp only [List.mem_append, List.mem_filter, decide_eq_true_eq]
      tauto
    refine Reports.entry (.mismatched kind _) ⟨mismatched.nodup_toList, hmem, mismatched.sorted⟩ ?_
    exact exists_congr fun _ => hmem

/-- All problems of a graph are reported. -/
theorem reports_faults : g.Reports Problem.all g.faults := by
  rw [faults_eq]
  exact (h.reports_placementFaults .transitions).append (h.reports_placementFaults .locations)

/-- The problems of a graph whose names are texts are about texts. -/
theorem text_of_concerns (htexts : g.TextNames) (hx : g.Concerns problem x) : x.text? ≠ none := by
  cases problem with
  | copies kind =>
    obtain ⟨p, hp⟩ := h.mem_flatMap_placements.1 (h.mem_placements_of_copies hx)
    exact htexts.placed kind p x hp
  | unmatched kind =>
    by_cases hdeclared : x ∈ Entries.keys (g.sites kind)
    · exact htexts.declared kind x hdeclared
    · -- what is not declared is placed, or it would be matched
      have hplaced : ∃ p, x ∈ g.placedIn kind p := by
        by_contra hnone
        exact hx (iff_of_false hdeclared hnone)
      obtain ⟨p, hp⟩ := hplaced
      exact htexts.placed kind p x hp

end Keyed

/-! ## Texts of names -/

theorem TextNames.holders (htexts : g.TextNames) : ∀ p ∈ g.holders kind x, p.text? ≠ none := by
  intro p hp
  exact htexts.region p (List.mem_of_mem_filter hp)

/-- Where all names are texts all problems can be told. -/
theorem Tells.tellable (h : g.Tells cause) (hkeyed : g.Keyed) (htexts : g.TextNames) :
    cause.tellable = .ok () := by
  have hlisted : ∀ n ∈ cause.listed, n.text? ≠ none := by
    intro n hn
    cases cause with
    | duplicated kind names =>
      obtain ⟨x, hx, hn⟩ := List.mem_flatMap.1 hn
      rw [h.2 x hx] at hn
      exact htexts.holders n hn
    | mismatched kind names => exact hkeyed.text_of_concerns htexts (h.mem_iff.1 hn)
  cases htell : cause.tellable with
  | ok _ => rfl
  | error fault =>
    obtain ⟨-, n, hn, hodd⟩ := exists_odd_of_tellable htell
    exact absurd hodd (hlisted n hn)

/-- The text in which the names and the regions that hold them are spelled is the one on the problem. -/
theorem Lists.writes (h : g.Lists problem names) (hkeyed : g.Keyed) (htexts : g.TextNames) :
    g.Writes problem (problem.entry (names.map fun x =>
      (x.spelling, (g.holders problem.kind x).map Name.spelling))) := by
  have hnames : ∀ x ∈ names, x.text? ≠ none := by
    intro x hx
    exact hkeyed.text_of_concerns htexts (h.mem_iff.1 hx)
  refine ⟨_, ?_, ?_, rfl⟩
  · have hspelled := map_text_spelling hnames
    rw [List.map_map] at hspelled ⊢
    exact hspelled.symm ▸ h
  · intro n hn
    obtain ⟨x, hx, rfl⟩ := List.mem_map.1 hn
    have htext : Name.text x.spelling = x := by
      cases x with
      | text s => rfl
      | odd v => exact absurd rfl (hnames _ hx)
    show ((g.holders problem.kind x).map Name.spelling).map .text = g.holders problem.kind (.text x.spelling)
    rw [htext]
    exact map_text_spelling htexts.holders

/-- The names that a problem is about have one order. -/
theorem Lists.unique {names' : List Name} (h : g.Lists problem names) (h' : g.Lists problem names') :
    names = names' := by
  have hmem : ∀ x, x ∈ names ↔ x ∈ names' := fun x => h.mem_iff.trans h'.mem_iff.symm
  have horder := h.inOrder
  have horder' := h'.inOrder
  cases problem with
  | copies kind =>
    -- both are parts of one list without repetitions
    apply ((nodup_eraseDups _).perm_iff_eq_of_sublist horder horder').1
    exact (List.perm_ext_iff_of_nodup h.nodup h'.nodup).2 hmem
  | unmatched kind => exact NameSet.eq_of_sorted horder horder' hmem

/-- There is only one text on a problem. -/
theorem Writes.unique {text text' : String} (h : g.Writes problem text) (h' : g.Writes problem text') :
    text = text' := by
  obtain ⟨l, hl, hholders, rfl⟩ := h
  obtain ⟨l', hl', hholders', rfl⟩ := h'
  -- a name determines the regions that hold it, so that the names determine the whole list
  let told (n : String × List String) : Name × List Name := (.text n.1, n.2.map .text)
  have htold {l : List (String × List String)}
      (h : ∀ n ∈ l, n.2.map .text = g.holders problem.kind (.text n.1)) :
      l.map told = (l.map fun n => Name.text n.1).map fun x => (x, g.holders problem.kind x) := by
    rw [List.map_map]
    exact List.map_congr_left fun n hn => Prod.ext rfl (h n hn)
  have htext : Function.Injective Name.text := fun _ _ => Name.text.inj
  have hinjective : Function.Injective told := by
    intro n n' heq
    obtain ⟨hname, hregions⟩ := Prod.mk.inj heq
    exact Prod.ext (htext hname) (List.map_injective_iff.2 htext hregions)
  have hlist : l.map told = l'.map told := by rw [htold hholders, htold hholders', hl.unique hl']
  rw [List.map_injective_iff.2 hinjective hlist]

theorem message_duplicated (kind : Placed) (names : List (Name × List Name)) :
    (PlacementFault.duplicated kind names).message =
      (Problem.copies kind).entry (names.map fun n => (n.1.spelling, n.2.map Name.spelling)) := by
  have hheading : (Problem.copies kind).heading =
      "The following " ++ kind.name ++ " appeared in multiple regions: " := by
    cases kind <;> decide
  rw [Problem.entry, hheading, List.map_map]
  rfl

/-- Of names that are not matched the regions are not told. -/
theorem message_mismatched (kind : Placed) (names : List Name) (regions : Name → List String) :
    (PlacementFault.mismatched kind names).message =
      (Problem.unmatched kind).entry (names.map fun x => (x.spelling, regions x)) := by
  have hheading : (Problem.unmatched kind).heading =
      "Expected declared " ++ kind.name ++ " to exactly match placed " ++ kind.name ++
        ", but the following were not matched: " := by
    cases kind <;> decide
  rw [Problem.entry, hheading, List.map_map]
  rfl

/-- What is told of a problem is written in its text. -/
theorem Tells.writes (h : g.Tells cause) (hkeyed : g.Keyed) (htexts : g.TextNames) :
    g.Writes cause.problem cause.message := by
  cases cause with
  | duplicated kind names =>
    obtain ⟨hlists, hholders⟩ := h
    have hnames : (names.map fun n => (n.1.spelling, n.2.map Name.spelling)) =
        (names.map (·.1)).map fun x => (x.spelling, (g.holders kind x).map Name.spelling) := by
      rw [List.map_map]
      refine List.map_congr_left fun n hn => ?_
      rw [hholders n hn]
      rfl
    rw [message_duplicated, hnames]
    exact hlists.writes hkeyed htexts
  | mismatched kind names =>
    rw [message_mismatched]
    exact Lists.writes h hkeyed htexts

end RegionGraph

open RegionGraph

/-- The check reports what it finds and changes nothing. -/
theorem outcome_validate_of_textNames {s : Session} (hkeyed : s.graph.Keyed) (htexts : s.graph.TextNames) :
    outcome validate s =
      (if s.graph.faults = [] then .ok () else .error (.placement s.graph.faults), s) := by
  have htell : s.graph.faults.forM PlacementFault.tellable = .ok () := by
    cases hall : s.graph.faults.forM PlacementFault.tellable with
    | ok _ => rfl
    | error fault =>
      obtain ⟨cause, hcause, hfault⟩ := exists_error_of_forM hall
      rw [(hkeyed.reports_faults.tells cause hcause).tellable hkeyed htexts] at hfault
      cases hfault
  rw [validate, outcome_graph_bind]
  split
  · next hnil => rw [if_pos hnil]; rfl
  · next hne =>
    have hforM := outcome_forM_except PlacementFault.tellable s.graph.faults s
    rw [htell] at hforM
    rw [if_neg (by exact hne)]
    exact outcome_bind_of_ok hforM

/-- Whatever is placed in the regions and whatever is declared, the check fails with problems of the
placement if and only if there are any, and otherwise it succeeds. It reports all problems that there are,
each once and in order, with the names that they are about. The text on a problem is the one that has exactly
these names, and beside a name that is placed more than once the regions that hold it. The message of the fault
consists of the texts. The check changes nothing. -/
theorem validate_reports (s : Session) (hkeyed : s.graph.Keyed) (htexts : s.graph.TextNames) :
    ((∃ causes, (outcome validate s).1 = .error (.placement causes)) ↔ ∃ problem, s.graph.Has problem) ∧
      ((outcome validate s).1 = .ok () ↔ ∀ problem, ¬s.graph.Has problem) ∧
      (∀ causes, (outcome validate s).1 = .error (.placement causes) →
        s.graph.Reports Problem.all causes ∧
          (∀ cause ∈ causes, ∀ text, s.graph.Writes cause.problem text ↔ text = cause.message) ∧
          (Fault.placement causes).message =
            "One or more validation errors have occurred:\n" ++ "\n".intercalate (causes.map (·.message))) ∧
      (outcome validate s).2 = s := by
  have hreports := hkeyed.reports_faults
  have hall (problem : Problem) : problem ∈ Problem.all := by
    rcases problem with kind | kind <;> cases kind <;> decide
  have hnil : s.graph.faults = [] ↔ ∀ problem, ¬s.graph.Has problem := by
    rw [hreports.eq_nil_iff]
    exact forall_congr' fun problem => by simp [hall problem]
  rw [outcome_validate_of_textNames hkeyed htexts]
  by_cases hfaults : s.graph.faults = []
  · rw [if_pos hfaults]
    have hnone := hnil.1 hfaults
    exact ⟨by simp [hnone], by simp [hnone], by rintro causes ⟨⟩, rfl⟩
  · rw [if_neg hfaults]
    have hsome : ∃ problem, s.graph.Has problem := by simpa using mt hnil.2 hfaults
    refine ⟨iff_of_true ⟨_, rfl⟩ hsome, iff_of_false (by rintro ⟨⟩) (by simpa using hsome), ?_, rfl⟩
    intro causes heq
    obtain rfl := Fault.placement.inj (Except.error.inj heq)
    refine ⟨hreports, fun cause hcause text => ?_, rfl⟩
    have hwrites := (hreports.tells cause hcause).writes hkeyed htexts
    constructor
    · intro htext
      exact htext.unique hwrites
    · rintro rfl
      exact hwrites

/-- A hall and a yard with a bell in each and a second one in the yard, which is a location and a transition
and declared as neither, and a well that is declared and nowhere. -/
def bellGraph : RegionGraph where
  regions := [("Hall", { name := "Hall", locations := ["Bell"], transitions := ["Gate"] }),
    ("Yard", { name := "Yard", locations := ["Bell", "Bell"], transitions := ["Bell"] })]
  locations := [("Well", { name := "Well", logic := [] })]
  transitions := [("Gate", { name := "Gate", logic := [] })]

/-- What is placed twice and what is not matched is reported, and of the transitions only the latter. -/
theorem validate_reports_bellGraph :
    bellGraph.Keyed ∧ bellGraph.TextNames ∧
      (outcome validate ⟨bellGraph, []⟩).1 = .error (.placement
        [.mismatched .transitions ["Bell"], .duplicated .locations [("Bell", ["Hall", "Yard"])],
          .mismatched .locations ["Bell", "Well"]]) ∧
      bellGraph.Tells (.duplicated .locations [("Bell", ["Hall", "Yard"])]) ∧
      bellGraph.Writes (.unmatched .transitions)
        ("Expected declared transitions to exactly match placed transitions, " ++
          "but the following were not matched: Bell") ∧
      bellGraph.Writes (.copies .locations)
        "The following locations appeared in multiple regions: Bell (in Hall, Yard)" ∧
      bellGraph.Writes (.unmatched .locations)
        ("Expected declared locations to exactly match placed locations, " ++
          "but the following were not matched: Bell, Well") ∧
      (∃ problem, bellGraph.Has problem) ∧ ¬bellGraph.Has (.copies .transitions) := by
  have hkeyed : bellGraph.Keyed := by
    refine ⟨by decide, fun {n r} hr => ?_⟩
    have hmem := Entries.mem_of_find? hr
    simp only [bellGraph, List.mem_cons, Prod.mk.injEq, List.not_mem_nil, or_false] at hmem
    rcases hmem with ⟨rfl, rfl⟩ | ⟨rfl, rfl⟩ <;> rfl
  have htexts : bellGraph.TextNames := by
    refine ⟨by decide, fun kind p x hx => ?_, fun kind => by cases kind <;> decide⟩
    have hp : p = "Hall" ∨ p = "Yard" := by simpa [bellGraph, names] using mem_names_of_mem_placedIn hx
    revert x
    rcases hp with rfl | rfl <;> cases kind <;> decide
  have hfault : (outcome validate ⟨bellGraph, []⟩).1 = .error (.placement
      [.mismatched .transitions ["Bell"], .duplicated .locations [("Bell", ["Hall", "Yard"])],
        .mismatched .locations ["Bell", "Well"]]) := by
    decide +kernel
  obtain ⟨hiff, -, hreports, -⟩ := validate_reports ⟨bellGraph, []⟩ hkeyed htexts
  obtain ⟨hreport, hwrites, -⟩ := hreports _ hfault
  rw [List.forall_mem_cons, List.forall_mem_cons, List.forall_mem_singleton] at hwrites
  obtain ⟨htransitions, hcopies, hlocations⟩ := hwrites
  refine ⟨hkeyed, htexts, hfault, hreport.tells _ (by simp), (htransitions _).2 rfl, (hcopies _).2 rfl,
    (hlocations _).2 rfl, hiff.1 ⟨_, hfault⟩, ?_⟩
  rw [← hreport.mem_iff (by decide)]
  decide

end RegionLogic
