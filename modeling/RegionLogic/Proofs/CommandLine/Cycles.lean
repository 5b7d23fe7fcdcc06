import Mathlib.Data.Set.List
import RegionLogic.CommandLine.Run
import RegionLogic.Files.Tree
import RegionLogic.Proofs.Waypoint.SubstitutionOrder

/-!
# Reports of reference cycles

Objects whose references go round in cycles cannot be substituted into each other. The cycles are told in two
places: as the fault of the order of substitution, and in the lines that the command for cycles prints. Both
reports hold the same names of a graph. They hold all names on cycles if roots lead to all of them or to none,
and otherwise leave out those to which no root leads.

## Main definitions

* `Shows`: the names that lines show in groups
* `CommandLine.report`: what the command for cycles prints

## Main results

* `coherent_referenceGraph`: the references between objects make a graph whose sides agree
* `CommandLine.exists_cycleLines`: the lines show what a report of the cycles holds
* `CommandLine.run_cycles`: the command prints the lines
* `cycles_told`: both reports of any graph
-/

namespace RegionLogic

open WaypointGraph

variable {g : WaypointGraph} {a : Name}

/-! ## References between objects -/

theorem coherent_referenceGraph {objects : List LogicObject} (h : referenceGraph objects = .ok g) :
    g.Coherent ∧ ∀ a ∈ g.names, ∃ o ∈ objects, o.name = a := by
  refine holds_of_foldlM (P := fun g => g.Coherent ∧ ∀ a ∈ g.names, ∃ o ∈ objects, o.name = a) ?_ ?_ h
  · intro o ho g g' hg hstep
    obtain ⟨names, -, hstep⟩ := bind_eq_ok.1 hstep
    obtain rfl := Except.ok.inj hstep
    refine ⟨hg.1.update _ _, fun a ha => ?_⟩
    rcases mem_names_update.1 ha with ha | rfl | ha
    · exact hg.2 a ha
    · exact ⟨o, ho, rfl⟩
    · obtain ⟨-, hknown⟩ := NameSet.mem_inter.1 (NameSet.mem_toList.1 ha)
      exact List.mem_map.1 (NameSet.mem_ofList.1 hknown)
  · exact ⟨coherent_empty, by simp [names, empty]⟩

/-! ## Lines -/

/-- The lines show the names for which `p` holds: each line is a group of them with separators between
them. -/
def Shows (lines : List String) (p : Name → Prop) : Prop :=
  ∃ separator ∈ [" -> ", ", "], ∃ groups : List (List String),
    (∀ line, line ∈ lines ↔ ∃ names ∈ groups, line = separator.intercalate names) ∧
    ∀ a, (∃ names ∈ groups, a ∈ names.map .text) ↔ p a

/-- Walks that pass texts only. -/
theorem exists_texts_of_walks {walks : List Walk} (h : ∀ w ∈ walks, ∀ a ∈ w.names, a.text? ≠ none) :
    ∃ groups : List (List String), groups.map (fun names => ⟨names.map .text⟩) = walks := by
  have hrange : ∀ w ∈ walks, w ∈ Set.range fun names : List String => (⟨names.map .text⟩ : Walk) := by
    intro w hw
    obtain ⟨texts, htexts⟩ := exists_texts (h w hw)
    exact ⟨texts, congrArg Walk.mk htexts⟩
  exact (Set.ext_iff.1 (Set.range_list_map _) walks).2 hrange

theorem mapM_text_walks (groups : List (List String)) :
    (groups.map fun names => (⟨names.map .text⟩ : Walk)).mapM (·.text) =
      .ok (groups.map (" -> ".intercalate ·)) := by
  induction groups with
  | nil => rfl
  | cons names groups ih =>
    rw [List.map_cons, List.mapM_cons, ih, Walk.text, joinNames_text]
    rfl

namespace CommandLine

/-- The lines show what a report of the cycles holds. -/
theorem exists_cycleLines (hg : g.Coherent) (htext : ∀ a ∈ g.names, a.text? ≠ none) :
    ∃ lines, cycleLines g = .ok lines ∧ Shows lines g.Told := by
  have hgroups : ∀ w ∈ g.cycleGroups, ∀ a ∈ w.names, a.text? ≠ none := by
    intro w hw a ha
    exact htext a (mem_cycleGroups.1 ⟨w, hw, ha⟩).1.mem_names
  obtain ⟨groups, hmap⟩ := exists_texts_of_walks hgroups
  rw [cycleLines, ← hmap, mapM_text_walks]
  rcases groups with _ | ⟨names, groups⟩
  · -- no group, so all names on cycles are shown in one line
    have hcyclic : ∀ a ∈ g.cyclicNames, a.text? ≠ none := fun a ha =>
      htext a (hg.mem_cyclicNames.1 ha).mem_names
    obtain ⟨texts, htexts⟩ := exists_texts hcyclic
    refine ⟨[", ".intercalate texts], ?_, ", ", by simp, [texts], by simp, fun a => ?_⟩
    · rw [inOrder_of_texts hcyclic, ← htexts]
      simp only [bind, Except.bind, joinNames_text]
      rfl
    · rw [hg.told_iff, if_pos (hmap.symm.trans List.map_nil), ← NameSet.mem_toList, ← htexts]
      simp
  · -- a group that several walks have is shown once
    refine ⟨((names :: groups).map (" -> ".intercalate ·)).eraseDups, ?_, " -> ", by simp, names :: groups, ?_, ?_⟩
    · simp only [List.map_cons, List.eraseDups_cons, bind, Except.bind]
      rfl
    · intro line
      rw [List.mem_eraseDups, List.mem_map]
      exact exists_congr fun names => and_congr_right fun _ => eq_comm
    · intro a
      have hne : g.cycleGroups ≠ [] := by
        rw [← hmap]
        exact List.cons_ne_nil _ _
      rw [hg.told_iff, if_neg hne, ← hmap]
      simp

end CommandLine

/-! ## What is printed -/

namespace Job

variable {α β : Type} {job : Job (StateM FileTree) α} {k : α → Job (StateM FileTree) β} {t t' : Transcript}
  {files files' : FileTree}

/-- How a job ends that begins with a transcript and files. -/
def runFrom (job : Job (StateM FileTree) α) (t : Transcript) (files : FileTree) :
    (Except Fault α × Transcript) × FileTree :=
  (job.run.run t).run files

theorem runFrom_bind_of_ok {a : α} (h : job.runFrom t files = ((.ok a, t'), files')) :
    (job >>= k).runFrom t files = (k a).runFrom t' files' := by
  have hbind : (job >>= k).runFrom t files =
      ((ExceptT.bindCont k (job.runFrom t files).1.1).run (job.runFrom t files).1.2).run (job.runFrom t files).2 :=
    rfl
  rw [hbind, h]
  rfl

theorem runFrom_pure (a : α) : (pure a : Job (StateM FileTree) α).runFrom t files = ((.ok a, t), files) := rfl

theorem runFrom_ofExcept {x : Except Fault α} {a : α} (h : x = .ok a) :
    (ofExcept x : Job (StateM FileTree) α).runFrom t files = ((.ok a, t), files) := by
  rw [h]
  rfl

theorem runFrom_print (line : String) :
    (print line : Job (StateM FileTree) Unit).runFrom t files =
      ((.ok (), { t with printed := t.printed ++ line ++ "\n" }), files) :=
  rfl

theorem runFrom_forM_print {lines : List String} {f : String → String} :
    (lines.forM (fun line => print (f line)) : Job (StateM FileTree) Unit).runFrom t files =
      ((.ok (), { t with printed := t.printed ++ String.join (lines.map fun line => f line ++ "\n") }), files) := by
  induction lines generalizing t with
  | nil =>
    have hnil : t.printed ++ String.join [] = t.printed := String.append_empty
    rw [List.map_nil, hnil]
    rfl
  | cons line lines ih =>
    refine (runFrom_bind_of_ok (runFrom_print (f line))).trans (ih.trans ?_)
    simp [String.append_assoc]

theorem runFrom_readFile {path : Path} {text : String} (h : files.readText path = .ok text) :
    (readFile path : Job (StateM FileTree) String).runFrom t files = ((.ok (Text.unifyLines text), t), files) := by
  have hfile : (Job.files (FileAccess.readText path) : Job (StateM FileTree) _).runFrom t files =
      ((.ok (files.readText path), t), files) := rfl
  rw [readFile, runFrom_bind_of_ok hfile, runFrom_bind_of_ok (runFrom_ofExcept h), runFrom_pure]

/-- The objects of a world are read from its file, and their number is recorded. -/
theorem runFrom_readWorld {path : Path} {text : String} {objects : List LogicObject}
    (htext : files.readText path = .ok text)
    (hload : ((Json.read (Text.unifyLines text)).mapError Fault.ofUnreadable >>= fun v =>
      WorldEntry.readAll path v >>= fun entries => entries.mapM (·.toObject)) = .ok objects) :
    (readWorld path).runFrom t files =
      ((.ok objects, { t with events := t.events ++
        [⟨.info, .reader, s!"Loaded {objects.length} logic objects from {path.text}"⟩] }), files) := by
  obtain ⟨v, hvalue, hload⟩ := bind_eq_ok.1 hload
  obtain ⟨entries, hentries, hobjects⟩ := bind_eq_ok.1 hload
  have hjson : (readJson path : Job (StateM FileTree) Json).runFrom t files = ((.ok v, t), files) := by
    rw [readJson, runFrom_bind_of_ok (runFrom_readFile htext), runFrom_ofExcept hvalue]
  have hread : (readEntries path).runFrom t files =
      ((.ok entries, { t with events := t.events ++
        [⟨.info, .reader, s!"Loaded {objects.length} logic objects from {path.text}"⟩] }), files) := by
    rw [← (forall₂_of_mapM hobjects).length_eq, readEntries, runFrom_bind_of_ok hjson,
      runFrom_bind_of_ok (runFrom_ofExcept hentries)]
    rfl
  rw [readWorld, runFrom_bind_of_ok hread, runFrom_ofExcept hobjects]

end Job

namespace CommandLine

/-- What the command for cycles prints. -/
def report (lines : List String) : String :=
  s!"Reference cycles ({lines.length})" ++ "\n" ++ .ofList (List.replicate 60 '=') ++ "\n" ++
    String.join (lines.map fun line => "  " ++ line ++ "\n")

/-- The command prints the lines. -/
theorem run_cycles {settings : Json} {quiet : Bool} {path : Path} {patterns lines : List String}
    {loaded objects : List LogicObject} {model : ClassificationModel} {t t' : Transcript}
    {files files' : FileTree}
    (hread : (Job.readWorld path).runFrom t files = ((.ok loaded, t'), files'))
    (hselect : selectObjects patterns loaded = .ok objects)
    (hmodel : ClassificationModel.ofSettings settings = .ok model) (hgraph : referenceGraph objects = .ok g)
    (hcyclic : a ∈ g.cyclicNames) (hlines : cycleLines g = .ok lines) :
    (cycles settings quiet (some path) patterns).runFrom t files =
      ((.ok .done, { t' with printed := t'.printed ++ report lines }), files') := by
  have hsome : g.cyclicNames.isEmpty = false := List.isEmpty_eq_false_iff.2 (List.ne_nil_of_mem hcyclic)
  unfold cycles
  dsimp only
  rw [pure_bind]
  dsimp only
  rw [Job.runFrom_bind_of_ok hread, Job.runFrom_bind_of_ok (Job.runFrom_ofExcept hselect),
    Job.runFrom_bind_of_ok (Job.runFrom_ofExcept hmodel), Job.runFrom_bind_of_ok (Job.runFrom_ofExcept hgraph),
    hsome, if_neg Bool.false_ne_true, Job.runFrom_bind_of_ok (Job.runFrom_ofExcept hlines),
    Job.runFrom_bind_of_ok (Job.runFrom_print _), Job.runFrom_bind_of_ok (Job.runFrom_print _),
    Job.runFrom_bind_of_ok Job.runFrom_forM_print, Job.runFrom_pure]
  unfold report
  simp only [String.append_assoc]

end CommandLine

/-! ## Both reports -/

/-- Both reports of a graph with cycles hold the same names: the fault of the order of substitution in any graph
that operations make, and what the command prints of any objects whose names are texts. They hold a name on a
cycle if and only if a root leads to it or no root leads to any cycle, and so all names on cycles if and only if
roots lead to all of them or to none. -/
theorem cycles_told (ops : List Operation) (objects : List LogicObject) :
    (∀ a ∈ (after ops).cyclicNames,
      ∃ cycles, (after ops).substitutionOrder = .error (.cyclic cycles) ∧
        ((∀ b ∈ (after ops).names, b.text? ≠ none) → (after ops).toldOrder = .error (.cyclic cycles)) ∧
        ∀ b, (∃ names ∈ cycles, b ∈ names) ↔ (after ops).Told b) ∧
    (∀ (g : WaypointGraph) (a : Name), (∀ o ∈ objects, o.name.text? ≠ none) →
      referenceGraph objects = .ok g → a ∈ g.cyclicNames →
      ∃ lines, Shows lines g.Told ∧
        ∀ (settings : Json) (quiet : Bool) (path : Path) (patterns : List String) (loaded : List LogicObject)
          (model : ClassificationModel) (t t' : Transcript) (files files' : FileTree),
          (Job.readWorld path).runFrom t files = ((.ok loaded, t'), files') →
          CommandLine.selectObjects patterns loaded = .ok objects →
          ClassificationModel.ofSettings settings = .ok model →
          (CommandLine.cycles settings quiet (some path) patterns).runFrom t files =
            ((.ok .done, { t' with printed := t'.printed ++ CommandLine.report lines }), files')) ∧
    ∀ g : WaypointGraph, (∀ a ∈ g.cyclicNames, g.Told a) ↔
      (∀ a ∈ g.cyclicNames, g.LedTo a) ∨ ∀ a ∈ g.cyclicNames, ¬g.LedTo a := by
  refine ⟨?_, ?_, fun g => told_all_iff⟩
  · intro a ha
    have hg := coherent_after ops
    obtain ⟨cycles, hcycles, htold⟩ := hg.substitutionOrder_of_onCycle (hg.mem_cyclicNames.1 ha)
    refine ⟨cycles, hcycles, fun htext => toldOrder_of_texts hcycles fun names hnames b hb => ?_, htold⟩
    exact htext b (hg.mem_cyclicNames.1 ((htold b).1 ⟨names, hnames, hb⟩).1).mem_names
  · intro g a htext hgraph ha
    obtain ⟨hg, hnames⟩ := coherent_referenceGraph hgraph
    obtain ⟨lines, hlines, hshows⟩ := CommandLine.exists_cycleLines hg fun b hb => by
      obtain ⟨o, ho, rfl⟩ := hnames b hb
      exact htext o ho
    refine ⟨lines, hshows, ?_⟩
    intro settings quiet path patterns loaded model t t' files files' hread hselect hmodel
    exact CommandLine.run_cycles hread hselect hmodel hgraph ha hlines

/-- The objects of the given names that draw state from one other object each. -/
def chained (l : List (String × String)) : List LogicObject :=
  l.map fun (name, provider) => { name := .text name, logic := [{ provider := some (.text provider) }] }

/-- Of the hen and the egg each comes from the other. -/
def henWorld : String :=
  "\x7b\"LogicObjects\":[\x7b\"Name\":\"Egg\",\"Logic\":[\x7b\"StateProvider\":\"Hen\"\x7d]\x7d," ++
    "\x7b\"Name\":\"Hen\",\"Logic\":[\x7b\"StateProvider\":\"Egg\"\x7d]\x7d]\x7d"

/-- The place of that world. -/
def henPath : Path := ⟨"", ["hen.json"]⟩

/-- The files with that world. -/
def henFiles : FileTree := { files := [(henPath.steps, henWorld)] }

/-- A gate leads into a round of two halls, and nothing leads to the hen and the egg. -/
def gateOps : List Operation :=
  [.update "Gate" ["Hall"], .update "Hall" ["Loop"], .update "Loop" ["Hall"], .update "Egg" ["Hen"],
    .update "Hen" ["Egg"]]

/-- Two names that refer to each other are on a cycle. -/
theorem mem_cyclicNames_of_mutual {ops : List Operation} {b : Name} (hab : b ∈ (after ops).references a)
    (hba : a ∈ (after ops).references b) : a ∈ (after ops).cyclicNames :=
  (coherent_after ops).mem_cyclicNames.2 (.tail (.single hab) hba)

/-- The gate leads to the halls, so a report of all five holds the halls only. The hen and the egg alone are
printed. -/
theorem cycles_told_hen :
    (("Egg" : Name) ∈ (after gateOps).cyclicNames ∧ ∃ cycles,
      (after gateOps).toldOrder = .error (.cyclic cycles) ∧
      ∀ b, (∃ names ∈ cycles, b ∈ names) ↔ (after gateOps).Told b) ∧
    ∃ (g : WaypointGraph) (t : Transcript) (lines : List String),
      referenceGraph (chained [("Egg", "Hen"), ("Hen", "Egg")]) = .ok g ∧ ("Egg" : Name) ∈ g.cyclicNames ∧
      Shows lines g.Told ∧
      (CommandLine.cycles (.obj []) false (some henPath) []).runFrom {} henFiles =
        ((.ok .done, { t with printed := t.printed ++ CommandLine.report lines }), henFiles) := by
  constructor
  · have hegg : ("Egg" : Name) ∈ (after gateOps).cyclicNames :=
      mem_cyclicNames_of_mutual (b := "Hen") (by decide +kernel) (by decide +kernel)
    obtain ⟨cycles, -, hcycles, htold⟩ := (cycles_told gateOps []).1 "Egg" hegg
    exact ⟨hegg, cycles, hcycles (by decide +kernel), htold⟩
  · have hread : (Job.readWorld henPath).runFrom {} henFiles =
        ((.ok (chained [("Egg", "Hen"), ("Hen", "Egg")]), _), henFiles) :=
      Job.runFrom_readWorld (show henFiles.readText henPath = .ok henWorld by decide +kernel) (by decide +kernel)
    have hgraph : referenceGraph (chained [("Egg", "Hen"), ("Hen", "Egg")]) =
        .ok (after [.update "Egg" ["Hen"], .update "Hen" ["Egg"]]) := by decide +kernel
    have hegg : ("Egg" : Name) ∈ (after [.update "Egg" ["Hen"], .update "Hen" ["Egg"]]).cyclicNames :=
      mem_cyclicNames_of_mutual (b := "Hen") (by decide +kernel) (by decide +kernel)
    obtain ⟨lines, hshows, hrun⟩ := (cycles_told [] _).2.1 _ "Egg" (by decide +kernel) hgraph hegg
    exact ⟨_, _, lines, hgraph, hegg, hshows, hrun _ _ _ _ _ _ _ _ _ _ hread rfl rfl⟩

/-- The egg is on a cycle, but neither report holds it: no root leads to it, and the gate leads to another
cycle. -/
theorem egg_not_told :
    ("Egg" : Name) ∈ (after gateOps).cyclicNames ∧
    (after gateOps).toldOrder = .error (.cyclic [["Hall", "Loop"]]) ∧
    referenceGraph (chained [("Gate", "Hall"), ("Hall", "Loop"), ("Loop", "Hall"), ("Egg", "Hen"),
      ("Hen", "Egg")]) = .ok (after gateOps) ∧
    CommandLine.cycleLines (after gateOps) = .ok ["Hall -> Loop"] := by
  refine ⟨mem_cyclicNames_of_mutual (b := "Hen") ?_ ?_, ?_, ?_, ?_⟩ <;> decide +kernel

end RegionLogic
