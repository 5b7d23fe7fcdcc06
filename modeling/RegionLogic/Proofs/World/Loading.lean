import RegionLogic.Proofs.Region.ObjectGraph
import RegionLogic.Proofs.Requirement.Checked
import RegionLogic.World.Compile

/-!
# Malformed terms in loaded worlds

Loading a world checks that each term in it has a token. A provider that stands for no region passes this
check, and so does a modifier whose brackets do not stand around parameters. The one makes the addition of
its object fail, the other a cleanup that classifies it. Nothing else in a loaded world is malformed.

## Main results

* `checked_of_readAll`: the clauses of a loaded world have checked terms
* `Clause.Checked.ingestClause_eq_ok_iff`, `ingestAll_eq_ok_iff`: where additions fail
* `sound_ingestAll`: the modifiers in a graph are those of the objects, however far these have been added
* `exists_misplaced_of_clean`: where a cleanup fails
* `malformed_after_loading`: what of a loaded world is malformed
-/

namespace RegionLogic

open Building RegionGraph

variable {c : Clause} {o : LogicObject} {objects : List LogicObject} {s : Session} {fault : Fault}
  {P : Name → Prop}

/-! ## Loading -/

theorem WorldEntry.checked_of_read {v : Json} {e : WorldEntry} (h : read v = .ok e) :
    ∀ c ∈ e.logic, c.Checked := by
  unfold read readWith at h
  obtain ⟨name, -, h⟩ := bind_eq_ok.1 h
  obtain ⟨_, -, h⟩ := bind_eq_ok.1 h
  obtain ⟨items, -, h⟩ := bind_eq_ok.1 h
  obtain ⟨logic, hlogic, h⟩ := bind_eq_ok.1 h
  obtain ⟨_, -, h⟩ := bind_eq_ok.1 h
  obtain ⟨handling, -, h⟩ := bind_eq_ok.1 h
  obtain ⟨_, -, h⟩ := bind_eq_ok.1 h
  obtain rfl := Except.ok.inj h
  intro c hc
  obtain ⟨item, -, hitem⟩ := exists_left_of_forall₂ (forall₂_of_mapM hlogic) hc
  exact Clause.checked_of_read hitem

/-- The clauses of a loaded world have checked terms. -/
theorem checked_of_readAll {path : Path} {v : Json} {entries : List WorldEntry}
    (h : WorldEntry.readAll path v = .ok entries) (hobjects : entries.mapM (·.toObject) = .ok objects) :
    ∀ o ∈ objects, ∀ c ∈ o.logic, c.Checked := by
  unfold WorldEntry.readAll at h
  split at h
  · cases h
  obtain ⟨items, -, h⟩ := bind_eq_ok.1 h
  intro o ho
  obtain ⟨e, he, htoObject⟩ := exists_left_of_forall₂ (forall₂_of_mapM hobjects) ho
  obtain ⟨item, -, hitem⟩ := exists_left_of_forall₂ (forall₂_of_mapM h) he
  obtain ⟨name, -, h⟩ := bind_eq_ok.1 htoObject
  obtain rfl := Except.ok.inj h
  exact WorldEntry.checked_of_read hitem

/-! ## Adding the objects -/

namespace Clause.Checked

/-- A clause with checked terms is added if its provider stands for a region. -/
theorem ingestClause_eq_ok_iff (h : c.Checked) :
    (outcome (ingestClause o c) s).1 = .ok () ↔ c.ProviderFits := by
  obtain ⟨b, hb⟩ := h.parsable.exists_branch
  rw [← exists_parentRegion_iff]
  cases hp : c.parentRegion with
  | ok region => simp [outcome_ingestClause hp hb]
  | error fault =>
    rw [ingestClause, hp]
    refine iff_of_false ?_ ?_
    · rintro ⟨⟩
    · rintro ⟨_, ⟨⟩⟩

/-- Otherwise its provider is malformed. -/
theorem exists_cause_of_ingestClause (h : c.Checked)
    (ho : (outcome (ingestClause o c) s).1 = .error fault) : ∃ cause, fault = .term cause := by
  obtain ⟨b, hb⟩ := h.parsable.exists_branch
  cases hp : c.parentRegion with
  | ok region =>
    rw [outcome_ingestClause hp hb] at ho
    cases ho
  | error cause =>
    rw [ingestClause, hp] at ho
    obtain rfl : cause = fault := Except.error.inj ho
    exact h.exists_cause_of_parentRegion hp

end Clause.Checked

/-- Objects with checked terms are added if every provider stands for a region. -/
theorem ingestAll_eq_ok_iff (h : ∀ o ∈ objects, ∀ c ∈ o.logic, c.Checked) :
    (outcome (ingestAll objects) s).1 = .ok () ↔ ∀ o ∈ objects, ∀ c ∈ o.logic, c.ProviderFits := by
  refine outcome_forM_eq_ok_iff fun o ho s => ?_
  rw [ingest, outcome_change_bind]
  exact outcome_forM_eq_ok_iff fun c hc _ => (h o ho c hc).ingestClause_eq_ok_iff

theorem exists_cause_of_ingestAll (h : ∀ o ∈ objects, ∀ c ∈ o.logic, c.Checked)
    (hall : (outcome (ingestAll objects) s).1 = .error fault) : ∃ cause, fault = .term cause := by
  obtain ⟨o, ho, t, hingest⟩ := exists_of_outcome_forM_error hall
  rw [ingest, outcome_change_bind] at hingest
  obtain ⟨c, hc, u, hclause⟩ := exists_of_outcome_forM_error hingest
  exact (h o ho c hc).exists_cause_of_ingestClause hclause

/-! ## Cleaning -/

theorem exists_of_mem_readable {e : Name × Branch} {cs : List Clause} (h : e ∈ Clause.readable cs) :
    ∃ c ∈ cs, c.branch = .ok e.2 := by
  induction cs with
  | nil => cases h
  | cons c cs ih =>
    rw [Clause.readable] at h
    split at h
    · next p b hp hb =>
      rcases List.mem_cons.1 h with rfl | h
      · exact ⟨c, by simp, hb⟩
      · obtain ⟨c', hc', hb'⟩ := ih h
        exact ⟨c', List.mem_cons_of_mem c hc', hb'⟩
    · cases h

/-- However far objects have been added, the modifiers in the graph are those of their clauses. -/
theorem sound_ingestAll (h : ∀ o ∈ objects, ∀ c ∈ o.logic, ∀ m ∈ c.modifiers, P m) :
    (outcome (ingestAll objects) {}).2.graph.Sound (·.Modifies P) := by
  have hempty : Branch.empty.Modifies P := by
    intro m hm
    cases hm
  have hall : fresh.AllBranches (·.Modifies P) := by
    intro l hl
    cases hl
  -- as long as objects are only added, every location is free, which adding the next one needs
  refine (forM_preserves (P := fun g => g.LocationsFree ∧ g.Sound (·.Modifies P)) (fun o ho s hs => ?_)
    ⟨locationsFree_fresh, fresh_consistent, hall⟩).2
  obtain ⟨hfree, hg, hall⟩ := hs
  have hclauses : ∀ e ∈ Clause.readable o.logic, e.2.Modifies P := by
    intro e he
    obtain ⟨c, hc, hbranch⟩ := exists_of_mem_readable he
    unfold Branch.Modifies
    rw [(Clause.branch_eq_ok_iff.1 hbranch).modifiers]
    exact h o ho c hc
  refine ⟨(shows_ingest (f := .region o.name) hfree).1, consistent_afterCall hg (.ingest o), ?_⟩
  refine (consistent_afterCall hg (.ingest o)).allBranches_iff_shows.2 fun f hf => ?_
  -- a branch was there before or comes from a clause of the object
  rcases (shows_ingest hfree).2.1 hf with hf | hf
  · exact hg.allBranches_iff_shows.1 hall f hf
  · exact LogicObject.holds_of_mem_features hempty hclauses hf

/-- A cleanup after checked objects have been added fails on a malformed term only if the brackets of some
modifier do not fit. -/
theorem exists_misplaced_of_clean (h : ∀ o ∈ objects, ∀ c ∈ o.logic, c.Checked) (model : ClassificationModel)
    {keep : NameSet} {options : CleanupOptions} {cause : TermFault}
    (hclean : (outcome (clean model.classify keep options) (outcome (ingestAll objects) {}).2).1 =
      .error (.term cause)) :
    ∃ o ∈ objects, ∃ c ∈ o.logic, ∃ m ∈ c.modifiers, ¬m.BracketsFit := by
  have hsound := sound_ingestAll (P := fun m => ∃ o ∈ objects, ∃ c ∈ o.logic, m ∈ c.modifiers)
    fun o ho c hc m hm => ⟨o, ho, c, hc, hm⟩
  rcases clean_ends model.classify keep options hsound with
    ⟨report, t, hok⟩ | ⟨fault, t, hfail, m, ⟨o, ho, c, hc, hm⟩, hfault⟩
  · rw [hok] at hclean
    cases hclean
  · rw [hfail] at hclean
    obtain rfl := Except.error.inj hclean
    obtain ⟨t, ht⟩ := (h o ho c hc).modifiers m hm
    exact ⟨o, ho, c, hc, m, hm, (model.exists_cause_of_classify_iff ht).1 ⟨cause, hfault⟩⟩

/-- A clause or a world that a value gives can still hold malformed terms, of two kinds. Where the provider of
a clause stands for no region, the clause has no parent and no mentioned names, and its object cannot be
added; the conditions are always well formed. Where the brackets of a modifier do not fit, it has no head and
no kind in any model; a cleanup of the graph does not fail on a malformed term unless there is such a
modifier. -/
theorem malformed_after_loading (v : Json) :
    (∀ c, Clause.read v = .ok c →
      (∃ p, c.partition = .ok p) ∧
      ((∃ region, c.parentRegion = .ok region) ↔ c.ProviderFits) ∧
      ((∃ names, c.referencedNames = .ok names) ↔ c.ProviderFits) ∧
      ∀ m ∈ c.modifiers, ((∃ head, modifierHead m = .ok head) ↔ m.BracketsFit) ∧
        ∀ model : ClassificationModel,
          (∃ cause, model.classify m = .error (.term cause)) ↔ ¬m.BracketsFit) ∧
    ∀ path entries objects, WorldEntry.readAll path v = .ok entries →
      entries.mapM (·.toObject) = .ok objects →
        (∀ s : Session,
          ((outcome (ingestAll objects) s).1 = .ok () ↔ ∀ o ∈ objects, ∀ c ∈ o.logic, c.ProviderFits) ∧
          ∀ fault, (outcome (ingestAll objects) s).1 = .error fault → ∃ cause, fault = .term cause) ∧
        ∀ (model : ClassificationModel) (keep : NameSet) (options : CleanupOptions) (cause : TermFault),
          (outcome (clean model.classify keep options) (outcome (ingestAll objects) {}).2).1 =
            .error (.term cause) → ∃ o ∈ objects, ∃ c ∈ o.logic, ∃ m ∈ c.modifiers, ¬m.BracketsFit := by
  constructor
  · intro c h
    have hchecked := Clause.checked_of_read h
    refine ⟨hchecked.parsable.exists_partition, Clause.exists_parentRegion_iff,
      hchecked.exists_referencedNames_iff, fun m hm => ?_⟩
    obtain ⟨t, ht⟩ := hchecked.modifiers m hm
    exact ⟨Name.exists_modifierHead_iff ht, fun model => model.exists_cause_of_classify_iff ht⟩
  · intro path entries objects hentries hobjects
    have hchecked := checked_of_readAll hentries hobjects
    refine ⟨fun s => ⟨ingestAll_eq_ok_iff hchecked, fun fault => exists_cause_of_ingestAll hchecked⟩, ?_⟩
    intro model keep options cause hclean
    exact exists_misplaced_of_clean hchecked model hclean

/-- A clause whose provider is a projection. -/
def projectedProvider : Json := .obj [("StateProvider", .str "Ledge/")]

/-- A clause with a modifier that goes on after its brackets. -/
def trailingModifier : Json :=
  .obj [("Conditions", .arr [.str "Rope"]), ("StateModifiers", .arr [.str "$X[1]a"])]

/-- A swing that is free to take, or with a rope and that modifier. -/
def swingWorld : Json :=
  .obj [("LogicObjects", .arr [.obj [("Name", .str "Swing"), ("Logic", .arr [.obj [], trailingModifier])]])]

/-- The object of that world. -/
def swingObjects : List LogicObject :=
  [{ name := "Swing", logic := [{}, { conditions := {("Rope" : Name)}, modifiers := ["$X[1]a"] }] }]

/-- A model that knows no heads. -/
def emptyModel : ClassificationModel := ⟨∅, ∅, ∅, []⟩

/-- The swing is added, and then the cleanup fails, which tells of a modifier whose brackets do not fit. It
stands in a clause whose conditions and names can be told. -/
theorem malformed_after_loading_swing :
    (∃ c, Clause.read trailingModifier = .ok c ∧ (∃ p, c.partition = .ok p) ∧
      ∃ names, c.referencedNames = .ok names) ∧
    (∃ entries, WorldEntry.readAll (Path.ofText "swing.json") swingWorld = .ok entries ∧
      entries.mapM (·.toObject) = .ok swingObjects) ∧
    (outcome (ingestAll swingObjects) {}).1 = .ok () ∧
    (outcome (clean emptyModel.classify ∅ {}) (outcome (ingestAll swingObjects) {}).2).1 =
      .error (.term (.misplacedBrackets "'$X[1]a'")) ∧
    ∃ o ∈ swingObjects, ∃ c ∈ o.logic, ∃ m ∈ c.modifiers, ¬m.BracketsFit := by
  have hload : (WorldEntry.readAll (Path.ofText "swing.json") swingWorld >>=
      fun entries => entries.mapM (·.toObject)) = .ok swingObjects := by decide +kernel
  obtain ⟨entries, hentries, hobjects⟩ := bind_eq_ok.1 hload
  have hclean : (outcome (clean emptyModel.classify ∅ {}) (outcome (ingestAll swingObjects) {}).2).1 =
      .error (.term (.misplacedBrackets "'$X[1]a'")) := by decide +kernel
  have hread : Clause.read trailingModifier =
      .ok { conditions := {("Rope" : Name)}, modifiers := ["$X[1]a"] } := by decide +kernel
  obtain ⟨hpartition, -, hnames, -⟩ := (malformed_after_loading trailingModifier).1 _ hread
  obtain ⟨hingest, hcleanup⟩ :=
    (malformed_after_loading swingWorld).2 _ entries swingObjects hentries hobjects
  refine ⟨⟨_, hread, hpartition, hnames.2 ?_⟩, ⟨entries, hentries, hobjects⟩, ?_, hclean,
    hcleanup emptyModel ∅ {} _ hclean⟩
  -- no clause of the swing has a provider
  · simp [Clause.ProviderFits]
  · refine (hingest {}).1.2 ?_
    simp [swingObjects, Clause.ProviderFits]

/-- Loading accepts a clause without a parent, and a modifier without a head. -/
theorem loading_accepts_malformed :
    let c : Clause := { provider := some "Ledge/" }
    let d : Clause := { conditions := {("Rope" : Name)}, modifiers := ["$X[1]a"] }
    (Clause.read projectedProvider = .ok c ∧
      c.parentRegion = .error (.term (.notProvider .projected "'Ledge/'")) ∧
      c.referencedNames = .error (.term (.notProvider .projected "'Ledge/'"))) ∧
    Clause.read trailingModifier = .ok d ∧
      modifierHead "$X[1]a" = .error (.term (.misplacedBrackets "'$X[1]a'")) ∧
      emptyModel.classify "$X[1]a" = .error (.term (.misplacedBrackets "'$X[1]a'")) := by
  decide +kernel

end RegionLogic
