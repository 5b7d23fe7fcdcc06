import Mathlib.Data.Bool.AllAny
import RegionLogic.Proofs.World.Value

/-!
# Data modules that are read again

The data module of a world is made for programs that load it. Where all names of the world are texts, there is
such a module, and it assigns what the value of the world holds. The texts in it are those of the world if and only
if they have no characters beyond the 16-bit code points; of such a character two surrogates are left.

## Main definitions

* `World.assigned?`: the values of the fields as literals, for a given form of texts

## Main results

* `exists_moduleText`: a world whose names are texts has a module
* `assigned?_eq_iff`: when the same values are assigned for two forms of texts
* `read_moduleText`: a module is read as the values of its fields
* `read_moduleText_of_texts`: the module of any world whose names are texts
-/

namespace RegionLogic

open Text DataModule

/-! ## Modules that are read again -/

namespace World

/-- The names of the fields of a world. -/
def fieldNames : List String := ["Regions", "Locations", "Transitions", transitionTable]

/-- The assignments to the names of the fields. The names in the table of transitions stay as they are. -/
def assignments (data : List (String × Json)) : List String :=
  data.map fun e => assignment e.1 (e.2.literal (e.1 ≠ transitionTable) 0)

/-- The values that are assigned to the names of the fields, if a text is the code points that `f` gives. -/
def assigned? (f : String → List Nat) (data : List (String × Json)) : Option (List (String × Literal)) :=
  data.mapM fun e => do return (snakeCase e.1, ← Literal.ofJson? f (e.1 ≠ transitionTable) e.2)

end World

open World

variable {w : World} {data : List (String × Json)} {b values : List (String × Literal)}

theorem assigned?_cons_eq_some {f : String → List Nat} {e : String × Json} :
    assigned? f (e :: data) = some values ↔ ∃ l rest, Literal.ofJson? f (e.1 ≠ transitionTable) e.2 = some l ∧
      assigned? f data = some rest ∧ (snakeCase e.1, l) :: rest = values := by
  simp [assigned?, Option.bind_eq_some_iff]

/-- Lines with line ends between them and after the last one. -/
theorem toList_lines (first : String) (rest : List String) :
    ("\n".intercalate (first :: rest) ++ "\n").toList = (first :: rest).flatMap (·.toList ++ ['\n']) := by
  rw [String.toList_append, String.toList_intercalate]
  induction rest generalizing first with
  | nil => simp
  | cons second rest ih =>
    rw [List.map_cons, List.map_cons, List.intercalate_cons_cons, List.append_assoc, ← List.map_cons, ih,
      List.flatMap_cons]
    rfl

namespace DataModule.Reader

theorem run_comment {cs : List Char} (h : ∀ c ∈ cs, c ≠ '\n' ∧ c ≠ '\r' ∧ c ≠ '\x00') :
    run ('#' :: cs ++ ['\n']) ⟨b, .line⟩ = some ⟨b, .line⟩ := by
  have hstart : step ⟨b, .line⟩ '#' = some ⟨b, .comment⟩ := rfl
  have hstays : run cs ⟨b, .comment⟩ = some ⟨b, .comment⟩ := run_of_stays fun c hc => by simp [step, h c hc]
  rw [List.cons_append, run_cons_of_some hstart, run_append_of_some hstays]
  rfl

theorem run_word {cs before : List Char} (h : cs.all isWordRest = true) :
    run cs ⟨b, .name before⟩ = some ⟨b, .name (before ++ cs)⟩ := by
  induction cs generalizing before with
  | nil => simp
  | cons c cs ih =>
    obtain ⟨hc, hcs⟩ := List.forall_mem_cons.1 (List.all_eq_true.1 h)
    have hstep : step ⟨b, .name before⟩ c = some ⟨b, .name (before ++ [c])⟩ := if_pos hc
    rw [run_cons_of_some hstep, ih (List.all_eq_true.2 hcs), List.append_assoc]
    rfl

/-- A literal that follows a word and an equals sign is assigned to the word. -/
theorem run_name {c : Char} {cs : List Char} (hc : isWordStart c = true) (hcs : cs.all isWordRest = true)
    (hword : String.ofList (c :: cs) ∉ reservedWords) :
    run (c :: cs ++ " = ".toList) ⟨b, .line⟩ = some ⟨b, .start (.binding (.ofList (c :: cs)))⟩ := by
  have hstart : step ⟨b, .line⟩ c = some ⟨b, .name [c]⟩ := by
    have hne : c ≠ '\n' ∧ c ≠ '#' := by constructor <;> rintro rfl <;> cases hc
    simp [step, hne, hc]
  have hblank : step ⟨b, .name (c :: cs)⟩ ' ' = some ⟨b, .equals (.ofList (c :: cs))⟩ := if_neg hword
  have hequals : step ⟨b, .equals (.ofList (c :: cs))⟩ '=' = some ⟨b, .start (.binding (.ofList (c :: cs)))⟩ :=
    if_neg hword
  have hspace : step ⟨b, .start (.binding (.ofList (c :: cs)))⟩ ' ' =
      some ⟨b, .start (.binding (.ofList (c :: cs)))⟩ := rfl
  have hsign : " = ".toList = [' ', '=', ' '] := rfl
  rw [List.cons_append, run_cons_of_some hstart, run_append_of_some (run_word hcs), hsign, List.singleton_append,
    run_cons_of_some hblank, run_cons_of_some hequals, run_singleton, hspace]

/-- The names of the fields in snake case are words that something can be assigned to. -/
theorem run_fieldName {name : String} (h : name ∈ fieldNames) :
    run ((snakeCase name).toList ++ " = ".toList) ⟨b, .line⟩ = some ⟨b, .start (.binding (snakeCase name))⟩ := by
  have hall : ∀ name ∈ fieldNames, (snakeCase name).toList.head?.any isWordStart = true ∧
      (snakeCase name).toList.all isWordRest = true ∧ snakeCase name ∉ reservedWords := by decide +kernel
  obtain ⟨hstart, hrest, hword⟩ := hall name h
  rcases hcs : (snakeCase name).toList with _ | ⟨c, cs⟩
  · rw [hcs] at hstart
    cases hstart
  · rw [hcs] at hstart hrest
    have hname : String.ofList (c :: cs) = snakeCase name := by rw [← hcs, String.ofList_toList]
    rw [← hname] at hword ⊢
    exact run_name hstart (Bool.and_eq_true_iff.1 hrest).2 hword

/-- An assignment is read as the value of its field. -/
theorem run_assignment {name : String} {v : Json} {l : Literal} {rename : Bool} (hname : name ∈ fieldNames)
    (h : Literal.ofJson? units rename v = some l) :
    run ((assignment name (v.literal rename 0)).toList ++ ['\n']) ⟨b, .line⟩ =
      some ⟨Entries.set b (snakeCase name) l, .line⟩ := by
  have hvalue := reads_literal rename 0 v l h b (.binding (snakeCase name)) '\n' (Or.inr rfl)
  rw [assignment, String.toList_append, String.toList_append, List.append_assoc,
    run_append_of_some (run_fieldName hname), hvalue]
  rfl

/-- The assignments are read as the values of the fields, one after the other. -/
theorem run_assignments (hnames : ∀ e ∈ data, e.1 ∈ fieldNames) (h : assigned? units data = some values) :
    run (((assignments data).flatMap fun line => [line, ""]).flatMap (·.toList ++ ['\n'])) ⟨b, .line⟩ =
      some ⟨values.foldl (fun t e => Entries.set t e.1 e.2) b, .line⟩ := by
  induction data generalizing b values with
  | nil =>
    obtain rfl := Option.some.inj h
    rfl
  | cons e data ih =>
    obtain ⟨l, rest, hl, hrest, rfl⟩ := assigned?_cons_eq_some.1 h
    obtain ⟨hname, hnames⟩ := List.forall_mem_cons.1 hnames
    have hempty : step ⟨Entries.set b (snakeCase e.1) l, .line⟩ '\n' =
        some ⟨Entries.set b (snakeCase e.1) l, .line⟩ := rfl
    have hlines : ((assignments (e :: data)).flatMap fun line => [line, ""]).flatMap (·.toList ++ ['\n']) =
        (assignment e.1 (e.2.literal (e.1 ≠ transitionTable) 0)).toList ++ ['\n'] ++
          '\n' :: ((assignments data).flatMap fun line => [line, ""]).flatMap (·.toList ++ ['\n']) := by
      simp [assignments]
    rw [hlines, run_append_of_some (run_assignment hname hl), run_cons_of_some hempty, ih hnames hrest]
    rfl

end DataModule.Reader

section Module

variable {P : String → Prop}

theorem literalFields_names {table : List (Name × Name)} (h : ∀ e ∈ table, e.1.text? ≠ none) :
    Json.literalFields false 1 (table.map fun e => (e.1.key, e.2.toJson)) = table.map nameField := by
  induction table with
  | nil => rfl
  | cons e table ih =>
    obtain ⟨he, htable⟩ := List.forall_mem_cons.1 h
    rw [List.map_cons, List.map_cons, Json.literalFields, ih htable, nameField]
    cases hname : e.1 with
    | text s => rfl
    | odd v => exact absurd (congrArg Name.text? hname) he

/-- A world whose names are texts has a value and a module. The value is made of these names, and the module
holds the fields of the value. -/
theorem exists_moduleText (h : ∀ n ∈ w.names, n.text? ≠ none) :
    ∃ data, w.toJson = .ok (.obj data) ∧ data.map (·.1) = fieldNames ∧
      (∀ P, HoldsOfAscii P →
        ((∀ e ∈ data, Made P (e.1 ≠ transitionTable) e.2) ↔ ∀ n ∈ w.names, n.Spells P)) ∧
      w.moduleText = .ok ("\n".intercalate (moduleHeader :: "" :: "" ::
        (assignments data).flatMap fun line => [line, ""]) ++ "\n") := by
  obtain ⟨lists, table, hlists, htable, hnames, hnodup, htext, hmade⟩ := made_fields h
  -- the names of fields are kept in the table of transitions only
  have hrename : ∀ e ∈ lists, decide (e.1 ≠ transitionTable) = true := by
    intro e he
    have hname : e.1 ∈ ["Regions", "Locations", "Transitions"] := hnames ▸ List.mem_map_of_mem he
    revert hname
    generalize e.1 = name
    revert name
    decide
  refine ⟨lists ++ [(transitionTable, .obj (table.map fun e => (e.1.key, e.2.toJson)))], ?_, ?_, ?_, ?_⟩
  · rw [World.toJson, hlists, htable]
    rfl
  · rw [List.map_append, hnames]
    rfl
  · intro P hP
    rw [← hmade P hP, List.forall_mem_append, List.forall_mem_singleton]
    refine and_congr (forall₂_congr fun e he => ?_) (made_table_iff hnodup htext)
    rw [hrename e he]
  · have hassignments : assignments lists = lists.map fun e => assignment e.1 (e.2.literal true 0) :=
      List.map_congr_left fun e he => by rw [hrename e he]
    have htable' : assignments [(transitionTable, .obj (table.map fun e => (e.1.key, e.2.toJson)))] =
        [assignment transitionTable (block 4 0 "\x7b" "\x7d" (table.map nameField))] := by
      rw [← literalFields_names fun e he => (htext e he).1]
      rfl
    rw [World.moduleText, hlists, htable, assignments, List.map_append, ← assignments, ← assignments,
      hassignments, htable']
    rfl

theorem made_of_texts (htext : ∀ n ∈ w.names, n.text? ≠ none) (hmade : ∀ P, HoldsOfAscii P →
    ((∀ e ∈ data, Made P (e.1 ≠ transitionTable) e.2) ↔ ∀ n ∈ w.names, n.Spells P)) :
    ∀ e ∈ data, Made (fun _ => True) (e.1 ≠ transitionTable) e.2 :=
  (hmade _ fun _ _ => trivial).2 fun n hn => (Name.spells_iff (htext n hn)).2 trivial

theorem exists_assigned? (h : ∀ e ∈ data, Made P (e.1 ≠ transitionTable) e.2) (f : String → List Nat) :
    ∃ values, assigned? f data = some values := by
  induction data with
  | nil => exact ⟨[], rfl⟩
  | cons e data ih =>
    obtain ⟨he, hdata⟩ := List.forall_mem_cons.1 h
    obtain ⟨l, hl⟩ := he.exists_literal f
    obtain ⟨values, hvalues⟩ := ih hdata
    exact ⟨_, assigned?_cons_eq_some.2 ⟨l, values, hl, hvalues, rfl⟩⟩

/-- The same values are assigned for two forms of texts if and only if these agree on all texts. -/
theorem assigned?_eq_iff {f g : String → List Nat} (hf : Function.Injective f) (hg : Function.Injective g)
    (h : ∀ e ∈ data, Made P (e.1 ≠ transitionTable) e.2) :
    assigned? f data = assigned? g data ↔
      ∀ e ∈ data, Made (fun s => f s = g s) (e.1 ≠ transitionTable) e.2 := by
  induction data with
  | nil => simp [assigned?]
  | cons e data ih =>
    obtain ⟨he, hdata⟩ := List.forall_mem_cons.1 h
    rw [List.forall_mem_cons, ← ih hdata, ← he.ofJson?_eq_iff hf hg]
    obtain ⟨l, hl⟩ := he.exists_literal f
    obtain ⟨l', hl'⟩ := he.exists_literal g
    obtain ⟨rest, hrest⟩ := exists_assigned? hdata f
    obtain ⟨rest', hrest'⟩ := exists_assigned? hdata g
    rw [assigned?_cons_eq_some.2 ⟨l, rest, hl, hrest, rfl⟩, assigned?_cons_eq_some.2 ⟨l', rest', hl', hrest', rfl⟩,
      hl, hl', hrest, hrest']
    simp

theorem keys_assigned? {f : String → List Nat} (hnames : data.map (·.1) = fieldNames)
    (h : assigned? f data = some values) : Entries.keys values = fieldNames.map snakeCase := by
  suffices hkeys : Entries.keys values = data.map fun e => snakeCase e.1 by
    rw [hkeys, ← hnames, List.map_map]
    rfl
  clear hnames
  induction data generalizing values with
  | nil =>
    obtain rfl := Option.some.inj h
    rfl
  | cons e data ih =>
    obtain ⟨l, rest, -, hrest, rfl⟩ := assigned?_cons_eq_some.1 h
    rw [Entries.keys_cons, List.map_cons, ih hrest]

/-- A module is read as the values of its fields. -/
theorem read_moduleText (hnames : data.map (·.1) = fieldNames) (h : assigned? units data = some values) :
    DataModule.read ("\n".intercalate (moduleHeader :: "" :: "" ::
      (assignments data).flatMap fun line => [line, ""]) ++ "\n") = some values := by
  have hheader : moduleHeader.toList = '#' :: moduleHeader.toList.tail := by decide +kernel
  have hplain : ∀ c ∈ moduleHeader.toList.tail, c ≠ '\n' ∧ c ≠ '\r' ∧ c ≠ '\x00' :=
    List.all_iff_forall_prop.1 (by decide +kernel)
  have hempty : Reader.step ⟨[], .line⟩ '\n' = some ⟨[], .line⟩ := rfl
  have hkeys : (Entries.keys ([] ++ values)).Nodup := by
    rw [List.nil_append, keys_assigned? hnames h]
    decide +kernel
  have hfields : ∀ e ∈ data, e.1 ∈ fieldNames := fun e he => hnames ▸ List.mem_map_of_mem he
  have hrun := Reader.run_assignments (b := []) hfields h
  rw [Entries.foldl_set_of_nodup hkeys] at hrun
  rw [DataModule.read, toList_lines, List.flatMap_cons, List.flatMap_cons, List.flatMap_cons, hheader,
    Reader.run_append_of_some (Reader.run_comment hplain), String.toList_empty, List.nil_append,
    List.singleton_append, Reader.run_cons_of_some hempty, List.singleton_append, Reader.run_cons_of_some hempty,
    hrun]
  rfl

end Module

/-- A world whose names are texts has a value and a module, and the module can be read. It assigns the fields of
the value to their names in snake case, the fields of records being named in snake case too, and every text is
the list of its UTF-16 units. So the texts in the module are those of the world if and only if no name in the world
has a character beyond the 16-bit code points. -/
theorem read_moduleText_of_texts (w : World) (htext : ∀ n ∈ w.names, n.text? ≠ none) :
    ∃ data text values, w.toJson = .ok (.obj data) ∧ w.moduleText = .ok text ∧
      DataModule.read text = some values ∧
      Entries.keys values = ["regions", "locations", "transitions", "transition_to_region_map"] ∧
      assigned? units data = some values ∧
      (assigned? codePoints data = some values ↔ ∀ n ∈ w.names, n.Spells IsBasic) := by
  obtain ⟨data, hdata, hnames, hmade, hmodule⟩ := exists_moduleText htext
  have hall := made_of_texts htext hmade
  obtain ⟨values, hvalues⟩ := exists_assigned? hall units
  have hkeys : Entries.keys values = ["regions", "locations", "transitions", "transition_to_region_map"] := by
    rw [keys_assigned? hnames hvalues]
    decide +kernel
  refine ⟨data, _, values, hdata, hmodule, read_moduleText hnames hvalues, hkeys, hvalues, ?_⟩
  have hbasic : (fun s => units s = codePoints s) = IsBasic := funext fun s => propext units_eq_codePoints_iff
  have hascii : HoldsOfAscii IsBasic := fun s hs c hc => (hs c hc).trans (by decide)
  rw [← hvalues, eq_comm, assigned?_eq_iff units_injective codePoints_injective hall, hbasic, hmade _ hascii]

/-- A world with a region, a location whose name has a quote, a backslash and a line end in it, and a
transition. -/
def signWorld : World where
  regions := [{
    name := "Menu", locations := ["Über \"\\\n"], transitions := ["Town[left1]"]
    exits := [{ target := "Menu", logic := [{ items := {("Rope" : Name)}, modifiers := ["$BENCH"] }] }] }]
  locations := [{ name := "Über \"\\\n", logic := [{}], isEvent := true }]
  transitions := [{ name := "Town[left1]", logic := [] }]
  regionOfTransition := [("Town[left1]", "Menu")]

/-- All names of that world stay as they are. -/
theorem read_moduleText_signWorld :
    (∀ n ∈ signWorld.names, n.text? ≠ none) ∧ (∀ n ∈ signWorld.names, n.Spells IsBasic) ∧
    ∃ data text values, signWorld.toJson = .ok (.obj data) ∧ signWorld.moduleText = .ok text ∧
      DataModule.read text = some values ∧ assigned? codePoints data = some values := by
  have htext : ∀ n ∈ signWorld.names, n.text? ≠ none := by decide +kernel
  have hbasic : ∀ n ∈ signWorld.names, n.Spells IsBasic := by
    have hnames : signWorld.names = ["Menu", "Über \"\\\n", "Town[left1]", "Menu", "Rope", "$BENCH",
        "Über \"\\\n", "Town[left1]", "Town[left1]", "Menu"].map .text := by decide +kernel
    have hall : ∀ s ∈ ["Menu", "Über \"\\\n", "Town[left1]", "Menu", "Rope", "$BENCH", "Über \"\\\n",
        "Town[left1]", "Town[left1]", "Menu"], IsBasic s := by decide +kernel
    rw [hnames]
    exact List.forall_mem_map.2 fun s hs => ⟨s, rfl, hall s hs⟩
  obtain ⟨data, text, values, hdata, hmodule, hread, -, -, hpoints⟩ := read_moduleText_of_texts signWorld htext
  exact ⟨htext, hbasic, data, text, values, hdata, hmodule, hread, hpoints.2 hbasic⟩

/-- A world of one region. -/
def moonWorld : World where
  regions := [{ name := "🌙" }]
  locations := []
  transitions := []
  regionOfTransition := []

/-- Its value. -/
def moonData : List (String × Json) :=
  [("Regions", .arr [.obj [("Name", .str "🌙"), ("Locations", .arr []), ("Transitions", .arr []),
      ("Exits", .arr [])]]),
    ("Locations", .arr []), ("Transitions", .arr []), ("TransitionToRegionMap", .obj [])]

/-- The name of the region is one character, and the module gives the region a name of two surrogates. -/
theorem moon_changes :
    moonWorld.toJson = .ok (.obj moonData) ∧
    (∃ text, moonWorld.moduleText = .ok text ∧ DataModule.read text = assigned? units moonData) ∧
    units "🌙" = [0xd83c, 0xdf19] ∧ codePoints "🌙" = [0x1f319] ∧
    assigned? units moonData ≠ assigned? codePoints moonData := by
  have hdata : moonWorld.toJson = .ok (.obj moonData) := rfl
  have htext : ∀ n ∈ moonWorld.names, n.text? ≠ none := by decide +kernel
  obtain ⟨data, hdata', hnames, hmade, hmodule⟩ := exists_moduleText htext
  obtain rfl := Json.obj.inj (Except.ok.inj (hdata'.symm.trans hdata))
  obtain ⟨values, hvalues⟩ := exists_assigned? (made_of_texts htext hmade) units
  refine ⟨hdata, ⟨_, hmodule, (read_moduleText hnames hvalues).trans hvalues.symm⟩, rfl, rfl, ?_⟩
  intro h
  cases h

end RegionLogic
