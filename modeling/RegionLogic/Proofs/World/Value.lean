import Mathlib.Data.Bool.AllAny
import Mathlib.Data.List.Forall2
import RegionLogic.Proofs.Region.Placement
import RegionLogic.Proofs.World.ModuleReader

/-!
# What the value of a world is made of

The value of a world whose names are texts is made of these names, and of the names of the fields of its records.
So whatever holds of texts of ASCII characters holds of all texts in the value if and only if it holds of the names
in the world.

## Main definitions

* `World.names`: the names in a world
* `MadeOf`: values that are made of names and of texts of ASCII characters

## Main results

* `madeOf_record`: a record is made of what its fields are made of
* `made_fields`: the fields of a world are made of its names
-/

namespace RegionLogic

open Text DataModule

/-! ## The names in a world -/

/-- The name is a text for which `P` holds. -/
def Name.Spells (P : String → Prop) (n : Name) : Prop := ∃ s, n = .text s ∧ P s

/-- The names in a branch. -/
def Branch.names (b : Branch) : List Name :=
  b.items.toList ++ b.locations.toList ++ b.regions.toList ++ b.modifiers

/-- The names in a region. -/
def Region.names (r : Region) : List Name :=
  r.name :: r.locations ++ r.transitions ++ r.exits.flatMap fun e => e.target :: e.logic.flatMap Branch.names

/-- The names in a location or transition. -/
def Site.names (s : Site) : List Name := s.name :: s.logic.flatMap Branch.names

/-- The names in a world. -/
def World.names (w : World) : List Name :=
  w.regions.flatMap Region.names ++ w.locations.flatMap Site.names ++ w.transitions.flatMap Site.names ++
    (w.regionsOf w.placedTransitions.toList).flatMap fun e => [e.1, e.2]

/-- `P` holds of the texts of ASCII characters. -/
def HoldsOfAscii (P : String → Prop) : Prop := ∀ s : String, (∀ c ∈ s.toList, c.toNat < 0x80) → P s

/-- The value is made of the names and of texts of ASCII characters. -/
def MadeOf (names : List Name) (v : Json) : Prop :=
  ∀ P, HoldsOfAscii P → (Made P true v ↔ ∀ n ∈ names, n.Spells P)

/-- The names of the fields of records. -/
def recordFields : List String :=
  ["Name", "Locations", "Transitions", "Exits", "Target", "Logic", "IsEvent", "ItemRequirements",
    "LocationRequirements", "RegionRequirements", "StateModifiers"]

section MadeOf

variable {P : String → Prop} {rename : Bool} {n : Name} {names : List Name} {parts : List (List Name)}

theorem Name.spells_iff (h : n.text? ≠ none) : n.Spells P ↔ P n.key := by
  cases n with
  | odd v => exact absurd rfl h
  | text s =>
    constructor
    · rintro ⟨_, hname, hs⟩
      obtain rfl := Name.text.inj hname
      exact hs
    · exact fun hs => ⟨s, rfl, hs⟩

theorem made_name_iff (h : n.text? ≠ none) : Made P rename n.toJson ↔ n.Spells P := by
  rw [Name.spells_iff h]
  cases n with
  | odd v => exact absurd rfl h
  | text s => exact ⟨by rintro (_ | _ | hs); exact hs, .str⟩

theorem madeOf_name (h : n.text? ≠ none) : MadeOf [n] n.toJson := fun _ _ =>
  (made_name_iff h).trans List.forall_mem_singleton.symm

theorem madeOf_bool (b : Bool) : MadeOf [] (.bool b) := fun _ _ => ⟨fun _ => by simp, fun _ => .bool⟩

theorem forall_flatten_iff {α : Type} {f : α → Json} {l : List α} (h : List.Forall₂ MadeOf parts (l.map f))
    (hP : HoldsOfAscii P) : (∀ a ∈ l, Made P true (f a)) ↔ ∀ n ∈ parts.flatten, n.Spells P := by
  induction l generalizing parts with
  | nil =>
    obtain rfl := List.forall₂_nil_right_iff.1 h
    simp
  | cons a l ih =>
    obtain ⟨part, parts, ha, hl, rfl⟩ := List.forall₂_cons_right_iff.1 h
    rw [List.forall_mem_cons, List.flatten_cons, List.forall_mem_append, ha P hP, ih hl]

theorem madeOf_arr {vs : List Json} (h : List.Forall₂ MadeOf parts vs) : MadeOf parts.flatten (.arr vs) := by
  intro P hP
  rw [← forall_flatten_iff (f := id) (by rwa [List.map_id]) hP]
  exact ⟨by rintro (_ | _ | _ | hvs); exact hvs, .arr⟩

theorem madeOf_names {l : List Name} (h : ∀ n ∈ l, n.text? ≠ none) : MadeOf l (Branch.namesJson l) := by
  have hparts : List.Forall₂ MadeOf (l.map fun n => [n]) (l.map (·.toJson)) := by
    rw [List.forall₂_map_left_iff, List.forall₂_map_right_iff, List.forall₂_same]
    exact fun n hn => madeOf_name (h n hn)
  have hmade := madeOf_arr hparts
  rwa [← List.flatMap_def, List.flatMap_singleton'] at hmade

/-- A record is made of what its fields are made of. -/
theorem madeOf_record {fields : List (String × Json)} (hkeys : (fields.map (·.1)).Sublist recordFields)
    (h : List.Forall₂ MadeOf parts (fields.map (·.2))) (hnames : parts.flatten = names) :
    MadeOf names (.obj fields) := by
  intro P hP
  rw [← hnames, ← forall_flatten_iff h hP]
  constructor
  · rintro (_ | _ | _ | _ | ⟨-, -, hvalues⟩)
    exact hvalues
  · intro hvalues
    -- in snake case too the names of fields are different, and ASCII
    have hnodup : (recordFields.map snakeCase).Nodup := by decide +kernel
    have hascii : ∀ key ∈ recordFields, ((snakeCase key).toList.all fun c => c.toNat < 0x80) = true := by
      decide +kernel
    refine .obj ?_ (fun e he => ?_) hvalues
    · have hnames := hnodup.sublist (hkeys.map snakeCase)
      rwa [List.map_map] at hnames
    · exact hP _ (List.all_iff_forall_prop.1 (hascii e.1 (hkeys.subset (List.mem_map_of_mem he))))

/-- Values that are made of names make a list. -/
theorem exists_madeOf_mapM {α : Type} {f : α → Except Fault Json} {names : α → List Name} {l : List α}
    (h : ∀ a ∈ l, ∃ v, f a = .ok v ∧ MadeOf (names a) v) :
    ∃ vs, l.mapM f = .ok vs ∧ MadeOf (l.flatMap names) (.arr vs) := by
  obtain ⟨vs, hvs, hmade⟩ := exists_ok_of_mapM h
  exact ⟨vs, hvs, madeOf_arr (List.forall₂_map_left_iff.2 hmade)⟩

theorem exists_madeOf_branch {b : Branch} (h : ∀ n ∈ b.names, n.text? ≠ none) :
    ∃ v, b.toJson = .ok v ∧ MadeOf b.names v := by
  simp only [Branch.names, List.forall_mem_append] at h
  obtain ⟨⟨⟨hitems, hlocations⟩, hregions⟩, hmodifiers⟩ := h
  have hkeys : ["ItemRequirements", "LocationRequirements", "RegionRequirements", "StateModifiers"].Sublist
      recordFields := by decide
  rw [Branch.toJson, inOrder_of_texts hitems, inOrder_of_texts hlocations, inOrder_of_texts hregions]
  exact ⟨_, rfl, madeOf_record hkeys (.cons (madeOf_names hitems) (.cons (madeOf_names hlocations)
    (.cons (madeOf_names hregions) (.cons (madeOf_names hmodifiers) .nil)))) (by simp [Branch.names])⟩

theorem exists_madeOf_alternatives {l : List Branch} (h : ∀ n ∈ l.flatMap Branch.names, n.text? ≠ none) :
    ∃ v, Branch.listJson l = .ok v ∧ MadeOf (l.flatMap Branch.names) v := by
  obtain ⟨vs, hvs, hmade⟩ := exists_madeOf_mapM fun b hb => exists_madeOf_branch (List.forall_mem_flatMap.1 h b hb)
  rw [Branch.listJson, hvs]
  exact ⟨_, rfl, hmade⟩

theorem exists_madeOf_exit {e : Exit} (h : ∀ n ∈ e.target :: e.logic.flatMap Branch.names, n.text? ≠ none) :
    ∃ v, e.toJson = .ok v ∧ MadeOf (e.target :: e.logic.flatMap Branch.names) v := by
  obtain ⟨htarget, hlogic⟩ := List.forall_mem_cons.1 h
  obtain ⟨v, hv, hmade⟩ := exists_madeOf_alternatives hlogic
  have hkeys : ["Target", "Logic"].Sublist recordFields := by decide
  rw [Exit.toJson, hv]
  exact ⟨_, rfl, madeOf_record hkeys (.cons (madeOf_name htarget) (.cons hmade .nil)) (by simp)⟩

theorem exists_madeOf_region {r : Region} (h : ∀ n ∈ r.names, n.text? ≠ none) :
    ∃ v, r.toJson = .ok v ∧ MadeOf r.names v := by
  simp only [Region.names, List.forall_mem_append, List.forall_mem_cons (a := r.name),
    List.forall_mem_flatMap] at h
  obtain ⟨⟨⟨hname, hlocations⟩, htransitions⟩, hexits⟩ := h
  obtain ⟨vs, hvs, hmade⟩ := exists_madeOf_mapM fun e he => exists_madeOf_exit (hexits e he)
  have hkeys : ["Name", "Locations", "Transitions", "Exits"].Sublist recordFields := by decide
  rw [Region.toJson, hvs]
  exact ⟨_, rfl, madeOf_record hkeys (.cons (madeOf_name hname) (.cons (madeOf_names hlocations)
    (.cons (madeOf_names htransitions) (.cons hmade .nil)))) (by simp [Region.names])⟩

theorem exists_madeOf_location {s : Site} (h : ∀ n ∈ s.names, n.text? ≠ none) :
    ∃ v, s.locationJson = .ok v ∧ MadeOf s.names v := by
  obtain ⟨hname, hlogic⟩ := List.forall_mem_cons.1 h
  obtain ⟨v, hv, hmade⟩ := exists_madeOf_alternatives hlogic
  have hkeys : ["Name", "Logic", "IsEvent"].Sublist recordFields := by decide
  rw [Site.locationJson, hv]
  exact ⟨_, rfl, madeOf_record hkeys (.cons (madeOf_name hname) (.cons hmade (.cons (madeOf_bool _) .nil)))
    (by simp [Site.names])⟩

theorem exists_madeOf_transition {s : Site} (h : ∀ n ∈ s.names, n.text? ≠ none) :
    ∃ v, s.transitionJson = .ok v ∧ MadeOf s.names v := by
  obtain ⟨hname, hlogic⟩ := List.forall_mem_cons.1 h
  obtain ⟨v, hv, hmade⟩ := exists_madeOf_alternatives hlogic
  have hkeys : ["Name", "Logic"].Sublist recordFields := by decide
  rw [Site.transitionJson, hv]
  exact ⟨_, rfl, madeOf_record hkeys (.cons (madeOf_name hname) (.cons hmade .nil)) (by simp [Site.names])⟩

/-- The table of transitions is made of their names and of those of their regions. -/
theorem made_table_iff {table : List (Name × Name)} (hnodup : (table.map (·.1)).Nodup)
    (h : ∀ e ∈ table, e.1.text? ≠ none ∧ e.2.text? ≠ none) :
    Made P false (.obj (table.map fun e => (e.1.key, e.2.toJson))) ↔ ∀ e ∈ table, e.1.Spells P ∧ e.2.Spells P := by
  constructor
  · rintro (_ | _ | _ | _ | ⟨-, hkeys, hvalues⟩) e he
    have hname := hkeys _ (List.mem_map_of_mem he)
    have hvalue := hvalues _ (List.mem_map_of_mem he)
    exact ⟨(Name.spells_iff (h e he).1).2 hname, (made_name_iff (h e he).2).1 hvalue⟩
  · intro hspells
    refine .obj ?_ (List.forall_mem_map.2 fun e he => ?_) (List.forall_mem_map.2 fun e he => ?_)
    · have hkeys := nodup_map_of_texts (f := Name.key) (fun _ => rfl) hnodup (List.forall_mem_map.2 fun e he => (h e he).1)
      rw [List.map_map] at hkeys ⊢
      exact hkeys
    · exact (Name.spells_iff (h e he).1).1 (hspells e he).1
    · exact (made_name_iff (h e he).2).2 (hspells e he).2

/-- The names of transitions in their table are different. -/
theorem nodup_regionsOf (w : World) (h : names.Nodup) : ((w.regionsOf names).map (·.1)).Nodup := by
  rw [World.regionsOf, List.map_filterMap]
  refine h.filterMap fun n m k hn hm => ?_
  simp only [Option.map_map, Option.mem_def, Option.map_eq_some_iff] at hn hm
  obtain ⟨_, -, rfl⟩ := hn
  obtain ⟨_, -, hm⟩ := hm
  exact hm.symm

/-- The fields of a world whose names are texts can be written, and they are made of these names. -/
theorem made_fields {w : World} (h : ∀ n ∈ w.names, n.text? ≠ none) :
    ∃ lists table, w.listFields = .ok lists ∧ w.regionsByTransition = .ok table ∧
      lists.map (·.1) = ["Regions", "Locations", "Transitions"] ∧
      (table.map (·.1)).Nodup ∧ (∀ e ∈ table, e.1.text? ≠ none ∧ e.2.text? ≠ none) ∧
      ∀ P, HoldsOfAscii P → (((∀ e ∈ lists, Made P true e.2) ∧ ∀ e ∈ table, e.1.Spells P ∧ e.2.Spells P) ↔
        ∀ n ∈ w.names, n.Spells P) := by
  have hpairs : ∀ (Q : Name → Prop) (table : List (Name × Name)),
      (∀ n ∈ table.flatMap fun e => [e.1, e.2], Q n) ↔ ∀ e ∈ table, Q e.1 ∧ Q e.2 := fun Q table =>
    List.forall_mem_flatMap.trans (forall₂_congr fun e he => by simp)
  simp only [World.names, List.forall_mem_append, hpairs] at h ⊢
  obtain ⟨⟨⟨hregions, hlocations⟩, htransitions⟩, htable⟩ := h
  obtain ⟨regions, hr, hregion⟩ := exists_madeOf_mapM fun r hr =>
    exists_madeOf_region (List.forall_mem_flatMap.1 hregions r hr)
  obtain ⟨locations, hl, hlocation⟩ := exists_madeOf_mapM fun s hs =>
    exists_madeOf_location (List.forall_mem_flatMap.1 hlocations s hs)
  obtain ⟨transitions, ht, htransition⟩ := exists_madeOf_mapM fun s hs =>
    exists_madeOf_transition (List.forall_mem_flatMap.1 htransitions s hs)
  -- a transition that is placed has an entry in the table, so the names of both are texts
  have hplaced : ∀ n ∈ w.placedTransitions, n.text? ≠ none := by
    intro n hn
    obtain ⟨p, hp⟩ := Option.isSome_iff_exists.1 (Entries.isSome_find?.2 (NameSet.mem_ofList.1 hn))
    exact (htable (n, p) (World.mem_regionsOf.2 ⟨NameSet.mem_toList.2 hn, hp⟩)).1
  refine ⟨[("Regions", .arr regions), ("Locations", .arr locations), ("Transitions", .arr transitions)],
    w.regionsOf w.placedTransitions.toList, ?_, ?_, rfl, nodup_regionsOf w w.placedTransitions.nodup_toList,
    htable, ?_⟩
  · rw [World.listFields, hr, hl, ht]
    rfl
  · rw [World.regionsByTransition, inOrder_of_texts hplaced]
    rfl
  · intro P hP
    rw [← hregion P hP, ← hlocation P hP, ← htransition P hP]
    simp [and_assoc]

end MadeOf

end RegionLogic
