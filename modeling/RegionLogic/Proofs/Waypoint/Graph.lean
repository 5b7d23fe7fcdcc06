import Mathlib.Data.List.Nodup
import Mathlib.Logic.Relation
import RegionLogic.Waypoint.Graph

/-!
# References and referrers

The waypoint graph stores every edge twice, at the name that refers and at the name that is referred to.
An update replaces what one name refers to, and the two sides agree after it.

## Main definitions

* `WaypointGraph.Coherent`: the two sides of a graph agree
* `WaypointGraph.Refers`, `WaypointGraph.OnCycle`: one name refers to another, and a name reaches itself
* `WaypointGraph.updateAll`: updates of several names

## Main results

* `WaypointGraph.Coherent.references_update`: what each name refers to after an update
* `WaypointGraph.Coherent.update`: an update keeps a graph coherent
* `WaypointGraph.Coherent.mem_references_updateAll`: the edges after updates of different names
-/

namespace RegionLogic.WaypointGraph

variable {g : WaypointGraph} {a b name target : Name} {l : List Name}

/-- The names occur once, and so do the edges at each of them. Every edge is stored on both sides and
leads to a name of the graph. -/
structure Coherent (g : WaypointGraph) : Prop where
  nodup_names : g.names.Nodup
  nodup_references : ∀ a, (g.references a).Nodup
  nodup_referrers : ∀ b, (g.referrers b).Nodup
  mem_referrers : ∀ {a b}, a ∈ g.referrers b ↔ b ∈ g.references a
  mem_names : ∀ {a b}, b ∈ g.references a → b ∈ g.names

/-- The name `a` refers to `b`. -/
def Refers (g : WaypointGraph) (a b : Name) : Prop := b ∈ g.references a

instance (g : WaypointGraph) (a b : Name) : Decidable (g.Refers a b) :=
  inferInstanceAs (Decidable (b ∈ g.references a))

/-- The name is reached from itself through one or more references. -/
def OnCycle (g : WaypointGraph) (a : Name) : Prop := Relation.TransGen g.Refers a a

theorem OnCycle.mem_names (h : g.OnCycle a) : a ∈ g.names := by
  obtain ⟨b, hab, -⟩ := Relation.TransGen.head'_iff.1 h
  exact mem_names_of_mem_references hab

theorem coherent_empty : empty.Coherent where
  nodup_names := List.nodup_nil
  nodup_references _ := List.nodup_nil
  nodup_referrers _ := List.nodup_nil
  mem_referrers {_ _} := iff_of_false List.not_mem_nil List.not_mem_nil
  mem_names h := absurd h List.not_mem_nil

/-! ## Entering a name -/

theorem references_enter (g : WaypointGraph) (name a : Name) :
    (g.enter name).references a = g.references a := by
  unfold enter references
  split
  · rfl
  · next h =>
    rw [Entries.find?_set]
    split
    · next ha => rw [← ha, Entries.find?_eq_none.2 h]; rfl
    · rfl

theorem referrers_enter (g : WaypointGraph) (name a : Name) :
    (g.enter name).referrers a = g.referrers a := by
  unfold enter referrers
  split
  · rfl
  · next h =>
    rw [Entries.find?_set]
    split
    · next ha => rw [← ha, Entries.find?_eq_none.2 h]; rfl
    · rfl

theorem mem_names_enter : a ∈ (g.enter name).names ↔ a ∈ g.names ∨ a = name := by
  rw [names_enter]
  split
  · next h =>
    constructor
    · exact Or.inl
    · rintro (ha | rfl)
      · exact ha
      · exact h
  · rw [List.mem_append, List.mem_singleton]

theorem Coherent.enter (hg : g.Coherent) (name : Name) : (g.enter name).Coherent where
  nodup_names := by
    rw [names_enter]
    split
    · exact hg.nodup_names
    · next h => rw [← List.concat_eq_append]; exact hg.nodup_names.concat h
  nodup_references a := references_enter g name a ▸ hg.nodup_references a
  nodup_referrers b := referrers_enter g name b ▸ hg.nodup_referrers b
  mem_referrers := by
    intro a b
    rw [referrers_enter, references_enter]
    exact hg.mem_referrers
  mem_names := by
    intro a b h
    rw [references_enter] at h
    exact mem_names_enter.2 (Or.inl (hg.mem_names h))

/-! ## Clearing what a name refers to -/

/-- Taking `name` from the referrers of the names of a list changes the edges at those names. -/
theorem find?_foldl_erase (hl : l.Nodup) (name b : Name) (nodes : List (Name × WaypointLinks)) :
    Entries.find? (l.foldl (fun nodes old => Entries.adjust nodes old fun links =>
        { links with referrers := links.referrers.erase name }) nodes) b =
      (Entries.find? nodes b).map fun links =>
        if b ∈ l then { links with referrers := links.referrers.erase name } else links := by
  induction l generalizing nodes with
  | nil => simp
  | cons old l ih =>
    rw [List.nodup_cons] at hl
    rw [List.foldl_cons, ih hl.2, Entries.find?_adjust]
    by_cases h : old = b
    · have hb : b ∉ l := h ▸ hl.1
      simp only [h, hb, if_true, if_false, List.mem_cons, true_or, Option.map_map]
      rfl
    · simp [h, Ne.symm h]

theorem Coherent.find?_clear (hg : g.Coherent) (name b : Name) :
    Entries.find? (g.clear name).nodes b = (Entries.find? g.nodes b).map fun links =>
      { references := if b = name then [] else links.references
        referrers := if b ∈ g.references name then links.referrers.erase name else links.referrers } := by
  rw [WaypointGraph.clear, Entries.find?_adjust, find?_foldl_erase (hg.nodup_references name)]
  by_cases hn : name = b
  · rw [if_pos hn, Option.map_map]
    subst hn
    congr
    funext links
    by_cases hb : name ∈ g.references name <;> simp [hb]
  · rw [if_neg hn]
    congr
    funext links
    by_cases hb : b ∈ g.references name <;> simp [hb, Ne.symm hn]

theorem Coherent.references_clear (hg : g.Coherent) (name a : Name) :
    (g.clear name).references a = if a = name then [] else g.references a := by
  have h := hg.find?_clear name a
  unfold references
  rw [h]
  cases Entries.find? g.nodes a with
  | none => simp
  | some links => rfl

theorem Coherent.referrers_clear (hg : g.Coherent) (name b : Name) :
    (g.clear name).referrers b = (g.referrers b).erase name := by
  -- a name that is not referred to does not have `name` among its referrers
  have herase : b ∉ g.references name → (g.referrers b).erase name = g.referrers b := by
    intro hb
    exact List.erase_of_not_mem fun hn => hb (hg.mem_referrers.1 hn)
  rw [referrers, hg.find?_clear]
  unfold referrers at herase ⊢
  cases h : Entries.find? g.nodes b with
  | none => rfl
  | some links =>
    rw [h] at herase
    by_cases hb : b ∈ g.references name
    · simp [hb]
    · simpa [hb] using (herase hb).symm

theorem Coherent.clear (hg : g.Coherent) (name : Name) : (g.clear name).Coherent where
  nodup_names := (names_clear g name).symm ▸ hg.nodup_names
  nodup_references a := by
    rw [hg.references_clear]
    split
    · exact List.nodup_nil
    · exact hg.nodup_references a
  nodup_referrers b := by
    rw [hg.referrers_clear]
    exact (hg.nodup_referrers b).erase name
  mem_referrers := by
    intro a b
    rw [hg.referrers_clear, hg.references_clear, (hg.nodup_referrers b).mem_erase_iff,
      hg.mem_referrers]
    by_cases h : a = name
    · simp [h]
    · simp [h]
  mem_names := by
    intro a b h
    rw [hg.references_clear] at h
    split at h
    · cases h
    · rw [names_clear]
      exact hg.mem_names h

/-! ## Linking two names -/

theorem mem_names_link : a ∈ (link name g target).names ↔ a ∈ g.names ∨ a = target := by
  rw [names_link]
  split
  · next h =>
    constructor
    · exact Or.inl
    · rintro (ha | rfl)
      · exact ha
      · exact h
  · rw [List.mem_append, List.mem_singleton]

/-- The edges at each name once `target` is linked. A new target has no others. -/
theorem find?_link (g : WaypointGraph) (name target a : Name) :
    Entries.find? (link name g target).nodes a =
      (if a = target ∧ a ∉ g.names then some {} else Entries.find? g.nodes a).map fun links =>
        { references := if a = name then addOnce links.references target else links.references
          referrers := if a = target then addOnce links.referrers name else links.referrers } := by
  have hnodes : Entries.find? (if target ∈ g.names then { g with roots := g.roots.erase target }
      else { g with nodes := Entries.set g.nodes target {} }).nodes a =
      if a = target ∧ a ∉ g.names then some {} else Entries.find? g.nodes a := by
    split
    · next h => rw [if_neg fun ha => ha.2 (ha.1 ▸ h)]
    · next h =>
      rw [Entries.find?_set]
      by_cases ha : a = target
      · rw [if_pos ha.symm, if_pos ⟨ha, ha ▸ h⟩]
      · rw [if_neg (Ne.symm ha), if_neg fun h => ha h.1]
  rw [← hnodes]
  simp only [link, Entries.find?_adjust]
  by_cases ht : target = a <;> by_cases hn : name = a
  · simp [ht, hn, Function.comp_def]
  · simp [ht, hn, Ne.symm hn]
  · simp [ht, Ne.symm ht, hn]
  · simp [ht, Ne.symm ht, hn, Ne.symm hn]

theorem references_link (h : name ∈ g.names) :
    (link name g target).references a =
      if a = name then addOnce (g.references a) target else g.references a := by
  have hlink := find?_link g name target a
  have hne : Entries.find? g.nodes a = none → a ≠ name := by
    rintro hnone rfl
    exact Entries.find?_eq_none.1 hnone h
  unfold references
  rw [hlink]
  by_cases hnew : a = target ∧ a ∉ g.names
  · have hnone := Entries.find?_eq_none.2 hnew.2
    rw [if_pos hnew, hnone]
    simp [hne hnone]
  · rw [if_neg hnew]
    cases hfind : Entries.find? g.nodes a with
    | none => simp [hne hfind]
    | some links => rfl

theorem referrers_link (g : WaypointGraph) (name target b : Name) :
    (link name g target).referrers b =
      if b = target then addOnce (g.referrers b) name else g.referrers b := by
  have hlink := find?_link g name target b
  unfold referrers
  rw [hlink]
  by_cases hnew : b = target ∧ b ∉ g.names
  · rw [if_pos hnew, if_pos hnew.1, Entries.find?_eq_none.2 hnew.2]
    simp [hnew.1]
  · rw [if_neg hnew]
    cases hfind : Entries.find? g.nodes b with
    | none =>
      have hb : b ≠ target := fun hb => hnew ⟨hb, Entries.find?_eq_none.1 hfind⟩
      simp [hb]
    | some links => rfl

/-- An edge of a graph with one more link. -/
theorem mem_references_link (h : name ∈ g.names) :
    b ∈ (link name g target).references a ↔ b ∈ g.references a ∨ a = name ∧ b = target := by
  rw [references_link h]
  split
  · next ha => rw [mem_addOnce, ha, and_iff_right rfl]
  · next ha => simp [ha]

theorem Coherent.link (hg : g.Coherent) (h : name ∈ g.names) (target : Name) :
    (link name g target).Coherent where
  nodup_names := by
    rw [names_link]
    split
    · exact hg.nodup_names
    · next ht => rw [← List.concat_eq_append]; exact hg.nodup_names.concat ht
  nodup_references a := by
    rw [references_link h]
    split
    · exact nodup_addOnce (hg.nodup_references a)
    · exact hg.nodup_references a
  nodup_referrers b := by
    rw [referrers_link]
    split
    · exact nodup_addOnce (hg.nodup_referrers b)
    · exact hg.nodup_referrers b
  mem_referrers := by
    intro a b
    rw [mem_references_link h, referrers_link]
    split
    · next hb => rw [mem_addOnce, hg.mem_referrers]; simp [hb]
    · next hb => rw [hg.mem_referrers]; simp [hb]
  mem_names := by
    intro a b hb
    rw [mem_names_link]
    rcases (mem_references_link h).1 hb with hb | ⟨-, hb⟩
    · exact Or.inl (hg.mem_names hb)
    · exact Or.inr hb

/-! ## Updates -/

theorem Coherent.foldl_link (hg : g.Coherent) (h : name ∈ g.names) (l : List Name) :
    (l.foldl (WaypointGraph.link name) g).Coherent := by
  induction l generalizing g with
  | nil => exact hg
  | cons target l ih => exact ih (hg.link h target) (mem_names_link.2 (Or.inl h))

theorem references_foldl_link (h : name ∈ g.names) (l : List Name) (a : Name) :
    (l.foldl (link name) g).references a =
      if a = name then l.foldl addOnce (g.references a) else g.references a := by
  induction l generalizing g with
  | nil => exact (ite_self _).symm
  | cons target l ih =>
    rw [List.foldl_cons, ih (mem_names_link.2 (Or.inl h)), references_link h]
    split <;> rfl

theorem mem_names_enter_clear (g : WaypointGraph) (name : Name) :
    name ∈ ((g.enter name).clear name).names := by
  rw [names_clear]
  exact mem_names_enter.2 (Or.inr rfl)

theorem Coherent.update (hg : g.Coherent) (name : Name) (l : List Name) :
    (g.update name l).Coherent :=
  ((hg.enter name).clear name).foldl_link (mem_names_enter_clear g name) l

/-- An update replaces what one name refers to and leaves the others as they are. -/
theorem Coherent.references_update (hg : g.Coherent) (name : Name) (l : List Name) (a : Name) :
    (g.update name l).references a = if a = name then l.foldl addOnce [] else g.references a := by
  rw [WaypointGraph.update, references_foldl_link (mem_names_enter_clear g name),
    (hg.enter name).references_clear, references_enter]
  split <;> rfl

/-- The edges after an update. -/
theorem Coherent.mem_references_update (hg : g.Coherent) :
    b ∈ (g.update name l).references a ↔ a = name ∧ b ∈ l ∨ a ≠ name ∧ b ∈ g.references a := by
  rw [hg.references_update]
  split
  · next h => simp [h, mem_foldl_addOnce]
  · next h => simp [h]

/-! ## Updates of several names -/

/-- The graph after updates of several names, each with what it refers to. -/
def updateAll (g : WaypointGraph) (updates : List (Name × List Name)) : WaypointGraph :=
  updates.foldl (fun g u => g.update u.1 u.2) g

section UpdateAll

variable {updates : List (Name × List Name)}

theorem Coherent.updateAll (hg : g.Coherent) (updates : List (Name × List Name)) :
    (g.updateAll updates).Coherent := by
  induction updates generalizing g with
  | nil => exact hg
  | cons u updates ih => exact ih (hg.update u.1 u.2)

theorem mem_names_updateAll :
    a ∈ (g.updateAll updates).names ↔ a ∈ g.names ∨ ∃ u ∈ updates, a = u.1 ∨ a ∈ u.2 := by
  induction updates generalizing g with
  | nil => simp [WaypointGraph.updateAll]
  | cons u updates ih =>
    have hrest := ih (g := g.update u.1 u.2)
    rw [List.exists_mem_cons_iff, ← or_assoc, ← mem_names_update]
    exact hrest

theorem Coherent.references_updateAll_of_not_mem (hg : g.Coherent) (ha : a ∉ updates.map (·.1)) :
    (g.updateAll updates).references a = g.references a := by
  induction updates generalizing g with
  | nil => rfl
  | cons u updates ih =>
    rw [List.map_cons, List.mem_cons, not_or] at ha
    refine (ih (hg.update u.1 u.2) ha.2).trans ?_
    rw [hg.references_update, if_neg ha.1]

/-- A name that is updated once refers to what it is updated with. -/
theorem Coherent.references_updateAll_of_mem (hg : g.Coherent) (hkeys : (updates.map (·.1)).Nodup)
    (h : (a, l) ∈ updates) : (g.updateAll updates).references a = l.eraseDups := by
  induction updates generalizing g with
  | nil => cases h
  | cons u updates ih =>
    rw [List.map_cons, List.nodup_cons] at hkeys
    rcases List.mem_cons.1 h with rfl | h
    · refine ((hg.update a l).references_updateAll_of_not_mem hkeys.1).trans ?_
      rw [hg.references_update, if_pos rfl, foldl_addOnce_nil]
    · exact ih (hg.update u.1 u.2) hkeys.2 h

/-- The edges after updates of different names. -/
theorem Coherent.mem_references_updateAll (hg : g.Coherent) (hkeys : (updates.map (·.1)).Nodup) :
    b ∈ (g.updateAll updates).references a ↔
      (∃ l, (a, l) ∈ updates ∧ b ∈ l) ∨ a ∉ updates.map (·.1) ∧ b ∈ g.references a := by
  by_cases ha : a ∈ updates.map (·.1)
  · obtain ⟨⟨_, l⟩, hu, rfl⟩ := List.mem_map.1 ha
    rw [hg.references_updateAll_of_mem hkeys hu, List.mem_eraseDups]
    have hunique : ∀ l', (_, l') ∈ updates → l' = l := fun l' hl' =>
      congrArg Prod.snd (List.inj_on_of_nodup_map hkeys hl' hu rfl)
    constructor
    · intro hb
      exact Or.inl ⟨l, hu, hb⟩
    · rintro (⟨l', hl', hb⟩ | ⟨hna, -⟩)
      · exact hunique l' hl' ▸ hb
      · exact absurd ha hna
  · rw [hg.references_updateAll_of_not_mem ha]
    constructor
    · intro hb
      exact Or.inr ⟨ha, hb⟩
    · rintro (⟨l, hl, -⟩ | ⟨-, hb⟩)
      · exact absurd (List.mem_map.2 ⟨(a, l), hl, rfl⟩) ha
      · exact hb

end UpdateAll

end RegionLogic.WaypointGraph
