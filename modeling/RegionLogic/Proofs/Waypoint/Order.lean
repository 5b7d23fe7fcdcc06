import Mathlib.Data.Fintype.EquivFin
import Mathlib.Data.List.Chain
import Mathlib.Data.List.Perm.Subperm
import Mathlib.Order.WellFounded
import RegionLogic.Proofs.Waypoint.CycleGroups
import RegionLogic.Waypoint.Order

/-!
# Orders and cycles

Names are put in order as soon as all names that they refer to are in order, which is told by a number for
each name. Whatever is left waits for something that is left as well, so that there is a cycle among the names
that are left. The names on cycles are those that are reached from themselves; besides them, the names that
lead to a cycle are left.

## Main definitions

* `WaypointGraph.Resolved`: a list in which every name comes after all names that it refers to
* `WaypointGraph.lacking`: how many of the names that a name refers to are not in order
* `WaypointGraph.Frontier.Sound`: the numbers are right, and what lacks nothing is in order or comes next

## Main results

* `WaypointGraph.reaches_iff`: the search finds what is reached
* `WaypointGraph.Frontier.Sound.next`: one more name in order keeps the frontier sound
* `WaypointGraph.Coherent.readyOrder_spec`: the names that can be put in order, and what the others wait for
* `WaypointGraph.Coherent.substitutionOrder_eq_ok`: a graph without cycles has an order
* `WaypointGraph.Coherent.not_mem_readyOrder_iff`: the names that are left
* `WaypointGraph.cyclicNames_after`: the names on cycles of any graph that operations make
-/

namespace RegionLogic.WaypointGraph

open Relation

variable {g : WaypointGraph} {a b name goal : Name} {order unseen stack : List Name}

/-! ## Search -/

/-- A path to `goal` whose references are all followed from names of `unseen`. -/
abbrev Path (g : WaypointGraph) (unseen : List Name) : Name → Name → Prop :=
  ReflTransGen fun a b => a ∈ unseen ∧ g.Refers a b

/-- A path either avoids following the references of `name` or, after it has followed them for the last
time, does not follow them again. -/
theorem Path.avoid (h : g.Path unseen a goal) (name : Name) :
    g.Path (unseen.erase name) a goal ∨
      ∃ b, g.Refers name b ∧ g.Path (unseen.erase name) b goal := by
  induction h using ReflTransGen.head_induction_on with
  | refl => exact Or.inl .refl
  | @head a b hab _ ih =>
    rcases ih with hb | hb
    · by_cases ha : a = name
      · exact Or.inr ⟨b, ha ▸ hab.2, hb⟩
      · exact Or.inl (hb.head ⟨(List.mem_erase_of_ne ha).2 hab.1, hab.2⟩)
    · exact Or.inr hb

theorem Path.mono {unseen' : List Name} (h : g.Path unseen' a goal) (hsub : unseen' ⊆ unseen) :
    g.Path unseen a goal :=
  ReflTransGen.mono (fun _ _ hab => ⟨hsub hab.1, hab.2⟩) _ _ h

/-- The search finds the goal if and only if a path leads to it from the stack. -/
theorem search_iff : search g goal unseen stack = true ↔ ∃ a ∈ stack, g.Path unseen a goal := by
  fun_induction search g goal unseen stack with
  | case1 => simp
  | case2 => simp [ReflTransGen.refl]
  | case3 unseen name stack hne hmem ih =>
    rw [ih]
    constructor
    · rintro ⟨a, ha, hpath⟩
      have hpath := hpath.mono List.erase_subset
      rcases List.mem_append.1 ha with ha | ha
      · exact ⟨name, by simp, hpath.head ⟨hmem, ha⟩⟩
      · exact ⟨a, by simp [ha], hpath⟩
    · rintro ⟨a, ha, hpath⟩
      rcases hpath.avoid name with hpath | ⟨b, hb, hpath⟩
      · rcases List.mem_cons.1 ha with rfl | ha
        · rcases hpath.cases_head with h | ⟨b, hab, hpath⟩
          · exact absurd h hne
          · exact ⟨b, List.mem_append_left stack hab.2, hpath⟩
        · exact ⟨a, by simp [ha], hpath⟩
      · exact ⟨b, List.mem_append_left stack hb, hpath⟩
  | case4 unseen name stack hne hmem ih =>
    rw [ih]
    constructor
    · rintro ⟨a, ha, hpath⟩
      exact ⟨a, by simp [ha], hpath⟩
    · rintro ⟨a, ha, hpath⟩
      rcases List.mem_cons.1 ha with rfl | ha
      · rcases hpath.cases_head with h | ⟨b, hab, -⟩
        · exact absurd h hne
        · exact absurd hab.1 hmem
      · exact ⟨a, ha, hpath⟩

/-- What is reached is what a chain of references leads to. -/
theorem reaches_iff : g.reaches a b = true ↔ TransGen g.Refers a b := by
  have hnames : (fun a b => a ∈ g.names ∧ g.Refers a b) = g.Refers := by
    funext a b
    exact propext (and_iff_right_of_imp mem_names_of_mem_references)
  unfold reaches
  rw [search_iff, TransGen.head'_iff]
  simp only [Path, hnames]
  rfl

/-! ## Lists in order -/

/-- Every name of the list comes after all names that it refers to. -/
inductive Resolved (g : WaypointGraph) : List Name → Prop
  | nil : g.Resolved []
  | snoc {order : List Name} {name : Name} : g.Resolved order →
      (∀ b, g.Refers name b → b ∈ order) → g.Resolved (order ++ [name])

theorem Resolved.mem_of_refers (h : g.Resolved order) (ha : a ∈ order) (hab : g.Refers a b) :
    b ∈ order := by
  induction h with
  | nil => cases ha
  | snoc _ hname ih =>
    rcases List.mem_append.1 ha with ha | ha
    · exact List.mem_append_left _ (ih ha)
    · obtain rfl := List.mem_singleton.1 ha
      exact List.mem_append_left _ (hname b hab)

/-- What a name refers to stands before it. -/
theorem Resolved.mem_before (h : g.Resolved order) {l l' : List Name} (hl : order = l ++ name :: l')
    (hb : g.Refers name b) : b ∈ l := by
  induction h generalizing l' with
  | nil => simp at hl
  | snoc _ hlast ih =>
    rcases List.eq_nil_or_concat l' with rfl | ⟨init, last, rfl⟩
    · obtain ⟨rfl, hname⟩ := List.append_inj' hl rfl
      obtain rfl := (List.cons.inj hname).1
      exact hlast b hb
    · rw [List.concat_eq_append, ← List.cons_append, ← List.append_assoc] at hl
      exact ih (List.append_inj' hl rfl).1

theorem Resolved.mem_of_reaches (h : g.Resolved order) (ha : a ∈ order)
    (hab : TransGen g.Refers a b) : b ∈ order := by
  induction hab with
  | single hab => exact h.mem_of_refers ha hab
  | tail _ hbc ih => exact h.mem_of_refers ih hbc

/-- A name that comes after all names that it refers to is not reached from itself. -/
theorem Resolved.not_onCycle (h : g.Resolved order) (hnodup : order.Nodup) (ha : a ∈ order) :
    ¬g.OnCycle a := by
  induction h with
  | nil => cases ha
  | @snoc order name hres hname ih =>
    rw [← List.concat_eq_append, List.nodup_concat] at hnodup
    rcases List.mem_append.1 ha with ha | ha
    · exact ih hnodup.2 ha
    · obtain rfl := List.mem_singleton.1 ha
      intro hcycle
      -- the cycle goes on inside the list and would come back to the name after it
      obtain ⟨b, hab, hba⟩ := TransGen.head'_iff.1 hcycle
      have hb := hname b hab
      rcases reflTransGen_iff_eq_or_transGen.1 hba with rfl | hba
      · exact hnodup.1 hb
      · exact hnodup.1 (hres.mem_of_reaches hb hba)

/-- Where every name of a list refers to a name of the list, some name is on a cycle. -/
theorem exists_onCycle {l : List Name} (hne : l ≠ []) (h : ∀ a ∈ l, ∃ b ∈ l, g.Refers a b) :
    ∃ a ∈ l, g.OnCycle a := by
  by_contra hno
  let below (b a : {a // a ∈ l}) : Prop := TransGen g.Refers a.1 b.1
  have : IsTrans _ below := ⟨fun _ _ _ hab hbc => hbc.trans hab⟩
  have : Std.Irrefl below := ⟨fun a ha => hno ⟨a.1, a.2, ha⟩⟩
  have hwf : WellFounded below := Finite.wellFounded_of_trans_of_irrefl below
  obtain ⟨a, ha⟩ := List.exists_mem_of_ne_nil l hne
  obtain ⟨m, -, hm⟩ := hwf.has_min Set.univ ⟨⟨a, ha⟩, trivial⟩
  obtain ⟨b, hb, hmb⟩ := h m.1 m.2
  exact hm ⟨b, hb⟩ trivial (.single hmb)

/-! ## Putting names in order -/

/-- How many of the names that `a` refers to are not in order. -/
def lacking (g : WaypointGraph) (order : List Name) (a : Name) : Nat := (g.references a).countP (· ∉ order)

theorem lacking_eq_zero_iff : g.lacking order a = 0 ↔ ∀ b, g.Refers a b → b ∈ order := by
  simp [lacking, List.countP_eq_zero, Refers]

/-- One more name in order is what the names that refer to it lack no longer. -/
theorem Coherent.lacking_concat (hg : g.Coherent) (hname : name ∉ order) (a : Name) :
    g.lacking order a = g.lacking (order ++ [name]) a + if g.Refers a name then 1 else 0 := by
  have hcount : ∀ l : List Name,
      l.countP (· ∉ order) = l.countP (· ∉ order ++ [name]) + l.count name := by
    intro l
    induction l with
    | nil => rfl
    | cons b l ih =>
      have hb : (if b ∉ order then 1 else 0) =
          (if b ∉ order ++ [name] then 1 else 0) + if b = name then 1 else 0 := by
        by_cases hb : b = name
        · simp [hb, hname]
        · simp [hb]
      simp only [List.countP_cons, List.count_cons, decide_eq_true_eq, beq_iff_eq, ih]
      omega
  rw [lacking, hcount, (hg.nodup_references a).count]
  rfl

namespace Frontier

variable {f : Frontier} {l : List Name}

/-- Names that come next refer to names in order only, the names in order come after all that they refer to, and the
numbers say what each name lacks. So whatever lacks nothing is in order or comes next. -/
structure Sound (g : WaypointGraph) (f : Frontier) : Prop where
  nodup : (f.order ++ f.queue).Nodup
  resolved : g.Resolved f.order
  missing : ∀ a ∈ g.names, Entries.find? f.missing a = some (g.lacking f.order a : Int)
  mem_iff : ∀ a, a ∈ f.order ++ f.queue ↔ a ∈ g.names ∧ g.lacking f.order a = 0

theorem find?_missing_release (f : Frontier) (name a : Name) :
    Entries.find? (f.release name).missing a =
      (Entries.find? f.missing a).map fun n => if a = name then n - 1 else n := by
  rw [release, Entries.find?_adjust]
  by_cases h : name = a
  · simp [h]
  · simp [h, Ne.symm h]

/-- The names that lack one name only come next if that name is noted. -/
theorem queue_release (f : Frontier) (name : Name) :
    (f.release name).queue = f.queue ++ [name].filter fun a => Entries.find? f.missing a = some 1 := by
  have hlast : Entries.find? (f.release name).missing name = some 0 ↔ Entries.find? f.missing name = some 1 := by
    rw [find?_missing_release]
    cases Entries.find? f.missing name with
    | none => simp
    | some n => simp [Int.sub_eq_zero]
  by_cases h : Entries.find? f.missing name = some 1
  · rw [List.filter_cons_of_pos (by simpa using h), List.filter_nil]
    exact if_pos (hlast.2 h)
  · rw [List.filter_cons_of_neg (by simpa using h), List.filter_nil, List.append_nil]
    exact if_neg fun hzero => h (hlast.1 hzero)

/-- What becomes of a frontier when a name is noted at the names of a list. -/
theorem foldl_release (hl : l.Nodup) (f : Frontier) :
    (l.foldl release f).order = f.order ∧
      (l.foldl release f).queue = f.queue ++ l.filter (fun a => Entries.find? f.missing a = some 1) ∧
      ∀ a, Entries.find? (l.foldl release f).missing a =
        (Entries.find? f.missing a).map fun n => if a ∈ l then n - 1 else n := by
  induction l generalizing f with
  | nil => simp
  | cons name l ih =>
    rw [List.nodup_cons] at hl
    obtain ⟨horder, hqueue, hmissing⟩ := ih hl.2 (f.release name)
    refine ⟨horder, ?_, fun a => ?_⟩
    · -- the numbers of the other names of the list are as before
      have hrest : l.filter (fun a => Entries.find? (f.release name).missing a = some 1) =
          l.filter fun a => Entries.find? f.missing a = some 1 := by
        refine List.filter_congr fun a ha => ?_
        have hne : a ≠ name := fun heq => hl.1 (heq ▸ ha)
        simp [find?_missing_release, hne]
      rw [List.foldl_cons, hqueue, hrest, queue_release, List.append_assoc, ← List.filter_append,
        List.singleton_append]
    · rw [List.foldl_cons, hmissing, find?_missing_release, Option.map_map]
      congr 1
      funext n
      by_cases ha : a = name
      · simp [ha, hl.1]
      · simp [ha]

/-- Once the next name is in order and noted at the names that refer to it, the frontier is sound again. -/
theorem Sound.next (hf : f.Sound g) (hg : g.Coherent) {queue : List Name} (hqueue : f.queue = name :: queue) :
    ((g.referrers name).foldl release { order := f.order ++ [name], queue, missing := f.missing }).Sound g := by
  obtain ⟨horder, hnext, hmissing⟩ := foldl_release (hg.nodup_referrers name)
    { order := f.order ++ [name], queue, missing := f.missing }
  have hnodup : (f.order ++ [name] ++ queue).Nodup := by
    have h := hf.nodup
    rwa [hqueue, ← List.singleton_append, ← List.append_assoc] at h
  have hmem : ∀ a, a ∈ f.order ++ [name] ++ queue ↔ a ∈ g.names ∧ g.lacking f.order a = 0 := by
    intro a
    rw [← hf.mem_iff, hqueue, List.append_assoc, List.singleton_append]
  have hname : name ∉ f.order := by
    have h := hnodup.of_append_left
    rw [← List.concat_eq_append, List.nodup_concat] at h
    exact h.1
  have hlacking := hg.lacking_concat hname
  -- the names that come next in addition are those that lacked `name` only
  have hreleased : ∀ a, a ∈ (g.referrers name).filter (fun a => Entries.find? f.missing a = some 1) ↔
      g.Refers a name ∧ g.lacking f.order a = 1 := by
    intro a
    rw [List.mem_filter, hg.mem_referrers, decide_eq_true_eq]
    refine and_congr_right fun hrefers => ?_
    rw [hf.missing a (mem_names_of_mem_references hrefers), Option.some_inj]
    omega
  refine ⟨?_, ?_, fun a ha => ?_, fun a => ?_⟩
  · rw [horder, hnext, ← List.append_assoc, List.nodup_append]
    refine ⟨hnodup, (hg.nodup_referrers name).filter _, fun a ha b hb hab => ?_⟩
    have hzero := ((hmem a).1 ha).2
    have hone := ((hreleased b).1 hb).2
    rw [hab, hone] at hzero
    exact absurd hzero Nat.one_ne_zero
  · rw [horder]
    refine hf.resolved.snoc (lacking_eq_zero_iff.1 ((hmem name).1 ?_).2)
    simp
  · rw [hmissing, hf.missing a ha, horder, hlacking a, Option.map_some]
    by_cases hrefers : g.Refers a name
    · simp [hrefers, hg.mem_referrers.2 hrefers]
    · have hnot : a ∉ g.referrers name := fun h => hrefers (hg.mem_referrers.1 h)
      simp [hrefers, hnot]
  · rw [horder, hnext, ← List.append_assoc, List.mem_append, hmem, hreleased, hlacking a]
    by_cases hrefers : g.Refers a name
    · have hnames := mem_names_of_mem_references hrefers
      simp [hrefers, hnames]
    · simp [hrefers]

/-- At first the names that refer to nothing come next. -/
theorem sound_start (hg : g.Coherent) :
    Sound g
      { order := []
        queue := g.names.filter fun name => (g.references name).isEmpty
        missing := g.names.map fun name => (name, ((g.references name).length : Int)) } := by
  have hlacking : ∀ a, g.lacking [] a = (g.references a).length := by simp [lacking]
  refine ⟨hg.nodup_names.filter _, .nil, fun a ha => ?_, fun a => ?_⟩
  · rw [hlacking]
    exact Entries.find?_map ha
  · rw [hlacking]
    simp

end Frontier

/-- The names are put in order until each name that lacks nothing is in order. -/
theorem Coherent.advance_spec (hg : g.Coherent) {f : Frontier} (hf : f.Sound g) :
    (advance g f).Nodup ∧ g.Resolved (advance g f) ∧
      ∀ a, a ∈ advance g f ↔ a ∈ g.names ∧ g.lacking (advance g f) a = 0 := by
  fun_induction advance g f with
  | case1 f hqueue =>
    have hnodup := hf.nodup
    have hmem := hf.mem_iff
    rw [hqueue, List.append_nil] at hnodup hmem
    exact ⟨hnodup, hf.resolved, hmem⟩
  | case2 f name queue hqueue ih => exact ih (hf.next hg hqueue)

/-- What cannot be put in order refers to something else that cannot. -/
theorem Coherent.readyOrder_spec (hg : g.Coherent) :
    ∃ waiting, (g.readyOrder ++ waiting).Perm g.names ∧ g.Resolved g.readyOrder ∧
      ∀ a ∈ waiting, ∃ b ∈ waiting, g.Refers a b := by
  obtain ⟨hnodup, hresolved, hmem⟩ := hg.advance_spec (Frontier.sound_start hg)
  have hsub : ∀ a ∈ g.readyOrder, a ∈ g.names := fun a ha => ((hmem a).1 ha).1
  refine ⟨g.names.filter (· ∉ g.readyOrder), ?_, hresolved, fun a ha => ?_⟩
  · rw [List.perm_ext_iff_of_nodup _ hg.nodup_names]
    · intro a
      by_cases ha : a ∈ g.readyOrder
      · simp [ha, hsub a ha]
      · simp [ha]
    · rw [List.nodup_append]
      refine ⟨hnodup, hg.nodup_names.filter _, fun a ha b hb hab => ?_⟩
      simp only [List.mem_filter, decide_eq_true_eq] at hb
      exact hb.2 (hab ▸ ha)
  · -- what lacks nothing is in order
    simp only [List.mem_filter, decide_eq_true_eq] at ha ⊢
    have hlacks : ¬∀ b, g.Refers a b → b ∈ g.readyOrder := fun h =>
      ha.2 ((hmem a).2 ⟨ha.1, lacking_eq_zero_iff.2 h⟩)
    obtain ⟨b, hb⟩ := not_forall.1 hlacks
    obtain ⟨hab, hb⟩ := Classical.not_imp.1 hb
    exact ⟨b, ⟨hg.mem_names hab, hb⟩, hab⟩

theorem Coherent.nodup_readyOrder (hg : g.Coherent) : g.readyOrder.Nodup := by
  obtain ⟨waiting, hperm, -⟩ := hg.readyOrder_spec
  exact (hperm.nodup_iff.2 hg.nodup_names).of_append_left

theorem Coherent.not_onCycle_of_mem_readyOrder (hg : g.Coherent) (ha : a ∈ g.readyOrder) :
    ¬g.OnCycle a := by
  obtain ⟨-, -, hresolved, -⟩ := hg.readyOrder_spec
  exact hresolved.not_onCycle hg.nodup_readyOrder ha

/-- As many names as there are can be put in order if and only if there is no cycle. -/
theorem Coherent.length_readyOrder_eq_iff (hg : g.Coherent) :
    g.readyOrder.length = g.names.length ↔ ∀ a, ¬g.OnCycle a := by
  obtain ⟨waiting, hperm, hresolved, hwaiting⟩ := hg.readyOrder_spec
  have hlength : g.readyOrder.length = g.names.length ↔ waiting = [] := by
    rw [← hperm.length_eq, List.length_append, ← List.length_eq_zero_iff]
    omega
  rw [hlength]
  constructor
  · rintro rfl a ha
    rw [List.append_nil] at hperm
    exact hg.not_onCycle_of_mem_readyOrder (hperm.mem_iff.2 ha.mem_names) ha
  · intro h
    by_contra hne
    obtain ⟨a, -, ha⟩ := exists_onCycle hne hwaiting
    exact h a ha

/-- A graph without cycles has an order, in which all names occur. -/
theorem Coherent.substitutionOrder_eq_ok (hg : g.Coherent) (h : ∀ a, ¬g.OnCycle a) :
    g.substitutionOrder = .ok g.readyOrder ∧ g.readyOrder.Perm g.names ∧ g.Resolved g.readyOrder := by
  obtain ⟨waiting, hperm, hresolved, -⟩ := hg.readyOrder_spec
  have hlength := hg.length_readyOrder_eq_iff.2 h
  have hnil : waiting = [] := by
    rw [← List.length_eq_zero_iff]
    simpa [hlength] using hperm.length_eq
  rw [hnil, List.append_nil] at hperm
  refine ⟨?_, hperm, hresolved⟩
  rw [substitutionOrder]
  exact if_pos hlength

/-! ## The names on cycles -/

/-- The names on cycles are those that are reached from themselves. -/
theorem Coherent.mem_cyclicNames (hg : g.Coherent) : a ∈ g.cyclicNames ↔ g.OnCycle a := by
  unfold cyclicNames
  rw [NameSet.mem_ofList, List.mem_append, List.mem_flatMap, mem_cycleGroups]
  constructor
  · rintro (h | h)
    · exact h.1
    · have h := (List.mem_filter.1 h).2
      rw [Bool.and_eq_true] at h
      exact reaches_iff.1 h.2
  · intro h
    have horder : a ∉ g.readyOrder := fun ha => hg.not_onCycle_of_mem_readyOrder ha h
    refine Or.inr (List.mem_filter.2 ⟨h.mem_names, ?_⟩)
    simp [horder, reaches_iff.2 h]

/-- The names that cannot be put in order are those that are on a cycle or in front of one. -/
theorem Coherent.not_mem_readyOrder_iff (hg : g.Coherent) :
    a ∈ g.names ∧ a ∉ g.readyOrder ↔ ∃ b, g.OnCycle b ∧ ReflTransGen g.Refers a b := by
  obtain ⟨waiting, hperm, hresolved, hwaiting⟩ := hg.readyOrder_spec
  constructor
  · rintro ⟨ha, horder⟩
    classical
    -- the names that wait and are reached from `a` refer to one another
    have ha : a ∈ waiting := (List.mem_append.1 (hperm.mem_iff.2 ha)).resolve_left horder
    have hclosed : ∀ b ∈ waiting.filter (ReflTransGen g.Refers a ·),
        ∃ c ∈ waiting.filter (ReflTransGen g.Refers a ·), g.Refers b c := by
      intro b hb
      simp only [List.mem_filter, decide_eq_true_eq] at hb ⊢
      obtain ⟨c, hc, hbc⟩ := hwaiting b hb.1
      exact ⟨c, ⟨hc, hb.2.tail hbc⟩, hbc⟩
    have hne : waiting.filter (ReflTransGen g.Refers a ·) ≠ [] := by
      refine List.ne_nil_of_mem (a := a) ?_
      simp only [List.mem_filter, decide_eq_true_eq]
      exact ⟨ha, .refl⟩
    obtain ⟨b, hb, hcycle⟩ := exists_onCycle hne hclosed
    simp only [List.mem_filter, decide_eq_true_eq] at hb
    exact ⟨b, hcycle, hb.2⟩
  · rintro ⟨b, hcycle, hab⟩
    rcases reflTransGen_iff_eq_or_transGen.1 hab with rfl | hab
    · exact ⟨hcycle.mem_names, fun ha => hg.not_onCycle_of_mem_readyOrder ha hcycle⟩
    · obtain ⟨c, hac, -⟩ := TransGen.head'_iff.1 hab
      refine ⟨mem_names_of_mem_references hac, fun ha => ?_⟩
      exact hg.not_onCycle_of_mem_readyOrder (hresolved.mem_of_reaches ha hab) hcycle

/-- In any graph that operations make, the names on cycles are exactly those that are reached from themselves.
Those to which a root leads are in the groups of the walks. The others are among the names that cannot be put in
order, which are all names that lead to a cycle, and are told from those in front of one by the search. -/
theorem cyclicNames_after (ops : List Operation) :
    (∀ a, a ∈ (after ops).cyclicNames ↔ TransGen (after ops).Refers a a) ∧
    (∀ a, (∃ group ∈ (after ops).cycleGroups, a ∈ group.names) ↔
      a ∈ (after ops).cyclicNames ∧ (after ops).LedTo a) ∧
    (∀ a, a ∈ (after ops).names ∧ a ∉ (after ops).readyOrder ↔
      ∃ b ∈ (after ops).cyclicNames, ReflTransGen (after ops).Refers a b) ∧
    ∀ a b, (after ops).reaches a b = true ↔ TransGen (after ops).Refers a b := by
  have hg := coherent_after ops
  refine ⟨fun a => hg.mem_cyclicNames, fun a => ?_, fun a => ?_, fun a b => reaches_iff⟩
  · rw [hg.mem_cyclicNames]
    exact mem_cycleGroups
  · simp only [hg.mem_cyclicNames]
    exact hg.not_mem_readyOrder_iff

end RegionLogic.WaypointGraph
