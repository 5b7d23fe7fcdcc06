import RegionLogic.Proofs.Region.View

/-!
# Consistent graphs

Edges are kept twice, as the exits of a region and in the index of entrances. A graph is consistent if
the two agree, nothing leads to a region that is not there, what is placed is declared, and no exit and
no location is without alternatives. Every change of a graph keeps it consistent.

## Main definitions

* `RegionGraph.Consistent`: the invariant
* `RegionGraph.isolate`, `RegionGraph.without`: the graph without the edges of a region, and without it

## Main results

* `Consistent.addEdge`, `Consistent.cut`, `Consistent.without`: the invariant is kept
* `exitsOf_without`, `parentsOf_without`: the edges that are left
-/

namespace RegionLogic

namespace RegionGraph

/-- The exits and the index of entrances agree, and whatever is named is there. -/
structure Consistent (g : RegionGraph) : Prop where
  /-- The start region is there. -/
  start_mem : startRegion ∈ g.names
  /-- No two regions have the same name. -/
  names_nodup : g.names.Nodup
  /-- Every region is kept under its own name. -/
  name_eq : ∀ {n r}, g.region? n = some r → r.name = n
  /-- The index has an entry for every region and for nothing else. -/
  keys_parents : Entries.keys g.parents = g.names
  /-- The entrances of a region are the regions with an exit into it. -/
  mem_parentsOf : ∀ {p c}, p ∈ g.parentsOf c ↔ c ∈ g.targetsOf p
  /-- No entrance is listed twice. -/
  parentsOf_nodup : ∀ c, (g.parentsOf c).Nodup
  /-- Every exit leads to a region. -/
  target_mem : ∀ {p c}, c ∈ g.targetsOf p → c ∈ g.names
  /-- No region has two exits to the same region. -/
  targetsOf_nodup : ∀ p, (g.targetsOf p).Nodup
  /-- No location and no transition is declared twice. -/
  keys_sites_nodup : ∀ kind, (Entries.keys (g.sites kind)).Nodup
  /-- Every location and every transition is kept under its own name. -/
  site_name : ∀ {kind x l}, Entries.find? (g.sites kind) x = some l → l.name = x
  /-- Whatever is placed in a region is declared. -/
  declared : ∀ {kind p x}, x ∈ g.placedIn kind p → x ∈ Entries.keys (g.sites kind)
  /-- Every exit has an alternative. -/
  exit_logic : ∀ {p e}, e ∈ g.exitsOf p → e.logic ≠ []
  /-- Every location has an alternative. -/
  location_logic : ∀ {x l}, Entries.find? (g.sites .locations) x = some l → l.logic ≠ []

variable {g : RegionGraph} {p q t c n : Name}

theorem Consistent.parent_mem (h : g.Consistent) (hp : p ∈ g.parentsOf c) : p ∈ g.names :=
  mem_names_of_mem_targetsOf (h.mem_parentsOf.1 hp)

/-- What has an entrance is a region. -/
theorem Consistent.mem_of_parent (h : g.Consistent) (hp : p ∈ g.parentsOf c) : c ∈ g.names :=
  h.target_mem (h.mem_parentsOf.1 hp)

theorem find?_eq_some_iff_mem {κ α : Type} [DecidableEq κ] {t : List (κ × α)}
    (h : (Entries.keys t).Nodup) {k : κ} {v : α} : Entries.find? t k = some v ↔ (k, v) ∈ t := by
  refine ⟨Entries.mem_of_find?, fun hm => ?_⟩
  have hk : k ∈ Entries.keys t := List.mem_map_of_mem (f := (·.1)) hm
  obtain ⟨v', hv'⟩ := Option.isSome_iff_exists.1 (Entries.isSome_find?.2 hk)
  have he := List.inj_on_of_nodup_map h (Entries.mem_of_find? hv') hm rfl
  rw [hv', (Prod.mk.inj he).2]

/-- The lists of alternatives are those of the exits and those of what is declared. -/
theorem Consistent.mem_logicLists (h : g.Consistent) {l : List Branch} :
    l ∈ g.logicLists ↔
      (∃ p, ∃ e ∈ g.exitsOf p, e.logic = l) ∨
        ∃ kind x s, Entries.find? (g.sites kind) x = some s ∧ s.logic = l := by
  -- connections pair the name that a region has itself with its exits, and that is the name it is kept under
  have hexits : (∃ c ∈ g.connections, c.2.logic = l) ↔ ∃ p, ∃ e ∈ g.exitsOf p, e.logic = l := by
    constructor
    · rintro ⟨⟨n, e⟩, hc, hl⟩
      obtain ⟨r, hr, he⟩ := List.mem_flatMap.1 hc
      obtain ⟨e', he', hpair⟩ := List.mem_map.1 he
      obtain ⟨-, rfl⟩ := Prod.mk.inj hpair
      refine ⟨r.1, e', ?_, hl⟩
      rwa [exitsOf_of_region? ((find?_eq_some_iff_mem h.names_nodup).2 hr)]
    · rintro ⟨p, e, he, hl⟩
      obtain ⟨r, hr⟩ := mem_names.1 (mem_names_of_mem_targetsOf (target_mem_targetsOf he))
      rw [exitsOf_of_region? hr] at he
      exact ⟨(r.name, e), List.mem_flatMap.2 ⟨(p, r), Entries.mem_of_find? hr,
        List.mem_map_of_mem he⟩, hl⟩
  have hsites : ∀ kind, (∃ s ∈ g.sites kind, s.2.logic = l) ↔
      ∃ x s, Entries.find? (g.sites kind) x = some s ∧ s.logic = l := fun kind => by
    simp only [find?_eq_some_iff_mem (h.keys_sites_nodup kind)]
    constructor
    · rintro ⟨⟨x, s⟩, hs, hl⟩
      exact ⟨x, s, hs, hl⟩
    · rintro ⟨x, s, hs, hl⟩
      exact ⟨(x, s), hs, hl⟩
  simp only [logicLists, List.mem_append, List.mem_map, hexits]
  rw [or_assoc]
  refine or_congr_right ?_
  constructor
  · rintro (hl | hl)
    · exact ⟨.locations, (hsites .locations).1 hl⟩
    · exact ⟨.transitions, (hsites .transitions).1 hl⟩
  · rintro ⟨kind, hl⟩
    cases kind
    · exact Or.inr ((hsites .transitions).2 hl)
    · exact Or.inl ((hsites .locations).2 hl)

/-- A change that leaves the edges alone, up to the alternatives of the exits. -/
theorem Consistent.of_views {g' : RegionGraph} (h : g.Consistent) (hnames : g'.names = g.names)
    (hregion : ∀ {n r'}, g'.region? n = some r' → ∃ r, g.region? n = some r ∧ r'.name = r.name)
    (hparents : g'.parents = g.parents) (htargets : ∀ p, g'.targetsOf p = g.targetsOf p)
    (hnodup : ∀ kind, (Entries.keys (g'.sites kind)).Nodup)
    (hsite : ∀ {kind x l}, Entries.find? (g'.sites kind) x = some l → l.name = x)
    (hdeclared : ∀ {kind p x}, x ∈ g'.placedIn kind p → x ∈ Entries.keys (g'.sites kind))
    (hexit : ∀ {p e}, e ∈ g'.exitsOf p → e.logic ≠ [])
    (hlocation : ∀ {x l}, Entries.find? (g'.sites .locations) x = some l → l.logic ≠ []) :
    g'.Consistent where
  start_mem := hnames ▸ h.start_mem
  names_nodup := hnames ▸ h.names_nodup
  name_eq hr := by
    obtain ⟨r, hr', hname⟩ := hregion hr
    rw [hname, h.name_eq hr']
  keys_parents := by rw [hparents, hnames, h.keys_parents]
  mem_parentsOf {p c} := by
    rw [htargets, parentsOf, hparents]
    exact h.mem_parentsOf
  parentsOf_nodup c := by
    rw [parentsOf, hparents]
    exact h.parentsOf_nodup c
  target_mem {p c} hc := by
    rw [htargets] at hc
    exact hnames ▸ h.target_mem hc
  targetsOf_nodup p := htargets p ▸ h.targetsOf_nodup p
  keys_sites_nodup := hnodup
  site_name := hsite
  declared := hdeclared
  exit_logic := hexit
  location_logic := hlocation

theorem exitsOf_fresh (p : Name) : fresh.exitsOf p = [] :=
  exitsOf_ensureRegion (g := {}) (p := startRegion)

theorem targetsOf_fresh (p : Name) : fresh.targetsOf p = [] := by
  rw [targetsOf, exitsOf_fresh, List.map_nil]

theorem parentsOf_fresh (c : Name) : fresh.parentsOf c = [] :=
  parentsOf_ensureRegion (g := {}) (p := startRegion)

theorem placedIn_fresh (kind : Placed) (p : Name) : fresh.placedIn kind p = [] :=
  placedIn_ensureRegion (g := {}) (p := startRegion) kind

theorem fresh_consistent : fresh.Consistent where
  start_mem := by decide
  names_nodup := by decide
  name_eq {n r} h := by
    have h : (if startRegion = n then some { name := startRegion } else none) = some r := h
    split at h
    · next hn => exact (Option.some.inj h) ▸ hn
    · cases h
  keys_parents := rfl
  mem_parentsOf := by simp [parentsOf_fresh, targetsOf_fresh]
  parentsOf_nodup c := by
    rw [parentsOf_fresh]
    exact List.nodup_nil
  target_mem h := by simp [targetsOf_fresh] at h
  targetsOf_nodup p := by
    rw [targetsOf_fresh]
    exact List.nodup_nil
  keys_sites_nodup kind := by cases kind <;> exact List.nodup_nil
  site_name {kind x l} h := by cases kind <;> cases h
  declared h := by simp [placedIn_fresh] at h
  exit_logic h := by simp [exitsOf_fresh] at h
  location_logic h := by cases h

/-! ## New regions and edges -/

theorem keys_parents_ensureRegion (h : Entries.keys g.parents = g.names) :
    Entries.keys (g.ensureRegion n).parents = (g.ensureRegion n).names := by
  rw [names_ensureRegion]
  unfold ensureRegion
  by_cases hn : n ∈ g.names
  · have hs : (g.region? n).isSome = true := Entries.isSome_find?.2 hn
    rw [if_pos hs, addOnce_of_mem hn, h]
  · have hs : ¬(g.region? n).isSome = true := fun hs => hn (Entries.isSome_find?.1 hs)
    have hp : ¬Entries.has g.parents n = true := fun hp => hn (h ▸ Entries.has_iff.1 hp)
    rw [if_neg hs, addOnce_of_not_mem hn, addRegion, if_neg hp, Entries.keys_set, h, if_neg hn]

theorem Consistent.ensureRegion (h : g.Consistent) (n : Name) : (g.ensureRegion n).Consistent where
  start_mem := by
    rw [names_ensureRegion, mem_addOnce]
    exact Or.inl h.start_mem
  names_nodup := by
    rw [names_ensureRegion]
    exact nodup_addOnce h.names_nodup
  name_eq {m r} hr := by
    rw [region?_ensureRegion] at hr
    split at hr
    · next hnm =>
      cases hm : g.region? m with
      | none =>
        simp only [hm, Option.getD_none, Option.some.injEq] at hr
        rw [← hr]
      | some r' =>
        simp only [hm, Option.getD_some, Option.some.injEq] at hr
        exact hr ▸ h.name_eq hm
    · exact h.name_eq hr
  keys_parents := keys_parents_ensureRegion h.keys_parents
  mem_parentsOf {p c} := by simpa using h.mem_parentsOf
  parentsOf_nodup c := by simpa using h.parentsOf_nodup c
  target_mem {p c} hc := by
    rw [names_ensureRegion, mem_addOnce]
    exact Or.inl (h.target_mem (by simpa using hc))
  targetsOf_nodup p := by simpa using h.targetsOf_nodup p
  keys_sites_nodup kind := by
    rw [sites_ensureRegion]
    exact h.keys_sites_nodup kind
  site_name hl := by
    rw [sites_ensureRegion] at hl
    exact h.site_name hl
  declared hx := by
    rw [sites_ensureRegion]
    exact h.declared (by simpa using hx)
  exit_logic he := h.exit_logic (by simpa using he)
  location_logic hl := by
    rw [sites_ensureRegion] at hl
    exact h.location_logic hl

theorem mem_extendExits {bs : List Branch} {es : List Exit} {e : Exit}
    (h : e ∈ Region.extendExits t bs es) :
    e ∈ es ∨ e = ⟨t, bs⟩ ∨ ∃ e' ∈ es, e'.target = t ∧ e = ⟨t, e'.logic ++ bs⟩ := by
  induction es with
  | nil => simp_all [Region.extendExits]
  | cons a es ih =>
    by_cases ha : a.target = t
    · simp only [Region.extendExits, ha, if_true, List.mem_cons] at h
      rcases h with rfl | h
      · exact Or.inr (Or.inr ⟨a, by simp, ha, rfl⟩)
      · exact Or.inl (List.mem_cons_of_mem a h)
    · simp only [Region.extendExits, ha, if_false, List.mem_cons] at h
      rcases h with rfl | h
      · exact Or.inl (by simp)
      · rcases ih h with h | h | ⟨e', he', h⟩
        · exact Or.inl (List.mem_cons_of_mem a h)
        · exact Or.inr (Or.inl h)
        · exact Or.inr (Or.inr ⟨e', List.mem_cons_of_mem a he', h⟩)

/-- A further edge keeps the graph consistent, whichever regions it joins. -/
theorem Consistent.addEdge (h : g.Consistent) {bs : List Branch} (hbs : bs ≠ []) (p t : Name) :
    (g.addEdge p bs t).Consistent where
  start_mem := mem_names_addEdge.2 (Or.inl h.start_mem)
  names_nodup := by
    rw [names_addEdge]
    exact nodup_addOnce (nodup_addOnce h.names_nodup)
  name_eq {m r} hr := by
    have hd : ((g.region? m).getD { name := m }).name = m := by
      cases hm : g.region? m with
      | none => rfl
      | some r' => exact h.name_eq hm
    rw [region?_addEdge] at hr
    split at hr
    · exact Option.some.inj hr ▸ hd
    · split at hr
      · exact Option.some.inj hr ▸ hd
      · exact h.name_eq hr
  keys_parents := by
    -- the index gets entries for both regions before the edge is entered
    have hk := keys_parents_ensureRegion (n := t) (keys_parents_ensureRegion (n := p) h.keys_parents)
    have ht : t ∈ ((g.ensureRegion p).ensureRegion t).names := by simp [names_ensureRegion]
    show Entries.keys (Entries.set ((g.ensureRegion p).ensureRegion t).parents t _) = _
    rw [Entries.keys_set, hk, if_pos ht, names_addEdge, names_ensureRegion, names_ensureRegion]
  mem_parentsOf {q c} := by
    rw [parentsOf_addEdge, targetsOf_addEdge]
    by_cases htc : t = c <;> by_cases hpq : p = q
    · simp [htc, hpq]
    · simp [htc, hpq, h.mem_parentsOf, Ne.symm hpq]
    · simp [htc, hpq, h.mem_parentsOf, Ne.symm htc]
    · simp [htc, hpq, h.mem_parentsOf]
  parentsOf_nodup c := by
    rw [parentsOf_addEdge]
    split
    · exact nodup_addOnce (h.parentsOf_nodup c)
    · exact h.parentsOf_nodup c
  target_mem {q c} hc := by
    rw [targetsOf_addEdge] at hc
    rw [mem_names_addEdge]
    split at hc
    · rcases mem_addOnce.1 hc with hc | rfl
      · exact Or.inl (h.target_mem hc)
      · exact Or.inr (Or.inr rfl)
    · exact Or.inl (h.target_mem hc)
  targetsOf_nodup q := by
    rw [targetsOf_addEdge]
    split
    · exact nodup_addOnce (h.targetsOf_nodup q)
    · exact h.targetsOf_nodup q
  keys_sites_nodup kind := by
    rw [sites_addEdge]
    exact h.keys_sites_nodup kind
  site_name hl := by
    rw [sites_addEdge] at hl
    exact h.site_name hl
  declared hx := by
    rw [sites_addEdge]
    exact h.declared (by simpa using hx)
  exit_logic {q e} he := by
    rw [exitsOf_addEdge] at he
    split at he
    · rcases mem_extendExits he with he | rfl | ⟨e', -, -, rfl⟩
      · exact h.exit_logic he
      · exact hbs
      · simp [hbs]
    · exact h.exit_logic he
  location_logic hl := by
    rw [sites_addEdge] at hl
    exact h.location_logic hl

/-! ## Edges and regions less -/

theorem Consistent.cut (h : g.Consistent) (p t : Name) : (g.cut p t).Consistent where
  start_mem := by simpa using h.start_mem
  names_nodup := by simpa using h.names_nodup
  name_eq {m r} hr := by
    rw [region?_cut] at hr
    split at hr
    · obtain ⟨r', hr', rfl⟩ := Option.map_eq_some_iff.1 hr
      exact (h.name_eq hr' : r'.name = m)
    · exact h.name_eq hr
  keys_parents := (Entries.keys_adjust ..).trans (h.keys_parents.trans names_cut.symm)
  mem_parentsOf {q c} := by
    rw [parentsOf_cut, targetsOf_cut]
    by_cases htc : t = c <;> by_cases hpq : p = q
    · simp [htc, hpq, (h.parentsOf_nodup c).mem_erase_iff]
    · simp [htc, hpq, (h.parentsOf_nodup c).mem_erase_iff, Ne.symm hpq, h.mem_parentsOf]
    · simp [htc, hpq, h.mem_parentsOf, Ne.symm htc]
    · simp [htc, hpq, h.mem_parentsOf]
  parentsOf_nodup c := by
    rw [parentsOf_cut]
    split
    · exact (h.parentsOf_nodup c).erase p
    · exact h.parentsOf_nodup c
  target_mem {q c} hc := by
    rw [targetsOf_cut] at hc
    rw [names_cut]
    split at hc
    · exact h.target_mem (List.mem_filter.1 hc).1
    · exact h.target_mem hc
  targetsOf_nodup q := by
    rw [targetsOf_cut]
    split
    · exact (h.targetsOf_nodup q).filter _
    · exact h.targetsOf_nodup q
  keys_sites_nodup kind := by
    rw [sites_cut]
    exact h.keys_sites_nodup kind
  site_name hl := by
    rw [sites_cut] at hl
    exact h.site_name hl
  declared hx := by
    rw [sites_cut]
    exact h.declared (by simpa using hx)
  exit_logic {q e} he := by
    rw [exitsOf_cut] at he
    split at he
    · exact h.exit_logic (List.mem_filter.1 he).1
    · exact h.exit_logic he
  location_logic hl := by
    rw [sites_cut] at hl
    exact h.location_logic hl

/-- The graph without the edges into a region, and then without those out of it. -/
def isolate (g : RegionGraph) (n : Name) : RegionGraph :=
  let g₁ := (g.parentsOf n).foldl (fun g p => g.cut p n) g
  (g₁.targetsOf n).foldl (fun g t => g.cut n t) g₁

/-- The graph without the entries of a region. -/
def erase (g : RegionGraph) (n : Name) : RegionGraph :=
  { g with regions := Entries.erase g.regions n, parents := Entries.erase g.parents n }

/-- The graph without a region and its edges. -/
def without (g : RegionGraph) (n : Name) : RegionGraph := (g.isolate n).erase n

section Isolate

variable {l : List Name}

theorem names_foldl_cut_parents : (l.foldl (fun g p => g.cut p n) g).names = g.names := by
  induction l generalizing g with
  | nil => rfl
  | cons a l ih => rw [List.foldl_cons, ih, names_cut]

theorem names_foldl_cut_targets : (l.foldl (fun g t => g.cut n t) g).names = g.names := by
  induction l generalizing g with
  | nil => rfl
  | cons a l ih => rw [List.foldl_cons, ih, names_cut]

theorem exitsOf_foldl_cut_parents :
    (l.foldl (fun g p => g.cut p n) g).exitsOf q =
      if q ∈ l then (g.exitsOf q).filter (·.target != n) else g.exitsOf q := by
  induction l generalizing g with
  | nil => rfl
  | cons a l ih =>
    rw [List.foldl_cons, ih, exitsOf_cut]
    by_cases haq : a = q
    · simp [haq]
    · simp [haq, Ne.symm haq]

theorem exitsOf_foldl_cut_targets :
    (l.foldl (fun g t => g.cut n t) g).exitsOf q =
      if n = q then (g.exitsOf q).filter (·.target ∉ l) else g.exitsOf q := by
  induction l generalizing g with
  | nil => simp
  | cons a l ih =>
    rw [List.foldl_cons, ih, exitsOf_cut]
    split
    · rw [List.filter_filter]
      refine List.filter_congr fun e _ => ?_
      by_cases he : e.target = a <;> simp [he]
    · rfl

theorem parentsOf_foldl_cut_parents (hc : c ≠ n) :
    (l.foldl (fun g p => g.cut p n) g).parentsOf c = g.parentsOf c := by
  induction l generalizing g with
  | nil => rfl
  | cons a l ih => rw [List.foldl_cons, ih, parentsOf_cut, if_neg (Ne.symm hc)]

theorem parentsOf_foldl_cut_targets (hl : l.Nodup) :
    (l.foldl (fun g t => g.cut n t) g).parentsOf c =
      if c ∈ l then (g.parentsOf c).erase n else g.parentsOf c := by
  induction l generalizing g with
  | nil => rfl
  | cons a l ih =>
    rw [List.nodup_cons] at hl
    rw [List.foldl_cons, ih hl.2, parentsOf_cut]
    by_cases hac : a = c
    · simp [← hac, hl.1]
    · simp [hac, Ne.symm hac]

@[simp] theorem placedIn_isolate (kind : Placed) :
    (g.isolate n).placedIn kind q = g.placedIn kind q := by
  refine List.foldlRecOn (motive := fun g' : RegionGraph => g'.placedIn kind q = g.placedIn kind q) _ _ ?_
    fun g' hg t _ => (placedIn_cut kind).trans hg
  exact List.foldlRecOn (motive := fun g' : RegionGraph => g'.placedIn kind q = g.placedIn kind q) _ _ rfl
    fun g' hg p _ => (placedIn_cut kind).trans hg

@[simp] theorem sites_isolate (kind : Placed) : (g.isolate n).sites kind = g.sites kind := by
  refine List.foldlRecOn (motive := fun g' : RegionGraph => g'.sites kind = g.sites kind) _ _ ?_
    fun g' hg t _ => (sites_cut kind).trans hg
  exact List.foldlRecOn (motive := fun g' : RegionGraph => g'.sites kind = g.sites kind) _ _ rfl
    fun g' hg p _ => (sites_cut kind).trans hg

@[simp] theorem names_isolate : (g.isolate n).names = g.names :=
  names_foldl_cut_targets.trans names_foldl_cut_parents

theorem Consistent.isolate (h : g.Consistent) (n : Name) : (g.isolate n).Consistent :=
  List.foldlRecOn _ _ (List.foldlRecOn _ _ h fun _ hg p _ => hg.cut p n) fun _ hg t _ => hg.cut n t

/-- An isolated region has no exits, and no exit leads to it. -/
theorem Consistent.exitsOf_isolate (h : g.Consistent) :
    (g.isolate n).exitsOf q =
      if n = q then [] else (g.exitsOf q).filter (·.target != n) := by
  rw [RegionGraph.isolate, exitsOf_foldl_cut_targets]
  split
  · next hnq =>
    subst hnq
    -- all exits of the region lead to one of its targets, and all of these are cut
    refine List.filter_eq_nil_iff.2 fun e he => ?_
    simpa using target_mem_targetsOf he
  · rw [exitsOf_foldl_cut_parents]
    split
    · rfl
    · next hq =>
      refine (List.filter_eq_self.2 fun e he => ?_).symm
      -- a region that is no entrance has no exit to the region
      have ht : e.target ≠ n := fun ht =>
        hq (h.mem_parentsOf.2 (ht ▸ target_mem_targetsOf he))
      simpa using ht

theorem Consistent.parentsOf_isolate (h : g.Consistent) (hc : c ≠ n) :
    (g.isolate n).parentsOf c = (g.parentsOf c).erase n := by
  have h₁ : ((g.parentsOf n).foldl (fun g p => g.cut p n) g).Consistent :=
    List.foldlRecOn _ _ h fun _ hg p _ => hg.cut p n
  rw [RegionGraph.isolate, parentsOf_foldl_cut_targets (h₁.targetsOf_nodup n),
    parentsOf_foldl_cut_parents hc]
  split
  · rfl
  · next ht =>
    refine (List.erase_of_not_mem fun hn => ht ?_).symm
    rw [← h₁.mem_parentsOf, parentsOf_foldl_cut_parents hc]
    exact hn

end Isolate

/-! ## The graph without a region -/

theorem names_without : (g.without n).names = g.names.erase n :=
  (Entries.keys_erase ..).trans (congrArg (List.erase · n) names_isolate)

@[simp] theorem sites_without (kind : Placed) : (g.without n).sites kind = g.sites kind := by
  have h : (g.without n).sites kind = (g.isolate n).sites kind := by cases kind <;> rfl
  rw [h, sites_isolate]

theorem Consistent.region?_without (h : g.Consistent) :
    (g.without n).region? q = if n = q then none else (g.isolate n).region? q := by
  split
  · next hnq => exact hnq ▸ Entries.find?_erase_self (h.isolate n).names_nodup n
  · next hnq => exact Entries.find?_erase_of_ne _ hnq

theorem Consistent.exitsOf_without (h : g.Consistent) :
    (g.without n).exitsOf q =
      if n = q then [] else (g.exitsOf q).filter (·.target != n) := by
  unfold exitsOf
  rw [h.region?_without]
  split
  · rfl
  · next hnq => exact h.exitsOf_isolate.trans (if_neg hnq)

theorem Consistent.targetsOf_without (h : g.Consistent) :
    (g.without n).targetsOf q =
      if n = q then [] else (g.targetsOf q).filter (· != n) := by
  unfold targetsOf
  rw [h.exitsOf_without]
  split
  · rfl
  · rw [List.filter_map]
    rfl

theorem Consistent.placedIn_without (h : g.Consistent) (kind : Placed) :
    (g.without n).placedIn kind q = if n = q then [] else g.placedIn kind q := by
  unfold placedIn
  rw [h.region?_without]
  split
  · rfl
  · exact placedIn_isolate kind

theorem Consistent.parentsOf_without (h : g.Consistent) :
    (g.without n).parentsOf c = if n = c then [] else (g.parentsOf c).erase n := by
  -- only the first entry of a name is erased, so names must not occur twice
  have hk : (Entries.keys (g.isolate n).parents).Nodup := by
    rw [(h.isolate n).keys_parents]
    exact (h.isolate n).names_nodup
  split
  · next hnc =>
    subst hnc
    exact congrArg (Option.getD · []) (Entries.find?_erase_self hk n)
  · next hnc =>
    rw [← h.parentsOf_isolate (Ne.symm hnc)]
    exact congrArg (Option.getD · []) (Entries.find?_erase_of_ne _ hnc)

theorem Consistent.mem_names_without (h : g.Consistent) :
    q ∈ (g.without n).names ↔ q ∈ g.names ∧ q ≠ n := by
  rw [names_without, h.names_nodup.mem_erase_iff, and_comm]

/-- Any region but the start region can be taken out of a consistent graph. -/
theorem Consistent.without (h : g.Consistent) (hn : n ≠ startRegion) : (g.without n).Consistent where
  start_mem := h.mem_names_without.2 ⟨h.start_mem, Ne.symm hn⟩
  names_nodup := by
    rw [names_without]
    exact h.names_nodup.erase n
  name_eq {m r} hr := by
    rw [h.region?_without] at hr
    split at hr
    · cases hr
    · exact (h.isolate n).name_eq hr
  keys_parents := by
    rw [names_without, ← names_isolate (n := n), ← (h.isolate n).keys_parents]
    exact Entries.keys_erase ..
  mem_parentsOf {p c} := by
    rw [h.parentsOf_without, h.targetsOf_without]
    -- the region is erased from the entrances as its exits are cut
    by_cases hnc : n = c <;> by_cases hnp : n = p
    · simp [hnc]
    · simp [hnc]
    · simp [hnc, ← hnp, (h.parentsOf_nodup c).mem_erase_iff]
    · simp [hnc, hnp, (h.parentsOf_nodup c).mem_erase_iff, Ne.symm hnc, Ne.symm hnp,
        h.mem_parentsOf]
  parentsOf_nodup c := by
    rw [h.parentsOf_without]
    split
    · exact List.nodup_nil
    · exact (h.parentsOf_nodup c).erase n
  target_mem {p c} hc := by
    rw [h.targetsOf_without] at hc
    split at hc
    · cases hc
    · obtain ⟨hc, hne⟩ := List.mem_filter.1 hc
      exact h.mem_names_without.2 ⟨h.target_mem hc, by simpa using hne⟩
  targetsOf_nodup p := by
    rw [h.targetsOf_without]
    split
    · exact List.nodup_nil
    · exact (h.targetsOf_nodup p).filter _
  keys_sites_nodup kind := by
    rw [sites_without]
    exact h.keys_sites_nodup kind
  site_name hl := by
    rw [sites_without] at hl
    exact h.site_name hl
  declared {kind p x} hx := by
    rw [h.placedIn_without] at hx
    rw [sites_without]
    split at hx
    · cases hx
    · exact h.declared hx
  exit_logic {p e} he := by
    rw [h.exitsOf_without] at he
    split at he
    · cases he
    · exact h.exit_logic (List.mem_filter.1 he).1
  location_logic hl := by
    rw [sites_without] at hl
    exact h.location_logic hl

end RegionGraph

end RegionLogic
