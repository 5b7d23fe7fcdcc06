import Mathlib.Data.Set.List
import RegionLogic.Proofs.Fallible
import RegionLogic.Proofs.Region.Consistent
import RegionLogic.Proofs.Region.Outcome
import RegionLogic.Region.Placement

/-!
# Sound placement

A graph is well placed if every declared location and every declared transition is placed once, in one
region. The check of the placement accepts such a graph. It never changes the graph, and where it does not
accept it the problems are reported, unless a name in them is no text.

## Main definitions

* `RegionGraph.WellPlaced`: sound placement
* `RegionGraph.Keyed`: regions are kept under their own names
* `RegionGraph.HasOddName`: a region or something declared is named by a value that is no text

## Main results

* `Consistent.faults_eq_nil`: a well-placed graph has no problems
* `joinNames_of_texts`, `texts_of_joinNames`: names can be joined if and only if they are texts
* `inOrder_of_texts`: names that are texts can be put in order
* `outcome_validate_of_wellPlaced`, `outcome_validate`: how the check ends
-/

namespace RegionLogic

namespace RegionGraph

/-- What is declared is placed once, in one region. -/
structure WellPlaced (g : RegionGraph) : Prop where
  /-- Nothing is placed twice in a region. -/
  nodup : ∀ kind p, (g.placedIn kind p).Nodup
  /-- What is declared is placed. -/
  placed : ∀ {kind x}, x ∈ Entries.keys (g.sites kind) → ∃ p, x ∈ g.placedIn kind p
  /-- Nothing is placed in two regions. -/
  unique : ∀ {kind x p q}, x ∈ g.placedIn kind p → x ∈ g.placedIn kind q → p = q

/-- A region or something declared is named by a value that is no text. -/
def HasOddName (g : RegionGraph) : Prop :=
  ∃ n : Name, n.text? = none ∧ (n ∈ g.names ∨ ∃ kind, n ∈ Entries.keys (g.sites kind))

/-- The regions with the names of one kind that are placed in them. -/
def placements (g : RegionGraph) (kind : Placed) : List (Name × List Name) :=
  g.regions.map fun r => (r.2.name, r.2.placed kind)

variable {g : RegionGraph} {kind : Placed} {x p : Name}

theorem faults_eq :
    g.faults =
      placementFaults .transitions (g.placements .transitions) (Entries.keys (g.sites .transitions)) ++
        placementFaults .locations (g.placements .locations) (Entries.keys (g.sites .locations)) :=
  rfl

/-- Every region is kept under its own name. -/
structure Keyed (g : RegionGraph) : Prop where
  /-- No two regions have the same name. -/
  names_nodup : g.names.Nodup
  /-- The name of a region is the one it is kept under. -/
  name_eq : ∀ {n r}, g.region? n = some r → r.name = n

theorem Consistent.keyed (h : g.Consistent) : g.Keyed := ⟨h.names_nodup, h.name_eq⟩

/-- The check sees the regions with what is placed in them. -/
theorem Keyed.placements_eq (h : g.Keyed) (kind : Placed) :
    g.placements kind = g.names.map fun p => (p, g.placedIn kind p) := by
  rw [names, Entries.keys, List.map_map]
  refine List.map_congr_left fun r hr => ?_
  have hr := (find?_eq_some_iff_mem h.names_nodup).2 hr
  exact Prod.ext (h.name_eq hr) (placedIn_of_region? hr kind).symm

theorem Keyed.map_fst_placements (h : g.Keyed) : (g.placements kind).map (·.1) = g.names := by
  rw [h.placements_eq, List.map_map]
  exact List.map_id _

theorem Keyed.flatMap_placements (h : g.Keyed) :
    (g.placements kind).flatMap (·.2) = g.names.flatMap (g.placedIn kind) := by
  rw [h.placements_eq, List.flatMap_map]

theorem Keyed.mem_flatMap_placements (h : g.Keyed) :
    x ∈ (g.placements kind).flatMap (·.2) ↔ ∃ p, x ∈ g.placedIn kind p := by
  rw [h.flatMap_placements, List.mem_flatMap]
  exact ⟨fun ⟨p, _, hx⟩ => ⟨p, hx⟩, fun ⟨p, hx⟩ => ⟨p, mem_names_of_mem_placedIn hx, hx⟩⟩

/-- In a well-placed graph no name is placed twice. -/
theorem WellPlaced.nodup_placements (h : g.WellPlaced) (hg : g.Keyed) :
    ((g.placements kind).flatMap (·.2)).Nodup := by
  rw [hg.flatMap_placements]
  -- no name twice in a region, and no name in two regions
  refine List.nodup_flatMap.2 ⟨fun p _ => h.nodup kind p, hg.names_nodup.imp fun {p q} hne x hp hq => ?_⟩
  exact hne (h.unique hp hq)

end RegionGraph

/-! ## The check -/

theorem placementFaults_eq_nil {kind : Placed} {placed : List (Name × List Name)}
    {declared : List Name} (hnodup : (placed.flatMap (·.2)).Nodup)
    (hmem : ∀ x, x ∈ placed.flatMap (·.2) ↔ x ∈ declared) :
    placementFaults kind placed declared = [] := by
  have hduplicated : (placed.flatMap (·.2)).eraseDups.filter
      (1 < (placed.flatMap (·.2)).count ·) = [] := by
    refine List.filter_eq_nil_iff.2 fun x _ => ?_
    have := List.nodup_iff_count_le_one.1 hnodup x
    simp only [decide_eq_true_eq]
    omega
  have hplaced : (placed.flatMap (·.2)).filter (· ∉ declared) = [] :=
    List.filter_eq_nil_iff.2 fun x hx => by simp [(hmem x).1 hx]
  have hdeclared : declared.filter (· ∉ placed.flatMap (·.2)) = [] :=
    List.filter_eq_nil_iff.2 fun x hx => by simpa using (hmem x).2 hx
  unfold placementFaults
  simp only [hduplicated, hplaced, hdeclared]
  rfl

namespace RegionGraph

variable {g : RegionGraph} {kind : Placed} {x p : Name}

/-- A well-placed graph has no problems. -/
theorem Consistent.faults_eq_nil (hg : g.Consistent) (h : g.WellPlaced) : g.faults = [] := by
  have hkind (kind : Placed) :
      placementFaults kind (g.placements kind) (Entries.keys (g.sites kind)) = [] :=
    placementFaults_eq_nil (h.nodup_placements hg.keyed) fun x => by
      rw [hg.keyed.mem_flatMap_placements]
      exact ⟨by rintro ⟨p, hx⟩; exact hg.declared hx, h.placed⟩
  rw [faults_eq, hkind, hkind, List.append_nil]

end RegionGraph

/-! ## Problems that cannot be told -/

section Tellable

variable {fault : Fault} {l : List Name}

theorem exists_odd_of_textsFrom {i : Nat} (h : textsFrom i l = .error fault) :
    (∃ cause, fault = .shape cause) ∧ ∃ n ∈ l, n.text? = none := by
  induction l generalizing i with
  | nil => cases h
  | cons n l ih =>
    cases n with
    | text s =>
      have hrest : textsFrom (i + 1) l = .error fault := by
        cases hr : textsFrom (i + 1) l with
        | error f =>
          rw [textsFrom, hr] at h
          exact congrArg Except.error (Except.error.inj h)
        | ok t =>
          rw [textsFrom, hr] at h
          cases h
      obtain ⟨hcause, m, hm, hodd⟩ := ih hrest
      exact ⟨hcause, m, List.mem_cons_of_mem _ hm, hodd⟩
    | odd v => exact ⟨⟨_, (Except.error.inj h).symm⟩, .odd v, by simp, rfl⟩

theorem exists_odd_of_joinNames {separator : String} (h : joinNames separator l = .error fault) :
    (∃ cause, fault = .shape cause) ∧ ∃ n ∈ l, n.text? = none := by
  refine exists_odd_of_textsFrom (i := 0) ?_
  unfold joinNames at h
  cases hr : textsFrom 0 l with
  | error f =>
    rw [hr] at h
    exact congrArg Except.error (Except.error.inj h)
  | ok t =>
    rw [hr] at h
    cases h

theorem texts_of_textsFrom {i : Nat} {texts : List String} (h : textsFrom i l = .ok texts) :
    ∀ n ∈ l, n.text? ≠ none := by
  induction l generalizing i texts with
  | nil => simp
  | cons n l ih =>
    cases n with
    | text s =>
      obtain ⟨texts', hrest, -⟩ := bind_eq_ok.1 h
      exact List.forall_mem_cons.2 ⟨by simp [Name.text?], ih hrest⟩
    | odd v => cases h

/-- Only texts can be joined. -/
theorem texts_of_joinNames {separator text : String} (h : joinNames separator l = .ok text) :
    ∀ n ∈ l, n.text? ≠ none := by
  cases htexts : textsFrom 0 l with
  | error fault =>
    rw [joinNames, htexts] at h
    cases h
  | ok texts => exact texts_of_textsFrom htexts

theorem exists_odd_of_inOrder {names : NameSet} (h : names.inOrder = .error fault) :
    (∃ cause, fault = .shape cause) ∧ ∃ n ∈ names, n.text? = none := by
  unfold NameSet.inOrder at h
  split at h
  · cases h
  · cases h
  · next a rest hlist =>
    split at h
    · cases h
    · next hall =>
      split at h
      · cases h
      · refine ⟨⟨_, (Except.error.inj h).symm⟩, ?_⟩
        rw [← hlist] at hall
        simp only [List.all_eq_true, not_forall, Option.not_isSome_iff_eq_none] at hall
        obtain ⟨n, hn, hodd⟩ := hall
        exact ⟨n, hn, hodd⟩

/-- Members are listed in order, and nothing else is. -/
theorem mem_of_inOrder {names : NameSet} (h : names.inOrder = .ok l) {n : Name} :
    n ∈ l ↔ n ∈ names := by
  unfold NameSet.inOrder at h
  rw [← NameSet.mem_toList]
  split at h
  · next hlist =>
    obtain rfl := Except.ok.inj h
    rw [hlist]
  · next a hlist =>
    obtain rfl := Except.ok.inj h
    rw [hlist]
  · next a rest hlist =>
    rw [hlist]
    split at h
    · obtain rfl := Except.ok.inj h
      rfl
    · split at h
      · obtain rfl := Except.ok.inj h
        exact (List.mergeSort_perm ..).mem_iff
      · cases h

theorem exists_texts {l : List Name} (h : ∀ a ∈ l, a.text? ≠ none) :
    ∃ texts : List String, texts.map .text = l := by
  have hrange : ∀ a ∈ l, a ∈ Set.range Name.text := by
    intro a ha
    cases a with
    | text s => exact ⟨s, rfl⟩
    | odd v => exact absurd rfl (h _ ha)
  exact (Set.ext_iff.1 (Set.range_list_map Name.text) l).2 hrange

/-- Texts are told as they are. -/
theorem map_text_spelling (h : ∀ n ∈ l, n.text? ≠ none) : (l.map Name.spelling).map Name.text = l := by
  obtain ⟨texts, rfl⟩ := exists_texts h
  rw [List.map_map, List.map_map]
  rfl

theorem joinNames_of_texts (separator : String) (h : ∀ n ∈ l, n.text? ≠ none) :
    joinNames separator l = .ok (separator.intercalate (l.map Name.spelling)) := by
  obtain ⟨texts, rfl⟩ := exists_texts h
  rw [joinNames_text, List.map_map]
  exact congrArg (fun texts => Except.ok (separator.intercalate texts)) (List.map_id texts).symm

/-- Where a text stands for itself different texts stay different. -/
theorem nodup_map_of_texts {f : Name → String} (hf : ∀ s, f (.text s) = s) (hnodup : l.Nodup)
    (h : ∀ n ∈ l, n.text? ≠ none) : (l.map f).Nodup := by
  obtain ⟨texts, rfl⟩ := exists_texts h
  have hid : f ∘ Name.text = id := funext hf
  rw [List.map_map, hid, List.map_id]
  exact hnodup.of_map _

theorem inOrder_of_texts {names : NameSet} (h : ∀ n ∈ names, n.text? ≠ none) :
    names.inOrder = .ok names.toList := by
  have hall : names.toList.all (·.text?.isSome) = true := by
    rw [List.all_eq_true]
    exact fun n hn => Option.isSome_iff_ne_none.2 (h n hn)
  unfold NameSet.inOrder
  split
  · next hlist => rw [hlist]
  · next hlist => rw [hlist]
  · next hlist =>
    rw [hlist] at hall
    rw [if_pos hall, hlist]

/-- The names that a problem lists. -/
def PlacementFault.listed : PlacementFault → List Name
  | .duplicated _ names => names.flatMap (·.2)
  | .mismatched _ names => names

/-- A problem cannot be told only if it lists a name that is no text. -/
theorem exists_odd_of_tellable {cause : PlacementFault} (h : cause.tellable = .error fault) :
    (∃ cause, fault = .shape cause) ∧ ∃ n ∈ cause.listed, n.text? = none := by
  cases cause with
  | duplicated kind names =>
    obtain ⟨w, hw, hfault⟩ := exists_error_of_forM h
    rcases bind_eq_error.1 hfault with hjoin | ⟨_, -, hjoin⟩
    · obtain ⟨hcause, n, hn, hodd⟩ := exists_odd_of_joinNames hjoin
      exact ⟨hcause, n, List.mem_flatMap.2 ⟨w, hw, hn⟩, hodd⟩
    · cases hjoin
  | mismatched kind names =>
    rcases bind_eq_error.1 h with horder | ⟨ordered, horder, hfault⟩
    · obtain ⟨hcause, n, hn, hodd⟩ := exists_odd_of_inOrder horder
      exact ⟨hcause, n, NameSet.mem_ofList.1 hn, hodd⟩
    · rcases bind_eq_error.1 hfault with hjoin | ⟨_, -, hjoin⟩
      · obtain ⟨hcause, n, hn, hodd⟩ := exists_odd_of_joinNames hjoin
        exact ⟨hcause, n, NameSet.mem_ofList.1 ((mem_of_inOrder horder).1 hn), hodd⟩
      · cases hjoin

/-- The problems list regions, and what is placed or declared. -/
theorem listed_of_mem_placementFaults {kind : Placed} {placed : List (Name × List Name)}
    {declared : List Name} {cause : PlacementFault} (h : cause ∈ placementFaults kind placed declared)
    {n : Name} (hn : n ∈ cause.listed) :
    n ∈ placed.map (·.1) ∨ n ∈ placed.flatMap (·.2) ∨ n ∈ declared := by
  unfold placementFaults at h
  rcases List.mem_append.1 h with h | h
  · split at h
    · cases h
    · obtain rfl := List.mem_singleton.1 h
      obtain ⟨w, hw, hn⟩ := List.mem_flatMap.1 hn
      obtain ⟨name, -, rfl⟩ := List.mem_map.1 hw
      obtain ⟨v, hv, rfl⟩ := List.mem_map.1 hn
      exact Or.inl (List.mem_map_of_mem (List.mem_of_mem_filter hv))
  · split at h
    · cases h
    · obtain rfl := List.mem_singleton.1 h
      have hn := NameSet.mem_ofList.1 (NameSet.mem_toList.1 hn)
      rcases List.mem_append.1 hn with hn | hn
      · exact Or.inr (Or.inl (List.mem_of_mem_filter hn))
      · exact Or.inr (Or.inr (List.mem_of_mem_filter hn))

end Tellable

namespace RegionGraph

variable {g : RegionGraph}

theorem Consistent.listed_of_mem_faults (hg : g.Consistent) {cause : PlacementFault}
    (h : cause ∈ g.faults) {n : Name} (hn : n ∈ cause.listed) :
    n ∈ g.names ∨ ∃ kind, n ∈ Entries.keys (g.sites kind) := by
  have hkind {kind : Placed}
      (h : cause ∈ placementFaults kind (g.placements kind) (Entries.keys (g.sites kind))) :
      n ∈ g.names ∨ ∃ kind, n ∈ Entries.keys (g.sites kind) := by
    rcases listed_of_mem_placementFaults h hn with hn | hn | hn
    · rw [hg.keyed.map_fst_placements] at hn
      exact Or.inl hn
    · obtain ⟨p, hn⟩ := hg.keyed.mem_flatMap_placements.1 hn
      exact Or.inr ⟨kind, hg.declared hn⟩
    · exact Or.inr ⟨kind, hn⟩
  rw [faults_eq] at h
  exact (List.mem_append.1 h).elim hkind hkind

end RegionGraph

namespace Building

variable {s : Session}

theorem outcome_validate_of_wellPlaced (hg : s.graph.Consistent) (h : s.graph.WellPlaced) :
    outcome validate s = (.ok (), s) := by
  rw [validate, outcome_graph_bind, hg.faults_eq_nil h]
  rfl

/-- The check leaves the graph as it is. Where it fails it reports the problems, unless one of them lists
a name that is no text. -/
theorem outcome_validate (hg : s.graph.Consistent) :
    outcome validate s = (.ok (), s) ∨
      ∃ fault, outcome validate s = (.error fault, s) ∧
        ((∃ causes, fault = .placement causes) ∨
          (∃ cause, fault = .shape cause) ∧ s.graph.HasOddName) := by
  rw [validate, outcome_graph_bind]
  split
  · exact Or.inl rfl
  · refine Or.inr ?_
    -- the first problem that cannot be told hides the others
    have htell := outcome_forM_except PlacementFault.tellable s.graph.faults s
    cases hall : s.graph.faults.forM PlacementFault.tellable with
    | error fault =>
      rw [hall] at htell
      refine ⟨fault, outcome_bind_of_error htell, Or.inr ?_⟩
      obtain ⟨cause, hcause, hfault⟩ := exists_error_of_forM hall
      obtain ⟨hshape, n, hn, hodd⟩ := exists_odd_of_tellable hfault
      exact ⟨hshape, n, hodd, hg.listed_of_mem_faults hcause hn⟩
    | ok _ =>
      rw [hall] at htell
      exact ⟨_, outcome_bind_of_ok htell, Or.inl ⟨_, rfl⟩⟩

end Building

end RegionLogic
