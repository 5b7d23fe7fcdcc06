import RegionLogic.Proofs.Logged
import RegionLogic.Proofs.Requirement.Clause
import RegionLogic.Proofs.Waypoint.Order
import RegionLogic.Waypoint.Inlining

/-!
# Which waypoints are inlined

Candidates are dropped in three steps: those that draw state from themselves, those that a condition
mentions, and of the rest those on cycles. What remains has an order in which every waypoint comes after
those that it draws on.

## Main definitions

* `WaypointSelection.Eligible`: the candidates that survive the first two steps
* `WaypointSelection.DrawsOn`: one such candidate draws state from another
* `WaypointSelection.Inlines`: the waypoints that are inlined
* `WaypointSelection.Ordered`: a list of them in an order in which they can be substituted

## Main results

* `WaypointSelection.gives_inline`: an inlining either fails before any substitution, and not because of
  cycles, or it substitutes the right waypoints in such an order
-/

namespace RegionLogic

open Relation Logged

variable {w : WaypointSelection} {objects : List LogicObject} {candidates left : NameSet}
  {a b n : Name} {fault : Fault}

/-! ## The objects by name -/

theorem mem_logicOf {c : Clause} (h : c ∈ logicOf objects n) :
    ∃ o ∈ objects, o.name = n ∧ c ∈ o.logic := by
  unfold logicOf at h
  cases hfind : objects.reverse.find? (·.name = n) with
  | none =>
    rw [hfind] at h
    cases h
  | some o =>
    rw [hfind] at h
    have hname : o.name = n := by simpa using List.find?_some hfind
    exact ⟨o, List.mem_reverse.1 (List.mem_of_find?_eq_some hfind), hname, h⟩

theorem logicOf_eq (hn : (objects.map (·.name)).Nodup) {o : LogicObject} (ho : o ∈ objects) :
    logicOf objects o.name = o.logic := by
  unfold logicOf
  have hsome : (objects.reverse.find? (·.name = o.name)).isSome := by
    rw [List.find?_isSome]
    exact ⟨o, List.mem_reverse.2 ho, by simp⟩
  obtain ⟨o', hfind⟩ := Option.isSome_iff_exists.1 hsome
  have hmem := List.mem_reverse.1 (List.mem_of_find?_eq_some hfind)
  have hname : o'.name = o.name := by simpa using List.find?_some hfind
  have heq : o' = o := List.inj_on_of_nodup_map hn hmem ho hname
  rw [hfind, heq]
  rfl

theorem mem_logicOf_iff (hn : (objects.map (·.name)).Nodup) {c : Clause} :
    c ∈ logicOf objects n ↔ ∃ o ∈ objects, o.name = n ∧ c ∈ o.logic := by
  constructor
  · exact mem_logicOf
  · rintro ⟨o, ho, rfl, hc⟩
    rwa [logicOf_eq hn ho]

namespace WaypointSelection

/-- A candidate that neither draws state from itself nor is mentioned by a condition. -/
structure Eligible (w : WaypointSelection) (objects : List LogicObject) (n : Name) : Prop where
  /-- It is neither location nor transition, and a pattern matches its name. -/
  chosen : ∃ o ∈ objects, o.name = n ∧ o.handling = .region ∧ w.accepts n = .ok true
  /-- None of its clauses draws state from it. -/
  notSelf : ∀ o ∈ objects, o.name = n → ∀ c ∈ o.logic, ¬c.DrawsFrom n
  /-- No clause of any object mentions it as a condition. -/
  notRequired : ∀ o ∈ objects, ∀ c ∈ o.logic, ¬c.Mentions n

/-- Both are eligible, and a clause of `a` draws its state from `b`. -/
structure DrawsOn (w : WaypointSelection) (objects : List LogicObject) (a b : Name) : Prop where
  left : w.Eligible objects a
  right : w.Eligible objects b
  draws : ∃ o ∈ objects, o.name = a ∧ ∃ c ∈ o.logic, c.DrawsFrom b

/-- The waypoint is eligible and not on a cycle of eligible waypoints. -/
structure Inlines (w : WaypointSelection) (objects : List LogicObject) (n : Name) : Prop where
  eligible : w.Eligible objects n
  notCircular : ¬TransGen (w.DrawsOn objects) n n

/-! ## The steps of the selection -/

theorem isCandidate_eq_ok_true {o : LogicObject} :
    w.isCandidate o = .ok true ↔ o.handling = .region ∧ w.accepts o.name = .ok true := by
  unfold isCandidate
  split
  · next h => simp [h]
  · next h => simp [h]

theorem not_isCyclic_of_isCandidate {o : LogicObject} (h : w.isCandidate o = .error fault) :
    ¬fault.IsCyclic := by
  unfold isCandidate accepts at h
  split at h
  · split at h
    · cases h
    · split at h
      · cases h
      · obtain rfl := Except.error.inj h
        exact Fault.not_isCyclic_shape _
  · cases h

theorem mem_chosen {chosen : List LogicObject} (h : objects.filterM w.isCandidate = .ok chosen) :
    n ∈ NameSet.ofList (chosen.map (·.name)) ↔
      ∃ o ∈ objects, o.name = n ∧ o.handling = .region ∧ w.accepts n = .ok true := by
  rw [NameSet.mem_ofList, List.mem_map]
  constructor
  · rintro ⟨o, ho, rfl⟩
    rw [mem_filterM h, isCandidate_eq_ok_true] at ho
    exact ⟨o, ho.1, rfl, ho.2⟩
  · rintro ⟨o, ho, rfl, hchosen⟩
    exact ⟨o, (mem_filterM h).2 ⟨ho, isCandidate_eq_ok_true.2 hchosen⟩, rfl⟩

end WaypointSelection

/-- One member of a list after the other is dropped if a test holds for it. -/
def dropEach (test : Name → Logged Bool) (message : Name → String) (l : List Name) (set : NameSet) :
    Logged NameSet :=
  l.foldlM (fun left name => do
    if ← test name then
      record .warning .solver (message name)
      return left.erase name
    else return left) set

section DropEach

variable {test : Name → Logged Bool} {message : Name → String} {l : List Name}

/-- What is left are those for which the test does not hold. -/
theorem mem_of_dropEach {P : Name → Prop}
    (htest : ∀ n found, (test n).Gives (.ok found) → (found = true ↔ P n))
    (h : (dropEach test message l candidates).Gives (.ok left)) :
    n ∈ left ↔ n ∈ candidates ∧ ¬(n ∈ l ∧ P n) := by
  induction l generalizing candidates with
  | nil =>
    obtain rfl := Except.ok.inj h.of_pure
    simp
  | cons name l ih =>
    rw [dropEach, List.foldlM_cons] at h
    obtain ⟨next, hname, h⟩ := h.bind_ok
    obtain ⟨found, hfound, hname⟩ := hname.bind_ok
    have hP := htest name found hfound
    rw [ih h]
    split at hname
    · next hyes =>
      obtain rfl := Except.ok.inj hname.record_bind.of_pure
      have hP := hP.1 hyes
      grind [NameSet.mem_erase]
    · next hno =>
      obtain rfl := Except.ok.inj hname.of_pure
      have hP := fun h => hno (hP.2 h)
      grind

theorem exists_error_of_dropEach (h : (dropEach test message l candidates).Gives (.error fault)) :
    ∃ n ∈ l, (test n).Gives (.error fault) := by
  obtain ⟨n, hn, left, h⟩ := h.foldlM_error
  rcases h.bind_error with h | ⟨found, -, h⟩
  · exact ⟨n, hn, h⟩
  · split at h
    · cases h.record_bind.of_pure
    · cases h.of_pure

end DropEach

theorem mem_of_dropSelfReferential
    (h : (dropSelfReferential objects candidates).Gives (.ok left)) :
    n ∈ left ↔ n ∈ candidates ∧ ∀ c ∈ logicOf objects n, ¬c.DrawsFrom n := by
  have htest : ∀ n found,
      Gives ((logicOf objects n).anyM fun c => liftM (c.isSelfReferential n)) (.ok found) →
        (found = true ↔ ∃ c ∈ logicOf objects n, c.DrawsFrom n) := by
    intro n found hfound
    have hfound := hfound.of_anyM.symm
    cases found with
    | true =>
      obtain ⟨c, hc, hself⟩ := exists_of_anyM hfound
      exact iff_of_true rfl ⟨c, hc, (Clause.drawsFrom_of_ok hself).1 rfl⟩
    | false =>
      refine iff_of_false Bool.false_ne_true ?_
      rintro ⟨c, hc, hdraws⟩
      have hself := forall_of_anyM hfound c hc
      cases (Clause.drawsFrom_of_ok hself).2 hdraws
  rw [mem_of_dropEach htest h, NameSet.mem_toList]
  simp only [not_and, not_exists]
  exact and_congr_right fun hn => ⟨fun h c hc => h hn c hc, fun h _ c hc => h c hc⟩

theorem not_isCyclic_of_dropSelfReferential
    (h : (dropSelfReferential objects candidates).Gives (.error fault)) : ¬fault.IsCyclic := by
  obtain ⟨n, -, h⟩ := exists_error_of_dropEach h
  obtain ⟨c, -, h⟩ := exists_error_of_anyM h.of_anyM.symm
  exact Clause.not_isCyclic_of_isSelfReferential h

theorem mem_of_dropMentioned {owner : Name} {c : Clause}
    (h : (dropMentioned owner candidates c).Gives (.ok left)) :
    n ∈ left ↔ n ∈ candidates ∧ ¬c.Mentions n := by
  have htest : ∀ n found, Gives (liftM (c.mentions n)) (.ok found) → (found = true ↔ c.Mentions n) :=
    fun n found hfound => Clause.mentions_of_ok hfound.of_except.symm
  rw [mem_of_dropEach htest h, NameSet.mem_toList]
  exact and_congr_right fun hn => by simp [hn]

theorem not_isCyclic_of_dropMentioned {owner : Name} {c : Clause}
    (h : (dropMentioned owner candidates c).Gives (.error fault)) : ¬fault.IsCyclic := by
  obtain ⟨n, -, h⟩ := exists_error_of_dropEach h
  exact Clause.not_isCyclic_of_mentions h.of_except.symm

/-- A fold over clauses or objects of which each drops what it mentions. -/
theorem mem_of_foldlM {α : Type} {f : NameSet → α → Logged NameSet} {P : α → Name → Prop} {l : List α}
    (hf : ∀ {a candidates left n}, (f candidates a).Gives (.ok left) →
      (n ∈ left ↔ n ∈ candidates ∧ ¬P a n))
    (h : (l.foldlM f candidates).Gives (.ok left)) :
    n ∈ left ↔ n ∈ candidates ∧ ∀ a ∈ l, ¬P a n := by
  induction l generalizing candidates with
  | nil =>
    obtain rfl := Except.ok.inj h.of_pure
    simp
  | cons a l ih =>
    rw [List.foldlM_cons] at h
    obtain ⟨next, ha, h⟩ := h.bind_ok
    rw [ih h, hf ha, List.forall_mem_cons, and_assoc]

theorem mem_of_dropRequired (h : (dropRequired objects candidates).Gives (.ok left)) :
    n ∈ left ↔ n ∈ candidates ∧ ∀ o ∈ objects, ∀ c ∈ o.logic, ¬c.Mentions n := by
  have h := mem_of_foldlM (P := fun o n => ∃ c ∈ o.logic, c.Mentions n) (n := n)
    (fun {o candidates left n} h => by
      rw [mem_of_foldlM (P := Clause.Mentions) mem_of_dropMentioned h]
      simp) h
  rw [h]
  simp

theorem not_isCyclic_of_dropRequired (h : (dropRequired objects candidates).Gives (.error fault)) :
    ¬fault.IsCyclic := by
  obtain ⟨o, -, left, h⟩ := h.foldlM_error
  obtain ⟨c, -, left, h⟩ := h.foldlM_error
  exact not_isCyclic_of_dropMentioned h

namespace WaypointSelection

/-- What the first two steps leave. -/
theorem mem_eligible (hn : (objects.map (·.name)).Nodup) {chosen : List LogicObject}
    {first second : NameSet} (hchosen : objects.filterM w.isCandidate = .ok chosen)
    (hfirst : (dropSelfReferential objects (.ofList (chosen.map (·.name)))).Gives (.ok first))
    (hsecond : (dropRequired objects first).Gives (.ok second)) :
    n ∈ second ↔ w.Eligible objects n := by
  rw [mem_of_dropRequired hsecond, mem_of_dropSelfReferential hfirst, mem_chosen hchosen]
  constructor
  · rintro ⟨⟨hc, hself⟩, hrequired⟩
    refine ⟨hc, fun o ho hname c hmem => ?_, hrequired⟩
    exact hself c ((mem_logicOf_iff hn).2 ⟨o, ho, hname, hmem⟩)
  · rintro ⟨hc, hself, hrequired⟩
    refine ⟨⟨hc, fun c hmem => ?_⟩, hrequired⟩
    obtain ⟨o, ho, hname, hmem⟩ := mem_logicOf hmem
    exact hself o ho hname c hmem

end WaypointSelection

/-! ## Who draws on whom -/

theorem mem_of_providersOf {s : NameSet} (h : providersOf objects candidates a = .ok s) :
    b ∈ s ↔ b ≠ a ∧ b ∈ candidates ∧ ∃ c ∈ logicOf objects a, c.DrawsFrom b := by
  obtain ⟨providers, hproviders, h⟩ := bind_eq_ok.1 h
  obtain rfl := Except.ok.inj h
  have hmem : b ∈ providers ↔ ∃ c ∈ logicOf objects a, c.DrawsFrom b := by
    have hall := forall₂_of_mapM hproviders
    constructor
    · intro hb
      obtain ⟨provider, hprovider, hregion⟩ := exists_left_of_forall₂ hall hb
      obtain ⟨c, hc, hprovider⟩ := List.mem_filterMap.1 hprovider
      exact ⟨c, hc, provider, hprovider, hregion⟩
    · rintro ⟨c, hc, provider, hprovider, hregion⟩
      obtain ⟨b', hb', hregion'⟩ :=
        exists_right_of_forall₂ hall (List.mem_filterMap.2 ⟨c, hc, hprovider⟩)
      rw [hregion] at hregion'
      exact Except.ok.inj hregion' ▸ hb'
  rw [NameSet.mem_inter, NameSet.mem_erase, NameSet.mem_ofList, hmem]
  tauto

theorem not_isCyclic_of_providersOf (h : providersOf objects candidates a = .error fault) :
    ¬fault.IsCyclic := by
  rcases bind_eq_error.1 h with h | ⟨providers, -, h⟩
  · obtain ⟨provider, -, h⟩ := exists_error_of_mapM h
    exact Clause.not_isCyclic_of_providerRegion h
  · cases h

/-- The graph of a table is made by updates. -/
theorem providerGraph_eq (providers : List (Name × NameSet)) :
    providerGraph providers =
      WaypointGraph.empty.updateAll (providers.map fun p => (p.1, p.2.toList)) := by
  rw [providerGraph, WaypointGraph.updateAll, List.foldl_map]

theorem coherent_providerGraph (providers : List (Name × NameSet)) :
    (providerGraph providers).Coherent := by
  rw [providerGraph_eq]
  exact WaypointGraph.coherent_empty.updateAll _

theorem mem_names_providerGraph {providers : List (Name × NameSet)} :
    a ∈ (providerGraph providers).names ↔ ∃ p ∈ providers, a = p.1 ∨ a ∈ p.2 := by
  rw [providerGraph_eq, WaypointGraph.mem_names_updateAll]
  simp [WaypointGraph.names, WaypointGraph.empty]

theorem refers_providerGraph {providers : List (Name × NameSet)} (hkeys : (providers.map (·.1)).Nodup) :
    (providerGraph providers).Refers a b ↔ ∃ s, (a, s) ∈ providers ∧ b ∈ s := by
  have hkeys' : ((providers.map fun p => (p.1, p.2.toList)).map (·.1)).Nodup := by
    rwa [List.map_map]
  rw [WaypointGraph.Refers, providerGraph_eq,
    WaypointGraph.coherent_empty.mem_references_updateAll hkeys']
  constructor
  · rintro (⟨l, hl, hb⟩ | ⟨-, hb⟩)
    · obtain ⟨⟨_, s⟩, hs, heq⟩ := List.mem_map.1 hl
      obtain ⟨rfl, rfl⟩ := Prod.mk.inj heq
      exact ⟨s, hs, hb⟩
    · cases hb
  · rintro ⟨s, hs, hb⟩
    exact Or.inl ⟨s.toList, List.mem_map.2 ⟨(a, s), hs, rfl⟩, hb⟩

namespace WaypointSelection

/-- The eligible waypoints, each with those that it draws on. -/
structure ProviderTable (w : WaypointSelection) (objects : List LogicObject) (candidates : NameSet)
    (providers : List (Name × NameSet)) : Prop where
  mem_candidates : ∀ {n}, n ∈ candidates ↔ w.Eligible objects n
  keys : providers.map (·.1) = candidates.toList
  mem_providers : ∀ {a b s}, (a, s) ∈ providers → (b ∈ s ↔ w.DrawsOn objects a b)

/-- A list of waypoints to be inlined in which each comes after all those that it draws on. -/
structure Ordered (w : WaypointSelection) (objects : List LogicObject) (order : List Name) : Prop where
  nodup : order.Nodup
  mem : ∀ {n}, n ∈ order ↔ w.Inlines objects n
  before : ∀ {l n l'}, order = l ++ n :: l' → ∀ b, w.DrawsOn objects n b → w.Inlines objects b → b ∈ l

theorem providerTable (hn : (objects.map (·.name)).Nodup)
    (hcandidates : ∀ {n}, n ∈ candidates ↔ w.Eligible objects n) {providers : List (Name × NameSet)}
    (h : Gives (candidates.toList.mapM fun name => do
      return (name, ← (providersOf objects candidates name : Except Fault _))) (.ok providers)) :
    w.ProviderTable objects candidates providers := by
  have hall := h.mapM_ok
  have hpair : ∀ {a b s}, (do return (a, ← (providersOf objects candidates a : Except Fault _)) :
      Logged (Name × NameSet)).Gives (.ok (b, s)) → b = a ∧ providersOf objects candidates a = .ok s := by
    intro a b s h
    obtain ⟨s', hs', h⟩ := h.bind_ok
    obtain ⟨rfl, rfl⟩ := Prod.mk.inj (Except.ok.inj h.of_pure)
    exact ⟨rfl, hs'.of_except.symm⟩
  refine ⟨hcandidates, ?_, fun {a b s} hmem => ?_⟩
  · have hkeys : List.Forall₂ (· = ·) candidates.toList (providers.map (·.1)) :=
      List.forall₂_map_right_iff.2 (hall.imp fun _ _ h => (hpair h).1.symm)
    rw [List.forall₂_eq_eq_eq] at hkeys
    exact hkeys.symm
  · obtain ⟨a', ha', h⟩ := exists_left_of_forall₂ hall hmem
    obtain ⟨rfl, hs⟩ := hpair h
    rw [mem_of_providersOf hs]
    have heligible := hcandidates.1 (NameSet.mem_toList.1 ha')
    simp only [mem_logicOf_iff hn]
    constructor
    · rintro ⟨-, hb, c, ⟨o, ho, hname, hc⟩, hdraws⟩
      exact ⟨heligible, hcandidates.1 hb, o, ho, hname, c, hc, hdraws⟩
    · rintro ⟨-, hb, o, ho, hname, c, hc, hdraws⟩
      -- an eligible waypoint does not draw on itself
      have hne : b ≠ a := by
        rintro rfl
        exact heligible.notSelf o ho hname c hc hdraws
      exact ⟨hne, hcandidates.2 hb, c, ⟨o, ho, hname, hc⟩, hdraws⟩

namespace ProviderTable

variable {providers : List (Name × NameSet)} (h : w.ProviderTable objects candidates providers)

include h

theorem nodup_keys : (providers.map (·.1)).Nodup := by
  rw [h.keys]
  exact candidates.nodup_toList

theorem exists_mem (ha : w.Eligible objects a) : ∃ s, (a, s) ∈ providers := by
  have hmem := h.mem_candidates.2 ha
  rw [← NameSet.mem_toList, ← h.keys] at hmem
  obtain ⟨p, hp, rfl⟩ := List.mem_map.1 hmem
  exact ⟨p.2, hp⟩

theorem refers_iff : (providerGraph providers).Refers a b ↔ w.DrawsOn objects a b := by
  rw [refers_providerGraph h.nodup_keys]
  constructor
  · rintro ⟨s, hs, hb⟩
    exact (h.mem_providers hs).1 hb
  · intro hdraws
    obtain ⟨s, hs⟩ := h.exists_mem hdraws.left
    exact ⟨s, hs, (h.mem_providers hs).2 hdraws⟩

theorem mem_inlined : n ∈ candidates \ (providerGraph providers).cyclicNames ↔ w.Inlines objects n := by
  have hrel : (providerGraph providers).Refers = w.DrawsOn objects := by
    funext a b
    exact propext h.refers_iff
  rw [NameSet.mem_sdiff, h.mem_candidates, (coherent_providerGraph providers).mem_cyclicNames,
    WaypointGraph.OnCycle, hrel]
  exact ⟨fun hn => ⟨hn.1, hn.2⟩, fun hn => ⟨hn.1, hn.2⟩⟩

/-- What remains after the cycles are dropped can be put in order. -/
theorem exists_order (hleft : ∀ {n}, n ∈ left ↔ w.Inlines objects n) :
    ∃ order, (providerGraph ((providers.filter (·.1 ∈ left)).map
      fun p => (p.1, p.2 ∩ left))).substitutionOrder = .ok order ∧ w.Ordered objects order := by
  set rest := (providers.filter (·.1 ∈ left)).map fun p => (p.1, p.2 ∩ left) with hrest
  have hmem : ∀ {a s}, (a, s) ∈ rest ↔ a ∈ left ∧ ∃ s', (a, s') ∈ providers ∧ s' ∩ left = s := by
    intro a s
    simp only [hrest, List.mem_map, List.mem_filter, decide_eq_true_eq, Prod.mk.injEq]
    constructor
    · rintro ⟨⟨a, s'⟩, ⟨hs', ha⟩, rfl, rfl⟩
      exact ⟨ha, s', hs', rfl⟩
    · rintro ⟨ha, s', hs', rfl⟩
      exact ⟨(a, s'), ⟨hs', ha⟩, rfl, rfl⟩
  have hkeys : (rest.map (·.1)).Nodup := by
    rw [hrest, List.map_map]
    exact h.nodup_keys.sublist (List.filter_sublist.map _)
  have hrefers : ∀ {a b}, (providerGraph rest).Refers a b ↔
      w.DrawsOn objects a b ∧ w.Inlines objects a ∧ w.Inlines objects b := by
    intro a b
    rw [refers_providerGraph hkeys]
    constructor
    · rintro ⟨s, hs, hb⟩
      obtain ⟨ha, s', hs', rfl⟩ := hmem.1 hs
      rw [NameSet.mem_inter] at hb
      exact ⟨(h.mem_providers hs').1 hb.1, hleft.1 ha, hleft.1 hb.2⟩
    · rintro ⟨hdraws, ha, hb⟩
      obtain ⟨s, hs⟩ := h.exists_mem ha.eligible
      refine ⟨_, hmem.2 ⟨hleft.2 ha, s, hs, rfl⟩, ?_⟩
      exact NameSet.mem_inter.2 ⟨(h.mem_providers hs).2 hdraws, hleft.2 hb⟩
  have hcoherent := coherent_providerGraph rest
  have hacyclic : ∀ a, ¬(providerGraph rest).OnCycle a := by
    intro a hcycle
    obtain ⟨b, hab, -⟩ := TransGen.head'_iff.1 hcycle
    refine (hrefers.1 hab).2.1.notCircular ?_
    exact TransGen.mono (fun a b hab => (hrefers.1 hab).1) _ _ hcycle
  obtain ⟨hok, hperm, hresolved⟩ := hcoherent.substitutionOrder_eq_ok hacyclic
  have horder : ∀ {n}, n ∈ (providerGraph rest).readyOrder ↔ w.Inlines objects n := by
    intro n
    rw [hperm.mem_iff, mem_names_providerGraph]
    constructor
    · rintro ⟨⟨a, s⟩, hs, hn⟩
      obtain ⟨ha, s', -, rfl⟩ := hmem.1 hs
      rcases hn with rfl | hn
      · exact hleft.1 ha
      · exact hleft.1 (NameSet.mem_inter.1 hn).2
    · intro hn
      obtain ⟨s, hs⟩ := h.exists_mem hn.eligible
      exact ⟨_, hmem.2 ⟨hleft.2 hn, s, hs, rfl⟩, Or.inl rfl⟩
  refine ⟨_, hok, hcoherent.nodup_readyOrder, horder, fun {l n l'} hl b hdraws hb => ?_⟩
  have hn : w.Inlines objects n := horder.1 (by simp [hl])
  exact hresolved.mem_before hl (hrefers.2 ⟨hdraws, hn, hb⟩)

end ProviderTable

end WaypointSelection

/-! ## The whole selection -/

theorem not_isCyclic_of_recordCircles {graph : WaypointGraph} {cyclic : NameSet}
    (h : (recordCircles graph cyclic).Gives (.error fault)) : ¬fault.IsCyclic := by
  rcases h.bind_error with h | ⟨groups, -, h⟩
  · obtain ⟨group, -, h⟩ := exists_error_of_mapM h.of_except.symm
    exact not_isCyclic_of_joinNames h
  · have hshown : ∀ {message : Name → String} {shown : List Name},
        ¬Gives (shown.forM fun group => record .error .solver (message group)) (.error fault) := by
      intro message shown h
      obtain ⟨group, -, h⟩ := h.forM_error
      cases h.of_record
    dsimp only at h
    split at h
    · rcases h.bind_error with h | ⟨joined, -, h⟩
      · exact not_isCyclic_of_joinNames h.of_except.symm
      · exact absurd h hshown
    · exact absurd h hshown

namespace WaypointSelection

/-- An inlining fails before any substitution, and not because of cycles, or it has nothing to inline, or it
substitutes the right waypoints in order. -/
theorem gives_inline (hn : (objects.map (·.name)).Nodup) {classify : Classifier}
    {r : Except Fault (List LogicObject)} (h : (w.inline classify objects).Gives r) :
    (∃ f, r = .error f ∧ ¬f.IsCyclic) ∨
      (r = .ok objects ∧ ∀ o ∈ objects, ¬(o.handling = .region ∧ w.accepts o.name = .ok true)) ∨
      ∃ order, w.Ordered objects order ∧ Gives (do
        let solved ← solveInOrder classify objects order
        (objects.filter fun o => !Entries.has solved o.name).mapM fun o => do
          return { o with logic := ← (inlineClauses classify solved o.logic : Except Fault _) }) r := by
  rcases h.except_bind with ⟨f, rfl, hchosen⟩ | ⟨chosen, hchosen, h⟩
  · obtain ⟨o, -, ho⟩ := exists_error_of_filterM hchosen
    exact Or.inl ⟨f, rfl, not_isCyclic_of_isCandidate ho⟩
  dsimp only at h
  by_cases hempty : (NameSet.ofList (chosen.map (·.name))).isEmpty = true
  · rw [if_pos hempty] at h
    refine Or.inr (Or.inl ⟨h.of_pure, fun o ho hchoice => ?_⟩)
    have hmem := (mem_chosen hchosen).2 ⟨o, ho, rfl, hchoice⟩
    rw [NameSet.isEmpty, List.isEmpty_iff] at hempty
    rw [← NameSet.mem_toList, hempty] at hmem
    cases hmem
  rw [if_neg hempty] at h
  rcases h.bind_cases with ⟨f, rfl, hfirst⟩ | ⟨first, hfirst, h⟩
  · exact Or.inl ⟨f, rfl, not_isCyclic_of_dropSelfReferential hfirst⟩
  rcases h.bind_cases with ⟨f, rfl, hsecond⟩ | ⟨second, hsecond, h⟩
  · exact Or.inl ⟨f, rfl, not_isCyclic_of_dropRequired hsecond⟩
  rcases h.bind_cases with ⟨f, rfl, hproviders⟩ | ⟨providers, hproviders, h⟩
  · obtain ⟨name, -, hname⟩ := hproviders.mapM_error
    rcases hname.bind_error with hname | ⟨s, -, hname⟩
    · exact Or.inl ⟨f, rfl, not_isCyclic_of_providersOf hname.of_except.symm⟩
    · cases hname.of_pure
  have htable := providerTable hn (fun {n} => mem_eligible hn hchosen hfirst hsecond) hproviders
  obtain ⟨order, horder, hordered⟩ := htable.exists_order fun {n} => htable.mem_inlined
  -- reporting the cycles changes nothing for the rest
  have hrest : (∃ f, r = .error f ∧ ¬f.IsCyclic) ∨ Gives (do
      let order ← (liftM (providerGraph ((providers.filter
        (·.1 ∈ second \ (providerGraph providers).cyclicNames)).map fun p =>
          (p.1, p.2 ∩ (second \ (providerGraph providers).cyclicNames)))).substitutionOrder : Logged _)
      let solved ← solveInOrder classify objects order
      (objects.filter fun o => !Entries.has solved o.name).mapM fun o => do
        return { o with logic := ← (inlineClauses classify solved o.logic : Except Fault _) }) r := by
    split at h
    · rcases h.bind_cases with ⟨f, rfl, hcircles⟩ | ⟨_, -, h⟩
      · exact Or.inl ⟨f, rfl, not_isCyclic_of_recordCircles hcircles⟩
      · exact Or.inr h
    · exact Or.inr h
  rcases hrest with hfault | h
  · exact Or.inl hfault
  rw [horder] at h
  rcases h.except_bind with ⟨f, -, hf⟩ | ⟨_, ⟨⟩, h⟩
  · cases hf
  exact Or.inr (Or.inr ⟨order, hordered, h⟩)

end WaypointSelection

end RegionLogic
