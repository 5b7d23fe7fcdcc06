import RegionLogic.Proofs.Access.Improvement
import RegionLogic.Proofs.Waypoint.Inlining

/-!
# Inlining keeps the states

A clause leads from the states of the object that it draws on to states of its own object. The states of the
objects are the least ones that are closed under all clauses. Inlining replaces what an object draws on by
the clauses of that, and drops clauses for which another is the same or better, so that at the objects that
are left no state is new and every state is still matched by one that is at least as good.

## Main definitions

* `Surroundings`: what is given beside the objects
* `Attains`: the states at the objects

## Main results

* `WaypointSelection.Solution.sound`: a solved waypoint leads to no new states
* `WaypointSelection.Solution.complete`: whatever is attained is matched by the inlined clauses
* `inline_attains`: inlining keeps the states up to improvement
-/

namespace RegionLogic

open Relation Logged

universe u

variable {σ : Type u}

/-- What is given beside the objects. -/
structure Surroundings (σ : Type u) where
  /-- The conditions that are true. -/
  holds : Name → Prop
  /-- The states in which everything starts. -/
  starts : σ → Prop
  /-- The states at providers that are no objects. -/
  outside : Name → σ → Prop

variable {S : Surroundings σ} {E : Effects σ} {objects result : List LogicObject} {c d e : Clause}
  {n p : Name} {s t : σ}

/-- The conditions of the clause are true, and its modifiers lead from the state `s` to `t`. -/
def Clause.Leads (S : Surroundings σ) (E : Effects σ) (c : Clause) (s t : σ) : Prop :=
  (∀ x ∈ c.conditions, S.holds x) ∧ E.run c.modifiers s = some t

/-- The states at the objects: the least ones such that every clause leads from a state where it starts to
one at its object. -/
inductive Attains (S : Surroundings σ) (E : Effects σ) (objects : List LogicObject) : Name → σ → Prop
  | start {o c s t} : o ∈ objects → c ∈ o.logic → c.provider = none → S.starts s → c.Leads S E s t →
      Attains S E objects o.name t
  | outside {o c p s t} : o ∈ objects → c ∈ o.logic → c.DrawsFrom p → p ∉ objects.map (·.name) →
      S.outside p s → c.Leads S E s t → Attains S E objects o.name t
  | next {o c p s t} : o ∈ objects → c ∈ o.logic → c.DrawsFrom p → Attains S E objects p s →
      c.Leads S E s t → Attains S E objects o.name t

/-- The clause starts from the state `s`. -/
def Clause.StartsAt (S : Surroundings σ) (E : Effects σ) (objects : List LogicObject) (c : Clause)
    (s : σ) : Prop :=
  c.provider = none ∧ S.starts s ∨
    ∃ p, c.DrawsFrom p ∧ (p ∉ objects.map (·.name) ∧ S.outside p s ∨ Attains S E objects p s)

/-- The states at the objects solve their own equations. -/
theorem attains_iff :
    Attains S E objects n t ↔ ∃ o ∈ objects, o.name = n ∧
      ∃ c ∈ o.logic, ∃ s, c.StartsAt S E objects s ∧ c.Leads S E s t := by
  constructor
  · rintro (⟨ho, hc, hnone, hs, hleads⟩ | ⟨ho, hc, hdraws, hp, hs, hleads⟩ |
      ⟨ho, hc, hdraws, hs, hleads⟩)
    · exact ⟨_, ho, rfl, _, hc, _, Or.inl ⟨hnone, hs⟩, hleads⟩
    · exact ⟨_, ho, rfl, _, hc, _, Or.inr ⟨_, hdraws, Or.inl ⟨hp, hs⟩⟩, hleads⟩
    · exact ⟨_, ho, rfl, _, hc, _, Or.inr ⟨_, hdraws, Or.inr hs⟩, hleads⟩
  · rintro ⟨o, ho, rfl, c, hc, s, ⟨hnone, hs⟩ | ⟨p, hdraws, ⟨hp, hs⟩ | hs⟩, hleads⟩
    · exact .start ho hc hnone hs hleads
    · exact .outside ho hc hdraws hp hs hleads
    · exact .next ho hc hdraws hs hleads

/-! ## One clause in the place of another -/

/-- A clause after one of those of its provider leads where the two lead in turn. -/
theorem Clause.leads_substitute :
    (c.substitute d).Leads S E s t ↔ ∃ u, d.Leads S E s u ∧ c.Leads S E u t := by
  unfold Leads Clause.substitute
  simp only [NameSet.mem_union, or_imp, forall_and, Effects.run_append, Option.bind_eq_some_iff]
  constructor
  · rintro ⟨⟨hd, hc⟩, u, hs, hu⟩
    exact ⟨u, ⟨hd, hs⟩, hc, hu⟩
  · rintro ⟨u, ⟨hd, hs⟩, hc, hu⟩
    exact ⟨⟨hd, hc⟩, u, hs, hu⟩

section Improvement

variable [Preorder σ] {classify : Classifier} (hE : E.Follows classify)

include hE

theorem Effects.Follows.leads_mono {s' : σ} (hs : s ≤ s') (h : c.Leads S E s t) :
    ∃ t', t ≤ t' ∧ c.Leads S E s' t' := by
  obtain ⟨t', ht, hrun⟩ := hE.run_mono hs h.2
  exact ⟨t', ht, h.1, hrun⟩

/-- A clause that is the same or better has the same provider and leads to states at least as good. -/
theorem Effects.Follows.leads_of_isSameOrBetter (h : Clause.isSameOrBetter classify c d = .ok true)
    (hd : d.Leads S E s t) : c.provider = d.provider ∧ ∃ t', t ≤ t' ∧ c.Leads S E s t' := by
  obtain ⟨hprovider, hconditions, shared, helps, hurts, hc, hd', hhelps, hhurts⟩ :=
    Clause.isSameOrBetter_eq_ok_true h
  refine ⟨hprovider, ?_⟩
  obtain ⟨hholds, hrun⟩ := hd
  rw [hd', Effects.run_append, Option.bind_eq_some_iff] at hrun
  obtain ⟨u, hu, hrun⟩ := hrun
  -- after the shared beginning the one can only help, and the other can only hurt
  have hle := hE.run_detrimental hhurts hrun
  obtain ⟨t', hut, ht'⟩ := hE.run_helps hhelps u
  refine ⟨t', hle.trans hut, fun x hx => hholds x (hconditions x hx), ?_⟩
  rw [hc, Effects.run_append, hu]
  exact ht'

/-- So does whatever a clause has been dropped for. -/
theorem Effects.Follows.leads_of_chain
    (h : ReflTransGen (fun a b => Clause.isSameOrBetter classify b a = .ok true) d e)
    (hd : d.Leads S E s t) : e.provider = d.provider ∧ ∃ t', t ≤ t' ∧ e.Leads S E s t' := by
  induction h with
  | refl => exact ⟨rfl, t, le_rfl, hd⟩
  | tail _ hbetter ih =>
    obtain ⟨hprovider, u, hu, hleads⟩ := ih
    obtain ⟨hsame, t', ht', hleads'⟩ := hE.leads_of_isSameOrBetter hbetter hleads
    exact ⟨hsame.trans hprovider, t', hu.trans ht', hleads'⟩

end Improvement

theorem Clause.StartsAt.congr (h : c.StartsAt S E objects s) (hprovider : d.provider = c.provider) :
    d.StartsAt S E objects s := by
  unfold StartsAt DrawsFrom at h ⊢
  rwa [hprovider]

/-! ## No state is new -/

section Sound

variable {w : WaypointSelection} {classify : Classifier} {solved : List (Name × List Clause)}
  {order : List Name} {ds : List Clause}

/-- The clauses of a solved waypoint lead to states of that waypoint. -/
def SoundAt (S : Surroundings σ) (E : Effects σ) (objects : List LogicObject)
    (solved : List (Name × List Clause)) (p : Name) : Prop :=
  ∀ l, Entries.find? solved p = some l →
    ∀ c ∈ l, ∀ s t, c.StartsAt S E objects s → c.Leads S E s t → Attains S E objects p t

/-- Inlining sound clauses gives sound clauses. -/
theorem attains_of_inlineClauses {o : LogicObject} (ho : o ∈ objects)
    (hsound : ∀ c ∈ o.logic, ∀ p, c.DrawsFrom p → SoundAt S E objects solved p)
    (hds : inlineClauses classify solved o.logic = .ok ds) (hd : d ∈ ds)
    (hs : d.StartsAt S E objects s) (hleads : d.Leads S E s t) : Attains S E objects o.name t := by
  obtain ⟨c, hc, hstands⟩ := exists_standsFor_of_inlineClauses hds hd
  cases hstands with
  | start => exact attains_iff.2 ⟨o, ho, rfl, _, hc, s, hs, hleads⟩
  | kept => exact attains_iff.2 ⟨o, ho, rfl, _, hc, s, hs, hleads⟩
  | substituted hdraws hfind he =>
    obtain ⟨u, hsu, hut⟩ := Clause.leads_substitute.1 hleads
    have hu := hsound c hc _ hdraws _ hfind _ he s u (hs.congr rfl) hsu
    exact .next ho hc hdraws hu hut

/-- The waypoints are sound: by induction on the order, as each draws only on those before it. -/
theorem WaypointSelection.Solution.sound (hn : (objects.map (·.name)).Nodup)
    (hordered : w.Ordered objects order) (hsol : w.Solution classify objects order solved) (p : Name) :
    SoundAt S E objects solved p := by
  have hinlined : ∀ n, w.Inlines objects n → SoundAt S E objects solved n := fun _ =>
    hordered.induct fun n hinlines ih => by
      obtain ⟨o, ho, rfl, -⟩ := hinlines.eligible.chosen
      intro ds hfind d hd s t hs hleads
      have hds := hsol.solves hfind
      rw [logicOf_eq hn ho] at hds
      refine attains_of_inlineClauses ho (fun c hc p hdraws l hfind => ?_) hds hd hs hleads
      have hp := hsol.inlines_of_find? hordered hfind
      exact ih p ⟨hinlines.eligible, hp.eligible, o, ho, rfl, c, hc, hdraws⟩ hp l hfind
  exact fun l hfind => hinlined p (hsol.inlines_of_find? hordered hfind) l hfind

/-- An object that is not solved stays. -/
theorem exists_inlined (hresult : List.Forall₂ (·.Inlined classify solved ·)
      (objects.filter fun o => !Entries.has solved o.name) result) {o : LogicObject} (ho : o ∈ objects)
    (hfind : Entries.find? solved o.name = none) : ∃ o' ∈ result, o.Inlined classify solved o' :=
  exists_right_of_forall₂ hresult (List.mem_filter.2 ⟨ho, by simp [Entries.has, hfind]⟩)

/-- Whatever is attained in the result is attained by the given objects: by induction on how it is attained. -/
theorem WaypointSelection.Solution.attains_of_result (hn : (objects.map (·.name)).Nodup)
    (hordered : w.Ordered objects order) (hsol : w.Solution classify objects order solved)
    (hresult : List.Forall₂ (·.Inlined classify solved ·)
      (objects.filter fun o => !Entries.has solved o.name) result)
    (h : Attains S E result n t) : Attains S E objects n t := by
  have hsound := hsol.sound (S := S) (E := E) hn hordered
  have hinlined : ∀ {o'}, o' ∈ result → ∃ o ∈ objects, o.Inlined classify solved o' := by
    intro o' ho'
    obtain ⟨o, ho, hinlined⟩ := exists_left_of_forall₂ hresult ho'
    exact ⟨o, List.mem_of_mem_filter ho, hinlined⟩
  induction h with
  | start ho' hc hnone hs hleads =>
    obtain ⟨o, ho, ho'⟩ := hinlined ho'
    rw [ho'.name]
    exact attains_of_inlineClauses ho (fun _ _ p _ => hsound p) ho'.logic hc (Or.inl ⟨hnone, hs⟩) hleads
  | @outside o' c p s t ho' hc hdraws hp hs hleads =>
    obtain ⟨o, ho, ho'⟩ := hinlined ho'
    -- the clause draws on nothing that has been inlined, so its provider was no object before
    have hp' : p ∉ objects.map (·.name) := by
      intro hmem
      obtain ⟨q, hq, rfl⟩ := List.mem_map.1 hmem
      cases hfind : Entries.find? solved q.name with
      | some l => exact ho'.free hordered hsol hc hdraws (hsol.inlines_of_find? hordered hfind)
      | none =>
        obtain ⟨q', hq', hinlined⟩ := exists_inlined hresult hq hfind
        exact hp (hinlined.name ▸ List.mem_map_of_mem hq')
    rw [ho'.name]
    exact attains_of_inlineClauses ho (fun _ _ p _ => hsound p) ho'.logic hc
      (Or.inr ⟨p, hdraws, Or.inl ⟨hp', hs⟩⟩) hleads
  | next ho' hc hdraws _ hleads ih =>
    obtain ⟨o, ho, ho'⟩ := hinlined ho'
    rw [ho'.name]
    exact attains_of_inlineClauses ho (fun _ _ p _ => hsound p) ho'.logic hc
      (Or.inr ⟨_, hdraws, Or.inr ih⟩) hleads

end Sound

/-! ## Every state is matched -/

section Complete

variable [Preorder σ] {w : WaypointSelection} {classify : Classifier} {order : List Name}
  {solved : List (Name × List Clause)} {ds : List Clause}

/-- Some clause leads from where it starts to a state at least as good as `t`. -/
def Matched (S : Surroundings σ) (E : Effects σ) (objects : List LogicObject) (l : List Clause)
    (t : σ) : Prop :=
  ∃ c ∈ l, ∃ s t', c.StartsAt S E objects s ∧ c.Leads S E s t' ∧ t ≤ t'

theorem attains_of_matched {o : LogicObject} (ho : o ∈ objects) (h : Matched S E objects o.logic t) :
    ∃ t', t ≤ t' ∧ Attains S E objects o.name t' := by
  obtain ⟨c, hc, s, t', hs, hleads, hle⟩ := h
  exact ⟨t', hle, attains_iff.2 ⟨o, ho, rfl, c, hc, s, hs, hleads⟩⟩

/-- What a clause stands for is matched by the clauses that are left. -/
theorem Effects.Follows.matched_of_standsFor (hE : E.Follows classify) {cs : List Clause}
    (hds : inlineClauses classify solved cs = .ok ds) (hc : c ∈ cs) (hd : c.StandsFor solved d)
    (hs : d.StartsAt S E result s) (hleads : d.Leads S E s t) : Matched S E result ds t := by
  obtain ⟨e, he, hchain⟩ := exists_kept_of_inlineClauses hds hc hd
  obtain ⟨hprovider, t', hle, hleads'⟩ := hE.leads_of_chain hchain hleads
  exact ⟨e, he, s, t', hs.congr hprovider, hleads', hle⟩

/-- Whatever is attained at an object is matched by its inlined clauses in the result: by induction on how
it is attained. -/
theorem WaypointSelection.Solution.complete (hn : (objects.map (·.name)).Nodup)
    (hordered : w.Ordered objects order) (hsol : w.Solution classify objects order solved)
    (hE : E.Follows classify)
    (hresult : List.Forall₂ (·.Inlined classify solved ·)
      (objects.filter fun o => !Entries.has solved o.name) result)
    (h : Attains S E objects n t) (hds : inlineClauses classify solved (logicOf objects n) = .ok ds) :
    Matched S E result ds t := by
  have hnames : ∀ {p}, p ∈ result.map (·.name) → p ∈ objects.map (·.name) := by
    intro p hp
    obtain ⟨o', ho', rfl⟩ := List.mem_map.1 hp
    obtain ⟨o, ho, hinlined⟩ := exists_left_of_forall₂ hresult ho'
    rw [hinlined.name]
    exact List.mem_map_of_mem (List.mem_of_mem_filter ho)
  have hunsolved : ∀ {p}, p ∉ objects.map (·.name) → Entries.find? solved p = none := by
    intro p hp
    by_contra hsome
    obtain ⟨l, hfind⟩ := Option.ne_none_iff_exists'.1 hsome
    obtain ⟨o, ho, rfl, -⟩ := (hsol.inlines_of_find? hordered hfind).eligible.chosen
    exact hp (List.mem_map_of_mem ho)
  induction h generalizing ds with
  | start ho hc hnone hs hleads =>
    rw [logicOf_eq hn ho] at hds
    exact hE.matched_of_standsFor hds hc (.start hnone) (Or.inl ⟨hnone, hs⟩) hleads
  | outside ho hc hdraws hp hs hleads =>
    rw [logicOf_eq hn ho] at hds
    refine hE.matched_of_standsFor hds hc (.kept hdraws (hunsolved hp)) ?_ hleads
    exact Or.inr ⟨_, hdraws, Or.inl ⟨fun h => hp (hnames h), hs⟩⟩
  | @next o c p s t ho hc hdraws hs hleads ih =>
    rw [logicOf_eq hn ho] at hds
    cases hfind : Entries.find? solved p with
    | some l =>
      obtain ⟨d, hd, s₀, s', hs₀, hd', hle⟩ := ih (hsol.solves hfind)
      obtain ⟨t', ht, hleads'⟩ := hE.leads_mono hle hleads
      obtain ⟨e, he, s₁, t₁, hs₁, he', hle'⟩ := hE.matched_of_standsFor hds hc
        (.substituted hdraws hfind hd) (hs₀.congr rfl) (Clause.leads_substitute.2 ⟨s', hd', hleads'⟩)
      exact ⟨e, he, s₁, t₁, hs₁, he', ht.trans hle'⟩
    | none =>
      obtain ⟨q, hq, rfl, -⟩ := attains_iff.1 hs
      obtain ⟨q', hq', hinlined⟩ := exists_inlined hresult hq hfind
      have hlogic := hinlined.logic
      rw [← logicOf_eq hn hq] at hlogic
      obtain ⟨s', hle, hs'⟩ := attains_of_matched hq' (ih hlogic)
      obtain ⟨t', ht, hleads'⟩ := hE.leads_mono hle hleads
      rw [hinlined.name] at hs'
      obtain ⟨e, he, s₁, t₁, hs₁, he', hle'⟩ := hE.matched_of_standsFor hds hc
        (.kept hdraws hfind) (Or.inr ⟨_, hdraws, Or.inr hs'⟩) hleads'
      exact ⟨e, he, s₁, t₁, hs₁, he', ht.trans hle'⟩

end Complete

/-- Inlining the waypoints of objects with distinct names keeps the states at all objects that are left, up
to improvement: none is new, and each is matched by one that is at least as good. -/
theorem inline_attains (w : WaypointSelection) (classify : Classifier) (objects : List LogicObject)
    (hn : (objects.map (·.name)).Nodup) [Preorder σ] (S : Surroundings σ) {E : Effects σ}
    (hE : E.Follows classify) {result : List LogicObject} {events : List Event}
    (h : (w.inline classify objects).outcome = (.ok result, events)) :
    ∀ o ∈ result, ∀ t,
      (Attains S E result o.name t → Attains S E objects o.name t) ∧
        (Attains S E objects o.name t → ∃ t', t ≤ t' ∧ Attains S E result o.name t') := by
  have hgives : (w.inline classify objects).Gives (.ok result) := by
    have hgives := gives_outcome (w.inline classify objects)
    rwa [h] at hgives
  rcases WaypointSelection.inline_cases hn hgives with ⟨rfl, -⟩ | ⟨order, solved, hordered, hsol, hall⟩
  · exact fun o _ t => ⟨id, fun ht => ⟨t, le_rfl, ht⟩⟩
  intro o' ho' t
  obtain ⟨o, ho, hinlined⟩ := exists_left_of_forall₂ hall ho'
  have ho := List.mem_of_mem_filter ho
  constructor
  · exact hsol.attains_of_result hn hordered hall
  · intro ht
    rw [hinlined.name] at ht
    have hlogic := hinlined.logic
    rw [← logicOf_eq hn ho] at hlogic
    exact attains_of_matched ho' (hsol.complete hn hordered hE hall ht hlogic)

/-- Every cast counts. -/
def countCasts : Effects Nat := fun m s => some (if m = "$CAST" then s + 1 else s)

theorem countCasts_follows : countCasts.Follows castHelps where
  mono m s s' t hs h := by
    obtain rfl := Option.some.inj h
    refine ⟨_, ?_, rfl⟩
    split
    · exact Nat.succ_le_succ hs
    · exact hs
  helps _ s := by
    refine ⟨_, ?_, rfl⟩
    split
    · exact Nat.le_succ s
    · exact Nat.le_refl s
  hurts {m} hm := by
    unfold castHelps at hm
    split at hm <;> cases hm

/-- Only a rod is there, and nothing has been cast. -/
def atPond : Surroundings Nat where
  holds x := x = "Rod"
  starts s := s = 0
  outside _ _ := False

/-- With a rod a fish is reached after a cast, also when the pond has been inlined. -/
theorem inline_attains_fish : ∃ t, 1 ≤ t ∧ Attains atPond countCasts pondResult "Fish" t := by
  have hpond : Attains atPond countCasts pondObjects "Pond" 1 := by
    refine .start (o := pondObjects[0]) (c := { conditions := {("Rod" : Name)}, modifiers := ["$CAST"] })
      (s := 0) (by simp [pondObjects]) (by simp [pondObjects]) rfl rfl ⟨?_, rfl⟩
    exact fun x hx => NameSet.mem_singleton.1 hx
  have hfish : Attains atPond countCasts pondObjects "Fish" 1 := by
    refine .next (o := pondObjects[3]) (c := { provider := some "Pond" }) (p := "Pond") (s := 1)
      (by simp [pondObjects]) (by simp [pondObjects]) ⟨"Pond", rfl, by cbv⟩ hpond ⟨?_, rfl⟩
    exact fun x hx => absurd hx (NameSet.not_mem_empty x)
  have h := inline_attains anyWaypoint castHelps pondObjects (by decide) atPond countCasts_follows
    (Prod.ext inline_pondObjects rfl) pondResult[2] (by simp [pondResult]) 1
  exact h.2 hfish

end RegionLogic
