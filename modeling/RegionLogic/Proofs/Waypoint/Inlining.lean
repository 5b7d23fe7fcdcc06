import RegionLogic.Proofs.Waypoint.Selection

/-!
# What inlining leaves

The waypoints are solved in an order in which each comes after those that it draws on, so that the clauses
of a solved waypoint draw on no waypoint that is inlined. The table of the solved waypoints can be read as
a whole: each entry is what inlining with the complete table gives.

## Main definitions

* `Clause.StandsFor`: the clauses that a clause stands for
* `WaypointSelection.Solution`: the table of the solved waypoints

## Main results

* `exists_standsFor_of_inlineClauses`, `exists_kept_of_inlineClauses`: what inlining makes of clauses
* `WaypointSelection.solution`: the table is a solution
* `inline_removes_exactly`: an inlining removes the waypoints to be inlined, and nothing else
-/

namespace RegionLogic

open Relation Logged

variable {w : WaypointSelection} {objects : List LogicObject} {classify : Classifier}
  {solved solved' : List (Name × List Clause)} {c d : Clause} {l ds : List Clause} {cs : List Clause}
  {n p : Name} {fault : Fault}

/-! ## Clauses -/

/-- A clause stands for itself unless the object that it draws on is solved; then it stands for its
substitutions with the clauses of that object. -/
inductive Clause.StandsFor (solved : List (Name × List Clause)) (c : Clause) : Clause → Prop
  | start : c.provider = none → c.StandsFor solved c
  | kept {p : Name} : c.DrawsFrom p → Entries.find? solved p = none → c.StandsFor solved c
  | substituted {p : Name} {inlined : List Clause} {d : Clause} : c.DrawsFrom p →
      Entries.find? solved p = some inlined → d ∈ inlined → c.StandsFor solved (c.substitute d)

theorem mem_of_inlineClause (h : inlineClause solved c = .ok l) : d ∈ l ↔ c.StandsFor solved d := by
  unfold inlineClause at h
  cases hc : c.provider with
  | none =>
    rw [hc] at h
    obtain rfl := Except.ok.inj h
    rw [List.mem_singleton]
    constructor
    · rintro rfl
      exact .start hc
    · rintro (_ | _ | ⟨hp, -, -⟩)
      · rfl
      · rfl
      · exact absurd hp (Clause.not_drawsFrom_of_none hc)
  | some provider =>
    rw [hc] at h
    obtain ⟨p, hp, h⟩ := bind_eq_ok.1 h
    have hdraws : c.DrawsFrom p := ⟨provider, hc, hp⟩
    split at h
    · next inlined hfind =>
      obtain rfl := Except.ok.inj h
      rw [List.mem_map]
      constructor
      · rintro ⟨e, he, rfl⟩
        exact .substituted hdraws hfind he
      · rintro (hnone | ⟨hq, hnone⟩ | ⟨hq, hsome, he⟩)
        · rw [hc] at hnone
          cases hnone
        · rw [hq.unique hdraws, hfind] at hnone
          cases hnone
        · rw [hq.unique hdraws, hfind] at hsome
          obtain rfl := Option.some.inj hsome
          exact ⟨_, he, rfl⟩
    · next hfind =>
      obtain rfl := Except.ok.inj h
      rw [List.mem_singleton]
      constructor
      · rintro rfl
        exact .kept hdraws hfind
      · rintro (_ | _ | ⟨hq, hsome, -⟩)
        · rfl
        · rfl
        · rw [hq.unique hdraws, hfind] at hsome
          cases hsome

/-- What a clause stands for draws on the object of the clause, unless that is solved, or on an object that
an entry of the table draws on. -/
theorem Clause.StandsFor.drawsFrom (h : c.StandsFor solved d) (hd : d.DrawsFrom p) :
    c.DrawsFrom p ∧ Entries.find? solved p = none ∨
      ∃ q l, Entries.find? solved q = some l ∧ ∃ e ∈ l, e.DrawsFrom p := by
  cases h with
  | start hnone => exact absurd hd (not_drawsFrom_of_none hnone)
  | kept hq hnone => exact Or.inl ⟨hd, hd.unique hq ▸ hnone⟩
  | substituted hq hfind he => exact Or.inr ⟨_, _, hfind, _, he, hd⟩

/-- Only the entries for the objects that a clause draws on matter. -/
theorem inlineClause_congr
    (h : ∀ p, c.DrawsFrom p → Entries.find? solved p = Entries.find? solved' p) :
    inlineClause solved c = inlineClause solved' c := by
  unfold inlineClause
  cases hc : c.provider with
  | none => rfl
  | some provider =>
    cases hp : Clause.providerRegion provider with
    | error f => simp only [hp]; rfl
    | ok p =>
      have hfind := h p ⟨provider, hc, hp⟩
      simp only [hp, bind, Except.bind, hfind]

theorem inlineClauses_congr
    (h : ∀ c ∈ cs, ∀ p, c.DrawsFrom p → Entries.find? solved p = Entries.find? solved' p) :
    inlineClauses classify solved cs = inlineClauses classify solved' cs := by
  have hmap : cs.mapM (inlineClause solved) = cs.mapM (inlineClause solved') := by
    induction cs with
    | nil => rfl
    | cons c cs ih =>
      rw [List.forall_mem_cons] at h
      rw [List.mapM_cons, List.mapM_cons, inlineClause_congr h.1, ih h.2]
  rw [inlineClauses, hmap, inlineClauses]

/-- An inlined clause is one that a given clause stands for. -/
theorem exists_standsFor_of_inlineClauses (h : inlineClauses classify solved cs = .ok ds) (hd : d ∈ ds) :
    ∃ c ∈ cs, c.StandsFor solved d := by
  obtain ⟨lists, hlists, h⟩ := bind_eq_ok.1 h
  obtain ⟨-, rfl⟩ := Clause.reduceAll_eq_ok_iff.1 h
  obtain ⟨l, hl, hd⟩ := List.mem_flatten.1 ((eliminate_sublist _ _).subset hd)
  obtain ⟨c, hc, hl⟩ := exists_left_of_forall₂ (forall₂_of_mapM hlists) hl
  exact ⟨c, hc, (mem_of_inlineClause hl).1 hd⟩

/-- What a given clause stands for is left, or has been dropped for something that is left. -/
theorem exists_kept_of_inlineClauses (h : inlineClauses classify solved cs = .ok ds) (hc : c ∈ cs)
    (hd : c.StandsFor solved d) :
    ∃ e ∈ ds, ReflTransGen (fun a b => Clause.isSameOrBetter classify b a = .ok true) d e := by
  obtain ⟨lists, hlists, h⟩ := bind_eq_ok.1 h
  obtain ⟨-, rfl⟩ := Clause.reduceAll_eq_ok_iff.1 h
  obtain ⟨l, hl, hcl⟩ := exists_right_of_forall₂ (forall₂_of_mapM hlists) hc
  exact exists_kept _ _ d (List.mem_flatten.2 ⟨l, hl, (mem_of_inlineClause hcl).2 hd⟩)

/-! ## Faults -/

theorem not_isCyclic_of_inlineClause (h : inlineClause solved c = .error fault) : ¬fault.IsCyclic := by
  unfold inlineClause at h
  cases hc : c.provider with
  | none =>
    rw [hc] at h
    cases h
  | some provider =>
    rw [hc] at h
    rcases bind_eq_error.1 h with h | ⟨p, -, h⟩
    · exact Clause.not_isCyclic_of_providerRegion h
    · split at h <;> cases h

/-- Inlining fails with cycles only if the classifier does. -/
theorem exists_fault_of_inlineClauses (h : inlineClauses classify solved cs = .error fault)
    (hcyclic : fault.IsCyclic) : ∃ m, classify m = .error fault := by
  rcases bind_eq_error.1 h with h | ⟨lists, -, h⟩
  · obtain ⟨c, -, hc⟩ := exists_error_of_mapM h
    exact absurd hcyclic (not_isCyclic_of_inlineClause hc)
  · obtain ⟨c, -, m, -, hm⟩ := Clause.exists_fault_of_reduceAll h
    exact ⟨m, hm⟩

/-! ## The table of the solved waypoints -/

namespace WaypointSelection

/-- The table has an entry for each waypoint of a list. Each entry is what inlining with the whole table
makes of the clauses of the waypoint, and draws on no waypoint that is inlined. -/
structure Solution (w : WaypointSelection) (classify : Classifier) (objects : List LogicObject)
    (done : List Name) (solved : List (Name × List Clause)) : Prop where
  keys : Entries.keys solved = done
  solves : ∀ {n l}, Entries.find? solved n = some l →
    inlineClauses classify solved (logicOf objects n) = .ok l
  free : ∀ {n l}, Entries.find? solved n = some l → ∀ c ∈ l, ∀ p, c.DrawsFrom p → ¬w.Inlines objects p

theorem drawsOn_of_mem_logicOf {n p : Name} {c : Clause} (hn : w.Inlines objects n)
    (hp : w.Inlines objects p) (hc : c ∈ logicOf objects n) (hdraws : c.DrawsFrom p) :
    w.DrawsOn objects n p := by
  obtain ⟨o, ho, hname, hc⟩ := mem_logicOf hc
  exact ⟨hn.eligible, hp.eligible, o, ho, hname, c, hc, hdraws⟩

/-- Induction on the waypoints that are inlined: each draws only on such as come before it. -/
theorem Ordered.induct {order : List Name} (h : w.Ordered objects order) {P : Name → Prop}
    (step : ∀ n, w.Inlines objects n → (∀ p, w.DrawsOn objects n p → w.Inlines objects p → P p) → P n)
    (hn : w.Inlines objects n) : P n := by
  have hprefix : ∀ before after, order = before ++ after → ∀ n ∈ before, P n := by
    intro before
    induction before using List.reverseRecOn with
    | nil =>
      intro after _ n hn
      cases hn
    | append_singleton before m ih =>
      intro after horder n hmem
      have hmiddle : order = before ++ m :: after := by simp [horder]
      rcases List.mem_append.1 hmem with hmem | hmem
      · exact ih (m :: after) hmiddle n hmem
      · obtain rfl := List.mem_singleton.1 hmem
        refine step n (h.mem.1 (by simp [horder])) fun p hdraws hp => ?_
        exact ih (n :: after) hmiddle p (h.before hmiddle p hdraws hp)
  exact hprefix order [] (List.append_nil order).symm n (h.mem.2 hn)

theorem Solution.inlines_of_find? {order : List Name} (h : w.Solution classify objects order solved)
    (hordered : w.Ordered objects order) (hfind : Entries.find? solved p = some l) :
    w.Inlines objects p := by
  rw [← hordered.mem, ← h.keys, ← Entries.isSome_find?, hfind]
  rfl

/-- Solving one more waypoint. -/
theorem Solution.set {order done rest : List Name} (h : w.Solution classify objects done solved)
    (hordered : w.Ordered objects order) (horder : order = done ++ n :: rest)
    (hds : inlineClauses classify solved (logicOf objects n) = .ok ds) :
    w.Solution classify objects (done ++ [n]) (Entries.set solved n ds) := by
  have hnodup := hordered.nodup
  rw [horder, List.nodup_append] at hnodup
  have hfresh : n ∉ done := fun hn => hnodup.2.2 n hn n (by simp) rfl
  have hinlines : ∀ {m}, m ∈ done ++ [n] → w.Inlines objects m := by
    intro m hm
    refine hordered.mem.1 ?_
    rw [horder, List.append_cons]
    exact List.mem_append_left _ hm
  have hn : w.Inlines objects n := hinlines (by simp)
  -- no waypoint solved so far draws on the new one
  have hsame : ∀ {m}, m ∈ done ++ [n] → ∀ c ∈ logicOf objects m, ∀ p, c.DrawsFrom p →
      Entries.find? solved p = Entries.find? (Entries.set solved n ds) p := by
    intro m hm c hc p hdraws
    rw [Entries.find?_set]
    split
    · next hp =>
      subst hp
      have hdraws := drawsOn_of_mem_logicOf (hinlines hm) hn hc hdraws
      rcases List.mem_append.1 hm with hm | hm
      · obtain ⟨before, after, rfl⟩ := List.append_of_mem hm
        have horder' : order = before ++ m :: (after ++ n :: rest) := by simp [horder]
        have hbefore := hordered.before horder' n hdraws hn
        exact absurd (List.mem_append_left _ hbefore) hfresh
      · obtain rfl := List.mem_singleton.1 hm
        exact absurd (hordered.before horder m hdraws hn) hfresh
    · rfl
  have hsolved : ∀ {m l}, Entries.find? (Entries.set solved n ds) m = some l →
      m = n ∧ l = ds ∨ m ∈ done ∧ Entries.find? solved m = some l := by
    intro m l hfind
    rw [Entries.find?_set] at hfind
    split at hfind
    · next hm => exact Or.inl ⟨hm.symm, (Option.some.inj hfind).symm⟩
    · refine Or.inr ⟨?_, hfind⟩
      rw [← h.keys, ← Entries.isSome_find?, hfind]
      rfl
  refine ⟨?_, fun {m l} hfind => ?_, fun {m l} hfind c hc p hdraws => ?_⟩
  · rw [Entries.keys_set, h.keys, if_neg hfresh]
  · rcases hsolved hfind with ⟨rfl, rfl⟩ | ⟨hm, hfind⟩
    · rw [← inlineClauses_congr (hsame (by simp))]
      exact hds
    · rw [← inlineClauses_congr (hsame (by simp [hm]))]
      exact h.solves hfind
  · rcases hsolved hfind with ⟨rfl, rfl⟩ | ⟨-, hfind⟩
    · intro hp
      obtain ⟨c', hc', hstands⟩ := exists_standsFor_of_inlineClauses hds hc
      rcases hstands.drawsFrom hdraws with ⟨hdraws, hnone⟩ | ⟨q, l, hfind, e, he, hdraws⟩
      · have hp := hordered.before horder p (drawsOn_of_mem_logicOf hn hp hc' hdraws) hp
        rw [← h.keys, ← Entries.isSome_find?, hnone] at hp
        cases hp
      · exact h.free hfind e he p hdraws hp
    · exact h.free hfind c hc p hdraws

theorem solution {order : List Name} (hordered : w.Ordered objects order)
    (h : (solveInOrder classify objects order).Gives (.ok solved)) :
    w.Solution classify objects order solved := by
  have hstart : ∃ done, order = done ++ order ∧ w.Solution classify objects done [] :=
    ⟨[], rfl, rfl, by rintro _ _ ⟨⟩, by rintro _ _ ⟨⟩⟩
  have hend := h.foldlM_ok
    (P := fun rest solved => ∃ done, order = done ++ rest ∧ w.Solution classify objects done solved)
    (fun n rest solved solved' => by
      rintro ⟨done, horder, hdone⟩ hstep
      rcases hstep.except_bind with ⟨f, ⟨⟩, -⟩ | ⟨ds, hds, hstep⟩
      obtain rfl := Except.ok.inj hstep.record_bind.of_pure
      exact ⟨done ++ [n], by simp [horder], hdone.set hordered horder hds⟩)
    hstart
  obtain ⟨done, horder, hdone⟩ := hend
  rw [List.append_nil] at horder
  exact horder ▸ hdone

theorem exists_fault_of_solveInOrder {order : List Name}
    (h : (solveInOrder classify objects order).Gives (.error fault)) (hcyclic : fault.IsCyclic) :
    ∃ m, classify m = .error fault := by
  obtain ⟨n, -, solved, h⟩ := h.foldlM_error
  rcases h.except_bind with ⟨f, hf, h⟩ | ⟨ds, -, h⟩
  · obtain rfl := Except.error.inj hf
    exact exists_fault_of_inlineClauses h hcyclic
  · cases h.record_bind.of_pure

end WaypointSelection

/-! ## The result -/

/-- The object `o'` is `o` with its clauses inlined. -/
structure LogicObject.Inlined (o : LogicObject) (classify : Classifier)
    (solved : List (Name × List Clause)) (o' : LogicObject) : Prop where
  name : o'.name = o.name
  handling : o'.handling = o.handling
  isEvent : o'.isEvent = o.isEvent
  logic : inlineClauses classify solved o.logic = .ok o'.logic

/-- The inlined clauses draw on no waypoint that is inlined. -/
theorem LogicObject.Inlined.free {o o' : LogicObject} {order : List Name}
    (h : o.Inlined classify solved o') (hordered : w.Ordered objects order)
    (hsol : w.Solution classify objects order solved) (hc : c ∈ o'.logic) (hdraws : c.DrawsFrom p) :
    ¬w.Inlines objects p := by
  intro hp
  obtain ⟨c', -, hstands⟩ := exists_standsFor_of_inlineClauses h.logic hc
  rcases hstands.drawsFrom hdraws with ⟨-, hnone⟩ | ⟨q, l, hfind, e, he, hdraws⟩
  · rw [← hordered.mem, ← hsol.keys, ← Entries.isSome_find?, hnone] at hp
    cases hp
  · exact hsol.free hfind e he p hdraws hp

/-- An inlining that succeeds has nothing to inline, or solves the right waypoints and inlines them in all
other objects. -/
theorem WaypointSelection.inline_cases (hn : (objects.map (·.name)).Nodup) {result : List LogicObject}
    (h : (w.inline classify objects).Gives (.ok result)) :
    (result = objects ∧ ∀ o ∈ objects, ¬(o.handling = .region ∧ w.accepts o.name = .ok true)) ∨
      ∃ order solved, w.Ordered objects order ∧ w.Solution classify objects order solved ∧
        List.Forall₂ (·.Inlined classify solved ·)
          (objects.filter fun o => !Entries.has solved o.name) result := by
  rcases gives_inline hn h with ⟨f, ⟨⟩, -⟩ | ⟨hresult, hnone⟩ | ⟨order, hordered, h⟩
  · exact Or.inl ⟨Except.ok.inj hresult, hnone⟩
  · obtain ⟨solved, hsolved, h⟩ := h.bind_ok
    refine Or.inr ⟨order, solved, hordered, solution hordered hsolved, h.mapM_ok.imp fun o o' ho => ?_⟩
    rcases ho.except_bind with ⟨f, ⟨⟩, -⟩ | ⟨ds, hds, ho⟩
    obtain rfl := Except.ok.inj ho.of_pure
    exact ⟨rfl, rfl, rfl, hds⟩

/-- An inlining fails with cycles only if the classifier does. -/
theorem WaypointSelection.exists_fault_of_inline (hn : (objects.map (·.name)).Nodup)
    (h : (w.inline classify objects).Gives (.error fault)) (hcyclic : fault.IsCyclic) :
    ∃ m, classify m = .error fault := by
  rcases gives_inline hn h with ⟨f, hf, hfault⟩ | ⟨⟨⟩, -⟩ | ⟨order, -, h⟩
  · obtain rfl := Except.error.inj hf
    exact absurd hcyclic hfault
  · rcases h.bind_error with h | ⟨solved, -, h⟩
    · exact exists_fault_of_solveInOrder h hcyclic
    · obtain ⟨o, -, h⟩ := h.mapM_error
      rcases h.except_bind with ⟨f, hf, h⟩ | ⟨ds, -, h⟩
      · obtain rfl := Except.error.inj hf
        exact exists_fault_of_inlineClauses h hcyclic
      · cases h.of_pure

/-- An inlining of objects with distinct names removes the waypoints to be inlined and no others. The
objects that are left draw on none of them. It never fails because of cycles of waypoints. -/
theorem inline_removes_exactly (w : WaypointSelection) (classify : Classifier)
    (objects : List LogicObject) (hn : (objects.map (·.name)).Nodup) :
    (∀ result events, (w.inline classify objects).outcome = (.ok result, events) →
      (∃ o ∈ objects, o.handling = .region ∧ w.accepts o.name = .ok true) →
        ∃ removed : NameSet, (∀ n, n ∈ removed ↔ w.Inlines objects n) ∧
          result.map (fun o => (o.name, o.handling, o.isEvent)) =
            (objects.filter (·.name ∉ removed)).map (fun o => (o.name, o.handling, o.isEvent)) ∧
          ∀ o ∈ result, ∀ c ∈ o.logic, ∀ n ∈ removed, ¬c.DrawsFrom n) ∧
    ∀ cycles events, (w.inline classify objects).outcome = (.error (.cyclic cycles), events) →
      ∃ m, classify m = .error (.cyclic cycles) := by
  constructor
  · rintro result events hresult ⟨o, ho, hchosen⟩
    have hgives : (w.inline classify objects).Gives (.ok result) := by
      have h := gives_outcome (w.inline classify objects)
      rwa [hresult] at h
    rcases WaypointSelection.inline_cases hn hgives with ⟨-, hnone⟩ | ⟨order, solved, hordered, hsol, hall⟩
    · exact absurd hchosen (hnone o ho)
    have hmem : ∀ n, n ∈ NameSet.ofList order ↔ w.Inlines objects n := fun n => by
      rw [NameSet.mem_ofList, hordered.mem]
    refine ⟨.ofList order, hmem, ?_, fun o' ho' c hc n hn hdraws => ?_⟩
    · have hfilter : (objects.filter fun o => !Entries.has solved o.name) =
          objects.filter (·.name ∉ NameSet.ofList order) := by
        refine List.filter_congr fun o _ => ?_
        rw [Bool.eq_iff_iff, Bool.not_eq_true', ← Bool.not_eq_true, Entries.has_iff, hsol.keys]
        simp
      rw [← hfilter, ← List.forall₂_eq_eq_eq, List.forall₂_map_left_iff, List.forall₂_map_right_iff]
      refine List.Forall₂.flip (hall.imp fun o o' hinlined => ?_)
      rw [flip, hinlined.name, hinlined.handling, hinlined.isEvent]
    · obtain ⟨o, -, hinlined⟩ := exists_left_of_forall₂ hall ho'
      exact hinlined.free hordered hsol hc hdraws ((hmem n).1 hn)
  · intro cycles events hfault
    have hgives : (w.inline classify objects).Gives (.error (.cyclic cycles)) := by
      have h := gives_outcome (w.inline classify objects)
      rwa [hfault] at h
    exact WaypointSelection.exists_fault_of_inline hn hgives ⟨cycles, rfl⟩

/-- The selection of the waypoints of any name. -/
def anyWaypoint : WaypointSelection where
  patterns := [.repeated (.one { negated := true, items := [.range 10 10] }) 0 none true]

/-- A pond that a rod gives access to, a ring of two caves, and the fish in the pond. -/
def pondObjects : List LogicObject :=
  [{ name := "Pond",
      logic := [{ conditions := {("Rod" : Name)}, modifiers := ["$CAST"] }, { provider := some "Cave" }] },
    { name := "Cave", logic := [{ provider := some "Hollow" }] },
    { name := "Hollow", logic := [{ provider := some "Cave" }] },
    { name := "Fish", logic := [{ provider := some "Pond" }], handling := .location }]

/-- The pond is removed, and the caves stay. -/
def pondResult : List LogicObject :=
  [{ name := "Cave", logic := [{ provider := some "Hollow" }] },
    { name := "Hollow", logic := [{ provider := some "Cave" }] },
    { name := "Fish",
      logic := [{ conditions := {("Rod" : Name)}, modifiers := ["$CAST"] }, { provider := some "Cave" }],
      handling := .location }]

/-- Casting the rod helps. -/
def castHelps : Classifier := fun m => .ok (if m = "$CAST" then .beneficial else .neutral)

theorem inline_pondObjects : ((anyWaypoint.inline castHelps pondObjects).outcome).1 = .ok pondResult := by
  decide +kernel

theorem inline_removes_pond :
    ∃ removed : NameSet, (∀ n, n ∈ removed ↔ anyWaypoint.Inlines pondObjects n) ∧
      pondResult.map (fun o => (o.name, o.handling, o.isEvent)) =
        (pondObjects.filter (·.name ∉ removed)).map (fun o => (o.name, o.handling, o.isEvent)) := by
  have h := inline_removes_exactly anyWaypoint castHelps pondObjects (by decide)
  obtain ⟨removed, hremoved, hmap, -⟩ := h.1 _ _ (Prod.ext inline_pondObjects rfl)
    ⟨_, List.mem_cons_self, rfl, by decide +kernel⟩
  exact ⟨removed, hremoved, hmap⟩

end RegionLogic
