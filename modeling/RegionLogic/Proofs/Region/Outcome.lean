import RegionLogic.Region.Graph

/-!
# How operations on a graph end

The outcome of an operation is computed step by step. An operation that is repeated for the members of
a list is followed by induction on the list.

## Main results

* `outcome_bind`, `bind_preserves`: one operation after another
* `outcome_forM`, `outcome_mapM`: operations that succeed for every member of a list
* `outcome_forM_prefix`, `outcome_forM_eq_ok_iff`: operations of which one may fail
-/

namespace RegionLogic.Building

variable {α β : Type} {m : Building α} {k : α → Building β} {s t : Session}

theorem outcome_bind :
    outcome (m >>= k) s =
      match outcome m s with
      | (.ok a, t) => outcome (k a) t
      | (.error f, t) => (.error f, t) := by
  have h : outcome (m >>= k) s =
      StateT.run (ExceptT.bindCont k (outcome m s).1) (outcome m s).2 := rfl
  rw [h]
  rcases outcome m s with ⟨_ | _, _⟩ <;> rfl

theorem outcome_bind_of_ok {a : α} (h : outcome m s = (.ok a, t)) :
    outcome (m >>= k) s = outcome (k a) t := by
  rw [outcome_bind, h]

theorem outcome_bind_of_error {f : Fault} (h : outcome m s = (.error f, t)) :
    outcome (m >>= k) s = (.error f, t) := by
  rw [outcome_bind, h]

/-- Two operations succeed together if the first one does, and the second one after it. -/
theorem outcome_bind_eq_ok {b : β} {u : Session} :
    outcome (m >>= k) s = (.ok b, u) ↔
      ∃ a t, outcome m s = (.ok a, t) ∧ outcome (k a) t = (.ok b, u) := by
  rw [outcome_bind]
  rcases outcome m s with ⟨_ | a, t⟩
  · constructor
    · rintro ⟨⟩
    · rintro ⟨_, _, ⟨⟩, _⟩
  · constructor
    · intro h
      exact ⟨a, t, rfl, h⟩
    · rintro ⟨_, _, ⟨⟩, h⟩
      exact h

/-- What an operation and the ones that may follow it preserve both together preserve. -/
theorem bind_preserves {I : RegionGraph → Prop} (hm : I (outcome m s).2.graph)
    (hk : ∀ a t, I t.graph → I (outcome (k a) t).2.graph) :
    I (outcome (m >>= k) s).2.graph := by
  rw [outcome_bind]
  rcases ho : outcome m s with ⟨f | a, t⟩ <;> rw [ho] at hm
  · exact hm
  · exact hk a t hm

@[simp] theorem outcome_graph_bind (k : RegionGraph → Building β) :
    outcome (graph >>= k) s = outcome (k s.graph) s := rfl

@[simp] theorem outcome_change (f : RegionGraph → RegionGraph) :
    outcome (change f) s = (.ok (), { s with graph := f s.graph }) := rfl

@[simp] theorem outcome_change_bind (f : RegionGraph → RegionGraph) (k : Unit → Building β) :
    outcome (change f >>= k) s = outcome (k ()) { s with graph := f s.graph } := rfl

theorem outcome_log (level : Level) (message : String) :
    outcome (log level message) s =
      (.ok (), { s with events := s.events ++ [⟨level, .builder, message⟩] }) := rfl

theorem outcome_log_bind (level : Level) (message : String) (k : Unit → Building β) :
    outcome (log level message >>= k) s =
      outcome (k ()) { s with events := s.events ++ [⟨level, .builder, message⟩] } := rfl

@[simp] theorem outcome_except_bind_ok (a : α) (k : α → Building β) :
    outcome ((liftM (Except.ok a : Except Fault α) : Building α) >>= k) s = outcome (k a) s := rfl

theorem outcome_region {n : Name} {r : Region} (h : s.graph.region? n = some r) :
    outcome (region n) s = (.ok r, s) := by
  rw [region, outcome_graph_bind, h]
  rfl

theorem outcome_region_bind {n : Name} {r : Region} (h : s.graph.region? n = some r)
    (k : Region → Building β) : outcome (region n >>= k) s = outcome (k r) s :=
  outcome_bind_of_ok (outcome_region h)

/-! ## Operations for every member of a list -/

/-- An operation that changes the graph by `step` for every member of a list, as long as the graph
satisfies `P`. -/
theorem outcome_forM {f : α → Building Unit} {step : RegionGraph → α → RegionGraph}
    {P : RegionGraph → Prop} {l : List α}
    (h : ∀ a ∈ l, ∀ s : Session, P s.graph →
      outcome (f a) s = (.ok (), { s with graph := step s.graph a }) ∧ P (step s.graph a))
    {s : Session} (hs : P s.graph) :
    outcome (l.forM f) s = (.ok (), { s with graph := l.foldl step s.graph }) := by
  induction l generalizing s with
  | nil => rfl
  | cons a l ih =>
    obtain ⟨ha, hp⟩ := h a (by simp) s hs
    refine (outcome_bind_of_ok (k := fun _ => l.forM f) ha).trans ?_
    exact ih (fun b hb => h b (List.mem_cons_of_mem a hb)) (s := { s with graph := step s.graph a }) hp

/-- An operation that reads a value for every member of a list. -/
theorem outcome_mapM {f : α → Building β} {v : α → β} {l : List α} {s : Session}
    (h : ∀ a ∈ l, outcome (f a) s = (.ok (v a), s)) :
    outcome (l.mapM f) s = (.ok (l.map v), s) := by
  induction l with
  | nil => rfl
  | cons a l ih =>
    rw [List.mapM_cons, outcome_bind_of_ok (h a (by simp)),
      outcome_bind_of_ok (ih fun b hb => h b (List.mem_cons_of_mem a hb))]
    rfl

/-- An operation that for every member of a list either changes the graph by `step` or fails and leaves it
as it is: the graph is left as far as it has been changed. -/
theorem outcome_forM_prefix {f : α → Building Unit} {step : RegionGraph → α → RegionGraph}
    {ok : α → Prop} {bad : Fault → Prop} {l : List α}
    (h : ∀ a ∈ l, ∀ s : Session,
      outcome (f a) s = (.ok (), { s with graph := step s.graph a }) ∧ ok a ∨
        ∃ fault, outcome (f a) s = (.error fault, s) ∧ bad fault) (s : Session) :
    outcome (l.forM f) s = (.ok (), { s with graph := l.foldl step s.graph }) ∧ (∀ a ∈ l, ok a) ∨
      ∃ l' fault, l' <+: l ∧
        outcome (l.forM f) s = (.error fault, { s with graph := l'.foldl step s.graph }) ∧ bad fault := by
  induction l generalizing s with
  | nil => exact Or.inl ⟨rfl, by simp⟩
  | cons a l ih =>
    rcases h a (by simp) s with ⟨ha, hok⟩ | ⟨fault, ha, hbad⟩
    · have hrest := outcome_bind_of_ok (k := fun _ => l.forM f) ha
      rcases ih (fun b hb => h b (List.mem_cons_of_mem a hb)) { s with graph := step s.graph a } with
        ⟨hl, hall⟩ | ⟨l', fault, hl', hl, hbad⟩
      · exact Or.inl ⟨hrest.trans hl, List.forall_mem_cons.2 ⟨hok, hall⟩⟩
      · exact Or.inr ⟨a :: l', fault, List.cons_prefix_cons.2 ⟨rfl, hl'⟩, hrest.trans hl, hbad⟩
    · exact Or.inr ⟨[], fault, List.nil_prefix,
        outcome_bind_of_error (k := fun _ => l.forM f) ha, hbad⟩

/-- Operations for the members of a list succeed if each of them does, where what has been done before does
not matter. -/
theorem outcome_forM_eq_ok_iff {f : α → Building Unit} {ok : α → Prop} {l : List α}
    (h : ∀ a ∈ l, ∀ s, (outcome (f a) s).1 = .ok () ↔ ok a) :
    (outcome (l.forM f) s).1 = .ok () ↔ ∀ a ∈ l, ok a := by
  induction l generalizing s with
  | nil => exact iff_of_true rfl (by simp)
  | cons a l ih =>
    have ha := h a (by simp) s
    have hrest := fun t => ih (fun b hb => h b (List.mem_cons_of_mem a hb)) (s := t)
    show (outcome (f a >>= fun _ => l.forM f) s).1 = .ok () ↔ _
    rw [outcome_bind, List.forall_mem_cons, ← ha]
    rcases outcome (f a) s with ⟨_ | _, t⟩
    · exact iff_of_false (by rintro ⟨⟩) fun hall => by cases hall.1
    · exact (hrest t).trans (and_iff_right rfl).symm

/-- Operations for the members of a list fail where one of them does. -/
theorem exists_of_outcome_forM_error {f : α → Building Unit} {l : List α} {fault : Fault}
    (h : (outcome (l.forM f) s).1 = .error fault) : ∃ a ∈ l, ∃ t, (outcome (f a) t).1 = .error fault := by
  induction l generalizing s with
  | nil => cases h
  | cons a l ih =>
    have h : (outcome (f a >>= fun _ => l.forM f) s).1 = .error fault := h
    rw [outcome_bind] at h
    rcases ho : outcome (f a) s with ⟨fault' | _, t⟩
    · rw [ho] at h
      exact ⟨a, by simp, s, by rw [ho]; exact h⟩
    · rw [ho] at h
      obtain ⟨b, hb, u, hu⟩ := ih h
      exact ⟨b, List.mem_cons_of_mem a hb, u, hu⟩

/-- Computations that may fail and do not touch the graph. -/
theorem outcome_forM_except (f : α → Except Fault Unit) (l : List α) (s : Session) :
    outcome (l.forM fun a => (liftM (f a) : Building Unit)) s = (l.forM f, s) := by
  induction l with
  | nil => rfl
  | cons a l ih =>
    show outcome (liftM (f a) >>= fun _ => l.forM fun a => (liftM (f a) : Building Unit)) s =
      (f a >>= fun _ => l.forM f, s)
    cases f a with
    | error fault => rfl
    | ok _ => exact (outcome_except_bind_ok ..).trans ih

theorem forM_map {γ : Type} (l : List α) (k : α → γ) (f : γ → Building Unit) :
    (l.map k).forM f = l.forM fun a => f (k a) :=
  List.forM_map (m := Building)

/-- Operations for the members of lists that are repeated for the members of a list. -/
theorem forM_flatMap {γ : Type} (l : List α) (k : α → List γ) (f : γ → Building Unit) :
    (l.flatMap k).forM f = l.forM fun a => (k a).forM f := by
  induction l with
  | nil => rfl
  | cons a l ih => exact List.forM_append.trans (congrArg _ (funext fun _ => ih))

end RegionLogic.Building
