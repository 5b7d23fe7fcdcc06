import Mathlib.Data.List.Induction
import RegionLogic.Proofs.Waypoint.Inverse

/-!
# Sequences of operations on a waypoint graph

A graph is made from the empty one by updates and inversions. After any of them the two sides of the graph
agree, and every name refers to what its latest update says. The index of roots remembers more than the edges
do: a name that anything has referred to since the last inversion is no root, even if nothing refers to it
any more.

## Main definitions

* `WaypointGraph.Operation`, `WaypointGraph.after`: operations, and the graph that they make
* `Operation.Keeps`: operations that leave what a name refers to
* `WaypointGraph.Unreferred`: nothing has referred to a name since the last inversion
* `WaypointGraph.TakesNothing`: no update since then has taken a reference away

## Main results

* `WaypointGraph.coherent_after`, `WaypointGraph.rooted_after`: what every operation preserves
* `WaypointGraph.edges_after`: the edges after any operations, and those of the inverse
* `WaypointGraph.roots_after`: the roots after any operations
-/

namespace RegionLogic.WaypointGraph

/-- An operation on a waypoint graph. -/
inductive Operation where
  /-- Replaces what a name refers to. -/
  | update (name : Name) (references : List Name)
  /-- Turns every edge round. -/
  | inverse
  deriving DecidableEq

/-- The graph after an operation. -/
def apply (g : WaypointGraph) : Operation → WaypointGraph
  | .update name references => g.update name references
  | .inverse => g.inverse

/-- The graph that operations make of the empty one. -/
def after (ops : List Operation) : WaypointGraph := ops.foldl apply empty

variable {ops before since : List Operation} {op : Operation} {a b n : Name} {l : List Name}

theorem after_concat (ops : List Operation) (op : Operation) : after (ops ++ [op]) = (after ops).apply op :=
  List.foldl_concat ..

/-! ## What every operation preserves -/

theorem Coherent.apply {g : WaypointGraph} (hg : g.Coherent) (op : Operation) : (g.apply op).Coherent := by
  cases op with
  | update n l => exact hg.update n l
  | inverse => exact coherent_inverse g

theorem Rooted.apply {g : WaypointGraph} (hr : g.Rooted) (hg : g.Coherent) (op : Operation) :
    (g.apply op).Rooted := by
  cases op with
  | update n l => exact hr.update hg n l
  | inverse => exact hg.rootsExact_inverse.2

theorem coherent_after (ops : List Operation) : (after ops).Coherent := by
  induction ops using List.reverseRecOn with
  | nil => exact coherent_empty
  | append_singleton ops op ih =>
    rw [after_concat]
    exact ih.apply op

theorem rooted_after (ops : List Operation) : (after ops).Rooted := by
  induction ops using List.reverseRecOn with
  | nil => exact rooted_empty
  | append_singleton ops op ih =>
    rw [after_concat]
    exact ih.apply (coherent_after ops) op

/-- The names are those that updates mention. -/
theorem mem_names_after :
    a ∈ (after ops).names ↔ ∃ n l, .update n l ∈ ops ∧ (a = n ∨ a ∈ l) := by
  induction ops using List.reverseRecOn with
  | nil => simp [after, names, empty]
  | append_singleton ops op ih =>
    rw [after_concat]
    cases op with
    | update n l =>
      rw [apply, mem_names_update, ih]
      constructor
      · rintro (⟨n', l', hop, ha⟩ | ha)
        · exact ⟨n', l', List.mem_append_left _ hop, ha⟩
        · exact ⟨n, l, List.mem_concat_self, ha⟩
      · rintro ⟨n', l', hop, ha⟩
        rcases List.mem_append.1 hop with hop | hop
        · exact Or.inl ⟨n', l', hop, ha⟩
        · obtain ⟨rfl, rfl⟩ := Operation.update.inj (List.mem_singleton.1 hop)
          exact Or.inr ha
    | inverse =>
      rw [apply, (coherent_after ops).mem_names_inverse, ih]
      simp

/-! ## What a name refers to -/

/-- The operation leaves what `n` refers to as it is. -/
def Operation.Keeps (n : Name) : Operation → Prop
  | .update n' _ => n ≠ n'
  | .inverse => False

theorem references_after_of_keeps (h : ∀ op ∈ since, op.Keeps n) :
    (after (before ++ since)).references n = (after before).references n := by
  induction since using List.reverseRecOn with
  | nil => rw [List.append_nil]
  | append_singleton since op ih =>
    rw [← List.append_assoc, after_concat]
    have hop : op.Keeps n := h op List.mem_concat_self
    cases op with
    | update n' l =>
      rw [apply, (coherent_after _).references_update, if_neg hop]
      exact ih fun op' hop' => h op' (List.mem_append_left _ hop')
    | inverse => exact hop.elim

/-- A name refers to what its latest update says. -/
theorem references_after_of_latest (h : ∀ op ∈ since, op.Keeps n) :
    (after (before ++ .update n l :: since)).references n = l.eraseDups := by
  have hsplit : before ++ .update n l :: since = (before ++ [.update n l]) ++ since := by simp
  rw [hsplit, references_after_of_keeps h, after_concat, apply, (coherent_after before).references_update,
    if_pos rfl, foldl_addOnce_nil]

/-- After any operations the two sides of the graph agree: every edge is stored at both of its ends, once,
and both are names. The names are those that updates mention. A name refers to what its latest update says,
and to nothing without one, as long as no inversion comes after it. The inverse of the graph has the same
names and the edges turned round, its roots are the names that refer to nothing, and its own inverse has the
names and the edges of the graph. -/
theorem edges_after (ops : List Operation) :
    (after ops).Coherent ∧
    (∀ a b, b ∈ (after ops).references a → a ∈ (after ops).names ∧ b ∈ (after ops).names) ∧
    (∀ a, a ∈ (after ops).names ↔ ∃ n l, .update n l ∈ ops ∧ (a = n ∨ a ∈ l)) ∧
    (∀ before n l since, ops = before ++ .update n l :: since → (∀ op ∈ since, op.Keeps n) →
      (after ops).references n = l.eraseDups) ∧
    (∀ n, (∀ op ∈ ops, op.Keeps n) → (after ops).references n = []) ∧
    Reverses (after ops) (after ops).inverse ∧
    (∀ a, a ∈ (after ops).inverse.inverse.names ↔ a ∈ (after ops).names) ∧
    ∀ a b, b ∈ (after ops).inverse.inverse.references a ↔ b ∈ (after ops).references a := by
  have hg := coherent_after ops
  have hinverse := hg.reverses_inverse
  have htwice := (coherent_inverse (after ops)).reverses_inverse
  refine ⟨hg, fun a b hb => ⟨mem_names_of_mem_references hb, hg.mem_names hb⟩, fun a => mem_names_after, ?_,
    ?_, hinverse, ?_, ?_⟩
  · rintro before n l since rfl hsince
    exact references_after_of_latest hsince
  · intro n hkeeps
    have hstart : (after ([] ++ ops)).references n = (after []).references n :=
      references_after_of_keeps hkeeps
    exact hstart
  · intro a
    rw [htwice.names, hinverse.names]
  · intro a b
    rw [htwice.edges, hinverse.edges]

/-- A name that is redefined, one that is defined before that, and one that never is. -/
theorem edges_after_redefinition :
    let ops : List Operation := [.update "A" ["B", "A", "B"], .update "C" ["A"], .update "A" ["C"]]
    (after ops).references "A" = ["C"] ∧ (after ops).references "C" = ["A"] ∧
      (after ops).references "B" = [] ∧ ("C" : Name) ∈ (after ops).names ∧
      (after ops).inverse.references "A" = ["C"] := by
  intro ops
  obtain ⟨-, -, -, hlatest, hnone, -⟩ := edges_after ops
  refine ⟨hlatest [.update "A" ["B", "A", "B"], .update "C" ["A"]] "A" ["C"] [] rfl (by simp), ?_, ?_, ?_, ?_⟩
  · refine hlatest [.update "A" ["B", "A", "B"]] "C" ["A"] [.update "A" ["C"]] rfl ?_
    simp [Operation.Keeps]
  · apply hnone
    simp [ops, Operation.Keeps]
  · decide +kernel
  · decide +kernel

/-! ## Roots -/

/-- Nothing has referred to `a` at any time since the last inversion. -/
def Unreferred (ops : List Operation) (a : Name) : Prop :=
  ∀ before since, ops = before ++ since → .inverse ∉ since → (after before).referrers a = []

/-- Where a sequence with one more operation can be split: at its end, or before the last operation. -/
theorem concat_eq_append_iff :
    ops ++ [op] = before ++ since ↔
      since = [] ∧ before = ops ++ [op] ∨ ∃ since', since = since' ++ [op] ∧ ops = before ++ since' := by
  constructor
  · intro h
    rcases List.eq_nil_or_concat since with rfl | ⟨since, op', rfl⟩
    · exact Or.inl ⟨rfl, by rw [h, List.append_nil]⟩
    · rw [List.concat_eq_append, ← List.append_assoc] at h
      obtain ⟨rfl, hop⟩ := List.append_inj' h rfl
      exact Or.inr ⟨since, by rw [List.concat_eq_append, hop], rfl⟩
  · rintro (⟨rfl, rfl⟩ | ⟨since', rfl, rfl⟩)
    · rw [List.append_nil]
    · rw [List.append_assoc]

theorem unreferred_concat_inverse :
    Unreferred (ops ++ [.inverse]) a ↔ (after (ops ++ [.inverse])).referrers a = [] := by
  constructor
  · intro h
    exact h _ [] (List.append_nil _).symm List.not_mem_nil
  · intro h before since hsplit hsince
    rcases concat_eq_append_iff.1 hsplit with ⟨-, rfl⟩ | ⟨since', rfl, -⟩
    · exact h
    · -- what comes after the last inversion does not end with one
      exact absurd List.mem_concat_self hsince

theorem unreferred_concat_update :
    Unreferred (ops ++ [.update n l]) a ↔
      (after (ops ++ [.update n l])).referrers a = [] ∧ Unreferred ops a := by
  constructor
  · intro h
    refine ⟨h _ [] (List.append_nil _).symm List.not_mem_nil, fun before since hsplit hsince => ?_⟩
    refine h before (since ++ [.update n l]) (by rw [hsplit, List.append_assoc]) ?_
    simpa using hsince
  · rintro ⟨hnow, hbefore⟩ before since hsplit hsince
    rcases concat_eq_append_iff.1 hsplit with ⟨-, rfl⟩ | ⟨since', rfl, rfl⟩
    · exact hnow
    · exact hbefore before since' rfl fun hinverse => hsince (List.mem_append_left _ hinverse)

/-- Nothing refers to a name before it is mentioned. -/
theorem unreferred_of_not_mem (h : a ∉ (after ops).names) : Unreferred ops a := by
  rintro before since rfl -
  refine referrers_of_not_mem fun ha => h ?_
  obtain ⟨n, l, hop, ha⟩ := mem_names_after.1 ha
  exact mem_names_after.2 ⟨n, l, List.mem_append_left _ hop, ha⟩

theorem mem_roots_after : a ∈ (after ops).roots ↔ a ∈ (after ops).names ∧ Unreferred ops a := by
  induction ops using List.reverseRecOn with
  | nil => exact iff_of_false List.not_mem_nil fun h => List.not_mem_nil h.1
  | append_singleton ops op ih =>
    cases op with
    | update n l =>
      rw [unreferred_concat_update, after_concat, apply,
        (rooted_after ops).mem_roots_update_iff (coherent_after ops)]
      have hbefore : (a ∈ (after ops).names → a ∈ (after ops).roots) ↔ Unreferred ops a := by
        constructor
        · intro h
          -- a name that is new with this update has had no referrers before
          by_cases ha : a ∈ (after ops).names
          · exact (ih.1 (h ha)).2
          · exact unreferred_of_not_mem ha
        · intro h ha
          exact ih.2 ⟨ha, h⟩
      rw [hbefore]
    | inverse =>
      -- the inverse is made anew, with all roots
      rw [unreferred_concat_inverse, after_concat]
      exact (coherent_after ops).rootsExact_inverse.1 a

/-- Since the last inversion no update has taken a reference away: each updated name referred to nothing. -/
def TakesNothing (ops : List Operation) : Prop :=
  ∀ before n l since, ops = before ++ .update n l :: since → .inverse ∉ since →
    (after before).references n = []

theorem rootsExact_after (h : TakesNothing ops) : (after ops).RootsExact := by
  induction ops using List.reverseRecOn with
  | nil => exact rootsExact_empty
  | append_singleton ops op ih =>
    rw [after_concat]
    cases op with
    | update n l =>
      refine (ih ?_).update (rooted_after ops) (coherent_after ops) (h ops n l [] rfl List.not_mem_nil)
      rintro before n' l' since rfl hsince
      refine h before n' l' (since ++ [.update n l]) (by simp) ?_
      simpa using hsince
    | inverse => exact (coherent_after ops).rootsExact_inverse.1

/-- The roots are listed once, and nothing refers to them. They are the names that nothing has referred to
since the last inversion. These are all names that nothing refers to as long as no update has taken a
reference away. -/
theorem roots_after (ops : List Operation) :
    (after ops).roots.Nodup ∧
    (∀ a ∈ (after ops).roots, (after ops).referrers a = []) ∧
    (∀ a, a ∈ (after ops).roots ↔ a ∈ (after ops).names ∧ Unreferred ops a) ∧
    (TakesNothing ops → (after ops).RootsExact) :=
  ⟨(rooted_after ops).nodup, fun _ => (rooted_after ops).unreferenced, fun _ => mem_roots_after,
    rootsExact_after⟩

/-- After an inversion the name that referred to another one is no root, and the other one is. -/
theorem roots_after_inversion :
    let ops : List Operation := [.update "A" ["B"], .inverse]
    TakesNothing ops ∧ ("B" : Name) ∈ (after ops).roots ∧ ("A" : Name) ∉ (after ops).roots := by
  intro ops
  have htakes : TakesNothing ops := by
    intro before n l since hsplit hsince
    -- the only update is the first operation
    rcases before with _ | ⟨_, _ | ⟨_, before⟩⟩
    · rfl
    · simp [ops] at hsplit
    · simp [ops] at hsplit
  have hexact : (after ops).RootsExact := (roots_after ops).2.2.2 htakes
  refine ⟨htakes, (hexact "B").2 (by decide +kernel), fun h => ?_⟩
  exact absurd ((hexact "A").1 h).2 (by decide +kernel)

/-- A name to which the only reference is taken away does not become a root. -/
theorem unreferenced_not_root :
    let g := after [.update "A" ["B"], .update "A" []]
    ("B" : Name) ∈ g.names ∧ g.referrers "B" = [] ∧ ("B" : Name) ∉ g.roots := by
  decide +kernel

end RegionLogic.WaypointGraph
