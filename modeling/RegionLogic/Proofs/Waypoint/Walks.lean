import Mathlib.Data.List.Chain
import Mathlib.Data.List.Sort
import RegionLogic.Proofs.Waypoint.Operations
import RegionLogic.Waypoint.Walk

/-!
# Walks from the roots

Walks from the roots wait in a queue. Whichever comes next is put to the finished ones or replaced by its
continuations. So its continuations are all taken up before the next walk of the queue, and what a walk becomes
does not depend on the rest of the queue: it is the list of the walks that begin with it and are over. The
queue runs empty, because a walk that is not over has not passed some name before, and every continuation
passes one more.

## Main definitions

* `WaypointGraph.FullWalk`: a walk from a root that is not continued
* `WaypointGraph.Precedes`: the order in which walks are found
* `WaypointGraph.Enumerates`: a list of all full walks in that order

## Main results

* `WaypointGraph.expand_eq`: what becomes of a queue
* `WaypointGraph.mem_visited_iff`, `WaypointGraph.mem_walks_iff`: the walks that are found
* `WaypointGraph.Coherent.pairwise_expand`: they are found depth first
* `WaypointGraph.walks_after`: the walks of any graph that operations make
-/

namespace RegionLogic.WaypointGraph

variable {g : WaypointGraph} {v v' w : Walk} {b c : Name}

/-- The names of a walk refer to one another in turn. -/
def Follows (g : WaypointGraph) (w : Walk) : Prop := w.names.IsChain g.Refers

theorem mem_onward : b ∈ g.onward w ↔ ∃ last, w.names.getLast? = some last ∧ g.Refers last b := by
  unfold onward Refers
  cases w.names.getLast? <;> simp

theorem Follows.snoc (h : g.Follows w) (hb : b ∈ g.onward w) : g.Follows (w.snoc b) := by
  obtain ⟨last, hlast, hrefers⟩ := mem_onward.1 hb
  refine List.isChain_append.2 ⟨h, List.IsChain.singleton b, ?_⟩
  rw [hlast]
  rintro _ ⟨⟩ _ ⟨⟩
  exact hrefers

theorem exists_eq_snoc (h : w.names ≠ []) : ∃ (passed : Walk) (last : Name), w = passed.snoc last := by
  refine ⟨⟨w.names.dropLast⟩, w.names.getLast h, ?_⟩
  rw [Walk.snoc, List.dropLast_concat_getLast h]

/-- A walk that has passed no name twice is over if its last name is one of them or refers to nothing. -/
theorem isOver_snoc_iff (h : w.names.Nodup) :
    g.isOver (w.snoc b) ↔ b ∈ w.names ∨ g.references b = [] := by
  have hcycle : ¬(w.snoc b).names.Nodup ↔ b ∈ w.names := by
    rw [Walk.snoc, ← List.concat_eq_append, List.nodup_concat]
    simp [h]
  rw [isOver, onward_snoc, Bool.or_eq_true, List.isEmpty_iff, Walk.isCycle, Bool.not_eq_true',
    decide_eq_false_iff_not, hcycle]

/-! ## What becomes of a walk -/

/-- A queue is worked off walk by walk: each leaves the walks that begin with it and are over, as far as they
have at least two names. -/
theorem expand_eq (finished pending : List Walk) :
    g.expand finished pending =
      finished ++ ((pending.flatMap g.visited).filter g.isOver).filter (1 < ·.names.length) := by
  fun_induction expand g finished pending with
  | case1 finished => simp
  | case2 finished w pending hover ih =>
    simp only [dite_eq_ite] at ih
    have hvisited : (g.visited w).filter g.isOver = [w] := by
      rw [visited, if_pos hover]
      simp [hover]
    rw [ih, List.flatMap_cons, List.filter_append, hvisited, List.filter_append]
    split <;> simp [*]
  | case3 finished w pending hover ih =>
    have hvisited : (g.visited w).filter g.isOver = ((g.extensions w).flatMap g.visited).filter g.isOver := by
      rw [visited_of_not_isOver hover, List.filter_cons_of_neg hover]
    rw [ih, List.flatMap_append, List.flatMap_cons, List.filter_append, ← hvisited, ← List.filter_append]

theorem prefix_of_mem_visited (h : v ∈ g.visited w) : w.names <+: v.names := by
  fun_induction visited g w with
  | case1 w hover => exact List.mem_singleton.1 h ▸ List.prefix_rfl
  | case2 w hover ih =>
    rcases List.mem_cons.1 h with rfl | h
    · exact List.prefix_rfl
    · obtain ⟨b, -, hv⟩ := List.mem_flatMap.1 h
      exact (List.prefix_append _ _).trans (ih b hv)

/-- A walk that passes no name twice before its last one is not over at any earlier place. -/
theorem Follows.not_isOver_before (h : g.Follows v) (hpassed : v.names.dropLast.Nodup) (hne : w.names ≠ [])
    (hbegins : (w.snoc b).names <+: v.names) : ¬g.isOver w ∧ b ∈ g.onward w := by
  obtain ⟨rest, hrest⟩ := hbegins
  obtain ⟨passed, last, rfl⟩ := exists_eq_snoc hne
  have hrefers : g.Refers last b := by
    have hchain : (passed.names ++ [last, b] ++ rest).IsChain g.Refers := by
      rw [Follows, ← hrest] at h
      simpa [Walk.snoc] using h
    exact List.isChain_pair.1 hchain.left_of_append.right_of_append
  have honward : b ∈ g.onward (passed.snoc last) := by rwa [onward_snoc]
  refine ⟨not_isOver_iff.2 ⟨?_, List.ne_nil_of_mem honward⟩, honward⟩
  rw [← hrest, Walk.snoc, List.append_assoc, List.dropLast_append_of_ne_nil (by simp)] at hpassed
  exact hpassed.of_append_left

/-- A walk that begins with `w` is `w`, or goes on after it to a name that `w` refers to. -/
theorem Follows.eq_or_goes_on (h : g.Follows v) (hpassed : v.names.dropLast.Nodup) (hne : w.names ≠ [])
    (hbegins : w.names <+: v.names) :
    v = w ∨ ¬g.isOver w ∧ ∃ b ∈ g.onward w, (w.snoc b).names <+: v.names := by
  obtain ⟨rest, hrest⟩ := hbegins
  rcases rest with _ | ⟨b, rest⟩
  · exact Or.inl (congrArg Walk.mk (by rw [← hrest, List.append_nil]))
  · have hbegins : (w.snoc b).names <+: v.names := ⟨rest, by simpa [Walk.snoc] using hrest⟩
    obtain ⟨hover, hb⟩ := h.not_isOver_before hpassed hne hbegins
    exact Or.inr ⟨hover, b, hb, hbegins⟩

/-- From a walk all walks are taken up that begin with it, follow references and pass no name twice before the
last one. -/
theorem mem_visited_iff (hfollows : g.Follows w) (hpassed : w.names.dropLast.Nodup) (hne : w.names ≠ []) :
    v ∈ g.visited w ↔ w.names <+: v.names ∧ g.Follows v ∧ v.names.dropLast.Nodup := by
  fun_induction visited g w with
  | case1 w hover =>
    rw [List.mem_singleton]
    constructor
    · rintro rfl
      exact ⟨List.prefix_rfl, hfollows, hpassed⟩
    · rintro ⟨hbegins, hv, hpassed'⟩
      exact (hv.eq_or_goes_on hpassed' hne hbegins).resolve_right fun h => h.1 hover
  | case2 w hover ih =>
    have hstep : ∀ {b}, b ∈ g.onward w → (v ∈ g.visited (w.snoc b) ↔
        (w.snoc b).names <+: v.names ∧ g.Follows v ∧ v.names.dropLast.Nodup) := by
      intro b hb
      refine ih b (hfollows.snoc hb) ?_ (by simp [Walk.snoc])
      rw [Walk.snoc, List.dropLast_concat]
      exact (not_isOver_iff.1 hover).1
    rw [List.mem_cons, List.mem_flatMap]
    constructor
    · rintro (rfl | ⟨b, hb, hv⟩)
      · exact ⟨List.prefix_rfl, hfollows, hpassed⟩
      · obtain ⟨hbegins, hrest⟩ := (hstep hb).1 hv
        exact ⟨(List.prefix_append _ _).trans hbegins, hrest⟩
    · rintro ⟨hbegins, hv, hpassed'⟩
      refine (hv.eq_or_goes_on hpassed' hne hbegins).imp_right ?_
      rintro ⟨-, b, hb, hbegins⟩
      exact ⟨b, hb, (hstep hb).2 ⟨hbegins, hv, hpassed'⟩⟩

/-! ## Which walks are found -/

/-- A walk of at least two names that begins at a root, follows references and passes no name twice before its
last name, which is one of those before it or refers to nothing. -/
structure FullWalk (g : WaypointGraph) (w : Walk) : Prop where
  rooted : ∃ root ∈ g.roots, w.names.head? = some root
  follows : g.Follows w
  long : 2 ≤ w.names.length
  passed : w.names.dropLast.Nodup
  ended : ∃ last, w.names.getLast? = some last ∧ (last ∈ w.names.dropLast ∨ g.references last = [])

theorem isOver_iff (hpassed : w.names.dropLast.Nodup) (hne : w.names ≠ []) :
    g.isOver w ↔ ∃ last, w.names.getLast? = some last ∧ (last ∈ w.names.dropLast ∨ g.references last = []) := by
  obtain ⟨passed, last, rfl⟩ := exists_eq_snoc hne
  have hdrop : (passed.snoc last).names.dropLast = passed.names := List.dropLast_concat
  have hlast : (passed.snoc last).names.getLast? = some last := List.getLast?_concat
  rw [hdrop] at hpassed
  rw [isOver_snoc_iff hpassed, hdrop, hlast]
  simp

/-- The walks that are found are the full ones. -/
theorem mem_walks_iff : w ∈ g.walks ↔ g.FullWalk w := by
  have hroot : ∀ root, w ∈ g.visited ⟨[root]⟩ ↔
      w.names.head? = some root ∧ g.Follows w ∧ w.names.dropLast.Nodup := by
    intro root
    have hbegins : [root] <+: w.names ↔ w.names.head? = some root := by
      cases w.names with
      | nil => simp
      | cons a l => simp [List.cons_prefix_cons, eq_comm]
    rw [mem_visited_iff (w := ⟨[root]⟩) (List.IsChain.singleton root) List.nodup_nil (List.cons_ne_nil _ _), hbegins]
  rw [walks, List.mem_eraseDups, expand_eq, List.nil_append, List.mem_filter, List.mem_filter, List.flatMap_map,
    List.mem_flatMap, decide_eq_true_eq]
  simp only [hroot]
  constructor
  · rintro ⟨⟨⟨root, hmem, hhead, hfollows, hpassed⟩, hover⟩, hlong⟩
    have hne : w.names ≠ [] := List.ne_nil_of_length_pos (Nat.lt_of_succ_lt hlong)
    exact ⟨⟨root, hmem, hhead⟩, hfollows, hlong, hpassed, (isOver_iff hpassed hne).1 hover⟩
  · intro h
    obtain ⟨root, hmem, hhead⟩ := h.rooted
    have hne : w.names ≠ [] := List.ne_nil_of_length_pos (Nat.lt_of_succ_lt h.long)
    exact ⟨⟨⟨root, hmem, hhead, h.follows, h.passed⟩, (isOver_iff h.passed hne).2 h.ended⟩, h.long⟩

/-! ## The order in which they are found -/

/-- The names by which a walk can be continued. A walk without names can begin at any root. -/
def choices (g : WaypointGraph) (w : Walk) : List Name := w.names.getLast?.elim g.roots g.references

theorem choices_of_ne_nil (h : w.names ≠ []) : g.choices w = g.onward w := by
  unfold choices onward
  rw [List.getLast?_eq_some_getLast h]
  rfl

/-- Where two walks part, `v` goes on to the earlier one of the names that they could choose. -/
def Precedes (g : WaypointGraph) (v v' : Walk) : Prop :=
  ∃ w b b', (w.snoc b).names <+: v.names ∧ (w.snoc b').names <+: v'.names ∧
    (g.choices w).idxOf b < (g.choices w).idxOf b'

/-- Of two beginnings of one walk the shorter one goes on along the longer one. -/
theorem prefix_of_length_lt {u : Walk} (hw : (w.snoc b).names <+: v.names) (hu : (u.snoc c).names <+: v.names)
    (h : w.names.length < u.names.length) : (w.snoc b).names <+: u.names := by
  have hu : u.names <+: v.names := (List.prefix_append _ _).trans hu
  refine List.prefix_of_prefix_length_le hw hu ?_
  rw [Walk.snoc, List.length_append]
  exact h

theorem snoc_inj_of_prefixes {u : Walk} (hw : (w.snoc b).names <+: v.names) (hu : (u.snoc c).names <+: v.names)
    (h : w.names.length = u.names.length) : w = u ∧ b = c := by
  have heq : w.names ++ [b] = u.names ++ [c] := by
    refine (List.prefix_of_prefix_length_le hw hu ?_).eq_of_length ?_ <;> simp [Walk.snoc, h]
  obtain ⟨hnames, hlast⟩ := List.append_inj' heq rfl
  exact ⟨congrArg Walk.mk hnames, List.singleton_inj.1 hlast⟩

/-- Two walks part at one place only. -/
theorem not_length_lt_of_parts {u : Walk} {b' c' : Name} (hv : (w.snoc b).names <+: v.names)
    (hv' : (w.snoc b').names <+: v'.names) (hlt : (g.choices w).idxOf b < (g.choices w).idxOf b')
    (hu : (u.snoc c).names <+: v.names) (hu' : (u.snoc c').names <+: v'.names) :
    ¬w.names.length < u.names.length := by
  intro h
  -- the two walks agree up to the end of `u`, which goes on after `w`
  have hbegins := ((prefix_of_length_lt hv hu h).trans (List.prefix_append _ _)).trans hu'
  obtain ⟨-, rfl⟩ := snoc_inj_of_prefixes hbegins hv' rfl
  exact Nat.lt_irrefl _ hlt

theorem Precedes.asymm (h : g.Precedes v v') : ¬g.Precedes v' v := by
  obtain ⟨w, b, b', hv, hv', hlt⟩ := h
  rintro ⟨u, c, c', hu', hu, hlt'⟩
  rcases Nat.lt_trichotomy w.names.length u.names.length with h | h | h
  · exact not_length_lt_of_parts hv hv' hlt hu hu' h
  · obtain ⟨rfl, rfl⟩ := snoc_inj_of_prefixes hv hu h
    obtain ⟨-, rfl⟩ := snoc_inj_of_prefixes hv' hu' rfl
    exact Nat.lt_asymm hlt hlt'
  · exact not_length_lt_of_parts hu' hu hlt' hv' hv h

/-- The names of a list without repetitions are in the order of their places. -/
theorem pairwise_idxOf_lt {l : List Name} (h : l.Nodup) : l.Pairwise fun a b => l.idxOf a < l.idxOf b := by
  rw [List.pairwise_iff_getElem]
  intro i j hi hj hij
  rwa [h.idxOf_getElem, h.idxOf_getElem]

/-- The walks that one after the other choice of a walk leads to are in order if those of each choice are. -/
theorem pairwise_flatMap_choices (hchoices : (g.choices w).Nodup)
    (h : ∀ b ∈ g.choices w, ((g.visited (w.snoc b)).filter g.isOver).Pairwise g.Precedes) :
    (((g.choices w).flatMap fun b => g.visited (w.snoc b)).filter g.isOver).Pairwise g.Precedes := by
  rw [List.filter_flatMap, List.pairwise_flatMap]
  refine ⟨h, (pairwise_idxOf_lt hchoices).imp fun hlt v hv v' hv' => ?_⟩
  have hbegins := prefix_of_mem_visited (List.mem_filter.1 hv).1
  have hbegins' := prefix_of_mem_visited (List.mem_filter.1 hv').1
  exact ⟨w, _, _, hbegins, hbegins', hlt⟩

theorem Coherent.pairwise_visited (hg : g.Coherent) (hne : w.names ≠ []) :
    ((g.visited w).filter g.isOver).Pairwise g.Precedes := by
  fun_induction visited g w with
  | case1 w hover => exact (List.pairwise_singleton _ _).filter _
  | case2 w hover ih =>
    rw [List.filter_cons_of_neg hover, ← choices_of_ne_nil hne]
    refine pairwise_flatMap_choices ?_ fun b _ => ih b (by simp [Walk.snoc])
    unfold choices
    rw [List.getLast?_eq_some_getLast hne]
    exact hg.nodup_references _

/-- The walks from the roots are finished in order. -/
theorem Coherent.pairwise_expand (hg : g.Coherent) (hr : g.Rooted) :
    (g.expand [] (g.roots.map fun root => ⟨[root]⟩)).Pairwise g.Precedes := by
  rw [expand_eq, List.nil_append, List.flatMap_map]
  have hroots := pairwise_flatMap_choices (w := ⟨[]⟩) hr.nodup fun b _ =>
    hg.pairwise_visited (w := ⟨[b]⟩) (List.cons_ne_nil _ _)
  exact hroots.filter _

/-- Walks in order are without repetitions. -/
theorem nodup_of_pairwise_precedes {l : List Walk} (h : l.Pairwise g.Precedes) : l.Nodup :=
  h.imp fun hlt heq => (heq ▸ hlt).asymm (heq ▸ hlt)

/-- Nothing is left out as a duplicate. -/
theorem Coherent.walks_eq (hg : g.Coherent) (hr : g.Rooted) :
    g.walks = g.expand [] (g.roots.map fun root => ⟨[root]⟩) := by
  rw [walks, ← foldl_addOnce_nil]
  exact foldl_addOnce_of_nodup (nodup_of_pairwise_precedes (hg.pairwise_expand hr))

/-! ## All walks -/

/-- The list holds all full walks, each of them once, and the one that comes first where they part stands
first. -/
structure Enumerates (g : WaypointGraph) (l : List Walk) : Prop where
  mem_iff : ∀ w, w ∈ l ↔ g.FullWalk w
  nodup : l.Nodup
  ordered : l.Pairwise g.Precedes

theorem Coherent.enumerates_walks (hg : g.Coherent) (hr : g.Rooted) : g.Enumerates g.walks where
  mem_iff _ := mem_walks_iff
  nodup := by
    rw [hg.walks_eq hr]
    exact nodup_of_pairwise_precedes (hg.pairwise_expand hr)
  ordered := by
    rw [hg.walks_eq hr]
    exact hg.pairwise_expand hr

/-- There is only one such list. -/
theorem Enumerates.eq {l l' : List Walk} (h : g.Enumerates l) (h' : g.Enumerates l') : l = l' := by
  have hperm : l.Perm l' := (List.perm_ext_iff_of_nodup h.nodup h'.nodup).2 fun w => by rw [h.mem_iff, h'.mem_iff]
  exact hperm.eq_of_pairwise (fun _ _ _ _ hab hba => absurd hba hab.asymm) h.ordered h'.ordered

/-- In any graph that operations make, the queue of walks from the roots is worked off and leaves the one list
of all full walks, depth first, in which no walk stands twice. -/
theorem walks_after (ops : List Operation) (l : List Walk) :
    l = (after ops).walks ↔ (after ops).Enumerates l := by
  have hwalks := (coherent_after ops).enumerates_walks (rooted_after ops)
  constructor
  · rintro rfl
    exact hwalks
  · intro h
    exact h.eq hwalks

-- the walks part at the first name that they choose differently; two of them return
example : (after [.update "R" ["A", "B"], .update "A" ["B"], .update "B" ["A", "C"]]).walks =
    [⟨["R", "A", "B", "A"]⟩, ⟨["R", "A", "B", "C"]⟩, ⟨["R", "B", "A", "B"]⟩, ⟨["R", "B", "C"]⟩] := by
  decide +kernel

end RegionLogic.WaypointGraph
