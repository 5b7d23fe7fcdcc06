import RegionLogic.Proofs.Access.Improvement

/-!
# What can be reached

A player begins in the start region and takes branches of exits. What is placed in a region can be obtained
there in a state that opens it. Two graphs give the same access if the same can be obtained and no state is
reached in the second one that is not reached in the first one, or missed for nothing better.

## Main definitions

* `RegionGraph.Reaches`: a region is reached in a state
* `RegionGraph.Covers`: a region is reached in a state that is at least as good
* `RegionGraph.Obtainable`: a location or transition can be obtained
* `SameAccess`: a graph gives the access that another one gives

## Main results

* `RegionGraph.Covers.step`: a branch that can be taken leads on
* `SameAccess.trans`: changes one after the other
-/

namespace RegionLogic

universe u

variable {σ : Type u} {S : Supply} {E : Effects σ} {start s t : σ} {g g' g'' : RegionGraph}
  {p r x : Name} {b : Branch} {kind : Placed} {l : Site}

/-- Nothing is asked for the location or transition, or a branch of it is satisfied. -/
def Site.Open (S : Supply) (E : Effects σ) (s : σ) (l : Site) : Prop :=
  l.logic = [] ∨ ∃ b ∈ l.logic, b.Satisfied S E s

namespace RegionGraph

/-- A region is reached in a state: the start region in the state `start`, and whatever a branch of an exit
leads to from there. -/
inductive Reaches (S : Supply) (E : Effects σ) (start : σ) (g : RegionGraph) : Name → σ → Prop
  | start : Reaches S E start g startRegion start
  | step {p r : Name} {b : Branch} {s t : σ} (h : Reaches S E start g p s) (hw : g.Way p b r)
    (ht : b.Takes S E s t) : Reaches S E start g r t

/-- A location or transition is placed where it is reached in a state that opens it. -/
def Obtainable (S : Supply) (E : Effects σ) (start : σ) (g : RegionGraph) (kind : Placed) (x : Name) :
    Prop :=
  ∃ p s l, x ∈ g.placedIn kind p ∧ g.Reaches S E start p s ∧
    Entries.find? (g.sites kind) x = some l ∧ l.Open S E s

/-- A region is reached in a state that is at least as good as `s`. -/
def Covers [LE σ] (S : Supply) (E : Effects σ) (start : σ) (g : RegionGraph) (r : Name) (s : σ) : Prop :=
  ∃ t, s ≤ t ∧ g.Reaches S E start r t

theorem Reaches.mono (hways : ∀ {p b r}, g.Way p b r → g'.Way p b r) (h : g.Reaches S E start r s) :
    g'.Reaches S E start r s := by
  induction h with
  | start => exact .start
  | step _ hw ht ih => exact ih.step (hways hw) ht

end RegionGraph

/-- The graph `g'` gives the access that `g` gives. -/
structure SameAccess [LE σ] (S : Supply) (E : Effects σ) (start : σ) (g g' : RegionGraph) : Prop where
  /-- No region is new. -/
  names : g'.names ⊆ g.names
  /-- A region that is left is reached in states at least as good as before. -/
  covers : ∀ {r s}, r ∈ g'.names → g.Reaches S E start r s → g'.Covers S E start r s
  /-- No region is reached in a state in which it was not reached before. -/
  reaches : ∀ {r s}, g'.Reaches S E start r s → g.Reaches S E start r s
  /-- The same can be obtained. -/
  obtainable : ∀ kind x, g'.Obtainable S E start kind x ↔ g.Obtainable S E start kind x

variable [Preorder σ]

theorem SameAccess.refl (g : RegionGraph) : SameAccess S E start g g where
  names := List.Subset.refl _
  covers _ h := ⟨_, le_rfl, h⟩
  reaches h := h
  obtainable _ _ := Iff.rfl

theorem SameAccess.trans (h : SameAccess S E start g g') (h' : SameAccess S E start g' g'') :
    SameAccess S E start g g'' where
  names _ hr := h.names (h'.names hr)
  covers {r s} hr hreach := by
    obtain ⟨t, hst, ht⟩ := h.covers (h'.names hr) hreach
    obtain ⟨u, htu, hu⟩ := h'.covers hr ht
    exact ⟨u, hst.trans htu, hu⟩
  reaches hreach := h.reaches (h'.reaches hreach)
  obtainable kind x := (h'.obtainable kind x).trans (h.obtainable kind x)

variable {classify : Classifier}

theorem Site.Open.mono (hE : E.Respects classify) (h : l.Open S E s) (hst : s ≤ t) : l.Open S E t := by
  rcases h with hnil | ⟨b, hb, h⟩
  · exact Or.inl hnil
  · exact Or.inr ⟨b, hb, hE.satisfied_mono hst h⟩

namespace RegionGraph

theorem Reaches.covers (h : g.Reaches S E start r s) : g.Covers S E start r s := ⟨s, le_rfl, h⟩

theorem Covers.of_le (h : g.Covers S E start r t) (hst : s ≤ t) : g.Covers S E start r s := by
  obtain ⟨u, htu, hu⟩ := h
  exact ⟨u, hst.trans htu, hu⟩

/-- A branch that can be taken can be taken in a better state as well. -/
theorem Covers.step (hE : E.Respects classify) (h : g.Covers S E start p s) (hw : g.Way p b r)
    (ht : b.Takes S E s t) : g.Covers S E start r t := by
  obtain ⟨s', hs, hreach⟩ := h
  obtain ⟨t', hle, ht'⟩ := hE.takes_mono hs ht
  exact ⟨t', hle, hreach.step hw ht'⟩

theorem Covers.obtainable (hE : E.Respects classify) (h : g.Covers S E start p s)
    (hx : x ∈ g.placedIn kind p) (hl : Entries.find? (g.sites kind) x = some l)
    (hopen : l.Open S E s) : g.Obtainable S E start kind x := by
  obtain ⟨t, hst, ht⟩ := h
  exact ⟨p, t, l, hx, ht, hl, hopen.mono hE hst⟩

end RegionGraph

end RegionLogic
