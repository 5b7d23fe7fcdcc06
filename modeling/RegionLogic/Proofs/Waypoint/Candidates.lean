import RegionLogic.Proofs.Fallible
import RegionLogic.Proofs.Pattern.Branches
import RegionLogic.Waypoint.Inlining

/-!
# Which objects may be inlined

Waypoints are chosen by patterns that are meant for whole names. As the anchors are put around a pattern as it
is written, an object may be inlined if its name fits a pattern: where the pattern has several alternatives, all
but the last ask only for how the name begins, and the last one lets a newline stand at the end. Every name that
is matched in full fits. Where no pattern has alternatives, the names of one line that fit are just those.

## Main results

* `isCandidate_iff_fits`: which objects may be inlined
* `pondOrLake_chooses_pondHouse`: a name that is matched in part only
-/

namespace RegionLogic.WaypointSelection

variable {sources : List String} {w : WaypointSelection} {name : String}

/-- Patterns that can be read by themselves make a selection, which accepts the names that fit one of them. -/
theorem accepts_of_read (h : ∀ x ∈ sources, Pattern.Readable x) :
    ∃ w, read sources = .ok w ∧ ∀ name, w.accepts (.text name) = .ok (sources.any (Pattern.fits · name)) := by
  have hanchored : ∀ x ∈ sources, ∃ q, (Pattern.anchored x).mapError Fault.pattern = .ok q ∧
      ∀ name, q.matchesStart name = Pattern.fits x name := by
    intro x hx
    obtain ⟨p, hp⟩ := h x hx
    obtain ⟨q, hq, hfits⟩ := Pattern.matchesStart_of_anchored hp
    exact ⟨q, by rw [hq]; rfl, hfits⟩
  obtain ⟨patterns, hpatterns, hrelated⟩ := exists_ok_of_mapM hanchored
  refine ⟨⟨patterns⟩, bind_eq_ok.2 ⟨patterns, hpatterns, rfl⟩, fun name => ?_⟩
  refine congrArg Except.ok ?_
  clear hpatterns hanchored h
  induction hrelated with
  | nil => rfl
  | cons hfits _ ih => rw [List.any_cons, List.any_cons, hfits, ih]

/-- **Patterns that can be read by themselves** make a selection. An object may be inlined if it is neither
location nor transition and its name fits some pattern. So it may be inlined if its name is matched in full, and
only then if no pattern has alternatives and the name does not end with a newline. -/
theorem isCandidate_iff_fits (h : ∀ x ∈ sources, Pattern.Readable x) :
    ∃ w, read sources = .ok w ∧ ∀ o : LogicObject, ∀ name, o.name = .text name →
      ∃ chosen, w.isCandidate o = .ok chosen ∧
        (chosen = true ↔ o.handling = .region ∧ ∃ x ∈ sources, Pattern.fits x name = true) ∧
        ((o.handling = .region ∧ ∃ x ∈ sources, Pattern.FullMatch x name) → chosen = true) ∧
        ((∀ x ∈ sources, (Pattern.branches x).length = 1) → name.toList.getLast? ≠ some '\n' →
          chosen = true → ∃ x ∈ sources, Pattern.FullMatch x name) := by
  obtain ⟨w, hread, haccepts⟩ := accepts_of_read h
  refine ⟨w, hread, fun o name hname => ?_⟩
  have hchosen : w.isCandidate o =
      .ok (decide (o.handling = .region) && sources.any (Pattern.fits · name)) := by
    rw [isCandidate, hname, haccepts]
    split
    · next hregion => simp [hregion]
    · next hregion => simp [hregion]
  have hiff : (decide (o.handling = .region) && sources.any (Pattern.fits · name)) = true ↔
      o.handling = .region ∧ ∃ x ∈ sources, Pattern.fits x name = true := by
    rw [Bool.and_eq_true, decide_eq_true_iff, List.any_eq_true]
  refine ⟨_, hchosen, hiff, ?_, ?_⟩
  · rintro ⟨hregion, x, hx, hfull⟩
    exact hiff.2 ⟨hregion, x, hx, Pattern.fits_of_fullMatch hfull⟩
  · intro hone hline hcandidate
    obtain ⟨-, x, hx, hfits⟩ := hiff.1 hcandidate
    obtain ⟨p, hp⟩ := h x hx
    exact ⟨x, hx, Pattern.fullMatch_of_fits hp (hone x hx) hline hfits⟩

/-- Of a pond and a lake, the first alternative chooses every name that begins as the pond does. -/
theorem isCandidate_iff_fits_pondOrLake :
    (∀ x ∈ ["Pond|Lake"], Pattern.Readable x) ∧ ∃ w, read ["Pond|Lake"] = .ok w ∧
      w.isCandidate { name := .text "PondHouse" } = .ok true ∧
      w.isCandidate { name := .text "LakeHouse" } = .ok false := by
  have hreadable : ∀ x ∈ ["Pond|Lake"], Pattern.Readable x := by decide +kernel
  obtain ⟨w, hread, hchosen⟩ := isCandidate_iff_fits hreadable
  refine ⟨hreadable, w, hread, ?_, ?_⟩
  · obtain ⟨chosen, hpond, hiff, -⟩ := hchosen { name := .text "PondHouse" } "PondHouse" rfl
    rw [hpond, hiff.2 (by decide +kernel)]
  · obtain ⟨chosen, hlake, hiff, -⟩ := hchosen { name := .text "LakeHouse" } "LakeHouse" rfl
    rw [hlake, Bool.eq_false_iff.2 (mt hiff.1 (by decide +kernel))]

/-- A name may be chosen although no pattern matches it in full. -/
theorem pondOrLake_chooses_pondHouse :
    (∀ x ∈ ["Pond|Lake"], Pattern.Readable x ∧ ¬Pattern.FullMatch x "PondHouse") ∧
      ∃ w, read ["Pond|Lake"] = .ok w ∧ w.isCandidate { name := .text "PondHouse" } = .ok true := by
  have hreadable : ∀ x ∈ ["Pond|Lake"], Pattern.Readable x := by decide +kernel
  obtain ⟨w, hread, haccepts⟩ := accepts_of_read hreadable
  refine ⟨by decide +kernel, w, hread, (haccepts "PondHouse").trans ?_⟩
  exact congrArg Except.ok (by decide +kernel)

end RegionLogic.WaypointSelection
