import RegionLogic.Pattern.Escape
import RegionLogic.Pattern.Options
import RegionLogic.Proofs.Pattern.Scan

/-!
# Options and escapes of a longer text

The options of a group end with a colon, and an escape that has several characters ends at the first one that
does not belong to it. A dollar sign belongs to none of them, so it makes no difference.

## Main results

* `extends_readScope`: the options of a group
* `extends_readMemberEscape`, `extends_readEscape`: escapes inside and outside of brackets
-/

namespace RegionLogic.Pattern

/-! ## Options -/

theorem extends_flagOf (token : List Char) (missing : String) :
    Extends (flagOf token missing) (flagOf token missing) := by
  unfold flagOf
  split
  · exact .pure _
  · exact .of_fails .stop

/-- The end is no option. -/
theorem fails_flagOf_nil (missing : String) : Fails (flagOf [] missing) := Fails.stop

theorem extends_readFlagsOn {fuel fuel' : Nat} (hfuel : fuel ≤ fuel') (seen : List Flag) (f : Flag) :
    Extends (readFlagsOn fuel seen f) (readFlagsOn fuel' seen f) := by
  induction fuel generalizing fuel' seen f with
  | zero => exact .of_fails .stop
  | succ fuel ih =>
    obtain ⟨fuel', rfl, hle⟩ := exists_eq_succ_of_succ_le hfuel
    unfold readFlagsOn
    refine Extends.check .stop ?_
    refine Extends.check .stop ?_
    refine Extends.next_bind ?_ fun token => ?_
    · exact (fails_flagOf_nil _).bind
    · refine Extends.ite (fun _ => .pure _) fun _ => ?_
      exact (extends_flagOf token _).bind fun g => ih hle _ g

theorem extends_readFlagsOff {fuel fuel' : Nat} (hfuel : fuel ≤ fuel') (seen : List Flag) :
    Extends (readFlagsOff fuel seen) (readFlagsOff fuel' seen) := by
  induction fuel generalizing fuel' seen with
  | zero => exact .of_fails .stop
  | succ fuel ih =>
    obtain ⟨fuel', rfl, hle⟩ := exists_eq_succ_of_succ_le hfuel
    refine Extends.next_bind ?_ fun token => ?_
    · rw [if_neg (by simp)]
      exact (fails_flagOf_nil _).bind
    · refine Extends.ite (fun _ => .pure _) fun _ => ?_
      refine (extends_flagOf token _).bind fun f => Extends.check .stop ?_
      exact ih hle _

theorem extends_readScope (o : Options) (opened opened' : Nat) (token : List Char) :
    Extends (readScope o opened token) (readScope o opened' token) := by
  refine Extends.left_bind fun n => ?_
  extract_lets fuel after fuel' after'
  have hfuel : fuel ≤ fuel' := Nat.le_succ _
  have hafter : ∀ x, Extends (after x) (after' x) := by
    rintro ⟨on, close⟩
    refine Extends.check .throw ?_
    refine Extends.check .stop ?_
    extract_lets finish
    have hfinish : ∀ off, Extends (finish off) (finish off) := by
      intro off
      refine Extends.check .stop ?_
      exact Extends.check .stop (.pure _)
    exact Extends.ite (fun _ => (extends_readFlagsOff hfuel []).bind hfinish)
      fun _ => (Extends.pure []).bind hfinish
  refine Extends.ite (fun _ => (Extends.pure _).bind hafter) fun _ => ?_
  exact (extends_flagOf token _).bind fun f => (extends_readFlagsOn hfuel [] f).bind hafter

/-! ## Escapes -/

theorem extends_hexEscape (letter : Char) (width : Nat) :
    Extends (hexEscape letter width) (hexEscape letter width) := by
  refine (extends_takeSome (by decide)).bind fun ds => Extends.check .stop ?_
  split
  · exact Extends.ite (fun _ => .pure _) fun _ => .of_fails .stop
  · exact .of_fails .stop

theorem extends_nameEscape : Extends nameEscape nameEscape := by
  refine (Extends.accept (by decide)).bind fun found => Extends.check .stop ?_
  refine extends_nameUntil.bind fun name => ?_
  split
  · exact .pure _
  · exact .of_fails .stop

theorem extends_octalEscape (ds : List Char) : Extends (octalEscape ds) (octalEscape ds) :=
  Extends.ite (fun _ => .of_fails .stop) fun _ => .pure _

theorem extends_charEscape (c : Char) : Extends (charEscape c) (charEscape c) := by
  refine Extends.ite (fun _ => extends_hexEscape c 2) fun _ => ?_
  refine Extends.ite (fun _ => extends_hexEscape c 4) fun _ => ?_
  refine Extends.ite (fun _ => extends_hexEscape c 8) fun _ => ?_
  refine Extends.ite (fun _ => extends_nameEscape) fun _ => ?_
  exact Extends.ite (fun _ => .of_fails .stop) fun _ => .pure _

theorem extends_readMemberEscape (c : Char) : Extends (readMemberEscape c) (readMemberEscape c) := by
  unfold readMemberEscape
  split
  · exact .pure _
  · exact .pure _
  · refine Extends.ite (fun _ => ?_) fun _ => (extends_charEscape c).bind fun _ => .pure _
    exact (extends_takeSome (by decide)).bind fun ds => (extends_octalEscape _).bind fun _ => .pure _

theorem extends_readNumberEscape (c : Char) (cases : CaseRule) :
    Extends (readNumberEscape c cases) (readNumberEscape c cases) := by
  refine (extends_takeSome (by decide)).bind fun second => ?_
  extract_lets number after
  have hafter : ∀ third, Extends (after third) (after third) := by
    intro third
    refine Extends.ite (fun _ => (extends_octalEscape _).bind fun _ => .pure _) fun _ => ?_
    refine Extends.get_bind fun s => ?_
    simp only [groups_longer, opened_shift]
    refine ExtendsAt.ite (fun _ => ?_) fun _ => Extends.of_fails .stop s
    exact (extends_referTo _ _ _).bind (fun _ => .pure _) s
  exact Extends.ite (fun _ => (extends_takeSome (by decide)).bind hafter)
    fun _ => (Extends.pure []).bind hafter

theorem extends_readEscape (ascii : Bool) (cases : CaseRule) (c : Char) :
    Extends (readEscape ascii cases c) (readEscape ascii cases c) := by
  unfold readEscape
  split
  · exact .pure _
  · exact .pure _
  · exact .pure _
  · refine Extends.ite (fun _ => (extends_takeSome (by decide)).bind fun _ => .pure _) fun _ => ?_
    refine Extends.ite (fun _ => extends_readNumberEscape c cases) fun _ => ?_
    exact (extends_charEscape c).bind fun _ => .pure _

end RegionLogic.Pattern
