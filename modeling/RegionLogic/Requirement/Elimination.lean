import RegionLogic.Fault

/-!
# Elimination

Of alternatives that are compared by a relation "makes redundant", the redundant ones are dropped in
one pass over the ordered pairs. The relation may fail on a pair; the pass then ends, and what has not
been dropped stays.

## Main definitions

* `Challenge`, `challenge`: one alternative against all that follow it
* `Elimination`, `eliminate`: the whole pass

## Main results

* `challenge_rest_length_le`: a challenge adds nothing to the alternatives that follow
-/

namespace RegionLogic

variable {α : Type}

/-- How the comparison of one alternative with all that follow it ends. -/
inductive Challenge (α : Type) where
  /-- The alternative stays, with those that are left of the others. -/
  | stays (rest : List α) (dropped : List (α × α))
  /-- The alternative is dropped for one of the others. -/
  | falls (rest : List α) (dropped : List (α × α))
  /-- The relation fails on a pair. -/
  | fails (rest : List α) (dropped : List (α × α)) (fault : Fault)

/-- Compares `current` with the alternatives that follow it, where `passed` holds those that have
been compared with it and stay. Each dropped alternative is recorded with the one that makes it
redundant. -/
def challenge (redundant : α → α → Except Fault Bool) (current : α) (passed : List α) :
    List α → Challenge α
  | [] => .stays passed []
  | other :: rest =>
    match redundant other current with
    | .error fault => .fails (passed ++ other :: rest) [] fault
    | .ok true => .falls (passed ++ other :: rest) [(current, other)]
    | .ok false =>
      match redundant current other with
      | .error fault => .fails (passed ++ other :: rest) [] fault
      | .ok true =>
        match challenge redundant current passed rest with
        | .stays left dropped => .stays left ((other, current) :: dropped)
        | .falls left dropped => .falls left ((other, current) :: dropped)
        | .fails left dropped fault => .fails left ((other, current) :: dropped) fault
      | .ok false => challenge redundant current (passed ++ [other]) rest

/-- The alternatives that follow and are left after a challenge. -/
def Challenge.rest : Challenge α → List α
  | stays rest _ => rest
  | falls rest _ => rest
  | fails rest _ _ => rest

/-- A challenge adds nothing to the alternatives that follow. -/
theorem challenge_rest_length_le (redundant : α → α → Except Fault Bool) (current : α)
    (passed others : List α) :
    (challenge redundant current passed others).rest.length ≤ passed.length + others.length := by
  induction others generalizing passed with
  | nil => simp [challenge, Challenge.rest]
  | cons other rest ih =>
    unfold challenge
    split
    · simp [Challenge.rest]
    · simp [Challenge.rest]
    · split
      · simp [Challenge.rest]
      · have := ih passed
        split <;> simp_all [Challenge.rest] <;> omega
      · have := ih (passed ++ [other])
        simp at this ⊢
        omega

/-- The outcome of a pass. -/
structure Elimination (α : Type) where
  /-- The alternatives that are left, in order. -/
  kept : List α
  /-- The dropped alternatives in the order in which they were dropped, each with the one that makes
  it redundant. -/
  dropped : List (α × α)
  /-- The fault that ended the pass early. -/
  fault : Option Fault

/-- An outcome after further drops. -/
def Elimination.after (dropped : List (α × α)) (e : Elimination α) : Elimination α :=
  { e with dropped := dropped ++ e.dropped }

/-- Compares each alternative with all that follow it. When an alternative is dropped for a later
one, the next one takes its turn; otherwise those that it makes redundant are dropped. -/
def eliminate (redundant : α → α → Except Fault Bool) : List α → Elimination α
  | [] => ⟨[], [], none⟩
  | current :: others =>
    match _h : challenge redundant current [] others with
    | .stays rest dropped =>
      let e := (eliminate redundant rest).after dropped
      { e with kept := current :: e.kept }
    | .falls rest dropped => (eliminate redundant rest).after dropped
    | .fails rest dropped fault => ⟨current :: rest, dropped, some fault⟩
termination_by l => l.length
decreasing_by
  all_goals
    have := challenge_rest_length_le redundant current [] others
    simp [_h, Challenge.rest] at this
    simp
    omega

end RegionLogic
