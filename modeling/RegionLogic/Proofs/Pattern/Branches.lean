import RegionLogic.Proofs.Pattern.Ends
import RegionLogic.Proofs.Pattern.Reader

/-!
# Anchors around alternatives

The pattern of a name is read with the start of the text written before it and the end of the line after it. A
bar binds least of all operators, so of several alternatives the first one alone gets the start and the last one
alone the end. The start changes nothing, as a name is matched from its start anyway. But any alternative other
than the last then asks only for how the name begins.

## Main definitions

* `Pattern.branches`: the alternatives of a written pattern
* `Pattern.anchoredItems`: the items of several alternatives with the two anchors
* `Pattern.FullMatch`: the whole name is matched
* `Pattern.fits`: the name is matched as far as the anchors ask for

## Main results

* `read_eq_joined`: a pattern that is read is one of its alternatives
* `anchored_of_read`: a pattern that is read is read with the anchors too, and which pattern that gives
* `matchesStart_of_anchored`: the pattern with the anchors matches the names that fit
* `fits_of_fullMatch`, `fullMatch_of_fits`: full matches fit, and where what fits is a full match
-/

namespace RegionLogic.Pattern

variable {s t u : Scan} {p : Pattern} {l : List Pattern} {o : Options} {fuel fuel' : Nat}

/-! ## Alternatives one by one -/

/-- The alternatives up to a closing parenthesis or the end, each for itself. -/
def readBranches : Nat → Options → Scanner (List Pattern)
  | 0, _ => stop "pattern too deep"
  | fuel + 1, o => do
    let p ← readSequence fuel o []
    if ← accept '|' then return p :: (← readBranches fuel o) else return [p]

/-- What one step of reading alternatives has done. -/
theorem readBranches_cases (h : (readBranches (fuel + 1) o).run s = .ok (l, t)) :
    ∃ p u, (readSequence fuel o []).run s = .ok (p, u) ∧
      ((accept '|').run u = .ok (false, t) ∧ l = [p] ∨
        ∃ v rest, (accept '|').run u = .ok (true, v) ∧ (readBranches fuel o).run v = .ok (rest, t) ∧
          l = p :: rest) := by
  obtain ⟨p, u, hp, h⟩ := run_bind_eq_ok.1 h
  obtain ⟨bar, v, hbar, h⟩ := run_bind_eq_ok.1 h
  refine ⟨p, u, hp, ?_⟩
  cases bar with
  | false =>
    cases h
    exact .inl ⟨hbar, rfl⟩
  | true =>
    obtain ⟨rest, w, hrest, ⟨⟩⟩ := run_bind_eq_ok.1 h
    exact .inr ⟨v, rest, hbar, hrest, rfl⟩

theorem ne_nil_of_readBranches (h : (readBranches fuel o).run s = .ok (l, t)) : l ≠ [] := by
  cases fuel with
  | zero => exact absurd h (Fails.stop _ _)
  | succ fuel =>
    obtain ⟨p, u, -, ⟨-, rfl⟩ | ⟨v, rest, -, -, rfl⟩⟩ := readBranches_cases h
    · exact List.cons_ne_nil _ _
    · exact List.cons_ne_nil _ _

/-- A pattern that is read is one of its alternatives. -/
theorem readBranches_of_readAlternatives (h : (readAlternatives fuel o).run s = .ok (p, t)) :
    ∃ l, (readBranches fuel o).run s = .ok (l, t) ∧ p = joined l := by
  induction fuel generalizing s p with
  | zero => exact absurd h (Fails.stop _ _)
  | succ fuel ih =>
    rw [readAlternatives] at h
    obtain ⟨q, u, hq, h⟩ := run_bind_eq_ok.1 h
    obtain ⟨bar, v, hbar, h⟩ := run_bind_eq_ok.1 h
    cases bar with
    | false =>
      cases h
      exact ⟨[p], (run_bind_of_ok hq).trans ((run_bind_of_ok hbar).trans rfl), rfl⟩
    | true =>
      obtain ⟨rest, w, hrest, ⟨⟩⟩ := run_bind_eq_ok.1 h
      obtain ⟨l, hl, rfl⟩ := ih hrest
      refine ⟨q :: l, ?_, (joined_cons q (ne_nil_of_readBranches hl)).symm⟩
      exact (run_bind_of_ok hq).trans ((run_bind_of_ok hbar).trans ((run_bind_of_ok hl).trans rfl))

/-! ## The longer text -/

section Longer

variable {init : List (List Item)} {last seen : List Item} {c : Char}

/-- The items of several alternatives, where others stand before the first of them and the end of the line
after the last. -/
def closedItems (seen : List Item) : List (List Item) → List Item → List (List Item)
  | [], last => [⟨.edge, .finish false⟩ :: (last ++ seen)]
  | a :: init, last => (a ++ seen) :: (init ++ [⟨.edge, .finish false⟩ :: last])

theorem closedItems_nil (init : List (List Item)) (last : List Item) :
    closedItems [] init last = init ++ [⟨.edge, .finish false⟩ :: last] := by
  cases init <;> simp [closedItems]

theorem closedItems_ne_nil : closedItems seen init last ≠ [] := by
  cases init with
  | nil => exact List.cons_ne_nil _ _
  | cons a init => exact List.cons_ne_nil _ _

/-- The alternatives up to a closing parenthesis or the end, the first of which begins with the items in
`seen`. -/
def readOnward (fuel fuel' : Nat) (o : Options) (seen : List Item) : Scanner Pattern := do
  let p ← readSequence fuel o seen
  if ← accept '|' then return .alt p (← readAlternatives fuel' o) else return p

theorem readAlternatives_succ (fuel : Nat) (o : Options) :
    readAlternatives (fuel + 1) o = readOnward fuel fuel o [] := by
  rw [readAlternatives]
  rfl

theorem eq_of_accept_false (h : (accept c).run s = .ok (false, t)) : t = s := by
  obtain ⟨token, u, hpeek, htaken⟩ := run_bind_eq_ok.1 h
  clear h
  obtain ⟨rfl, -⟩ := peek_cases hpeek
  split at htaken
  · obtain ⟨_, _, -, ⟨⟩⟩ := run_bind_eq_ok.1 htaken
  · cases htaken
    rfl

theorem ne_nil_of_accept_true (h : (accept c).run s = .ok (true, t)) : s.rest ≠ [] := by
  intro hs
  rw [run_accept_of_nil hs] at h
  cases h

/-- Alternatives that end with the text are read from the longer one too, and there the last of them ends with
the end of the line. -/
theorem run_readOnward_longer (h : (readBranches fuel o).run s = .ok (l, t)) (ht : t.rest = [])
    (hspaced : o.spaced = false) (heachLine : o.eachLine = false) :
    ∃ init last, l = (init ++ [last]).map sequence ∧
      ∀ {f f'} seen, fuel ≤ f → fuel ≤ f' → (readOnward f f' o seen).run s.longer =
        .ok (joined ((closedItems seen init last).map sequence), { t.longer with rest := [] }) := by
  induction fuel generalizing s l with
  | zero => exact absurd h (Fails.stop _ _)
  | succ fuel ih =>
    obtain ⟨p, u, hp, ⟨hbar, rfl⟩ | ⟨v, rest, hbar, hrest, rfl⟩⟩ := readBranches_cases h
    -- the last alternative ends with the text, so the dollar sign becomes its last item
    · obtain ⟨items, rfl, hcontinues⟩ := (readers fuel).sequence hp
      obtain rfl := eq_of_accept_false hbar
      refine ⟨[], items, rfl, fun {f f'} seen hf _ => ?_⟩
      obtain ⟨f, rfl, hle⟩ := exists_eq_succ_of_succ_le hf
      have hlast := hcontinues.atEnd seen hle hspaced ht
      rw [heachLine] at hlast
      refine (run_bind_of_ok hlast).trans ?_
      exact (run_bind_of_ok (run_accept_of_nil rfl)).trans rfl
    -- a bar ends this alternative, and the others begin anew behind it, with no items before them
    · obtain ⟨items, rfl, hcontinues⟩ := (readers fuel).sequence hp
      obtain ⟨init, last, rfl, hlonger⟩ := ih hrest
      refine ⟨items :: init, last, rfl, fun {f f'} seen hf hf' => ?_⟩
      obtain ⟨f', rfl, hle⟩ := exists_eq_succ_of_succ_le hf'
      have hfirst := hcontinues.inside seen (Nat.le_of_succ_le hf) (ne_nil_of_accept_true hbar)
      have hbar := (Extends.accept (by decide) u true v hbar).1
      have hothers := hlonger [] hle hle
      rw [← readAlternatives_succ, closedItems_nil] at hothers
      refine (run_bind_of_ok hfirst).trans ((run_bind_of_ok hbar).trans ((run_bind_of_ok hothers).trans ?_))
      rw [closedItems, List.map_cons, joined_cons _ (by simp)]
      rfl

/-- No backslash stands at the end where a dollar sign does. -/
theorem peek_append_dollar (cs : List Char) (groups : Groups) :
    ∃ token, peek.run { rest := cs ++ ['$'], groups } = .ok (token, { rest := cs ++ ['$'], groups }) := by
  rcases cs with _ | ⟨c, cs⟩
  · exact ⟨['$'], rfl⟩
  by_cases hc : c = '\\'
  · subst hc
    cases cs with
    | nil => exact ⟨['\\', '$'], rfl⟩
    | cons d cs => exact ⟨['\\', d], rfl⟩
  · exact ⟨[c], peek_cons hc⟩

/-- The start of the text is read as the first item. -/
theorem run_readOnward_start (cs : List Char) (groups : Groups) :
    (readOnward (fuel + 1) fuel' {} []).run { rest := '^' :: (cs ++ ['$']), groups } =
      (readOnward fuel fuel' {} [⟨.edge, .start false⟩]).run { rest := cs ++ ['$'], groups } := by
  obtain ⟨token, htoken⟩ := peek_append_dollar cs groups
  have hpeek : peek.run { rest := '^' :: (cs ++ ['$']), groups } =
      .ok (['^'], { rest := '^' :: (cs ++ ['$']), groups }) := peek_cons (by decide)
  have hnext : next.run { rest := '^' :: (cs ++ ['$']), groups } =
      .ok (['^'], { rest := cs ++ ['$'], groups }) := by
    refine (run_bind_of_ok hpeek).trans ((run_bind_of_ok rfl).trans ?_)
    exact (run_bind_of_ok (jump_eq_ok.2 ⟨rfl, token, htoken⟩)).trans rfl
  have hitem (here : Nat) : readItem fuel {} here [] ['^'] = pure [⟨.edge, .start false⟩] := by
    simp [readItem, readCharItem]
  rw [readOnward, StateT.run_bind, run_readSequence_item hpeek (by decide) hnext, hitem, pure_bind]
  rfl

end Longer

/-! ## Whole patterns -/

variable {source : String}

/-- The alternatives of a written pattern. Groups are kept if any alternative refers to them. -/
def branches (source : String) : List Pattern :=
  match (readBranches (4 * source.toList.length + 4) {}).run { rest := source.toList } with
  | .ok (l, _) => l.map (·.keepGroups (joined l).referred)
  | .error _ => []

theorem branches_of_readBranches
    (h : (readBranches (4 * source.toList.length + 4) {}).run { rest := source.toList } = .ok (l, t)) :
    branches source = l.map (·.keepGroups (joined l).referred) := by
  rw [branches, h]

theorem readWhole_eq_ok : readWhole.run s = .ok (p, t) ↔
    ∃ q, (readAlternatives (4 * s.rest.length + 4) {}).run s = .ok (q, t) ∧ t.rest = [] ∧
      t.groups.asked.find? (t.groups.opened < ·.1) = none ∧ p = q.forgetGroups := by
  constructor
  · intro h
    obtain ⟨_, _, ⟨⟩, hread⟩ := run_bind_eq_ok.1 h
    obtain ⟨q, u, hq, hpeek⟩ := run_bind_eq_ok.1 hread
    obtain ⟨token, v, hpeek, hend⟩ := run_bind_eq_ok.1 hpeek
    clear h hread
    refine ⟨q, ?_⟩
    obtain ⟨rfl, ⟨hrest, rfl⟩ | ⟨hne, -⟩⟩ := peek_cases hpeek
    · obtain ⟨_, _, ⟨⟩, hasked⟩ := run_bind_eq_ok.1 hend
      clear hend
      dsimp only at hasked
      split at hasked
      · exact absurd hasked (Fails.throw _ _)
      · next hnone =>
        cases hasked
        exact ⟨hq, hrest, hnone, rfl⟩
    · dsimp only at hend
      rw [if_pos (by simpa using hne)] at hend
      exact absurd hend (Fails.stop.bind _ _)
  · rintro ⟨q, hq, hrest, hasked, rfl⟩
    have hpeek : peek.run t = .ok ([], t) := by
      obtain ⟨rest, groups⟩ := t
      obtain rfl : rest = [] := hrest
      rfl
    refine (run_bind_of_ok rfl).trans ((run_bind_of_ok hq).trans ((run_bind_of_ok hpeek).trans ?_))
    refine (run_bind_of_ok rfl).trans ?_
    dsimp only
    rw [hasked]
    rfl

theorem read_eq_ok : read source = .ok p ↔
    ∃ t, readWhole.run { rest := source.toList } = .ok (p, t) ∧ t.groups.widthProblem = none := by
  unfold read
  dsimp only
  cases hrun : readWhole.run { rest := source.toList } with
  | error e => cases e <;> simp
  | ok r =>
    obtain ⟨q, t⟩ := r
    cases hwidth : t.groups.widthProblem <;> simp [hwidth]

/-- A pattern that is read is one of its alternatives. -/
theorem read_eq_joined (h : read source = .ok p) : branches source ≠ [] ∧ p = joined (branches source) := by
  obtain ⟨t, hread, -⟩ := read_eq_ok.1 h
  obtain ⟨q, hq, -, -, rfl⟩ := readWhole_eq_ok.1 hread
  obtain ⟨l, hl, rfl⟩ := readBranches_of_readAlternatives hq
  rw [branches_of_readBranches hl]
  refine ⟨mt List.map_eq_nil_iff.1 (ne_nil_of_readBranches hl), ?_⟩
  exact keepGroups_joined _ l

/-! ## The two anchors -/

section Anchors

variable {init : List (List Item)} {last : List Item} {name : String}

/-- The items of several alternatives with the two anchors. -/
def anchoredItems (init : List (List Item)) (last : List Item) : List (List Item) :=
  closedItems [⟨.edge, .start false⟩] init last

/-- Anchors refer to no group. -/
theorem referred_anchoredItems (init : List (List Item)) (last : List Item) :
    (joined ((anchoredItems init last).map sequence)).referred =
      (joined ((init ++ [last]).map sequence)).referred := by
  have hfinish (a : List Item) :
      (sequence (⟨.edge, .finish false⟩ :: a)).referred = (sequence a).referred :=
    (referred_sequence_append [_] a).trans (List.append_nil _)
  have hstart (a : List Item) : (sequence (a ++ [⟨.edge, .start false⟩])).referred = (sequence a).referred :=
    referred_sequence_append a _
  rw [referred_joined, referred_joined]
  cases init <;> simp [anchoredItems, closedItems, hstart, hfinish]

/-- Anchors are no groups. -/
theorem keepGroups_anchoredItems (numbers : List Nat) :
    (anchoredItems init last).map (·.map (·.keepGroups numbers)) =
      anchoredItems (init.map (·.map (·.keepGroups numbers))) (last.map (·.keepGroups numbers)) := by
  have hfinish : Item.keepGroups numbers ⟨.edge, .finish false⟩ = ⟨.edge, .finish false⟩ := rfl
  have hstart : Item.keepGroups numbers ⟨.edge, .start false⟩ = ⟨.edge, .start false⟩ := rfl
  cases init <;> simp [anchoredItems, closedItems, hfinish, hstart]

/-- A pattern that is read is read with the anchors too. -/
theorem anchored_of_read (h : read source = .ok p) : ∃ init last,
    branches source = (init ++ [last]).map sequence ∧
      anchored source = .ok (joined ((anchoredItems init last).map sequence)) := by
  obtain ⟨t, hread, hwidth⟩ := read_eq_ok.1 h
  obtain ⟨q, hq, hrest, hasked, rfl⟩ := readWhole_eq_ok.1 hread
  obtain ⟨l, hl, rfl⟩ := readBranches_of_readAlternatives hq
  obtain ⟨init, last, rfl, hlonger⟩ := run_readOnward_longer hl hrest rfl rfl
  have hkept (a : List (List Item)) (numbers : List Nat) :
      (a.map sequence).map (·.keepGroups numbers) = (a.map (·.map (·.keepGroups numbers))).map sequence := by
    simp [keepGroups_sequence]
  refine ⟨init.map (·.map (·.keepGroups (joined ((init ++ [last]).map sequence)).referred)),
    last.map (·.keepGroups (joined ((init ++ [last]).map sequence)).referred), ?_, ?_⟩
  · rw [branches_of_readBranches hl, hkept, List.map_append, List.map_singleton]
  · refine read_eq_ok.2 ⟨{ t.longer with rest := [] }, readWhole_eq_ok.2 ?_, hwidth⟩
    refine ⟨joined ((anchoredItems init last).map sequence), ?_, rfl, ?_, ?_⟩
    · have htext : ("^" ++ source ++ "$").toList = '^' :: (source.toList ++ ['$']) := by
        simp [String.toList_append]
      have hfuel : 4 * ('^' :: (source.toList ++ ['$'])).length + 4 = 4 * source.toList.length + 10 + 1 + 1 := by
        simp only [List.length_cons, List.length_append, List.length_nil]
        omega
      dsimp only
      rw [htext, hfuel, readAlternatives_succ, run_readOnward_start]
      exact hlonger _ (Nat.add_le_add_left (by decide) _) (Nat.add_le_add_left (by decide) _)
    -- only the places of the conditions on groups have moved
    · have hshift : t.longer.groups.asked = t.groups.asked.map fun a => (a.1, a.2 + 1) := rfl
      rw [hshift, List.find?_map, Option.map_eq_none_iff]
      exact hasked
    · rw [forgetGroups, referred_anchoredItems, keepGroups_joined, hkept, keepGroups_anchoredItems]

/-- Of several alternatives with anchors, all but the last are matched by a mere beginning of the text, and the
last by a whole line. -/
theorem matchesStart_anchoredItems :
    (joined ((anchoredItems init last).map sequence)).matchesStart name = true ↔
      (∃ a ∈ init, (sequence a).matchesStart name = true) ∨ (sequence last).matchesLine name = true := by
  rw [anchoredItems, matchesStart_joined (mt List.map_eq_nil_iff.1 closedItems_ne_nil)]
  cases init with
  | nil =>
    simp [closedItems, matchesStart_sequence_finish, matchesLine_sequence_start]
  | cons a init =>
    simp [closedItems, matchesStart_sequence_finish, matchesStart_sequence_start, or_and_right,
      exists_or, or_assoc]

end Anchors

/-! ## Names that fit -/

section Names

variable {name : String}

/-- The text denotes a pattern by itself. -/
def Readable (source : String) : Prop := ∃ p, read source = .ok p

instance : Decidable (Readable source) :=
  match h : read source with
  | .ok p => .isTrue ⟨p, h⟩
  | .error _ => .isFalse fun ⟨_, hp⟩ => nomatch h.symm.trans hp

/-- The whole name is matched by the pattern that the text denotes by itself. -/
def FullMatch (source name : String) : Prop := ∃ p, read source = .ok p ∧ p.matchesWhole name = true

instance : Decidable (FullMatch source name) :=
  match h : read source with
  | .ok p => decidable_of_iff (p.matchesWhole name = true)
      ⟨fun hwhole => ⟨p, h, hwhole⟩, fun ⟨_, hq, hwhole⟩ => Except.ok.inj (h.symm.trans hq) ▸ hwhole⟩
  | .error _ => .isFalse fun ⟨_, hp, _⟩ => nomatch h.symm.trans hp

/-- Some alternative but the last matches a stretch at the start of the name, or the last one all of its line. -/
def fits (source name : String) : Bool :=
  (branches source).dropLast.any (·.matchesStart name) || (branches source).getLast?.any (·.matchesLine name)

/-- The pattern with the anchors matches the names that fit. -/
theorem matchesStart_of_anchored (h : read source = .ok p) :
    ∃ q, anchored source = .ok q ∧ ∀ name, q.matchesStart name = fits source name := by
  obtain ⟨init, last, hbranches, hanchored⟩ := anchored_of_read h
  refine ⟨_, hanchored, fun name => ?_⟩
  rw [Bool.eq_iff_iff, matchesStart_anchoredItems, fits, hbranches]
  simp

theorem fullMatch_iff (h : read source = .ok p) :
    FullMatch source name ↔ ∃ b ∈ branches source, b.matchesWhole name = true := by
  obtain ⟨hne, hp⟩ := read_eq_joined h
  rw [← matchesWhole_joined hne, ← hp]
  constructor
  · rintro ⟨q, hq, hwhole⟩
    rwa [Except.ok.inj (h.symm.trans hq)]
  · exact fun hwhole => ⟨p, h, hwhole⟩

/-- A name that is matched in full fits. -/
theorem fits_of_fullMatch (h : FullMatch source name) : fits source name = true := by
  obtain ⟨p, hp, -⟩ := id h
  obtain ⟨b, hb, hwhole⟩ := (fullMatch_iff hp).1 h
  obtain ⟨hne, -⟩ := read_eq_joined hp
  rw [fits, Bool.or_eq_true_iff]
  rw [← List.dropLast_append_getLast hne, List.mem_append, List.mem_singleton] at hb
  rcases hb with hb | rfl
  · exact .inl (List.any_eq_true.2 ⟨b, hb, matchesStart_of_matchesWhole hwhole⟩)
  · refine .inr ?_
    rw [List.getLast?_eq_some_getLast hne]
    exact matchesLine_of_matchesWhole hwhole

/-- A name of one line that fits a pattern without alternatives is matched in full. -/
theorem fullMatch_of_fits (hp : read source = .ok p) (hone : (branches source).length = 1)
    (hname : name.toList.getLast? ≠ some '\n') (h : fits source name = true) : FullMatch source name := by
  obtain ⟨b, hb⟩ := List.length_eq_one_iff.1 hone
  rw [fits, hb] at h
  refine (fullMatch_iff hp).2 ⟨b, by simp [hb], matchesWhole_of_matchesLine hname ?_⟩
  simpa using h

end Names

end RegionLogic.Pattern
