import RegionLogic.Pattern.Scan
import RegionLogic.Proofs.Fallible

/-!
# Scanning a longer text

A scanner looks only at what comes next. So one that succeeds does the same on a text that goes on after the
end of the first one, as long as it has not found the end. What has to be shown of each scanner is that it
fails, or comes to the same, where it finds the end in the middle of something. A dollar sign is what the text
goes on with, since that stands after the pattern of a name. Scanners whose number of steps is bounded are
given more fuel on the longer text, which costs nothing.

## Main definitions

* `Pattern.Scan.longer`: the same state with a dollar sign after the text
* `Pattern.Extends`: a scanner does on the longer text what another one does where it succeeds
* `Pattern.Inside`: the same of a scanner that has to leave something
* `Pattern.Fails`: a scanner never succeeds

## Main results

* `Extends.bind`, `Extends.next_bind`, `Inside.bind`: scanners one after the other
* `extends_takeSome`, `Extends.skipPast_bind`, `extends_nameUntil`: what is taken up to a character
* `extends_openGroup`, `extends_referTo`, `inside_fixedWidth`: the groups
-/

namespace RegionLogic.Pattern

variable {α β : Type} {m m' : Scanner α} {k k' : α → Scanner β} {s t u : Scan} {a : α}

/-- The groups, where one more character is left at every place. -/
def Groups.shift (g : Groups) : Groups := { g with asked := g.asked.map fun a => (a.1, a.2 + 1) }

/-- The state with a dollar sign after the characters that are left. -/
def Scan.longer (s : Scan) : Scan := { rest := s.rest ++ ['$'], groups := s.groups.shift }

theorem rest_longer (s : Scan) : s.longer.rest = s.rest ++ ['$'] := rfl

/-- Where `m` succeeds in the state `s`, `m'` does the same in the longer one. At the end it stays there. -/
def ExtendsAt (s : Scan) (m m' : Scanner α) : Prop :=
  ∀ a t, m.run s = .ok (a, t) → m'.run s.longer = .ok (a, t.longer) ∧ (s.rest = [] → t.rest = [])

/-- Wherever `m` succeeds, `m'` does the same on the longer text. -/
def Extends (m m' : Scanner α) : Prop := ∀ s, ExtendsAt s m m'

/-- Where `m` succeeds in the state `s` and leaves something, `m'` does the same in the longer one. At the end
`m` stays there. -/
def InsideAt (s : Scan) (m m' : Scanner α) : Prop := ∀ a t, m.run s = .ok (a, t) →
  (t.rest ≠ [] → m'.run s.longer = .ok (a, t.longer)) ∧ (s.rest = [] → t.rest = [])

/-- Wherever `m` succeeds and leaves something, `m'` does the same on the longer text. -/
def Inside (m m' : Scanner α) : Prop := ∀ s, InsideAt s m m'

/-- The scanner never succeeds. -/
def Fails (m : Scanner α) : Prop := ∀ s r, m.run s ≠ .ok r

/-- More steps than some are one more than as many. -/
theorem exists_eq_succ_of_succ_le {n m : Nat} (h : n + 1 ≤ m) : ∃ k, m = k + 1 ∧ n ≤ k := by
  cases m with
  | zero => exact absurd h (Nat.not_succ_le_zero n)
  | succ k => exact ⟨k, rfl, Nat.le_of_succ_le_succ h⟩

/-! ## Steps -/

theorem run_bind_eq_ok {b : β} : (m >>= k).run s = .ok (b, t) ↔
    ∃ a u, m.run s = .ok (a, u) ∧ (k a).run u = .ok (b, t) := by
  rw [StateT.run_bind]
  cases hm : m.run s with
  | error e => simp [bind, Except.bind]
  | ok r => simp [bind, Except.bind, Prod.ext_iff]

theorem run_bind_of_ok (h : m.run s = .ok (a, u)) : (m >>= k).run s = (k a).run u := by
  rw [StateT.run_bind, h]
  rfl

namespace Fails

theorem stop {text : String} {back : Nat} : Fails (Pattern.stop text back : Scanner α) := by
  rintro s r h
  cases h

theorem throw {e : Stop} : Fails (throw e : Scanner α) := by
  rintro s r h
  cases h

theorem bind (h : Fails m) : Fails (m >>= k) := by
  intro s r hr
  obtain ⟨a, u, ha, -⟩ := run_bind_eq_ok.1 hr
  exact h s _ ha

end Fails

theorem ExtendsAt.ite {p : Prop} [Decidable p] {n n' : Scanner α} (hm : p → ExtendsAt s m m')
    (hn : ¬p → ExtendsAt s n n') : ExtendsAt s (if p then m else n) (if p then m' else n') := by
  split
  · next hp => exact hm hp
  · next hp => exact hn hp

namespace Extends

theorem of_fails (h : Fails m) : Extends m m' := fun s _ _ hm => absurd hm (h s _)

theorem pure (a : α) : Extends (Pure.pure a : Scanner α) (Pure.pure a) := by
  rintro s _ _ ⟨⟩
  exact ⟨rfl, id⟩

theorem bind (hm : Extends m m') (hk : ∀ a, Extends (k a) (k' a)) : Extends (m >>= k) (m' >>= k') := by
  intro s b t h
  obtain ⟨a, u, ha, hb⟩ := run_bind_eq_ok.1 h
  obtain ⟨hm, hmends⟩ := hm s a u ha
  obtain ⟨hk, hkends⟩ := hk a u b t hb
  exact ⟨(run_bind_of_ok hm).trans hk, fun hs => hkends (hmends hs)⟩

theorem ite {p : Prop} [Decidable p] {n n' : Scanner α} (hm : p → Extends m m') (hn : ¬p → Extends n n') :
    Extends (if p then m else n) (if p then m' else n') := fun s =>
  ExtendsAt.ite (fun hp => hm hp s) fun hp => hn hp s

/-- A check comes before what is done. -/
theorem check {p : Prop} [Decidable p] {k k' : Unit → Scanner β} {n n' : Scanner Unit} (hn : Fails n)
    (h : Extends (k ()) (k' ())) :
    Extends (if p then n >>= k else k ()) (if p then n' >>= k' else k' ()) :=
  ite (fun _ => of_fails hn.bind) fun _ => h

theorem get_bind {k k' : Scan → Scanner β} (h : ∀ s, ExtendsAt s (k s) (k' s.longer)) :
    Extends (get >>= k) (get >>= k') := by
  intro s b t hk
  exact h s b t hk

/-- One more character is left in the longer text. -/
theorem left_bind {k k' : Nat → Scanner β} (h : ∀ n, Extends (k n) (k' (n + 1))) :
    Extends (left >>= k) (left >>= k') := by
  intro s b t hk
  have hlength : s.longer.rest.length = s.rest.length + 1 := List.length_append
  have h := h s.rest.length s b t hk
  rw [← hlength] at h
  exact h

theorem changeGroups {f f' : Groups → Groups} (h : ∀ g, f' g.shift = (f g).shift) :
    Extends (changeGroups f) (Pattern.changeGroups f') := by
  rintro s _ _ ⟨⟩
  refine ⟨?_, id⟩
  have hgroups : f' s.longer.groups = (f s.groups).shift := h s.groups
  simp only [Pattern.changeGroups, modify, modifyGet, MonadStateOf.modifyGet, StateT.modifyGet, StateT.run]
  rw [hgroups]
  rfl

theorem inside (h : Extends m m') : Inside m m' := fun s a t hm =>
  ⟨fun _ => (h s a t hm).1, (h s a t hm).2⟩

end Extends

namespace Inside

/-- What is left by the second scanner has been left by the first one. -/
theorem bind (hm : Inside m m') (hk : ∀ a, Inside (k a) (k' a)) : Inside (m >>= k) (m' >>= k') := by
  intro s b t h
  obtain ⟨a, u, ha, hb⟩ := run_bind_eq_ok.1 h
  obtain ⟨hm, hmends⟩ := hm s a u ha
  obtain ⟨hk, hkends⟩ := hk a u b t hb
  refine ⟨fun ht => ?_, fun hs => hkends (hmends hs)⟩
  have hu : u.rest ≠ [] := fun hu => ht (hkends hu)
  exact (run_bind_of_ok (hm hu)).trans (hk ht)

theorem ite {p : Prop} [Decidable p] {n n' : Scanner α} (hm : p → Inside m m') (hn : ¬p → Inside n n') :
    Inside (if p then m else n) (if p then m' else n') := by
  split
  · next hp => exact hm hp
  · next hp => exact hn hp

theorem get_bind {k k' : Scan → Scanner β} (h : ∀ s, InsideAt s (k s) (k' s.longer)) :
    Inside (get >>= k) (get >>= k') := by
  intro s b t hk
  exact h s b t hk

end Inside

/-! ## Tokens -/

section Tokens

variable {groups : Groups} {c : Char} {rest token : List Char}

theorem peek_nil : peek.run { rest := [], groups } = .ok ([], { rest := [], groups }) := rfl

theorem peek_cons (hc : c ≠ '\\') :
    peek.run { rest := c :: rest, groups } = .ok ([c], { rest := c :: rest, groups }) := by
  unfold peek
  simp [hc]
  rfl

/-- At the end there is no token, and otherwise the next one is the same in the longer text. -/
theorem peek_cases (h : peek.run s = .ok (token, t)) :
    t = s ∧ (s.rest = [] ∧ token = [] ∨
      token ≠ [] ∧ (∃ rest, s.rest = token ++ rest) ∧ peek.run s.longer = .ok (token, s.longer)) := by
  rcases s with ⟨_ | ⟨c, rest⟩, groups⟩
  · cases h
    exact ⟨rfl, .inl ⟨rfl, rfl⟩⟩
  by_cases hc : c = '\\'
  · subst hc
    cases rest with
    | nil => cases h
    | cons d rest =>
      cases h
      exact ⟨rfl, .inr ⟨List.cons_ne_nil _ _, ⟨rest, rfl⟩, rfl⟩⟩
  · rw [peek_cons hc] at h
    cases h
    exact ⟨rfl, .inr ⟨List.cons_ne_nil _ _, ⟨rest, rfl⟩, peek_cons hc⟩⟩

/-- A dollar sign comes next where the text ended. -/
theorem peek_longer_of_nil (h : s.rest = []) : peek.run s.longer = .ok (['$'], s.longer) := by
  have hlonger : s.longer = { rest := ['$'], groups := s.groups.shift } := by rw [Scan.longer, h]; rfl
  rw [hlonger]
  rfl

theorem inside_peek : Inside peek peek := by
  intro s token t h
  obtain ⟨rfl, ⟨hrest, -⟩ | ⟨-, -, hlonger⟩⟩ := peek_cases h
  · exact ⟨fun ht => absurd hrest ht, id⟩
  · exact ⟨fun _ => hlonger, id⟩

/-- A jump looks at the next token but takes none. -/
theorem jump_eq_ok : (jump rest).run s = .ok ((), t) ↔
    t = { s with rest } ∧ ∃ token, peek.run { s with rest } = .ok (token, t) := by
  have hrun : (jump rest).run s = (fun p => ((), p.2)) <$> peek.run { s with rest } := by simp [jump]
  rw [hrun]
  cases hpeek : peek.run { s with rest } with
  | error e => simp
  | ok r =>
    obtain ⟨token, u⟩ := r
    obtain ⟨rfl, -⟩ := peek_cases hpeek
    simp [eq_comm]

theorem run_jump_longer (h : (jump rest).run s = .ok ((), t)) :
    (jump (rest ++ ['$'])).run s.longer = .ok ((), t.longer) := by
  obtain ⟨rfl, token, hpeek⟩ := jump_eq_ok.1 h
  obtain ⟨-, ⟨hrest, -⟩ | ⟨-, -, hlonger⟩⟩ := peek_cases hpeek
  · obtain rfl : rest = [] := hrest
    rfl
  · exact jump_eq_ok.2 ⟨rfl, token, hlonger⟩

/-- A jump over some characters that come next. -/
theorem extendsAt_jump_drop {n : Nat} (hn : n ≤ s.rest.length) :
    ExtendsAt s (jump (s.rest.drop n)) (jump (s.longer.rest.drop n)) := by
  intro _ t h
  have hdrop : s.longer.rest.drop n = s.rest.drop n ++ ['$'] := List.drop_append_of_le_length hn
  rw [hdrop]
  refine ⟨run_jump_longer h, fun hs => ?_⟩
  obtain ⟨rfl, -⟩ := jump_eq_ok.1 h
  rw [hs]
  exact List.drop_nil

/-- At the end no token is taken, and otherwise the one that is taken is the same in the longer text. -/
theorem next_cases (h : next.run s = .ok (token, t)) :
    s.rest = [] ∧ token = [] ∧ t = s ∨
      token ≠ [] ∧ s.rest = token ++ t.rest ∧ next.run s.longer = .ok (token, t.longer) := by
  obtain ⟨token', u, hpeek, h⟩ := run_bind_eq_ok.1 h
  obtain ⟨_, _, ⟨⟩, h⟩ := run_bind_eq_ok.1 h
  obtain ⟨_, v, hjump, ⟨⟩⟩ := run_bind_eq_ok.1 h
  obtain ⟨rfl, ⟨hrest, rfl⟩ | ⟨hne, ⟨rest, hrest⟩, hlonger⟩⟩ := peek_cases hpeek
  · obtain ⟨rfl, -⟩ := jump_eq_ok.1 hjump
    exact .inl ⟨hrest, rfl, rfl⟩
  · have hlength : token.length ≤ u.rest.length := by simp [hrest]
    have hlonger' := (extendsAt_jump_drop hlength _ _ hjump).1
    obtain ⟨rfl, -⟩ := jump_eq_ok.1 hjump
    refine .inr ⟨hne, by rw [hrest, List.drop_left], ?_⟩
    rw [next, run_bind_of_ok hlonger]
    exact (run_bind_of_ok rfl).trans ((run_bind_of_ok hlonger').trans rfl)

/-- Less is left after a token. -/
theorem length_rest_lt (hne : token ≠ []) (hrest : s.rest = token ++ t.rest) :
    t.rest.length < s.rest.length := by
  have hpos := List.length_pos_iff.2 hne
  rw [hrest, List.length_append]
  omega

theorem ne_nil_of_append (hne : token ≠ []) (hrest : s.rest = token ++ t.rest) : s.rest ≠ [] := by
  rw [hrest]
  exact List.append_ne_nil_of_left_ne_nil hne _

theorem extendsAt_next (hs : s.rest ≠ []) : ExtendsAt s next next := by
  intro token t h
  rcases next_cases h with ⟨hrest, -⟩ | ⟨-, -, hlonger⟩
  · exact absurd hrest hs
  · exact ⟨hlonger, fun hrest => absurd hrest hs⟩

namespace Extends

/-- What is done with the next token fails if there is none. -/
theorem next_bind {k k' : List Char → Scanner β} (hend : Fails (k []))
    (h : ∀ token, Extends (k token) (k' token)) : Extends (next >>= k) (next >>= k') := by
  intro s b t hb
  obtain ⟨token, u, htoken, hb⟩ := run_bind_eq_ok.1 hb
  rcases next_cases htoken with ⟨-, rfl, -⟩ | ⟨hne, hrest, hlonger⟩
  · exact absurd hb (hend u _)
  · exact ⟨(run_bind_of_ok hlonger).trans (h token u b t hb).1,
      fun hs => absurd hs (ne_nil_of_append hne hrest)⟩

/-- A dollar sign is no other character. -/
theorem accept {c : Char} (hc : c ≠ '$') : Extends (accept c) (Pattern.accept c) := by
  intro s b t h
  obtain ⟨token, u, hpeek, hb⟩ := run_bind_eq_ok.1 h
  clear h
  obtain ⟨rfl, ⟨hrest, rfl⟩ | ⟨hne, ⟨rest, hrest⟩, hlonger⟩⟩ := peek_cases hpeek
  -- where the text ended the dollar sign comes next, which is not taken either
  · rw [if_neg (List.cons_ne_nil _ _).symm] at hb
    cases hb
    refine ⟨(run_bind_of_ok (peek_longer_of_nil hrest)).trans ?_, id⟩
    rw [if_neg fun h => hc (List.cons.inj h).1.symm]
    rfl
  · have hu : u.rest ≠ [] := by
      rw [hrest]
      exact List.append_ne_nil_of_left_ne_nil hne _
    have hat : ExtendsAt u (if token = [c] then next >>= fun _ => Pure.pure true else Pure.pure false)
        (if token = [c] then next >>= fun _ => Pure.pure true else Pure.pure false) := by
      refine ExtendsAt.ite (fun _ => ?_) fun _ => pure false u
      intro b t hb
      obtain ⟨token, v, hnext, ⟨⟩⟩ := run_bind_eq_ok.1 hb
      obtain ⟨hnext, -⟩ := extendsAt_next hu token _ hnext
      exact ⟨run_bind_of_ok hnext, fun h => absurd h hu⟩
    obtain ⟨hat, hends⟩ := hat b t hb
    exact ⟨(run_bind_of_ok hlonger).trans hat, hends⟩

end Extends

/-! ## Stretches -/

theorem takeWhile_take_append_dollar {p : Char → Bool} (hp : p '$' = false) (n : Nat) (cs : List Char) :
    ((cs ++ ['$']).take n).takeWhile p = (cs.take n).takeWhile p := by
  induction cs generalizing n with
  | nil => cases n <;> simp [hp]
  | cons c cs ih => cases n <;> simp [List.takeWhile_cons, ih]

theorem takeWhile_append_dollar {p : Char → Bool} (hp : p '$' = false) (cs : List Char) :
    (cs ++ ['$']).takeWhile p = cs.takeWhile p := by
  induction cs with
  | nil => simp [hp]
  | cons c cs ih => simp [List.takeWhile_cons, ih]

/-- A stretch of characters of which the dollar sign is none ends where it ended. -/
theorem extends_takeSome {n : Nat} {p : Char → Bool} (hp : p '$' = false) :
    Extends (takeSome n p) (takeSome n p) := by
  refine Extends.get_bind fun s => ?_
  have htaken : (s.longer.rest.take n).takeWhile p = (s.rest.take n).takeWhile p :=
    takeWhile_take_append_dollar hp n s.rest
  have hlength : ((s.rest.take n).takeWhile p).length ≤ s.rest.length :=
    Nat.le_trans (List.takeWhile_prefix p).length_le (List.length_take_le' _ _)
  dsimp only
  rw [htaken]
  intro taken t h
  obtain ⟨_, u, hjump, ⟨⟩⟩ := run_bind_eq_ok.1 h
  obtain ⟨hlonger, hends⟩ := extendsAt_jump_drop hlength _ _ hjump
  exact ⟨run_bind_of_ok hlonger, hends⟩

/-- Only the end keeps from coming to an end, given enough fuel. -/
theorem rest_eq_nil_of_skipPast {fuel : Nat} (h : (skipPast c fuel).run s = .ok (false, t))
    (hfuel : s.rest.length ≤ fuel) : t.rest = [] := by
  induction fuel generalizing s with
  | zero =>
    cases h
    exact List.eq_nil_of_length_eq_zero (Nat.le_zero.1 hfuel)
  | succ fuel ih =>
    obtain ⟨token, u, hnext, hskip⟩ := run_bind_eq_ok.1 h
    clear h
    rcases next_cases hnext with ⟨hrest, rfl, rfl⟩ | ⟨hne, hrest, -⟩
    · cases hskip
      exact hrest
    · have hlength := length_rest_lt hne hrest
      split at hskip
      · exact absurd rfl hne
      · split at hskip
        · cases hskip
        · exact ih hskip (by omega)

/-- What is found is found in the longer text too, given as much fuel or more. -/
theorem run_skipPast_longer {fuel fuel' : Nat} (h : (skipPast c fuel).run s = .ok (true, t))
    (hfuel : fuel ≤ fuel') : (skipPast c fuel').run s.longer = .ok (true, t.longer) ∧ s.rest ≠ [] := by
  induction fuel generalizing s fuel' with
  | zero => cases h
  | succ fuel ih =>
    obtain ⟨fuel', rfl, hle⟩ := exists_eq_succ_of_succ_le hfuel
    obtain ⟨token, u, hnext, hskip⟩ := run_bind_eq_ok.1 h
    clear h
    rcases next_cases hnext with ⟨-, rfl, -⟩ | ⟨hne, hrest, hlonger⟩
    · cases hskip
    · refine ⟨(run_bind_of_ok hlonger).trans ?_, ne_nil_of_append hne hrest⟩
      split at hskip
      · exact absurd rfl hne
      · split at hskip
        · next htoken =>
          cases hskip
          rw [if_pos htoken]
          rfl
        · next htoken =>
          rw [if_neg htoken]
          exact (ih hskip hle).1

/-- What is done after a stretch that comes to an end. -/
theorem Extends.skipPast_bind {fuel fuel' : Nat} {k k' : Bool → Scanner β} (hfuel : fuel ≤ fuel')
    (hend : Fails (k false)) (h : Extends (k true) (k' true)) :
    Extends (skipPast c fuel >>= k) (skipPast c fuel' >>= k') := by
  intro s b t hb
  obtain ⟨found, u, hskip, hb⟩ := run_bind_eq_ok.1 hb
  cases found with
  | false => exact absurd hb (hend u _)
  | true =>
    obtain ⟨hlonger, hs⟩ := run_skipPast_longer hskip hfuel
    exact ⟨(run_bind_of_ok hlonger).trans (h u b t hb).1, fun hrest => absurd hrest hs⟩

/-- A name ends before the text does. There has to be some fuel left at the end. -/
theorem extendsAt_takeUntil {what : String} {fuel : Nat} {taken : List Char} (hfuel : s.rest.length < fuel) :
    ExtendsAt s (takeUntil c what fuel taken) (takeUntil c what (fuel + 1) taken) := by
  induction fuel generalizing s taken with
  | zero => cases hfuel
  | succ fuel ih =>
    intro name t h
    obtain ⟨token, u, hnext, huntil⟩ := run_bind_eq_ok.1 h
    clear h
    rcases next_cases hnext with ⟨-, rfl, -⟩ | ⟨hne, hrest, hlonger⟩
    -- a name that the end of the text cuts off is no name
    · split at huntil
      · split at huntil
        · exact absurd huntil (Fails.stop u _)
        · exact absurd huntil (Fails.stop u _)
      · next hne => exact absurd rfl hne
    · have hlength := length_rest_lt hne hrest
      refine ⟨(run_bind_of_ok hlonger).trans ?_, fun hs => absurd hs (ne_nil_of_append hne hrest)⟩
      split at huntil
      · exact absurd rfl hne
      · refine (ExtendsAt.ite (fun _ => ?_) (fun _ => ih (by omega)) name t huntil).1
        exact Extends.ite (fun _ => .of_fails .stop) (fun _ => .pure _) u

theorem extends_nameUntil {what : String} : Extends (nameUntil c what) (nameUntil c what) := by
  intro s name t h
  have hat : ExtendsAt s (takeUntil c what (s.rest.length + 1) []) (takeUntil c what (s.rest.length + 2) []) :=
    extendsAt_takeUntil (Nat.lt_succ_self _)
  have hlength : s.longer.rest.length + 1 = s.rest.length + 2 := by simp [rest_longer]
  have hlonger := hat name t h
  rw [← hlength] at hlonger
  exact hlonger

end Tokens

/-! ## Groups -/

section Groups

@[simp] theorem groups_longer (s : Scan) : s.longer.groups = s.groups.shift := rfl
@[simp] theorem opened_shift (g : Groups) : g.shift.opened = g.opened := rfl
@[simp] theorem names_shift (g : Groups) : g.shift.names = g.names := rfl
@[simp] theorem closed_shift (g : Groups) : g.shift.closed = g.closed := rfl
@[simp] theorem guard_shift (g : Groups) : g.shift.guard = g.guard := rfl
@[simp] theorem widthProblem_shift (g : Groups) : g.shift.widthProblem = g.widthProblem := rfl

theorem extends_checkGroupName (name : List Char) : Extends (checkGroupName name) (checkGroupName name) :=
  Extends.ite (fun _ => .of_fails .stop) fun _ => .pure _

theorem extends_openGroup (name : Option (List Char)) : Extends (openGroup name) (openGroup name) := by
  refine Extends.get_bind fun s => ?_
  simp only [groups_longer, opened_shift, names_shift]
  cases name with
  | none =>
    refine Extends.bind ?_ (fun _ => .pure _) s
    exact Extends.changeGroups fun _ => rfl
  | some cs =>
    dsimp only
    split
    · exact Extends.of_fails (Fails.stop.bind) s
    · refine Extends.bind ?_ (fun _ => .pure _) s
      exact Extends.changeGroups fun _ => rfl

theorem extends_closeGroup (number : Nat) (p : Pattern) :
    Extends (closeGroup number p) (closeGroup number p) := Extends.changeGroups fun _ => rfl

theorem extends_checkGuard (number : Nat) : Extends (checkGuard number) (checkGuard number) := by
  refine Extends.get_bind fun s => ?_
  simp only [groups_longer, guard_shift, closed_shift]
  split
  · exact Extends.pure () s
  · refine ExtendsAt.ite (fun _ => ?_) fun _ => ?_
    · exact Extends.of_fails (Fails.stop.bind) s
    · exact ExtendsAt.ite (fun _ => Extends.of_fails .stop s) fun _ => Extends.pure () s

theorem extends_referTo (number back : Nat) (cases : CaseRule) :
    Extends (referTo number back cases) (referTo number back cases) := by
  refine Extends.get_bind fun s => ?_
  simp only [groups_longer, closed_shift]
  refine ExtendsAt.ite (fun _ => ?_) fun _ => ?_
  · exact Extends.of_fails (Fails.stop.bind) s
  · exact (extends_checkGuard number).bind (fun _ => .pure _) s

theorem extends_groupNamed (cs : List Char) : Extends (groupNamed cs) (groupNamed cs) := by
  refine Extends.get_bind fun s => ?_
  simp only [groups_longer, names_shift]
  split
  · exact Extends.pure _ s
  · exact Extends.of_fails .stop s

theorem inside_guarded {inner inner' : Scanner α} (h : Inside inner inner') :
    Inside (guarded inner) (guarded inner') := by
  refine Inside.get_bind fun s => ?_
  simp only [groups_longer, guard_shift]
  have hafter : Inside (do
      let result ← inner
      if s.groups.guard.isNone then changeGroups fun g => { g with guard := none }
      return result) (do
      let result ← inner'
      if s.groups.guard.isNone then changeGroups fun g => { g with guard := none }
      return result) := by
    refine h.bind fun result => .ite (fun _ => ?_) fun _ => (Extends.pure result).inside
    refine Inside.bind ?_ fun _ => (Extends.pure result).inside
    apply Extends.inside
    exact Extends.changeGroups fun _ => rfl
  refine Inside.ite (fun _ => Inside.bind ?_ fun _ => hafter) (fun _ => hafter) s
  apply Extends.inside
  exact Extends.changeGroups fun _ => rfl

theorem inside_fixedWidth {inner inner' : Scanner Pattern} (h : Inside inner inner') :
    Inside (fixedWidth inner) (fixedWidth inner') := by
  refine Inside.get_bind fun s => ?_
  simp only [groups_longer, widthProblem_shift]
  refine Inside.bind (inside_guarded h) (fun p => .get_bind fun u => ?_) s
  simp only [groups_longer, closed_shift]
  refine Inside.bind ?_ (fun _ => (Extends.pure _).inside) u
  apply Extends.inside
  exact Extends.changeGroups fun _ => rfl

end Groups

end RegionLogic.Pattern
