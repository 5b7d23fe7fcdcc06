import RegionLogic.Pattern.Reader
import RegionLogic.Proofs.Pattern.Escape

/-!
# Reading a longer pattern

A sequence that ends where a bar or a parenthesis comes next is read from the longer text too, item by item. One
that ends with the text has one more item there, as the dollar sign is an item of its own. Sequences, groups and
alternatives are read by each other, so what holds of them is proved at once, by induction on the fuel. Blanks and
comments may be left out only inside a group with options; a comment could swallow the dollar sign, but at the end
of the text no group is open.

## Main definitions

* `Pattern.readItem`: the items after one more token
* `Pattern.Continues`: what reading a sequence does on the longer text
* `Pattern.Readers`: what the three readers with some fuel do on the longer text

## Main results

* `extends_readClass`, `extends_readRepeat?`, `extends_readOpening`: parts of an item are read alike
* `readSequence_succ`: a sequence is read item by item
* `readers`: the readers with any fuel do the same on the longer text
-/

namespace RegionLogic.Pattern

variable {α β : Type} {m m' : Scanner α} {k k' : α → Scanner β} {s t u : Scan}

theorem ite_bind {p : Prop} [Decidable p] {n : Scanner α} {k : α → Scanner β} :
    (if p then m else n) >>= k = if p then m >>= k else n >>= k := by
  split <;> rfl

/-! ## Classes -/

theorem extends_readMember (opened opened' : Nat) : Extends (readMember opened) (readMember opened') := by
  refine Extends.next_bind .throw fun token => ?_
  split
  · exact .of_fails .throw
  · exact (extends_readMemberEscape _).bind fun _ => .pure _
  · exact .pure _

theorem extends_rangeOf (low high : Member × List Char) : Extends (rangeOf low high) (rangeOf low high) := by
  unfold rangeOf
  extract_lets refuse
  have hrefuse : Extends (refuse ()) (refuse ()) := .of_fails .stop
  split
  · exact Extends.ite (fun _ => .pure _) fun _ => hrefuse
  · exact hrefuse

theorem extends_readClass {fuel fuel' : Nat} (hfuel : fuel ≤ fuel') (ascii : Bool) (opened opened' : Nat)
    (seen : List ClassItem) :
    Extends (readClass ascii opened fuel seen) (readClass ascii opened' fuel' seen) := by
  induction fuel generalizing fuel' seen with
  | zero => exact .of_fails .throw
  | succ fuel ih =>
    obtain ⟨fuel', rfl, hle⟩ := exists_eq_succ_of_succ_le hfuel
    have ih := fun seen => ih hle seen
    unfold readClass
    extract_lets after after'
    have hafter : ∀ closed, Extends (after closed) (after' closed) := by
      intro closed
      refine Extends.ite (fun _ => .pure _) fun _ => ?_
      refine (extends_readMember opened opened').bind fun low => ?_
      refine (Extends.accept (by decide)).bind fun dash => ?_
      refine Extends.ite (fun _ => ?_) fun _ => ih _
      refine (Extends.accept (by decide)).bind fun closed => ?_
      refine Extends.ite (fun _ => .pure _) fun _ => ?_
      refine (extends_readMember opened opened').bind fun high => ?_
      exact (extends_rangeOf low high).bind fun item => ih _
    refine Extends.ite (fun _ => (Extends.pure false).bind hafter) fun _ => ?_
    exact (Extends.accept (by decide)).bind hafter

/-! ## Repetitions -/

theorem extends_boundOf (ds : List Char) : Extends (boundOf ds) (boundOf ds) := by
  refine Extends.ite (fun _ => .pure _) fun _ => ?_
  refine Extends.check .throw ?_
  refine Extends.check .throw ?_
  exact .pure _

/-- No bound goes on with a dollar sign. -/
theorem boundDigits?_append_dollar (cs : List Char) :
    boundDigits? (cs ++ ['$']) = (boundDigits? cs).map fun r => (r.1, r.2 ++ ['$']) := by
  have hdigit : Json.isDigit '$' = false := by decide
  have hdrop (l : List Char) : (l ++ ['$']).drop (l.takeWhile Json.isDigit).length =
      l.drop (l.takeWhile Json.isDigit).length ++ ['$'] :=
    List.drop_append_of_le_length (List.takeWhile_prefix _).length_le
  unfold boundDigits?
  simp only [takeWhile_append_dollar hdigit, hdrop]
  -- what comes behind the digits is the same but for the dollar sign at its end
  generalize cs.takeWhile Json.isDigit = low
  rcases cs.drop low.length with _ | ⟨c, rest⟩
  · rfl
  by_cases hcomma : c = ','
  · subst hcomma
    simp only [List.cons_append, takeWhile_append_dollar hdigit, hdrop]
    generalize rest.takeWhile Json.isDigit = high
    rcases rest.drop high.length with _ | ⟨d, last⟩
    · rfl
    · by_cases hd : d = '\x7d'
      · subst hd
        rfl
      · simp [hd]
  · by_cases hc : c = '\x7d'
    · subst hc
      simp only [List.cons_append]
      split <;> rfl
    · simp [hc, hcomma]

theorem extends_readRepeat? (c : Char) : Extends (readRepeat? c) (readRepeat? c) := by
  refine Extends.ite (fun _ => .pure _) fun _ => ?_
  refine Extends.ite (fun _ => .pure _) fun _ => ?_
  refine Extends.ite (fun _ => .pure _) fun _ => ?_
  refine Extends.ite (fun _ => ?_) fun _ => .pure _
  refine Extends.left_bind fun here => ?_
  refine Extends.get_bind fun s => ?_
  rw [rest_longer, boundDigits?_append_dollar]
  -- without bounds the brace stands for itself, and nothing more is taken
  cases hbounds : boundDigits? s.rest with
  | none => exact Extends.pure none s
  | some r =>
    obtain ⟨⟨low, high⟩, rest⟩ := r
    intro bounds t h
    obtain ⟨_, u, hjump, h⟩ := run_bind_eq_ok.1 h
    refine ⟨(run_bind_of_ok (run_jump_longer hjump)).trans ?_, fun hs => ?_⟩
    · refine (((extends_boundOf low).bind fun least => ?_) u bounds t h).1
      refine (extends_boundOf high).bind fun most => ?_
      exact Extends.check .throw (.pure _)
    · rw [hs] at hbounds
      cases hbounds

/-- What is repeated is the last of the items, so others may stand before them. -/
theorem extends_repeatLast (r : Repeat) (here here' : Nat) (seen below : List Item) :
    Extends (do return (← repeatLast r here seen) ++ below) (repeatLast r here' (seen ++ below)) := by
  rcases seen with _ | ⟨⟨kind, p⟩, before⟩
  · exact .of_fails Fails.throw.bind
  cases kind with
  | edge => exact .of_fails Fails.throw.bind
  | repetition => exact .of_fails Fails.throw.bind
  | plain =>
    simp only [repeatLast, bind_assoc, ite_bind, pure_bind]
    refine (Extends.accept (by decide)).bind fun lazy => ?_
    refine Extends.ite (fun _ => .pure _) fun _ => ?_
    refine (Extends.accept (by decide)).bind fun whole => ?_
    exact Extends.ite (fun _ => .pure _) fun _ => .pure _

/-! ## Groups -/

theorem extends_readCondition : Extends readCondition readCondition := by
  refine extends_nameUntil.bind fun name => ?_
  extract_lets after
  have hafter : ∀ number, Extends (after number) (after number) := fun number =>
    (extends_checkGuard number).bind fun _ => .pure _
  refine Extends.ite (fun _ => (extends_groupNamed name).bind hafter) fun _ => ?_
  split
  · exact .of_fails Fails.stop.bind
  · next n _ _ =>
    refine Extends.check .stop ?_
    refine Extends.left_bind fun here => ?_
    refine Extends.bind ?_ fun _ => ?_
    · refine Extends.changeGroups fun g => ?_
      have hhas : Entries.has g.shift.asked n = Entries.has g.asked n := by
        rw [Bool.eq_iff_iff, Entries.has_iff, Entries.has_iff, Groups.shift, Entries.keys, List.map_map]
        rfl
      have hhere : here + 1 + name.length + 1 = here + name.length + 1 + 1 := by omega
      rw [hhas]
      split
      · rfl
      · simp [Groups.shift, hhere]
    · exact (Extends.pure n).bind hafter
  · exact .of_fails Fails.stop.bind

theorem extends_readNamed (o : Options) : Extends (readNamed o) (readNamed o) := by
  refine (Extends.accept (by decide)).bind fun named => ?_
  refine Extends.ite (fun _ => ?_) fun _ => ?_
  · refine extends_nameUntil.bind fun name => (extends_checkGroupName name).bind fun _ => ?_
    exact (extends_openGroup _).bind fun _ => .pure _
  · refine (Extends.accept (by decide)).bind fun again => ?_
    refine Extends.ite (fun _ => ?_) fun _ => ?_
    · refine extends_nameUntil.bind fun name => (extends_checkGroupName name).bind fun _ => ?_
      exact (extends_groupNamed name).bind fun _ => (extends_referTo _ _ _).bind fun _ => .pure _
    · refine Extends.next_bind .stop fun token => ?_
      split
      · exact .of_fails .stop
      · exact .of_fails .stop

theorem extends_readBehind : Extends readBehind readBehind := by
  refine Extends.next_bind .stop fun token => ?_
  split
  · exact .of_fails .stop
  · exact .pure _
  · exact .pure _
  · exact .of_fails .stop

theorem extends_readOpening (o : Options) (opened opened' : Nat) :
    Extends (readOpening o opened) (readOpening o opened') := by
  refine (Extends.accept (by decide)).bind fun special => ?_
  refine Extends.ite (fun _ => (extends_openGroup none).bind fun _ => .pure _) fun _ => ?_
  refine Extends.next_bind .stop fun token => ?_
  split
  · exact .of_fails .stop
  · exact extends_readNamed o
  · exact .pure _
  · refine Extends.left_bind fun n => ?_
    exact Extends.skipPast_bind (by omega) .throw (.pure _)
  · exact .pure _
  · exact .pure _
  · exact extends_readBehind
  · exact extends_readCondition.bind fun _ => .pure _
  · exact .pure _
  · refine Extends.ite (fun _ => ?_) fun _ => .of_fails .stop
    exact (extends_readScope o opened opened' _).bind fun _ => .pure _

/-- At the end no parenthesis is found. -/
theorem run_accept_of_nil {c : Char} (hs : s.rest = []) : (accept c).run s = .ok (false, s) := by
  obtain ⟨rest, groups⟩ := s
  obtain rfl : rest = [] := hs
  refine (run_bind_of_ok peek_nil).trans ?_
  rw [if_neg (List.cons_ne_nil _ _).symm]
  rfl

theorem extends_expectClose (opened opened' : Nat) : Extends (expectClose opened) (expectClose opened') :=
  (Extends.accept (by decide)).bind fun _ => Extends.ite (fun _ => .of_fails .throw) fun _ => .pure _

theorem rest_ne_nil_of_expectClose {opened : Nat} (h : (expectClose opened).run s = .ok ((), t)) :
    s.rest ≠ [] := by
  intro hs
  obtain ⟨_, _, haccept, h⟩ := run_bind_eq_ok.1 h
  rw [run_accept_of_nil hs] at haccept
  cases haccept
  cases h

/-- What stands in parentheses leaves at least the closing one. -/
theorem Inside.close (hm : Inside m m') (opened opened' : Nat) (hk : ∀ a, Extends (k a) (k' a)) :
    Extends (m >>= fun a => expectClose opened >>= fun _ => k a)
      (m' >>= fun a => expectClose opened' >>= fun _ => k' a) := by
  intro s b t h
  obtain ⟨a, u, ha, h⟩ := run_bind_eq_ok.1 h
  obtain ⟨hm, hmends⟩ := hm s a u ha
  obtain ⟨_, _, hclose, -⟩ := run_bind_eq_ok.1 h
  obtain ⟨hrest, hends⟩ := ((extends_expectClose opened opened').bind fun _ => hk a) u b t h
  exact ⟨(run_bind_of_ok (hm (rest_ne_nil_of_expectClose hclose))).trans hrest, fun hs => hends (hmends hs)⟩

/-! ## Items -/

/-- The items after a character that is not left out, which has been taken, is read too. -/
def readCharItem (fuel : Nat) (o : Options) (here : Nat) (seen : List Item) (c : Char) :
    Scanner (List Item) := do
  if c = '^' then return ⟨.edge, .start o.eachLine⟩ :: seen
  else if c = '$' then return ⟨.edge, .finish o.eachLine⟩ :: seen
  else if c = '.' then return ⟨.plain, .one (if o.anyChar then .any else .anyInLine)⟩ :: seen
  else if c = '[' then
    let negated ← accept '^'
    let items ← readClass o.ascii here here []
    return ⟨.plain, o.oneOf negated items⟩ :: seen
  else if c = '(' then
    let inner ← readGroup fuel o here
    return inner.toList.map (⟨.plain, ·⟩) ++ seen
  else
    match ← readRepeat? c with
    | some r => repeatLast r here seen
    | none => return ⟨.plain, o.oneOf false [.range c.toNat c.toNat]⟩ :: seen

/-- The items after a token, which has been taken, is read too. -/
def readItem (fuel : Nat) (o : Options) (here : Nat) (seen : List Item) : List Char → Scanner (List Item)
  | ['\\', c] => do return (← readEscape o.ascii o.cases c).toItem o :: seen
  | [] => return seen
  | c :: _ => do
    if o.spaced && isSpacing c then return seen
    else if o.spaced && c = '#' then
      let _ ← skipPast '\n' here
      return seen
    else readCharItem fuel o here seen c

/-- The two patterns of a condition; the second may be missing. -/
def readYesNo (fuel : Nat) (o : Options) : Scanner (Pattern × Pattern) := do
  let yes ← readSequence fuel o []
  if ← accept '|' then
    let no ← readSequence fuel o []
    if (← peek) = ['|'] then stop "conditional backref with more than two branches"
    return (yes, no)
  else return (yes, .empty)

/-- A sequence is read item by item. -/
theorem readSequence_succ (fuel : Nat) (o : Options) (seen : List Item) :
    readSequence (fuel + 1) o seen = (do
      let here ← left
      let token ← peek
      if token ∈ [[], ['|'], [')']] then return sequence seen
      let _ ← next
      readSequence fuel o (← readItem fuel o here seen token)) := by
  rw [readSequence]
  refine congrArg _ (funext fun here => congrArg _ (funext fun token => ?_))
  split
  · rfl
  · rfl
  · rfl
  · next c =>
    rw [if_neg (by simp)]
    simp only [readItem, bind_assoc, pure_bind]
  · next c rest hbar hclose hescape =>
    have hstop : c :: rest ∉ [[], ['|'], [')']] := by
      simp only [List.mem_cons, List.cons.injEq, reduceCtorEq, List.not_mem_nil, or_false, false_or]
      rintro (⟨hc, hrest⟩ | ⟨hc, hrest⟩)
      · exact hbar hc hrest
      · exact hclose hc hrest
    rw [if_neg hstop]
    refine congrArg _ (funext fun _ => ?_)
    rw [readItem, readCharItem]
    · simp only [ite_bind, bind_assoc, pure_bind]
      congr
      funext r
      cases r <;> rfl
    · rintro d rfl rfl
      exact hescape d rfl rfl

/-! ## Sequences -/

section Sequences

variable {fuel : Nat} {o : Options} {seen items : List Item} {token : List Char}

theorem run_readSequence_stop (hpeek : peek.run s = .ok (token, s)) (hstop : token ∈ [[], ['|'], [')']]) :
    (readSequence (fuel + 1) o seen).run s = .ok (Pattern.sequence seen, s) := by
  rw [readSequence_succ]
  refine (run_bind_of_ok rfl).trans ((run_bind_of_ok hpeek).trans ?_)
  rw [if_pos hstop]
  rfl

theorem run_readSequence_item (hpeek : peek.run s = .ok (token, s)) (hstop : token ∉ [[], ['|'], [')']])
    {item : List Char} (hnext : next.run s = .ok (item, u)) :
    (readSequence (fuel + 1) o seen).run s =
      (readItem fuel o s.rest.length seen token >>= readSequence fuel o).run u := by
  rw [readSequence_succ]
  refine (run_bind_of_ok rfl).trans ((run_bind_of_ok hpeek).trans ?_)
  rw [if_neg hstop]
  exact run_bind_of_ok hnext

/-- What reading a sequence does on the longer text if it ends in the state `t` with the given items, after
others below them: it reads the same items, and at the end the dollar sign is one more of them. -/
structure Continues (fuel : Nat) (o : Options) (seen : List Item) (s : Scan) (items : List Item) (t : Scan) :
    Prop where
  ends : s.rest = [] → t.rest = []
  inside : ∀ {fuel'} below, fuel ≤ fuel' → t.rest ≠ [] →
    (readSequence fuel' o (seen ++ below)).run s.longer = .ok (sequence (items ++ below), t.longer)
  atEnd : ∀ {fuel'} below, fuel ≤ fuel' → o.spaced = false → t.rest = [] →
    (readSequence (fuel' + 1) o (seen ++ below)).run s.longer =
      .ok (sequence (⟨.edge, .finish o.eachLine⟩ :: (items ++ below)), { t.longer with rest := [] })

theorem Continues.of_item {s' : Scan} {seen' : List Item} (h : Continues fuel o seen' s' items t)
    (hends : s.rest = [] → s'.rest = [])
    (hstep : ∀ {fuel'} below, fuel ≤ fuel' → (o.spaced = false ∨ s'.rest ≠ []) →
      (readSequence (fuel' + 1) o (seen ++ below)).run s.longer =
        (readSequence fuel' o (seen' ++ below)).run s'.longer) :
    Continues (fuel + 1) o seen s items t where
  ends hs := h.ends (hends hs)
  inside {fuel'} below hfuel ht := by
    obtain ⟨fuel', rfl, hle⟩ := exists_eq_succ_of_succ_le hfuel
    rw [hstep below hle (.inr fun hs' => ht (h.ends hs'))]
    exact h.inside below hle ht
  atEnd {fuel'} below hfuel hspaced ht := by
    obtain ⟨fuel', rfl, hle⟩ := exists_eq_succ_of_succ_le hfuel
    rw [hstep below (Nat.le_succ_of_le hle) (.inl hspaced)]
    exact h.atEnd below hle hspaced ht

/-- A sequence that ends where it begins. -/
theorem Continues.of_stop (hpeek : peek.run s = .ok (token, s)) (hstop : token ∈ [[], ['|'], [')']]) :
    Continues (fuel + 1) o seen s seen s := by
  obtain ⟨-, ⟨hrest, -⟩ | ⟨hne, ⟨rest, hrest⟩, hlonger⟩⟩ := peek_cases hpeek
  · refine ⟨id, fun below hfuel ht => absurd hrest ht, fun {fuel'} below hfuel hspaced _ => ?_⟩
    obtain ⟨fuel', rfl, -⟩ := exists_eq_succ_of_succ_le hfuel
    -- the dollar sign is read as an item, and then nothing is left
    have hnext : next.run s.longer = .ok (['$'], { s.longer with rest := [] }) := by
      obtain ⟨rest, groups⟩ := s
      obtain rfl : rest = [] := hrest
      rfl
    have hitem (fuel here : Nat) : readItem fuel o here (seen ++ below) ['$'] =
        pure (⟨.edge, .finish o.eachLine⟩ :: (seen ++ below)) := by
      simp [readItem, readCharItem, hspaced]
    rw [run_readSequence_item (peek_longer_of_nil hrest) (by decide) hnext, hitem, pure_bind]
    exact run_readSequence_stop peek_nil (by decide)
  · have hs : s.rest ≠ [] := by
      rw [hrest]
      exact List.append_ne_nil_of_left_ne_nil hne _
    refine ⟨id, fun {fuel'} below hfuel _ => ?_, fun below _ _ ht => absurd ht hs⟩
    obtain ⟨fuel', rfl, -⟩ := exists_eq_succ_of_succ_le hfuel
    exact run_readSequence_stop hlonger hstop

end Sequences

/-- The readers with the given fuel do the same on the longer text, with that fuel or more. -/
structure Readers (fuel : Nat) : Prop where
  alternatives : ∀ {fuel'}, fuel ≤ fuel' → ∀ o, Inside (readAlternatives fuel o) (readAlternatives fuel' o)
  sequence : ∀ {o seen s p t}, (readSequence fuel o seen).run s = .ok (p, t) →
    ∃ items, p = Pattern.sequence items ∧ Continues fuel o seen s items t
  group : ∀ {fuel'}, fuel ≤ fuel' → ∀ o opened opened',
    Extends (readGroup fuel o opened) (readGroup fuel' o opened')

namespace Readers

variable {fuel fuel' here here' : Nat} {o : Options} {seen items : List Item} {token : List Char}
  {p : Pattern}

theorem inside_readSequence (h : Readers fuel) (hfuel : fuel ≤ fuel') (o : Options) (seen : List Item) :
    Inside (readSequence fuel o seen) (readSequence fuel' o seen) := by
  intro s p t hp
  obtain ⟨items, rfl, hcontinues⟩ := h.sequence hp
  refine ⟨fun ht => ?_, hcontinues.ends⟩
  simpa using hcontinues.inside [] hfuel ht

theorem extends_readCharItem (h : Readers fuel) (hfuel : fuel ≤ fuel') (hhere : here ≤ here')
    (seen below : List Item) (c : Char) :
    Extends (do return (← readCharItem fuel o here seen c) ++ below)
      (readCharItem fuel' o here' (seen ++ below) c) := by
  simp only [readCharItem, ite_bind, bind_assoc, pure_bind, List.append_assoc]
  refine Extends.ite (fun _ => .pure _) fun _ => ?_
  refine Extends.ite (fun _ => .pure _) fun _ => ?_
  refine Extends.ite (fun _ => .pure _) fun _ => ?_
  refine Extends.ite (fun _ => ?_) fun _ => ?_
  · refine (Extends.accept (by decide)).bind fun negated => ?_
    exact (extends_readClass hhere _ _ _ _).bind fun items => .pure _
  refine Extends.ite (fun _ => (h.group hfuel _ _ _).bind fun _ => .pure _) fun _ => ?_
  refine (extends_readRepeat? c).bind fun r => ?_
  cases r with
  | none => exact .pure _
  | some r => exact extends_repeatLast r here here' seen below

/-- Only a comment can have come to the end without a fault. -/
theorem readItem_longer (h : Readers fuel) (hitem : (readItem fuel o here seen token).run s = .ok (items, t))
    (hrest : s.rest.length ≤ here) :
    (s.rest = [] → t.rest = []) ∧ ∀ {fuel' here'} below, fuel ≤ fuel' → here ≤ here' →
      (o.spaced = false ∨ t.rest ≠ []) →
        (readItem fuel' o here' (seen ++ below) token).run s.longer = .ok (items ++ below, t.longer) := by
  unfold readItem at hitem
  split at hitem
  -- an escape
  · next c =>
    obtain ⟨e, u, he, ⟨⟩⟩ := run_bind_eq_ok.1 hitem
    obtain ⟨hlonger, hends⟩ := extends_readEscape _ _ _ s e _ he
    exact ⟨hends, fun below _ _ _ => run_bind_of_ok hlonger⟩
  · cases hitem
    exact ⟨id, fun _ _ _ _ => rfl⟩
  -- any other character, which may be left out or begin a comment
  · next c rest hescape =>
    have hread (fuel here : Nat) (seen : List Item) : readItem fuel o here seen (c :: rest) =
        if o.spaced && isSpacing c then return seen
        else if o.spaced && c = '#' then skipPast '\n' here >>= fun _ => return seen
        else readCharItem fuel o here seen c := by
      rw [readItem]
      exact hescape
    by_cases hblank : (o.spaced && isSpacing c) = true
    · simp only [hread, if_pos hblank] at hitem ⊢
      cases hitem
      exact ⟨id, fun _ _ _ _ => rfl⟩
    by_cases hcomment : (o.spaced && c = '#') = true
    · simp only [hread, if_neg hblank, if_pos hcomment] at hitem ⊢
      obtain ⟨found, u, hskip, ⟨⟩⟩ := run_bind_eq_ok.1 hitem
      cases found with
      | false =>
        have ht := rest_eq_nil_of_skipPast hskip hrest
        refine ⟨fun _ => ht, fun below _ _ hopen => ?_⟩
        rcases hopen with hspaced | hopen
        · simp [hspaced] at hcomment
        · exact absurd ht hopen
      | true =>
        have hs := (run_skipPast_longer hskip (Nat.le_refl _)).2
        refine ⟨fun hrest => absurd hrest hs, fun below _ hhere _ => ?_⟩
        exact run_bind_of_ok (run_skipPast_longer hskip hhere).1
    · simp only [hread, if_neg hblank, if_neg hcomment] at hitem ⊢
      have hextends {fuel' here'} below (hfuel : fuel ≤ fuel') (hhere : here ≤ here') :=
        h.extends_readCharItem hfuel hhere seen below c s _ t (run_bind_eq_ok.2 ⟨items, t, hitem, rfl⟩)
      refine ⟨(hextends [] (Nat.le_refl _) (Nat.le_refl _)).2, fun below hfuel hhere _ => ?_⟩
      exact (hextends below hfuel hhere).1

theorem sequence_succ (h : Readers fuel) (hp : (readSequence (fuel + 1) o seen).run s = .ok (p, t)) :
    ∃ items, p = Pattern.sequence items ∧ Continues (fuel + 1) o seen s items t := by
  have hp' := hp
  rw [readSequence_succ] at hp'
  obtain ⟨_, _, ⟨⟩, hp'⟩ := run_bind_eq_ok.1 hp'
  obtain ⟨token, _, hpeek, hp'⟩ := run_bind_eq_ok.1 hp'
  obtain ⟨rfl, hcases⟩ := peek_cases hpeek
  by_cases hstop : token ∈ [[], ['|'], [')']]
  · rw [run_readSequence_stop hpeek hstop] at hp
    cases hp
    exact ⟨seen, rfl, .of_stop hpeek hstop⟩
  rw [if_neg hstop] at hp'
  obtain ⟨item, v, hnext, hp'⟩ := run_bind_eq_ok.1 hp'
  obtain ⟨seen', s', hitem, hp'⟩ := run_bind_eq_ok.1 hp'
  obtain ⟨items, rfl, hcontinues⟩ := h.sequence hp'
  -- at the end the sequence would have stopped, so there is a token, and it is taken
  rcases hcases with ⟨-, rfl⟩ | ⟨hne, ⟨rest, hrest⟩, hpeek'⟩
  · exact absurd List.mem_cons_self hstop
  rcases next_cases hnext with ⟨hrest', -⟩ | ⟨hne', hrest', hnext'⟩
  · rw [hrest'] at hrest
    exact absurd (List.append_eq_nil_iff.1 hrest.symm).1 hne
  have hlength := length_rest_lt hne' hrest'
  obtain ⟨-, hlonger⟩ := h.readItem_longer hitem (Nat.le_of_lt hlength)
  refine ⟨items, rfl, hcontinues.of_item (fun hs => absurd hs (ne_nil_of_append hne' hrest')) ?_⟩
  intro fuel' below hfuel hopen
  rw [run_readSequence_item hpeek' hstop hnext']
  refine run_bind_of_ok (hlonger below hfuel ?_ hopen)
  rw [rest_longer, List.length_append]
  exact Nat.le_add_right _ _

theorem alternatives_succ (h : Readers fuel) (hfuel : fuel + 1 ≤ fuel') (o : Options) :
    Inside (readAlternatives (fuel + 1) o) (readAlternatives fuel' o) := by
  obtain ⟨fuel', rfl, hle⟩ := exists_eq_succ_of_succ_le hfuel
  rw [readAlternatives, readAlternatives]
  refine (h.inside_readSequence hle o []).bind fun p => ?_
  refine (Extends.accept (by decide)).inside.bind fun bar => ?_
  refine Inside.ite (fun _ => ?_) fun _ => (Extends.pure _).inside
  exact (h.alternatives hle o).bind fun _ => (Extends.pure _).inside

theorem inside_readYesNo (h : Readers fuel) (hfuel : fuel ≤ fuel') (o : Options) :
    Inside (readYesNo fuel o) (readYesNo fuel' o) := by
  refine (h.inside_readSequence hfuel o []).bind fun yes => ?_
  refine (Extends.accept (by decide)).inside.bind fun bar => ?_
  refine Inside.ite (fun _ => ?_) fun _ => (Extends.pure _).inside
  refine (h.inside_readSequence hfuel o []).bind fun no => inside_peek.bind fun token => ?_
  exact Inside.ite (fun _ => (Extends.of_fails Fails.stop.bind).inside) fun _ => (Extends.pure _).inside

theorem group_succ (h : Readers fuel) (hfuel : fuel + 1 ≤ fuel') (o : Options) (opened opened' : Nat) :
    Extends (readGroup (fuel + 1) o opened) (readGroup fuel' o opened') := by
  obtain ⟨fuel', rfl, hle⟩ := exists_eq_succ_of_succ_le hfuel
  rw [readGroup, readGroup]
  refine (extends_readOpening o opened opened').bind fun opening => ?_
  cases opening with
  | comment => exact .pure _
  | again p => exact .pure _
  | numbered number =>
    refine Inside.close (h.alternatives hle o) _ _ fun p => ?_
    exact (extends_closeGroup number p).bind fun _ => .pure _
  | plain inner => exact Inside.close (h.alternatives hle inner) _ _ fun p => .pure _
  | atomic => exact Inside.close (h.alternatives hle o) _ _ fun p => .pure _
  | ahead negated => exact Inside.close (h.alternatives hle o) _ _ fun p => .pure _
  | behind negated => exact Inside.close (inside_fixedWidth (h.alternatives hle o)) _ _ fun r => .pure _
  -- the two patterns of a condition are read as one part, as no parenthesis closes the first
  | condition number =>
    have hclose := Inside.close (h.inside_readYesNo hle o) opened opened'
      fun r => Extends.pure (some (ifGroup number r.1 r.2))
    simpa only [readYesNo, bind_assoc, ite_bind, pure_bind] using hclose

end Readers

theorem readers (fuel : Nat) : Readers fuel := by
  induction fuel with
  | zero =>
    exact {
      alternatives := fun _ _ => (Extends.of_fails .stop).inside
      sequence := fun hp => absurd hp (Fails.stop _ _)
      group := fun _ _ _ _ => .of_fails .stop }
  | succ fuel ih =>
    exact {
      alternatives := ih.alternatives_succ
      sequence := ih.sequence_succ
      group := ih.group_succ }

end RegionLogic.Pattern
