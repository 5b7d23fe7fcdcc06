import Mathlib.Data.List.Basic
import RegionLogic.Term.Token

/-!
# Reading and writing tokens

The slashes at the end of a term are projections. What stands before them, its core, is a constant, a
reference, a comparison or a simple term, as its shape says. Each term that has a token is the written form
of that token and of no other.

## Main definitions

* `Token.depth`, `Token.PlainFrom`, `Token.SplitsAt`: brackets, and operators outside them
* `Token.Single`, `Token.IsCore`: the texts that are terms
* `Token.Spells`: the token of a core
* `Token.projections`: a token with projections around it

## Main results

* `Token.splitAtOperator?_eq_some_iff`: the scan finds the first operator outside brackets
* `Token.readCore_eq_ok_iff`, `Token.readChars_eq_ok_iff`: which texts have a token, and which one
* `Token.exists_cause_of_read`: what has no token is malformed, and nothing else is wrong with it
* `Token.write_inverts_read`: reading and writing are inverse to each other
-/

namespace RegionLogic

theorem Constant.ofChars?_eq_some_iff {cs : List Char} {c : Constant} :
    ofChars? cs = some c ↔ cs = c.word.toList := by
  constructor
  · intro h
    have hword := List.find?_some h
    exact (of_decide_eq_true hword).symm
  · rintro rfl
    cases c <;> decide

theorem Operator.ofChar?_eq_some_iff {c : Char} {op : Operator} :
    ofChar? c = some op ↔ c = op.char := by
  constructor
  · intro h
    unfold ofChar? at h
    split at h
    · next hc => cases Option.some.inj h; exact hc
    split at h
    · next hc => cases Option.some.inj h; exact hc
    split at h
    · next hc => cases Option.some.inj h; exact hc
    · cases h
  · rintro rfl
    cases op <;> decide

theorem Operator.char_inj {op op' : Operator} : op.char = op'.char ↔ op = op' := by
  cases op <;> cases op' <;> decide

/-- The words of the constants hold no operators. -/
theorem Constant.char_not_mem_word (c : Constant) (op : Operator) : op.char ∉ c.word.toList := by
  cases c <;> cases op <;> decide

/-- No constant begins as a reference does. -/
theorem Constant.head?_word (c : Constant) : c.word.toList.head? ≠ some '*' := by
  cases c <;> decide

namespace Token

variable {c : Char} {cs core left right : List Char} {d : Int} {op : Operator} {t inner : Token}
  {slashes : Nat} {fault : Fault}

/-! ## Operators outside brackets -/

/-- What a character adds to the number of open brackets. -/
def bracket (c : Char) : Int := if c = '[' then 1 else if c = ']' then -1 else 0

/-- The opening brackets less the closing ones. Where brackets close before they open it is negative. -/
def depth (cs : List Char) : Int := cs.count '[' - cs.count ']'

@[simp] theorem depth_nil : depth [] = 0 := rfl

theorem depth_cons (c : Char) (cs : List Char) : depth (c :: cs) = bracket c + depth cs := by
  unfold depth bracket
  by_cases hopen : c = '['
  · simp [hopen]
    omega
  · by_cases hclose : c = ']'
    · simp [hclose]
      omega
    · simp [hopen, hclose]

/-- No operator stands outside brackets, where `d` brackets are open at the beginning. -/
def PlainFrom (d : Int) (cs : List Char) : Prop :=
  ∀ (before : List Char) (op : Operator) (after : List Char),
    cs = before ++ op.char :: after → d + depth before ≠ 0

theorem plainFrom_nil (d : Int) : PlainFrom d [] := by
  intro before op after h
  simp at h

theorem plainFrom_cons :
    PlainFrom d (c :: cs) ↔ (d = 0 → ∀ op : Operator, c ≠ op.char) ∧ PlainFrom (d + bracket c) cs := by
  constructor
  · intro h
    refine ⟨?_, ?_⟩
    · rintro rfl op rfl
      exact h [] op cs rfl (by simp)
    · rintro before op after rfl
      have hnext := h (c :: before) op after rfl
      rw [depth_cons] at hnext
      omega
  · rintro ⟨hfirst, hrest⟩ before op after h
    cases before with
    | nil =>
      obtain ⟨rfl, -⟩ := List.cons.inj h
      intro hd
      exact hfirst (by simpa using hd) op rfl
    | cons b before =>
      obtain ⟨rfl, rfl⟩ := List.cons.inj h
      have hnext := hrest before op after rfl
      rw [depth_cons]
      omega

/-- The scan stops at an operator where no bracket is open. -/
theorem splitAtOperator?_operator (op : Operator) (cs : List Char) :
    splitAtOperator? 0 (op.char :: cs) = some ([], op, cs) := by
  cases op <;> rfl

/-- The scan goes on past any other character. -/
theorem splitAtOperator?_other (h : d = 0 → ∀ op : Operator, c ≠ op.char) (cs : List Char) :
    splitAtOperator? d (c :: cs) = splitAtOperator?.cons c (splitAtOperator? (d + bracket c) cs) := by
  have hnone : (if d = 0 then Operator.ofChar? c else none) = none := by
    split
    · next hd =>
      refine Option.eq_none_iff_forall_ne_some.2 fun op hop => ?_
      exact h hd op (Operator.ofChar?_eq_some_iff.1 hop)
    · rfl
  rw [splitAtOperator?]
  by_cases hopen : c = '['
  · simp [hopen, bracket]
  · by_cases hclose : c = ']'
    · simp [hclose, bracket]
      rfl
    · rw [if_neg hopen, if_neg hclose, hnone]
      simp [hopen, hclose, bracket]

theorem cons_eq_some_iff {r : Option (List Char × Operator × List Char)} :
    splitAtOperator?.cons c r = some (left, op, right) ↔
      ∃ left', left = c :: left' ∧ r = some (left', op, right) := by
  cases r with
  | none => simp [splitAtOperator?.cons]
  | some r =>
    obtain ⟨left', op', right'⟩ := r
    simp only [splitAtOperator?.cons, Option.some.injEq, Prod.mk.injEq]
    constructor
    · rintro ⟨rfl, rfl, rfl⟩
      exact ⟨left', rfl, rfl, rfl, rfl⟩
    · rintro ⟨_, rfl, rfl, rfl, rfl⟩
      exact ⟨rfl, rfl, rfl⟩

/-- The scan finds the first operator outside brackets. -/
theorem splitAtOperator?_eq_some_iff :
    splitAtOperator? d cs = some (left, op, right) ↔
      cs = left ++ op.char :: right ∧ d + depth left = 0 ∧ PlainFrom d left := by
  -- The number of open brackets changes from character to character, so the induction is for all of them.
  induction cs generalizing d left with
  | nil => simp [splitAtOperator?]
  | cons c cs ih =>
    by_cases hstop : d = 0 ∧ ∃ op' : Operator, c = op'.char
    · obtain ⟨rfl, op', rfl⟩ := hstop
      rw [splitAtOperator?_operator]
      constructor
      · intro h
        obtain ⟨rfl, rfl, rfl⟩ := by simpa using h
        exact ⟨rfl, by simp, plainFrom_nil 0⟩
      · rintro ⟨h, -, hplain⟩
        cases left with
        | nil =>
          obtain ⟨hop, rfl⟩ := List.cons.inj h
          rw [Operator.char_inj.1 hop]
        | cons b left =>
          -- more than nothing before the operator would not be plain
          obtain ⟨rfl, -⟩ := List.cons.inj h
          exact absurd rfl ((plainFrom_cons.1 hplain).1 rfl op')
    · -- the scan goes on, with one more character on the left
      have hother : d = 0 → ∀ op' : Operator, c ≠ op'.char :=
        fun hd op' hc => hstop ⟨hd, op', hc⟩
      rw [splitAtOperator?_other hother, cons_eq_some_iff]
      constructor
      · rintro ⟨left', rfl, h⟩
        obtain ⟨rfl, hdepth, hplain⟩ := ih.1 h
        refine ⟨rfl, ?_, plainFrom_cons.2 ⟨hother, hplain⟩⟩
        rw [depth_cons]
        omega
      · rintro ⟨h, hdepth, hplain⟩
        cases left with
        | nil =>
          -- the scan would have stopped
          obtain ⟨rfl, -⟩ := List.cons.inj h
          exact absurd rfl (hother (by simpa using hdepth) op)
        | cons b left =>
          obtain ⟨rfl, rfl⟩ := List.cons.inj h
          rw [depth_cons] at hdepth
          exact ⟨left, rfl, ih.2 ⟨rfl, by omega, (plainFrom_cons.1 hplain).2⟩⟩

theorem splitAtOperator?_eq_none_iff : splitAtOperator? d cs = none ↔ PlainFrom d cs := by
  induction cs generalizing d with
  | nil => exact iff_of_true rfl (plainFrom_nil d)
  | cons c cs ih =>
    by_cases hstop : d = 0 ∧ ∃ op : Operator, c = op.char
    · obtain ⟨rfl, op, rfl⟩ := hstop
      rw [splitAtOperator?_operator, plainFrom_cons]
      constructor
      · rintro ⟨⟩
      · rintro ⟨h, -⟩
        exact absurd rfl (h rfl op)
    · have hother : d = 0 → ∀ op : Operator, c ≠ op.char := fun hd op hc => hstop ⟨hd, op, hc⟩
      rw [splitAtOperator?_other hother, plainFrom_cons, ← ih, and_iff_right hother]
      cases splitAtOperator? (d + bracket c) cs <;> simp [splitAtOperator?.cons]

/-! ## The token of a core -/

/-- The first operator outside brackets, with what stands before and after it. -/
structure SplitsAt (cs left : List Char) (op : Operator) (right : List Char) : Prop where
  eq : cs = left ++ op.char :: right
  outside : depth left = 0
  first : PlainFrom 0 left

theorem splitsAt_iff : splitAtOperator? 0 cs = some (left, op, right) ↔ SplitsAt cs left op right := by
  rw [splitAtOperator?_eq_some_iff, Int.zero_add]
  constructor
  · rintro ⟨heq, houtside, hfirst⟩
    exact ⟨heq, houtside, hfirst⟩
  · rintro ⟨heq, houtside, hfirst⟩
    exact ⟨heq, houtside, hfirst⟩

/-- A text is the core of a term: a constant, a star with a name after it, or text without a star at its
beginning whose first operator outside brackets, if there is one, has something on both sides. -/
def IsCore (cs : List Char) : Prop :=
  cs ≠ [] ∧
    ((∃ c : Constant, cs = c.word.toList) ∨ (∃ target, target ≠ [] ∧ cs = '*' :: target) ∨
      (cs.head? ≠ some '*' ∧ PlainFrom 0 cs) ∨
      (cs.head? ≠ some '*' ∧ ∃ left op right, SplitsAt cs left op right ∧ left ≠ [] ∧ right ≠ []))

/-- The core `cs` is written for a token. What has the shape of a simple term and is the word of a constant
stands for the constant. -/
inductive Spells : List Char → Token → Prop
  | constant (c : Constant) : Spells c.word.toList (.const c)
  | reference {target : List Char} (h : target ≠ []) : Spells ('*' :: target) (.reference (.ofList target))
  | simple {cs : List Char} (hne : cs ≠ []) (hconstant : ∀ c : Constant, cs ≠ c.word.toList)
      (hstar : cs.head? ≠ some '*') (hplain : PlainFrom 0 cs) : Spells cs (.simple (.ofList cs))
  | comparison {cs left right : List Char} {op : Operator} (hstar : cs.head? ≠ some '*')
      (hsplit : SplitsAt cs left op right) (hleft : left ≠ []) (hright : right ≠ []) :
      Spells cs (.comparison (.ofList left) op (.ofList right))

theorem SplitsAt.ne_word (h : SplitsAt cs left op right) (c : Constant) : cs ≠ c.word.toList := by
  intro hc
  refine c.char_not_mem_word op ?_
  rw [← hc, h.eq]
  simp

theorem isCore_iff : IsCore cs ↔ ∃ t, Spells cs t := by
  constructor
  · rintro ⟨hne, ⟨c, rfl⟩ | ⟨target, htarget, rfl⟩ | ⟨hstar, hplain⟩ |
      ⟨hstar, left, op, right, hsplit, hleft, hright⟩⟩
    · exact ⟨_, .constant c⟩
    · exact ⟨_, .reference htarget⟩
    · -- the words of the constants have this shape as well
      by_cases hconstant : ∃ c : Constant, cs = c.word.toList
      · obtain ⟨c, rfl⟩ := hconstant
        exact ⟨_, .constant c⟩
      · exact ⟨_, .simple hne (fun c hc => hconstant ⟨c, hc⟩) hstar hplain⟩
    · exact ⟨_, .comparison hstar hsplit hleft hright⟩
  · rintro ⟨t, h⟩
    cases h with
    | constant c => exact ⟨by cases c <;> decide, Or.inl ⟨c, rfl⟩⟩
    | reference h => exact ⟨by simp, Or.inr (Or.inl ⟨_, h, rfl⟩)⟩
    | simple hne _ hstar hplain => exact ⟨hne, Or.inr (Or.inr (Or.inl ⟨hstar, hplain⟩))⟩
    | comparison hstar hsplit hleft hright =>
      refine ⟨?_, Or.inr (Or.inr (Or.inr ⟨hstar, _, _, _, hsplit, hleft, hright⟩))⟩
      rw [hsplit.eq]
      simp

/-- The written form of the token of a core is the core. -/
theorem Spells.writeChars (h : Spells cs t) : t.writeChars = cs := by
  cases h with
  | constant c => rfl
  | reference h => simp [Token.writeChars]
  | simple => simp [Token.writeChars]
  | comparison _ hsplit => simp [Token.writeChars, hsplit.eq]

theorem ofChars?_eq_none (h : ∀ c : Constant, cs ≠ c.word.toList) : Constant.ofChars? cs = none :=
  Option.eq_none_iff_forall_ne_some.2 fun c hc => h c (Constant.ofChars?_eq_some_iff.1 hc)

theorem readCore_word (c : Constant) : readCore c.word.toList = .ok (.const c) := by
  cases c <;> rfl

theorem readCore_star (target : List Char) :
    readCore ('*' :: target) =
      if target.isEmpty then .error (.term (.noTarget (shown ('*' :: target))))
      else .ok (.reference (.ofList target)) := by
  have hword : ∀ c : Constant, '*' :: target ≠ c.word.toList := by
    intro c hc
    exact c.head?_word (by rw [← hc]; rfl)
  unfold readCore
  rw [ofChars?_eq_none hword]
  rfl

/-- What is neither a constant nor a reference is split at its first operator. -/
theorem readCore_of_other (hne : cs ≠ []) (hword : ∀ c : Constant, cs ≠ c.word.toList)
    (hstar : cs.head? ≠ some '*') :
    readCore cs =
      match splitAtOperator? 0 cs with
      | some (left, op, right) =>
        if left.isEmpty || right.isEmpty then .error (.term (.incomplete (shown cs)))
        else .ok (.comparison (.ofList left) op (.ofList right))
      | none => .ok (.simple (.ofList cs)) := by
  unfold readCore
  rw [ofChars?_eq_none hword]
  dsimp only
  split
  · exact absurd rfl hne
  · exact absurd rfl hstar
  · rfl

/-- A term that does not end in a slash has the token that it is written for. -/
theorem readCore_eq_ok_iff : readCore cs = .ok t ↔ Spells cs t := by
  constructor
  · intro h
    -- The shapes are tried in this order: constants first, then references, then operators.
    by_cases hconstant : ∃ c : Constant, cs = c.word.toList
    · obtain ⟨c, rfl⟩ := hconstant
      rw [readCore_word] at h
      obtain rfl := Except.ok.inj h
      exact .constant c
    by_cases hne : cs = []
    · subst hne
      cases h
    by_cases hstar : cs.head? = some '*'
    · obtain ⟨target, rfl⟩ := List.head?_eq_some_iff.1 hstar
      rw [readCore_star] at h
      split at h
      · cases h
      · next htarget =>
        obtain rfl := Except.ok.inj h
        exact .reference (by simpa using htarget)
    have hword : ∀ c : Constant, cs ≠ c.word.toList := fun c hc => hconstant ⟨c, hc⟩
    rw [readCore_of_other hne hword hstar] at h
    split at h
    · next left op right hsplit =>
      split at h
      · cases h
      · next hsides =>
        obtain rfl := Except.ok.inj h
        simp only [Bool.or_eq_true, List.isEmpty_iff, not_or] at hsides
        exact .comparison hstar (splitsAt_iff.1 hsplit) hsides.1 hsides.2
    · next hplain =>
      obtain rfl := Except.ok.inj h
      exact .simple hne hword hstar (splitAtOperator?_eq_none_iff.1 hplain)
  · intro h
    cases h with
    | constant c => exact readCore_word c
    | reference h =>
      rw [readCore_star, if_neg]
      simpa using h
    | simple hne hword hstar hplain =>
      rw [readCore_of_other hne hword hstar, splitAtOperator?_eq_none_iff.2 hplain]
    | comparison hstar hsplit hleft hright =>
      have hne : cs ≠ [] := by
        rw [hsplit.eq]
        simp
      rw [readCore_of_other hne hsplit.ne_word hstar, splitsAt_iff.2 hsplit]
      simp [hleft, hright]

/-! ## Projections -/

/-- A token with projections around it. -/
def projections : Nat → Token → Token
  | 0, t => t
  | n + 1, t => .projected (projections n t)

/-- Every text is a core with slashes after it. -/
theorem exists_core (cs : List Char) :
    ∃ core slashes, cs = core ++ List.replicate slashes '/' ∧ core.getLast? ≠ some '/' := by
  fun_induction readProjected cs with
  | case1 cs hslash ih =>
    obtain ⟨core, slashes, hcs, hlast⟩ := ih
    obtain ⟨init, rfl⟩ := List.getLast?_eq_some_iff.1 hslash
    rw [List.dropLast_concat] at hcs
    refine ⟨core, slashes + 1, ?_, hlast⟩
    rw [List.replicate_succ', ← List.append_assoc, hcs]
  | case2 cs hlast => exact ⟨cs, 0, by simp, hlast⟩

theorem readProjected_append_slashes (hlast : core.getLast? ≠ some '/') (slashes : Nat) :
    readProjected (core ++ List.replicate slashes '/') =
      (readCore core).map (projections slashes) := by
  induction slashes with
  | zero =>
    rw [List.replicate_zero, List.append_nil, readProjected_of_getLast?_ne hlast]
    cases readCore core <;> rfl
  | succ slashes ih =>
    rw [List.replicate_succ', ← List.append_assoc, readProjected_snoc_slash, ih]
    cases readCore core <;> rfl

theorem writeChars_projections (slashes : Nat) (t : Token) :
    (projections slashes t).writeChars = t.writeChars ++ List.replicate slashes '/' := by
  induction slashes with
  | zero => simp [projections]
  | succ slashes ih => rw [projections, writeChars, ih, List.append_assoc, List.replicate_succ']

/-! ## Terms -/

/-- A text may be a single term: it is not empty, no character of it is blank or belongs to an expression
that is not yet split, and it has as many opening as closing brackets. -/
structure Single (cs : List Char) : Prop where
  nonempty : cs ≠ []
  noBlank : ∀ c ∈ cs, Text.isBlank c = false
  noExpression : ∀ c ∈ cs, c ∉ ['(', ')', '+', '|']
  balanced : cs.count '[' = cs.count ']'

theorem not_isSeparator_iff : isSeparator c = false ↔ Text.isBlank c = false ∧ c ∉ ['(', ')', '+', '|'] := by
  simp [isSeparator, and_assoc]

theorem readChars_of_single (h : Single cs) : readChars cs = readProjected cs := by
  have hempty : (cs.isEmpty || cs.any isSeparator) = false := by
    simp only [Bool.or_eq_false_iff, List.isEmpty_eq_false_iff, List.any_eq_false, Bool.not_eq_true]
    exact ⟨h.nonempty, fun c hc => not_isSeparator_iff.2 ⟨h.noBlank c hc, h.noExpression c hc⟩⟩
  simp [readChars, hempty, h.balanced]

theorem single_of_readChars (h : readChars cs = .ok t) : Single cs := by
  unfold readChars at h
  split at h
  · cases h
  next hempty =>
  split at h
  · cases h
  next hbalanced =>
  simp only [Bool.or_eq_true, List.isEmpty_iff, List.any_eq_true, not_or, not_exists, not_and,
    Bool.not_eq_true] at hempty
  have hseparator : ∀ c ∈ cs, _ := fun c hc => not_isSeparator_iff.1 (hempty.2 c hc)
  exact ⟨hempty.1, fun c hc => (hseparator c hc).1, fun c hc => (hseparator c hc).2,
    Decidable.not_not.1 hbalanced⟩

/-- A text has a token if it may be a single term and its core is written for a token; the slashes after the
core are projections. -/
theorem readChars_eq_ok_iff (hlast : core.getLast? ≠ some '/')
    (hcs : cs = core ++ List.replicate slashes '/') :
    readChars cs = .ok t ↔ Single cs ∧ ∃ inner, Spells core inner ∧ t = projections slashes inner := by
  have hread : readProjected cs = .ok t ↔ ∃ inner, Spells core inner ∧ t = projections slashes inner := by
    rw [hcs, readProjected_append_slashes hlast]
    simp only [← readCore_eq_ok_iff]
    cases readCore core with
    | error fault => simp [Except.map]
    | ok inner => simp [Except.map, eq_comm]
  constructor
  · intro h
    have hsingle := single_of_readChars h
    rw [readChars_of_single hsingle] at h
    exact ⟨hsingle, hread.1 h⟩
  · rintro ⟨hsingle, hspells⟩
    rw [readChars_of_single hsingle]
    exact hread.2 hspells

/-- A token that has been read is written as the term was. -/
theorem write_of_read {term : String} (h : read term = .ok t) : t.write = term := by
  obtain ⟨core, slashes, hterm, hlast⟩ := exists_core term.toList
  obtain ⟨-, inner, hspells, rfl⟩ := (readChars_eq_ok_iff hlast hterm).1 h
  rw [write, writeChars_projections, hspells.writeChars, ← hterm, String.ofList_toList]

theorem exists_cause_of_readCore (h : readCore cs = .error fault) : ∃ cause, fault = .term cause := by
  unfold readCore at h
  split at h
  · cases h
  split at h
  · exact ⟨_, (Except.error.inj h).symm⟩
  · split at h
    · exact ⟨_, (Except.error.inj h).symm⟩
    · cases h
  · split at h
    · split at h
      · exact ⟨_, (Except.error.inj h).symm⟩
      · cases h
    · cases h

/-- A text without a token is malformed, and nothing else is wrong with it. -/
theorem exists_cause_of_read {term : String} (h : read term = .error fault) :
    ∃ cause, fault = .term cause := by
  unfold read readChars at h
  split at h
  · exact ⟨_, (Except.error.inj h).symm⟩
  split at h
  · exact ⟨_, (Except.error.inj h).symm⟩
  obtain ⟨core, slashes, hterm, hlast⟩ := exists_core term.toList
  rw [hterm, readProjected_append_slashes hlast] at h
  cases hcore : readCore core with
  | error cause =>
    rw [hcore] at h
    exact Except.error.inj h ▸ exists_cause_of_readCore hcore
  | ok inner =>
    rw [hcore] at h
    cases h

/-- Reading and writing are inverse to each other. A text without its slashes at the end is its core. It
has a token if and only if it may be a single term and its core has one of four shapes; the token is the one
that the core is written for, with a projection for each slash. It is written as the text was, it is read
again from what is written, and no other text has it. A text without a token is malformed. -/
theorem write_inverts_read (term : String) :
    ∃ core slashes, term.toList = core ++ List.replicate slashes '/' ∧ core.getLast? ≠ some '/' ∧
      ((∃ t, read term = .ok t) ↔ Single term.toList ∧ IsCore core) ∧
      (∀ t, read term = .ok t →
        (∃ inner, Spells core inner ∧ t = projections slashes inner) ∧
          t.write = term ∧ read t.write = .ok t ∧ ∀ other, read other = .ok t → other = term) ∧
      ∀ fault, read term = .error fault → ∃ cause, fault = .term cause := by
  obtain ⟨core, slashes, hterm, hlast⟩ := exists_core term.toList
  have hread : ∀ t, read term = .ok t ↔
      Single term.toList ∧ ∃ inner, Spells core inner ∧ t = projections slashes inner :=
    fun t => readChars_eq_ok_iff hlast hterm
  refine ⟨core, slashes, hterm, hlast, ?_, ?_, fun fault => exists_cause_of_read⟩
  · constructor
    · rintro ⟨t, h⟩
      obtain ⟨hsingle, inner, hspells, -⟩ := (hread t).1 h
      exact ⟨hsingle, isCore_iff.2 ⟨inner, hspells⟩⟩
    · rintro ⟨hsingle, hcore⟩
      obtain ⟨inner, hspells⟩ := isCore_iff.1 hcore
      exact ⟨_, (hread _).2 ⟨hsingle, inner, hspells, rfl⟩⟩
  · intro t h
    have hwrite := write_of_read h
    refine ⟨((hread t).1 h).2, hwrite, by rwa [hwrite], fun other hother => ?_⟩
    rw [← write_of_read hother, hwrite]

/-- Here the brackets close before they open, and the first operator stands between them. -/
theorem write_inverts_read_between_brackets :
    let t : Token := .projected (.projected (.comparison "]A<B[" .gt "C"))
    read "]A<B[>C//" = .ok t ∧ t.write = "]A<B[>C//" ∧ read t.write = .ok t ∧
      ∀ other, read other = .ok t → other = "]A<B[>C//" := by
  intro t
  have h : read "]A<B[>C//" = .ok t := by decide +kernel
  obtain ⟨core, slashes, -, -, -, hread, -⟩ := write_inverts_read "]A<B[>C//"
  exact ⟨h, (hread t h).2⟩

end Token

end RegionLogic
