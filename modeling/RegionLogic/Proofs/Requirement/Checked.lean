import RegionLogic.Modifier.Classification
import RegionLogic.Proofs.Region.Placement
import RegionLogic.Proofs.Term.Application
import RegionLogic.Requirement.Clause

/-!
# Clauses with checked terms

Each term of a clause that has been read has a token. So its conditions can always be partitioned. More is
asked of the other terms when they are used: the provider has to be a simple term or a reference, and the
brackets of a modifier have to stand around parameters. Neither is checked when the clause is read.

## Main definitions

* `Clause.Checked`, `Clause.Parsable`: every term has a token, or at least every condition
* `Clause.ProviderFits`, `Name.BracketsFit`: what is asked beyond that

## Main results

* `Clause.checked_of_read`: the terms of a clause that has been read
* `Clause.Parsable.exists_partition`, `Clause.exists_parentRegion_iff`,
  `Clause.Checked.exists_referencedNames_iff`: the regions and requirements of such a clause
* `Name.exists_modifierHead_iff`, `ClassificationModel.exists_cause_of_classify_iff`: its modifiers
-/

namespace RegionLogic

variable {c : Clause} {m p term : Name} {fault : Fault} {model : ClassificationModel}

/-- A value that is a name is the value of that name. -/
theorem toJson_of_name {v : Json} (h : v.name = .ok m) : m.toJson = v := by
  cases v <;> cases h <;> rfl

/-- Every condition has a token. -/
def Clause.Parsable (c : Clause) : Prop := ∀ term ∈ c.conditions, ∃ t, Token.ofName term = .ok t

/-- Every term of the clause has a token. -/
structure Clause.Checked (c : Clause) : Prop where
  provider : ∀ term ∈ c.provider, ∃ t, Token.ofName term = .ok t
  conditions : ∀ term ∈ c.conditions, ∃ t, Token.ofName term = .ok t
  modifiers : ∀ term ∈ c.modifiers, ∃ t, Token.ofName term = .ok t

/-- The provider stands for a region: it is a simple term or a reference, if there is one. -/
def Clause.ProviderFits (c : Clause) : Prop :=
  ∀ provider ∈ c.provider, ∃ region,
    Token.ofName provider = .ok (.simple region) ∨ Token.ofName provider = .ok (.reference region)

/-- The brackets of a modifier stand around parameters, unless it is no simple term. -/
def Name.BracketsFit (m : Name) : Prop :=
  ∀ term, Token.ofName m = .ok (.simple term) → Application.InPlace term.toList

namespace Clause

/-- The name of a value, if there is one. -/
theorem toJson_mem_of_mapM {given : Option Json} {named : Option Name}
    (h : given.mapM Json.name = .ok named) (hterm : term ∈ named) : term.toJson ∈ given.toList := by
  cases given with
  | none =>
    obtain rfl := Except.ok.inj h
    cases hterm
  | some v =>
    obtain ⟨name, hname, h⟩ := bind_eq_ok.1 h
    obtain rfl := Except.ok.inj h
    obtain rfl := Option.some.inj hterm
    rw [toJson_of_name hname]
    exact List.mem_singleton_self v

theorem Checked.parsable (h : c.Checked) : c.Parsable := h.conditions

/-- Reading a clause checks its terms. -/
theorem checked_of_read {v : Json} (h : read v = .ok c) : c.Checked := by
  unfold read at h
  obtain ⟨provider, -, h⟩ := bind_eq_ok.1 h
  obtain ⟨_, -, h⟩ := bind_eq_ok.1 h
  obtain ⟨conditions, -, h⟩ := bind_eq_ok.1 h
  obtain ⟨_, -, h⟩ := bind_eq_ok.1 h
  obtain ⟨modifiers, -, h⟩ := bind_eq_ok.1 h
  obtain ⟨ordered, hordered, h⟩ := bind_eq_ok.1 h
  obtain ⟨_, hterms, h⟩ := bind_eq_ok.1 h
  obtain ⟨named, hprovider, h⟩ := bind_eq_ok.1 h
  obtain ⟨names, hmodifiers, h⟩ := bind_eq_ok.1 h
  obtain rfl := Except.ok.inj h
  have htoken {v : Json} (hv : (Token.ofJson v >>= fun _ => pure ()) = Except.ok ()) :
      ∃ t, Token.ofJson v = .ok t := by
    obtain ⟨t, ht, -⟩ := bind_eq_ok.1 hv
    exact ⟨t, ht⟩
  -- the checked terms are the provider, the conditions in their order, and the modifiers
  have hchecked := forall_ok_of_forM hterms
  simp only [List.mem_append] at hchecked
  refine ⟨fun term hterm => ?_, fun term hterm => ?_, fun term hterm => ?_⟩
  · exact htoken (hchecked _ (Or.inl (Or.inl (toJson_mem_of_mapM hprovider hterm))))
  · have hlisted : term ∈ ordered := (mem_of_inOrder hordered).2 hterm
    exact htoken (hchecked _ (Or.inl (Or.inr (List.mem_map_of_mem hlisted))))
  · obtain ⟨v, hv, hname⟩ := exists_left_of_forall₂ (forall₂_of_mapM hmodifiers) hterm
    rw [Token.ofName, toJson_of_name hname]
    exact htoken (hchecked _ (Or.inr hv))

/-! ## The region and the requirements -/

/-- Conditions with tokens can be partitioned. -/
theorem Parsable.exists_partition (h : c.Parsable) : ∃ p, c.partition = .ok p := by
  cases hp : c.partition with
  | ok p => exact ⟨p, rfl⟩
  | error fault =>
    obtain ⟨term, hterm, p, hfault⟩ := exists_error_of_foldlM hp
    obtain ⟨t, ht⟩ := h term hterm
    rw [ht] at hfault
    cases hfault

theorem Parsable.exists_branch (h : c.Parsable) : ∃ b, c.branch = .ok b := by
  obtain ⟨p, hp⟩ := h.exists_partition
  exact ⟨_, bind_eq_ok.2 ⟨p, hp, rfl⟩⟩

theorem exists_providerRegion_iff :
    (∃ region, providerRegion p = .ok region) ↔
      ∃ region, Token.ofName p = .ok (.simple region) ∨ Token.ofName p = .ok (.reference region) := by
  unfold providerRegion
  constructor
  · rintro ⟨region, h⟩
    obtain ⟨t, ht, h⟩ := bind_eq_ok.1 h
    split at h
    · exact ⟨_, Or.inl ht⟩
    · exact ⟨_, Or.inr ht⟩
    · cases h
  · rintro ⟨region, h | h⟩
    · rw [h]
      exact ⟨_, rfl⟩
    · rw [h]
      exact ⟨_, rfl⟩

theorem exists_parentRegion_iff : (∃ region, c.parentRegion = .ok region) ↔ c.ProviderFits := by
  unfold parentRegion ProviderFits
  cases c.provider with
  | none => simp
  | some p => simpa using exists_providerRegion_iff

/-- A provider that has a token and stands for no region is malformed. -/
theorem Checked.exists_cause_of_parentRegion (h : c.Checked) (hp : c.parentRegion = .error fault) :
    ∃ cause, fault = .term cause := by
  unfold parentRegion at hp
  split at hp
  · cases hp
  next provider hprovider =>
  obtain ⟨t, ht⟩ := h.provider provider hprovider
  unfold providerRegion at hp
  rw [ht] at hp
  cases t with
  | simple | reference => cases hp
  | const | projected | comparison => exact ⟨_, (Except.error.inj hp).symm⟩

/-- The names that a clause mentions can be told if its provider stands for a region. -/
theorem Checked.exists_referencedNames_iff (h : c.Checked) :
    (∃ names, c.referencedNames = .ok names) ↔ c.ProviderFits := by
  have hconditions :
      ∃ names, (c.conditions.toList.mapM fun term => return (← Token.ofName term).names) =
        (.ok names : Except Fault (List (List Name))) := by
    cases hn : (c.conditions.toList.mapM fun term => return (← Token.ofName term).names :
      Except Fault (List (List Name))) with
    | ok names => exact ⟨names, rfl⟩
    | error fault =>
      obtain ⟨term, hterm, hfault⟩ := exists_error_of_mapM hn
      obtain ⟨t, ht⟩ := h.conditions term hterm
      rw [ht] at hfault
      cases hfault
  obtain ⟨names, hnames⟩ := hconditions
  rw [← exists_parentRegion_iff]
  unfold referencedNames parentRegion
  rw [hnames]
  cases c.provider with
  | none => exact iff_of_true ⟨_, rfl⟩ ⟨_, rfl⟩
  | some p =>
    dsimp only [Option.elim]
    cases providerRegion p with
    | ok region => exact iff_of_true ⟨_, rfl⟩ ⟨_, rfl⟩
    | error fault =>
      refine iff_of_false ?_ ?_
      · rintro ⟨_, ⟨⟩⟩
      · rintro ⟨_, ⟨⟩⟩

end Clause

/-! ## The modifiers -/

/-- What has a token is a text. -/
theorem Token.exists_text_of_ofName {t : Token} (h : ofName m = .ok t) :
    ∃ s, m = .text s ∧ read s = .ok t := by
  cases m with
  | text s => exact ⟨s, rfl, h⟩
  | odd v =>
    have hodd : ∃ fault, ofJson v.toJson = .error fault := by
      unfold ofJson
      cases v <;> dsimp only [Scalar.toJson] <;> split <;> exact ⟨_, rfl⟩
    obtain ⟨fault, hfault⟩ := hodd
    cases hfault.symm.trans h

theorem Name.bracketsFit_iff {s : String} (h : Token.ofName m = .ok (.simple s)) :
    m.BracketsFit ↔ ∃ a, Application.read s = .ok a := by
  rw [Application.exists_read_eq_ok_iff]
  constructor
  · intro hfits
    exact hfits s h
  · intro hplaced s' h'
    rw [h] at h'
    obtain rfl := Token.simple.inj (Except.ok.inj h')
    exact hplaced

/-- A modifier that is no simple term has no parameters. -/
theorem Name.bracketsFit_of_ne {t : Token} (h : Token.ofName m = .ok t) (hne : ∀ s, t ≠ .simple s) :
    m.BracketsFit := by
  intro s hs
  rw [h] at hs
  exact absurd (Except.ok.inj hs) (hne s)

/-- A modifier with a token has a head if its brackets fit. -/
theorem Name.exists_modifierHead_iff {t : Token} (ht : Token.ofName m = .ok t) :
    (∃ head, modifierHead m = .ok head) ↔ m.BracketsFit := by
  by_cases hsimple : ∃ s, t = .simple s
  · obtain ⟨s, rfl⟩ := hsimple
    rw [bracketsFit_iff ht]
    have hhead : modifierHead m = Application.read s >>= fun a => pure a.head := by
      unfold modifierHead
      rw [ht]
      rfl
    rw [hhead]
    constructor
    · rintro ⟨head, h⟩
      obtain ⟨a, ha, -⟩ := bind_eq_ok.1 h
      exact ⟨a, ha⟩
    · rintro ⟨a, ha⟩
      exact ⟨a.head, bind_eq_ok.2 ⟨a, ha, rfl⟩⟩
  · have hne : ∀ s, t ≠ .simple s := fun s hs => hsimple ⟨s, hs⟩
    refine iff_of_true ?_ (bracketsFit_of_ne ht hne)
    unfold modifierHead
    rw [ht]
    cases t with
    | simple s => exact absurd rfl (hne s)
    | const | reference | projected | comparison => exact ⟨_, rfl⟩

namespace ClassificationModel

theorem exists_cause_of_affix {operation arg : String} {holds : List Char → List Char → Bool} {test : Json}
    (h : ArgumentComparison.affix operation holds test (.text arg) = .error fault) :
    ∃ cause, fault = .shape cause := by
  unfold ArgumentComparison.affix at h
  dsimp only at h
  split at h
  · cases h
  · exact ⟨_, (Except.error.inj h).symm⟩

/-- Where the rules fail a test is no text. The terms are not at fault. -/
theorem exists_cause_of_kindOf {a : Application} (h : model.kindOf a = .error fault) :
    ∃ cause, fault = .shape cause := by
  unfold kindOf at h
  rcases bind_eq_error.1 h with h | ⟨rule?, -, h⟩
  · obtain ⟨rule, -, h⟩ := exists_error_of_findM? h
    unfold ArgumentRule.matchesTerm ArgumentRule.holds at h
    split at h
    · rcases bind_eq_error.1 h with h | ⟨_, -, h⟩
      · obtain ⟨arg, harg, h⟩ := exists_error_of_anyM h
        obtain ⟨s, -, rfl⟩ := List.mem_map.1 harg
        unfold ArgumentComparison.excludes at h
        split at h
        · cases h
        · exact exists_cause_of_affix h
        · exact exists_cause_of_affix h
      · cases h
    · cases h
  · split at h <;> cases h

/-- A simple term is classified by its head and its arguments. -/
theorem classify_of_simple {term s : String} (h : Token.read term = .ok (.simple s)) :
    model.classify (.text term) = Application.read s >>= model.kindOf := by
  rw [classify, h]
  rfl

/-- Any other term might do anything. -/
theorem classify_of_ne {term : String} {t : Token} (h : Token.read term = .ok t)
    (hne : ∀ s, t ≠ .simple s) : model.classify (.text term) = .ok .mixed := by
  rw [classify, h]
  cases t with
  | simple s => exact absurd rfl (hne s)
  | const | reference | projected | comparison => rfl

/-- A modifier with a token is malformed to a model if its brackets do not fit, whatever the model is. -/
theorem exists_cause_of_classify_iff {t : Token} (ht : Token.ofName m = .ok t) :
    (∃ cause, model.classify m = .error (.term cause)) ↔ ¬m.BracketsFit := by
  obtain ⟨term, rfl, hread⟩ := Token.exists_text_of_ofName ht
  by_cases hsimple : ∃ s, t = .simple s
  · obtain ⟨s, rfl⟩ := hsimple
    rw [Name.bracketsFit_iff ht, classify_of_simple hread]
    constructor
    · rintro ⟨cause, h⟩ ⟨a, ha⟩
      -- past the brackets only the rules of the model can fail
      rw [ha] at h
      obtain ⟨_, ⟨⟩⟩ := exists_cause_of_kindOf h
    · intro hplaced
      cases ha : Application.read s with
      | ok a => exact absurd ⟨a, ha⟩ hplaced
      | error fault =>
        obtain ⟨cause, rfl⟩ := Application.exists_cause_of_read ha
        exact ⟨cause, rfl⟩
  · have hne : ∀ s, t ≠ .simple s := fun s hs => hsimple ⟨s, hs⟩
    rw [classify_of_ne hread hne]
    refine iff_of_false ?_ (not_not.2 (Name.bracketsFit_of_ne ht hne))
    rintro ⟨cause, ⟨⟩⟩

end ClassificationModel

end RegionLogic
