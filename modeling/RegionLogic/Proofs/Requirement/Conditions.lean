import RegionLogic.Proofs.Requirement.Checked

/-!
# What conditions require

Which requirement a condition stands for can be told from how it is written. A star in front makes it a
location, with one slash at the end or without; any other slash at the end makes it a region, and everything
else is an item. So a condition never stands for two requirements, and two conditions stand for the same one
only if they are a reference and its projection.

## Main definitions

* `Requirement`: an item, a location or a region
* `Demands`: the requirement of a condition, as it is written
* `Clause.Contributes`: what a condition requires on its own

## Main results

* `demands_iff`: the token of a condition stands for what the condition demands
* `Clause.has_partition_iff`: what the conditions of a clause require together
* `Clause.partition_of_written`: the partition of a clause by its written conditions
-/

namespace RegionLogic

/-- What has to be there for a condition to hold. -/
inductive Requirement where
  | item (name : Name)
  | location (name : Name)
  | region (name : Name)
  deriving DecidableEq

/-- What a condition with this token requires. -/
def Token.requirement : Token → Requirement
  | .reference target => .location (.text target)
  | .projected (.reference target) => .location (.text target)
  | .projected inner => .region (.text inner.write)
  | token => .item (.text token.write)

/-- The requirement is one of those of the partition. -/
def Partition.Has (p : Partition) : Requirement → Prop
  | .item name => name ∈ p.items
  | .location name => name ∈ p.locations
  | .region name => name ∈ p.regions

/-- The text ends in a slash. -/
def EndsInSlash (s : String) : Prop := s.toList.getLast? = some '/'

/-- The text begins with a star. -/
def BeginsWithStar (s : String) : Prop := s.toList.head? = some '*'

instance (s : String) : Decidable (EndsInSlash s) := inferInstanceAs (Decidable (_ = _))

instance (s : String) : Decidable (BeginsWithStar s) := inferInstanceAs (Decidable (_ = _))

/-- A condition demands a requirement, as it is written: a name after a star demands a location,
whether or not one slash follows; any other slash at the end demands a region; the rest demands an item. -/
inductive Demands : String → Requirement → Prop
  | reference {x : String} (h : ¬EndsInSlash x) : Demands ("*" ++ x) (.location (.text x))
  | projectedReference {x : String} (h : ¬EndsInSlash x) : Demands ("*" ++ x ++ "/") (.location (.text x))
  | region {r : String} (h : ¬∃ x, r = "*" ++ x ∧ ¬EndsInSlash x) : Demands (r ++ "/") (.region (.text r))
  | item {i : String} (hstar : ¬BeginsWithStar i) (hslash : ¬EndsInSlash i) : Demands i (.item (.text i))

variable {s s' term x y : String} {core : List Char} {t : Token} {r r' : Requirement} {p : Partition}
  {c : Clause}

/-! ## Stars and slashes -/

theorem beginsWithStar_star (x : String) : BeginsWithStar ("*" ++ x) := by
  simp [BeginsWithStar]

theorem endsInSlash_slash (x : String) : EndsInSlash (x ++ "/") := by
  simp [EndsInSlash]

theorem endsInSlash_star_iff : EndsInSlash ("*" ++ x) ↔ EndsInSlash x := by
  unfold EndsInSlash
  rw [String.toList_append, List.getLast?_append]
  cases x.toList.getLast? <;> simp

theorem star_inj : "*" ++ x = "*" ++ y ↔ x = y := by
  rw [← String.toList_inj, ← String.toList_inj, String.toList_append, String.toList_append,
    List.append_right_inj]

theorem slash_inj : x ++ "/" = y ++ "/" ↔ x = y := by
  rw [← String.toList_inj, ← String.toList_inj, String.toList_append, String.toList_append,
    List.append_left_inj]

/-- A condition demands one requirement. -/
theorem Demands.unique (h : Demands s r) (h' : Demands s' r') (hs : s = s') : r = r' := by
  cases h with
  | reference h =>
    cases h' with
    | reference => rw [star_inj.1 hs]
    | projectedReference | region =>
      exact absurd (hs ▸ endsInSlash_slash _) (mt endsInSlash_star_iff.1 h)
    | item hstar => exact absurd (hs ▸ beginsWithStar_star _) hstar
  | projectedReference h =>
    cases h' with
    | reference h' => exact absurd (hs ▸ endsInSlash_slash _) (mt endsInSlash_star_iff.1 h')
    | projectedReference => rw [star_inj.1 (slash_inj.1 hs)]
    | region h' => exact absurd ⟨_, (slash_inj.1 hs).symm, h⟩ h'
    | item _ hslash => exact absurd (hs ▸ endsInSlash_slash _) hslash
  | region h =>
    cases h' with
    | reference h' => exact absurd (hs ▸ endsInSlash_slash _) (mt endsInSlash_star_iff.1 h')
    | projectedReference h' => exact absurd ⟨_, slash_inj.1 hs, h'⟩ h
    | region => rw [slash_inj.1 hs]
    | item _ hslash => exact absurd (hs ▸ endsInSlash_slash _) hslash
  | item hstar hslash =>
    cases h' with
    | reference => exact absurd (hs ▸ beginsWithStar_star _) hstar
    | projectedReference | region => exact absurd (hs ▸ endsInSlash_slash _) hslash
    | item => rw [hs]

theorem demands_location_iff {name : Name} :
    Demands s (.location name) ↔
      ∃ x, name = .text x ∧ ¬EndsInSlash x ∧ (s = "*" ++ x ∨ s = "*" ++ x ++ "/") := by
  constructor
  · intro h
    cases h with
    | reference h => exact ⟨_, rfl, h, Or.inl rfl⟩
    | projectedReference h => exact ⟨_, rfl, h, Or.inr rfl⟩
  · rintro ⟨x, rfl, h, rfl | rfl⟩
    · exact .reference h
    · exact .projectedReference h

theorem demands_region_iff {name : Name} :
    Demands s (.region name) ↔
      ∃ r, name = .text r ∧ s = r ++ "/" ∧ ¬∃ x, r = "*" ++ x ∧ ¬EndsInSlash x := by
  constructor
  · intro h
    cases h with
    | region h => exact ⟨_, rfl, rfl, h⟩
  · rintro ⟨r, rfl, rfl, h⟩
    exact .region h

theorem demands_item_iff {name : Name} :
    Demands s (.item name) ↔ name = .text s ∧ ¬BeginsWithStar s ∧ ¬EndsInSlash s := by
  constructor
  · intro h
    cases h with
    | item hstar hslash => exact ⟨rfl, hstar, hslash⟩
  · rintro ⟨rfl, hstar, hslash⟩
    exact .item hstar hslash

/-- Different conditions that demand the same are a reference and its projection. -/
theorem Demands.eq_of_ne (h : Demands s r) (h' : Demands s' r) (hne : s ≠ s') :
    ∃ x, r = .location (.text x) ∧
      ((s = "*" ++ x ∧ s' = "*" ++ x ++ "/") ∨ (s' = "*" ++ x ∧ s = "*" ++ x ++ "/")) := by
  cases r with
  | item name =>
    obtain ⟨rfl, -⟩ := demands_item_iff.1 h
    obtain ⟨hname, -⟩ := demands_item_iff.1 h'
    exact absurd (Name.text.inj hname) hne
  | region name =>
    obtain ⟨r, rfl, rfl, -⟩ := demands_region_iff.1 h
    obtain ⟨r', hname, rfl, -⟩ := demands_region_iff.1 h'
    exact absurd (congrArg (· ++ "/") (Name.text.inj hname)) hne
  | location name =>
    obtain ⟨x, rfl, -, hs⟩ := demands_location_iff.1 h
    obtain ⟨x', hname, -, hs'⟩ := demands_location_iff.1 h'
    obtain rfl := Name.text.inj hname
    refine ⟨x, rfl, ?_⟩
    rcases hs with rfl | rfl <;> rcases hs' with rfl | rfl
    · exact absurd rfl hne
    · exact Or.inl ⟨rfl, rfl⟩
    · exact Or.inr ⟨rfl, rfl⟩
    · exact absurd rfl hne

/-! ## Tokens -/

namespace Token

theorem write_reference (target : String) : (reference target).write = "*" ++ target := by
  rw [← String.toList_inj, toList_write, String.toList_append]
  rfl

theorem write_projected (t : Token) : (projected t).write = t.write ++ "/" := by
  rw [← String.toList_inj, toList_write, String.toList_append, toList_write]
  rfl

theorem requirement_projected (h : ∀ target, t ≠ reference target) :
    (projected t).requirement = .region (.text t.write) := by
  cases t with
  | reference target => exact absurd rfl (h target)
  | simple | const | projected | comparison => rfl

/-- Only references begin with a star. -/
theorem Spells.not_beginsWithStar (h : Spells core t) (href : ∀ target, t ≠ Token.reference target) :
    ¬BeginsWithStar t.write := by
  rw [BeginsWithStar, toList_write, h.writeChars]
  cases h with
  | constant c => exact c.head?_word
  | reference => exact absurd rfl (href _)
  | simple _ _ hstar => exact hstar
  | comparison hstar => exact hstar

theorem Spells.not_endsInSlash (h : Spells core t) (hlast : core.getLast? ≠ some '/') :
    ¬EndsInSlash t.write := by
  rwa [EndsInSlash, toList_write, h.writeChars]

/-- The token of a core stands for a location or an item. -/
theorem Spells.demands (h : Spells core t) (hlast : core.getLast? ≠ some '/') :
    Demands t.write t.requirement := by
  have hslash := h.not_endsInSlash hlast
  cases t with
  | reference target =>
    rw [write_reference, endsInSlash_star_iff] at hslash
    rw [write_reference]
    exact .reference hslash
  | projected inner => cases h
  | simple | const | comparison => exact .item (h.not_beginsWithStar (by simp)) hslash

/-- A projection of the token of a core stands for the same location, or for a region. -/
theorem Spells.demands_projected (h : Spells core t) (hlast : core.getLast? ≠ some '/') :
    Demands (projected t).write (projected t).requirement := by
  have hslash := h.not_endsInSlash hlast
  rw [write_projected]
  cases t with
  | reference target =>
    rw [write_reference, endsInSlash_star_iff] at hslash
    rw [write_reference]
    exact .projectedReference hslash
  | projected inner => cases h
  | simple | const | comparison =>
    refine .region ?_
    rintro ⟨x, hx, -⟩
    exact h.not_beginsWithStar (by simp) (hx ▸ beginsWithStar_star x)

/-- The token of a term stands for what the term demands. -/
theorem demands_of_read (h : read term = .ok t) : Demands term t.requirement := by
  rw [← write_of_read h]
  obtain ⟨core, slashes, hterm, hlast⟩ := exists_core term.toList
  obtain ⟨-, inner, hspells, rfl⟩ := (readChars_eq_ok_iff hlast hterm).1 h
  match slashes with
  | 0 => exact hspells.demands hlast
  | 1 => exact hspells.demands_projected hlast
  | slashes + 2 =>
    -- a projection of a projection is never that of a reference
    rw [projections, requirement_projected (by simp [projections]), write_projected]
    refine .region ?_
    rintro ⟨x, hx, hslash⟩
    rw [projections, write_projected] at hx
    exact hslash (endsInSlash_star_iff.1 (hx ▸ endsInSlash_slash _))

end Token

/-- What a term with a token demands is what the token stands for. -/
theorem demands_iff (h : Token.read term = .ok t) : Demands term r ↔ t.requirement = r := by
  have hdemands := Token.demands_of_read h
  constructor
  · exact fun hr => hdemands.unique hr rfl
  · rintro rfl
    exact hdemands

/-! ## Clauses -/

theorem Partition.not_has_empty (r : Requirement) : ¬Partition.empty.Has r := by
  cases r <;> exact NameSet.not_mem_empty _

/-- A condition adds what its token stands for, and nothing else. -/
theorem Partition.has_require : (p.require t).Has r ↔ p.Has r ∨ t.requirement = r := by
  have hinsert (a b : Name) (s : NameSet) : b ∈ insert a s ↔ b ∈ s ∨ a = b := by
    rw [NameSet.mem_insert, or_comm, eq_comm]
  cases t with
  | reference | simple | const | comparison => cases r <;> simp [require, Has, Token.requirement, hinsert]
  | projected inner =>
    cases inner <;> cases r <;> simp [require, Has, Token.requirement, hinsert]

namespace Clause

/-- The conditions of a clause require together what each of them demands. -/
theorem has_partition_iff (h : c.partition = .ok p) :
    p.Has r ↔ ∃ s : String, .text s ∈ c.conditions ∧ Demands s r := by
  -- the conditions are followed from any requirements `p₀` on
  have hfold (l : List Name) (p₀ p : Partition)
      (h : l.foldlM (fun p term => return p.require (← Token.ofName term)) p₀ = (.ok p : Except Fault _)) :
      p.Has r ↔ p₀.Has r ∨ ∃ s : String, .text s ∈ l ∧ Demands s r := by
    induction l generalizing p₀ with
    | nil =>
      obtain rfl := Except.ok.inj h
      simp
    | cons term l ih =>
      rw [List.foldlM_cons] at h
      obtain ⟨p₁, hp₁, hl⟩ := bind_eq_ok.1 h
      obtain ⟨t, ht, hp₁⟩ := bind_eq_ok.1 hp₁
      obtain rfl := Except.ok.inj hp₁
      obtain ⟨s, rfl, hs⟩ := Token.exists_text_of_ofName ht
      have hcons : (∃ s' : String, .text s' ∈ Name.text s :: l ∧ Demands s' r) ↔
          t.requirement = r ∨ ∃ s' : String, .text s' ∈ l ∧ Demands s' r := by
        simp [or_and_right, exists_or, demands_iff hs]
      rw [ih _ hl, Partition.has_require, hcons, or_assoc]
  rw [hfold _ _ _ h]
  exact or_iff_right (Partition.not_has_empty r)

theorem mem_locations_iff (h : c.partition = .ok p) {name : Name} :
    name ∈ p.locations ↔ ∃ x : String, name = .text x ∧ ¬EndsInSlash x ∧
      (.text ("*" ++ x) ∈ c.conditions ∨ .text ("*" ++ x ++ "/") ∈ c.conditions) := by
  refine (has_partition_iff (r := .location name) h).trans ?_
  simp only [demands_location_iff]
  constructor
  · rintro ⟨s, hs, x, rfl, hslash, rfl | rfl⟩
    · exact ⟨x, rfl, hslash, Or.inl hs⟩
    · exact ⟨x, rfl, hslash, Or.inr hs⟩
  · rintro ⟨x, rfl, hslash, hs | hs⟩
    · exact ⟨_, hs, x, rfl, hslash, Or.inl rfl⟩
    · exact ⟨_, hs, x, rfl, hslash, Or.inr rfl⟩

theorem mem_regions_iff (h : c.partition = .ok p) {name : Name} :
    name ∈ p.regions ↔ ∃ r : String, name = .text r ∧ .text (r ++ "/") ∈ c.conditions ∧
      ¬∃ x, r = "*" ++ x ∧ ¬EndsInSlash x := by
  refine (has_partition_iff (r := .region name) h).trans ?_
  simp only [demands_region_iff]
  constructor
  · rintro ⟨s, hs, r, rfl, rfl, hr⟩
    exact ⟨r, rfl, hs, hr⟩
  · rintro ⟨r, rfl, hs, hr⟩
    exact ⟨_, hs, r, rfl, rfl, hr⟩

theorem mem_items_iff (h : c.partition = .ok p) {name : Name} :
    name ∈ p.items ↔ ∃ i : String, name = .text i ∧ .text i ∈ c.conditions ∧
      ¬BeginsWithStar i ∧ ¬EndsInSlash i := by
  refine (has_partition_iff (r := .item name) h).trans ?_
  simp only [demands_item_iff]
  constructor
  · rintro ⟨i, hi, rfl, hwritten⟩
    exact ⟨i, rfl, hi, hwritten⟩
  · rintro ⟨i, rfl, hi, hwritten⟩
    exact ⟨i, hi, rfl, hwritten⟩

/-- What a clause with this condition alone requires. -/
def Contributes (term : Name) (r : Requirement) : Prop :=
  ∃ p, ({ conditions := {term} } : Clause).partition = .ok p ∧ p.Has r

theorem contributes_iff (h : Token.read s = .ok t) : Contributes (.text s) r ↔ Demands s r := by
  have hparsable : ({ conditions := {.text s} } : Clause).Parsable := by
    intro term hterm
    obtain rfl := NameSet.mem_singleton.1 hterm
    exact ⟨t, h⟩
  obtain ⟨p, hp⟩ := hparsable.exists_partition
  have hhas : p.Has r ↔ Demands s r := by
    rw [has_partition_iff hp]
    simp
  constructor
  · rintro ⟨p', hp', hr⟩
    rw [hp] at hp'
    obtain rfl := Except.ok.inj hp'
    exact hhas.1 hr
  · exact fun hr => ⟨p, hp, hhas.2 hr⟩

/-- The partition of a clause whose conditions all have tokens. The locations, regions and items are told from
the written conditions. They are what the conditions contribute, each of which contributes one requirement.
Different conditions contribute the same one only if one is a reference and the other one its projection. -/
theorem partition_of_written (h : c.Parsable) :
    ∃ p, c.partition = .ok p ∧
      (∀ name, name ∈ p.locations ↔ ∃ x : String, name = .text x ∧ ¬EndsInSlash x ∧
        (.text ("*" ++ x) ∈ c.conditions ∨ .text ("*" ++ x ++ "/") ∈ c.conditions)) ∧
      (∀ name, name ∈ p.regions ↔ ∃ r : String, name = .text r ∧ .text (r ++ "/") ∈ c.conditions ∧
        ¬∃ x, r = "*" ++ x ∧ ¬EndsInSlash x) ∧
      (∀ name, name ∈ p.items ↔ ∃ i : String, name = .text i ∧ .text i ∈ c.conditions ∧
        ¬BeginsWithStar i ∧ ¬EndsInSlash i) ∧
      (∀ r, p.Has r ↔ ∃ term ∈ c.conditions, Contributes term r) ∧
      (∀ term ∈ c.conditions, ∃! r, Contributes term r) ∧
      ∀ a ∈ c.conditions, ∀ b ∈ c.conditions, a ≠ b → ∀ r, Contributes a r → Contributes b r →
        ∃ x : String, r = .location (.text x) ∧
          ((a = .text ("*" ++ x) ∧ b = .text ("*" ++ x ++ "/")) ∨
            (b = .text ("*" ++ x) ∧ a = .text ("*" ++ x ++ "/"))) := by
  obtain ⟨p, hp⟩ := h.exists_partition
  have hwritten : ∀ term ∈ c.conditions, ∃ s, term = .text s ∧ ∃ t, Token.read s = .ok t := by
    intro term hterm
    obtain ⟨t, ht⟩ := h term hterm
    obtain ⟨s, hs, hread⟩ := Token.exists_text_of_ofName ht
    exact ⟨s, hs, t, hread⟩
  refine ⟨p, hp, fun _ => mem_locations_iff hp, fun _ => mem_regions_iff hp, fun _ => mem_items_iff hp,
    fun r => ?_, fun term hterm => ?_, fun a ha b hb hne r har hbr => ?_⟩
  · rw [has_partition_iff hp]
    constructor
    · rintro ⟨s, hs, hr⟩
      obtain ⟨t, ht⟩ := h _ hs
      exact ⟨_, hs, (contributes_iff ht).2 hr⟩
    · rintro ⟨term, hterm, hr⟩
      obtain ⟨s, rfl, t, ht⟩ := hwritten term hterm
      exact ⟨s, hterm, (contributes_iff ht).1 hr⟩
  · obtain ⟨s, rfl, t, ht⟩ := hwritten term hterm
    have hdemands := Token.demands_of_read ht
    exact ⟨_, (contributes_iff ht).2 hdemands, fun r hr => ((contributes_iff ht).1 hr).unique hdemands rfl⟩
  · obtain ⟨s, rfl, t, ht⟩ := hwritten a ha
    obtain ⟨s', rfl, t', ht'⟩ := hwritten b hb
    have hsame := ((contributes_iff ht).1 har).eq_of_ne ((contributes_iff ht').1 hbr)
      fun hs => hne (congrArg Name.text hs)
    simpa only [Name.text.injEq] using hsame

/-- A lamp asked for in two ways, a region that is written like a reference to it, and a constant. -/
def lanternClause : Clause := { conditions := .ofList ["*Lamp", "*Lamp/", "*Lamp//", "Cave/", "TRUE"] }

theorem partition_of_written_lanternClause :
    lanternClause.Parsable ∧
      ∃ p, lanternClause.partition = .ok p ∧
        p = ⟨.ofList ["TRUE"], .ofList ["Lamp"], .ofList ["*Lamp/", "Cave"]⟩ ∧
        .text "Lamp" ∈ p.locations ∧ .text "*Lamp/" ∈ p.regions ∧
        ∀ term ∈ lanternClause.conditions, ∃! r, Contributes term r := by
  have h : lanternClause.Parsable := by
    intro term hterm
    have hterms : term = "*Lamp" ∨ term = "*Lamp/" ∨ term = "*Lamp//" ∨ term = "Cave/" ∨ term = "TRUE" := by
      simpa [lanternClause] using hterm
    rcases hterms with rfl | rfl | rfl | rfl | rfl
    · exact ⟨.reference "Lamp", by decide +kernel⟩
    · exact ⟨.projected (.reference "Lamp"), by decide +kernel⟩
    · exact ⟨.projected (.projected (.reference "Lamp")), by decide +kernel⟩
    · exact ⟨.projected (.simple "Cave"), by decide +kernel⟩
    · exact ⟨.const .true, by decide +kernel⟩
  obtain ⟨p, hp, hlocations, hregions, -, -, hone, -⟩ := partition_of_written h
  have heq : lanternClause.partition =
      .ok ⟨.ofList ["TRUE"], .ofList ["Lamp"], .ofList ["*Lamp/", "Cave"]⟩ := by decide +kernel
  refine ⟨h, p, hp, Except.ok.inj (hp.symm.trans heq), ?_, ?_, hone⟩
  · exact (hlocations _).2 ⟨"Lamp", rfl, by decide, Or.inl (by decide +kernel)⟩
  -- behind the star stands a name that ends in a slash
  · refine (hregions _).2 ⟨"*Lamp/", rfl, by decide +kernel, ?_⟩
    rintro ⟨x, hx, hslash⟩
    obtain rfl : "Lamp/" = x := star_inj.1 hx
    exact hslash (by decide)

end Clause

end RegionLogic
