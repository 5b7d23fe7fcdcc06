import RegionLogic.Proofs.Region.ObjectGraph
import RegionLogic.Proofs.Requirement.Checked
import RegionLogic.Proofs.Requirement.Clause

/-!
# Clauses and their branches

The terms of a clause are compared as they are written; its branch has the requirements that they stand for,
and different terms may stand for the same requirement. The requirements of a set of conditions are the
least ones that include those of each of its members, so that they grow with the set, and the requirements
of a union are those of both sets together.

## Main definitions

* `⊆` and `∪` of partitions: less is required, and what both require is

## Main results

* `Clause.partition_subset_iff`: the requirements of a set of conditions are the least ones
* `Clause.branch_substitute`: the branch of a substituted clause
* `Clause.dominates_of_isSameOrBetter`: a clause that is the same or better has a dominating branch
* `Clause.branch_agrees`: clauses are combined and compared as their branches are
-/

namespace RegionLogic

/-! ## Requirements in the order of inclusion -/

namespace Partition

variable {p q r : Partition} {t : Token}

instance : HasSubset Partition :=
  ⟨fun p q => p.items ⊆ q.items ∧ p.locations ⊆ q.locations ∧ p.regions ⊆ q.regions⟩

instance : Union Partition :=
  ⟨fun p q => ⟨p.items ∪ q.items, p.locations ∪ q.locations, p.regions ∪ q.regions⟩⟩

theorem subset_iff : p ⊆ q ↔
    p.items ⊆ q.items ∧ p.locations ⊆ q.locations ∧ p.regions ⊆ q.regions := Iff.rfl

theorem subset_refl (p : Partition) : p ⊆ p := ⟨fun _ h => h, fun _ h => h, fun _ h => h⟩

theorem empty_subset (p : Partition) : empty ⊆ p :=
  ⟨fun x hx => absurd hx (NameSet.not_mem_empty x), fun x hx => absurd hx (NameSet.not_mem_empty x),
    fun x hx => absurd hx (NameSet.not_mem_empty x)⟩

theorem union_subset_iff : p ∪ q ⊆ r ↔ p ⊆ r ∧ q ⊆ r := by
  have h (s t u : NameSet) : s ∪ t ⊆ u ↔ s ⊆ u ∧ t ⊆ u := by
    simp only [NameSet.subset_iff, NameSet.mem_union, or_imp, forall_and]
  show (p.items ∪ q.items ⊆ r.items ∧ p.locations ∪ q.locations ⊆ r.locations ∧
    p.regions ∪ q.regions ⊆ r.regions) ↔ _
  rw [h, h, h, subset_iff, subset_iff]
  constructor
  · rintro ⟨⟨hpi, hqi⟩, ⟨hpl, hql⟩, hpr, hqr⟩
    exact ⟨⟨hpi, hpl, hpr⟩, hqi, hql, hqr⟩
  · rintro ⟨⟨hpi, hpl, hpr⟩, hqi, hql, hqr⟩
    exact ⟨⟨hpi, hqi⟩, ⟨hpl, hql⟩, hpr, hqr⟩

/-- Partitions that are included in the same ones are equal. -/
theorem eq_of_subset_iff (h : ∀ r, p ⊆ r ↔ q ⊆ r) : p = q := by
  -- each of them is included in the other
  have hpq := (h q).2 (subset_refl q)
  have hqp := (h p).1 (subset_refl p)
  obtain ⟨items, locations, regions⟩ := p
  obtain ⟨items', locations', regions'⟩ := q
  obtain rfl : items = items' := NameSet.ext fun x => ⟨hpq.1 x, hqp.1 x⟩
  obtain rfl : locations = locations' := NameSet.ext fun x => ⟨hpq.2.1 x, hqp.2.1 x⟩
  obtain rfl : regions = regions' := NameSet.ext fun x => ⟨hpq.2.2 x, hqp.2.2 x⟩
  rfl

/-- A further condition adds what it requires on its own. -/
theorem require_eq (p : Partition) (t : Token) : p.require t = p ∪ empty.require t := by
  have hnone (s : NameSet) : s ∪ ∅ = s := by
    ext x
    simp
  have hone (s : NameSet) (a : Name) : s ∪ insert a ∅ = insert a s := by
    ext x
    simp [or_comm]
  have hunion (q : Partition) :
      p ∪ q = ⟨p.items ∪ q.items, p.locations ∪ q.locations, p.regions ∪ q.regions⟩ := rfl
  cases t with
  | const | simple | reference | comparison => simp only [require, empty, hunion, hnone, hone]
  | projected inner => cases inner <;> simp only [require, empty, hunion, hnone, hone]

end Partition

variable {c d w : Clause} {b b' : Branch} {p p' q : Partition} {term : Name} {t : Token}

namespace Clause

/-! ## What a set of conditions requires -/

/-- The requirements of the conditions are the least ones that include those of each condition. -/
theorem partition_subset_iff (h : c.partition = .ok p) :
    p ⊆ q ↔ ∀ term ∈ c.conditions, ∀ t, Token.ofName term = .ok t → Partition.empty.require t ⊆ q := by
  -- the conditions are followed from any requirements `p₀` on
  have hfold (l : List Name) (p₀ p : Partition)
      (h : l.foldlM (fun p term => return p.require (← Token.ofName term)) p₀ = (.ok p : Except Fault _)) :
      p ⊆ q ↔ p₀ ⊆ q ∧ ∀ term ∈ l, ∀ t, Token.ofName term = .ok t → Partition.empty.require t ⊆ q := by
    induction l generalizing p₀ with
    | nil =>
      obtain rfl := Except.ok.inj h
      simp
    | cons term l ih =>
      rw [List.foldlM_cons] at h
      obtain ⟨p₁, hp₁, h⟩ := bind_eq_ok.1 h
      obtain ⟨t, ht, hp₁⟩ := bind_eq_ok.1 hp₁
      obtain rfl := Except.ok.inj hp₁
      rw [ih _ h, Partition.require_eq, Partition.union_subset_iff, and_assoc, List.forall_mem_cons]
      refine and_congr_right' (and_congr_left' ⟨fun hq t' ht' => ?_, fun hq => hq t ht⟩)
      rw [ht] at ht'
      exact Except.ok.inj ht' ▸ hq
  rw [hfold _ _ _ h]
  exact and_iff_right (Partition.empty_subset q)

/-- More conditions require more. -/
theorem partition_mono (hc : c.partition = .ok p) (hd : d.partition = .ok p')
    (h : c.conditions ⊆ d.conditions) : p ⊆ p' :=
  (partition_subset_iff hc).2 fun term hterm =>
    (partition_subset_iff hd).1 (Partition.subset_refl p') term (h term hterm)

/-- Conditions together require what they require apart. -/
theorem partition_union (hc : c.partition = .ok p) (hd : d.partition = .ok p')
    (hw : w.partition = .ok q) (h : w.conditions = c.conditions ∪ d.conditions) : q = p ∪ p' := by
  refine Partition.eq_of_subset_iff fun r => ?_
  rw [partition_subset_iff hw, Partition.union_subset_iff, partition_subset_iff hc,
    partition_subset_iff hd, h]
  simp only [NameSet.mem_union, or_imp, forall_and]

/-! ## One clause after another -/

/-- The branch of a substituted clause is that of the clause put in, and then that of the clause. -/
theorem branch_substitute (hc : c.branch = .ok b) (hw : w.branch = .ok b')
    (hp : (c.substitute w).Parsable) : (c.substitute w).branch = .ok (b' + b) := by
  rw [branch_eq_ok_iff] at hc hw ⊢
  obtain ⟨q, hq⟩ := hp.exists_partition
  obtain rfl : q = ⟨b'.items, b'.locations, b'.regions⟩ ∪ ⟨b.items, b.locations, b.regions⟩ :=
    partition_union hw.partition hc.partition hq rfl
  exact ⟨hq, congrArg₂ (· ++ ·) hw.modifiers hc.modifiers⟩

/-- The branch of a clause that is the same or better dominates that of the other clause, whether or not
regions are compared. -/
theorem dominates_of_isSameOrBetter {classify : Classifier} (hc : c.branch = .ok b)
    (hw : w.branch = .ok b') (h : isSameOrBetter classify c w = .ok true) (compareRegions : Bool) :
    dominates classify compareRegions b b' = .ok true := by
  rw [branch_eq_ok_iff] at hc hw
  obtain ⟨-, hconditions, hruns⟩ := extends_of_isSameOrBetter h
  obtain ⟨hitems, hlocations, hregions⟩ := partition_mono hc.partition hw.partition hconditions
  rw [← hc.modifiers, ← hw.modifiers] at hruns
  exact dominates_of_extends hitems hlocations hregions hruns

/-- Clauses are combined and compared as their branches are. If all conditions have tokens, the branch of the
substituted clause is the sum of the branches. Where the classifier knows the modifiers neither comparison
fails, and a clause that is the same or better than another has a branch that dominates the other branch,
whether or not regions are compared. -/
theorem branch_agrees (c w : Clause) (hc : c.Parsable) (hw : w.Parsable) :
    ∃ b b', c.branch = .ok b ∧ w.branch = .ok b' ∧ (c.substitute w).branch = .ok (b' + b) ∧
      ∀ classify : Classifier, (∀ m ∈ c.modifiers ++ w.modifiers, ∃ kind, classify m = .ok kind) →
        ∃ better, isSameOrBetter classify c w = .ok better ∧
          ∀ compareRegions, ∃ dominating, dominates classify compareRegions b b' = .ok dominating ∧
            (better = true → dominating = true) := by
  obtain ⟨b, hb⟩ := hc.exists_branch
  obtain ⟨b', hb'⟩ := hw.exists_branch
  have hsubstitute : (c.substitute w).Parsable := by
    intro term hterm
    rcases NameSet.mem_union.1 hterm with hterm | hterm
    · exact hw term hterm
    · exact hc term hterm
  refine ⟨b, b', hb, hb', branch_substitute hb hb' hsubstitute, fun classify hknown => ?_⟩
  -- a comparison that fails does so on a modifier of one of the two
  have hfault {fault : Fault} : ¬∃ m ∈ c.modifiers ++ w.modifiers, classify m = .error fault := by
    rintro ⟨m, hm, herror⟩
    obtain ⟨kind, hkind⟩ := hknown m hm
    cases hkind.symm.trans herror
  cases hbetter : isSameOrBetter classify c w with
  | error fault => exact absurd (exists_fault_of_isSameOrBetter hbetter) hfault
  | ok better =>
    refine ⟨better, rfl, fun compareRegions => ?_⟩
    cases hdominates : dominates classify compareRegions b b' with
    | error fault =>
      have hmodifiers := exists_fault_of_dominates hdominates
      rw [(branch_eq_ok_iff.1 hb).modifiers, (branch_eq_ok_iff.1 hb').modifiers] at hmodifiers
      exact absurd hmodifiers hfault
    | ok dominating =>
      refine ⟨dominating, rfl, ?_⟩
      rintro rfl
      exact Except.ok.inj (hdominates.symm.trans (dominates_of_isSameOrBetter hb hb' hbetter _))

/-- A potion where the lamp can be reached. -/
def lampClause : Clause := { conditions := .ofList ["*Lamp"], modifiers := ["$POTION"] }

/-- The lamp is asked for in two ways that stand for one requirement. -/
def twoLampsClause : Clause := { conditions := .ofList ["*Lamp", "*Lamp/", "Cave/"] }

theorem branch_agrees_lampClause :
    let classify : Classifier := fun _ => .ok .beneficial
    lampClause.Parsable ∧ twoLampsClause.Parsable ∧
      ∃ b b', lampClause.branch = .ok b ∧ twoLampsClause.branch = .ok b' ∧
        b' = { locations := .ofList ["Lamp"], regions := .ofList ["Cave"] } ∧
        (lampClause.substitute twoLampsClause).branch = .ok (b' + b) ∧
        isSameOrBetter classify lampClause twoLampsClause = .ok true ∧
        dominates classify true b b' = .ok true := by
  intro classify
  have hlamp : lampClause.Parsable := fun term hterm => by
    obtain rfl : term = "*Lamp" := by simpa [lampClause] using hterm
    exact ⟨.reference "Lamp", by decide +kernel⟩
  have htwo : twoLampsClause.Parsable := fun term hterm => by
    have hterms : term = "*Lamp" ∨ term = "*Lamp/" ∨ term = "Cave/" := by
      simpa [twoLampsClause] using hterm
    rcases hterms with rfl | rfl | rfl
    · exact ⟨.reference "Lamp", by decide +kernel⟩
    · exact ⟨.projected (.reference "Lamp"), by decide +kernel⟩
    · exact ⟨.projected (.simple "Cave"), by decide +kernel⟩
  obtain ⟨b, b', hb, hb', hsum, hcompare⟩ := branch_agrees lampClause twoLampsClause hlamp htwo
  obtain ⟨better, hbetter, hdominates⟩ := hcompare classify fun _ _ => ⟨_, rfl⟩
  obtain ⟨dominating, hdominating, himplies⟩ := hdominates true
  have hsame : isSameOrBetter classify lampClause twoLampsClause = .ok true := by decide +kernel
  have htwoLamps : twoLampsClause.branch =
      .ok { locations := .ofList ["Lamp"], regions := .ofList ["Cave"] } := by decide +kernel
  obtain rfl := Except.ok.inj (hbetter.symm.trans hsame)
  rw [himplies rfl] at hdominating
  exact ⟨hlamp, htwo, b, b', hb, hb', Except.ok.inj (hb'.symm.trans htwoLamps), hsum, hsame,
    hdominating⟩

end Clause

end RegionLogic
