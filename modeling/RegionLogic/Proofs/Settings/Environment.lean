import Mathlib.Data.List.Induction
import RegionLogic.Proofs.Settings.Reading

/-!
# What the environment makes of settings

Each variable that names a setting gives it a value, and of several variables for one setting the last one
counts. Whether the value has the kind of the default is told by the text of that variable alone. A text becomes
a list or an integer where the default is one, but what has been taken for something else is left as it is: a
truth word or JSON stands also where an integer is wanted, and a plain text where a truth value is. A variable
is refused for two reasons: the default is an integer and a plain text is none, or the text begins with a
bracket and holds something too large to be read.

## Main definitions

* `Suits`: the texts that give a value of a kind
* `Refused`: the variables that are refused, and why
* `latest?`: the variable that counts for a setting

## Main results

* `applyEnvironment_cases`: how all variables are applied
* `shapes_after_environment`: the kinds of the settings that variables override
-/

namespace RegionLogic.Settings

/-- The value of a setting. -/
def setting? (fields : List (String × Json)) (sectionName key : String) : Option Json :=
  (Entries.find? fields sectionName).bind (·.field? key)

/-- The texts from which a setting with a default of some kind gets a value of that kind. -/
def Suits : Shape → String → Prop
  | .bool, raw => IsTruth raw
  | .arr, raw => IsList raw ∨ IsPlain raw
  | .obj, raw => IsTable raw
  | .int, raw => ∃ n, Text.readInteger raw = .ok n
  | .str, raw => IsPlain raw
  | _, _ => False

/-- Why a variable is refused for a setting with a default. -/
inductive Refused (name raw : String) (default : Option Json) : Fault → Prop
  | notInteger {n : Int} (hdefault : default = some (.int n)) (hplain : IsPlain raw)
      (hnone : ∀ n, Text.readInteger raw ≠ .ok n) :
      Refused name raw default (.settingNotInteger name (Text.quoted raw))
  | tooLarge {cause : Json.Excess} (h : IsTooLarge raw cause) : Refused name raw default (.excess cause)

/-- The last variable that names a setting. -/
def latest? (environment : List (String × String)) (sectionName key : String) :
    Option (String × String) :=
  (environment.filter fun e => settingOf? e.1 = some (sectionName, key)).getLast?

variable {fields : List (String × Json)} {name raw : String} {default : Option Json} {v w : Json}
  {fault : Fault}

/-! ## What a text suits -/

theorem suits_iff_of_isTruth (h : IsTruth raw) (kind : Shape) : Suits kind raw ↔ kind = .bool := by
  have hplain : ¬IsPlain raw := fun hplain => hplain.1 h
  have hnone : ¬∃ n, Text.readInteger raw = .ok n := fun ⟨n, hn⟩ => hplain (isPlain_of_readInteger hn)
  have hbrackets := taken_unique.1 h
  cases kind <;> simp_all [Suits]

theorem suits_iff_of_isList (h : IsList raw) (kind : Shape) : Suits kind raw ↔ kind = .arr := by
  have hplain : ¬IsPlain raw := fun hplain => hplain.2.1 h
  have hnone : ¬∃ n, Text.readInteger raw = .ok n := fun ⟨n, hn⟩ => hplain (isPlain_of_readInteger hn)
  have htruth : ¬IsTruth raw := fun htruth => (taken_unique.1 htruth).1 h
  have htable := taken_unique.2 h
  cases kind <;> simp_all [Suits]

theorem suits_iff_of_isTable (h : IsTable raw) (kind : Shape) : Suits kind raw ↔ kind = .obj := by
  have hplain : ¬IsPlain raw := fun hplain => hplain.2.2.1 h
  have hnone : ¬∃ n, Text.readInteger raw = .ok n := fun ⟨n, hn⟩ => hplain (isPlain_of_readInteger hn)
  have htruth : ¬IsTruth raw := fun htruth => (taken_unique.1 htruth).2 h
  have hlist : ¬IsList raw := fun hlist => taken_unique.2 hlist h
  cases kind <;> simp_all [Suits]

theorem suits_iff_of_isPlain (h : IsPlain raw) (kind : Shape) :
    Suits kind raw ↔ kind = .arr ∨ kind = .str ∨ kind = .int ∧ ∃ n, Text.readInteger raw = .ok n := by
  obtain ⟨htruth, -, htable, -⟩ := id h
  cases kind <;> simp [Suits, h, htruth, htable]

/-! ## One variable -/

/-- The value that a variable gives to a setting. -/
def valueOf (name raw : String) (default : Option Json) : Except Fault Json := do
  conform name default (← readValue raw)

/-- A variable gives no value if it is refused. -/
theorem valueOf_eq_error_iff : valueOf name raw default = .error fault ↔ Refused name raw default fault := by
  constructor
  · intro h
    rcases bind_eq_error.1 h with hread | ⟨v, hv, hconform⟩
    · obtain ⟨cause, hlarge, hfault⟩ := exists_isTooLarge_of_readValue hread
      exact hfault ▸ .tooLarge hlarge
    · -- what has been read is refused only where a text stands for an integer
      unfold conform at hconform
      split at hconform
      · cases hconform
      · next n s =>
        obtain ⟨hplain, rfl⟩ := isPlain_of_readValue hv
        split at hconform
        · cases hconform
        · next hnone =>
          obtain rfl := Except.error.inj hconform
          exact .notInteger rfl hplain fun n hn => by cases hnone.symm.trans hn
      · cases hconform
  · rintro (⟨hdefault, hplain, hnone⟩ | hlarge)
    · rw [hdefault]
      refine bind_eq_error.2 (.inr ⟨_, readValue_of_isPlain hplain, ?_⟩)
      cases hn : Text.readInteger raw with
      | ok n => exact absurd hn (hnone n)
      | error none => simp [conform, hn]
    · exact bind_eq_error.2 (.inl (readValue_of_isTooLarge hlarge))

theorem conform_of_ne_str (h : v.shape ≠ .str) : conform name default v = .ok v := by
  unfold conform
  split <;> simp_all [Json.shape]

/-- The value that a variable gives has the kind of the default if its text suits the default. -/
theorem shape_of_valueOf {d : Json} (h : valueOf name raw (some d) = .ok w) :
    w.shape = d.shape ↔ Suits d.shape raw := by
  obtain ⟨v, hv, h⟩ := bind_eq_ok.1 h
  have hkept (hne : v.shape ≠ .str) : w = v := Except.ok.inj (h.symm.trans (conform_of_ne_str hne))
  have htaken := taken_readValue raw
  rw [hv] at htaken
  cases htaken with
  | truth hs b =>
    rw [hkept (by simp [Json.shape]), suits_iff_of_isTruth hs, eq_comm]
    rfl
  | list hs items =>
    rw [hkept (by simp [Json.shape]), suits_iff_of_isList hs, eq_comm]
    rfl
  | table hs fields =>
    rw [hkept (by simp [Json.shape]), suits_iff_of_isTable hs, eq_comm]
    rfl
  | plain hs =>
    rw [suits_iff_of_isPlain hs]
    cases d with
    | arr items =>
      obtain rfl := Except.ok.inj h
      simp [texts, Json.shape]
    | int n =>
      cases hn : Text.readInteger raw with
      | ok k =>
        simp only [conform, hn] at h
        obtain rfl := Except.ok.inj h
        simp [Json.shape]
      | error none => simp [conform, hn] at h
    | _ =>
      -- for any other default the text is left as it is
      obtain rfl := Except.ok.inj h
      simp [Json.shape]

/-! ## All variables -/

/-- The sections of the settings are tables. -/
def Sectioned (fields : List (String × Json)) : Prop :=
  ∀ sectionName v, Entries.find? fields sectionName = some v → v.shape = .obj

/-- Entering a setting changes that setting only. -/
theorem exists_enter (htables : Sectioned fields) (sectionName key : String) (v : Json) :
    ∃ entered, enter fields sectionName key v = .ok entered ∧ Sectioned entered ∧
      ∀ sectionName' key', setting? entered sectionName' key' =
        if (sectionName, key) = (sectionName', key') then some v else setting? fields sectionName' key' := by
  obtain ⟨settings, hsettings⟩ :
      ∃ settings, (Entries.find? fields sectionName).getD (.obj []) = .obj settings := by
    cases hfind : Entries.find? fields sectionName with
    | none => exact ⟨[], rfl⟩
    | some w => exact Json.exists_eq_obj (htables sectionName w hfind)
  have hbefore (key' : String) : setting? fields sectionName key' = Entries.find? settings key' := by
    cases hfind : Entries.find? fields sectionName with
    | none =>
      rw [hfind] at hsettings
      cases hsettings
      simp [setting?, hfind, Entries.find?]
    | some w =>
      rw [hfind] at hsettings
      obtain rfl : w = .obj settings := hsettings
      simp [setting?, hfind, Json.field?]
  refine ⟨Entries.set fields sectionName (.obj (Entries.set settings key v)), by rw [enter, hsettings],
    fun sectionName' w hw => ?_, fun sectionName' key' => ?_⟩
  · rw [Entries.find?_set] at hw
    split at hw
    · obtain rfl := Option.some.inj hw
      rfl
    · exact htables sectionName' w hw
  · by_cases hsection : sectionName = sectionName'
    · subst hsection
      rw [hbefore, setting?, Entries.find?_set, if_pos rfl]
      simp [Json.field?, Entries.find?_set]
    · simp [setting?, Entries.find?_set, hsection]

/-- What is left after all variables: sections that are tables, in which each setting that a variable names has
the value of the last one, and the other settings are as before. -/
structure Overrides (environment : List (String × String)) (fields result : List (String × Json)) : Prop where
  sectioned : Sectioned result
  accepted : ∀ e ∈ environment, ∀ sectionName key, settingOf? e.1 = some (sectionName, key) →
    ∀ fault, ¬Refused e.1 e.2 (default? sectionName key) fault
  named : ∀ sectionName key e, latest? environment sectionName key = some e →
    ∃ v, valueOf e.1 e.2 (default? sectionName key) = .ok v ∧ setting? result sectionName key = some v
  unnamed : ∀ sectionName key, latest? environment sectionName key = none →
    setting? result sectionName key = setting? fields sectionName key

theorem override_of_some {sectionName key : String} (h : settingOf? name = some (sectionName, key)) :
    override fields name raw =
      valueOf name raw (default? sectionName key) >>= enter fields sectionName key := by
  simp [override, h, valueOf, bind_assoc]

theorem latest?_concat (environment : List (String × String)) (e : String × String)
    (sectionName key : String) : latest? (environment ++ [e]) sectionName key =
      if settingOf? e.1 = some (sectionName, key) then some e else latest? environment sectionName key := by
  rw [latest?, List.filter_append]
  split
  · next h => simp [h]
  · next h => simp [h, latest?]

/-- A further variable is applied to what is left after the others. -/
theorem Overrides.concat {environment : List (String × String)} {result : List (String × Json)}
    (h : Overrides environment fields result) (e : String × String) :
    (∃ result', override result e.1 e.2 = .ok result' ∧ Overrides (environment ++ [e]) fields result') ∨
      ∃ sectionName key fault, settingOf? e.1 = some (sectionName, key) ∧
        Refused e.1 e.2 (default? sectionName key) fault ∧ override result e.1 e.2 = .error fault := by
  cases hsetting : settingOf? e.1 with
  | none =>
    -- a variable that names no setting is passed over
    have hlatest (sectionName key : String) :
        latest? (environment ++ [e]) sectionName key = latest? environment sectionName key := by
      simp [latest?_concat, hsetting]
    refine .inl ⟨result, by simp [override, hsetting], h.sectioned, ?_, ?_, ?_⟩
    · rw [List.forall_mem_append]
      exact ⟨h.accepted, by simp [hsetting]⟩
    · simpa only [hlatest] using h.named
    · simpa only [hlatest] using h.unnamed
  | some setting =>
    obtain ⟨sectionName, key⟩ := setting
    cases hvalue : valueOf e.1 e.2 (default? sectionName key) with
    | error fault =>
      refine .inr ⟨sectionName, key, fault, rfl, valueOf_eq_error_iff.1 hvalue, ?_⟩
      rw [override_of_some hsetting, hvalue]
      rfl
    | ok v =>
      obtain ⟨entered, henter, hsectioned, hentered⟩ := exists_enter h.sectioned sectionName key v
      -- the variable now counts for its setting, whatever the earlier ones have left there
      have hlatest (s k : String) : latest? (environment ++ [e]) s k =
          if (sectionName, key) = (s, k) then some e else latest? environment s k := by
        simp only [latest?_concat, hsetting, Option.some.injEq]
      refine .inl ⟨entered, by rw [override_of_some hsetting, hvalue]; exact henter, hsectioned, ?_, ?_, ?_⟩
      · refine List.forall_mem_append.2 ⟨h.accepted, List.forall_mem_singleton.2 ?_⟩
        intro s k hs fault hrefused
        cases hsetting.symm.trans hs
        cases (valueOf_eq_error_iff.2 hrefused).symm.trans hvalue
      · intro s k e' he'
        rw [hlatest] at he'
        rw [hentered]
        split at he'
        · next hs =>
          cases hs
          cases he'
          exact ⟨v, hvalue, if_pos rfl⟩
        · next hne =>
          rw [if_neg hne]
          exact h.named s k e' he'
      · intro s k hnone
        rw [hlatest] at hnone
        split at hnone
        · cases hnone
        · next hne => rw [hentered, if_neg hne, h.unnamed s k hnone]

theorem applyEnvironment_concat (environment : List (String × String)) (e : String × String)
    (fields : List (String × Json)) :
    applyEnvironment (environment ++ [e]) fields =
      applyEnvironment environment fields >>= fun result => override result e.1 e.2 := by
  simp [applyEnvironment, List.foldlM_append]

/-- All variables are applied, or one of them is refused. -/
theorem applyEnvironment_cases (environment : List (String × String)) (htables : Sectioned fields) :
    (∃ result, applyEnvironment environment fields = .ok result ∧ Overrides environment fields result) ∨
      ∃ fault, applyEnvironment environment fields = .error fault ∧
        ∃ e ∈ environment, ∃ sectionName key, settingOf? e.1 = some (sectionName, key) ∧
          Refused e.1 e.2 (default? sectionName key) fault := by
  -- from the end, since the last variable for a setting is the one that counts
  induction environment using List.reverseRecOn with
  | nil => exact .inl ⟨fields, rfl, htables, nofun, nofun, fun _ _ _ => rfl⟩
  | append_singleton environment e ih =>
    rw [applyEnvironment_concat]
    rcases ih with ⟨result, hresult, hoverrides⟩ | ⟨fault, hfault, e', he', hrefused⟩
    · rw [hresult]
      rcases hoverrides.concat e with ⟨result', hresult', hoverrides'⟩ | ⟨s, k, fault, hs, hrefused, hfault⟩
      · exact .inl ⟨result', hresult', hoverrides'⟩
      · exact .inr ⟨fault, hfault, e, by simp, s, k, hs, hrefused⟩
    · rw [hfault]
      exact .inr ⟨fault, rfl, e', List.mem_append_left _ he', hrefused⟩

/-- Where the sections are tables, either no variable is refused, and each setting with a default that variables
override has a value of the kind of the default exactly if the text of the last one suits it, while what no
variable names is as before; or a variable is refused, with the fault that the call fails with. -/
theorem shapes_after_environment (environment : List (String × String)) (htables : Sectioned fields) :
    (∃ result, applyEnvironment environment fields = .ok result ∧
      (∀ e ∈ environment, ∀ sectionName key, settingOf? e.1 = some (sectionName, key) →
        ∀ fault, ¬Refused e.1 e.2 (default? sectionName key) fault) ∧
      (∀ sectionName key d e, default? sectionName key = some d →
        latest? environment sectionName key = some e →
        ∃ v, setting? result sectionName key = some v ∧ (v.shape = d.shape ↔ Suits d.shape e.2)) ∧
      ∀ sectionName key, latest? environment sectionName key = none →
        setting? result sectionName key = setting? fields sectionName key) ∨
    ∃ fault, applyEnvironment environment fields = .error fault ∧
      ∃ e ∈ environment, ∃ sectionName key, settingOf? e.1 = some (sectionName, key) ∧
        Refused e.1 e.2 (default? sectionName key) fault := by
  rcases applyEnvironment_cases environment htables with ⟨result, hresult, hoverrides⟩ | hrefused
  · refine .inl ⟨result, hresult, hoverrides.accepted, fun s k d e hd hlatest => ?_, hoverrides.unnamed⟩
    obtain ⟨v, hv, hsetting⟩ := hoverrides.named s k e hlatest
    rw [hd] at hv
    exact ⟨v, hsetting, shape_of_valueOf hv⟩
  · exact .inr hrefused

theorem sectioned_defaults : Sectioned defaults := by
  have hall : ∀ e ∈ defaults, e.2.shape = .obj := by decide
  exact fun sectionName v hv => hall _ (Entries.mem_of_find? hv)

/-- A list and then an integer for the limit of the reducer, under two spellings of its name, and a word for a
truth value. -/
def limitVariables : List (String × String) :=
  [("LOGICGRAPH_REDUCER_MAX_MODIFIERS", "[6]"), ("LOGICGRAPH_Reducer_Max_Modifiers", " 7 "),
    ("LOGICGRAPH_CLEANUP_REMOVE_EMPTY_REGIONS", "on")]

/-- The last variable makes the limit an integer, and the word stays where a truth value is wanted. -/
theorem shapes_after_limitVariables :
    Sectioned defaults ∧ ∃ result, applyEnvironment limitVariables defaults = .ok result ∧
      (∃ v, setting? result "reducer" "max_modifiers" = some v ∧ v.shape = .int) ∧
      ∃ v, setting? result "cleanup" "remove_empty_regions" = some v ∧ v.shape ≠ .bool := by
  have hlist : settingOf? "LOGICGRAPH_REDUCER_MAX_MODIFIERS" = some ("reducer", "max_modifiers") := by
    decide +kernel
  have hlimit : settingOf? "LOGICGRAPH_Reducer_Max_Modifiers" = some ("reducer", "max_modifiers") := by
    decide +kernel
  have hword : settingOf? "LOGICGRAPH_CLEANUP_REMOVE_EMPTY_REGIONS" =
      some ("cleanup", "remove_empty_regions") := by
    decide +kernel
  refine ⟨sectioned_defaults, ?_⟩
  rcases shapes_after_environment limitVariables sectioned_defaults with
    ⟨result, hresult, -, hshapes, -⟩ | ⟨fault, -, e, he, s, k, hs, hrefused⟩
  · have hlast : latest? limitVariables "reducer" "max_modifiers" =
        some ("LOGICGRAPH_Reducer_Max_Modifiers", " 7 ") := by
      simp [latest?, limitVariables, hlist, hlimit, hword]
    have honly : latest? limitVariables "cleanup" "remove_empty_regions" =
        some ("LOGICGRAPH_CLEANUP_REMOVE_EMPTY_REGIONS", "on") := by
      simp [latest?, limitVariables, hlist, hlimit, hword]
    obtain ⟨v, hv, hint⟩ := hshapes _ _ (.int 10) _ rfl hlast
    obtain ⟨w, hw, hbool⟩ := hshapes _ _ (.bool false) _ rfl honly
    have hseven : Suits .int " 7 " := ⟨7, rfl⟩
    have hon : ¬Suits .bool "on" := by simp [Suits, IsTruth]
    exact ⟨result, hresult, ⟨v, hv, hint.2 hseven⟩, w, hw, fun h => hon (hbool.1 h)⟩
  · -- none of the three is refused, since each of them has a value
    have hnone : ∀ v, valueOf e.1 e.2 (default? s k) ≠ .ok v := by
      intro v hv
      cases (valueOf_eq_error_iff.2 hrefused).symm.trans hv
    simp only [limitVariables, List.mem_cons, List.not_mem_nil, or_false] at he
    rcases he with rfl | rfl | rfl
    · cases hlist.symm.trans hs
      exact absurd rfl (hnone (.arr [.int 6]))
    · cases hlimit.symm.trans hs
      exact absurd rfl (hnone (.int 7))
    · cases hword.symm.trans hs
      exact absurd rfl (hnone (.str "on"))

/-- A list is taken for an integer setting without a complaint. -/
theorem list_stands_for_integer :
    Sectioned defaults ∧ default? "reducer" "max_modifiers" = some (.int 10) ∧
      settingOf? "LOGICGRAPH_REDUCER_MAX_MODIFIERS" = some ("reducer", "max_modifiers") ∧
      ∃ result, applyEnvironment [("LOGICGRAPH_REDUCER_MAX_MODIFIERS", "[6]")] defaults = .ok result ∧
        setting? result "reducer" "max_modifiers" = some (.arr [.int 6]) := by
  have hname : settingOf? "LOGICGRAPH_REDUCER_MAX_MODIFIERS" = some ("reducer", "max_modifiers") := by
    decide +kernel
  refine ⟨sectioned_defaults, rfl, hname, ?_⟩
  rw [applyEnvironment, List.foldlM_cons, override_of_some hname]
  exact ⟨_, rfl, rfl⟩

end RegionLogic.Settings
