import Mathlib.Data.List.Infix
import RegionLogic.Settings.Defaults
import RegionLogic.Settings.Merge

/-!
# What settings laid over others hold

The tables of settings are nested to any depth, and of two tables that are merged each may have a table where
the other one has a value, or nothing. What the outcome holds is told path by path. A path leads through the
upper table to something, or to a place where the upper table has nothing; only in the second case, and only if
no value stands in the way, it goes on in the lower table.

## Main definitions

* `Json.along?`: what a path of names leads to
* `Json.Proper`: tables that name each field once

## Main results

* `find?_merge`: a field of two merged tables
* `along?_merge_iff`: the values that two merged tables hold
* `merge_along_paths`: merging, path by path, with its neutral element and a second time
-/

namespace RegionLogic

open Settings

/-- What a path of names leads to from a value. -/
def Json.along? : Json → List String → Option Json
  | v, [] => some v
  | v, k :: path => (v.field? k).bind fun w => along? w path

theorem Json.along?_cons (fields : List (String × Json)) (k : String) (path : List String) :
    along? (.obj fields) (k :: path) = (Entries.find? fields k).bind fun w => along? w path := rfl

/-- A path that goes on leads nowhere from a value that is no table. -/
theorem Json.along?_of_ne_obj {v : Json} (h : v.shape ≠ .obj) (k : String) (path : List String) :
    v.along? (k :: path) = none := by
  cases v <;> simp_all [Json.along?, Json.field?, Json.shape]

/-- A value whose tables, along tables, name each of their fields once. -/
inductive Json.Proper : Json → Prop
  | table {fields : List (String × Json)} (names : (Entries.keys fields).Nodup)
      (values : ∀ e ∈ fields, Proper e.2) : Proper (.obj fields)
  | value {v : Json} (h : v.shape ≠ .obj) : Proper v

theorem Json.Proper.fields {fields : List (String × Json)} (h : Json.Proper (.obj fields)) :
    (Entries.keys fields).Nodup ∧ ∀ e ∈ fields, e.2.Proper := by
  cases h with
  | table names values => exact ⟨names, values⟩
  | value h => exact absurd rfl h

namespace Settings

variable {base override fields : List (String × Json)} {v : Json}

/-! ## One table over another -/

theorem mergeValue_of_ne_obj (h : v.shape ≠ .obj) (under : Option Json) : mergeValue under v = v := by
  cases v <;> simp_all [mergeValue, Json.shape]

theorem mergeValue_obj (under fields : List (String × Json)) :
    mergeValue (some (.obj under)) (.obj fields) = .obj (merge under fields) := by
  simp [mergeValue]

/-- A table takes the place of anything that is none. -/
theorem mergeValue_obj_of_ne {under : Option Json} (h : ∀ w, under = some w → w.shape ≠ .obj)
    (fields : List (String × Json)) : mergeValue under (.obj fields) = .obj fields := by
  rcases under with _ | w
  · simp [mergeValue]
  · have hw := h w rfl
    cases w <;> simp_all [mergeValue, Json.shape]

/-- A field of two merged tables is that of the upper one laid over that of the lower one, if the upper one has
it. -/
theorem find?_merge (h : (Entries.keys override).Nodup) (base : List (String × Json)) (k : String) :
    Entries.find? (merge base override) k =
      (Entries.find? override k).elim (Entries.find? base k)
        fun v => some (mergeValue (Entries.find? base k) v) := by
  induction override generalizing base with
  | nil => simp [Entries.find?]
  | cons e override ih =>
    obtain ⟨k', v⟩ := e
    rw [Entries.keys_cons, List.nodup_cons] at h
    rw [merge_cons, ih h.2, Entries.find?_set, Entries.find?]
    by_cases hk : k' = k
    · subst hk
      simp [Entries.find?_eq_none.2 h.1]
    · simp [hk]

/-- Fields that the lower table lacks come after its own. -/
theorem merge_of_nodup (h : (Entries.keys (base ++ fields)).Nodup) : merge base fields = base ++ fields := by
  induction fields generalizing base with
  | nil => simp
  | cons e fields ih =>
    obtain ⟨k, v⟩ := e
    have hnew : k ∉ Entries.keys base := by
      intro hk
      rw [Entries.keys, List.map_append] at h
      exact (List.nodup_append.1 h).2.2 k hk k (by simp) rfl
    have hnone : mergeValue none v = v := by
      cases v <;> simp [mergeValue]
    rw [merge_cons, Entries.find?_eq_none.2 hnew, hnone, Entries.set_of_not_mem hnew,
      ih (by simpa using h), List.append_assoc]
    rfl

theorem nil_merge (h : (Entries.keys fields).Nodup) : merge [] fields = fields :=
  @merge_of_nodup [] fields h

/-! ## A second time -/

/-- Nothing changes if each field laid over a table leaves what is there. -/
theorem merge_eq_self {t : List (String × Json)}
    (h : ∀ e ∈ fields, ∃ w, Entries.find? t e.1 = some w ∧ mergeValue (some w) e.2 = w) :
    merge t fields = t := by
  induction fields with
  | nil => simp
  | cons e fields ih =>
    obtain ⟨w, hw, hsame⟩ := h e (by simp)
    rw [merge_cons, hw, hsame, Entries.set_of_find? hw]
    exact ih fun e he => h e (List.mem_cons_of_mem _ he)

/-- What has been laid over something leaves it as it is when it is laid over it again. -/
theorem mergeValue_mergeValue (hv : v.Proper) (under : Option Json) :
    mergeValue (some (mergeValue under v)) v = mergeValue under v := by
  -- along the tables of what is laid over, whatever lies under each of them
  induction hv generalizing under with
  | value hv => rw [mergeValue_of_ne_obj hv, mergeValue_of_ne_obj hv]
  | @table fields hnames _ ih =>
    have hagain (base : List (String × Json)) : merge (merge base fields) fields = merge base fields := by
      refine merge_eq_self fun e he => ⟨mergeValue (Entries.find? base e.1) e.2, ?_, ih e he _⟩
      rw [find?_merge hnames, Entries.find?_of_mem hnames he]
      rfl
    by_cases htable : ∃ w, under = some w ∧ w.shape = .obj
    · obtain ⟨w, rfl, hw⟩ := htable
      obtain ⟨base, rfl⟩ := Json.exists_eq_obj hw
      rw [mergeValue_obj, mergeValue_obj, hagain]
    · have hne : ∀ w, under = some w → w.shape ≠ .obj := fun w hw hshape => htable ⟨w, hw, hshape⟩
      -- the table has taken the place of something else, and is now laid over itself
      have hself := hagain []
      rw [nil_merge hnames] at hself
      rw [mergeValue_obj_of_ne hne, mergeValue_obj, hself]

/-! ## Paths -/

/-- A table has nothing at a path, and no value on the way there. -/
def LeavesFree (upper : Json) (path : List String) : Prop :=
  upper.along? path = none ∧
    ∀ q, q <+: path → q ≠ [] → q ≠ path → ∀ w, upper.along? q = some w → w.shape = .obj

theorem leavesFree_of_none {k : String} (h : Entries.find? fields k = none) (path : List String) :
    LeavesFree (.obj fields) (k :: path) := by
  refine ⟨by simp [Json.along?_cons, h], fun q hq hnil _ w hw => ?_⟩
  cases q with
  | nil => exact absurd rfl hnil
  | cons k' q =>
    obtain ⟨rfl, -⟩ := List.cons_prefix_cons.1 hq
    simp [Json.along?_cons, h] at hw

theorem leavesFree_of_table {k : String} {inner : List (String × Json)}
    (h : Entries.find? fields k = some (.obj inner)) (path : List String) :
    LeavesFree (.obj fields) (k :: path) ↔ LeavesFree (.obj inner) path := by
  have hstep (q : List String) : Json.along? (.obj fields) (k :: q) = Json.along? (.obj inner) q := by
    rw [Json.along?_cons, h, Option.bind_some]
  rw [LeavesFree, LeavesFree, hstep]
  refine and_congr_right fun _ => ⟨fun hway q hq hnil hne w hw => ?_, fun hway q hq hnil hne w hw => ?_⟩
  · have hpart : k :: q <+: k :: path := List.cons_prefix_cons.2 ⟨rfl, hq⟩
    exact hway (k :: q) hpart (by simp) (by simpa using hne) w ((hstep q).trans hw)
  · cases q with
    | nil => exact absurd rfl hnil
    | cons k' q =>
      obtain ⟨rfl, hrest⟩ := List.cons_prefix_cons.1 hq
      rw [hstep] at hw
      by_cases hq : q = []
      · obtain rfl := hq
        obtain rfl := Option.some.inj hw
        rfl
      · exact hway q hrest hq (by simpa using hne) w hw

/-- A value stands in the way of all paths through its name. -/
theorem not_leavesFree_of_value {k : String} (h : Entries.find? fields k = some v) (hv : v.shape ≠ .obj)
    (path : List String) : ¬LeavesFree (.obj fields) (k :: path) := by
  have hvalue : Json.along? (.obj fields) [k] = some v := by
    rw [Json.along?_cons, h]
    rfl
  rintro ⟨hnone, hway⟩
  by_cases hpath : path = []
  · rw [hpath, hvalue] at hnone
    cases hnone
  · have hpart : [k] <+: k :: path := List.cons_prefix_cons.2 ⟨rfl, List.nil_prefix⟩
    exact hv (hway [k] hpart (by simp) (by simpa using Ne.symm hpath) v hvalue)

/-- Two merged tables hold a value at a path if the upper one holds it there, or the lower one does and the
upper one leaves the path free. -/
theorem along?_merge_iff (hupper : Json.Proper (.obj override)) (hv : v.shape ≠ .obj)
    (base : List (String × Json)) (path : List String) :
    Json.along? (.obj (merge base override)) path = some v ↔
      Json.along? (.obj override) path = some v ∨
        Json.along? (.obj base) path = some v ∧ LeavesFree (.obj override) path := by
  induction path generalizing base override with
  | nil =>
    -- the path leads to the tables themselves, which are no values
    have htable (fields : List (String × Json)) : Json.along? (.obj fields) [] ≠ some v := by
      intro h
      obtain rfl := Option.some.inj h
      exact hv rfl
    simp [htable]
  | cons k path ih =>
    obtain ⟨hnames, hvalues⟩ := hupper.fields
    rw [Json.along?_cons, Json.along?_cons, find?_merge hnames]
    cases hk : Entries.find? override k with
    | none => simp [Json.along?_cons, leavesFree_of_none hk]
    | some u =>
      simp only [Option.elim_some, Option.bind_some]
      by_cases hu : u.shape = .obj
      · obtain ⟨inner, rfl⟩ := Json.exists_eq_obj hu
        rw [leavesFree_of_table hk]
        by_cases hunder : ∃ w, Entries.find? base k = some w ∧ w.shape = .obj
        · obtain ⟨w, hw, hshape⟩ := hunder
          obtain ⟨under, rfl⟩ := Json.exists_eq_obj hshape
          rw [Json.along?_cons, hw, mergeValue_obj, Option.bind_some]
          exact ih (hvalues _ (Entries.mem_of_find? hk)) under
        · -- what the upper table holds here takes the place of something that is no table
          have hne : ∀ w, Entries.find? base k = some w → w.shape ≠ .obj :=
            fun w hw hshape => hunder ⟨w, hw, hshape⟩
          rw [mergeValue_obj_of_ne hne]
          refine (or_iff_left ?_).symm
          rintro ⟨hbase, hfree, -⟩
          obtain ⟨w, hw, halong⟩ := Option.bind_eq_some_iff.1 hbase
          cases path with
          | nil => cases hfree
          | cons k' path =>
            rw [Json.along?_of_ne_obj (hne w hw)] at halong
            cases halong
      · rw [mergeValue_of_ne_obj hu]
        exact (or_iff_left fun h => not_leavesFree_of_value hk hu path h.2).symm

/-- Merged tables hold the values of the upper table, and those of the lower table at the paths that the upper
one leaves free. To lay the same table over another once more changes nothing, and the empty table is neutral
on both sides. -/
theorem merge_along_paths (base : List (String × Json)) (hupper : Json.Proper (.obj override)) :
    (∀ path v, v.shape ≠ .obj →
      (Json.along? (.obj (merge base override)) path = some v ↔
        Json.along? (.obj override) path = some v ∨
          Json.along? (.obj base) path = some v ∧ LeavesFree (.obj override) path)) ∧
      merge (merge base override) override = merge base override ∧
      merge base [] = base ∧ merge [] override = override := by
  refine ⟨fun path v hv => along?_merge_iff hupper hv base path, ?_, merge_nil base,
    nil_merge hupper.fields.1⟩
  have hagain := mergeValue_mergeValue hupper (some (.obj base))
  rw [mergeValue_obj, mergeValue_obj] at hagain
  exact Json.obj.inj hagain

/-- Settings that switch the reducer on, change one of its resets, and have a text for a section. -/
def reducerSettings : List (String × Json) :=
  [("input", .str "none"),
    ("reducer", .obj [("enabled", .bool true), ("exclusive", .obj [("$SHADESKIP", .str "$HOTSPRINGRESET")])])]

/-- Over the defaults, the limit of the reducer stays, its reset is the new one, and nothing is left of the
section that has become a text. -/
theorem merge_along_paths_reducerSettings :
    Json.Proper (.obj reducerSettings) ∧
      Json.along? (.obj (merge defaults reducerSettings)) ["reducer", "max_modifiers"] = some (.int 10) ∧
      Json.along? (.obj (merge defaults reducerSettings)) ["reducer", "exclusive", "$SHADESKIP"] =
        some (.str "$HOTSPRINGRESET") ∧
      Json.along? (.obj (merge defaults reducerSettings)) ["input", "world"] ≠ some (.str "") ∧
      merge (merge defaults reducerSettings) reducerSettings = merge defaults reducerSettings := by
  have hproper : Json.Proper (.obj reducerSettings) := by
    refine .table (by decide) (List.forall_mem_cons.2 ⟨.value (by decide), List.forall_mem_singleton.2 ?_⟩)
    refine .table (by decide) (List.forall_mem_cons.2 ⟨.value (by decide), List.forall_mem_singleton.2 ?_⟩)
    exact .table (by decide) (List.forall_mem_singleton.2 (.value (by decide)))
  obtain ⟨hholds, hagain, -⟩ := merge_along_paths defaults hproper
  refine ⟨hproper, (hholds _ _ (by decide)).2 (.inr ⟨rfl, ?_⟩), (hholds _ _ (by decide)).2 (.inl rfl),
    fun h => ?_, hagain⟩
  · exact (leavesFree_of_table rfl _).2 (leavesFree_of_none rfl [])
  · rcases (hholds _ _ (by decide)).1 h with hupper | ⟨-, hfree⟩
    · cases hupper
    · exact not_leavesFree_of_value rfl (by decide) ["world"] hfree

end Settings

end RegionLogic
