import Mathlib.Data.List.Nodup
import Mathlib.Data.Nat.Digits.Defs
import RegionLogic.Proofs.Text.Units
import RegionLogic.World.DataModule
import RegionLogic.World.ModuleReader

/-!
# Literals that are read again

A value that is made of texts, truth values, lists and tables is written as a literal, and the reader of data
modules gives it back. An escape of a unit denotes one code point there, so a text comes back as the list of its
UTF-16 units: a character beyond the 16-bit code points becomes two surrogates.

What is written is followed through the reader piece by piece. The characters of a text add its units to a text
that is open. An item or a field takes the reader from one place in a container to the next, wherever the
container stands, and so do all of them one after the other.

## Main definitions

* `DataModule.Literal.ofJson?`: a value as a literal, for a given form of texts
* `DataModule.Made`: values that are made of texts with a given property
* `DataModule.Reader.Reads`, `DataModule.Reader.Takes`: characters that are read as a literal, or as an item or
  field

## Main results

* `DataModule.Made.ofJson?_eq_iff`: when a value is the same literal for two forms of texts
* `DataModule.Reader.run_textLiteral`: a text is read as its UTF-16 units
* `DataModule.Reader.run_block`: a container is read as its items or fields
* `DataModule.Reader.reads_literal`: a value is read from its literal
-/

namespace RegionLogic

namespace Text

/-- A code point in one hexadecimal digit more. -/
theorem hexDigits_succ {width : Nat} (hwidth : 0 < width) (n : Nat) :
    hexDigits (width + 1) n = hexDigits width (n / 16) ++ [Nat.digitChar (n % 16)] := by
  unfold hexDigits
  rcases Nat.lt_or_ge n 16 with hn | hn
  · obtain ⟨width, rfl⟩ : ∃ m, width = m + 1 := ⟨width - 1, by omega⟩
    rw [Nat.toDigits_of_lt_base hn, Nat.div_eq_of_lt hn, Nat.mod_eq_of_lt hn, Nat.toDigits_zero]
    simp [List.replicate_succ']
  · rw [Nat.toDigits_of_base_le (by decide) hn]
    simp

end Text

namespace DataModule

open Text

/-! ## Values as literals -/

/-- The name of a field as it is written, in snake case if `rename` says so. -/
def fieldName (rename : Bool) (key : String) : String := if rename then snakeCase key else key

/-- A table in which fields have been entered one after the other. -/
def enterAll (fields new : List (List Nat × Literal)) : List (List Nat × Literal) :=
  new.foldl (fun fields e => Entries.set fields e.1 e.2) fields

mutual

/-- What a value is as a literal, if a text is the code points that `f` gives. The names of its own fields are
taken in snake case if `rename` says so, those of deeper tables always. Numbers are no literals. -/
def Literal.ofJson? (f : String → List Nat) (rename : Bool) : Json → Option Literal
  | .null => some .absent
  | .bool b => some (.truth b)
  | .int _ => none
  | .float _ => none
  | .str s => some (.text (f s))
  | .arr items => (ofItems? f items).map .list
  | .obj fields => (ofFields? f rename fields).map fun fields => .table (enterAll [] fields)

/-- The items of a list as literals. -/
def Literal.ofItems? (f : String → List Nat) : List Json → Option (List Literal)
  | [] => some []
  | v :: vs => do return (← ofJson? f true v) :: (← ofItems? f vs)

/-- The fields of a table as literals. -/
def Literal.ofFields? (f : String → List Nat) (rename : Bool) :
    List (String × Json) → Option (List (List Nat × Literal))
  | [] => some []
  | (k, v) :: fs => do
    return (f (fieldName rename k), ← ofJson? f true v) :: (← ofFields? f rename fs)

end

section OfJson

variable {f g : String → List Nat} {rename : Bool} {v : Json} {items : List Json} {key : String}
  {fields : List (String × Json)} {ls : List Literal} {entries : List (List Nat × Literal)}

theorem ofItems?_cons_eq_some : Literal.ofItems? f (v :: items) = some ls ↔
    ∃ l rest, Literal.ofJson? f true v = some l ∧ Literal.ofItems? f items = some rest ∧ l :: rest = ls := by
  simp [Literal.ofItems?, Option.bind_eq_some_iff]

theorem ofFields?_cons_eq_some : Literal.ofFields? f rename ((key, v) :: fields) = some entries ↔
    ∃ l rest, Literal.ofJson? f true v = some l ∧ Literal.ofFields? f rename fields = some rest ∧
      (f (fieldName rename key), l) :: rest = entries := by
  simp [Literal.ofFields?, Option.bind_eq_some_iff]

theorem exists_ofItems? (h : ∀ v ∈ items, ∃ l, Literal.ofJson? f true v = some l) :
    ∃ ls, Literal.ofItems? f items = some ls := by
  induction items with
  | nil => exact ⟨[], rfl⟩
  | cons v vs ih =>
    obtain ⟨⟨l, hl⟩, hvs⟩ := List.forall_mem_cons.1 h
    obtain ⟨ls, hls⟩ := ih hvs
    exact ⟨_, ofItems?_cons_eq_some.2 ⟨l, ls, hl, hls, rfl⟩⟩

theorem exists_ofFields? (h : ∀ e ∈ fields, ∃ l, Literal.ofJson? f true e.2 = some l) :
    ∃ entries, Literal.ofFields? f rename fields = some entries := by
  induction fields with
  | nil => exact ⟨[], rfl⟩
  | cons e fs ih =>
    obtain ⟨⟨l, hl⟩, hfs⟩ := List.forall_mem_cons.1 h
    obtain ⟨entries, hentries⟩ := ih hfs
    exact ⟨_, ofFields?_cons_eq_some.2 ⟨l, entries, hl, hentries, rfl⟩⟩

theorem ofItems?_congr (h : ∀ v ∈ items, Literal.ofJson? f true v = Literal.ofJson? g true v) :
    Literal.ofItems? f items = Literal.ofItems? g items := by
  induction items with
  | nil => rfl
  | cons v vs ih =>
    obtain ⟨hv, hvs⟩ := List.forall_mem_cons.1 h
    rw [Literal.ofItems?, Literal.ofItems?, hv, ih hvs]

theorem ofFields?_congr (hkeys : ∀ e ∈ fields, f (fieldName rename e.1) = g (fieldName rename e.1))
    (h : ∀ e ∈ fields, Literal.ofJson? f true e.2 = Literal.ofJson? g true e.2) :
    Literal.ofFields? f rename fields = Literal.ofFields? g rename fields := by
  induction fields with
  | nil => rfl
  | cons e fs ih =>
    obtain ⟨hkey, hkeys⟩ := List.forall_mem_cons.1 hkeys
    obtain ⟨he, hfs⟩ := List.forall_mem_cons.1 h
    rw [Literal.ofFields?, Literal.ofFields?, hkey, he, ih hkeys hfs]

theorem ofItems?_inj (hf : Literal.ofItems? f items = some ls) (hg : Literal.ofItems? g items = some ls) :
    ∀ v ∈ items, Literal.ofJson? f true v = Literal.ofJson? g true v := by
  induction items generalizing ls with
  | nil => simp
  | cons v vs ih =>
    obtain ⟨l, rest, hl, hrest, rfl⟩ := ofItems?_cons_eq_some.1 hf
    obtain ⟨_, _, hl', hrest', heq⟩ := ofItems?_cons_eq_some.1 hg
    obtain ⟨rfl, rfl⟩ := List.cons.inj heq
    exact List.forall_mem_cons.2 ⟨hl.trans hl'.symm, ih hrest hrest'⟩

theorem ofFields?_inj (hf : Literal.ofFields? f rename fields = some entries)
    (hg : Literal.ofFields? g rename fields = some entries) :
    ∀ e ∈ fields, f (fieldName rename e.1) = g (fieldName rename e.1) ∧
      Literal.ofJson? f true e.2 = Literal.ofJson? g true e.2 := by
  induction fields generalizing entries with
  | nil => simp
  | cons e fs ih =>
    obtain ⟨l, rest, hl, hrest, rfl⟩ := ofFields?_cons_eq_some.1 hf
    obtain ⟨_, _, hl', hrest', heq⟩ := ofFields?_cons_eq_some.1 hg
    obtain ⟨hfirst, rfl⟩ := List.cons.inj heq
    obtain ⟨hkey, rfl⟩ := Prod.mk.inj hfirst
    exact List.forall_mem_cons.2 ⟨⟨hkey.symm, hl.trans hl'.symm⟩, ih hrest hrest'⟩

theorem keys_ofFields? (h : Literal.ofFields? f rename fields = some entries) :
    Entries.keys entries = (fields.map fun e => fieldName rename e.1).map f := by
  induction fields generalizing entries with
  | nil =>
    obtain rfl := Option.some.inj h
    rfl
  | cons e fs ih =>
    obtain ⟨l, rest, -, hrest, rfl⟩ := ofFields?_cons_eq_some.1 h
    rw [Entries.keys_cons, List.map_cons, List.map_cons, ih hrest]

/-- Fields with different names make a table of the same fields. -/
theorem enterAll_of_nodup (hf : Function.Injective f) (hnodup : (fields.map fun e => fieldName rename e.1).Nodup)
    (h : Literal.ofFields? f rename fields = some entries) : enterAll [] entries = entries := by
  have hkeys : (Entries.keys ([] ++ entries)).Nodup := by
    rw [List.nil_append, keys_ofFields? h]
    exact hnodup.map hf
  exact Entries.foldl_set_of_nodup hkeys

end OfJson

/-- The value is made of lists, tables, truth values and texts, and `P` holds of each text and of the name of
each field as it is written. No two fields of a table have the same name. -/
inductive Made (P : String → Prop) : Bool → Json → Prop
  | null {rename : Bool} : Made P rename .null
  | bool {rename b : Bool} : Made P rename (.bool b)
  | str {rename : Bool} {s : String} (h : P s) : Made P rename (.str s)
  | arr {rename : Bool} {items : List Json} (h : ∀ v ∈ items, Made P true v) : Made P rename (.arr items)
  | obj {rename : Bool} {fields : List (String × Json)}
      (hnodup : (fields.map fun e => fieldName rename e.1).Nodup)
      (hkeys : ∀ e ∈ fields, P (fieldName rename e.1)) (h : ∀ e ∈ fields, Made P true e.2) :
      Made P rename (.obj fields)

section Made

variable {P : String → Prop} {f g : String → List Nat} {rename : Bool} {v : Json}

/-- What is made of texts is a literal. -/
theorem Made.exists_literal (h : Made P rename v) (f : String → List Nat) :
    ∃ l, Literal.ofJson? f rename v = some l := by
  induction h with
  | null => exact ⟨_, rfl⟩
  | bool => exact ⟨_, rfl⟩
  | str => exact ⟨_, rfl⟩
  | arr _ ih =>
    obtain ⟨ls, hls⟩ := exists_ofItems? ih
    exact ⟨.list ls, congrArg (Option.map _) hls⟩
  | obj _ _ _ ih =>
    obtain ⟨entries, hentries⟩ := exists_ofFields? ih
    exact ⟨.table (enterAll [] entries), congrArg (Option.map _) hentries⟩

/-- Where two functions agree on all texts of a value, its literals agree. -/
theorem Made.ofJson?_congr (h : Made (fun s => f s = g s) rename v) :
    Literal.ofJson? f rename v = Literal.ofJson? g rename v := by
  induction h with
  | null => rfl
  | bool => rfl
  | str hs => exact congrArg (some ∘ Literal.text) hs
  | arr _ ih => exact congrArg (Option.map _) (ofItems?_congr ih)
  | obj _ hkeys _ ih => exact congrArg (Option.map _) (ofFields?_congr hkeys ih)

/-- Where the literals of a value agree, two functions agree on all of its texts. -/
theorem Made.of_ofJson?_eq (hf : Function.Injective f) (hg : Function.Injective g) (h : Made P rename v)
    (heq : Literal.ofJson? f rename v = Literal.ofJson? g rename v) : Made (fun s => f s = g s) rename v := by
  induction h with
  | null => exact .null
  | bool => exact .bool
  | str => exact .str (Literal.text.inj (Option.some.inj heq))
  | arr h ih =>
    obtain ⟨ls, hls⟩ := exists_ofItems? fun v hv => (h v hv).exists_literal f
    rw [Literal.ofJson?, Literal.ofJson?, hls] at heq
    obtain ⟨ls', hls', hlist⟩ := Option.map_eq_some_iff.1 heq.symm
    obtain rfl := Literal.list.inj hlist
    exact .arr fun v hv => ih v hv (ofItems?_inj hls hls' v hv)
  | obj hnodup _ h ih =>
    obtain ⟨entries, hentries⟩ := exists_ofFields? fun e he => (h e he).exists_literal f
    rw [Literal.ofJson?, Literal.ofJson?, hentries] at heq
    obtain ⟨entries', hentries', htable⟩ := Option.map_eq_some_iff.1 heq.symm
    have hsame := Literal.table.inj htable
    rw [enterAll_of_nodup hg hnodup hentries', enterAll_of_nodup hf hnodup hentries] at hsame
    subst hsame
    have hagree := ofFields?_inj hentries hentries'
    exact .obj hnodup (fun e he => (hagree e he).1) fun e he => ih e he (hagree e he).2

theorem Made.ofJson?_eq_iff (hf : Function.Injective f) (hg : Function.Injective g) (h : Made P rename v) :
    Literal.ofJson? f rename v = Literal.ofJson? g rename v ↔ Made (fun s => f s = g s) rename v :=
  ⟨h.of_ofJson?_eq hf hg, Made.ofJson?_congr⟩

end Made

variable {bindings : List (String × Literal)} {cs cs' : List Char} {c : Char} {r : Reader} {t : OpenText}
  {k k' : Context}

namespace Reader

theorem run_append : run (cs ++ cs') r = (run cs r).bind (run cs') := List.foldlM_append ..

theorem run_cons : run (c :: cs) r = (step r c).bind (run cs) := List.foldlM_cons ..

@[simp] theorem run_nil : run [] r = some r := rfl

theorem run_append_of_some {r' : Reader} (h : run cs r = some r') : run (cs ++ cs') r = run cs' r' := by
  rw [run_append, h, Option.bind_some]

theorem run_singleton : run [c] r = step r c := by
  rw [run_cons]
  exact Option.bind_fun_some _

theorem run_cons_of_some {r' : Reader} (h : step r c = some r') : run (c :: cs) r = run cs r' := by
  rw [run_cons, h, Option.bind_some]

/-! ## Texts -/

theorem hexValue?_digitChar {d : Nat} (h : d < 16) : Json.hexValue? (Nat.digitChar d) = some d := by
  revert d
  decide

theorem stepHex_of_lt {left n d : Nat} (hleft : 1 < left) (hd : d < 16) :
    step ⟨bindings, .hex left n t⟩ (Nat.digitChar d) = some ⟨bindings, .hex (left - 1) (16 * n + d) t⟩ := by
  simp [step, stepHex, hexValue?_digitChar hd, hleft]

theorem run_escape (hquote : t.quote = '"') :
    run ('\\' :: cs) ⟨bindings, .text t⟩ = run cs ⟨bindings, .escape t⟩ :=
  run_cons_of_some (by simp [step, stepText, hquote])

theorem stepHex_last {n d : Nat} (hd : d < 16) (hn : 16 * n + d ≤ 0x10ffff) :
    step ⟨bindings, .hex 1 n t⟩ (Nat.digitChar d) = some ⟨bindings, .text (t.push (16 * n + d))⟩ := by
  simp [step, stepHex, hexValue?_digitChar hd, hn]

/-- An escape of four hexadecimal digits denotes the number that they denote. -/
theorem run_unitEscape (hquote : t.quote = '"') {n : Nat} (hn : n < 0x10000) :
    run (Json.unitEscape n) ⟨bindings, .text t⟩ = some ⟨bindings, .text (t.push n)⟩ := by
  have hdigits : hexDigits 4 n = [Nat.digitChar (n / 16 / 16 / 16), Nat.digitChar (n / 16 / 16 % 16),
      Nat.digitChar (n / 16 % 16), Nat.digitChar (n % 16)] := by
    rw [hexDigits_succ (by decide), hexDigits_succ (by decide), hexDigits_succ (by decide), hexDigits,
      Nat.toDigits_of_lt_base (by omega)]
    rfl
  have hunit : step ⟨bindings, .escape t⟩ 'u' = some ⟨bindings, .hex 4 0 t⟩ := rfl
  rw [Json.unitEscape, hdigits, run_escape hquote, run_cons_of_some hunit,
    run_cons_of_some (stepHex_of_lt (by decide) (by omega)), run_cons_of_some (stepHex_of_lt (by decide) (by omega)),
    run_cons_of_some (stepHex_of_lt (by decide) (by omega)), run_singleton, stepHex_last (by omega) (by omega)]
  congr
  omega

theorem stepText_of_plain (hquote : t.quote = '"') (hne : c ≠ '"') (hne' : c ≠ '\\') (hc : 0x20 ≤ c.toNat) :
    step ⟨bindings, .text t⟩ c = some ⟨bindings, .text (t.push c.toNat)⟩ := by
  have hcontrol : ∀ d : Char, d.toNat < 0x20 → c ≠ d := by
    rintro d hd rfl
    omega
  simp [step, stepText, hquote, hne, hne', hcontrol '\n' (by decide), hcontrol '\r' (by decide),
    hcontrol '\x00' (by decide)]

/-- A character of a text denotes its UTF-16 units. -/
theorem run_literalChar (hquote : t.quote = '"') (c : Char) :
    run (Json.literalChar c) ⟨bindings, .text t⟩ =
      some ⟨bindings, .text { t with points := t.points ++ charUnits c }⟩ := by
  unfold Json.literalChar
  -- the characters that have escapes of their own
  iterate 7
    split
    · next h =>
      rw [h, run_escape hquote]
      rfl
  have hc := toNat_lt c
  unfold charUnits
  split
  · next hne hne' _ _ _ _ _ hprintable =>
    rw [if_pos (by omega), run_singleton, stepText_of_plain hquote hne hne' hprintable.1]
    rfl
  · split
    · next hunit => exact run_unitEscape hquote hunit
    · rw [run_append_of_some (run_unitEscape hquote (by omega)), run_unitEscape (by exact hquote) (by omega)]
      simp [OpenText.push]

theorem run_literalChars (hquote : t.quote = '"') (cs : List Char) :
    run (cs.flatMap Json.literalChar) ⟨bindings, .text t⟩ =
      some ⟨bindings, .text { t with points := t.points ++ cs.flatMap charUnits }⟩ := by
  induction cs generalizing t with
  | nil => simp
  | cons c cs ih =>
    rw [List.flatMap_cons, run_append_of_some (run_literalChar hquote c), ih (by exact hquote),
      List.flatMap_cons, List.append_assoc]

/-- A text is read as its UTF-16 units. -/
theorem run_textLiteral (s : String) :
    run (Json.textLiteral s).toList ⟨bindings, .start k⟩ = deliver bindings (.text (units s)) k := by
  have hquote : step ⟨bindings, .start k⟩ '"' = some ⟨bindings, .text ⟨'"', [], k⟩⟩ := rfl
  rw [Json.textLiteral, String.toList_ofList, Json.literalChars, List.cons_append, run_cons_of_some hquote,
    run_append_of_some (run_literalChars rfl s.toList), run_singleton, List.nil_append]
  rfl

/-! ## Items and fields -/

/-- The characters are read as the literal wherever one can stand, if a comma or the end of the line follows. -/
def Reads (cs : List Char) (v : Literal) : Prop :=
  ∀ bindings k c, c = ',' ∨ c = '\n' →
    run (cs ++ [c]) ⟨bindings, .start k⟩ = (deliver bindings v k).bind (step · c)

/-- Where `k` says that an item or a field can stand, the characters are read as one, and then `k'` says what
there is. -/
def Takes (cs : List Char) (k k' : Context) : Prop :=
  k.isOutermost = false ∧ ∀ bindings c, c = ',' ∨ c = '\n' →
    run (cs ++ [c]) ⟨bindings, .start k⟩ = step ⟨bindings, .next k'⟩ c

/-- Items or fields that are read one after the other. -/
def TakesAll : List String → Context → Context → Prop
  | [], k, k' => k = k'
  | s :: rest, k, k' => ∃ k₁, Takes s.toList k k₁ ∧ TakesAll rest k₁ k'

theorem reads_of_deliver {v : Literal}
    (h : ∀ bindings k, run cs ⟨bindings, .start k⟩ = deliver bindings v k) : Reads cs v := by
  intro bindings k c _
  rw [run_append, h]
  exact congrArg _ (funext fun r => run_singleton)

theorem Reads.takes_item {v : Literal} (h : Reads cs v) (items : List Literal) (outer : Context) :
    Takes cs (.item items outer) (.item (items ++ [v]) outer) :=
  ⟨rfl, fun bindings c hc => (h bindings _ c hc).trans (Option.bind_some ..)⟩

theorem Reads.takes_field {v : Literal} (h : Reads cs v) (fields : List (List Nat × Literal)) (key : String)
    (outer : Context) :
    Takes ((Json.textLiteral key ++ ": ").toList ++ cs) (.key fields outer)
      (.key (Entries.set fields (units key) v) outer) := by
  refine ⟨rfl, fun bindings c hc => ?_⟩
  have hkey : run (Json.textLiteral key).toList ⟨bindings, .start (.key fields outer)⟩ =
      some ⟨bindings, .colon fields (units key) outer⟩ := run_textLiteral key
  have hcolon : run ": ".toList ⟨bindings, .colon fields (units key) outer⟩ =
      some ⟨bindings, .start (.field fields (units key) outer)⟩ := rfl
  rw [String.toList_append, List.append_assoc, List.append_assoc, run_append_of_some hkey,
    run_append_of_some hcolon, h bindings _ c hc]
  exact Option.bind_some ..

/-! ## Containers -/

theorem step_start_of_blank (hk : k.isOutermost = false) (hc : c = ' ' ∨ c = '\n') :
    step ⟨bindings, .start k⟩ c = some ⟨bindings, .start k⟩ := by
  rcases hc with rfl | rfl <;> simp [step, stepStart, isBlank, hk]

theorem step_next_of_blank (hc : c = ' ' ∨ c = '\n') :
    step ⟨bindings, .next k⟩ c = some ⟨bindings, .next k⟩ := by
  rcases hc with rfl | rfl <;> rfl

/-- What stays the same with each character stays the same. -/
theorem run_of_stays (h : ∀ c ∈ cs, step r c = some r) : run cs r = some r := by
  induction cs with
  | nil => rfl
  | cons c cs ih =>
    rw [run_cons_of_some (h c (by simp)), ih fun c hc => h c (List.mem_cons_of_mem _ hc)]

theorem mem_lineBreak {width depth : Nat} (hc : c ∈ (lineBreak width depth).toList) : c = ' ' ∨ c = '\n' := by
  rw [toList_lineBreak, List.mem_cons] at hc
  rcases hc with rfl | hc
  · exact Or.inr rfl
  · exact Or.inl (List.eq_of_mem_replicate hc)

/-- Items or fields with separators between them are read one after the other. -/
theorem run_intercalate {width depth : Nat} {s : String} {rest : List String} (h : TakesAll (s :: rest) k k') :
    run ((',' :: (lineBreak width depth).toList).intercalate ((s :: rest).map String.toList) ++ '\n' :: cs)
      ⟨bindings, .start k⟩ = run cs ⟨bindings, .next k'⟩ := by
  induction rest generalizing s k with
  | nil =>
    obtain ⟨_, htakes, rfl⟩ := h
    have hlast := (htakes.2 bindings '\n' (Or.inr rfl)).trans (step_next_of_blank (Or.inr rfl))
    rw [List.map_singleton, List.intercalate_singleton, ← List.singleton_append, ← List.append_assoc,
      run_append_of_some hlast]
  | cons s' rest ih =>
    obtain ⟨k₁, htakes, h⟩ := h
    have hcomma : run (s.toList ++ [',']) ⟨bindings, .start k⟩ = some ⟨bindings, .start k₁⟩ :=
      htakes.2 bindings ',' (Or.inl rfl)
    -- one more follows, so `k₁` is no outermost place, and the line can break there
    have hbreak : run (lineBreak width depth).toList ⟨bindings, .start k₁⟩ = some ⟨bindings, .start k₁⟩ := by
      obtain ⟨_, htakes', -⟩ := h
      exact run_of_stays fun c hc => step_start_of_blank htakes'.1 (mem_lineBreak hc)
    have hsplit : ∀ l : List Char, s.toList ++ ',' :: (lineBreak width depth).toList ++ l ++ '\n' :: cs =
        (s.toList ++ [',']) ++ ((lineBreak width depth).toList ++ (l ++ '\n' :: cs)) := by simp
    rw [List.map_cons, List.map_cons, List.intercalate_cons_cons, hsplit, run_append_of_some hcomma,
      run_append_of_some hbreak, ← List.map_cons, ih h]

/-- A container is read as what its closing bracket completes after its items or fields. -/
theorem run_block {first last : String} {depth : Nat} {items : List String} {v : Literal} {outer : Context}
    (hfirst : run first.toList ⟨bindings, .start outer⟩ = some ⟨bindings, .start k⟩)
    (hitems : TakesAll items k k')
    (hempty : run last.toList ⟨bindings, .start k'⟩ = deliver bindings v outer)
    (hlast : run last.toList ⟨bindings, .next k'⟩ = deliver bindings v outer) :
    run (block 4 depth first last items).toList ⟨bindings, .start outer⟩ = deliver bindings v outer := by
  rcases items with _ | ⟨s, rest⟩
  · obtain rfl : k = k' := hitems
    rw [block_nil, String.toList_append, run_append_of_some hfirst, hempty]
  · have hbreak : run (lineBreak 4 (depth + 1)).toList ⟨bindings, .start k⟩ = some ⟨bindings, .start k⟩ := by
      obtain ⟨_, htakes, -⟩ := hitems
      exact run_of_stays fun c hc => step_start_of_blank htakes.1 (mem_lineBreak hc)
    have hindent : run (List.replicate (4 * depth) ' ') ⟨bindings, .next k'⟩ = some ⟨bindings, .next k'⟩ :=
      run_of_stays fun c hc => step_next_of_blank (Or.inl (List.eq_of_mem_replicate hc))
    rw [toList_block_of_ne_nil (List.cons_ne_nil s rest), toList_lineBreak 4 depth]
    simp only [List.append_assoc, List.cons_append]
    rw [run_append_of_some hfirst, run_append_of_some hbreak, run_intercalate hitems,
      run_append_of_some hindent, hlast]

/-! ## Values -/

theorem reads_none : Reads "None".toList .absent := by
  rintro bindings k c (rfl | rfl) <;> cases k <;> rfl

theorem reads_truth (b : Bool) : Reads (if b then "True" else "False").toList (.truth b) := by
  cases b <;> rintro bindings k c (rfl | rfl) <;> cases k <;> rfl

mutual

/-- A value is read from its literal. -/
theorem reads_literal (rename : Bool) (depth : Nat) :
    ∀ (v : Json) (l : Literal), Literal.ofJson? units rename v = some l → Reads (v.literal rename depth).toList l
  | .null, l, h => by
    obtain rfl := Option.some.inj h
    exact reads_none
  | .bool b, l, h => by
    obtain rfl := Option.some.inj h
    exact reads_truth b
  | .str s, l, h => by
    obtain rfl := Option.some.inj h
    exact reads_of_deliver fun bindings k => run_textLiteral s
  | .arr items, l, h => by
    obtain ⟨ls, hls, rfl⟩ := Option.map_eq_some_iff.1 h
    exact reads_of_deliver fun bindings k =>
      run_block rfl (takesAll_literalItems (depth + 1) items ls hls [] k) run_singleton run_singleton
  | .obj fields, l, h => by
    obtain ⟨ls, hls, rfl⟩ := Option.map_eq_some_iff.1 h
    exact reads_of_deliver fun bindings k =>
      run_block rfl (takesAll_literalFields rename (depth + 1) fields ls hls [] k) run_singleton run_singleton

theorem takesAll_literalItems (depth : Nat) :
    ∀ (items : List Json) (ls : List Literal), Literal.ofItems? units items = some ls → ∀ (acc : List Literal)
      (outer : Context), TakesAll (Json.literalItems depth items) (.item acc outer) (.item (acc ++ ls) outer)
  | [], ls, h, acc, outer => by
    obtain rfl := Option.some.inj h
    rw [List.append_nil]
    rfl
  | v :: vs, ls, h, acc, outer => by
    obtain ⟨l, ls, hl, hls, rfl⟩ := ofItems?_cons_eq_some.1 h
    refine ⟨_, (reads_literal true depth v l hl).takes_item acc outer, ?_⟩
    rw [List.append_cons acc l ls]
    exact takesAll_literalItems depth vs ls hls _ outer

theorem takesAll_literalFields (rename : Bool) (depth : Nat) :
    ∀ (fields : List (String × Json)) (ls : List (List Nat × Literal)),
      Literal.ofFields? units rename fields = some ls → ∀ (acc : List (List Nat × Literal)) (outer : Context),
        TakesAll (Json.literalFields rename depth fields) (.key acc outer) (.key (enterAll acc ls) outer)
  | [], ls, h, acc, outer => by
    obtain rfl := Option.some.inj h
    rfl
  | (key, v) :: fs, ls, h, acc, outer => by
    obtain ⟨l, ls, hl, hls, rfl⟩ := ofFields?_cons_eq_some.1 h
    refine ⟨_, ?_, takesAll_literalFields rename depth fs ls hls _ outer⟩
    rw [String.toList_append]
    exact (reads_literal true depth v l hl).takes_field acc _ outer

end

end Reader

end DataModule

end RegionLogic
