import RegionLogic.Proofs.Term.Application

/-!
# Writing terms with parameters

A head with arguments is written with the arguments in brackets after it, and a head without arguments as it
is. What is written is read again as it was. A text may hold more than is read from it: brackets around
nothing give no argument, and neither do two commas in a row.

## Main definitions

* `Application.IsArgument`: texts that can stand between commas
* `Application.Writable`: what can be written so that it is read again

## Main results

* `Application.splitCommas_eq_splitOn`, `Application.argsOf_intercalate`: arguments between commas
* `Application.inPlace_iff_idxOf`: where the brackets of a text stand
* `Application.writable_of_read`, `Application.Writable.read_write`: whatever is read can be written
* `Application.read_inverts_write`: reading and writing are inverse to each other
-/

namespace RegionLogic.Application

variable {cs piece inner : List Char} {c : Char} {args : List String} {a : Application}

/-! ## Pieces between commas -/

theorem splitCommas_eq_splitOn (cs : List Char) : splitCommas cs = cs.splitOn ',' := by
  induction cs with
  | nil => rfl
  | cons c cs ih =>
    rw [splitCommas, ih, List.splitOn_cons_eq_if_modifyHead]
    obtain ⟨piece, pieces, hpieces⟩ := List.exists_cons_of_ne_nil (List.splitOn_ne_nil ',' cs)
    simp [hpieces]

/-- A piece is made of characters of the text, and none of them is a comma. -/
theorem of_mem_splitCommas (h : piece ∈ splitCommas cs) (hc : c ∈ piece) : c ≠ ',' ∧ c ∈ cs := by
  induction cs generalizing piece with
  | nil =>
    obtain rfl : piece = [] := by simpa [splitCommas] using h
    cases hc
  | cons d cs ih =>
    rw [splitCommas] at h
    split at h
    · rcases List.mem_cons.1 h with rfl | h
      · cases hc
      · exact ⟨(ih h hc).1, List.mem_cons_of_mem d (ih h hc).2⟩
    · next hd =>
      split at h
      · obtain rfl := List.mem_singleton.1 h
        obtain rfl := List.mem_singleton.1 hc
        exact ⟨hd, List.mem_cons_self ..⟩
      · next first pieces hpieces =>
        rw [hpieces] at ih
        -- the character at the beginning goes to the first piece
        rcases List.mem_cons.1 h with rfl | h
        · rcases List.mem_cons.1 hc with rfl | hc
          · exact ⟨hd, List.mem_cons_self ..⟩
          · have hfirst := ih (List.mem_cons_self ..) hc
            exact ⟨hfirst.1, List.mem_cons_of_mem d hfirst.2⟩
        · have hlater := ih (List.mem_cons_of_mem _ h) hc
          exact ⟨hlater.1, List.mem_cons_of_mem d hlater.2⟩

theorem mem_of_mem_intercalate {pieces : List (List Char)} (h : c ∈ [','].intercalate pieces) :
    c = ',' ∨ ∃ piece ∈ pieces, c ∈ piece := by
  induction pieces with
  | nil => simp at h
  | cons first pieces ih =>
    cases pieces with
    | nil =>
      rw [List.intercalate_singleton] at h
      exact Or.inr ⟨first, List.mem_cons_self .., h⟩
    | cons second pieces =>
      rw [List.intercalate_cons_cons, List.append_assoc, List.mem_append, List.mem_append,
        List.mem_singleton] at h
      rcases h with h | h | h
      · exact Or.inr ⟨first, List.mem_cons_self .., h⟩
      · exact Or.inl h
      · refine (ih h).imp_right ?_
        rintro ⟨piece, hpiece, hc⟩
        exact ⟨piece, List.mem_cons_of_mem first hpiece, hc⟩

/-! ## Arguments -/

/-- A text can stand as an argument between commas. -/
structure IsArgument (arg : String) : Prop where
  ne_empty : arg ≠ ""
  noComma : ',' ∉ arg.toList
  noClose : ']' ∉ arg.toList

theorem isArgument_of_mem_argsOf {arg : String} (hinner : ']' ∉ inner) (h : arg ∈ argsOf inner) :
    IsArgument arg := by
  obtain ⟨piece, hpiece, rfl⟩ := List.mem_map.1 h
  obtain ⟨hpiece, hne⟩ := List.mem_filter.1 hpiece
  refine ⟨?_, ?_, ?_⟩
  · rintro hempty
    rw [← String.toList_inj, String.toList_ofList] at hempty
    simp [hempty] at hne
  · rw [String.toList_ofList]
    exact fun hcomma => (of_mem_splitCommas hpiece hcomma).1 rfl
  · rw [String.toList_ofList]
    exact fun hclose => hinner (of_mem_splitCommas hpiece hclose).2

/-- Arguments with commas between them are read as they are. -/
theorem argsOf_intercalate (h : ∀ arg ∈ args, IsArgument arg) :
    argsOf (",".intercalate args).toList = args := by
  by_cases hnone : args = []
  · subst hnone
    rfl
  have hcomma : ∀ piece ∈ args.map String.toList, ',' ∉ piece := by
    simpa using fun arg harg => (h arg harg).noComma
  have hall : ∀ piece ∈ args.map String.toList, (!piece.isEmpty) = true := by
    simpa using fun arg harg => (h arg harg).ne_empty
  have hinverse : String.ofList ∘ String.toList = id := funext fun _ => String.ofList_toList
  rw [String.toList_intercalate, argsOf, splitCommas_eq_splitOn]
  show List.map String.ofList (List.filter _ (List.splitOn ',' ([','].intercalate _))) = args
  rw [List.splitOn_intercalate ',' hcomma (by simpa using hnone), List.filter_eq_self.2 hall,
    List.map_map, hinverse, List.map_id]

theorem not_close_mem_intercalate (h : ∀ arg ∈ args, IsArgument arg) :
    ']' ∉ (",".intercalate args).toList := by
  intro hclose
  rw [String.toList_intercalate] at hclose
  rcases mem_of_mem_intercalate hclose with hclose | ⟨piece, hpiece, hclose⟩
  · exact absurd hclose (by decide)
  · obtain ⟨arg, harg, rfl⟩ := List.mem_map.1 hpiece
    exact (h arg harg).noClose hclose

/-! ## Heads with arguments -/

/-- A head without brackets and arguments that can stand between commas. Only a head without arguments may be
empty. -/
structure Writable (a : Application) : Prop where
  noOpen : '[' ∉ a.head.toList
  noClose : ']' ∉ a.head.toList
  head_ne_empty : a.args ≠ [] → a.head ≠ ""
  args : ∀ arg ∈ a.args, IsArgument arg

/-- A head with its arguments in brackets, of which there may be none. -/
theorem read_brackets {head : String} (hne : head ≠ "") (hopen : '[' ∉ head.toList)
    (hclose : ']' ∉ head.toList) (hargs : ∀ arg ∈ args, IsArgument arg) :
    read (head ++ "[" ++ ",".intercalate args ++ "]") = .ok ⟨head, args⟩ := by
  have hchars : (head ++ "[" ++ ",".intercalate args ++ "]").toList =
      head.toList ++ '[' :: ((",".intercalate args).toList ++ ']' :: []) := by simp
  have hplaced : ([] : List Char) = [] ∧ head.toList ≠ [] ∧ ']' ∉ head.toList :=
    ⟨rfl, by simpa using hne, hclose⟩
  rw [read, hchars, readChars_applied hopen (not_close_mem_intercalate hargs), if_pos hplaced,
    argsOf_intercalate hargs, String.ofList_toList]

theorem Writable.read_write (h : a.Writable) : read a.write = .ok a := by
  obtain ⟨head, args⟩ := a
  by_cases hnone : args = []
  · subst hnone
    have hread : read head = .ok ⟨.ofList head.toList, []⟩ :=
      readChars_eq_ok_iff.2 (.bare h.noOpen h.noClose)
    rwa [String.ofList_toList] at hread
  · rw [write, if_neg (by simpa using hnone)]
    exact read_brackets (h.head_ne_empty hnone) h.noOpen h.noClose h.args

/-- Whatever is read can be written. -/
theorem writable_of_read {term : String} (h : read term = .ok a) : a.Writable := by
  have hspells : Spells term.toList a := readChars_eq_ok_iff.1 h
  generalize term.toList = cs at hspells
  cases hspells with
  | bare hopen hclose => exact ⟨by simpa using hopen, by simpa using hclose, by simp, by simp⟩
  | applied hne hopen hclose hinner =>
    exact ⟨by simpa using hopen, by simpa using hclose, fun _ => by simpa using hne,
      fun arg harg => isArgument_of_mem_argsOf hinner harg⟩

/-! ## Where brackets stand -/

/-- Brackets stand around parameters if there are none, or if the first opening bracket is not the first
character, and the first closing bracket comes after it and is the last character. -/
theorem inPlace_iff_idxOf :
    InPlace cs ↔ ('[' ∉ cs ∧ ']' ∉ cs) ∨
      0 < cs.idxOf '[' ∧ cs.idxOf '[' < cs.idxOf ']' ∧ cs.idxOf ']' + 1 = cs.length := by
  refine or_congr_right ⟨?_, ?_⟩
  · rintro ⟨head, inner, hne, hopen, hclose, hinner, rfl⟩
    have hpos := List.length_pos_iff.2 hne
    rw [List.idxOf_append_of_notMem hopen, List.idxOf_append_of_notMem hclose, List.idxOf_cons_self,
      List.idxOf_cons_ne _ (by decide), List.idxOf_append_of_notMem hinner, List.idxOf_cons_self]
    simp
    omega
  · rintro ⟨hpos, hlt, hlast⟩
    have hopen : '[' ∈ cs := List.idxOf_lt_length_iff.1 (by omega)
    have hclose : ']' ∈ cs := List.idxOf_lt_length_iff.1 (by omega)
    obtain ⟨head, rest, hhead, hnotopen⟩ := List.eq_append_cons_of_mem hopen
    obtain ⟨before, after, hbefore, hnotclose⟩ := List.eq_append_cons_of_mem hclose
    have hopens : cs.idxOf '[' = head.length := by
      rw [hhead, List.idxOf_append_of_notMem hnotopen, List.idxOf_cons_self, Nat.add_zero]
    have hcloses : cs.idxOf ']' = before.length := by
      rw [hbefore, List.idxOf_append_of_notMem hnotclose, List.idxOf_cons_self, Nat.add_zero]
    have hlength : cs.length = before.length + 1 + after.length := by
      rw [hbefore, List.length_append, List.length_cons]
      omega
    have hafter : after = [] := List.eq_nil_of_length_eq_zero (by omega)
    subst hafter
    -- the head and the opening bracket stand before the last character
    have hprefix : head ++ ['['] <+: before := by
      refine List.prefix_of_prefix_length_le ⟨rest, ?_⟩ ⟨[']'], hbefore.symm⟩ ?_
      · rw [List.append_assoc, List.singleton_append, hhead]
      · rw [List.length_append, List.length_singleton]
        omega
    obtain ⟨inner, hinner⟩ := hprefix
    rw [← hinner, List.mem_append, List.mem_append, not_or, not_or] at hnotclose
    refine ⟨head, inner, List.ne_nil_of_length_pos (by omega), hnotopen, hnotclose.1.1, hnotclose.2, ?_⟩
    rw [hbefore, ← hinner]
    simp

/-! ## Reading and writing -/

/-- Reading and writing are inverse to each other. A head without brackets is read with the arguments that
stand in brackets after it, also if there are none. A text is read if and only if it has no brackets, or its
first opening bracket is not at the beginning, and its first closing bracket comes after that one and is the
last character; what is read from it is read again from what is written. All other texts are malformed. -/
theorem read_inverts_write :
    (∀ (head : String) (args : List String), head ≠ "" → '[' ∉ head.toList → ']' ∉ head.toList →
      (∀ arg ∈ args, IsArgument arg) →
      read (head ++ "[" ++ ",".intercalate args ++ "]") = .ok ⟨head, args⟩) ∧
    ∀ term : String,
      ((∃ a, read term = .ok a) ↔ ('[' ∉ term.toList ∧ ']' ∉ term.toList) ∨
        0 < term.toList.idxOf '[' ∧ term.toList.idxOf '[' < term.toList.idxOf ']' ∧
          term.toList.idxOf ']' + 1 = term.toList.length) ∧
      (∀ a, read term = .ok a → read a.write = .ok a) ∧
      ∀ fault, read term = .error fault → fault = .term (.misplacedBrackets (Text.quoted term)) := by
  refine ⟨fun head args => read_brackets, fun term => ⟨?_, fun a h => ?_, fun fault h => ?_⟩⟩
  · rw [exists_read_eq_ok_iff, inPlace_iff_idxOf]
  · exact (writable_of_read h).read_write
  · rw [eq_misplaced_of_readChars h, Token.shown, String.ofList_toList]

/-- An opening bracket in the parameters opens nothing, and what is empty between commas is left out. -/
theorem read_inverts_write_casts :
    read ("$CAST" ++ "[" ++ ",".intercalate ["1", "before:ROOM"] ++ "]") = .ok ⟨"$CAST", ["1", "before:ROOM"]⟩ ∧
      read "$CAST[,1,,A[B,]" = .ok ⟨"$CAST", ["1", "A[B"]⟩ ∧
      read (Application.write ⟨"$CAST", ["1", "A[B"]⟩) = .ok ⟨"$CAST", ["1", "A[B"]⟩ ∧
      ¬∃ a, read "$CAST]1[" = .ok a := by
  have hargs : ∀ arg ∈ ["1", "before:ROOM"], IsArgument arg := by
    intro arg harg
    rcases List.mem_pair.1 harg with rfl | rfl
    · exact ⟨by decide, by decide, by decide⟩
    · exact ⟨by decide, by decide, by decide⟩
  have hread : read "$CAST[,1,,A[B,]" = .ok ⟨"$CAST", ["1", "A[B"]⟩ := by decide +kernel
  refine ⟨read_inverts_write.1 _ _ (by decide) (by decide) (by decide) hargs, hread,
    (read_inverts_write.2 _).2.1 _ hread, fun h => ?_⟩
  exact absurd ((read_inverts_write.2 _).1.1 h) (by decide)

end RegionLogic.Application
