import Mathlib.Data.List.Basic
import RegionLogic.World.Drawing

/-!
# Quoted texts

In a drawing every text stands between quotes, in which a backslash, a quote and a line break are escaped.
Backslashes have to be escaped first, since the other escapes bring backslashes in. Then the quote at the end
is the first one that is not escaped, and the text can be had again.

## Main definitions

* `Drawing.escaped`: a text with its backslashes, then its quotes and then its line breaks replaced
* `Drawing.unescape`: the text of an escaped text
* `Drawing.Encloses`: texts that can stand between quotes

## Main results

* `Drawing.toList_quote`: a quoted text is the escaped text between quotes
* `Drawing.unescape_escaped`, `Drawing.quote_injective`: no text is lost
* `Drawing.encloses_escaped`: only the quote at the end ends the text
-/

namespace RegionLogic.Drawing

variable {c : Char} {cs : List Char}

/-- The text with `replacement` in the place of each `c`. -/
def replaceChar (c : Char) (replacement cs : List Char) : List Char :=
  cs.flatMap fun d => if d = c then replacement else [d]

/-- The text in which backslashes, then quotes and then line breaks are replaced by their escapes. -/
def escaped (cs : List Char) : List Char :=
  replaceChar '\n' ['\\', 'n'] (replaceChar '"' ['\\', '"'] (replaceChar '\\' ['\\', '\\'] cs))

/-- The text with the three escapes undone. -/
def unescape : List Char → List Char
  | '\\' :: '\\' :: cs => '\\' :: unescape cs
  | '\\' :: '"' :: cs => '"' :: unescape cs
  | '\\' :: 'n' :: cs => '\n' :: unescape cs
  | c :: cs => c :: unescape cs
  | [] => []

/-- Whether a text escapes the character that follows it: a backslash at its end does, unless that one is
escaped itself. -/
def escapesNext (cs : List Char) : Bool := cs.foldl (fun escapes c => !escapes && c = '\\') false

/-- A text can stand between quotes: it has no line break, each quote in it is escaped, and the quote that
follows it is not. -/
structure Encloses (cs : List Char) : Prop where
  noBreak : '\n' ∉ cs
  quoteEscaped : ∀ before after, cs = before ++ '"' :: after → escapesNext before = true
  closes : escapesNext cs = false

/-! ## One character after the other -/

/-- A character inside quotes is a backslash with another character after it, or it stays as it is. -/
theorem quotedChar_cases (c : Char) :
    (∃ e, quotedChar c = ['\\', e] ∧ e ≠ '\n') ∨ (quotedChar c = [c] ∧ c ≠ '\\' ∧ c ≠ '"' ∧ c ≠ '\n') := by
  unfold quotedChar
  split
  · exact Or.inl ⟨'\\', rfl, by decide⟩
  split
  · exact Or.inl ⟨'"', rfl, by decide⟩
  split
  · exact Or.inl ⟨'n', rfl, by decide⟩
  · next hslash hquote hbreak => exact Or.inr ⟨rfl, hslash, hquote, hbreak⟩

/-- The three replacements one after the other are the escapes of the single characters. -/
theorem escaped_eq_flatMap (cs : List Char) : escaped cs = cs.flatMap quotedChar := by
  unfold escaped replaceChar
  rw [List.flatMap_assoc, List.flatMap_assoc]
  refine congrArg (List.flatMap · cs) (funext fun c => ?_)
  unfold quotedChar
  by_cases hslash : c = '\\'
  · subst hslash
    rfl
  by_cases hquote : c = '"'
  · subst hquote
    rfl
  · by_cases hbreak : c = '\n' <;> simp [hslash, hquote, hbreak]

theorem escaped_cons (c : Char) (cs : List Char) : escaped (c :: cs) = quotedChar c ++ escaped cs := by
  rw [escaped_eq_flatMap, escaped_eq_flatMap, List.flatMap_cons]

theorem toList_quote (s : String) : (quote s).toList = '"' :: (escaped s.toList ++ ['"']) := by
  rw [quote, String.toList_ofList, escaped_eq_flatMap]
  rfl

/-! ## The text is not lost -/

theorem unescape_cons (h : c ≠ '\\') (cs : List Char) : unescape (c :: cs) = c :: unescape cs := by
  rw [unescape]
  all_goals simp [h]

theorem unescape_quotedChar (c : Char) (cs : List Char) : unescape (quotedChar c ++ cs) = c :: unescape cs := by
  by_cases hslash : c = '\\'
  · subst hslash
    rfl
  by_cases hquote : c = '"'
  · subst hquote
    rfl
  by_cases hbreak : c = '\n'
  · subst hbreak
    rfl
  · have hplain : quotedChar c = [c] := by simp [quotedChar, hslash, hquote, hbreak]
    rw [hplain, List.singleton_append, unescape_cons hslash]

theorem unescape_escaped (cs : List Char) : unescape (escaped cs) = cs := by
  induction cs with
  | nil => rfl
  | cons c cs ih => rw [escaped_cons, unescape_quotedChar, ih]

/-- Different texts have different quoted forms. -/
theorem quote_injective : Function.Injective quote := by
  intro s s' h
  have hlists := congrArg String.toList h
  rw [toList_quote, toList_quote, List.cons_inj_right, List.append_left_inj] at hlists
  have htexts := congrArg unescape hlists
  rw [unescape_escaped, unescape_escaped] at htexts
  exact String.toList_inj.1 htexts

/-! ## The end of a quoted text -/

theorem escapesNext_escape (e : Char) (cs : List Char) : escapesNext ('\\' :: e :: cs) = escapesNext cs := by
  simp [escapesNext]

theorem escapesNext_cons (h : c ≠ '\\') (cs : List Char) : escapesNext (c :: cs) = escapesNext cs := by
  simp [escapesNext, h]

theorem Encloses.escape {e : Char} (h : Encloses cs) (he : e ≠ '\n') : Encloses ('\\' :: e :: cs) where
  noBreak := by simp [he.symm, h.noBreak]
  quoteEscaped before after heq := by
    match before with
    | [] => cases (List.cons.inj heq).1
    | [b] =>
      obtain ⟨rfl, -⟩ := List.cons.inj heq
      rfl
    | b :: e' :: before =>
      obtain ⟨rfl, htail⟩ := List.cons.inj heq
      obtain ⟨rfl, hrest⟩ := List.cons.inj htail
      rw [escapesNext_escape]
      exact h.quoteEscaped before after hrest
  closes := (escapesNext_escape e cs).trans h.closes

theorem Encloses.cons (h : Encloses cs) (hslash : c ≠ '\\') (hquote : c ≠ '"') (hbreak : c ≠ '\n') :
    Encloses (c :: cs) where
  noBreak := by simp [hbreak.symm, h.noBreak]
  quoteEscaped before after heq := by
    cases before with
    | nil => exact absurd (List.cons.inj heq).1 hquote
    | cons b before =>
      obtain ⟨rfl, hrest⟩ := List.cons.inj heq
      rw [escapesNext_cons hslash]
      exact h.quoteEscaped before after hrest
  closes := (escapesNext_cons hslash cs).trans h.closes

/-- Nothing in a quoted text ends it. -/
theorem encloses_escaped (cs : List Char) : Encloses (escaped cs) := by
  induction cs with
  | nil => exact ⟨List.not_mem_nil, by simp [escaped, replaceChar], rfl⟩
  | cons c cs ih =>
    rw [escaped_cons]
    rcases quotedChar_cases c with ⟨e, hc, he⟩ | ⟨hc, hslash, hquote, hbreak⟩
    · rw [hc]
      exact ih.escape he
    · rw [hc]
      exact ih.cons hslash hquote hbreak

end RegionLogic.Drawing
