import Mathlib.Data.List.DropRight
import Mathlib.Data.List.Induction
import Mathlib.Data.List.TakeWhile
import StackMachine.Text.Blank

/-!
# Trimming, lines and occurrences

What trimming, cutting into lines and searching do to a text that is put together from parts. A
carriage return is a blank, so a line that loses the one at its end is the same line once it is
trimmed.

## Main results

* `Text.trim_dropReturn`: trimming does not see the carriage return before a line feed.
* `Text.lines_append_lineFeed`: the lines before and behind a line feed do not depend on each other.
* `Text.occurs_iff_infix`: a pattern occurs in a text iff it is an infix of it.
* `Text.cutAt_append_cons`: a pattern is not found across a character that is not in it.
-/

namespace StackMachine.Text

variable {p : Char → Bool} {cs rest pattern : List Char} {c : Char}

/-! ### Trimming -/

/-- Dropping from the back is what the library does from the right. -/
theorem dropBack_eq_rdropWhile (p : Char → Bool) (cs : List Char) :
    dropBack p cs = cs.rdropWhile p :=
  rfl

theorem dropBack_of_forall (h : ∀ c ∈ cs, p c = true) : dropBack p cs = [] := by
  rw [dropBack_eq_rdropWhile, List.rdropWhile_eq_nil_iff]
  exact h

/-- A character that stays keeps everything in front of it. -/
theorem dropBack_append_cons (hc : p c = false) :
    dropBack p (cs ++ c :: rest) = cs ++ c :: dropBack p rest := by
  induction rest using List.reverseRecOn with
  | nil => simp [dropBack, hc]
  | append_singleton rest d ih =>
    have hassoc : cs ++ c :: (rest ++ [d]) = (cs ++ c :: rest) ++ [d] := by simp
    rw [hassoc, dropBack_eq_rdropWhile, dropBack_eq_rdropWhile]
    by_cases hd : p d = true
    · rw [List.rdropWhile_concat_pos p _ d hd, List.rdropWhile_concat_pos p _ d hd]
      exact ih
    · rw [List.rdropWhile_concat_neg p _ d hd, List.rdropWhile_concat_neg p _ d hd, hassoc]

/-- A blank at the end does not matter. -/
theorem trim_concat (hc : isBlank c = true) : trim (cs ++ [c]) = trim cs := by
  simp only [trim, trimFront, List.dropWhile_append, List.isEmpty_iff]
  split
  next hnil => simp [hnil, hc]
  next => exact List.rdropWhile_concat_pos isBlank _ c hc

/-- Trimming does not see the carriage return before a line feed. -/
theorem trim_dropReturn (cs : List Char) : trim (dropReturn cs) = trim cs := by
  unfold dropReturn
  split
  next rest hreverse =>
    have hcs : cs = rest.reverse ++ ['\r'] := by
      rw [← List.reverse_reverse cs, hreverse, List.reverse_cons]
    rw [hcs, trim_concat (by decide)]
  next => rfl

/-- A trimmed text is a part of the text. -/
theorem trim_infix (cs : List Char) : trim cs <:+: cs :=
  (List.rdropWhile_prefix isBlank (trimFront cs)).isInfix.trans
    (List.dropWhile_suffix isBlank).isInfix

/-- There is nothing to trim without blanks. -/
theorem trim_of_forall (h : ∀ c ∈ cs, isBlank c = false) : trim cs = cs := by
  have hfront : trimFront cs = cs :=
    List.dropWhile_eq_self_iff.mpr fun hlength => by simp [h cs[0] (List.getElem_mem hlength)]
  rw [trim, hfront, dropBack_eq_rdropWhile, List.rdropWhile_eq_self_iff]
  intro hne
  simp [h _ (List.getLast_mem hne)]

/-! ### Lines -/

/-- A text has at least one part. -/
theorem splitAll_ne_nil (p : Char → Bool) (cs : List Char) : splitAll p cs ≠ [] := by
  cases cs with
  | nil => simp [splitAll]
  | cons c cs =>
    rw [splitAll]
    split
    · exact List.cons_ne_nil _ _
    · split <;> exact List.cons_ne_nil _ _

theorem splitAll_of_forall (h : ∀ c ∈ cs, p c = false) : splitAll p cs = [cs] := by
  induction cs with
  | nil => rfl
  | cons c cs ih =>
    rw [List.forall_mem_cons] at h
    simp [splitAll, h.1, ih h.2]

/-- A cut separates the pieces in front of it from those behind it. -/
theorem splitAll_append_cons (hc : p c = true) (cs rest : List Char) :
    splitAll p (cs ++ c :: rest) = splitAll p cs ++ splitAll p rest := by
  induction cs with
  | nil => simp [splitAll, hc]
  | cons d cs ih =>
    rw [List.cons_append, splitAll, splitAll, ih]
    by_cases hd : p d = true
    · rw [if_pos hd, if_pos hd, List.cons_append]
    · -- The first piece in front of the cut gets the character.
      obtain ⟨piece, pieces, hpieces⟩ := List.exists_cons_of_ne_nil (splitAll_ne_nil p cs)
      rw [if_neg hd, if_neg hd, hpieces]
      rfl

/-- There is one piece more than cuts. -/
theorem length_splitAll (p : Char → Bool) (cs : List Char) :
    (splitAll p cs).length = cs.countP p + 1 := by
  induction cs with
  | nil => rfl
  | cons c cs ih =>
    obtain ⟨piece, pieces, hpieces⟩ := List.exists_cons_of_ne_nil (splitAll_ne_nil p cs)
    rw [hpieces] at ih
    by_cases hc : p c = true
    · rw [splitAll, if_pos hc, hpieces, List.length_cons, ih, List.countP_cons_of_pos hc]
    · rw [splitAll, if_neg hc, hpieces, List.countP_cons_of_neg hc, ← ih]
      rfl

theorem beq_lineFeed_of_not_mem (h : '\n' ∉ cs) : ∀ c ∈ cs, (c == '\n') = false := by
  intro c hc
  rw [beq_eq_false_iff_ne]
  rintro rfl
  exact h hc

/-- The lines of a text from its pieces between line feeds. -/
theorem lines_of_splitAll {pieces : List (List Char)} {last : List Char}
    (h : splitAll (· == '\n') cs = pieces ++ [last]) :
    lines cs = pieces.map dropReturn ++ if last.isEmpty then [] else [last] := by
  simp [lines, h]

/-- A text without a line feed is its only line, unless it is empty. -/
theorem lines_of_not_mem (h : '\n' ∉ cs) (hne : cs ≠ []) : lines cs = [cs] := by
  simp [lines, splitAll_of_forall (beq_lineFeed_of_not_mem h), hne]

/-- The lines before and behind a line feed do not depend on each other. -/
theorem lines_append_lineFeed (h : '\n' ∉ cs) :
    lines (cs ++ '\n' :: rest) = dropReturn cs :: lines rest := by
  have hsplit : splitAll (· == '\n') (cs ++ '\n' :: rest) = cs :: splitAll (· == '\n') rest := by
    rw [splitAll_append_cons rfl, splitAll_of_forall (beq_lineFeed_of_not_mem h),
      List.singleton_append]
  -- The last piece is that of `rest`, which has one piece at least.
  obtain hnil | ⟨pieces, last, hrest⟩ := List.eq_nil_or_concat' (splitAll (· == '\n') rest)
  · exact absurd hnil (splitAll_ne_nil _ rest)
  · rw [hrest, ← List.cons_append] at hsplit
    rw [lines_of_splitAll hsplit, lines_of_splitAll hrest, List.map_cons, List.cons_append]

/-! ### Occurrences -/

/-- A pattern occurs in a text iff it is an infix of it. -/
theorem occurs_iff_infix : occurs pattern cs = true ↔ pattern <:+: cs := by
  unfold occurs
  induction cs with
  | nil => simp [cutAt]
  | cons c cs ih =>
    rw [List.infix_cons_iff, ← ih, ← List.isPrefixOf_iff_prefix, cutAt]
    by_cases hpre : pattern.isPrefixOf (c :: cs) = true <;> simp [hpre]

/-- A text can be cut at a pattern exactly if the pattern occurs in it. -/
theorem cutAt_eq_none_iff : cutAt pattern cs = none ↔ ¬ pattern <:+: cs := by
  rw [← occurs_iff_infix, occurs, Bool.not_eq_true, Option.isSome_eq_false_iff,
    Option.isNone_iff_eq_none]

/-- At the beginning there is nothing before the pattern. -/
theorem cutAt_append_self (hne : pattern ≠ []) (rest : List Char) :
    cutAt pattern (pattern ++ rest) = some ([], rest) := by
  obtain ⟨c, cs, rfl⟩ := List.exists_cons_of_ne_nil hne
  have hpre : (c :: cs).isPrefixOf (c :: (cs ++ rest)) = true :=
    List.isPrefixOf_iff_prefix.mpr (List.prefix_append (c :: cs) rest)
  rw [List.cons_append, cutAt, if_pos hpre, ← List.cons_append, List.drop_left]

/-- A pattern is not found across a character that is not in it. -/
theorem cutAt_append_cons (hfront : ¬ pattern <:+: cs) (hc : c ∉ pattern) (rest : List Char) :
    cutAt pattern (cs ++ c :: rest) =
      (cutAt pattern rest).map fun cut => (cs ++ c :: cut.1, cut.2) := by
  induction cs with
  | nil =>
    have hpre : ¬ pattern.isPrefixOf (c :: rest) = true := by
      rw [List.isPrefixOf_iff_prefix]
      intro hpre
      rcases List.prefix_cons_iff.mp hpre with rfl | ⟨pattern, rfl, -⟩
      · exact hfront List.nil_infix
      · exact hc List.mem_cons_self
    rw [List.nil_append, cutAt, if_neg hpre]
    rfl
  | cons d cs ih =>
    -- A pattern that begins at `d` would end before `c`, or contain it.
    have hpre : ¬ pattern.isPrefixOf (d :: (cs ++ c :: rest)) = true := by
      rw [List.isPrefixOf_iff_prefix, ← List.cons_append]
      intro hpre
      rcases List.prefix_or_prefix_of_prefix hpre
        (List.prefix_append (d :: cs) (c :: rest)) with hshort | ⟨more, rfl⟩
      · exact hfront hshort.isInfix
      · rcases List.prefix_cons_iff.mp (List.prefix_append_right_inj _ |>.mp hpre) with
          rfl | ⟨more, rfl, -⟩
        · exact hfront (by simp)
        · exact hc (by simp)
    rw [List.cons_append, cutAt, if_neg hpre,
      ih fun hcs => hfront (hcs.trans (List.infix_cons List.infix_rfl))]
    simp [Function.comp_def]

end StackMachine.Text
