import Mathlib.Data.List.DropRight
import StackMachine.Debug.Condition
import StackMachine.Proofs.Text.Blank

/-!
# What conditions of breakpoints mean

A condition compares a variable with a literal. The comparisons are looked for one after the other
in the whole text, the literal included. So a condition means what it says as long as no comparison
occurs in its literal that is looked for before its own. Otherwise it is cut inside the literal, and
what is then to the left is taken for the name of a variable.

## Main definitions

* `Condition.written`: the text of a condition.
* `Condition.compares`: whether a value compares to another, where a failure counts as true.
* `Condition.before`: the comparisons that are looked for before a given one.
* `Condition.misleading?`: the first of these that occurs in a literal.

## Main results

* `Condition.trim_written`: a condition once it is trimmed.
* `Condition.split?_written`: where a condition is cut.
* `Condition.holds_written`: when a condition holds.
-/

namespace StackMachine.Condition

/-- The text of a condition: a name, a comparison and a literal with blanks between them. -/
def written (name comparison literal : List Char) : List Char :=
  name ++ ' ' :: (comparison ++ ' ' :: literal)

/-- Whether a value compares to another; what cannot be compared counts as true. -/
def compares (value other : Value) (comparison : String) : Bool :=
  match value.binary other comparison 0 with
  | .ok result => result.isTruthy
  | .error _ => true

/-- The comparisons that are looked for before a given one. -/
def before (comparison : String) : List String := comparisons.takeWhile (· ≠ comparison)

/-- The comparison in a literal that is found before the one of the condition, if there is one. -/
def misleading? (comparison : String) (literal : List Char) : Option String :=
  (before comparison).find? fun other => Text.occurs other.toList literal

/-- The characters that comparisons are made of. -/
def signs : List Char := ['=', '!', '<', '>']

/-- What follows the comparison once the condition is trimmed. -/
def behind (literal : List Char) : List Char :=
  if literal.isEmpty then [] else ' ' :: literal

variable {name op literal left right : List Char} {comparison other : String}

/-! ### Comparisons -/

/-- The comparisons that are tried first are those before a comparison in the list. -/
theorem comparisons_eq (h : comparison ∈ comparisons) :
    ∃ after, comparisons = before comparison ++ comparison :: after := by
  refine ⟨comparisons.drop ((before comparison).length + 1), ?_⟩
  revert comparison
  decide

theorem mem_comparisons_of_mem_before (h : other ∈ before comparison) : other ∈ comparisons :=
  (List.takeWhile_prefix _).subset h

/-- A comparison is one or two signs. -/
theorem toList_comparison (h : comparison ∈ comparisons) :
    comparison.toList ≠ [] ∧ comparison.toList ⊆ signs := by
  revert comparison
  decide

/-- What is looked for before a comparison does not occur in it. -/
theorem not_infix_of_mem_before (h : comparison ∈ comparisons)
    (hother : other ∈ before comparison) :
    ¬ other.toList <:+: comparison.toList := by
  rw [← Text.cutAt_eq_none_iff]
  revert other
  revert comparison
  decide

/-- A comparison does not occur in a text without signs. -/
theorem not_infix_of_forall (h : comparison ∈ comparisons) (hname : ∀ c ∈ name, c ∉ signs) :
    ¬ comparison.toList <:+: name := by
  intro hoccurs
  obtain ⟨hne, hsigns⟩ := toList_comparison h
  obtain ⟨c, cs, hcs⟩ := List.exists_cons_of_ne_nil hne
  have hmem : c ∈ comparison.toList := hcs ▸ List.mem_cons_self
  exact hname c (hoccurs.subset hmem) (hsigns hmem)

theorem isBlank_of_mem_signs {c : Char} (h : c ∈ signs) : Text.isBlank c = false := by
  simp only [signs, List.mem_cons, List.not_mem_nil, or_false] at h
  rcases h with rfl | rfl | rfl | rfl <;> decide

/-- No comparison holds a blank. -/
theorem blank_not_mem_comparison (h : comparison ∈ comparisons) : ' ' ∉ comparison.toList := by
  intro hmem
  have hblank := isBlank_of_mem_signs ((toList_comparison h).2 hmem)
  exact absurd hblank (by decide)

/-! ### Trimming -/

/-- A text that trimming leaves as it is does not begin with a blank. -/
theorem isBlank_of_trim_cons {c : Char} {cs : List Char} (h : Text.trim (c :: cs) = c :: cs) :
    Text.isBlank c = false := by
  by_contra hblank
  have hfront : Text.trimFront (c :: cs) = Text.trimFront cs :=
    List.dropWhile_cons_of_pos (by simpa using hblank)
  have hshort : (Text.trim (c :: cs)).length ≤ cs.length := by
    rw [Text.trim, hfront]
    exact (List.rdropWhile_prefix _ _).length_le.trans (List.dropWhile_suffix _).length_le
  rw [h, List.length_cons] at hshort
  omega

/-- Of a blank and a trimmed literal, only a blank without a literal is dropped. -/
theorem dropBack_cons_literal (h : Text.trim literal = literal) :
    Text.dropBack Text.isBlank (' ' :: literal) = behind literal := by
  cases literal with
  | nil => exact Text.dropBack_of_forall (by simp; decide)
  | cons c cs =>
    have hc := isBlank_of_trim_cons h
    -- Trimming takes nothing from the back of the literal either.
    have hback : Text.dropBack Text.isBlank cs = cs := by
      rw [Text.trim, Text.trimFront, List.dropWhile_cons_of_neg (by simp [hc])] at h
      have hcons : Text.dropBack Text.isBlank ([] ++ c :: cs) = [] ++ c :: cs := h
      rw [Text.dropBack_append_cons hc] at hcons
      simpa using hcons
    have hlast : Text.dropBack Text.isBlank ([' '] ++ c :: cs) = [' '] ++ c :: cs := by
      rw [Text.dropBack_append_cons hc, hback]
    exact hlast

theorem trim_behind (h : Text.trim literal = literal) : Text.trim (behind literal) = literal := by
  cases literal with
  | nil => rfl
  | cons c cs =>
    have hfront : Text.trimFront (' ' :: c :: cs) = Text.trimFront (c :: cs) :=
      List.dropWhile_cons_of_pos (by decide)
    rw [behind, List.isEmpty_cons, if_neg (by simp), Text.trim, hfront]
    exact h

/-- A name followed by a blank, as it stands to the left of a comparison. -/
theorem trim_name_blank (hname : ∀ c ∈ name, Text.isBlank c = false) :
    Text.trim (name ++ [' ']) = name := by
  rw [Text.trim_concat (by decide)]
  exact Text.trim_of_forall hname

/-- Trimming only takes the blank behind a comparison that no literal follows. -/
theorem trim_written (hne : name ≠ []) (hname : ∀ c ∈ name, Text.isBlank c = false)
    (hop : op ≠ []) (hsigns : op ⊆ signs) (hliteral : Text.trim literal = literal) :
    Text.trim (written name op literal) = name ++ ' ' :: (op ++ behind literal) := by
  obtain ⟨c, cs, rfl⟩ := List.exists_cons_of_ne_nil hne
  obtain ⟨init, sign, rfl⟩ := (List.eq_nil_or_concat' op).resolve_left hop
  have hc : Text.isBlank c = false := hname c List.mem_cons_self
  have hsign : Text.isBlank sign = false := isBlank_of_mem_signs (hsigns (by simp))
  -- The name begins without a blank, and the last sign keeps everything in front of it.
  have hfront : Text.trimFront (written (c :: cs) (init ++ [sign]) literal) =
      (c :: cs ++ ' ' :: init) ++ sign :: (' ' :: literal) := by
    rw [Text.trimFront, written, List.cons_append, List.dropWhile_cons_of_neg (by simp [hc])]
    simp
  rw [Text.trim, hfront, Text.dropBack_append_cons hsign, dropBack_cons_literal hliteral]
  simp

/-! ### Cutting -/

/-- A text is cut at the first comparison in order that occurs in it. -/
theorem split?_eq_some {cs : List Char} {earlier later : List String}
    (hcomparisons : comparisons = earlier ++ comparison :: later)
    (hfirst : ∀ other ∈ earlier, Text.cutAt other.toList cs = none)
    (hcut : Text.cutAt comparison.toList cs = some (left, right)) :
    split? cs = some (left, comparison, right) := by
  rw [split?, List.findSome?_eq_some_iff]
  refine ⟨earlier, comparison, later, hcomparisons, ?_, ?_⟩
  · rw [hcut]
    rfl
  · intro other hother
    rw [hfirst other hother]
    rfl

/-- A comparison that is looked for before that of the condition is only found in the literal. -/
theorem cutAt_written (hsigns : ∀ c ∈ name, c ∉ signs) (hcomparison : comparison ∈ comparisons)
    (hother : other ∈ before comparison) (literal : List Char) :
    Text.cutAt other.toList (name ++ ' ' :: (comparison.toList ++ behind literal)) =
      (Text.cutAt other.toList literal).map fun cut =>
        (written name comparison.toList cut.1, cut.2) := by
  have hmem : other ∈ comparisons := mem_comparisons_of_mem_before hother
  have hblank : ' ' ∉ other.toList := blank_not_mem_comparison hmem
  have hwithin : ¬ other.toList <:+: comparison.toList :=
    not_infix_of_mem_before hcomparison hother
  rw [Text.cutAt_append_cons (not_infix_of_forall hmem hsigns) hblank]
  cases literal with
  | nil =>
    -- Without a literal there is nothing behind the comparison to be found.
    have hnil : ¬ other.toList <:+: [] := by
      rw [List.infix_nil]
      exact (toList_comparison hmem).1
    rw [behind, List.isEmpty_nil, if_pos rfl, List.append_nil,
      Text.cutAt_eq_none_iff.mpr hwithin, Text.cutAt_eq_none_iff.mpr hnil]
    rfl
  | cons c cs =>
    rw [behind, List.isEmpty_cons, if_neg (by simp), Text.cutAt_append_cons hwithin hblank]
    simp [written, Function.comp_def]

/-- A condition is cut at its own comparison, unless another one in the literal is found first. -/
theorem split?_written (hsigns : ∀ c ∈ name, c ∉ signs) (h : comparison ∈ comparisons)
    (hclear : misleading? comparison literal = none) :
    split? (name ++ ' ' :: (comparison.toList ++ behind literal)) =
      some (name ++ [' '], comparison, behind literal) := by
  obtain ⟨later, hcomparisons⟩ := comparisons_eq h
  refine split?_eq_some hcomparisons (fun other hother => ?_) ?_
  · have hoccurs : ¬ other.toList <:+: literal := by
      rw [← Text.occurs_iff_infix]
      exact List.find?_eq_none.mp hclear other hother
    rw [cutAt_written hsigns h hother, Text.cutAt_eq_none_iff.mpr hoccurs]
    rfl
  · rw [Text.cutAt_append_cons (not_infix_of_forall h hsigns) (blank_not_mem_comparison h),
      Text.cutAt_append_self (toList_comparison h).1]
    rfl

/-- Otherwise it is cut inside the literal. -/
theorem split?_written_inside (hsigns : ∀ c ∈ name, c ∉ signs) (h : comparison ∈ comparisons)
    (hother : misleading? comparison literal = some other) :
    ∃ left right, Text.cutAt other.toList literal = some (left, right) ∧
      split? (name ++ ' ' :: (comparison.toList ++ behind literal)) =
        some (written name comparison.toList left, other, right) := by
  obtain ⟨later, hcomparisons⟩ := comparisons_eq h
  obtain ⟨hoccurs, earlier, between, hbefore, hnone⟩ := List.find?_eq_some_iff_append.mp hother
  have hearlier : earlier ⊆ before comparison := by
    rw [hbefore]
    exact List.subset_append_left _ _
  have hmem : other ∈ before comparison := List.mem_of_find?_eq_some hother
  obtain ⟨⟨left, right⟩, hcut⟩ := Option.isSome_iff_exists.mp hoccurs
  -- The comparisons in front of this one are those that do not occur in the literal.
  have hsplit : comparisons = earlier ++ other :: (between ++ comparison :: later) := by
    rw [hcomparisons, hbefore]
    simp
  refine ⟨left, right, hcut, split?_eq_some hsplit (fun first hfirst => ?_) ?_⟩
  · have hclear : Text.cutAt first.toList literal = none := by
      simpa [Text.occurs] using hnone first hfirst
    rw [cutAt_written hsigns h (hearlier hfirst), hclear]
    rfl
  · rw [cutAt_written hsigns h hmem, hcut]
    rfl

/-! ### Meaning -/

/-- What a condition says that is cut into a name, a comparison and a literal. A variable that is
not there counts as true. -/
theorem holds_of_split? {condition : String} {bindings : Variables}
    (h : split? (Text.trim condition.toList) = some (left, comparison, right)) :
    holds condition bindings =
      (Entries.find? (String.ofList (Text.trim left)) bindings).all fun value =>
        compares value (Condition.literal (Text.trim right)) comparison := by
  rw [holds]
  simp only [h]
  cases Entries.find? (String.ofList (Text.trim left)) bindings <;> rfl

/-- When a condition holds that compares a variable with a literal. The name has neither blanks nor
signs of comparisons, and the literal has no blanks at its ends but may have signs in it. If no
comparison occurs in the literal that is looked for before the one written, the condition holds iff
the value of the variable compares to that of the literal. Otherwise the first of these that occurs
decides: the condition is cut there, and compares the variable whose name is all that stands to the
left, or is true if there is no such variable. -/
theorem holds_written {name comparison literal : String} {value : Value} {bindings : Variables}
    (hne : name ≠ "")
    (hname : ∀ c ∈ name.toList, Text.isBlank c = false ∧ c ∉ signs)
    (hcomparison : comparison ∈ comparisons)
    (hliteral : Text.trim literal.toList = literal.toList)
    (hvalue : Entries.find? name bindings = some value) :
    let condition := name ++ " " ++ comparison ++ " " ++ literal
    let denoted := (Value.readLiteral? literal).getD
      (.str (String.ofList (Text.trimChar '"' literal.toList)))
    (misleading? comparison literal.toList = none →
      holds condition bindings = compares value denoted comparison) ∧
    ∀ other, misleading? comparison literal.toList = some other →
      ∃ left right, Text.cutAt other.toList literal.toList = some (left, right) ∧
        holds condition bindings =
          (Entries.find? (String.ofList (Text.trim
            (written name.toList comparison.toList left))) bindings).all fun another =>
              compares another (Condition.literal (Text.trim right)) other := by
  intro condition denoted
  have hblank : ∀ c ∈ name.toList, Text.isBlank c = false := fun c hc => (hname c hc).1
  have hsigns : ∀ c ∈ name.toList, c ∉ signs := fun c hc => (hname c hc).2
  have hne' : name.toList ≠ [] := by simpa using hne
  obtain ⟨hop, hop'⟩ := toList_comparison hcomparison
  have htext : condition.toList = written name.toList comparison.toList literal.toList := by
    simp [condition, written]
  have htrim := trim_written hne' hblank hop hop' hliteral
  rw [← htext] at htrim
  constructor
  -- Nothing is found before the comparison that was written, and it is found at its place.
  · intro hclear
    rw [holds_of_split? (htrim ▸ split?_written hsigns hcomparison hclear),
      trim_name_blank hblank, String.ofList_toList, hvalue, trim_behind hliteral]
    simp only [Condition.literal, String.ofList_toList]
    rfl
  -- The first comparison that is looked for stands inside of the literal.
  · intro other hother
    obtain ⟨left, right, hcut, hsplit⟩ := split?_written_inside hsigns hcomparison hother
    exact ⟨left, right, hcut, holds_of_split? (htrim ▸ hsplit)⟩

/-- A variable that holds a text is found to differ from it, since the literal has a comparison in
it that is looked for first. -/
theorem holds_written_inside :
    misleading? "!=" "\"a==b\"".toList = some "==" ∧
      holds "x != \"a==b\"" [("x", .str "a==b")] = true ∧
      compares (.str "a==b") (.str "a==b") "!=" = false := by
  have hname : ∀ c ∈ "x".toList, Text.isBlank c = false ∧ c ∉ signs := by
    intro c hc
    obtain rfl : c = 'x' := by simpa using hc
    decide
  have hother : misleading? "!=" "\"a==b\"".toList = some "==" := by decide +kernel
  obtain ⟨left, right, hcut, hholds⟩ :=
    (@holds_written "x" "!=" "\"a==b\"" (.str "a==b") [("x", .str "a==b")]
      (by decide) hname (by decide) (by decide +kernel) rfl).2 "==" hother
  have hcut' : Text.cutAt "==".toList "\"a==b\"".toList = some (['"', 'a'], ['b', '"']) := by
    decide +kernel
  obtain ⟨rfl, rfl⟩ := Prod.mk.inj (Option.some.inj (hcut.symm.trans hcut'))
  -- What stands to the left of the equals signs is not the name of a variable.
  have hunbound : Entries.find?
      (String.ofList (Text.trim (written "x".toList "!=".toList ['"', 'a'])))
      [("x", Value.str "a==b")] = none := by decide +kernel
  rw [hunbound] at hholds
  exact ⟨hother, hholds, by decide +kernel⟩

end StackMachine.Condition
