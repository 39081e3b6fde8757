import Mathlib.Data.Option.Basic
import StackMachine.Code.Source
import StackMachine.Proofs.Text.Blank

/-!
# Source texts are read back

A source text leaves its author free: how many blanks stand between two words and of which kind,
whether a comma stands behind an operand, whether a comment ends the line. None of that reaches the
program. Whatever the layout, reading the text gives the instructions that were written, and the
number of each is that of its line.

The argument goes word by word. A word is read back if what follows it cannot belong to it, which
is so at the end of a line, before a blank and before a comment.

## Main definitions

* `Token.Writable`: the words that can be written.
* `Spelling.Operand`, `Spelling.Line`: an operand and an instruction with their layout.
* `Spelling.text`: the text of a list of lines.

## Main results

* `Token.next?_written`: a written word is read back, and nothing behind it is touched.
* `Spelling.Line.ofLine?_text`: a written line is read as its instruction.
* `Program.ofSource_spelling`: a source text is read as the instructions that were laid out in it.
-/

namespace StackMachine

/-! ### Words -/

namespace Token

/-- Whether a word can be written. A quoted word holds neither a quote nor a line feed. A bare word
is not empty, holds no blank and no semicolon, does not begin with a quote, and ends with a comma
only if it is nothing but that comma. -/
def Writable : Token → Prop
  | ⟨text, true⟩ => '"' ∉ text ∧ '\n' ∉ text
  | ⟨text, false⟩ => text ≠ [] ∧ (∀ c ∈ text, endsBare c = false) ∧ text.head? ≠ some '"' ∧
      (text.getLast? = some ',' → text = [','])

instance : DecidablePred Writable
  | ⟨text, true⟩ => inferInstanceAs (Decidable ('"' ∉ text ∧ '\n' ∉ text))
  | ⟨text, false⟩ =>
    -- Otherwise the quantifier would be decided by a search through all characters.
    haveI : Decidable (∀ c ∈ text, endsBare c = false) := List.decidableBAll _ text
    inferInstanceAs (Decidable (text ≠ [] ∧ (∀ c ∈ text, endsBare c = false) ∧
      text.head? ≠ some '"' ∧ (text.getLast? = some ',' → text = [','])))

/-- A word as it is written, with or without a comma behind it. -/
def written (token : Token) (comma : Bool) : List Char :=
  (if token.quoted then '"' :: token.text ++ ['"'] else token.text) ++ if comma then [','] else []

/-- Whether no bare word that ends here could go on in `rest`. -/
def Bounded (rest : List Char) : Prop := ∀ c ∈ rest.head?, endsBare c = true

variable {token : Token} {text gap rest : List Char}

theorem bounded_cons {c : Char} (h : endsBare c = true) : Bounded (c :: rest) := by
  simpa [Bounded] using h

theorem endsBare_of_isBlank {c : Char} (h : Text.isBlank c = true) : endsBare c = true := by
  simp [endsBare, h]

/-- What does not end a bare word is no blank. -/
theorem isBlank_of_endsBare_eq_false {c : Char} (h : endsBare c = false) :
    Text.isBlank c = false := by
  simp only [endsBare, Bool.or_eq_false_iff] at h
  exact h.1

/-- Blanks in front of a word do not matter. -/
theorem next?_append_of_blank (h : ∀ c ∈ gap, Text.isBlank c = true) :
    next? (gap ++ rest) = next? rest := by
  rw [next?, next?, List.dropWhile_append_of_pos h]

/-- A quoted word ends at its second quote; a comma right behind that is skipped. -/
theorem next?_quote (hquote : '"' ∉ text) (tail : List Char) :
    next? ('"' :: (text ++ '"' :: tail)) =
      some (⟨text, true⟩, if tail.head? = some ',' then tail.tail else tail) := by
  have hall : ∀ c ∈ text, decide (c ≠ '"') = true := by
    intro c hc
    rw [decide_eq_true_iff]
    rintro rfl
    exact hquote hc
  have hdrop : (text ++ '"' :: tail).dropWhile (· ≠ '"') = '"' :: tail := by
    rw [List.dropWhile_append_of_pos hall]
    rfl
  have htake : (text ++ '"' :: tail).takeWhile (· ≠ '"') = text := by
    rw [List.takeWhile_append_of_pos hall, List.takeWhile_cons_of_neg (by decide), List.append_nil]
  have hblank : ('"' :: (text ++ '"' :: tail)).dropWhile Text.isBlank =
      '"' :: (text ++ '"' :: tail) :=
    List.dropWhile_cons_of_neg (by decide)
  simp only [next?, hblank, hdrop, htake]
  cases tail with
  | nil => rfl
  | cons c rest =>
    by_cases hc : c = ','
    · subst hc
      rfl
    · simp [hc]

/-- A bare word ends where what follows cannot belong to it. -/
theorem next?_bare (hne : text ≠ []) (hall : ∀ c ∈ text, endsBare c = false)
    (hhead : text.head? ≠ some '"') (hrest : Bounded rest) :
    next? (text ++ rest) = some (bare text, rest) := by
  have hgoes : ∀ c ∈ text, (!endsBare c) = true := by
    intro c hc
    rw [hall c hc]
    rfl
  have htake : (text ++ rest).takeWhile (fun c => !endsBare c) = text := by
    rw [List.takeWhile_append_of_pos hgoes]
    cases rest with
    | nil => simp
    | cons c rest => simp [hrest c rfl]
  have hdrop : (text ++ rest).dropWhile (fun c => !endsBare c) = rest := by
    rw [List.dropWhile_append_of_pos hgoes]
    cases rest with
    | nil => rfl
    | cons c rest => simp [hrest c rfl]
  -- The first character decides that there is a bare word: it is no blank, no semicolon and no
  -- quote.
  obtain ⟨c, tail, rfl⟩ := List.exists_cons_of_ne_nil hne
  have hc : endsBare c = false := hall c List.mem_cons_self
  have hsemicolon : c ≠ ';' := by
    rintro rfl
    exact absurd hc (by decide)
  have hquote : c ≠ '"' := by
    rintro rfl
    exact hhead rfl
  have hblank : (c :: tail ++ rest).dropWhile Text.isBlank = c :: (tail ++ rest) :=
    List.dropWhile_cons_of_neg (by simp [isBlank_of_endsBare_eq_false hc])
  rw [next?, hblank]
  split
  next hnil => cases hnil
  next heq => exact absurd (List.cons.inj heq).1 hsemicolon
  next heq => exact absurd (List.cons.inj heq).1 hquote
  next heq =>
    rw [← heq, ← List.cons_append, htake, hdrop]

/-- One comma behind a bare word does not belong to it. -/
theorem bare_concat_comma (hne : text ≠ []) : bare (text ++ [',']) = ⟨text, false⟩ := by
  obtain ⟨c, tail, hreverse⟩ := List.exists_cons_of_ne_nil (List.reverse_ne_nil_iff.mpr hne)
  have htext : text = (c :: tail).reverse := by rw [← hreverse, List.reverse_reverse]
  simp [bare, htext]

/-- Without a comma at its end, or if it is nothing but a comma, a bare word is taken as it is. -/
theorem bare_of_getLast? (hlast : text.getLast? = some ',' → text = [',']) :
    bare text = ⟨text, false⟩ := by
  unfold bare
  split
  next c tail hreverse =>
    have hcomma : text = [','] := hlast (by rw [← List.head?_reverse, hreverse]; rfl)
    -- A lone comma has nothing in front of it.
    rw [hcomma] at hreverse
    cases hreverse
  next => rfl

/-- A written word is read back, and nothing behind it is touched. -/
theorem next?_written (h : token.Writable) (comma : Bool) (hrest : Bounded rest) :
    next? (token.written comma ++ rest) = some (token, rest) := by
  obtain ⟨text, quoted⟩ := token
  cases quoted with
  | true =>
    have hcomma : rest.head? ≠ some ',' := by
      intro hhead
      exact absurd (hrest ',' hhead) (by decide)
    have hread := next?_quote h.1 ((if comma then [','] else []) ++ rest)
    cases comma <;> simpa [written, hcomma] using hread
  | false =>
    obtain ⟨hne, hall, hhead, hlast⟩ := h
    cases comma with
    | true =>
      -- The comma is read as a part of the word, which then loses it.
      have hall : ∀ c ∈ text ++ [','], endsBare c = false := by
        intro c hc
        rcases List.mem_append.mp hc with hc | hc
        · exact hall c hc
        · rw [List.mem_singleton.mp hc]
          decide
      have hhead : (text ++ [',']).head? ≠ some '"' := by
        rw [List.head?_append_of_ne_nil text hne]
        exact hhead
      have hread := next?_bare (List.append_ne_nil_of_left_ne_nil hne [',']) hall hhead hrest
      rw [bare_concat_comma hne] at hread
      simpa [written] using hread
    | false =>
      have hread := next?_bare hne hall hhead hrest
      rw [bare_of_getLast? hlast] at hread
      simpa [written] using hread

/-- Whatever stands before it, a written word does not end in a blank. -/
theorem exists_written_concat (h : token.Writable) (comma : Bool) :
    ∃ front c, token.written comma = front ++ [c] ∧ Text.isBlank c = false := by
  obtain ⟨text, quoted⟩ := token
  cases comma with
  | true => exact ⟨_, ',', rfl, by decide⟩
  | false =>
    cases quoted with
    | true => exact ⟨'"' :: text, '"', by simp [written], by decide⟩
    | false =>
      have hne : text ≠ [] := h.1
      refine ⟨text.dropLast, text.getLast hne, ?_, ?_⟩
      · simp [written, List.dropLast_append_getLast]
      · exact isBlank_of_endsBare_eq_false (h.2.1 _ (List.getLast_mem hne))

/-- What is written for a word stays on its line. -/
theorem lineFeed_not_mem_written (h : token.Writable) (comma : Bool) :
    '\n' ∉ token.written comma := by
  obtain ⟨text, quoted⟩ := token
  have htext : '\n' ∉ text := by
    cases quoted with
    | true => exact h.2
    | false =>
      intro hmem
      exact absurd (h.2.1 _ hmem) (by decide)
  cases quoted <;> cases comma <;> simp [written, htext]

/-! ### The end of a line -/

/-- The part of a line without words: blanks, and perhaps a comment behind them. -/
inductive IsEnding : List Char → Prop
  | blank {trail : List Char} (h : ∀ c ∈ trail, Text.isBlank c = true) : IsEnding trail
  | comment {trail : List Char} (h : ∀ c ∈ trail, Text.isBlank c = true) (text : List Char) :
      IsEnding (trail ++ ';' :: text)

/-- There is no word at the end of a line. -/
theorem IsEnding.next?_eq_none (h : IsEnding rest) : next? rest = none := by
  cases h with
  | blank h => rw [next?, List.dropWhile_eq_nil_iff.mpr h]
  | comment h text =>
    rw [next?_append_of_blank h]
    rfl

/-- The end of a line bounds the word before it. -/
theorem IsEnding.bounded (h : IsEnding rest) : Bounded rest := by
  cases h with
  | blank h =>
    intro c hc
    exact endsBare_of_isBlank (h c (List.mem_of_mem_head? hc))
  | @comment trail h text =>
    cases trail with
    | nil => exact bounded_cons (by decide)
    | cons c trail => exact bounded_cons (endsBare_of_isBlank (h c List.mem_cons_self))

theorem IsEnding.dropBack (h : IsEnding rest) : IsEnding (Text.dropBack Text.isBlank rest) := by
  cases h with
  | blank h =>
    rw [Text.dropBack_of_forall h]
    exact .blank (by simp)
  | comment h text =>
    rw [Text.dropBack_append_cons (by decide)]
    exact .comment h _

end Token

/-! ### Mnemonics and line ends -/

/-- Every mnemonic is a word that can be written. -/
theorem Opcode.writable_mnemonic (opcode : Opcode) :
    Token.Writable ⟨opcode.mnemonic.toList, false⟩ := by
  cases opcode <;> decide

/-- No two kinds of instructions have the same mnemonic. -/
theorem Opcode.ofMnemonic_mnemonic (opcode : Opcode) : ofMnemonic opcode.mnemonic = opcode := by
  cases opcode <;> decide

/-- The carriage return before a line feed belongs to no word. -/
theorem Instruction.ofLine?_dropReturn (number : Nat) (cs : List Char) :
    ofLine? number (Text.dropReturn cs) = ofLine? number cs := by
  simp only [ofLine?, Text.trim_dropReturn]

/-! ### Instructions with their layout -/

namespace Spelling

/-- Blanks within a line. -/
def IsGap (gap : List Char) : Prop := ∀ c ∈ gap, Text.isBlank c = true ∧ c ≠ '\n'

instance : DecidablePred IsGap := fun gap => List.decidableBAll _ gap

/-- An operand, the blanks in front of it and perhaps a comma behind it. -/
structure Operand where
  /-- The operand itself, bare or quoted. -/
  token : Token
  /-- What separates it from the word before. -/
  gap : List Char
  /-- Whether a comma stands directly behind it. -/
  comma : Bool
  writable : token.Writable
  isGap : IsGap gap
  gap_ne_nil : gap ≠ []

/-- An instruction on a line of its own: blanks, the mnemonic, the operands, blanks again, and
perhaps a comment. -/
structure Line where
  opcode : Opcode
  operands : List Operand
  /-- The blanks before the mnemonic. -/
  lead : List Char
  /-- The blanks behind the last word. -/
  trail : List Char
  /-- The comment without its semicolon. -/
  comment : Option (List Char)
  isGap_lead : IsGap lead
  isGap_trail : IsGap trail
  lineFeed_not_mem_comment : ∀ text ∈ comment, '\n' ∉ text

variable {rest : List Char} {operands : List Operand}

namespace Operand

/-- How the operand is written. -/
def text (operand : Operand) : List Char :=
  operand.gap ++ operand.token.written operand.comma

/-- An operand is written behind a gap, so it bounds the word before it. -/
theorem bounded_text (operand : Operand) (rest : List Char) :
    Token.Bounded (operand.text ++ rest) := by
  obtain ⟨c, gap, hgap⟩ := List.exists_cons_of_ne_nil operand.gap_ne_nil
  have hc : Text.isBlank c = true := (operand.isGap c (by simp [hgap])).1
  simpa [text, hgap] using Token.bounded_cons (Token.endsBare_of_isBlank hc)

end Operand

theorem bounded_flatMap (operands : List Operand) (h : Token.Bounded rest) :
    Token.Bounded (operands.flatMap Operand.text ++ rest) := by
  cases operands with
  | nil => exact h
  | cons operand operands =>
    rw [List.flatMap_cons, List.append_assoc]
    exact operand.bounded_text _

/-- Every operand takes at least one character. -/
theorem length_le_flatMap (operands : List Operand) :
    operands.length ≤ (operands.flatMap Operand.text).length := by
  induction operands with
  | nil => simp
  | cons operand operands ih =>
    have hgap : 0 < operand.gap.length := List.length_pos_iff.mpr operand.gap_ne_nil
    simp only [List.flatMap_cons, List.length_append, List.length_cons, Operand.text]
    omega

/-- The words of written operands are these operands, if as many words may be read. -/
theorem takeAll_flatMap (h : Token.IsEnding rest) {count : Nat} (hcount : operands.length ≤ count) :
    Token.takeAll count (operands.flatMap Operand.text ++ rest) = operands.map (·.token) := by
  -- What follows an operand begins with the gap of the next one, or with the end of the line.
  induction operands generalizing count with
  | nil =>
    cases count with
    | zero => rfl
    | succ count => simp [Token.takeAll, h.next?_eq_none]
  | cons operand operands ih =>
    obtain ⟨count, rfl⟩ : ∃ k, count = k + 1 := Nat.exists_eq_succ_of_ne_zero (by grind)
    have hread : Token.next? ((operand :: operands).flatMap Operand.text ++ rest) =
        some (operand.token, operands.flatMap Operand.text ++ rest) := by
      rw [List.flatMap_cons, Operand.text, List.append_assoc, List.append_assoc,
        Token.next?_append_of_blank fun c hc => (operand.isGap c hc).1]
      exact Token.next?_written operand.writable _ (bounded_flatMap operands h.bounded)
    rw [Token.takeAll, hread]
    simp [ih (Nat.le_of_succ_le_succ hcount)]

namespace Line

/-- What stands behind the last word. -/
def ending (line : Line) : List Char :=
  line.trail ++ line.comment.elim [] (';' :: ·)

/-- The words of the line, from the mnemonic on. -/
def body (line : Line) : List Char :=
  line.opcode.mnemonic.toList ++ line.operands.flatMap Operand.text

/-- How the line is written. -/
def text (line : Line) : List Char := line.lead ++ line.body ++ line.ending

/-- The instruction on the line with the given number. -/
def instruction (line : Line) (number : Nat) : Instruction where
  opcode := line.opcode
  operands := line.operands.map fun operand => String.ofList operand.token.text
  literal := (line.operands.head?.filter (·.token.quoted)).map fun operand =>
    (Value.readLiteral? (String.ofList operand.token.text)).getD
      (.str (String.ofList operand.token.text))
  line := number

/-- Whether the line holds no mark that frames a program. -/
def Unframed (line : Line) : Prop :=
  ¬ "# IR BEGIN".toList <:+: line.text ∧ ¬ "IR END".toList <:+: line.text

instance : DecidablePred Unframed := fun line =>
  inferInstanceAs (Decidable
    (¬ "# IR BEGIN".toList <:+: line.text ∧ ¬ "IR END".toList <:+: line.text))

variable {line : Line}

/-- What is written behind the operands is the end of a line. -/
theorem isEnding_ending (line : Line) : Token.IsEnding line.ending := by
  have hblank : ∀ c ∈ line.trail, Text.isBlank c = true := fun c hc => (line.isGap_trail c hc).1
  cases hcomment : line.comment with
  | none => simpa [ending, hcomment] using Token.IsEnding.blank hblank
  | some text => simpa [ending, hcomment] using Token.IsEnding.comment hblank text

/-- What is written between lead and trail begins with a character other than a blank. -/
theorem exists_body_cons (line : Line) :
    ∃ c back, line.body = c :: back ∧ Text.isBlank c = false := by
  obtain ⟨hne, hall, -⟩ := line.opcode.writable_mnemonic
  obtain ⟨c, back, hmnemonic⟩ := List.exists_cons_of_ne_nil hne
  refine ⟨c, back ++ line.operands.flatMap Operand.text, ?_, ?_⟩
  · exact congrArg (· ++ line.operands.flatMap Operand.text) hmnemonic
  · exact Token.isBlank_of_endsBare_eq_false (hall c (hmnemonic ▸ List.mem_cons_self))

/-- It ends with one, too. -/
theorem exists_body_concat (line : Line) :
    ∃ front c, line.body = front ++ [c] ∧ Text.isBlank c = false := by
  -- The last word is the last operand, or the mnemonic if there is none.
  rcases List.eq_nil_or_concat line.operands with hnil | ⟨operands, operand, hconcat⟩
  · obtain ⟨front, c, hmnemonic, hc⟩ :=
      Token.exists_written_concat line.opcode.writable_mnemonic false
    refine ⟨front, c, ?_, hc⟩
    simpa [body, hnil, Token.written] using hmnemonic
  · obtain ⟨front, c, hoperand, hc⟩ := Token.exists_written_concat operand.writable operand.comma
    refine ⟨line.opcode.mnemonic.toList ++ operands.flatMap Operand.text ++ operand.gap ++ front,
      c, ?_, hc⟩
    simp [body, hconcat, Operand.text, hoperand]

/-- Trimming a line leaves its words, and of what stands behind them only a comment. -/
theorem trim_text (line : Line) :
    Text.trim line.text = line.body ++ Text.dropBack Text.isBlank line.ending := by
  -- The words begin and end with a character that is no blank, where trimming stops.
  obtain ⟨first, back, hfirst, hnonblank⟩ := line.exists_body_cons
  obtain ⟨front, last, hlast, hsolid⟩ := line.exists_body_concat
  have hfront : Text.trimFront line.text = line.body ++ line.ending := by
    rw [text, List.append_assoc, Text.trimFront,
      List.dropWhile_append_of_pos fun c hc => (line.isGap_lead c hc).1, hfirst]
    exact List.dropWhile_cons_of_neg (by simp [hnonblank])
  rw [Text.trim, hfront, hlast, List.append_assoc, List.append_assoc]
  exact Text.dropBack_append_cons hsolid

/-- The words of a line are its mnemonic and its operands. -/
theorem ofLine_trim_text (line : Line) :
    Token.ofLine (Text.trim line.text) =
      ⟨line.opcode.mnemonic.toList, false⟩ :: line.operands.map (·.token) := by
  have hending := line.isEnding_ending.dropBack
  have hread : Token.next? (Text.trim line.text) =
      some (⟨line.opcode.mnemonic.toList, false⟩,
        line.operands.flatMap Operand.text ++ Text.dropBack Text.isBlank line.ending) := by
    rw [trim_text, body, List.append_assoc]
    simpa [Token.written] using Token.next?_written line.opcode.writable_mnemonic false
      (bounded_flatMap line.operands hending.bounded)
  -- Every word takes a character, so no word is left out.
  have hcount : line.operands.length + 1 ≤ (Text.trim line.text).length := by
    have hmnemonic : 0 < line.opcode.mnemonic.toList.length :=
      List.length_pos_iff.mpr line.opcode.writable_mnemonic.1
    have hoperands := length_le_flatMap line.operands
    simp only [trim_text, body, List.length_append]
    omega
  obtain ⟨count, hlength⟩ := Nat.exists_eq_add_of_le' hcount
  rw [Token.ofLine, hlength, ← Nat.add_assoc, Token.takeAll, hread]
  simp [takeAll_flatMap hending (Nat.le_add_left _ count)]

/-- The mnemonic and the operands of a line spell its instruction. -/
theorem ofTokens?_tokens (line : Line) (number : Nat) :
    Instruction.ofTokens? number
        (⟨line.opcode.mnemonic.toList, false⟩ :: line.operands.map (·.token)) =
      some (line.instruction number) := by
  cases hoperands : line.operands with
  | nil => simp [Instruction.ofTokens?, instruction, Opcode.ofMnemonic_mnemonic, hoperands]
  | cons first operands =>
    by_cases hquoted : first.token.quoted = true <;>
      simp [Instruction.ofTokens?, instruction, Opcode.ofMnemonic_mnemonic, hoperands, hquoted]

/-- A written line is read as its instruction. -/
theorem ofLine?_text (h : line.Unframed) (number : Nat) :
    Instruction.ofLine? number line.text = some (line.instruction number) := by
  -- A mark in the trimmed line would stand in the line, too.
  have hframe : Instruction.isFrame (Text.trim line.text) = false := by
    rw [Instruction.isFrame, Bool.or_eq_false_iff, ← Bool.not_eq_true, ← Bool.not_eq_true,
      Text.occurs_iff_infix, Text.occurs_iff_infix]
    exact ⟨fun hbegin => h.1 (hbegin.trans (Text.trim_infix _)),
      fun hend => h.2 (hend.trans (Text.trim_infix _))⟩
  simp only [Instruction.ofLine?, hframe, ofLine_trim_text, ofTokens?_tokens, Bool.false_eq_true,
    if_false]

theorem text_ne_nil (line : Line) : line.text ≠ [] := by
  obtain ⟨c, back, hbody, -⟩ := line.exists_body_cons
  simp [text, hbody]

theorem lineFeed_not_mem_text (line : Line) : '\n' ∉ line.text := by
  have hlead : '\n' ∉ line.lead := fun hmem => (line.isGap_lead _ hmem).2 rfl
  have htrail : '\n' ∉ line.trail := fun hmem => (line.isGap_trail _ hmem).2 rfl
  have hmnemonic : '\n' ∉ line.opcode.mnemonic.toList := by
    simpa [Token.written] using
      Token.lineFeed_not_mem_written line.opcode.writable_mnemonic false
  have hoperands : ∀ operand ∈ line.operands, '\n' ∉ operand.text := by
    intro operand _ hmem
    rcases List.mem_append.mp hmem with hgap | htoken
    · exact (operand.isGap _ hgap).2 rfl
    · exact Token.lineFeed_not_mem_written operand.writable _ htoken
  have hcomment : '\n' ∉ line.comment.elim [] (';' :: ·) := by
    cases hcomment : line.comment with
    | none => simp
    | some text => simpa using line.lineFeed_not_mem_comment text hcomment
  simpa [text, body, ending, hlead, htrail, hmnemonic, hcomment, List.mem_flatMap] using hoperands

end Line

/-- The text of lines, with a line feed between neighbours and perhaps one behind the last. -/
def text (closed : Bool) : List Line → List Char
  | [] => []
  | [line] => line.text ++ if closed then ['\n'] else []
  | line :: lines => line.text ++ '\n' :: text closed lines

/-- Reading goes line by line: it numbers the lines, and each gives its instruction. -/
theorem filterMap_lines_text (closed : Bool) {lines : List Line}
    (h : ∀ line ∈ lines, line.Unframed) (start : Nat) :
    ((Text.lines (text closed lines)).zipIdx start).filterMap
        (fun (cs, number) => Instruction.ofLine? number cs) =
      (lines.zipIdx start).map fun (line, number) => line.instruction number := by
  fun_induction text closed lines generalizing start with
  | case1 => rfl
  | case2 line =>
    -- The last line keeps its carriage return if no line feed follows.
    have hline := line.ofLine?_text (h line List.mem_cons_self) start
    cases closed with
    | true =>
      rw [if_pos rfl, Text.lines_append_lineFeed line.lineFeed_not_mem_text]
      simp [Text.lines, Text.splitAll, Instruction.ofLine?_dropReturn, hline]
    | false =>
      rw [if_neg Bool.false_ne_true, List.append_nil,
        Text.lines_of_not_mem line.lineFeed_not_mem_text line.text_ne_nil]
      simp [hline]
  | case3 line lines _ ih =>
    rw [List.forall_mem_cons] at h
    rw [Text.lines_append_lineFeed line.lineFeed_not_mem_text]
    simp [Instruction.ofLine?_dropReturn, line.ofLine?_text h.1 start, ih h.2 (start + 1)]

end Spelling

/-- A source text is read as the instructions that were laid out in it, in their order. -/
theorem Program.ofSource_spelling (closed : Bool) (lines : List Spelling.Line)
    (h : ∀ line ∈ lines, line.Unframed) :
    Program.ofSource (String.ofList (Spelling.text closed lines)) =
      (lines.zipIdx 1).map fun (line, number) => line.instruction number := by
  rw [Program.ofSource, String.toList_ofList]
  exact Spelling.filterMap_lines_text closed h 1

/-- Two lines in an unusual layout: a quoted semicolon and a quote in a comment, a comma that is an
operand with one that is not behind it, a blank outside of ASCII, and a carriage return. -/
def Spelling.unusual : List Spelling.Line :=
  [{ opcode := .push
     operands := [{ token := ⟨"a;b".toList, true⟩, gap := [' '], comma := true
                    writable := by decide, isGap := by decide, gap_ne_nil := by decide }]
     lead := ['\t'], trail := [], comment := some " \"".toList
     isGap_lead := by decide, isGap_trail := by decide, lineFeed_not_mem_comment := by decide },
   { opcode := .call
     operands := [{ token := ⟨[','], false⟩, gap := ['\u00a0'], comma := true, writable := by decide
                    isGap := by decide, gap_ne_nil := by decide },
                  { token := ⟨"x\"y".toList, false⟩, gap := [' ', ' '], comma := false
                    writable := by decide, isGap := by decide, gap_ne_nil := by decide }]
     lead := [], trail := ['\r'], comment := none
     isGap_lead := by decide, isGap_trail := by decide, lineFeed_not_mem_comment := by decide }]

theorem Program.ofSource_spelling_unusual :
    (∀ line ∈ Spelling.unusual, line.Unframed) ∧
      Program.ofSource "\tPUSH \"a;b\",; \"\nCALL\u00a0,,  x\"y\r\n" =
        [{ opcode := .push, operands := ["a;b"], literal := some (.str "a;b"), line := 1 },
         { opcode := .call, operands := [",", "x\"y"], literal := none, line := 2 }] := by
  have hunframed : ∀ line ∈ Spelling.unusual, line.Unframed := by decide
  have htext : String.ofList (Spelling.text true Spelling.unusual) =
      "\tPUSH \"a;b\",; \"\nCALL\u00a0,,  x\"y\r\n" := by decide
  have hread := Program.ofSource_spelling true Spelling.unusual hunframed
  rw [htext] at hread
  exact ⟨hunframed, hread⟩

end StackMachine
