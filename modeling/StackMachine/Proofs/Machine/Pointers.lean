import StackMachine.Machine.Run
import StackMachine.Proofs.Collection.Entries

/-!
# Where pointers come from

A machine makes pointers in three ways. An allocation and an opened file give an ordinary or weak
pointer, to null if they failed. An allocation that asks for a reference gives one, never to null.
Storing over a reference changes its target, never to null.

Operators, literals and the built-in functions that only compute make no pointers. At most they copy
those of their operands, alone or inside lists and dictionaries.

## Main definitions

* `Pointer.Arises`: the pointers that a machine can make.
* `Value.Contains`: a pointer occurs in a value, at any depth inside lists and dictionaries.
* `Value.All`: all pointers in a value have a property.

## Main results

* `Pointer.Arises.target_ne_null`: a reference that arises does not point to null.
* `Value.all_binary` and `Value.all_unary`: operators make no pointers.
* `Value.all_appended`, `Value.all_extended` and `Value.all_pairs`: neither do the functions that
  put values into lists and dictionaries.
* `Program.isPlain_literal`: nor do literals.
-/

namespace StackMachine

namespace Pointer

/-- The pointers that a machine can make. -/
inductive Arises : Pointer → Prop
  /-- An ordinary or weak pointer to anything. -/
  | plain (target : Target) (tag : String) (weak : Bool) : Arises { target, tag, weak }
  /-- A reference, where there is one. -/
  | reference {target : Target} {tag : String} {p : Pointer} :
      reference? target tag = some p → Arises p
  /-- A pointer with another target, where it accepts that. -/
  | rebound {p q : Pointer} {target : Target} : Arises p → p.rebind? target = some q → Arises q

/-- What a machine makes has the property. -/
structure Closed (P : Pointer → Prop) : Prop where
  /-- An ordinary or weak pointer to anything. -/
  plain (target : Target) (tag : String) (weak : Bool) : P { target, tag, weak }
  /-- A reference, where there is one. -/
  reference {target : Target} {tag : String} {p : Pointer} : reference? target tag = some p → P p
  /-- A pointer with another target, where it accepts that. -/
  rebound {p q : Pointer} {target : Target} : P p → p.rebind? target = some q → P q

/-- What a machine does to pointers keeps them among those that arise. -/
theorem closed_arises : Closed Arises := ⟨.plain, .reference, .rebound⟩

theorem closed_true : Closed fun _ => True :=
  ⟨fun _ _ _ => trivial, fun _ => trivial, fun _ _ => trivial⟩

/-- A pointer can be given another target unless it is a reference and the target is null. Nothing
else of it changes. -/
theorem rebind?_eq_some_iff {p q : Pointer} {target : Target} :
    p.rebind? target = some q ↔
      ¬(p.reference = true ∧ target = .null) ∧ q = { p with target } := by
  simp only [rebind?, Bool.and_eq_true, decide_eq_true_eq]
  split
  next hrefused => exact ⟨fun h => (by cases h), fun h => absurd hrefused h.1⟩
  next haccepted =>
    constructor
    · intro h
      exact ⟨haccepted, (Option.some.inj h).symm⟩
    · intro h
      rw [h.2]

/-- A reference that arises does not point to null. -/
theorem Arises.target_ne_null {p : Pointer} (h : p.Arises) (href : p.reference = true) :
    p.target ≠ .null := by
  induction h with
  | plain target tag weak => cases href
  -- A reference is only made where there is a target.
  | reference hmade =>
    unfold reference? at hmade
    split at hmade
    next => cases hmade
    next hne =>
      obtain rfl := Option.some.inj hmade
      exact hne
  -- Whatever it pointed to before, it has accepted the new target.
  | rebound _ hrebound _ =>
    obtain ⟨haccepted, rfl⟩ := rebind?_eq_some_iff.mp hrebound
    exact fun hnull => haccepted ⟨href, hnull⟩

end Pointer

namespace Value

/-- The pointer occurs in the value, at any depth inside lists and dictionaries. -/
inductive Contains (p : Pointer) : Value → Prop
  /-- A pointer occurs in itself. -/
  | pointer : Contains p (.pointer p)
  /-- What occurs in an item occurs in the list. -/
  | item {items : List Value} {item : Value} :
      item ∈ items → Contains p item → Contains p (.list items)
  /-- What occurs in the value of an entry occurs in the dictionary. -/
  | entry {entries : List (String × Value)} {key : String} {value : Value} :
      (key, value) ∈ entries → Contains p value → Contains p (.dict entries)

/-- All pointers in the value have the property. -/
def All (P : Pointer → Prop) (value : Value) : Prop := ∀ p, value.Contains p → P p

/-- All pointers in the value arise. -/
abbrev Arises : Value → Prop := All Pointer.Arises

/-- Whether the value is no pointer and holds no other values. -/
def isPlain : Value → Bool
  | pointer _ => false
  | list _ => false
  | dict _ => false
  | _ => true

section All

variable {P : Pointer → Prop}

/-- A plain value contains no pointer. -/
theorem All.of_isPlain {value : Value} (h : value.isPlain = true) : value.All P := by
  intro p hcontains
  cases hcontains <;> cases h

theorem All.of_pointer {p : Pointer} (h : P p) : (pointer p).All P := by
  intro q hcontains
  cases hcontains
  exact h

theorem All.pointer {p : Pointer} (h : (pointer p).All P) : P p := h p .pointer

theorem All.of_items {items : List Value} (h : ∀ item ∈ items, item.All P) :
    (list items).All P := by
  intro p hcontains
  cases hcontains with
  | item hitem hcontains => exact h _ hitem p hcontains

/-- What holds of the pointers in a list holds of those in an item. -/
theorem All.item {items : List Value} (h : (list items).All P) {item : Value}
    (hitem : item ∈ items) : item.All P :=
  fun p hcontains => h p (.item hitem hcontains)

theorem All.of_entries {entries : List (String × Value)}
    (h : ∀ entry ∈ entries, entry.2.All P) : (dict entries).All P := by
  intro p hcontains
  cases hcontains with
  | entry hentry hcontains => exact h _ hentry p hcontains

/-- What holds of the pointers in a dictionary holds of those in a value. -/
theorem All.entry {entries : List (String × Value)} (h : (dict entries).All P)
    {entry : String × Value} (hentry : entry ∈ entries) : entry.2.All P :=
  fun p hcontains => h p (.entry hentry hcontains)

theorem all_true (value : Value) : value.All fun _ => True := fun _ _ => trivial

/-! ### Operators -/

variable {left right value : Value} {operator : String} {line : Nat}

/-- An operator on doubles gives no pointer, list or dictionary. -/
theorem isPlain_doubleOp {x y : Double} (h : doubleOp x y operator line = .ok value) :
    value.isPlain = true := by
  unfold doubleOp at h
  split at h <;> (try split at h) <;> cases h <;> rfl

/-- Neither does one on integers. -/
theorem isPlain_integerOp {a b : Int64} (h : integerOp a b operator line = .ok value) :
    value.isPlain = true := by
  unfold integerOp at h
  split at h <;> (try split at h) <;> cases h <;> rfl

theorem isPlain_textOp {a b : String} (h : textOp a b operator line = .ok value) :
    value.isPlain = true := by
  unfold textOp at h
  split at h <;> cases h <;> rfl

/-- Of two operands, an operation with pointers gives the right one or nothing with a pointer. -/
theorem pointerOp_cases (h : pointerOp left right operator line = .ok value) :
    value = right ∨ value.isPlain = true := by
  unfold pointerOp at h
  split at h
  · cases h
    exact .inr rfl
  · cases h
    exact .inr rfl
  · cases h
    exact .inr rfl
  · cases h
    exact .inr rfl
  · cases h
    exact .inl rfl
  · cases h

/-- What is repeated is there before. -/
theorem mem_repeatOnto {items : List Value} {times : Nat} {out : Array Value} {item : Value}
    (h : item ∈ (repeatOnto items times out).toList) : item ∈ items ∨ item ∈ out.toList := by
  induction times generalizing out with
  | zero => exact .inr h
  | succ times ih =>
    rcases ih h with h | h
    · exact .inl h
    · rw [Array.toList_appendList] at h
      exact (List.mem_append.mp h).symm

/-- A list that is repeated holds only items of the list. -/
theorem all_repeatList {items : List Value} {count : Int64} (hitems : (list items).All P)
    (h : repeatList items count line = .ok value) : value.All P := by
  unfold repeatList at h
  dsimp only at h
  split at h
  · cases h
    exact .of_items fun item hitem => absurd hitem List.not_mem_nil
  · split at h
    · cases h
    · cases h
      refine .of_items fun item hitem => ?_
      rcases mem_repeatOnto hitem with hitem | hitem
      · exact hitems.item hitem
      · exact absurd hitem List.not_mem_nil

/-- Operators make no pointers. -/
theorem all_binary (hleft : left.All P) (hright : right.All P)
    (h : binary left right operator line = .ok value) : value.All P := by
  have hpointers : pointerOp left right operator line = .ok value → value.All P := by
    intro hvalue
    rcases pointerOp_cases hvalue with rfl | hplain
    · exact hright
    · exact .of_isPlain hplain
  unfold binary at h
  split at h
  · exact .of_isPlain (isPlain_doubleOp h)
  · split at h
    · exact .of_isPlain (isPlain_integerOp h)
    -- From here on the operands decide: texts, pointers, lists, dictionaries.
    · split at h
      · exact .of_isPlain (isPlain_textOp h)
      · exact hpointers h
      · exact hpointers h
      · split at h
        · cases h
          exact .of_items fun item hitem =>
            (List.mem_append.mp hitem).elim hleft.item hright.item
        · cases h
      · split at h
        · exact all_repeatList hleft h
        · cases h
      · split at h
        · cases h
          exact .of_isPlain rfl
        · cases h
      · cases h

/-- Unary operators give values without pointers. -/
theorem all_unary {operand : Value} (h : unary operand operator line = .ok value) :
    value.All P := by
  refine .of_isPlain ?_
  unfold unary at h
  split at h
  · split at h <;> cases h <;> rfl
  · split at h <;> cases h
    rfl

/-! ### Literals and built-in functions on values -/

/-- A literal denotes a value without pointers. -/
theorem isPlain_of_readLiteral? {text : String} (h : readLiteral? text = some value) :
    value.isPlain = true := by
  unfold readLiteral? at h
  split at h
  · cases h
    rfl
  · split at h
    · cases h
      rfl
    · split at h
      · cases h
        rfl
      · unfold readNumber? at h
        dsimp only at h
        split at h
        · obtain ⟨x, -, rfl⟩ := Option.map_eq_some_iff.mp h
          rfl
        · split at h
          · cases h
            rfl
          · obtain ⟨n, -, rfl⟩ := Option.map_eq_some_iff.mp h
            rfl

/-- A text that is read as a literal, or kept where it is none, brings in no pointer. -/
theorem all_readLiteral?_getD {text : String} {other : Value} (h : other.All P) :
    ((readLiteral? text).getD other).All P := by
  cases hread : readLiteral? text with
  | none => exact h
  | some value => exact .of_isPlain (isPlain_of_readLiteral? hread)

section Arguments

variable {arguments : List Value}

/-- Appending to a list brings in no pointer that the arguments do not contain. -/
theorem all_appended (h : ∀ argument ∈ arguments, argument.All P) :
    (appended arguments).All P := by
  unfold appended
  split
  next items item _ =>
    have hlist : (list items).All P := h _ List.mem_cons_self
    have hitem : item.All P := h _ (List.mem_cons_of_mem _ List.mem_cons_self)
    refine .of_items fun other hother => ?_
    rcases List.mem_append.mp hother with hother | hother
    · exact hlist.item hother
    · rw [List.mem_singleton.mp hother]
      exact hitem
  next => exact h _ List.mem_cons_self
  next => exact .of_isPlain rfl

/-- Extending a list does not either. -/
theorem all_extended (h : ∀ argument ∈ arguments, argument.All P) :
    (extended arguments).All P := by
  unfold extended
  split
  next entries key value _ =>
    have hdict : (dict entries).All P := h _ List.mem_cons_self
    have hvalue : value.All P :=
      h _ (List.mem_cons_of_mem _ (List.mem_cons_of_mem _ List.mem_cons_self))
    refine .of_entries fun entry hentry => ?_
    rcases Entries.mem_insert hentry with rfl | hentry
    · exact hvalue
    · exact hdict.entry hentry
  next => exact h _ List.mem_cons_self
  next => exact .of_isPlain rfl

theorem mem_of_mem_pairs {entry : String × Value} (h : entry ∈ pairs arguments) :
    entry.2 ∈ arguments := by
  fun_induction pairs arguments with
  | case1 key value rest ih =>
    rcases List.mem_cons.mp h with rfl | h
    · exact List.mem_cons_of_mem _ List.mem_cons_self
    · exact List.mem_cons_of_mem _ (List.mem_cons_of_mem _ (ih h))
  | case2 => cases h

/-- A dictionary made of arguments contains only their pointers. -/
theorem all_pairs (h : ∀ argument ∈ arguments, argument.All P) :
    (dict (Entries.ofList (pairs arguments))).All P :=
  .of_entries fun _ hentry => h _ (mem_of_mem_pairs (Entries.mem_ofList hentry))

end Arguments

end All

end Value

/-- The literals of a program that is read from a text are plain. -/
theorem Program.isPlain_literal {source : String} {instruction : Instruction} {value : Value}
    (h : instruction ∈ ofSource source) (hliteral : instruction.literal = some value) :
    value.isPlain = true := by
  obtain ⟨⟨cs, line⟩, -, hread⟩ := List.mem_filterMap.mp h
  dsimp only [Instruction.ofLine?] at hread
  split at hread
  · cases hread
  · unfold Instruction.ofTokens? at hread
    split at hread
    next => cases hread
    next head operands _ =>
      obtain rfl := Option.some.inj hread
      dsimp only at hliteral
      cases operands with
      | nil => cases hliteral
      | cons first rest =>
        dsimp only at hliteral
        split at hliteral
        · obtain rfl := Option.some.inj hliteral
          cases htext : Value.readLiteral? (String.ofList first.text) with
          | none => rfl
          | some literal => exact Value.isPlain_of_readLiteral? htext
        · cases hliteral

end StackMachine
