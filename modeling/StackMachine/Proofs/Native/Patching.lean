import Mathlib.Algebra.Group.Int.Defs
import Mathlib.Data.List.Induction
import Mathlib.Data.Nat.Basic
import Mathlib.Data.Option.Basic
import StackMachine.Native.CodeBuffer
import StackMachine.Proofs.Collection.Entries
import StackMachine.Proofs.Native.Encoding

/-!
# References to labels

Code is built by directives: bytes are emitted, labels are defined where the code ends at the time,
and references to labels are emitted as fields of four bytes that patching fills later. A label may
be defined again, before or behind its references; the last definition counts.

What a sequence of directives means is stated on the sequence itself: where its references stand,
where a label was last defined, and which references still wait for a patch. The buffer keeps
exactly this in its code, its labels and its pending references.

Pending fields never overlap, since each of them begins where the code ended when it was emitted.
So a field is written at most once, and what patching leaves in it can be said field by field: the
distance to the label, unless a field before it or the field itself could not be filled.

## Main definitions

* `Directive`, `CodeBuffer.built`: the directives, and the buffer that they build.
* `Directive.RefersAt`, `Directive.AwaitsAt`, `Directive.LastDefinedAt`: references and definitions.
* `Directive.Leads`: a number leads from a field to where a label was last defined.
* `CodeBuffer.field?`: the number in a field.

## Main results

* `CodeBuffer.field?_patchFields`: what patching leaves in each field.
* `CodeBuffer.awaits_iff`, `CodeBuffer.lastDefined_iff`, `CodeBuffer.inBounds_built`: what a buffer
  keeps of the directives.
* `CodeBuffer.patch_resolves`: the first patch fails exactly if some reference cannot be resolved,
  and otherwise makes every reference lead to its label.
-/

namespace StackMachine.Native

/-! ### Fields in code -/

namespace CodeBuffer

variable {code other bytes : List UInt8} {offset : Nat}

/-- Overwriting inside of the code keeps its length. -/
theorem length_overwrite (h : offset + bytes.length ≤ code.length) :
    (overwrite code offset bytes).length = code.length := by
  simp only [overwrite, List.length_append, List.length_take, List.length_drop]
  omega

/-- Exactly the bytes from the offset on are replaced. -/
theorem getElem?_overwrite (h : offset + bytes.length ≤ code.length) (index : Nat) :
    (overwrite code offset bytes)[index]? =
      if offset ≤ index ∧ index < offset + bytes.length then bytes[index - offset]?
      else code[index]? := by
  have htake : (code.take offset).length = offset := by
    rw [List.length_take]
    omega
  rw [overwrite, List.append_assoc]
  rcases lt_or_ge index offset with hbefore | hfrom
  · rw [List.getElem?_append_left (by omega), List.getElem?_take_of_lt hbefore,
      if_neg (by omega)]
  · rw [List.getElem?_append_right (by omega), htake]
    rcases lt_or_ge index (offset + bytes.length) with hinside | hbehind
    · rw [List.getElem?_append_left (by omega), if_pos ⟨hfrom, hinside⟩]
    · rw [List.getElem?_append_right (by omega), List.getElem?_drop, if_neg (by omega)]
      congr 1
      omega

/-- The signed number in the four bytes at an offset, least significant byte first. -/
def field? (code : List UInt8) (offset : Nat) : Option Int32 :=
  (takeInt32? (code.drop offset)).map Prod.fst

/-- A field is read from the bytes at its place. -/
theorem field?_of_drop {value : Int32} {rest : List UInt8}
    (h : code.drop offset = bytes32 value ++ rest) : field? code offset = some value := by
  rw [field?, h, takeInt32?_bytes32, Option.map_some]

/-- A field only depends on its own four bytes. -/
theorem field?_congr
    (h : ∀ index, offset ≤ index → index < offset + 4 → code[index]? = other[index]?) :
    field? code offset = field? other offset := by
  have htake : (code.drop offset).take 4 = (other.drop offset).take 4 := by
    apply List.ext_getElem?
    intro index
    rw [List.getElem?_take, List.getElem?_take, List.getElem?_drop, List.getElem?_drop]
    split
    next hlt => exact h _ (by omega) (by omega)
    next => rfl
  -- Whether all four bytes are there can be seen from the bytes taken.
  have hlength : 4 ≤ (code.drop offset).length ↔ 4 ≤ (other.drop offset).length := by
    have hsame := congrArg List.length htake
    rw [List.length_take, List.length_take] at hsame
    omega
  simp only [field?, takeInt32?, takeNumber?, htake, hlength]
  split <;> rfl

/-- Code behind a field does not matter for it. -/
theorem field?_append (h : offset + 4 ≤ code.length) (more : List UInt8) :
    field? (code ++ more) offset = field? code offset :=
  field?_congr fun index _ hindex => List.getElem?_append_left (by omega)

section Write

variable (h : offset + 4 ≤ code.length) (value : Int32)

include h

theorem length_overwrite_field :
    (overwrite code offset (bytes32 value)).length = code.length :=
  length_overwrite h

/-- A field that was filled holds its value. -/
theorem field?_overwrite : field? (overwrite code offset (bytes32 value)) offset = some value := by
  have htake : (code.take offset).length = offset := by
    rw [List.length_take]
    omega
  have hdrop : (overwrite code offset (bytes32 value)).drop offset =
      bytes32 value ++ code.drop (offset + (bytes32 value).length) := by
    rw [overwrite, List.append_assoc, List.drop_left' htake]
  exact field?_of_drop hdrop

/-- Filling a field leaves alone what is outside of it. -/
theorem getElem?_overwrite_field {index : Nat} (houtside : index < offset ∨ offset + 4 ≤ index) :
    (overwrite code offset (bytes32 value))[index]? = code[index]? := by
  refine (getElem?_overwrite h index).trans (if_neg ?_)
  change ¬(offset ≤ index ∧ index < offset + 4)
  omega

end Write

/-! ### Filling fields -/

variable {labels : Entries String Nat} {fields : List (Nat × String)} {field : Nat × String}

/-- Whether a distance has 32 bits. -/
def Fits (distance : Int) : Prop := -2 ^ 31 ≤ distance ∧ distance < 2 ^ 31

instance (distance : Int) : Decidable (Fits distance) := inferInstanceAs (Decidable (_ ∧ _))

/-- A distance fits if it is refused from neither side. -/
theorem fits_iff (distance : Int) :
    Fits distance ↔ ¬(distance < -0x80000000 ∨ 0x80000000 ≤ distance) := by
  rw [Fits]
  omega

/-- A distance of 32 bits is the value of its number. -/
theorem toInt_ofInt_of_fits {distance : Int} (h : Fits distance) :
    (Int32.ofInt distance).toInt = distance :=
  Int32.toInt_ofInt_of_le h.1 h.2

/-- The number that belongs into a field: how far the label is from the end of the field. There is
none if the label is not defined or too far away. -/
def displacement? (labels : Entries String Nat) (field : Nat × String) : Option Int32 :=
  (Entries.find? field.2 labels).bind fun target =>
    if Fits ((target : Int) - (field.1 + 4)) then
      some (Int32.ofInt ((target : Int) - (field.1 + 4)))
    else none

/-- There is no displacement to a label that is not defined or too far away. -/
theorem displacement?_eq_none_iff :
    displacement? labels field = none ↔
      Entries.find? field.2 labels = none ∨
        ∃ target, Entries.find? field.2 labels = some target ∧
          ¬Fits ((target : Int) - (field.1 + 4)) := by
  rw [displacement?]
  cases Entries.find? field.2 labels <;> simp

/-- A displacement leads from behind its field to the label. -/
theorem displacement?_eq_some_iff {value : Int32} :
    displacement? labels field = some value ↔
      ∃ target, Entries.find? field.2 labels = some target ∧
        value.toInt + (field.1 + 4) = target := by
  simp only [displacement?, Option.bind_eq_some_iff]
  refine exists_congr fun target => and_congr_right fun _ => ?_
  constructor
  · intro h
    split at h
    next hfits =>
      cases h
      rw [toInt_ofInt_of_fits hfits]
      omega
    next => cases h
  · intro h
    have hvalue : (target : Int) - (field.1 + 4) = value.toInt := by omega
    have hfits : Fits value.toInt := ⟨value.le_toInt, value.toInt_lt⟩
    rw [hvalue, if_pos hfits, Int32.ofInt_toInt]

/-- A field that can be filled is filled, and patching goes on with the others. -/
theorem patchFields_cons_of_some {value : Int32} (h : displacement? labels field = some value) :
    patchFields labels code (field :: fields) =
      patchFields labels (overwrite code field.1 (bytes32 value)) fields := by
  obtain ⟨offset, label⟩ := field
  simp only [displacement?, Option.bind_eq_some_iff] at h
  obtain ⟨target, hfind, hvalue⟩ := h
  split at hvalue
  next hfits =>
    cases hvalue
    simp only [patchFields, hfind]
    rw [if_neg ((fits_iff _).mp hfits)]
  next => cases hvalue

/-- Patching stops at the first field that cannot be filled. -/
theorem patchFields_cons_of_none (h : displacement? labels field = none) (code : List UInt8)
    (fields : List (Nat × String)) :
    ∃ error, patchFields labels code (field :: fields) = (.error error, code) := by
  obtain ⟨offset, label⟩ := field
  simp only [displacement?] at h
  simp only [patchFields]
  cases hfind : Entries.find? label labels with
  | none => exact ⟨_, rfl⟩
  | some target =>
    rw [hfind, Option.bind_some] at h
    have hfar : ¬Fits ((target : Int) - (offset + 4)) := by
      intro hfits
      rw [if_pos hfits] at h
      cases h
    rw [fits_iff, not_not] at hfar
    simp only [if_pos hfar]
    exact ⟨_, rfl⟩

/-- Patching succeeds exactly if every field can be filled. -/
theorem patchFields_ok_iff :
    (patchFields labels code fields).1 = .ok () ↔
      ∀ field ∈ fields, (displacement? labels field).isSome = true := by
  induction fields generalizing code with
  | nil => simp [patchFields]
  | cons field fields ih =>
    rw [List.forall_mem_cons]
    cases hvalue : displacement? labels field with
    | none =>
      obtain ⟨error, herror⟩ := patchFields_cons_of_none hvalue code fields
      simp [herror]
    | some value =>
      rw [patchFields_cons_of_some hvalue, ih]
      simp

section Layout

variable (hwithin : ∀ field ∈ fields, field.1 + 4 ≤ code.length)

include hwithin

/-- Filling fields keeps the length of the code. -/
theorem length_patchFields : (patchFields labels code fields).2.length = code.length := by
  induction fields generalizing code with
  | nil => rfl
  | cons field fields ih =>
    rw [List.forall_mem_cons] at hwithin
    cases hvalue : displacement? labels field with
    | none =>
      obtain ⟨error, herror⟩ := patchFields_cons_of_none hvalue code fields
      rw [herror]
    | some value =>
      have hlength := length_overwrite_field hwithin.1 value
      rw [patchFields_cons_of_some hvalue, ih (by rw [hlength]; exact hwithin.2), hlength]

/-- Patching leaves alone what is outside of all fields, whether it succeeds or not. -/
theorem getElem?_patchFields {index : Nat}
    (houtside : ∀ field ∈ fields, index < field.1 ∨ field.1 + 4 ≤ index) :
    (patchFields labels code fields).2[index]? = code[index]? := by
  induction fields generalizing code with
  | nil => rfl
  | cons field fields ih =>
    rw [List.forall_mem_cons] at hwithin houtside
    cases hvalue : displacement? labels field with
    | none =>
      obtain ⟨error, herror⟩ := patchFields_cons_of_none hvalue code fields
      rw [herror]
    | some value =>
      have hlength := length_overwrite_field hwithin.1 value
      rw [patchFields_cons_of_some hvalue, ih (by rw [hlength]; exact hwithin.2) houtside.2,
        getElem?_overwrite_field hwithin.1 value houtside.1]

/-- Patching leaves alone a field that all others are behind of. -/
theorem field?_patchFields_of_behind (hbehind : ∀ field ∈ fields, offset + 4 ≤ field.1) :
    field? (patchFields labels code fields).2 offset = field? code offset := by
  refine field?_congr fun index _ hindex => ?_
  refine getElem?_patchFields hwithin fun field hfield => .inl ?_
  exact hindex.trans_le (hbehind field hfield)

/-- What patching leaves in each of the fields, which do not overlap and stand in the order of their
offsets. A field is filled if it and every field before it can be filled; otherwise patching has
stopped before it could write there. -/
theorem field?_patchFields (hapart : fields.Pairwise fun first second => first.1 + 4 ≤ second.1)
    (hmem : field ∈ fields) :
    field? (patchFields labels code fields).2 field.1 =
      if ∀ other ∈ fields, other.1 ≤ field.1 → (displacement? labels other).isSome = true then
        displacement? labels field
      else field? code field.1 := by
  induction fields generalizing code with
  | nil => cases hmem
  | cons first fields ih =>
    rw [List.forall_mem_cons] at hwithin
    rw [List.pairwise_cons] at hapart
    cases hvalue : displacement? labels first with
    | none =>
      -- The first field stops the patch, and it is not behind any of the others.
      have hfirst : first.1 ≤ field.1 := by
        rcases List.mem_cons.mp hmem with rfl | hrest
        · exact le_rfl
        · exact (Nat.le_add_right _ 4).trans (hapart.1 field hrest)
      obtain ⟨error, herror⟩ := patchFields_cons_of_none hvalue code fields
      rw [herror, if_neg]
      intro hfilled
      have hsome := hfilled first List.mem_cons_self hfirst
      rw [hvalue] at hsome
      cases hsome
    | some value =>
      have hwithin' : ∀ field ∈ fields,
          field.1 + 4 ≤ (overwrite code first.1 (bytes32 value)).length := by
        rw [length_overwrite_field hwithin.1]
        exact hwithin.2
      rw [patchFields_cons_of_some hvalue]
      rcases List.mem_cons.mp hmem with rfl | hrest
      · -- No other field is up to this one, so it is filled and stays as it is.
        rw [field?_patchFields_of_behind hwithin' hapart.1, field?_overwrite hwithin.1, if_pos,
          hvalue]
        intro other hother hle
        rcases List.mem_cons.mp hother with rfl | hother
        · rw [hvalue]
          rfl
        · have := hapart.1 other hother
          omega
      · -- Filling the first field has not touched this one.
        have hsame : field? (overwrite code first.1 (bytes32 value)) field.1 =
            field? code field.1 :=
          field?_congr fun index hindex _ =>
            getElem?_overwrite_field hwithin.1 value (.inr ((hapart.1 field hrest).trans hindex))
        rw [ih hwithin' hapart.2 hrest, hsame]
        refine if_congr ?_ rfl rfl
        simp [hvalue]

end Layout

end CodeBuffer

/-! ### Directives -/

/-- What can be asked of a buffer. -/
inductive Directive
  /-- Appends bytes. -/
  | emit (bytes : List UInt8)
  /-- Defines a label where the code ends. -/
  | define (label : String)
  /-- Appends a reference to a label. -/
  | refer (label : String)
  /-- Fills the pending fields. -/
  | patch
  deriving DecidableEq, Repr

namespace Directive

/-- The bytes that a directive appends. -/
def bytes : Directive → List UInt8
  | emit bytes => bytes
  | refer _ => littleEndian 4 0
  | define _ | patch => []

/-- The length of the code that directives build. -/
def extent (directives : List Directive) : Nat := (directives.flatMap bytes).length

@[simp]
theorem extent_append (directives more : List Directive) :
    extent (directives ++ more) = extent directives + extent more := by
  simp [extent]

@[simp]
theorem extent_cons (directive : Directive) (directives : List Directive) :
    extent (directive :: directives) = directive.bytes.length + extent directives := by
  simp [extent]

@[simp]
theorem extent_nil : extent [] = 0 := rfl

/-- A directive was given where the code had so many bytes, and another was not given since. -/
def GivenAt (directive stop : Directive) (directives : List Directive) (offset : Nat) : Prop :=
  ∃ before after, directives = before ++ directive :: after ∧ stop ∉ after ∧ extent before = offset

/-- A reference to the label was emitted at the offset. -/
def RefersAt (directives : List Directive) (offset : Nat) (label : String) : Prop :=
  ∃ before after, directives = before ++ refer label :: after ∧ extent before = offset

/-- A reference to the label was emitted at the offset, and nothing was patched since. -/
def AwaitsAt (directives : List Directive) (offset : Nat) (label : String) : Prop :=
  GivenAt (refer label) patch directives offset

/-- The label was last defined at the offset. -/
def LastDefinedAt (directives : List Directive) (label : String) (target : Nat) : Prop :=
  GivenAt (define label) (define label) directives target

/-- The number leads from the end of the field at the offset to where the label was last defined. -/
def Leads (directives : List Directive) (offset : Nat) (label : String) (value : Int32) : Prop :=
  ∃ target, LastDefinedAt directives label target ∧ value.toInt + (offset + 4) = target

variable {directives before after : List Directive} {directive last stop : Directive}
  {offset target : Nat} {label : String}

theorem not_givenAt_nil : ¬GivenAt directive stop [] offset := by
  rintro ⟨before, after, hsplit, -⟩
  simp at hsplit

/-- What one more directive does to the places where directives were given. -/
theorem givenAt_concat :
    GivenAt directive stop (directives ++ [last]) offset ↔
      last = directive ∧ extent directives = offset ∨
        last ≠ stop ∧ GivenAt directive stop directives offset := by
  constructor
  · rintro ⟨before, after, hsplit, hstop, rfl⟩
    rcases List.eq_nil_or_concat' after with rfl | ⟨after, final, rfl⟩
    · obtain ⟨rfl, hlast⟩ := List.append_inj' hsplit rfl
      cases hlast
      exact .inl ⟨rfl, rfl⟩
    · rw [← List.cons_append, ← List.append_assoc] at hsplit
      obtain ⟨rfl, hlast⟩ := List.append_inj' hsplit rfl
      cases hlast
      rw [List.mem_append, List.mem_singleton, not_or] at hstop
      exact .inr ⟨Ne.symm hstop.2, before, after, rfl, hstop.1, rfl⟩
  · rintro (⟨rfl, rfl⟩ | ⟨hlast, before, after, rfl, hstop, rfl⟩)
    · exact ⟨directives, [], rfl, List.not_mem_nil, rfl⟩
    · refine ⟨before, after ++ [last], by simp, ?_, rfl⟩
      rw [List.mem_append, List.mem_singleton, not_or]
      exact ⟨hstop, Ne.symm hlast⟩

/-- A label that was defined was last defined somewhere. -/
theorem exists_lastDefinedAt_iff :
    (∃ target, LastDefinedAt directives label target) ↔ define label ∈ directives := by
  induction directives using List.reverseRecOn with
  | nil => simp [LastDefinedAt, not_givenAt_nil]
  | append_singleton directives last ih =>
    rw [List.mem_append, ← ih]
    simp only [LastDefinedAt, givenAt_concat, List.mem_singleton]
    by_cases hlast : last = define label
    · simp [hlast]
    · simp [hlast, Ne.symm hlast]

/-- As long as nothing is patched, every reference waits. -/
theorem awaitsAt_iff_refersAt (h : patch ∉ directives) :
    AwaitsAt directives offset label ↔ RefersAt directives offset label := by
  constructor
  · rintro ⟨before, after, hsplit, -, hoffset⟩
    exact ⟨before, after, hsplit, hoffset⟩
  · rintro ⟨before, after, rfl, hoffset⟩
    refine ⟨before, after, rfl, fun hafter => h ?_, hoffset⟩
    simp [hafter]

end Directive

namespace CodeBuffer

open Directive

variable {directives : List Directive} {offset target : Nat} {label : String}

/-- The buffer after a directive. -/
def obey (buffer : CodeBuffer) : Directive → CodeBuffer
  | .emit bytes => buffer.emit bytes
  | .define label => buffer.defineLabel label
  | .refer label => buffer.emitReference label
  | .patch => buffer.patch.2

/-- The buffer that directives build, beginning with an empty one. -/
def built (directives : List Directive) : CodeBuffer := directives.foldl obey {}

@[simp]
theorem built_nil : built [] = {} := rfl

@[simp]
theorem built_concat (directives : List Directive) (directive : Directive) :
    built (directives ++ [directive]) = (built directives).obey directive := by
  rw [built, List.foldl_append]
  rfl

/-- Patching changes the code and the pending references, and nothing else. -/
theorem patch_snd (buffer : CodeBuffer) :
    buffer.patch.2 =
      { buffer with
        code := (patchFields buffer.labels buffer.code buffer.pending).2
        pending := [] } :=
  rfl

/-- Every directive but a patch appends its bytes. -/
theorem code_obey (buffer : CodeBuffer) {directive : Directive} (h : directive ≠ .patch) :
    (buffer.obey directive).code = buffer.code ++ directive.bytes := by
  cases directive with
  | emit | refer => rfl
  | define => exact (List.append_nil _).symm
  | patch => exact absurd rfl h

/-- The fields of a buffer stand one behind the other in its code. -/
structure InBounds (buffer : CodeBuffer) : Prop where
  /-- Every field ends before the code does. -/
  within : ∀ field ∈ buffer.pending, field.1 + 4 ≤ buffer.code.length
  /-- No two fields overlap. -/
  apart : buffer.pending.Pairwise fun first second => first.1 + 4 ≤ second.1

/-- Fields and labels stay within the code. -/
theorem InBounds.obey {buffer : CodeBuffer} (h : buffer.InBounds) (directive : Directive) :
    (buffer.obey directive).InBounds := by
  cases directive with
  | emit bytes =>
    refine ⟨fun field hfield => ?_, h.apart⟩
    have := h.within field hfield
    change _ ≤ (buffer.code ++ bytes).length
    rw [List.length_append]
    omega
  | define label => exact ⟨h.within, h.apart⟩
  | refer label =>
    constructor
    · intro field hfield
      change _ ≤ (buffer.code ++ littleEndian 4 0).length
      rw [List.length_append, length_littleEndian]
      rcases List.mem_append.mp hfield with hold | hnew
      · have := h.within field hold
        omega
      · rw [List.mem_singleton.mp hnew]
    · -- The new field begins where the code ended, behind all the others.
      refine List.pairwise_append.mpr ⟨h.apart, List.pairwise_singleton _ _, ?_⟩
      intro first hfirst second hsecond
      rw [List.mem_singleton.mp hsecond]
      exact h.within first hfirst
  | patch => exact ⟨fun _ hfield => (List.not_mem_nil hfield).elim, List.Pairwise.nil⟩

/-- They are within the code from the beginning on. -/
theorem inBounds_built (directives : List Directive) : (built directives).InBounds := by
  induction directives using List.reverseRecOn with
  | nil => exact ⟨fun _ hfield => (List.not_mem_nil hfield).elim, List.Pairwise.nil⟩
  | append_singleton directives directive ih =>
    rw [built_concat]
    exact ih.obey directive

theorem length_patch {buffer : CodeBuffer} (h : buffer.InBounds) :
    buffer.patch.2.code.length = buffer.code.length :=
  length_patchFields h.within

/-- The code is as long as the bytes of the directives are. -/
theorem length_built (directives : List Directive) :
    (built directives).code.length = extent directives := by
  induction directives using List.reverseRecOn with
  | nil => rfl
  | append_singleton directives directive ih =>
    rw [built_concat, extent_append]
    by_cases hpatch : directive = .patch
    · subst hpatch
      exact (length_patch (inBounds_built directives)).trans ih
    · rw [code_obey _ hpatch, List.length_append, ih, extent_cons, extent_nil, Nat.add_zero]

/-- The labels of a buffer are those defined, each where it was last defined. -/
theorem lastDefined_iff :
    Entries.find? label (built directives).labels = some target ↔
      LastDefinedAt directives label target := by
  induction directives using List.reverseRecOn with
  | nil => exact iff_of_false (by simp) not_givenAt_nil
  | append_singleton directives directive ih =>
    rw [LastDefinedAt, givenAt_concat, ← LastDefinedAt, ← ih, built_concat]
    cases directive with
    | define other =>
      simp only [CodeBuffer.obey, defineLabel, Entries.find?_insert, length_built, define.injEq]
      by_cases hlabel : other = label <;> simp [hlabel]
    | emit | refer | patch => simp [CodeBuffer.obey, emit, emitReference, patch_snd]

/-- The pending references of a buffer are those that were not patched since they were emitted. -/
theorem awaits_iff :
    (offset, label) ∈ (built directives).pending ↔ AwaitsAt directives offset label := by
  induction directives using List.reverseRecOn with
  | nil => exact iff_of_false List.not_mem_nil not_givenAt_nil
  | append_singleton directives directive ih =>
    rw [AwaitsAt, givenAt_concat, ← AwaitsAt, ← ih, built_concat]
    cases directive with
    | refer other =>
      simp only [CodeBuffer.obey, emitReference, length_built, List.mem_append, List.mem_singleton,
        Prod.mk.injEq, refer.injEq]
      grind
    | emit | define | patch => simp [CodeBuffer.obey, emit, defineLabel, patch_snd]

/-- A field is filled with the number that leads to its label. -/
theorem displacement?_eq_some_iff_leads {value : Int32} :
    displacement? (built directives).labels (offset, label) = some value ↔
      Leads directives offset label value := by
  rw [displacement?_eq_some_iff]
  exact exists_congr fun target => and_congr_left' lastDefined_iff

/-- There is a displacement exactly if the label leads somewhere. -/
theorem isSome_displacement?_iff :
    (displacement? (built directives).labels (offset, label)).isSome = true ↔
      ∃ value, Leads directives offset label value := by
  rw [Option.isSome_iff_exists]
  exact exists_congr fun _ => displacement?_eq_some_iff_leads

/-- No number leads to a label that is not defined or too far away. -/
theorem not_exists_leads_iff :
    (¬∃ value, Leads directives offset label value) ↔
      .define label ∉ directives ∨
        ∃ target, LastDefinedAt directives label target ∧
          ¬Fits ((target : Int) - (offset + 4)) := by
  rw [← isSome_displacement?_iff, Bool.not_eq_true, Option.isSome_eq_false_iff,
    Option.isNone_iff_eq_none, displacement?_eq_none_iff]
  refine or_congr ?_ (exists_congr fun target => and_congr_left' lastDefined_iff)
  rw [← exists_lastDefinedAt_iff, Option.eq_none_iff_forall_ne_some, not_exists]
  exact forall_congr' fun target => not_congr lastDefined_iff

/-- A patch succeeds exactly if every reference that waits for it can be resolved. -/
theorem patch_ok_iff :
    (built directives).patch.1 = .ok () ↔
      ∀ offset label, AwaitsAt directives offset label →
        ∃ value, Leads directives offset label value := by
  simp only [← awaits_iff, ← isSome_displacement?_iff]
  exact patchFields_ok_iff.trans Prod.forall

/-- References to labels are resolved correctly. Code is built by any directives before the first
patch. The patch fails exactly if some reference is to a label that is not defined, or whose
distance does not have 32 bits. If it succeeds, the code is as long as before, the number in every
field leads from the end of the field to where its label was last defined, and every byte outside of
the fields is as before. -/
theorem patch_resolves (h : .patch ∉ directives) :
    ((∃ error, (built directives).patch.1 = .error error) ↔
      ∃ offset label, RefersAt directives offset label ∧
        (.define label ∉ directives ∨
          ∃ target, LastDefinedAt directives label target ∧
            ¬Fits ((target : Int) - (offset + 4)))) ∧
    ((built directives).patch.1 = .ok () →
      (built directives).patch.2.code.length = (built directives).code.length ∧
      (∀ offset label, RefersAt directives offset label →
        ∃ value target, field? (built directives).patch.2.code offset = some value ∧
          LastDefinedAt directives label target ∧ value.toInt + (offset + 4) = target) ∧
      ∀ index, (∀ offset label, RefersAt directives offset label →
          index < offset ∨ offset + 4 ≤ index) →
        (built directives).patch.2.code[index]? = (built directives).code[index]?) := by
  have hbounds := inBounds_built directives
  -- Before the first patch all references are still to be resolved.
  have hrefers : ∀ {offset label}, RefersAt directives offset label ↔
      (offset, label) ∈ (built directives).pending := by
    intro offset label
    rw [awaits_iff, awaitsAt_iff_refersAt h]
  constructor
  · -- The patch fails iff it does not succeed.
    have herror : (∃ error, (built directives).patch.1 = .error error) ↔
        ¬(built directives).patch.1 = .ok () := by
      cases (built directives).patch.1 <;> simp
    rw [herror, patch_ok_iff]
    simp only [awaitsAt_iff_refersAt h, not_forall, exists_prop, not_exists_leads_iff]
  · intro hok
    have hall := patchFields_ok_iff.mp hok
    refine ⟨length_patch hbounds, fun offset label href => ?_, fun index houtside => ?_⟩
    · have hmem := hrefers.mp href
      obtain ⟨value, hvalue⟩ := Option.isSome_iff_exists.mp (hall _ hmem)
      obtain ⟨target, hdefined, hdistance⟩ := displacement?_eq_some_iff_leads.mp hvalue
      refine ⟨value, target, ?_, hdefined, hdistance⟩
      rw [← hvalue]
      exact (field?_patchFields hbounds.within hbounds.apart hmem).trans
        (if_pos fun other hother _ => hall other hother)
    · exact getElem?_patchFields hbounds.within fun field hfield =>
        houtside field.1 field.2 (hrefers.mpr hfield)

/-- A jump forward over a byte and a jump back to the beginning. The label of the first jump is
defined twice behind it. -/
def twoJumps : List Directive :=
  [.define "start", .emit [0xE9], .refer "end", .define "end", .emit [0x90], .emit [0xE9],
    .refer "start", .define "end"]

/-- A label that is defined twice is resolved to its last definition. -/
theorem patch_resolves_twoJumps :
    .patch ∉ twoJumps ∧ (built twoJumps).patch.1 = .ok () ∧
    RefersAt twoJumps 1 "end" ∧
    ∃ value target, field? (built twoJumps).patch.2.code 1 = some value ∧
      LastDefinedAt twoJumps "end" target ∧ value.toInt + (1 + 4) = target := by
  have hpatch : .patch ∉ twoJumps := by decide
  have hok : (built twoJumps).patch.1 = .ok () := by decide +kernel
  have hrefers : RefersAt twoJumps 1 "end" := ⟨twoJumps.take 2, twoJumps.drop 3, rfl, rfl⟩
  exact ⟨hpatch, hok, hrefers, ((patch_resolves hpatch).2 hok).2.1 1 "end" hrefers⟩

end CodeBuffer

end StackMachine.Native
