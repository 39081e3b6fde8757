import Mathlib.Data.List.Induction
import StackMachine.Proofs.Native.Patching

/-!
# Patching more than once

A buffer may be patched several times, and some of the patches may fail. Every patch takes all
pending references, also one that fails at the first of them. So a reference has one chance: the
first patch behind it fills its field, or drops the reference for good. Its field is zero until then
and stays as that patch has left it.

Which of the two happens is decided by the references that wait together. They are filled in the
order of their offsets up to the first that cannot be resolved, and the others are dropped with it.

A patch that succeeds therefore says nothing about the references of earlier patches. It means that
nothing is left unresolved only if none of the earlier patches has failed.

## Main definitions

* `Directive.Reaches`: a patch gets as far as the field at an offset.

## Main results

* `CodeBuffer.field?_of_awaits`: a field is zero as long as its reference waits.
* `CodeBuffer.field?_patched`: what the first patch behind a reference leaves in its field.
* `CodeBuffer.field?_settled`: nothing changes a field behind that patch.
* `CodeBuffer.one_chance`: what patching several times leaves in every field.
-/

namespace StackMachine.Native

namespace Directive

variable {directives later : List Directive} {offset : Nat} {label : String}

/-- A patch gets as far as the field at the offset: every reference that waits up to there can be
resolved. -/
def Reaches (directives : List Directive) (offset : Nat) : Prop :=
  ∀ earlier label, AwaitsAt directives earlier label → earlier ≤ offset →
    ∃ value, Leads directives earlier label value

/-- Only references behind the last patch wait. -/
theorem extent_le_of_awaitsAt (h : AwaitsAt (directives ++ patch :: later) offset label) :
    extent directives ≤ offset := by
  obtain ⟨before, after, hsplit, hpatch, rfl⟩ := h
  rcases List.append_eq_append_iff.mp hsplit with ⟨middle, rfl, -⟩ | ⟨middle, rfl, hrest⟩
  · rw [extent_append]
    omega
  · -- The reference would stand before the patch.
    cases middle with
    | nil => simp at hrest
    | cons first middle =>
      rw [List.cons_append, List.cons.injEq] at hrest
      exact absurd (by simp [hrest.2]) hpatch

/-- No reference waits directly behind a patch. -/
theorem not_awaitsAt_patch : ¬AwaitsAt (directives ++ [patch]) offset label := by
  rw [AwaitsAt, givenAt_concat]
  simp

/-- A reference waits for the first patch behind it. -/
theorem RefersAt.exists_awaitsAt (h : RefersAt directives offset label) :
    AwaitsAt directives offset label ∨
      ∃ call later, directives = call ++ patch :: later ∧ AwaitsAt call offset label := by
  obtain ⟨before, after, rfl, rfl⟩ := h
  by_cases hpatch : patch ∈ after
  · obtain ⟨items, later, rfl, hitems⟩ := List.eq_append_cons_of_mem hpatch
    exact .inr ⟨before ++ refer label :: items, later, by simp, before, items, rfl, hitems, rfl⟩
  · exact .inl ⟨before, after, rfl, hpatch, rfl⟩

end Directive

namespace CodeBuffer

open Directive

variable {directives call later : List Directive} {offset : Nat} {label : String}

theorem offset_le_of_awaits (h : AwaitsAt directives offset label) :
    offset + 4 ≤ (built directives).code.length :=
  (inBounds_built directives).within _ (awaits_iff.mpr h)

/-- A field is zero as long as its reference waits. -/
theorem field?_of_awaits (h : AwaitsAt directives offset label) :
    field? (built directives).code offset = some 0 := by
  induction directives using List.reverseRecOn with
  | nil => exact (not_givenAt_nil h).elim
  | append_singleton directives last ih =>
    rw [AwaitsAt, givenAt_concat] at h
    rw [built_concat]
    rcases h with ⟨rfl, rfl⟩ | ⟨hlast, hawaits⟩
    · -- The reference was emitted just now, with zeros for its field.
      have hdrop : ((built directives).obey (.refer label)).code.drop (extent directives) =
          bytes32 0 ++ [] := by
        rw [code_obey _ (by simp), ← length_built, List.drop_left]
        rfl
      exact field?_of_drop hdrop
    · rw [code_obey _ hlast, field?_append (offset_le_of_awaits hawaits)]
      exact ih hawaits

/-- What the first patch behind a reference leaves in its field: the number that leads to the label
if the patch gets as far as the field, and otherwise the zero that was there. -/
theorem field?_patched (h : AwaitsAt directives offset label) :
    (Reaches directives offset → ∃ value, Leads directives offset label value ∧
      field? (built (directives ++ [Directive.patch])).code offset = some value) ∧
    (¬Reaches directives offset →
      field? (built (directives ++ [Directive.patch])).code offset = some 0) := by
  have hbounds := inBounds_built directives
  have hmem := awaits_iff.mpr h
  have hfield := @field?_patchFields (built directives).code (built directives).labels _ _
    hbounds.within hbounds.apart hmem
  have hreaches : (∀ other ∈ (built directives).pending, other.1 ≤ offset →
      (displacement? (built directives).labels other).isSome = true) ↔
        Reaches directives offset := by
    simp only [Reaches, ← awaits_iff, ← isSome_displacement?_iff, Prod.forall]
  rw [built_concat]
  refine ⟨fun hyes => ?_, fun hno => ?_⟩
  · obtain ⟨value, hvalue⟩ := hyes offset label h le_rfl
    refine ⟨value, hvalue, ?_⟩
    rw [← displacement?_eq_some_iff_leads.mpr hvalue]
    exact hfield.trans (if_pos (hreaches.mpr hyes))
  · rw [← field?_of_awaits h]
    exact hfield.trans (if_neg (mt hreaches.mp hno))

/-- Nothing changes a field behind the first patch that its reference has met: later fields are
behind it. -/
theorem field?_settled (h : AwaitsAt call offset label) (later : List Directive) :
    field? (built (call ++ Directive.patch :: later)).code offset =
      field? (built (call ++ [Directive.patch])).code offset := by
  have hend : offset + 4 ≤ extent call := by
    rw [← length_built]
    exact offset_le_of_awaits h
  induction later using List.reverseRecOn with
  | nil => rfl
  | append_singleton later last ih =>
    rw [← ih, ← List.cons_append, ← List.append_assoc, built_concat]
    by_cases hlast : last = .patch
    · subst hlast
      refine field?_patchFields_of_behind (inBounds_built _).within fun field hfield => ?_
      exact hend.trans (extent_le_of_awaitsAt (awaits_iff.mp hfield))
    · rw [code_obey _ hlast, field?_append]
      rw [length_built, extent_append]
      omega

/-- What has become of a reference after the first patch behind it, whatever was done later. -/
theorem field?_after_patch (h : AwaitsAt call offset label) (later : List Directive) :
    (Reaches call offset → ∃ value, Leads call offset label value ∧
      field? (built (call ++ Directive.patch :: later)).code offset = some value) ∧
    (¬Reaches call offset →
      field? (built (call ++ Directive.patch :: later)).code offset = some 0) := by
  rw [field?_settled h later]
  exact field?_patched h

/-- If no patch has failed, every reference before the last patch leads to its label. -/
theorem exists_leads_of_ok
    (hok : ∀ call later, directives = call ++ Directive.patch :: later →
      (built call).patch.1 = .ok ())
    (hsplit : directives = call ++ Directive.patch :: later) (h : AwaitsAt call offset label) :
    ∃ value, Leads call offset label value ∧
      field? (built directives).code offset = some value := by
  subst hsplit
  -- A patch that succeeds reaches everything that waits for it.
  have hreaches : Reaches call offset := fun earlier label hearly _ =>
    patch_ok_iff.mp (hok call later rfl) earlier label hearly
  exact (field?_after_patch h later).1 hreaches

/-- A reference has one chance. A patch succeeds exactly if every reference emitted since the patch
before it can be resolved, so a patch directly behind another succeeds whatever has become of that
one. Of the references that wait for a patch, those that it reaches get the number that leads to
their label as it is defined at that time, and the fields of the others are zero from then on,
whatever is defined or patched later. If no patch has failed so far, the next one that succeeds
leaves nothing unresolved. -/
theorem one_chance (directives : List Directive) :
    ((built directives).patch.1 = .ok () ↔
      ∀ offset label, AwaitsAt directives offset label →
        ∃ value, Leads directives offset label value) ∧
    (built (directives ++ [Directive.patch])).patch.1 = .ok () ∧
    (∀ call later offset label, directives = call ++ Directive.patch :: later →
      AwaitsAt call offset label →
        (Reaches call offset → ∃ value, Leads call offset label value ∧
          field? (built directives).code offset = some value) ∧
        (¬Reaches call offset → field? (built directives).code offset = some 0)) ∧
    ((∀ call later, directives ++ [Directive.patch] = call ++ Directive.patch :: later →
        (built call).patch.1 = .ok ()) →
      ∀ offset label, RefersAt directives offset label →
        ∃ call later value, directives ++ [Directive.patch] = call ++ Directive.patch :: later ∧
          AwaitsAt call offset label ∧ Leads call offset label value ∧
          field? (built directives).patch.2.code offset = some value) := by
  refine ⟨patch_ok_iff, ?_, ?_, ?_⟩
  · exact patch_ok_iff.mpr fun _ _ hawaits => (not_awaitsAt_patch hawaits).elim
  · rintro call later offset label rfl hawaits
    exact field?_after_patch hawaits later
  · intro hok offset label hrefers
    have hpatched : (built directives).patch.2 = built (directives ++ [Directive.patch]) := by
      rw [built_concat]
      rfl
    rw [hpatched]
    -- The first patch behind the reference is one of those before, or the last one.
    obtain ⟨call, later, hsplit, hawaits⟩ : ∃ call later,
        directives ++ [Directive.patch] = call ++ Directive.patch :: later ∧
          AwaitsAt call offset label := by
      rcases hrefers.exists_awaitsAt with hawaits | ⟨call, later, rfl, hawaits⟩
      · exact ⟨directives, [], rfl, hawaits⟩
      · exact ⟨call, later ++ [Directive.patch], List.append_assoc _ _ _, hawaits⟩
    obtain ⟨value, hleads, hfield⟩ := exists_leads_of_ok hok hsplit hawaits
    exact ⟨call, later, value, hsplit, hawaits, hleads, hfield⟩

/-- Of two references that wait for a patch, the second is to a label that is only defined behind
it. -/
def definedLate : List Directive :=
  [.define "start", .refer "start", .refer "end", .patch, .emit [0x90], .define "end"]

theorem one_chance_definedLate :
    (∃ error, (built (definedLate.take 3)).patch.1 = .error error) ∧
    (built definedLate).patch.1 = .ok () ∧
    LastDefinedAt definedLate "end" 9 ∧
    field? (built definedLate).code 4 = some 0 := by
  have hawaits : AwaitsAt (definedLate.take 3) 4 "end" :=
    ⟨definedLate.take 2, [], rfl, List.not_mem_nil, rfl⟩
  have hdefined : .define "end" ∉ definedLate.take 3 := by decide
  have hreaches : ¬Reaches (definedLate.take 3) 4 := fun hreaches => by
    obtain ⟨value, target, htarget, -⟩ := hreaches 4 "end" hawaits le_rfl
    exact hdefined (exists_lastDefinedAt_iff.mp ⟨target, htarget⟩)
  refine ⟨⟨.undefinedLabel "end", by decide +kernel⟩, by decide +kernel,
    ⟨definedLate.take 5, [], rfl, List.not_mem_nil, rfl⟩, ?_⟩
  exact ((one_chance definedLate).2.2.1 _ (definedLate.drop 4) 4 "end" rfl hawaits).2 hreaches

end CodeBuffer

end StackMachine.Native
