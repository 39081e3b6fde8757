import Mathlib.Algebra.Divisibility.Basic
import Mathlib.Algebra.Group.Nat.Defs
import Mathlib.Order.Bounds.Defs
import Mathlib.Order.Lattice
import StackMachine.Native.Region
import StackMachine.Proofs.Native.Patching

/-!
# Executable memory is never writable

A region of executable memory is made of whole pages. It is created with zeros, written while it is
writable, and sealed once. Writes are checked against its bounds, and a sealed region is not written
any more. The host may refuse pages and may refuse to seal them; it answers every request anew.

Sizes are rounded up with machine words: the size of a page less one is added, and the bits below
the size of a page are cleared. For pages whose size is a power of two this is the least multiple of
that size that is not below the request, unless it needs more than 64 bits.

## Main definitions

* `Paging.masked`: rounding up as machine words do it.
* `Region.Call`, `Region.afterAll`: requests to a region, and the region after them.
* `Region.Replaced`: exactly the bytes of a range are replaced.

## Main results

* `Paging.roundUp_isLeast`, `Paging.toNat_masked`: rounding up gives the least multiple.
* `Region.map_eq_ok_iff`, `Region.write_eq_ok_iff`, `Region.protect_eq_ok_iff`,
  `CodeBuffer.finalize_eq_ok_iff`: exactly when the operations succeed, and with which result.
* `Region.size_afterAll`, `Region.afterAll_of_executable`: what no request changes.
* `Region.writable_xor_executable`: the guarantees of executable memory together.
-/

namespace StackMachine.Native

/-! ### Whole pages -/

namespace Paging

variable {paging : Paging} {exponent size : Nat}

/-- Rounding up gives the least multiple of the size of a page that is not below the request. -/
theorem roundUp_isLeast (hpage : 0 < paging.pageSize) (size : Nat) :
    IsLeast {n | paging.pageSize ∣ n ∧ size ≤ n} (paging.roundUp size) := by
  have hdiv := Nat.div_add_mod (size + paging.pageSize - 1) paging.pageSize
  have hmod := Nat.mod_lt (size + paging.pageSize - 1) hpage
  rw [Nat.mul_comm, ← roundUp] at hdiv
  refine ⟨⟨Dvd.intro_left _ rfl, by omega⟩, ?_⟩
  rintro other ⟨⟨count, rfl⟩, hle⟩
  -- Another multiple that is not below the request has at least as many pages.
  have hcount : (size + paging.pageSize - 1) / paging.pageSize ≤ count := by
    refine Nat.le_of_lt_succ (Nat.div_lt_of_lt_mul ?_)
    rw [Nat.mul_succ]
    omega
  rw [roundUp, Nat.mul_comm]
  exact Nat.mul_le_mul_left _ hcount

/-- Rounding up to whole pages does not make less. -/
theorem le_roundUp (hpage : 0 < paging.pageSize) (size : Nat) : size ≤ paging.roundUp size :=
  (roundUp_isLeast hpage size).1.2

/-- The least multiple has 64 bits exactly if the addition before rounding does not overflow. -/
theorem roundUp_lt_iff (hexponent : exponent < 64) (hpage : paging.pageSize = 2 ^ exponent)
    (size : Nat) :
    paging.roundUp size < addressSpace ↔ size + paging.pageSize - 1 < addressSpace := by
  have hpos : 0 < paging.pageSize := by
    rw [hpage]
    exact Nat.two_pow_pos exponent
  have hspace : paging.pageSize ∣ addressSpace := by
    rw [hpage]
    exact Nat.pow_dvd_pow 2 hexponent.le
  obtain ⟨count, hcount⟩ := hspace
  rw [roundUp, hcount, Nat.mul_comm paging.pageSize count, Nat.mul_lt_mul_right hpos,
    Nat.div_lt_iff_lt_mul hpos]

/-- Rounding up as machine words do it. -/
def masked (paging : Paging) (size : UInt64) : UInt64 :=
  (size + (UInt64.ofNat paging.pageSize - 1)) &&& ~~~(UInt64.ofNat paging.pageSize - 1)

/-- Clearing the low bits of a word rounds it down. -/
theorem and_mask (hexponent : exponent < 64) {n : Nat} (hn : n < 2 ^ 64) :
    n &&& (2 ^ 64 - 1 - (2 ^ exponent - 1)) = n / 2 ^ exponent * 2 ^ exponent := by
  have hlow : 2 ^ exponent - 1 < 2 ^ 64 :=
    (Nat.sub_le _ _).trans_lt (Nat.pow_lt_pow_right (by decide) hexponent)
  refine Nat.eq_of_testBit_eq fun bit => ?_
  -- A bit stays if it is in the word and not one of the low bits.
  have hword : n.testBit bit = true → bit < 64 := fun hbit =>
    (Nat.pow_lt_pow_iff_right (by decide)).mp ((Nat.ge_two_pow_of_testBit hbit).trans_lt hn)
  rw [Nat.sub_sub, Nat.add_comm 1, Nat.testBit_and, Nat.testBit_two_pow_sub_succ hlow,
    Nat.testBit_two_pow_sub_one, Nat.testBit_mul_two_pow, Nat.testBit_div_two_pow]
  by_cases hbit : exponent ≤ bit
  · rw [Nat.sub_add_cancel hbit]
    grind
  · simp [hbit, Nat.lt_of_not_le hbit]

/-- The masks of machine words round up, unless the addition overflows. -/
theorem toNat_masked (hexponent : exponent < 64) (hpage : paging.pageSize = 2 ^ exponent)
    (hfits : size + paging.pageSize - 1 < addressSpace) :
    (paging.masked (UInt64.ofNat size)).toNat = paging.roundUp size := by
  have hpos := Nat.two_pow_pos exponent
  have hword : 2 ^ exponent < 2 ^ 64 := Nat.pow_lt_pow_right (by decide) hexponent
  rw [hpage, addressSpace] at hfits
  have hless : (UInt64.ofNat paging.pageSize - 1).toNat = 2 ^ exponent - 1 := by
    rw [hpage, UInt64.toNat_sub_of_le, UInt64.toNat_ofNat_of_lt' hword]
    · rfl
    · rw [UInt64.le_iff_toNat_le, UInt64.toNat_ofNat_of_lt' hword]
      exact hpos
  have hsum : (UInt64.ofNat size + (UInt64.ofNat paging.pageSize - 1)).toNat =
      size + 2 ^ exponent - 1 := by
    have hsize : size < 2 ^ 64 := by omega
    rw [UInt64.toNat_add, hless, UInt64.toNat_ofNat_of_lt' hsize, Nat.mod_eq_of_lt (by omega)]
    omega
  rw [masked, UInt64.toNat_and, UInt64.toNat_not, hless, hsum, roundUp, hpage]
  exact and_mask hexponent (by omega)

end Paging

/-! ### Operations on a region -/

namespace Region

variable {paging : Paging} {region next : Region} {offset size : Nat} {data : List UInt8}

/-- A region is mapped exactly if it is not empty, its size can be rounded up, and the system
agrees. It is made of zeros. -/
theorem map_eq_ok_iff :
    map paging size = .ok region ↔
      0 < size ∧ size + paging.pageSize - 1 < addressSpace ∧
        paging.maps (paging.roundUp size) = true ∧
        region = { bytes := List.replicate (paging.roundUp size) 0 } := by
  rw [map]
  split
  next hinvalid => exact iff_of_false (by simp) (by omega)
  next hvalid =>
    have hvalid' : 0 < size ∧ size + paging.pageSize - 1 < addressSpace := by omega
    split
    next hmaps => simp [hvalid', hmaps, eq_comm]
    next hmaps => simp [hmaps]

/-- Writing succeeds exactly if the region is writable and the data are within it. -/
theorem write_eq_ok_iff :
    region.write offset data = .ok next ↔
      region.executable = false ∧ offset + data.length < addressSpace ∧
        offset + data.length ≤ region.size ∧
        next = { region with bytes := CodeBuffer.overwrite region.bytes offset data } := by
  rw [write]
  split
  next hsealed => simp [hsealed]
  next hopen =>
    split
    next hinvalid => exact iff_of_false (by simp) (by omega)
    next hvalid =>
      have hvalid' : offset + data.length < addressSpace ∧ offset + data.length ≤ region.size := by
        omega
      simp [hopen, hvalid', eq_comm]

/-- Protecting succeeds exactly if the system agrees or it was done before. -/
theorem protect_eq_ok_iff :
    region.protect paging = .ok next ↔
      (region.executable = true ∨ paging.protects region.size = true) ∧
        next = { region with executable := true } := by
  rw [protect]
  split
  next hsealed =>
    have hself : { region with executable := true } = region := by
      rw [← hsealed]
    rw [hself, Except.ok.injEq, eq_comm, and_iff_right (.inl hsealed)]
  next hopen =>
    split
    next hgranted => rw [Except.ok.injEq, eq_comm, and_iff_right (.inr hgranted)]
    next hrefused => simp [hopen, hrefused]

/-- A region yields a function exactly if it is sealed and a pointer has the size of an address. -/
theorem givesFunction_iff {pointerSize : Nat} :
    region.givesFunction pointerSize = true ↔ region.executable = true ∧ pointerSize = 8 := by
  simp [givesFunction]

end Region

namespace CodeBuffer

variable {paging : Paging} {region : Region} {buffer : CodeBuffer}

/-- Code is put into executable memory in four steps, which all have to succeed. -/
theorem finalize_steps :
    buffer.finalize paging = .ok region ↔
      buffer.patch.1 = .ok () ∧ ∃ mapped written,
        Region.map paging buffer.patch.2.code.length = .ok mapped ∧
        mapped.write 0 buffer.patch.2.code = .ok written ∧
        written.protect paging = .ok region := by
  rw [finalize]
  obtain ⟨result, patched⟩ := buffer.patch
  cases result with
  | error error => simp
  | ok =>
    dsimp only
    cases Region.map paging patched.code.length with
    | error error => simp
    | ok mapped =>
      dsimp only
      cases hwrite : mapped.write 0 patched.code <;> simp [hwrite]

/-- Code at the beginning of a region of zeros. -/
theorem overwrite_zeros (code : List UInt8) (size : Nat) :
    overwrite (List.replicate size 0) 0 code =
      code ++ List.replicate (size - code.length) 0 := by
  simp [overwrite]

/-- Putting code into executable memory succeeds exactly if it can be patched, is not empty, fits in
the address space and the host grants the pages. The region is sealed then, and holds the patched
code and zeros behind it. -/
theorem finalize_eq_ok_iff (hpage : 0 < paging.pageSize) :
    buffer.finalize paging = .ok region ↔
      buffer.patch.1 = .ok () ∧ 0 < buffer.patch.2.code.length ∧
        buffer.patch.2.code.length + paging.pageSize - 1 < addressSpace ∧
        paging.maps (paging.roundUp buffer.patch.2.code.length) = true ∧
        paging.protects (paging.roundUp buffer.patch.2.code.length) = true ∧
        region =
          { bytes := buffer.patch.2.code ++ List.replicate
              (paging.roundUp buffer.patch.2.code.length - buffer.patch.2.code.length) 0
            executable := true } := by
  rw [finalize_steps]
  refine and_congr_right fun _ => ?_
  generalize buffer.patch.2.code = code
  have hroom := Paging.le_roundUp hpage code.length
  -- Writing does not change the size, so the region that is sealed is the one that was mapped.
  have hsize : ∀ executable, Region.size
      ⟨code ++ List.replicate (paging.roundUp code.length - code.length) 0, executable⟩ =
        paging.roundUp code.length := by
    intro executable
    rw [Region.size, List.length_append, List.length_replicate]
    omega
  constructor
  · rintro ⟨mapped, written, hmap, hwrite, hprotect⟩
    obtain ⟨hpos, hspace, hmaps, rfl⟩ := Region.map_eq_ok_iff.mp hmap
    obtain ⟨-, -, -, rfl⟩ := Region.write_eq_ok_iff.mp hwrite
    obtain ⟨hgranted, rfl⟩ := Region.protect_eq_ok_iff.mp hprotect
    rw [overwrite_zeros, hsize, or_iff_right Bool.false_ne_true] at hgranted
    rw [overwrite_zeros]
    exact ⟨hpos, hspace, hmaps, hgranted, rfl⟩
  · rintro ⟨hpos, hspace, hmaps, hgranted, rfl⟩
    refine ⟨_, _, Region.map_eq_ok_iff.mpr ⟨hpos, hspace, hmaps, rfl⟩,
      Region.write_eq_ok_iff.mpr ⟨rfl, by omega, ?_, rfl⟩,
      Region.protect_eq_ok_iff.mpr ⟨.inr ?_, ?_⟩⟩
    · rw [Region.size, List.length_replicate]
      omega
    · rw [overwrite_zeros, hsize]
      exact hgranted
    · rw [overwrite_zeros]

end CodeBuffer

/-! ### Requests one after the other -/

namespace Region

variable {region next : Region} {offset : Nat} {data : List UInt8}

/-- What can be asked of a region. The host answers every request to seal it anew. -/
inductive Call
  /-- Replaces the bytes at an offset. -/
  | write (offset : Nat) (data : List UInt8)
  /-- Seals the region, if the host grants it. -/
  | protect (paging : Paging)

/-- The answer to a request. -/
def answer (region : Region) : Call → Except RegionError Region
  | .write offset data => region.write offset data
  | .protect paging => region.protect paging

/-- The region after a request. One that is rejected leaves it alone. -/
def after (region : Region) (call : Call) : Region :=
  match region.answer call with
  | .ok next => next
  | .error _ => region

/-- The region after requests one after the other. -/
def afterAll (region : Region) (calls : List Call) : Region := calls.foldl after region

theorem after_of_ok {call : Call} (h : region.answer call = .ok next) :
    region.after call = next := by
  rw [after, h]

theorem after_of_error {call : Call} {error : RegionError} (h : region.answer call = .error error) :
    region.after call = region := by
  rw [after, h]

/-- Exactly the bytes of a range are replaced by data, and nothing else about the region changes. -/
def Replaced (region next : Region) (offset : Nat) (data : List UInt8) : Prop :=
  next.executable = region.executable ∧ next.size = region.size ∧
    ∀ index, next.bytes[index]? =
      if offset ≤ index ∧ index < offset + data.length then data[index - offset]?
      else region.bytes[index]?

/-- A write that succeeds replaces exactly the bytes that it is about. -/
theorem replaced_of_write (h : region.write offset data = .ok next) :
    Replaced region next offset data := by
  obtain ⟨-, -, hroom, rfl⟩ := write_eq_ok_iff.mp h
  exact ⟨rfl, CodeBuffer.length_overwrite hroom, CodeBuffer.getElem?_overwrite hroom⟩

/-- A write is rejected exactly if the region is sealed or the range is not inside of it. -/
theorem write_rejected_iff :
    (∃ error, region.write offset data = .error error) ↔
      region.executable = true ∨ addressSpace ≤ offset + data.length ∨
        region.size < offset + data.length := by
  have hrejected : (∃ error, region.write offset data = .error error) ↔
      ¬∃ next, region.write offset data = .ok next := by
    cases region.write offset data <;> simp
  rw [hrejected]
  simp only [write_eq_ok_iff, exists_and_left, exists_eq, and_true, not_and_or, not_lt, not_le,
    Bool.not_eq_false]

/-- Sealing leaves the bytes alone, and the region is sealed after it exactly if it was before or
the host grants it. -/
theorem after_protect (region : Region) (paging : Paging) :
    (region.after (.protect paging)).bytes = region.bytes ∧
      ((region.after (.protect paging)).executable = true ↔
        region.executable = true ∨ paging.protects region.size = true) := by
  cases hanswer : region.answer (.protect paging) with
  | ok next =>
    rw [after_of_ok hanswer]
    obtain ⟨hgranted, rfl⟩ := protect_eq_ok_iff.mp hanswer
    exact ⟨rfl, iff_of_true rfl hgranted⟩
  | error error =>
    rw [after_of_error hanswer]
    refine ⟨rfl, .inl, fun hgranted => ?_⟩
    have hok := protect_eq_ok_iff.mpr ⟨hgranted, rfl⟩
    cases hanswer.symm.trans hok

/-- No request changes the size of a region. -/
theorem size_after (region : Region) (call : Call) : (region.after call).size = region.size := by
  cases call with
  | write offset data =>
    cases hanswer : region.answer (.write offset data) with
    | ok next =>
      rw [after_of_ok hanswer]
      exact (replaced_of_write hanswer).2.1
    | error error => rw [after_of_error hanswer]
  | protect paging => exact congrArg List.length (after_protect region paging).1

/-- No requests change the size of a region. -/
theorem size_afterAll (region : Region) (calls : List Call) :
    (region.afterAll calls).size = region.size := by
  induction calls generalizing region with
  | nil => rfl
  | cons call calls ih => exact (ih (region.after call)).trans (size_after region call)

/-- A sealed region rejects writes, and nothing is left to do to seal it. -/
theorem after_of_executable (h : region.executable = true) (call : Call) :
    region.after call = region := by
  cases call with
  | write offset data =>
    obtain ⟨error, herror⟩ := write_rejected_iff.mpr (.inl h)
    exact after_of_error herror
  | protect paging =>
    have hok : region.answer (.protect paging) = .ok region := by
      refine protect_eq_ok_iff.mpr ⟨.inl h, ?_⟩
      rw [← h]
    exact after_of_ok hok

/-- A sealed region stays as it is. -/
theorem afterAll_of_executable (h : region.executable = true) (calls : List Call) :
    region.afterAll calls = region := by
  induction calls with
  | nil => rfl
  | cons call calls ih =>
    change (region.after call).afterAll calls = region
    rw [after_of_executable h, ih]

/-- Executable memory is never writable, and never written out of bounds. Its size is the least
multiple of the size of a page that is not below the request, which is what machine words compute;
a region is created exactly if the request is positive, this size has 64 bits and the host grants
the pages, and it is zero. After any requests its size is the same, and a write replaces exactly the
bytes that it is about, or is rejected and changes nothing, the latter exactly if the region is
sealed or the range is not inside of it. Sealing only sets the flag. A sealed region never changes,
and only a sealed one yields a function. Code that was put into executable memory stands patched at
the beginning of a sealed region. -/
theorem writable_xor_executable {paging : Paging} {exponent : Nat} (hexponent : exponent < 64)
    (hpage : paging.pageSize = 2 ^ exponent) :
    (∀ size,
      IsLeast {n | paging.pageSize ∣ n ∧ size ≤ n} (paging.roundUp size) ∧
      (paging.roundUp size < addressSpace →
        (paging.masked (UInt64.ofNat size)).toNat = paging.roundUp size) ∧
      ∀ region, map paging size = .ok region ↔
        0 < size ∧ paging.roundUp size < addressSpace ∧
          paging.maps (paging.roundUp size) = true ∧
          region = { bytes := List.replicate (paging.roundUp size) 0 }) ∧
    (∀ size created calls, map paging size = .ok created →
      let region := created.afterAll calls
      region.size = paging.roundUp size ∧
      (∀ offset data,
        ((∃ error, region.answer (.write offset data) = .error error) ↔
          region.executable = true ∨ addressSpace ≤ offset + data.length ∨
            region.size < offset + data.length) ∧
        (∀ error, region.answer (.write offset data) = .error error →
          region.after (.write offset data) = region) ∧
        ∀ next, region.answer (.write offset data) = .ok next →
          region.after (.write offset data) = next ∧ Replaced region next offset data) ∧
      (∀ host, (region.after (.protect host)).bytes = region.bytes ∧
        ((region.after (.protect host)).executable = true ↔
          region.executable = true ∨ host.protects region.size = true)) ∧
      (region.executable = true → ∀ more, region.afterAll more = region) ∧
      ∀ pointerSize, region.givesFunction pointerSize = true ↔
        region.executable = true ∧ pointerSize = 8) ∧
    ∀ (buffer : CodeBuffer) region, buffer.finalize paging = .ok region ↔
      buffer.patch.1 = .ok () ∧ 0 < buffer.patch.2.code.length ∧
        paging.roundUp buffer.patch.2.code.length < addressSpace ∧
        paging.maps (paging.roundUp buffer.patch.2.code.length) = true ∧
        paging.protects (paging.roundUp buffer.patch.2.code.length) = true ∧
        region =
          { bytes := buffer.patch.2.code ++ List.replicate
              (paging.roundUp buffer.patch.2.code.length - buffer.patch.2.code.length) 0
            executable := true } := by
  have hpos : 0 < paging.pageSize := by
    rw [hpage]
    exact Nat.two_pow_pos exponent
  -- The check of the sum is a check of the rounded size, as pages are powers of two.
  have hfits := Paging.roundUp_lt_iff hexponent hpage
  refine ⟨fun size => ⟨Paging.roundUp_isLeast hpos size, fun hsize => ?_, fun region => ?_⟩, ?_, ?_⟩
  · exact Paging.toNat_masked hexponent hpage ((hfits size).mp hsize)
  · rw [hfits]
    exact map_eq_ok_iff
  · intro size created calls hmap
    obtain ⟨-, -, -, rfl⟩ := map_eq_ok_iff.mp hmap
    refine ⟨(size_afterAll _ calls).trans List.length_replicate, fun offset data => ?_,
      after_protect _, afterAll_of_executable, fun _ => givesFunction_iff⟩
    exact ⟨write_rejected_iff, fun error => after_of_error,
      fun next hnext => ⟨after_of_ok hnext, replaced_of_write hnext⟩⟩
  · intro buffer region
    rw [hfits]
    exact CodeBuffer.finalize_eq_ok_iff hpos

/-- A host that refuses to seal pages. -/
def unsealing : Paging := { protects := fun _ => false }

theorem writable_xor_executable_onePage :
    ({} : Paging).pageSize = 2 ^ 12 ∧ ∃ created, map {} 10 = .ok created ∧
      let region := created.afterAll [.write 4094 [0x90, 0xC3], .protect unsealing, .protect {}]
      region.size = 4096 ∧ region.executable = true ∧
      (∃ error, region.answer (.write 0 [0xC3]) = .error error) ∧
      ∀ more, region.afterAll more = region := by
  have hpage : ({} : Paging).pageSize = 2 ^ 12 := rfl
  obtain ⟨hcreate, hafter, -⟩ := writable_xor_executable (by decide) hpage
  obtain ⟨created, hmap⟩ : ∃ created, map {} 10 = .ok created :=
    ⟨_, ((hcreate 10).2.2 _).mpr ⟨by decide, by decide, by decide, rfl⟩⟩
  obtain ⟨-, -, hprotect, -⟩ :=
    hafter 10 created [.write 4094 [0x90, 0xC3], .protect unsealing] hmap
  obtain ⟨hsize, hwrite, -, hsealed, -⟩ :=
    hafter 10 created [.write 4094 [0x90, 0xC3], .protect unsealing, .protect {}] hmap
  have hexecutable := (hprotect {}).2.mpr (.inr rfl)
  exact ⟨hpage, created, hmap, hsize, hexecutable, (hwrite 0 [0xC3]).1.mpr (.inl hexecutable),
    hsealed hexecutable⟩

end Region

end StackMachine.Native
