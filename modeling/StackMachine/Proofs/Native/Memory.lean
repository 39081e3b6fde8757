import StackMachine.Proofs.Native.Encoding
import StackMachine.Native.Processor

/-!
# Words in memory

A word is stored in eight bytes. What is stored is read back, and a store leaves every word alone
that has no byte in common with it. The frame of compiled code is seen as a row of cells of eight
bytes, counted downwards from the frame pointer.

## Main definitions

* `Native.cell`: the address of a cell, from the place of the frame pointer.

## Main results

* `Native.Memory.read_write_self`, `Native.Memory.read_write_cell`: reading after a store.
* `Native.Processor.read_afterCall`: a call leaves the words at and above the stack pointer alone.
-/

namespace StackMachine.Native

namespace Memory

/-- The bytes of a word, by their number. -/
theorem toNat_byte (value : Word) {index : Nat} (h : index < 8) :
    (value >>> (8 * UInt64.ofNat index)).toUInt8.toNat = value.toNat / 256 ^ index % 256 := by
  have hshift : (8 * UInt64.ofNat index).toNat = 8 * index := by
    rw [UInt64.toNat_mul, UInt64.toNat_ofNat']
    simp
    omega
  have hsmall : 8 * index % 64 = 8 * index := Nat.mod_eq_of_lt (by omega)
  rw [UInt64.toNat_toUInt8, UInt64.toNat_shiftRight, hshift, hsmall, Nat.shiftRight_eq_div_pow,
    Nat.pow_mul]

/-- A word is read from the bytes that it is made of. -/
theorem read_of_bytes {memory : Memory} {address value : Word}
    (h : ∀ index < 8, memory (address + UInt64.ofNat index) =
      (value >>> (8 * UInt64.ofNat index)).toUInt8) : memory.read address = value := by
  have hbytes : (List.range 8).map (fun offset => memory (address + UInt64.ofNat offset)) =
      littleEndian 8 value.toNat := by
    rw [littleEndian_eq_map]
    apply List.map_congr_left
    intro index hindex
    have hlt := List.mem_range.mp hindex
    rw [h index hlt, ← UInt8.toNat_inj, toNat_byte value hlt, UInt8.toNat_ofNat']
    omega
  have hlt : value.toNat < 256 ^ 8 := value.toNat_lt
  rw [read, hbytes, ofLittleEndian_littleEndian, Nat.mod_eq_of_lt hlt, UInt64.ofNat_toNat]

/-- What is stored is read back. -/
theorem read_write_self (memory : Memory) (address value : Word) :
    (memory.write address value).read address = value := by
  apply read_of_bytes
  intro index hindex
  have hoffset : address + UInt64.ofNat index - address = UInt64.ofNat index := by
    rw [UInt64.add_comm, UInt64.add_sub_cancel]
  have hlt : UInt64.ofNat index < 8 := by
    rw [UInt64.lt_iff_toNat_lt, UInt64.toNat_ofNat']
    simp
    omega
  rw [write, hoffset, if_pos hlt]

/-- A store leaves the words alone that have no byte in common with it. -/
theorem read_write_of_apart (memory : Memory) {address other : Word} (value : Word)
    (hup : 8 ≤ (other - address).toNat) (hdown : 8 ≤ (address - other).toNat) :
    (memory.write address value).read other = memory.read other := by
  have hbytes : ∀ index < 8, memory.write address value (other + UInt64.ofNat index) =
      memory (other + UInt64.ofNat index) := by
    intro index hindex
    rw [write, if_neg]
    rw [UInt64.lt_iff_toNat_lt]
    simp only [UInt64.toNat_sub, UInt64.toNat_add, UInt64.toNat_ofNat'] at hup hdown ⊢
    have := address.toNat_lt
    have := other.toNat_lt
    simp
    omega
  rw [read, read]
  congr 2
  apply List.map_congr_left
  intro index hindex
  exact hbytes index (List.mem_range.mp hindex)

end Memory

/-! ### Cells -/

/-- The address of a cell. Cells have eight bytes and are counted downwards from an address. -/
def cell (base : Nat) (index : Int) : Word := UInt64.ofNat ((base : Int) - 8 * index).toNat

/-- The cell lies in the address space, away from its ends. -/
structure IsCell (base : Nat) (index : Int) : Prop where
  low : 8 * index ≤ base
  high : -0x1000000000000000 ≤ index
  base_lt : base < 0x4000000000000000

section Cells

variable {base : Nat} {index other : Int}

theorem toNat_cell (h : IsCell base index) :
    ((cell base index).toNat : Int) = base - 8 * index := by
  obtain ⟨hlow, hhigh, hbase⟩ := h
  rw [cell, UInt64.toNat_ofNat']
  omega

theorem cell_eq_iff (h : IsCell base index) {address : Word} :
    address = cell base index ↔ (address.toNat : Int) = base - 8 * index := by
  rw [← UInt64.toNat_inj]
  have := toNat_cell h
  omega

/-- The word on top of the stack grows downwards. -/
theorem cell_sub_eight (h : IsCell base index) (hnext : IsCell base (index + 1)) :
    cell base index - 8 = cell base (index + 1) := by
  have hcell := toNat_cell h
  have hlt := (cell base index).toNat_lt
  have hlow := hnext.low
  rw [cell_eq_iff hnext, UInt64.toNat_sub]
  simp
  omega

/-- The cell before a cell is eight bytes further up. -/
theorem cell_add_eight (h : IsCell base index) (hprevious : IsCell base (index - 1)) :
    cell base index + 8 = cell base (index - 1) := by
  have hcell := toNat_cell h
  have hhigh := hprevious.high
  have hbase := h.base_lt
  rw [cell_eq_iff hprevious, UInt64.toNat_add]
  simp
  omega

/-- The cell at a displacement from the first. -/
theorem cell_add_disp (hzero : IsCell base 0) (h : IsCell base index) {disp : Int32}
    (hdisp : disp.toInt = -8 * index) :
    cell base 0 + disp.toInt64.toUInt64 = cell base index := by
  have hcell := toNat_cell hzero
  have hword : disp.toInt =
      ((disp.toInt64.toUInt64.toNat : Nat) : Int).bmod 0x10000000000000000 := by
    rw [← Int32.toInt_toInt64]
    exact BitVec.toInt_eq_toNat_bmod disp.toInt64.toBitVec
  have hlt := disp.toInt64.toUInt64.toNat_lt
  obtain ⟨hlow, hhigh, hbase⟩ := h
  rw [cell_eq_iff ⟨hlow, hhigh, hbase⟩, UInt64.toNat_add]
  rw [Int.bmod_def] at hword
  omega

/-- A store into one cell leaves the others alone. -/
theorem Memory.read_write_cell (memory : Memory) (value : Word) (h : IsCell base index)
    (hother : IsCell base other) (hne : index ≠ other) :
    (memory.write (cell base index) value).read (cell base other) =
      memory.read (cell base other) := by
  have hcell := toNat_cell h
  have hcell' := toNat_cell hother
  have hlt := (cell base index).toNat_lt
  have hlt' := (cell base other).toNat_lt
  obtain ⟨hlow, hhigh, hbase⟩ := h
  obtain ⟨hlow', hhigh', -⟩ := hother
  apply read_write_of_apart
  · rw [UInt64.toNat_sub]
    omega
  · rw [UInt64.toNat_sub]
    omega

end Cells

namespace Processor

/-- A call leaves the words alone that lie at or above the stack pointer. -/
theorem read_afterCall (cpu : Processor) (residue : Residue) {base : Nat} {index : Int}
    (h : IsCell base index)
    (habove : ((cpu.registers .rsp).toNat : Int) ≤ base - 8 * index) :
    (cpu.afterCall residue).memory.read (cell base index) = cpu.memory.read (cell base index) := by
  have hcell := toNat_cell h
  rw [Memory.read, Memory.read]
  congr 2
  apply List.map_congr_left
  intro offset hoffset
  have hlt := List.mem_range.mp hoffset
  obtain ⟨hlow, hhigh, hbase⟩ := h
  rw [afterCall]
  dsimp only
  rw [if_neg]
  rw [UInt64.lt_iff_toNat_lt, UInt64.toNat_add, UInt64.toNat_ofNat']
  omega

end Processor

end StackMachine.Native
