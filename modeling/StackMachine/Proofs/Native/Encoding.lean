import Mathlib.Algebra.Group.Nat.Defs
import StackMachine.Native.Decoder

/-!
# Machine code can be read back

Every operation is read back from its bytes, whatever follows them. So machine code has one reading,
and a sequence of operations is recovered one operation at a time.

## Main results

* `Native.takeNumber?_littleEndian`: numbers are read back from their bytes.
* `Native.takeOperands?_modrm`, `Native.takeOperands?_memory`: the operand bytes are read back.
* `Native.Operation.decode?_encode`: an operation is read back from its bytes.
-/

namespace StackMachine.Native

/-! ### Numbers -/

@[simp]
theorem length_littleEndian (count n : Nat) : (littleEndian count n).length = count := by
  induction count generalizing n with
  | zero => rfl
  | succ count ih => simp [littleEndian, ih]

/-- The bytes of a number by their places. -/
theorem littleEndian_eq_map (count n : Nat) :
    littleEndian count n =
      (List.range count).map fun index => UInt8.ofNat (n / 256 ^ index % 256) := by
  induction count generalizing n with
  | zero => rfl
  | succ count ih =>
    rw [littleEndian, ih, List.range_succ_eq_map, List.map_cons, List.map_map]
    simp [Function.comp_def, Nat.pow_succ', Nat.div_div_eq_div_mul]

/-- The first byte is the lowest. -/
theorem ofLittleEndian_cons (byte : UInt8) (bytes : List UInt8) :
    ofLittleEndian (byte :: bytes) = byte.toNat + 256 * ofLittleEndian bytes := rfl

/-- The bytes of a number denote its remainder by the power of two that they can hold. -/
theorem ofLittleEndian_littleEndian (count n : Nat) :
    ofLittleEndian (littleEndian count n) = n % 256 ^ count := by
  induction count generalizing n with
  | zero => simp [littleEndian, ofLittleEndian, Nat.mod_one]
  | succ count ih =>
    have hbyte : (UInt8.ofNat (n % 256)).toNat = n % 256 := by
      rw [UInt8.toNat_ofNat']
      omega
    rw [littleEndian, ofLittleEndian_cons, ih, hbyte, Nat.pow_succ', Nat.mod_mul]

/-- A number is read as it was written, as far as it fits. -/
theorem takeNumber?_littleEndian (count n : Nat) (rest : List UInt8) :
    takeNumber? count (littleEndian count n ++ rest) = some (n % 256 ^ count, rest) := by
  have hlength := length_littleEndian count n
  rw [takeNumber?, if_pos (by simp), List.take_left' hlength, List.drop_left' hlength,
    ofLittleEndian_littleEndian]

/-- A 32-bit immediate is read as it was written. -/
theorem takeInt32?_bytes32 (n : Int32) (rest : List UInt8) :
    takeInt32? (bytes32 n ++ rest) = some (n, rest) := by
  have hlt : n.toUInt32.toNat < 256 ^ 4 := n.toUInt32.toNat_lt
  have hback : Int32.ofNat n.toUInt32.toNat = n := by
    rw [← UInt32.toInt32_ofNat', UInt32.ofNat_toNat]
    rfl
  rw [takeInt32?, bytes32, takeNumber?_littleEndian, Nat.mod_eq_of_lt hlt, Option.map_some]
  exact congrArg (fun number => some (number, rest)) hback

theorem takeInt64?_bytes64 (n : Int64) (rest : List UInt8) :
    takeInt64? (bytes64 n ++ rest) = some (n, rest) := by
  have hlt : n.toUInt64.toNat < 256 ^ 8 := n.toUInt64.toNat_lt
  have hback : Int64.ofNat n.toUInt64.toNat = n := by
    rw [← UInt64.toInt64_ofNat', UInt64.ofNat_toNat]
    rfl
  rw [takeInt64?, bytes64, takeNumber?_littleEndian, Nat.mod_eq_of_lt hlt, Option.map_some]
  exact congrArg (fun number => some (number, rest)) hback

/-- A number that fits in a signed byte is read back from it. -/
theorem takeInt8?_littleEndian {n : Int32} (h : fitsByte n = true) (rest : List UInt8) :
    takeInt8? (littleEndian 1 n.toUInt32.toNat ++ rest) = some (n, rest) := by
  rw [fitsByte, Bool.and_eq_true, decide_eq_true_eq, decide_eq_true_eq, Int32.le_iff_toInt_le,
    Int32.le_iff_toInt_le] at h
  have hlow : (-128 : Int) ≤ n.toInt := h.1
  have hhigh : n.toInt ≤ 127 := h.2
  have hbyte : (UInt8.ofNat (n.toUInt32.toNat % 256)).toInt8.toInt32 = n := by
    have hsigned : n.toInt = (n.toUInt32.toNat : Int).bmod 4294967296 :=
      BitVec.toInt_eq_toNat_bmod n.toBitVec
    rw [← Int32.toInt_inj, Int8.toInt_toInt32, UInt8.toInt8_ofNat', Int8.toInt_ofNat']
    simp only [Int.bmod_def, Int8.size] at hsigned ⊢
    omega
  simp only [littleEndian, List.cons_append, List.nil_append, takeInt8?, hbyte]

/-! ### Registers -/

theorem Register.code_lt (r : Register) : r.code < 8 := Nat.mod_lt _ (by decide)

/-- Number and extension bit give back the register. -/
@[simp]
theorem Rex.register_code (r : Register) : Rex.register r.isExtended r.code = r := by
  cases r <;> rfl

/-- A condition is given back by its number. -/
@[simp]
theorem Condition.ofNumber_number (condition : Condition) :
    Condition.ofNumber condition.number = condition := by
  cases condition <;> rfl

theorem Condition.number_lt (condition : Condition) : condition.number < 16 := by
  cases condition <;> decide

/-- The prefix of a wide operation tells the extension bits of both registers. -/
theorem Rex.split?_rexWide (reg rm : Register) (rest : List UInt8) :
    Rex.split? (Operation.rexWide reg rm :: rest) =
      some (⟨true, reg.isExtended, rm.isExtended, true⟩, rest) := by
  rw [Operation.rexWide]
  cases reg.isExtended <;> cases rm.isExtended <;> rfl

/-- The fields of an operand byte. -/
theorem toNat_modrm {mode reg rm : Nat} (hmode : mode < 4) (hreg : reg < 8) (hrm : rm < 8) :
    (Operation.modrm mode reg rm).toNat = 64 * mode + 8 * reg + rm := by
  rw [Operation.modrm, UInt8.toNat_ofNat']
  omega

/-- An operand byte that names a register, with any number in its register field. -/
theorem takeOperands?_field {field : Nat} (hfield : field < 8) (extended : Bool) (rm : Register)
    (wide present : Bool) (rest : List UInt8) :
    takeOperands? ⟨wide, extended, rm.isExtended, present⟩
        (Operation.modrm 3 field rm.code :: rest) =
      some (⟨field, Rex.register extended field, .register rm⟩, rest) := by
  have hrm := rm.code_lt
  have hbyte := toNat_modrm (by decide : 3 < 4) hfield hrm
  simp only [takeOperands?, hbyte]
  have hmode : (64 * 3 + 8 * field + rm.code) / 64 = 3 := by omega
  have hfield' : (64 * 3 + 8 * field + rm.code) / 8 % 8 = field := by omega
  have hcode : (64 * 3 + 8 * field + rm.code) % 8 = rm.code := by omega
  rw [hmode, hfield', hcode, if_pos rfl, Rex.register_code]

/-- Two registers are read as they were written. -/
theorem takeOperands?_modrm (reg rm : Register) (wide present : Bool) (rest : List UInt8) :
    takeOperands? ⟨wide, reg.isExtended, rm.isExtended, present⟩
        (Operation.modrm 3 reg.code rm.code :: rest) =
      some (⟨reg.code, reg, .register rm⟩, rest) := by
  rw [takeOperands?_field reg.code_lt, Rex.register_code]

/-- The operand bytes of a place in memory, up to the displacement that the mode asks for. -/
theorem takeOperands?_place {mode : Nat} (reg base : Register) (wide present : Bool)
    (tail : List UInt8) (hmode : mode < 3) (hbase : ¬(mode = 0 ∧ base.code = 5)) :
    takeOperands? ⟨wide, reg.isExtended, base.isExtended, present⟩
        (Operation.modrm mode reg.code base.code ::
          ((if base.code = 4 then [0x24] else []) ++ tail)) =
      (takeDisp? mode tail).map fun (disp, rest) => (⟨reg.code, reg, .memory base disp⟩, rest) := by
  have hreg := reg.code_lt
  have hrm := base.code_lt
  have hbyte := toNat_modrm (Nat.lt_succ_of_lt hmode) hreg hrm
  simp only [takeOperands?, hbyte]
  have hmode' : (64 * mode + 8 * reg.code + base.code) / 64 = mode := by omega
  have hfield : (64 * mode + 8 * reg.code + base.code) / 8 % 8 = reg.code := by omega
  have hcode : (64 * mode + 8 * reg.code + base.code) % 8 = base.code := by omega
  rw [hmode', hfield, hcode, if_neg (by omega), if_neg hbase, Rex.register_code, Rex.register_code]
  by_cases hsib : base.code = 4
  · rw [if_pos hsib, if_pos hsib]
    rfl
  · rw [if_neg hsib, if_neg hsib]
    rfl

/-- So are a register and a place in memory, whichever form its base needs. -/
theorem takeOperands?_memory (reg base : Register) (disp : Int32) (wide present : Bool)
    (rest : List UInt8) :
    takeOperands? ⟨wide, reg.isExtended, base.isExtended, present⟩
        (Operation.memory reg base disp ++ rest) =
      some (⟨reg.code, reg, .memory base disp⟩, rest) := by
  simp only [Operation.memory]
  split
  next h =>
    rw [h.1, List.cons_append, takeOperands?_place reg base wide present rest (by decide)
      (fun hzero => h.2 hzero.2)]
    rfl
  next =>
    split
    next hfits =>
      rw [List.cons_append, List.cons_append, List.append_assoc,
        takeOperands?_place reg base wide present _ (by decide) (by simp), takeDisp?,
        if_neg (by decide), if_pos rfl, takeInt8?_littleEndian hfits]
      rfl
    next =>
      rw [List.cons_append, List.cons_append, List.append_assoc,
        takeOperands?_place reg base wide present _ (by decide) (by simp), takeDisp?,
        if_neg (by decide), if_neg (by decide), takeInt32?_bytes32]
      rfl

/-! ### Operations -/

namespace Operation

/-- Behind a wide REX byte an operation of 64 bits is read. -/
theorem decode?_wide (reg rm : Register) (opcode : UInt8) (rest : List UInt8) :
    decode? (rexWide reg rm :: opcode :: rest) =
      decodeWide? ⟨true, reg.isExtended, rm.isExtended, true⟩ opcode.toNat rest := by
  rw [decode?, Rex.split?_rexWide]
  rfl

/-- An opcode that is no REX byte begins an operation without 64-bit form. -/
theorem decode?_narrow {opcode : UInt8} (rest : List UInt8)
    (h : ¬(0x40 ≤ opcode.toNat ∧ opcode.toNat < 0x50)) :
    decode? (opcode :: rest) = decodeNarrow? {} opcode.toNat rest := by
  rw [decode?, Rex.split?, if_neg h]
  rfl

/-- A constant is read back from the one or four bytes that it takes. -/
theorem decode?_groupImm {extension : Nat} {operation : Register → Int32 → Operation}
    (dst : Register) (value : Int32) (rest : List UInt8)
    (h : extension = 0 ∧ operation = addImm ∨ extension = 5 ∧ operation = subImm) :
    decode? (groupImm extension dst value ++ rest) = some (operation dst value, rest) := by
  have hextension : extension < 8 := by omega
  rw [groupImm]
  split
  next hfits =>
    simp only [List.cons_append, List.nil_append, decode?_wide, decodeWide?]
    rw [takeOperands?_field hextension]
    rcases h with ⟨rfl, rfl⟩ | ⟨rfl, rfl⟩ <;> simp [takeInt8?_littleEndian hfits]
  next =>
    simp only [List.cons_append, List.nil_append, decode?_wide, decodeWide?]
    rw [takeOperands?_field hextension]
    rcases h with ⟨rfl, rfl⟩ | ⟨rfl, rfl⟩ <;> simp [takeInt32?_bytes32]

/-- Setting a byte on a condition is read as it was written, if the byte can be named. -/
theorem decodeNarrow?_setcc (condition : Condition) (dst : Register) (present : Bool)
    (rest : List UInt8) (h : (present || !needsRex dst) = true) :
    decodeNarrow? ⟨false, false, dst.isExtended, present⟩ 0x0F
        (UInt8.ofNat (0x90 + condition.number) :: modrm 3 0 dst.code :: rest) =
      some (setcc condition dst, rest) := by
  have hlt := condition.number_lt
  have hbyte : (UInt8.ofNat (0x90 + condition.number)).toNat = 0x90 + condition.number := by
    rw [UInt8.toNat_ofNat']
    omega
  simp only [decodeNarrow?, hbyte]
  rw [takeOperands?_field (by decide)]
  have hrange : 0x90 ≤ 0x90 + condition.number ∧ 0x90 + condition.number < 0xA0 := by omega
  simp [hrange, h]

/-- An operation is read back from its bytes, whatever follows them. -/
theorem decode?_encode (operation : Operation) (rest : List UInt8) :
    decode? (operation.encode ++ rest) = some (operation, rest) := by
  cases operation with
  | mov dst src =>
    simp only [encode, List.cons_append, List.nil_append, decode?_wide, decodeWide?]
    rw [takeOperands?_modrm]
    rfl
  | movImm32 dst value =>
    simp only [encode, List.cons_append, List.nil_append, decode?_wide, decodeWide?]
    rw [takeOperands?_field (by decide)]
    simp [takeInt32?_bytes32]
  -- The register is part of the opcode, so the opcode has to be recognized as one of a range.
  | movImm64 dst value =>
    have hcode := dst.code_lt
    have hbyte : (UInt8.ofNat (0xB8 + dst.code)).toNat = 0xB8 + dst.code := by
      rw [UInt8.toNat_ofNat']
      omega
    simp only [encode, List.cons_append, List.nil_append, decode?_wide, decodeWide?, hbyte]
    rw [if_neg (by omega), if_pos (by omega), takeInt64?_bytes64, Nat.add_sub_cancel_left,
      Option.map_some, Rex.register_code]
  | load dst base disp | store base disp src =>
    simp only [encode, List.cons_append, List.nil_append, decode?_wide, decodeWide?]
    rw [takeOperands?_memory]
    rfl
  | arith kind dst src =>
    simp only [encode, List.cons_append, List.nil_append, decode?_wide, decodeWide?]
    rw [takeOperands?_modrm]
    cases kind <;> rfl
  | imul dst src | movzx dst src =>
    simp only [encode, List.cons_append, List.nil_append, decode?_wide, decodeWide?]
    rw [takeOperands?_modrm]
    rfl
  | addImm dst value => exact decode?_groupImm dst value rest (.inl ⟨rfl, rfl⟩)
  | subImm dst value => exact decode?_groupImm dst value rest (.inr ⟨rfl, rfl⟩)
  | neg dst | idiv dst =>
    simp only [encode, List.cons_append, List.nil_append, decode?_wide, decodeWide?]
    rw [takeOperands?_field (by decide)]
    rfl
  | cqo => rfl
  -- A byte register may need a prefix that says nothing but that it is meant.
  | setcc condition dst =>
    have hplain := decodeNarrow?_setcc condition dst false rest
    have hrex := decodeNarrow?_setcc condition dst true rest rfl
    by_cases hneeds : needsRex dst = true
    · cases hextended : dst.isExtended <;> rw [hextended] at hrex <;>
        simpa [encode, hneeds, hextended, decode?, Rex.split?] using hrex
    · have hextended : dst.isExtended = false := by
        cases dst <;> first | rfl | exact absurd rfl hneeds
      rw [hextended] at hplain
      simpa [encode, hneeds, decode?, Rex.split?] using hplain (by simp [hneeds])
  -- The prefix depends on the register alone.
  | push src => cases src <;> rfl
  | pop dst => cases dst <;> rfl
  | call target => cases target <;> rfl
  | ret => rfl
  | jmp distance =>
    simp only [encode, List.cons_append]
    rw [decode?_narrow _ (by decide)]
    simp [decodeNarrow?, takeInt32?_bytes32]
  -- The condition is part of the opcode, as a register is above.
  | jcc condition distance =>
    have hlt := condition.number_lt
    have hbyte : (UInt8.ofNat (0x80 + condition.number)).toNat = 0x80 + condition.number := by
      rw [UInt8.toNat_ofNat']
      omega
    have hrange : 0x80 ≤ 0x80 + condition.number ∧ 0x80 + condition.number < 0x90 := by omega
    simp only [encode, List.cons_append, List.nil_append]
    rw [decode?_narrow _ (by decide)]
    simp only [decodeNarrow?, hbyte, takeInt32?_bytes32]
    simp [hrange]

end Operation

end StackMachine.Native
