import FrailCPU.RefCpu.Port

/-!
# The values that the states compute

The sums, shifts, addresses and lanes of the implementers against the instruction set, one
lemma for each of them.
-/

namespace FrailCPU.RefCpu

open Instr ByteMemory DCache

section Arithmetic

variable (s t : Word)

theorem extractLsb'_add (x y : BitVec 33) :
    (x + y).extractLsb' 0 32 = x.extractLsb' 0 32 + y.extractLsb' 0 32 := by
  apply BitVec.eq_of_toNat_eq
  simp [BitVec.extractLsb'_toNat, BitVec.toNat_add]

theorem extractLsb'_sub (x y : BitVec 33) :
    (x - y).extractLsb' 0 32 = x.extractLsb' 0 32 - y.extractLsb' 0 32 := by
  apply BitVec.eq_of_toNat_eq
  have := x.isLt
  have := y.isLt
  simp only [BitVec.extractLsb'_toNat, BitVec.toNat_sub, Nat.shiftRight_zero]
  omega

theorem extractLsb'_signExtend (x : Word) : (x.signExtend 33).extractLsb' 0 32 = x := by
  apply BitVec.eq_of_getLsbD_eq
  intro i hi
  rw [BitVec.getLsbD_extractLsb', BitVec.getLsbD_signExtend]
  simp [hi]
  omega

theorem signExtend_imm (x : BitVec 16) : x.signExtend 33 = (x.signExtend 32).signExtend 33 := by
  apply BitVec.eq_of_toInt_eq
  rw [BitVec.toInt_signExtend_of_le (by omega), BitVec.toInt_signExtend_of_le (by omega),
    BitVec.toInt_signExtend_of_le (by omega)]

/-- The low bits of the wide sum are the sum, and its top bits tell whether it fits. -/
theorem overflows_add :
    overflows (s.signExtend 33 + t.signExtend 33) = true ↔ ¬ FitsSigned (s.toInt + t.toInt) :=
  aluOverflow_add s t

theorem overflows_sub :
    overflows (s.signExtend 33 - t.signExtend 33) = true ↔ ¬ FitsSigned (s.toInt - t.toInt) :=
  aluOverflow_sub s t

theorem sum_eq : (s.signExtend 33 + t.signExtend 33).extractLsb' 0 32 = s + t := by
  rw [extractLsb'_add, extractLsb'_signExtend, extractLsb'_signExtend]

theorem difference_eq : (s.signExtend 33 - t.signExtend 33).extractLsb' 0 32 = s - t := by
  rw [extractLsb'_sub, extractLsb'_signExtend, extractLsb'_signExtend]

theorem signedCmp_eq : signedCmp s t = if s.toInt < t.toInt then 1#32 else 0#32 := by
  simp [signedCmp, BitVec.slt]

theorem unsignedCmp_eq : unsignedCmp s t = if s.toNat < t.toNat then 1#32 else 0#32 := by
  simp [unsignedCmp, BitVec.ult]

theorem sle_zero : s.sle 0#32 = decide (s.toInt ≤ 0) := by simp [BitVec.sle]

theorem zero_slt : (0#32).slt s = decide (0 < s.toInt) := by simp [BitVec.slt]

theorem slt_zero : s.slt 0#32 = decide (s.toInt < 0) := by simp [BitVec.slt]

theorem zero_sle : (0#32).sle s = decide (0 ≤ s.toInt) := by simp [BitVec.sle]

/-- The offset of a branch, shifted before it is extended. -/
theorem offset_eq (x : BitVec 16) :
    (x ++ 0#2 : BitVec 18).signExtend 32 = BitVec.ofInt 32 (4 * x.toInt) := by
  have h : (x ++ 0#2 : BitVec 18).toInt = 4 * x.toInt := by
    have := x.isLt
    rw [BitVec.toInt_eq_toNat_cond, BitVec.toInt_eq_toNat_cond, BitVec.toNat_append,
      Nat.shiftLeft_eq]
    simp only [BitVec.toNat_zero, Nat.or_zero]
    split <;> split <;> omega
  rw [BitVec.signExtend, h]

end Arithmetic

section Lanes

/-- Only the data under the strobes counts. -/
theorem maskedWrite_congr {strobe : Strobe} {old a b : Word}
    (h : ∀ l, l < 4 → strobe.getLsbD l = true → byteOf a l = byteOf b l) :
    Lanes.maskedWrite (getMask strobe) old a = Lanes.maskedWrite (getMask strobe) old b := by
  apply eq_of_byteOf
  intro l hl
  rw [byteOf_maskedWrite _ _ _ hl, byteOf_maskedWrite _ _ _ hl]
  split
  case isTrue hs => exact h l hl hs
  case isFalse => rfl

theorem bitVec2_cases (x : BitVec 2) : x = 0#2 ∨ x = 1#2 ∨ x = 2#2 ∨ x = 3#2 := by
  revert x
  decide

theorem byteOf_repB (v : Word) {l : ℕ} (hl : l < 4) : byteOf (repB v) l = v.extractLsb' 0 8 := by
  apply BitVec.eq_of_getLsbD_eq
  intro i hi
  rw [getLsbD_byteOf _ _ _ hi]
  simp only [repB, BitVec.getLsbD_append, BitVec.getLsbD_extractLsb']
  interval_cases l <;> grind

theorem byteOf_repH (v : Word) {l : ℕ} (hl : l < 4) :
    byteOf (repH v) l = v.extractLsb' (8 * (l % 2)) 8 := by
  apply BitVec.eq_of_getLsbD_eq
  intro i hi
  rw [getLsbD_byteOf _ _ _ hi]
  simp only [repH, BitVec.getLsbD_append, BitVec.getLsbD_extractLsb']
  interval_cases l <;> grind

variable (m : Memory) (v : Word) {a : Address}

/-- A store of the repeated byte is the store of the byte. -/
theorem store_byte :
    setWord m a (Lanes.maskedWrite (getMask (strbB (a.extractLsb' 0 2))) (ByteMemory.word m a)
      (repB v)) = put (AccessKind.byte.place a) v m := by
  rw [← AccessKind.writedata_eq_put (k := .byte) (a := a) id]
  congr 1
  rcases bitVec2_cases (a.extractLsb' 0 2) with h | h | h | h
  all_goals
    rw [h]
    apply maskedWrite_congr
    intro l hl hs
    rw [byteOf_repB v hl]
    apply BitVec.eq_of_getLsbD_eq
    intro i hi
    rw [getLsbD_byteOf _ _ _ hi]
    interval_cases l <;> simp [strbB] at hs
    simp only [writedata, AccessKind.msize, BitVec.getLsbD_append, BitVec.getLsbD_setWidth,
      BitVec.getLsbD_extractLsb']
    grind

theorem store_half (h : ¬ AccessKind.half.Misaligned a) :
    setWord m a (Lanes.maskedWrite (getMask (strbH (a.extractLsb' 0 2))) (ByteMemory.word m a)
      (repH v)) = put (AccessKind.half.place a) v m := by
  rw [← AccessKind.writedata_eq_put h]
  congr 1
  rcases bitVec2_cases (a.extractLsb' 0 2) with h | h | h | h
  all_goals
    rw [h]
    apply maskedWrite_congr
    intro l hl hs
    rw [byteOf_repH v hl]
    apply BitVec.eq_of_getLsbD_eq
    intro i hi
    rw [getLsbD_byteOf _ _ _ hi]
    interval_cases l <;> simp [strbH] at hs
    all_goals
      simp only [writedata, AccessKind.msize, BitVec.getLsbD_append, BitVec.getLsbD_setWidth,
        BitVec.getLsbD_extractLsb']
      grind

theorem store_word (h : ¬ AccessKind.word.Misaligned a) :
    setWord m a (Lanes.maskedWrite (getMask (strbW (a.extractLsb' 0 2))) (ByteMemory.word m a)
      v) = put (AccessKind.word.place a) v m := by
  rw [← AccessKind.writedata_eq_put h]
  have h0 : a.extractLsb' 0 2 = 0#2 := by
    apply BitVec.eq_of_toNat_eq
    simp only [AccessKind.Misaligned] at h
    simp
    omega
  rw [h0]
  rfl

/-- The extension of a byte or a halfword, written as a concatenation. -/
theorem fill_append {n k : ℕ} (b : BitVec k) (isUnsigned : Bool) :
    (BitVec.fill n (signBit isUnsigned b.msb) ++ b : BitVec (n + k)) =
      if isUnsigned then b.setWidth (n + k) else b.signExtend (n + k) := by
  apply BitVec.eq_of_getLsbD_eq
  intro i hi
  rw [BitVec.getLsbD_append]
  cases isUnsigned with
  | true =>
    rw [if_pos rfl, BitVec.getLsbD_setWidth]
    split
    case isTrue h => simp [hi]
    case isFalse h => simp [signBit, BitVec.getLsbD_of_ge b i (by omega)]
  | false =>
    rw [if_neg Bool.false_ne_true, BitVec.getLsbD_signExtend]
    split
    case isTrue h => simp [hi]
    case isFalse h =>
      simp [signBit, hi]
      omega

/-- `readdata.sv` takes the same byte. -/
theorem readdata_byte_eq (w : Word) (isUnsigned : Bool) (low : BitVec 2) :
    readdata w low .size1 isUnsigned .noMisalign 0#32 =
      if isUnsigned then (bs w low).setWidth 32 else (bs w low).signExtend 32 := by
  rw [← fill_append (n := 24)]
  rcases bitVec2_cases low with h | h | h | h <;> rw [h] <;> rfl

theorem readdata_half_eq (w : Word) (isUnsigned : Bool) (low : BitVec 2)
    (h : low = 0#2 ∨ low = 2#2) :
    readdata w low .size2 isUnsigned .noMisalign 0#32 =
      if isUnsigned then (hs w (low.extractLsb' 1 1)).setWidth 32
      else (hs w (low.extractLsb' 1 1)).signExtend 32 := by
  rw [← fill_append (n := 16)]
  rcases h with h | h
  · rw [h, BitVec.msb_eq_getLsbD_last, hs, BitVec.getLsbD_extractLsb']
    rfl
  · rw [h, BitVec.msb_eq_getLsbD_last, hs, BitVec.getLsbD_extractLsb']
    rfl

/-- A loaded byte, halfword or word is the access at byte level. -/
theorem load_byte (isUnsigned : Bool) :
    (if isUnsigned then (bs (ByteMemory.word m a) (a.extractLsb' 0 2)).setWidth 32
      else (bs (ByteMemory.word m a) (a.extractLsb' 0 2)).signExtend 32) =
      get (AccessKind.byte.place a) m (AccessKind.byte.filling isUnsigned m a 0#32) := by
  rw [← readdata_byte_eq]
  exact AccessKind.readdata_eq_get (k := .byte) (a := a) id m 0#32 isUnsigned

theorem load_half (h : ¬ AccessKind.half.Misaligned a) (isUnsigned : Bool) :
    (if isUnsigned then (hs (ByteMemory.word m a) (a.extractLsb' 1 1)).setWidth 32
      else (hs (ByteMemory.word m a) (a.extractLsb' 1 1)).signExtend 32) =
      get (AccessKind.half.place a) m (AccessKind.half.filling isUnsigned m a 0#32) := by
  have hlow : a.extractLsb' 0 2 = 0#2 ∨ a.extractLsb' 0 2 = 2#2 := by
    have ha : (a.extractLsb' 0 2).toNat = a.toNat % 4 := by simp
    simp only [AccessKind.Misaligned, not_not] at h
    rcases bitVec2_cases (a.extractLsb' 0 2) with h2 | h2 | h2 | h2
    · exact Or.inl h2
    · rw [h2, BitVec.toNat_ofNat] at ha
      omega
    · exact Or.inr h2
    · rw [h2, BitVec.toNat_ofNat] at ha
      omega
  have hsel : a.extractLsb' 1 1 = (a.extractLsb' 0 2).extractLsb' 1 1 := by
    apply BitVec.eq_of_getLsbD_eq
    intro i hi
    simp [hi]
  rw [hsel, ← readdata_half_eq _ _ _ hlow]
  exact AccessKind.readdata_eq_get h m 0#32 isUnsigned

theorem load_word (h : ¬ AccessKind.word.Misaligned a) (isUnsigned : Bool) :
    ByteMemory.word m a =
      get (AccessKind.word.place a) m (AccessKind.word.filling isUnsigned m a 0#32) :=
  AccessKind.readdata_eq_get h m 0#32 isUnsigned

end Lanes

section Translate

variable (a : Word)

theorem toNat_translate : (translate a).toNat = a.toNat % 2 ^ 29 := by
  rw [translate, BitVec.toNat_append]
  simp

theorem translate_low (start len : ℕ) (h : start + len ≤ 29) :
    (translate a).extractLsb' start len = a.extractLsb' start len := by
  apply BitVec.eq_of_getLsbD_eq
  intro i hi
  simp only [translate, BitVec.getLsbD_extractLsb', BitVec.getLsbD_append]
  grind

theorem misaligned_translate (k : AccessKind) :
    k.Misaligned (translate a) ↔ k.Misaligned a := by
  cases k with
  | byte | left | right => exact Iff.rfl
  | half | word =>
    simp only [AccessKind.Misaligned, toNat_translate]
    omega

theorem low_ne_zero_iff : a.extractLsb' 0 2 ≠ 0#2 ↔ AccessKind.word.Misaligned a := by
  rw [ne_eq, ← BitVec.toNat_inj]
  simp [AccessKind.Misaligned]

theorem getLsbD_zero_iff : a.getLsbD 0 = true ↔ AccessKind.half.Misaligned a := by
  rw [BitVec.getLsbD, Nat.testBit_zero, decide_eq_true_iff]
  simp only [AccessKind.Misaligned]
  omega

end Translate

section Arithmetic

variable {ctx : Context} {i : Instruction}

/-- What an arithmetic instruction should make of a context. -/
def Context.computed (ctx : Context) (i : Instruction) : Context :=
  let out := { ctx with state := .commit, targetId := i.dest ctx.instr }
  if i.Overflows ctx.instr ctx.vRs ctx.vRt then ctx.throw out exOv
  else out.setReg (i.dest ctx.instr) (i.result ctx.instr ctx.pc ctx.vRs ctx.vRt)

theorem Context.computed_of_not (h : ¬ i.Overflows ctx.instr ctx.vRs ctx.vRt) :
    ctx.computed i =
      ({ ctx with state := .commit, targetId := i.dest ctx.instr } : Context).setReg
        (i.dest ctx.instr) (i.result ctx.instr ctx.pc ctx.vRs ctx.vRt) :=
  if_neg h

theorem Context.computed_of (h : i.Overflows ctx.instr ctx.vRs ctx.vRt) :
    ctx.computed i =
      ctx.throw { ctx with state := .commit, targetId := i.dest ctx.instr } exOv :=
  if_pos h

/-- The opcodes that are sent to `ARITHMETIC`. -/
theorem decode_arithmetic (h : ctx.decode.state = .arithmetic) :
    op ctx.instr = 0b001000#6 ∨ op ctx.instr = 0b001001#6 ∨ op ctx.instr = 0b001010#6 ∨
      op ctx.instr = 0b001011#6 ∨ op ctx.instr = 0b001100#6 ∨ op ctx.instr = 0b001101#6 ∨
      op ctx.instr = 0b001110#6 ∨ op ctx.instr = 0b001111#6 := by
  unfold Context.decode at h
  split at h <;> simp_all [Context.throw]

/-- A sum or difference that is checked. -/
theorem Context.checked {v : BitVec 33}
    (hv : overflows v = true ↔ i.Overflows ctx.instr ctx.vRs ctx.vRt)
    (hr : v.extractLsb' 0 32 = i.result ctx.instr ctx.pc ctx.vRs ctx.vRt) :
    (if overflows v then
        ctx.throw { ctx with state := .commit, targetId := i.dest ctx.instr } exOv
      else ({ ctx with state := .commit, targetId := i.dest ctx.instr } : Context).setReg
        (i.dest ctx.instr) (v.extractLsb' 0 32)) = ctx.computed i := by
  by_cases h : i.Overflows ctx.instr ctx.vRs ctx.vRt
  · rw [if_pos (hv.2 h), computed_of h]
  · rw [if_neg (mt hv.1 h), computed_of_not h, hr]

theorem arithmetic_computes (hd : ctx.decode.state = .arithmetic) :
    ∃ i, instrOf ctx.instr = some i ∧ i.isInteger = true ∧ i.links = false ∧
      ctx.arithmetic = ctx.computed i := by
  rcases decode_arithmetic hd with ho | ho | ho | ho | ho | ho | ho | ho
  · refine ⟨.addi, by simp only [instrOf, ho], rfl, rfl, ?_⟩
    simp only [Context.arithmetic, ho]
    rw [signExtend_imm]
    refine Context.checked (i := .addi) ?_ (sum_eq _ _)
    rw [overflows_add, toInt_signExtend_imm]
    rfl
  · refine ⟨.addiu, by simp only [instrOf, ho], rfl, rfl, ?_⟩
    simp only [Context.arithmetic, ho]
    rfl
  · refine ⟨.slti, by simp only [instrOf, ho], rfl, rfl, ?_⟩
    simp only [Context.arithmetic, ho]
    rw [signedCmp_eq, Context.sextImm, toInt_signExtend_imm]
    rfl
  · refine ⟨.sltiu, by simp only [instrOf, ho], rfl, rfl, ?_⟩
    simp only [Context.arithmetic, ho]
    rw [unsignedCmp_eq]
    rfl
  · refine ⟨.andi, by simp only [instrOf, ho], rfl, rfl, ?_⟩
    simp only [Context.arithmetic, ho]
    rfl
  · refine ⟨.ori, by simp only [instrOf, ho], rfl, rfl, ?_⟩
    simp only [Context.arithmetic, ho]
    rfl
  · refine ⟨.xori, by simp only [instrOf, ho], rfl, rfl, ?_⟩
    simp only [Context.arithmetic, ho]
    rfl
  · refine ⟨.lui, by simp only [instrOf, ho], rfl, rfl, ?_⟩
    simp only [Context.arithmetic, ho]
    rw [append_zero_eq_mul]
    rfl

/-- The words that no `RTYPE` instruction has. -/
theorem rtypeCase_reserved (h : specialOf (func ctx.instr) = none) (out : Context) :
    ctx.rtypeCase out = ctx.throw out exRi := by
  unfold Context.rtypeCase
  split
  case h_29 => rfl
  all_goals
    rename_i hf
    rw [hf] at h
    exact absurd h (by decide)

/-- The instructions of `RTYPE` that leave one result. -/
theorem rtype_computes (hop : op ctx.instr = 0b000000#6) (hi : instrOf ctx.instr = some i)
    (hk : i.isInteger = true) (hl : i.links = false) : ctx.rtype = ctx.computed i := by
  have he := encodes_of_instrOf hi
  cases i
  case add =>
    simp only [Context.rtype, Context.rtypeCase, he.2, cancelsWriteback]
    exact Context.checked (i := .add) (overflows_add _ _) (sum_eq _ _)
  case sub =>
    simp only [Context.rtype, Context.rtypeCase, he.2, cancelsWriteback]
    exact Context.checked (i := .sub) (overflows_sub _ _) (difference_eq _ _)
  case addu | subu | and | or | xor | nor =>
    simp only [Context.rtype, Context.rtypeCase, he.2, cancelsWriteback]
    rfl
  case slt =>
    simp only [Context.rtype, Context.rtypeCase, he.2, cancelsWriteback, signedCmp_eq]
    rfl
  case sltu =>
    simp only [Context.rtype, Context.rtypeCase, he.2, cancelsWriteback, unsignedCmp_eq]
    rfl
  case sll =>
    simp only [Context.rtype, Context.rtypeCase, he.2, cancelsWriteback, shiftLeft_eq_mul]
    rfl
  case srl =>
    simp only [Context.rtype, Context.rtypeCase, he.2, cancelsWriteback, ushiftRight_eq_div]
    rfl
  case sra =>
    simp only [Context.rtype, Context.rtypeCase, he.2, cancelsWriteback, sshiftRight_eq_div]
    rfl
  case sllv =>
    simp only [Context.rtype, Context.rtypeCase, he.2, cancelsWriteback, shiftLeft_eq_mul,
      shiftAmount]
    rfl
  case srlv =>
    simp only [Context.rtype, Context.rtypeCase, he.2, cancelsWriteback, ushiftRight_eq_div,
      shiftAmount]
    rfl
  case srav =>
    simp only [Context.rtype, Context.rtypeCase, he.2, cancelsWriteback, sshiftRight_eq_div,
      shiftAmount]
    rfl
  case jal | jalr | bgezal | bltzal => exact absurd hl.symm Bool.false_ne_true
  case addi | addiu | slti | sltiu | andi | ori | xori | lui =>
    exact absurd (hop.symm.trans he) (by decide)
  all_goals exact absurd hk Bool.false_ne_true

end Arithmetic

section Access

variable {ctx : Context} {k : AccessKind} {isUnsigned : Bool}

/-- The strobes of a store. -/
def strobeOf (k : AccessKind) (low : BitVec 2) : Strobe :=
  match k with
  | .byte => strbB low
  | .half => strbH low
  | _ => strbW low

/-- The data of a store, on all the lanes it may be meant for. -/
def dataOf (k : AccessKind) (v : Word) : Word :=
  match k with
  | .byte => repB v
  | .half => repH v
  | _ => v

/-- The loads pass the check of their address, or raise it. -/
theorem addrCheck_load (h : loadKind (op ctx.instr) = some (k, isUnsigned)) :
    ctx.addrCheck =
      if k.Misaligned ctx.memAddr then
        ctx.addrError { ctx with state := .load } exAdel ctx.memAddr
      else { ctx with state := .load, args := .mem ctx.memAddr k.msize 0#4 0#32 } := by
  unfold loadKind at h
  split at h
  case h_6 => cases h
  all_goals
    rename_i ho
    cases h
    simp only [Context.addrCheck, ho]
  case h_1 | h_4 => exact (if_neg id).symm
  case h_3 =>
    simp only [low_ne_zero_iff]
    rfl
  case h_2 | h_5 =>
    simp only [getLsbD_zero_iff]
    rfl

theorem addrCheck_store (h : storeKind (op ctx.instr) = some k) :
    ctx.addrCheck =
      if k.Misaligned ctx.memAddr then
        ctx.addrError { ctx with state := .store } exAdes ctx.memAddr
      else { ctx with
        state := .store
        args := .mem ctx.memAddr k.msize (strobeOf k (ctx.memAddr.extractLsb' 0 2))
          (dataOf k ctx.vRt) } := by
  unfold storeKind at h
  split at h
  case h_4 => cases h
  all_goals
    rename_i ho
    cases h
    simp only [Context.addrCheck, ho]
  case h_1 => exact (if_neg id).symm
  case h_2 =>
    simp only [getLsbD_zero_iff]
    rfl
  case h_3 =>
    simp only [low_ne_zero_iff]
    rfl

theorem strobe_ne_zero (hk : storeKind (op ctx.instr) = some k) {a : Word}
    (h : ¬ k.Misaligned a) : strobeOf k (a.extractLsb' 0 2) ≠ 0#4 := by
  have ha : (a.extractLsb' 0 2).toNat = a.toNat % 4 := by simp
  unfold storeKind at hk
  split at hk
  case h_4 => cases hk
  all_goals cases hk
  case h_1 =>
    rcases bitVec2_cases (a.extractLsb' 0 2) with h2 | h2 | h2 | h2 <;> rw [h2] <;> decide
  case h_2 =>
    simp only [AccessKind.Misaligned, not_not] at h
    rcases bitVec2_cases (a.extractLsb' 0 2) with h2 | h2 | h2 | h2
    · rw [h2]
      decide
    · rw [h2, BitVec.toNat_ofNat] at ha
      omega
    · rw [h2]
      decide
    · rw [h2, BitVec.toNat_ofNat] at ha
      omega
  case h_3 =>
    have h0 : a.extractLsb' 0 2 = 0#2 := not_not.1 (mt (low_ne_zero_iff a).1 h)
    rw [h0]
    decide

/-- The request of a store, once it is accepted, is the store. -/
theorem performed_store (hk : storeKind (op ctx.instr) = some k) {a : Word}
    (h : ¬ k.Misaligned a) (m : Memory) (v : Word) (valid : Bool) (size : MSize) :
    performed m (some ⟨valid, a, size, strobeOf k (a.extractLsb' 0 2), dataOf k v⟩) =
      put (k.place (translate a)) v m := by
  rw [performed, if_neg (strobe_ne_zero hk h), applyRequest, translateReq]
  rw [← translate_low a 0 2 (by omega)]
  have ht : ¬ k.Misaligned (translate a) := mt (misaligned_translate a k).1 h
  unfold storeKind at hk
  split at hk
  case h_4 => cases hk
  all_goals cases hk
  case h_1 => exact store_byte m v
  case h_2 => exact store_half m v ht
  case h_3 => exact store_word m v ht

/-- What a load puts into its register, once the word has come. -/
theorem loaded_eq (hk : loadKind (op ctx.instr) = some (k, isUnsigned)) {m : Memory}
    (h : ¬ k.Misaligned ctx.memAddr) (ha : ctx.args.addr = ctx.memAddr)
    (hd : ctx.args.data = ByteMemory.word m (translate ctx.args.addr)) :
    ctx.loaded =
      ({ ctx with state := .commit, targetId := rt ctx.instr } : Context).setReg (rt ctx.instr)
        (get (k.place (translate ctx.memAddr)) m
          (k.filling isUnsigned m (translate ctx.memAddr) 0#32)) := by
  have ht : ¬ k.Misaligned (translate ctx.memAddr) := mt (misaligned_translate _ k).1 h
  have hb := translate_low ctx.memAddr 0 2 (by omega)
  have hh := translate_low ctx.memAddr 1 1 (by omega)
  unfold loadKind at hk
  split at hk
  case h_6 => cases hk
  all_goals
    rename_i ho
    cases hk
    simp only [Context.loaded, ho, hd, ha]
  case h_1 =>
    rw [← load_byte, ← hb]
    rfl
  case h_2 =>
    rw [← load_half _ ht, ← hh]
    rfl
  case h_3 => rw [← load_word _ ht]
  case h_4 =>
    rw [← load_byte, ← hb]
    rfl
  case h_5 =>
    rw [← load_half _ ht, ← hh]
    rfl

end Access

end FrailCPU.RefCpu
