import FrailCPU.Execute.Execute
import FrailCPU.Issue.Record
import FrailCPU.Memory.Bytes

/-!
# Loads and stores from decode to the data bus

The twelve loads and stores, decoded, executed in either slot and handed to the data bus:
the request that leaves M1 and the register value that M3 picks up are those of the
little-endian access of `AccessKind.place`, and the misaligned ones make no request.
-/

namespace FrailCPU

open ByteMemory DCache

/-- The loads and the stores. -/
inductive MemOp
  | lb | lbu | lh | lhu | lw | lwl | lwr | sb | sh | sw | swl | swr
  deriving DecidableEq, Repr

namespace MemOp

variable (k : MemOp)

/-- The major opcode. -/
def opcode : BitVec 6 :=
  match k with
  | lb => 0b100000#6
  | lbu => 0b100100#6
  | lh => 0b100001#6
  | lhu => 0b100101#6
  | lw => 0b100011#6
  | lwl => 0b100010#6
  | lwr => 0b100110#6
  | sb => 0b101000#6
  | sh => 0b101001#6
  | sw => 0b101011#6
  | swl => 0b101010#6
  | swr => 0b101110#6

def kind : AccessKind :=
  match k with
  | lb | lbu | sb => .byte
  | lh | lhu | sh => .half
  | lw | sw => .word
  | lwl | swl => .left
  | lwr | swr => .right

def loads : Bool :=
  match k with
  | lb | lbu | lh | lhu | lw | lwl | lwr => true
  | _ => false

/-- The value is extended without its sign. -/
def isUnsigned : Bool :=
  match k with
  | lbu | lhu => true
  | _ => false

/-- The control word of an access. -/
structure Controls (c : Control) : Prop where
  memtoreg : c.memtoreg = k.loads
  memwrite : c.memwrite = !k.loads
  msize : c.msize = k.kind.msize
  memtype : c.memtype = k.kind.memtype
  memsext : k.kind = .byte ∨ k.kind = .half → k.loads = true → c.memsext = !k.isUnsigned
  alusrc : c.alusrc = .imm
  alufunc : c.alufunc = .addu
  shamtValid : c.shamtValid = false
  zeroext : c.zeroext = false
  srca : c.srca = false
  cacheD : c.cacheD = false
  isLink : c.isLink = false
  mul : c.mul = false
  div : c.div = false

variable {k}

theorem decodeOp_controls {instr : Word} {d : Decoded} (h : Instr.op instr = k.opcode) :
    k.Controls (decodeOp instr d).ctl := by
  unfold decodeOp
  rw [h]
  cases k <;> constructor <;> first
    | rfl
    | intro hk hl
      first | rfl | exact absurd hl (by decide) | exact absurd hk (by decide)

/-- The decoder takes back at most the register write. -/
theorem decoder_controls {instr : Word} {old : Cp0Control} (h : Instr.op instr = k.opcode) :
    k.Controls (decoder instr true old).ctl := by
  have hc := decodeOp_controls (d := presetDecoded instr old) h
  exact ⟨hc.memtoreg, hc.memwrite, hc.msize, hc.memtype, hc.memsext, hc.alusrc, hc.alufunc,
    hc.shamtValid, hc.zeroext, hc.srca, hc.cacheD, hc.isLink, hc.mul, hc.div⟩

end MemOp

/-- The word at the address of a request, written under its strobe. -/
def applyRequest (m : Memory) (req : DBusReq) : Memory :=
  setWord m req.addr
    (Lanes.maskedWrite (getMask req.strobe) (ByteMemory.word m req.addr) req.data)

/-- The record of an instruction behind E, when the other slot takes nothing back. -/
structure ExecuteData.Of (e : ExecuteData) (d : IssueData) (r : Operands) : Prop where
  memtoreg : e.ctl.memtoreg = (d.ctl.memtoreg && !loadMisalign d r)
  memwrite : e.ctl.memwrite = (d.ctl.memwrite && !(!loadMisalign d r && storeMisalign d r))
  regwrite : e.ctl.regwrite = (d.ctl.regwrite && !moveFails d r)
  msize : e.ctl.msize = d.ctl.msize
  memtype : e.ctl.memtype = d.ctl.memtype
  memsext : e.ctl.memsext = d.ctl.memsext
  cacheD : e.ctl.cacheD = d.ctl.cacheD
  sc : e.ctl.sc = d.ctl.sc
  regData : e.regData = regDataOf d r
  aluOut : d.ctl.isLink = false → d.ctl.mul = false → d.ctl.div = false →
    e.aluOutExt = (aluOut d r).setWidth 64
  rdst : e.rdst = d.rdst
  pc : e.pc = d.pc

/-- The older instruction of a group is neither misaligned nor in overflow, and came without
an exception. -/
structure OlderPasses (dataI : Pair IssueData) (rd : Pair Operands) : Prop where
  loads : loadMisalign dataI.slot1 rd.slot1 = false
  stores : storeMisalign dataI.slot1 rd.slot1 = false
  overflow : exceptionOf dataI.slot1 rd.slot1 = false
  ctype : dataI.slot1.cp0Ctl.ctype ≠ .exception

section Execute

variable (dataI : Pair IssueData) (rd : Pair Operands) (u : MulDivResult)

theorem execute_slot1_of : (execute dataI rd u).slot1.Of dataI.slot1 rd.slot1 := by
  refine ⟨rfl, rfl, rfl, rfl, rfl, rfl, rfl, rfl, rfl, fun hl hm hd => ?_, rfl, rfl⟩
  simp [execute, aluOutExt1, hl, hm, hd]

variable {dataI rd}

theorem execute_slot0_of (h : OlderPasses dataI rd) :
    (execute dataI rd u).slot0.Of dataI.slot0 rd.slot0 := by
  refine ⟨?_, ?_, rfl, rfl, rfl, rfl, rfl, rfl, rfl, fun _ hm hd => ?_, rfl, rfl⟩
  · simp [execute, executeCtl0, h.loads, h.stores]
  · simp [execute, executeCtl0, h.loads, h.stores, h.overflow, h.ctype]
  · simp [execute, aluOutExt0, hm, hd]

end Execute

namespace MemOp

variable {k : MemOp} {f : FetchData} {d : IssueData} {r : Operands} {e : ExecuteData}

/-- The address of an access. -/
def address (f : FetchData) (r : Operands) : Word :=
  r.rd1 + (Instr.imm f.rawInstr).signExtend 32

/-- What a load or a store at `a` does, by its little-endian definition. -/
structure Performs (k : MemOp) (d : IssueData) (r : Operands) (e : ExecuteData)
    (a : Word) : Prop where
  loadMisalign_iff : loadMisalign d r = true ↔ k.loads = true ∧ k.kind.Misaligned a
  storeMisalign_iff : storeMisalign d r = true ↔ k.loads = false ∧ k.kind.Misaligned a
  silent : k.kind.Misaligned a → (memoryReq e).valid = false
  request : ¬ k.kind.Misaligned a →
    (memoryReq e).valid = true ∧ (memoryReq e).addr = a
  load : k.loads = true → ¬ k.kind.Misaligned a → (memoryReq e).strobe = 0#4 ∧
    ∀ m : Memory, (memory3Slot e (ByteMemory.word m a)).rd =
      ByteMemory.get (k.kind.place a) m (k.kind.filling k.isUnsigned m a r.rd2)
  store : k.loads = false → ¬ k.kind.Misaligned a → ∀ m : Memory,
    applyRequest m (memoryReq e) = put (k.kind.place a) r.rd2 m

/-- The test of E, in the terms of the decoded size and kind, is that of the width. -/
theorem misaligned_eq (k : AccessKind) (a : Word) :
    (k.memtype == .noMisalign && sizeMisaligned k.msize a) = decide (k.Misaligned a) := by
  have h0 : a[0] = decide (a.toNat % 2 = 1) := by
    rw [BitVec.getElem_eq_testBit_toNat, Nat.testBit_zero]
  have h1 : a[1] = decide (a.toNat / 2 % 2 = 1) := by
    rw [BitVec.getElem_eq_testBit_toNat, Nat.testBit_eq_decide_div_mod_eq, Nat.pow_one]
  rw [Bool.eq_iff_iff, decide_eq_true_iff]
  cases k with
  | half =>
    simp [sizeMisaligned, AccessKind.msize, AccessKind.memtype, AccessKind.Misaligned, h0]
  | word =>
    simp [sizeMisaligned, AccessKind.msize, AccessKind.memtype, AccessKind.Misaligned, h0, h1]
    omega
  | _ => simp [sizeMisaligned, AccessKind.msize, AccessKind.memtype, AccessKind.Misaligned]

section Performs

variable (hk : k.Controls d.ctl) (hi : d.imm = Instr.imm f.rawInstr)

include hk hi

theorem aluOut_eq_address : aluOut d r = address f r := by
  rw [aluOut, hk.alufunc, aluA, hk.shamtValid, aluB, hk.alusrc, extendB, hk.zeroext, hi]
  rfl

theorem loadMisalign_eq :
    loadMisalign d r = (k.loads && decide (k.kind.Misaligned (address f r))) := by
  rw [loadMisalign, hk.memtype, hk.memtoreg, hk.msize, aluOut_eq_address hk hi,
    Bool.and_right_comm, misaligned_eq, Bool.and_comm]

theorem storeMisalign_eq :
    storeMisalign d r = (!k.loads && decide (k.kind.Misaligned (address f r))) := by
  rw [storeMisalign, hk.memtype, hk.memwrite, hk.msize, aluOut_eq_address hk hi,
    Bool.and_right_comm, misaligned_eq, Bool.and_comm]

variable (he : e.Of d r)

include he

theorem aluOutExt_low (n : ℕ) (hn : n ≤ 32) :
    e.aluOutExt.extractLsb' 0 n = (address f r).extractLsb' 0 n := by
  rw [he.aluOut hk.isLink hk.mul hk.div, aluOut_eq_address hk hi]
  apply BitVec.eq_of_getLsbD_eq
  intro i hin
  simp [hin]
  omega

theorem memoryReq_silent (h : k.kind.Misaligned (address f r)) :
    (memoryReq e).valid = false := by
  rw [memoryReq_valid, Control.accesses, he.memtoreg, he.memwrite, he.cacheD, hk.memtoreg,
    hk.memwrite, hk.cacheD, loadMisalign_eq hk hi, storeMisalign_eq hk hi, decide_eq_true h]
  cases k.loads <;> rfl

/-- An aligned access keeps both of its control bits. -/
theorem accesses_kept (h : ¬ k.kind.Misaligned (address f r)) :
    e.ctl.memtoreg = k.loads ∧ e.ctl.memwrite = !k.loads := by
  rw [he.memtoreg, he.memwrite, hk.memtoreg, hk.memwrite, loadMisalign_eq hk hi,
    storeMisalign_eq hk hi, decide_eq_false h]
  cases k.loads <;> exact ⟨rfl, rfl⟩

theorem memoryReq_asks (h : ¬ k.kind.Misaligned (address f r)) :
    (memoryReq e).valid = true ∧ (memoryReq e).addr = address f r := by
  obtain ⟨hl, hs⟩ := accesses_kept hk hi he h
  constructor
  · rw [memoryReq_valid, Control.accesses, hl, hs]
    cases k.loads <;> rfl
  · have := aluOutExt_low hk hi he 32 (Nat.le_refl 32)
    rw [BitVec.extractLsb'_eq_self] at this
    exact this

omit hi in
theorem regData_eq : e.regData = r.rd2 := by
  rw [he.regData, regDataOf, hk.srca]
  rfl

theorem performs_load (hl : k.loads = true) (h : ¬ k.kind.Misaligned (address f r)) :
    (memoryReq e).strobe = 0#4 ∧
      ∀ m : Memory, (memory3Slot e (ByteMemory.word m (address f r))).rd =
        ByteMemory.get (k.kind.place (address f r)) m
          (k.kind.filling k.isUnsigned m (address f r) r.rd2) := by
  obtain ⟨-, hs⟩ := accesses_kept hk hi he h
  constructor
  · exact memoryReq_strobe_of_load (by rw [hs, hl]; rfl)
  · intro m
    have hsext : (!e.ctl.memsext) = k.isUnsigned ∨
        ¬ (k.kind = .byte ∨ k.kind = .half) := by
      by_cases hb : k.kind = .byte ∨ k.kind = .half
      · left
        rw [he.memsext, hk.memsext hb hl, Bool.not_not]
      · exact Or.inr hb
    have hdata : ∀ b : Bool, b = k.isUnsigned ∨ ¬ (k.kind = .byte ∨ k.kind = .half) →
        readdata (ByteMemory.word m (address f r)) ((address f r).extractLsb' 0 2)
          k.kind.msize b k.kind.memtype r.rd2 =
        readdata (ByteMemory.word m (address f r)) ((address f r).extractLsb' 0 2)
          k.kind.msize k.isUnsigned k.kind.memtype r.rd2 := by
      rintro b (rfl | hb)
      · rfl
      · -- the sign is read for bytes and halfwords only
        cases hkk : k.kind with
        | byte => exact absurd (Or.inl hkk) hb
        | half => exact absurd (Or.inr hkk) hb
        | _ => rfl
    simp only [memory3Slot]
    rw [aluOutExt_low hk hi he 2 (by omega), he.msize, he.memtype, hk.msize, hk.memtype,
      regData_eq hk he, hdata _ hsext, AccessKind.readdata_eq_get h]

theorem performs_store (hl : k.loads = false) (h : ¬ k.kind.Misaligned (address f r))
    (m : Memory) :
    applyRequest m (memoryReq e) = put (k.kind.place (address f r)) r.rd2 m := by
  obtain ⟨hlo, hst⟩ := accesses_kept hk hi he h
  obtain ⟨-, ha⟩ := memoryReq_asks hk hi he h
  have hstoring : (!e.ctl.memtoreg && e.ctl.memwrite) = true := by
    rw [hlo, hst, hl]
    rfl
  have hw : writedata (e.aluOutExt.extractLsb' 0 2) e.regData e.ctl.msize e.ctl.memtype =
      writedata ((address f r).extractLsb' 0 2) r.rd2 k.kind.msize k.kind.memtype := by
    rw [aluOutExt_low hk hi he 2 (by omega), he.msize, he.memtype, hk.msize, hk.memtype,
      regData_eq hk he]
  rw [applyRequest, ha, ← AccessKind.writedata_eq_put h, ← hw]
  simp only [memoryReq, hstoring, if_true]

omit hk hi in
/-- A load or a store, once decoded, executed and not disturbed by the other slot. -/
theorem performs (hop : Instr.op f.rawInstr = k.opcode) (hv : f.valid = true)
    (hd : d.Carries f) : k.Performs d r e (address f r) := by
  have hk : k.Controls d.ctl := by
    rw [hd.ctl, hv]
    exact decoder_controls hop
  have hi := hd.imm
  constructor
  · rw [loadMisalign_eq hk hi, Bool.and_eq_true, decide_eq_true_iff]
  · rw [storeMisalign_eq hk hi, Bool.and_eq_true, decide_eq_true_iff, Bool.not_eq_true']
  · exact memoryReq_silent hk hi he
  · exact memoryReq_asks hk hi he
  · exact performs_load hk hi he
  · exact performs_store hk hi he

end Performs

end MemOp

/-- An unaligned word stored by `SWR` and `SWL` and loaded by `LWR` and `LWL`, each through the
tables of the memory stages. -/
def storeLanes (kind : AccessKind) (m : Memory) (a v : Word) : Memory :=
  let w := writedata (a.extractLsb' 0 2) v kind.msize kind.memtype
  setWord m a (Lanes.maskedWrite (getMask w.2) (ByteMemory.word m a) w.1)

def loadLanes (kind : AccessKind) (m : Memory) (a old : Word) : Word :=
  readdata (ByteMemory.word m a) (a.extractLsb' 0 2) kind.msize false kind.memtype old

/-- The memory behind `SWR a` and `SWL a+3`. -/
def storeUnaligned (m : Memory) (a v : Word) : Memory :=
  storeLanes .left (storeLanes .right m a v) (a + 3#32) v

/-- The register behind `LWR a` and `LWL a+3`. -/
def loadUnaligned (m : Memory) (a old : Word) : Word :=
  loadLanes .left m (a + 3#32) (loadLanes .right m a old)

theorem storeUnaligned_eq (m : Memory) (a v : Word) :
    storeUnaligned m a v =
      put (AccessKind.left.place (a + 3#32)) v (put (AccessKind.right.place a) v m) := by
  have hl : ∀ a : Word, ¬ AccessKind.left.Misaligned a := fun _ h => h
  have hr : ∀ a : Word, ¬ AccessKind.right.Misaligned a := fun _ h => h
  rw [storeUnaligned, storeLanes, AccessKind.writedata_eq_put (hl _), storeLanes,
    AccessKind.writedata_eq_put (hr a)]

theorem loadUnaligned_eq (m : Memory) (a old : Word) :
    loadUnaligned m a old =
      ByteMemory.get (AccessKind.left.place (a + 3#32)) m
        (byteOf (ByteMemory.get (AccessKind.right.place a) m (byteOf old))) := by
  have hl : ∀ a : Word, ¬ AccessKind.left.Misaligned a := fun _ h => h
  have hr : ∀ a : Word, ¬ AccessKind.right.Misaligned a := fun _ h => h
  rw [loadUnaligned, loadLanes, AccessKind.readdata_eq_get (hl _), loadLanes,
    AccessKind.readdata_eq_get (hr a)]
  rfl

/-- The unaligned pair stores the word and no other byte, and loads it again. -/
structure UnalignedPair (m : Memory) (a v old : Word) : Prop where
  stored : ∀ j, j < 4 → storeUnaligned m a v (a + BitVec.ofNat 32 j) = byteOf v j
  others : ∀ x : Address, (∀ j, j < 4 → x ≠ a + BitVec.ofNat 32 j) →
    storeUnaligned m a v x = m x
  loaded : loadUnaligned (storeUnaligned m a v) a old = v

theorem unalignedPair (m : Memory) (a v old : Word) : UnalignedPair m a v old := by
  have hp := AccessKind.right_within a
  have hq := AccessKind.left_within a
  have hc := AccessKind.pair_covers a
  have hs : ∀ j, j < 4 → storeUnaligned m a v (a + BitVec.ofNat 32 j) = byteOf v j := by
    intro j hj
    rw [storeUnaligned_eq]
    exact put_put_within hp hq hc hj
  refine ⟨hs, ?_, ?_⟩
  · intro x hx
    rw [storeUnaligned_eq, put_outside hq hx, put_outside hp hx]
  · rw [loadUnaligned_eq]
    exact get_get_within hp hq hc hs (byteOf old)

/-- Every load and store of a group acts by its little-endian definition: that of the older
slot always, that of the younger one when the older instruction passes. -/
structure LittleEndian (dataI : Pair IssueData) (rd : Pair Operands) (u : MulDivResult) :
    Prop where
  slot1 : ∀ (k : MemOp) (f : FetchData), Instr.op f.rawInstr = k.opcode → f.valid = true →
    dataI.slot1.Carries f →
    k.Performs dataI.slot1 rd.slot1 (execute dataI rd u).slot1 (MemOp.address f rd.slot1)
  slot0 : OlderPasses dataI rd → ∀ (k : MemOp) (f : FetchData),
    Instr.op f.rawInstr = k.opcode → f.valid = true → dataI.slot0.Carries f →
    k.Performs dataI.slot0 rd.slot0 (execute dataI rd u).slot0 (MemOp.address f rd.slot0)

/-- Loads and stores have little-endian byte semantics. -/
theorem accesses_little_endian :
    (∀ dataI rd u, LittleEndian dataI rd u) ∧
      ∀ (m : Memory) (a v old : Word), UnalignedPair m a v old := by
  refine ⟨fun dataI rd u => ⟨?_, ?_⟩, unalignedPair⟩
  · intro k f hop hv hd
    exact MemOp.performs (execute_slot1_of dataI rd u) hop hv hd
  · intro hp k f hop hv hd
    exact MemOp.performs (execute_slot0_of u hp) hop hv hd

end FrailCPU
