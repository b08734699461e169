import FrailCPU.Decode.Decoder

/-!
# What the decoder never says

The stages after the decoder read single bits of `control_t` and rely on bits that
never occur together: a branch writes no special register, a store that fails is no
multiplication, a write of a register names a register. `Control.Coherent` lists
these facts. It is proved table by table, and the last two lines of the decoder keep
it.
-/

namespace FrailCPU

/-- The instruction is a control transfer. -/
def Control.transfers (c : Control) : Bool := c.branch || c.jump

/-- The instruction uses the data bus. -/
def Control.accesses (c : Control) : Bool := c.memtoreg || c.memwrite || c.cacheD

/-- The instruction writes HI or LO. -/
def Control.writesHilo (c : Control) : Bool := c.hiwrite || c.lowrite

/-- The destination is filled only in the last stage. -/
def Control.delayed (c : Control) : Bool :=
  c.memtoreg || c.lotoreg || c.hitoreg || c.cp0toreg

/-- The instruction restarts the fetch behind itself. -/
def Control.refetches (c : Control) : Bool := c.tlb || c.cacheD

/-- The combinations of control bits the decoder produces. -/
structure Control.Coherent (c : Control) : Prop where
  branch_jump : c.branch = true → c.jump = false
  jr_jump : c.jr = true → c.jump = true
  link_transfers : c.isLink = true → c.transfers = true
  transfers_link : c.transfers = true → c.regwrite = true → c.isLink = true
  transfers_plain : c.transfers = true →
    c.accesses = false ∧ c.writesHilo = false ∧ c.cp0write = false ∧
      c.refetches = false ∧ c.singleIssue = false ∧ c.tne = false ∧
      c.alufunc = .addu ∧ c.delayed = false ∧ c.mul = false ∧ c.div = false
  refetches_alone : c.refetches = true → c.singleIssue = true
  wait_alone : c.waitSignal = true → c.singleIssue = true ∧ c.accesses = false
  cacheI_alone : c.cacheI = true → c.singleIssue = true
  tlbType_tlb : c.tlbType ≠ .noTlb → c.tlb = true
  overflow_plain : c.alufunc = .add ∨ c.alufunc = .sub →
    c.accesses = false ∧ c.writesHilo = false ∧ c.tne = false ∧ c.tlb = false
  trap_plain : c.tne = true →
    c.accesses = false ∧ c.writesHilo = false ∧ c.regwrite = false ∧ c.tlb = false
  access_plain : c.accesses = true →
    c.writesHilo = false ∧ c.tlb = false ∧ c.tne = false ∧
      c.alufunc = .addu ∧ c.alusrc = .imm ∧ c.shamtValid = false
  special_plain : c.cp0toreg = true ∨ c.cp0write = true ∨ c.isEret = true →
    c.accesses = false ∧ c.tne = false ∧ c.alufunc ≠ .add ∧ c.alufunc ≠ .sub
  memwrite_memtoreg : c.memwrite = true → c.memtoreg = false
  sc_regwrite : c.sc = true → c.regwrite = false
  move_prompt : c.op = .movz ∨ c.op = .movn →
    c.delayed = false ∧ c.isLink = false ∧ c.mul = false ∧ c.div = false

theorem Control.coherent_zero : ({} : Control).Coherent := by
  constructor <;> simp [Control.transfers, Control.accesses, Control.writesHilo,
    Control.refetches]

namespace Decoded

theorem coherent_dropZeroWrite {d : Decoded} (h : d.ctl.Coherent) :
    d.dropZeroWrite.ctl.Coherent where
  branch_jump := h.branch_jump
  jr_jump := h.jr_jump
  link_transfers := h.link_transfers
  transfers_link ht hw := h.transfers_link ht (by
    simp only [dropZeroWrite, Bool.and_eq_true] at hw
    exact hw.1)
  transfers_plain := h.transfers_plain
  refetches_alone := h.refetches_alone
  wait_alone := h.wait_alone
  cacheI_alone := h.cacheI_alone
  tlbType_tlb := h.tlbType_tlb
  overflow_plain := h.overflow_plain
  trap_plain ht := by
    obtain ⟨ha, hh, hw, hb⟩ := h.trap_plain ht
    exact ⟨ha, hh, by simp [dropZeroWrite, hw], hb⟩
  access_plain := h.access_plain
  special_plain := h.special_plain
  memwrite_memtoreg := h.memwrite_memtoreg
  sc_regwrite hs := by simp [dropZeroWrite, h.sc_regwrite hs]
  move_prompt := h.move_prompt

theorem dropZeroWrite_destreg (d : Decoded) (h : d.dropZeroWrite.ctl.regwrite = true) :
    d.dropZeroWrite.destreg ≠ 0#5 := by
  simp only [dropZeroWrite, Bool.and_eq_true, bne_iff_ne] at h
  exact h.2

end Decoded

section Tables

variable (instr : Word) {d : Decoded}

theorem decodeRegimm_coherent : (decodeRegimm instr d).ctl.Coherent := by
  unfold decodeRegimm
  split <;> constructor <;>
    simp [Decoded.reserved, Control.transfers, Control.accesses, Control.writesHilo,
      Control.refetches, Control.delayed]

theorem decodeCache_coherent : (decodeCache instr d).ctl.Coherent := by
  unfold decodeCache
  split <;> constructor <;>
    simp [Control.transfers, Control.accesses, Control.writesHilo, Control.refetches,
      Control.delayed]

theorem decodeCop0Func_coherent : (decodeCop0Func instr d).ctl.Coherent := by
  unfold decodeCop0Func
  split <;> constructor <;>
    simp [Decoded.reserved, Control.transfers, Control.accesses, Control.writesHilo,
      Control.refetches, Control.delayed]

theorem decodeCop0_coherent : (decodeCop0 instr d).ctl.Coherent := by
  unfold decodeCop0
  split
  · exact decodeCop0Func_coherent instr
  all_goals
    constructor <;>
      simp [Decoded.reserved, Control.transfers, Control.accesses, Control.writesHilo,
        Control.refetches, Control.delayed]

theorem decodeCop1_coherent : (decodeCop1 instr d).ctl.Coherent := by
  unfold decodeCop1
  split <;> constructor <;>
    simp [Decoded.reserved, Decoded.copUnusable, Control.transfers, Control.accesses,
      Control.writesHilo, Control.refetches, Control.delayed]

variable (h : d.ctl = {})

include h

theorem decodeSpecial_coherent : (decodeSpecial instr d).ctl.Coherent := by
  unfold decodeSpecial
  split <;> constructor <;>
    simp [h, Decoded.reserved, Decoded.threeReg, Decoded.twoReg, Decoded.shiftReg,
      Control.transfers, Control.accesses, Control.writesHilo, Control.refetches,
      Control.delayed]

theorem decodeSpecial2_coherent : (decodeSpecial2 instr d).ctl.Coherent := by
  unfold decodeSpecial2
  split <;> constructor <;>
    simp [h, Decoded.threeReg, Decoded.twoReg, Control.transfers, Control.accesses,
      Control.writesHilo, Control.refetches, Control.delayed]

theorem decodeOp_coherent : (decodeOp instr d).ctl.Coherent := by
  unfold decodeOp
  split
  case h_12 => exact decodeRegimm_coherent instr
  case h_31 => exact decodeCache_coherent instr
  case h_32 => exact decodeCop0_coherent instr
  case h_33 => exact decodeSpecial_coherent instr h
  case h_34 => exact decodeCop1_coherent instr
  case h_37 => exact decodeSpecial2_coherent instr h
  all_goals
    constructor <;>
      simp [h, Decoded.reserved, Decoded.twoReg, Decoded.immReg, Decoded.mergeReg,
        Decoded.copUnusable, Control.transfers, Control.accesses, Control.writesHilo,
        Control.refetches, Control.delayed]

end Tables

/-- The exception record an instruction leaves the decoder with. Its type is the one it
came with, unless the word raises an exception, is an `ERET`, or moves a CP0 register. -/
structure Decoded.TypedFrom (d : Decoded) (old : Cp0Control) : Prop where
  ctype : d.cp0Ctl.ctype = old.ctype ∨ d.cp0Ctl.ctype = .exception ∨
    (d.cp0Ctl.ctype = .eret ∧ d.ctl.isEret = true) ∨
    (d.cp0Ctl.ctype = .instr ∧ (d.ctl.cp0toreg = true ∨ d.ctl.cp0write = true))
  badVaddrF : d.cp0Ctl.etype.badVaddrF = old.etype.badVaddrF

section Types

variable (instr : Word) (d : Decoded)

theorem decodeRegimm_typed : (decodeRegimm instr d).TypedFrom d.cp0Ctl := by
  unfold decodeRegimm
  split <;> constructor <;> simp [Decoded.reserved, Decoded.withCtype]

theorem decodeCache_typed : (decodeCache instr d).TypedFrom d.cp0Ctl := by
  unfold decodeCache
  split <;> constructor <;> simp

theorem decodeCop0_typed : (decodeCop0 instr d).TypedFrom d.cp0Ctl := by
  unfold decodeCop0
  split
  · unfold decodeCop0Func
    split <;> constructor <;> simp [Decoded.reserved, Decoded.withCtype]
  all_goals constructor <;> simp [Decoded.reserved, Decoded.withCtype]

theorem decodeSpecial_typed : (decodeSpecial instr d).TypedFrom d.cp0Ctl := by
  unfold decodeSpecial
  split <;> constructor <;> simp [Decoded.reserved, Decoded.withCtype, Decoded.threeReg,
    Decoded.twoReg, Decoded.shiftReg]

theorem decodeCop1_typed : (decodeCop1 instr d).TypedFrom d.cp0Ctl := by
  unfold decodeCop1
  split <;> constructor <;> simp [Decoded.reserved, Decoded.withCtype, Decoded.copUnusable]

theorem decodeSpecial2_typed : (decodeSpecial2 instr d).TypedFrom d.cp0Ctl := by
  unfold decodeSpecial2
  split <;> constructor <;> simp [Decoded.threeReg, Decoded.twoReg]

theorem decodeOp_typed : (decodeOp instr d).TypedFrom d.cp0Ctl := by
  unfold decodeOp
  split
  case h_12 => exact decodeRegimm_typed instr d
  case h_31 => exact decodeCache_typed instr d
  case h_32 => exact decodeCop0_typed instr d
  case h_33 => exact decodeSpecial_typed instr d
  case h_34 => exact decodeCop1_typed instr d
  case h_37 => exact decodeSpecial2_typed instr d
  all_goals
    constructor <;> simp [Decoded.reserved, Decoded.withCtype, Decoded.twoReg,
      Decoded.immReg, Decoded.mergeReg, Decoded.copUnusable]

end Types

theorem decoder_typed (instr : Word) (valid : Bool) (cp0CtlOld : Cp0Control) :
    (decoder instr valid cp0CtlOld).TypedFrom cp0CtlOld := by
  cases valid with
  | false => exact ⟨Or.inl rfl, rfl⟩
  | true =>
      have h := decodeOp_typed instr (presetDecoded instr cp0CtlOld)
      exact ⟨h.ctype, h.badVaddrF⟩

/-- A record as the decode stage leaves it, or an empty one. -/
structure DecodeData.WellDecoded (c : DecodeData) : Prop where
  coherent : c.ctl.Coherent
  rdst_ne : c.ctl.regwrite = true → c.rdst ≠ 0#5

/-- The control word of every decoded instruction is coherent. -/
theorem decoder_coherent (instr : Word) (valid : Bool) (cp0CtlOld : Cp0Control) :
    (decoder instr valid cp0CtlOld).ctl.Coherent := by
  apply Decoded.coherent_dropZeroWrite
  cases valid with
  | false => exact Control.coherent_zero
  | true => exact decodeOp_coherent instr rfl

/-- A decoded instruction that writes a register does not write register 0. -/
theorem decoder_destreg (instr : Word) (valid : Bool) (cp0CtlOld : Cp0Control)
    (h : (decoder instr valid cp0CtlOld).ctl.regwrite = true) :
    (decoder instr valid cp0CtlOld).destreg ≠ 0#5 :=
  Decoded.dropZeroWrite_destreg
    (if valid then decodeOp instr (presetDecoded instr cp0CtlOld)
      else presetDecoded instr cp0CtlOld) h

theorem decodeSlot_wellDecoded (f : FetchData) (preB : Bool) (prePc : Word) :
    (decodeSlot f preB prePc).WellDecoded where
  coherent := decoder_coherent f.rawInstr f.valid f.cp0Ctl
  rdst_ne := decoder_destreg f.rawInstr f.valid f.cp0Ctl

theorem wellDecoded_zero : ({} : DecodeData).WellDecoded where
  coherent := Control.coherent_zero
  rdst_ne h := by simp at h

end FrailCPU
