import FrailCPU.Decode.Instruction

/-!
# The words the decoder accepts

A valid word without an earlier exception is decoded as the instruction whose encoding it
has, or refused as reserved when it has none.
-/

namespace FrailCPU

open Instr

section Tables

variable {w : Word} {d : Decoded}

theorem decodeOp_regimm (h : op w = 0b000001#6) : decodeOp w d = decodeRegimm w d := by
  unfold decodeOp
  rw [h]
  rfl

theorem decodeOp_cache (h : op w = 0b101111#6) : decodeOp w d = decodeCache w d := by
  unfold decodeOp
  rw [h]
  rfl

theorem decodeOp_cop0 (h : op w = 0b010000#6) : decodeOp w d = decodeCop0 w d := by
  unfold decodeOp
  rw [h]
  rfl

theorem decodeOp_special (h : op w = 0b000000#6) : decodeOp w d = decodeSpecial w d := by
  unfold decodeOp
  rw [h]
  rfl

theorem decodeOp_cop1 (h : op w = 0b010001#6) : decodeOp w d = decodeCop1 w d := by
  unfold decodeOp
  rw [h]
  rfl

theorem decodeOp_special2 (h : op w = 0b011100#6) : decodeOp w d = decodeSpecial2 w d := by
  unfold decodeOp
  rw [h]
  rfl

theorem decodeCop0_func (h : rs w = 0b10000#5) : decodeCop0 w d = decodeCop0Func w d := by
  unfold decodeCop0
  rw [h]
  rfl

end Tables

/-- A record that comes without an exception. -/
def Cp0Control.Clean (old : Cp0Control) : Prop := old.ctype = .noExc ∧ old.etype = {}

namespace Instruction

variable {i : Instruction} {w : Word} {old : Cp0Control}

/-- The rows that do not say what their instruction needs: `MADDU` without the multiplier, and
the mark of the conditional store at `SW` instead of `SC`. -/
def Slipped (i : Instruction) : Prop := i = .maddu ∨ i = .sw ∨ i = .sc

instance : DecidablePred Slipped := fun _ => inferInstanceAs (Decidable (_ ∨ _))

/-- A word of an instruction is decoded as that instruction. -/
theorem decoder_eq (h : i.Encodes w) (hs : ¬ i.Slipped) (ho : old.Clean) :
    decoder w true old = i.decoded w old := by
  obtain ⟨e, t, y⟩ := old
  obtain ⟨rfl, rfl⟩ := ho
  change (decodeOp w (presetDecoded w _)).dropZeroWrite.setReserve = _
  cases i
  case maddu | sw | sc => exact absurd (by decide) hs
  case bgez | bltz | bgezal | bltzal =>
    obtain ⟨h1, h2⟩ := h
    rw [decodeOp_regimm h1, decodeRegimm, h2]
    rfl
  case iIndexInvalid | iIndexStoreTag | iHitInvalid | dIndexWritebackInvalid
      | dIndexStoreTag | dHitInvalid | dHitWritebackInvalid =>
    obtain ⟨h1, h2⟩ := h
    rw [decodeOp_cache h1, decodeCache, h2]
    rfl
  case eret | tlbp | tlbr | tlbwi | tlbwr | wait =>
    obtain ⟨h1, h2, h3⟩ := h
    rw [decodeOp_cop0 h1, decodeCop0_func h2, decodeCop0Func, h3]
    rfl
  case mfc0 | mtc0 =>
    obtain ⟨h1, h2⟩ := h
    rw [decodeOp_cop0 h1, decodeCop0, h2]
    rfl
  case cf1 | ct1 | mt1 =>
    obtain ⟨h1, h2⟩ := h
    rw [decodeOp_cop1 h1, decodeCop1, h2]
    rfl
  case madd | msub | mul =>
    obtain ⟨h1, h2⟩ := h
    rw [decodeOp_special2 h1, decodeSpecial2, h2]
    rfl
  case add | addu | sub | subu | slt | sltu | div | divu | mult | multu | and | nor | or | xor
      | sllv | sll | srav | sra | srlv | srl | jr | jalr | mfhi | mflo | mthi | mtlo | «break»
      | syscall | movz | movn | sync | tne =>
    obtain ⟨h1, h2⟩ := h
    rw [decodeOp_special h1, decodeSpecial, h2]
    rfl
  all_goals
    have h1 : op w = _ := h
    rw [decodeOp, h1]
    rfl

end Instruction

/-- No bit is set with which an instruction acts on the registers, the memory, HI and LO, CP0,
the fetch, a cache or the TLB. -/
structure Control.Inert (c : Control) : Prop where
  regwrite : c.regwrite = false
  memory : c.memtoreg = false ∧ c.memwrite = false
  hilo : c.hiwrite = false ∧ c.lowrite = false
  cp0 : c.cp0write = false ∧ c.isEret = false
  control : c.branch = false ∧ c.jump = false
  cache : c.cache = false ∧ c.cacheI = false ∧ c.cacheD = false
  tlb : c.tlb = false ∧ c.tlbType = .noTlb

/-- The word is reserved: it raises the exception and does nothing else. -/
structure Decoded.Refused (d : Decoded) : Prop where
  ctype : d.cp0Ctl.ctype = .exception
  reserveInstr : d.cp0Ctl.etype.reserveInstr = true
  inert : d.ctl.Inert

/-- The words of `OP_CACHE` and of `OP_SPECIAL2` for which their tables have no row. -/
def UnknownCache (w : Word) : Prop :=
  op w = 0b101111#6 ∧
    rt w ∉ [0b00000#5, 0b01000#5, 0b10000#5, 0b00001#5, 0b01001#5, 0b10001#5, 0b10101#5]

def UnknownSpecial2 (w : Word) : Prop :=
  op w = 0b011100#6 ∧ func w ∉ [0b000000#6, 0b000001#6, 0b000100#6, 0b000010#6]

instance (w : Word) : Decidable (UnknownCache w) := inferInstanceAs (Decidable (_ ∧ _))

instance (w : Word) : Decidable (UnknownSpecial2 w) := inferInstanceAs (Decidable (_ ∧ _))

section Unnamed

variable {w : Word} {d : Decoded} {c : Control}

/-- The default of a table. -/
theorem refused_of_reserved (hc : c.Inert) :
    (d.reserved c).dropZeroWrite.setReserve.Refused where
  ctype := rfl
  reserveInstr := rfl
  inert :=
    { regwrite := by
        change (c.regwrite && _) = false
        rw [hc.regwrite, Bool.false_and]
      memory := hc.memory
      hilo := hc.hilo
      cp0 := hc.cp0
      control := hc.control
      cache := hc.cache
      tlb := hc.tlb }

theorem inert_reserved (f : AluFunc) : ({ op := .reserved, alufunc := f } : Control).Inert :=
  ⟨rfl, ⟨rfl, rfl⟩, ⟨rfl, rfl⟩, ⟨rfl, rfl⟩, ⟨rfl, rfl⟩, ⟨rfl, rfl, rfl⟩, ⟨rfl, rfl⟩⟩

variable (hn : ∀ i : Instruction, ¬ i.Encodes w)

include hn

theorem decodeRegimm_refused (ho : op w = 0b000001#6) :
    (decodeRegimm w d).dropZeroWrite.setReserve.Refused := by
  unfold decodeRegimm
  split
  case h_1 h => exact absurd ⟨ho, h⟩ (hn .bgez)
  case h_2 h => exact absurd ⟨ho, h⟩ (hn .bltz)
  case h_3 h => exact absurd ⟨ho, h⟩ (hn .bgezal)
  case h_4 h => exact absurd ⟨ho, h⟩ (hn .bltzal)
  case h_5 => exact refused_of_reserved (inert_reserved .addu)

theorem decodeCop0_refused (ho : op w = 0b010000#6) :
    (decodeCop0 w d).dropZeroWrite.setReserve.Refused := by
  unfold decodeCop0
  split
  case h_1 hs =>
    unfold decodeCop0Func
    split
    case h_1 h => exact absurd ⟨ho, hs, h⟩ (hn .eret)
    case h_2 h => exact absurd ⟨ho, hs, h⟩ (hn .tlbp)
    case h_3 h => exact absurd ⟨ho, hs, h⟩ (hn .tlbr)
    case h_4 h => exact absurd ⟨ho, hs, h⟩ (hn .tlbwi)
    case h_5 h => exact absurd ⟨ho, hs, h⟩ (hn .tlbwr)
    case h_6 h => exact absurd ⟨ho, hs, h⟩ (hn .wait)
    case h_7 => exact refused_of_reserved (inert_reserved .passa)
  case h_2 h => exact absurd ⟨ho, h⟩ (hn .mfc0)
  case h_3 h => exact absurd ⟨ho, h⟩ (hn .mtc0)
  case h_4 => exact refused_of_reserved (inert_reserved .addu)

theorem decodeCop1_refused (ho : op w = 0b010001#6) :
    (decodeCop1 w d).dropZeroWrite.setReserve.Refused := by
  unfold decodeCop1
  split
  case h_1 h => exact absurd ⟨ho, h⟩ (hn .cf1)
  case h_2 h => exact absurd ⟨ho, h⟩ (hn .ct1)
  case h_3 h => exact absurd ⟨ho, h⟩ (hn .mt1)
  case h_4 => exact refused_of_reserved (inert_reserved .passa)

theorem decodeSpecial_refused (ho : op w = 0b000000#6) :
    (decodeSpecial w d).dropZeroWrite.setReserve.Refused := by
  unfold decodeSpecial
  split
  case h_1 h => exact absurd ⟨ho, h⟩ (hn .add)
  case h_2 h => exact absurd ⟨ho, h⟩ (hn .addu)
  case h_3 h => exact absurd ⟨ho, h⟩ (hn .sub)
  case h_4 h => exact absurd ⟨ho, h⟩ (hn .subu)
  case h_5 h => exact absurd ⟨ho, h⟩ (hn .slt)
  case h_6 h => exact absurd ⟨ho, h⟩ (hn .sltu)
  case h_7 h => exact absurd ⟨ho, h⟩ (hn .div)
  case h_8 h => exact absurd ⟨ho, h⟩ (hn .divu)
  case h_9 h => exact absurd ⟨ho, h⟩ (hn .mult)
  case h_10 h => exact absurd ⟨ho, h⟩ (hn .multu)
  case h_11 h => exact absurd ⟨ho, h⟩ (hn .and)
  case h_12 h => exact absurd ⟨ho, h⟩ (hn .nor)
  case h_13 h => exact absurd ⟨ho, h⟩ (hn .or)
  case h_14 h => exact absurd ⟨ho, h⟩ (hn .xor)
  case h_15 h => exact absurd ⟨ho, h⟩ (hn .sllv)
  case h_16 h => exact absurd ⟨ho, h⟩ (hn .sll)
  case h_17 h => exact absurd ⟨ho, h⟩ (hn .srav)
  case h_18 h => exact absurd ⟨ho, h⟩ (hn .sra)
  case h_19 h => exact absurd ⟨ho, h⟩ (hn .srlv)
  case h_20 h => exact absurd ⟨ho, h⟩ (hn .srl)
  case h_21 h => exact absurd ⟨ho, h⟩ (hn .jr)
  case h_22 h => exact absurd ⟨ho, h⟩ (hn .jalr)
  case h_23 h => exact absurd ⟨ho, h⟩ (hn .mfhi)
  case h_24 h => exact absurd ⟨ho, h⟩ (hn .mflo)
  case h_25 h => exact absurd ⟨ho, h⟩ (hn .mthi)
  case h_26 h => exact absurd ⟨ho, h⟩ (hn .mtlo)
  case h_27 h => exact absurd ⟨ho, h⟩ (hn .break)
  case h_28 h => exact absurd ⟨ho, h⟩ (hn .syscall)
  case h_29 h => exact absurd ⟨ho, h⟩ (hn .movz)
  case h_30 h => exact absurd ⟨ho, h⟩ (hn .movn)
  case h_31 h => exact absurd ⟨ho, h⟩ (hn .sync)
  case h_32 h => exact absurd ⟨ho, h⟩ (hn .tne)
  case h_33 => exact refused_of_reserved (inert_reserved .passa)

/-- A word without a name is refused, unless it is one of the two tables whose default is
empty. -/
theorem decodeOp_refused (hc : ¬ UnknownCache w) (hs : ¬ UnknownSpecial2 w) :
    (decodeOp w d).dropZeroWrite.setReserve.Refused := by
  unfold decodeOp
  split
  case h_1 h => exact absurd h (hn .addi)
  case h_2 h => exact absurd h (hn .addiu)
  case h_3 h => exact absurd h (hn .slti)
  case h_4 h => exact absurd h (hn .sltiu)
  case h_5 h => exact absurd h (hn .andi)
  case h_6 h => exact absurd h (hn .lui)
  case h_7 h => exact absurd h (hn .ori)
  case h_8 h => exact absurd h (hn .xori)
  case h_9 h => exact absurd h (hn .beq)
  case h_10 h => exact absurd h (hn .beql)
  case h_11 h => exact absurd h (hn .bne)
  case h_13 h => exact absurd h (hn .bgtz)
  case h_14 h => exact absurd h (hn .blez)
  case h_15 h => exact absurd h (hn .j)
  case h_16 h => exact absurd h (hn .jal)
  case h_17 h => exact absurd h (hn .lb)
  case h_18 h => exact absurd h (hn .lbu)
  case h_19 h => exact absurd h (hn .lh)
  case h_20 h => exact absurd h (hn .lhu)
  case h_21 h => exact absurd h (hn .lw)
  case h_22 h => exact absurd h (hn .ll)
  case h_23 h => exact absurd h (hn .sb)
  case h_24 h => exact absurd h (hn .sh)
  case h_25 h => exact absurd h (hn .sw)
  case h_26 h => exact absurd h (hn .sc)
  case h_27 h => exact absurd h (hn .lwl)
  case h_28 h => exact absurd h (hn .lwr)
  case h_29 h => exact absurd h (hn .swl)
  case h_30 h => exact absurd h (hn .swr)
  case h_12 h => exact decodeRegimm_refused hn h
  case h_31 h =>
    refine absurd ⟨h, ?_⟩ hc
    simp only [List.mem_cons, List.not_mem_nil, or_false, not_or]
    exact ⟨fun ht => hn .iIndexInvalid ⟨h, ht⟩, fun ht => hn .iIndexStoreTag ⟨h, ht⟩,
      fun ht => hn .iHitInvalid ⟨h, ht⟩, fun ht => hn .dIndexWritebackInvalid ⟨h, ht⟩,
      fun ht => hn .dIndexStoreTag ⟨h, ht⟩, fun ht => hn .dHitInvalid ⟨h, ht⟩,
      fun ht => hn .dHitWritebackInvalid ⟨h, ht⟩⟩
  case h_32 h => exact decodeCop0_refused hn h
  case h_33 h => exact decodeSpecial_refused hn h
  case h_34 h => exact decodeCop1_refused hn h
  case h_35 h => exact absurd h (hn .ldc1)
  case h_36 h => exact absurd h (hn .sdc1)
  case h_37 h =>
    refine absurd ⟨h, ?_⟩ hs
    simp only [List.mem_cons, List.not_mem_nil, or_false, not_or]
    exact ⟨fun hf => hn .madd ⟨h, hf⟩, fun hf => hn .maddu ⟨h, hf⟩,
      fun hf => hn .msub ⟨h, hf⟩, fun hf => hn .mul ⟨h, hf⟩⟩
  case h_38 h => exact absurd h (hn .pref)
  case h_39 => exact refused_of_reserved (inert_reserved .passa)

end Unnamed

section Unknown

variable {w : Word} {old : Cp0Control}

/-- The major opcode of an encoding. -/
def Encoding.opcode : Encoding → BitVec 6
  | major o => o
  | regimm _ => 0b000001#6
  | cache _ => 0b101111#6
  | cop0 _ | cop0Func _ => 0b010000#6
  | special _ => 0b000000#6
  | cop1 _ => 0b010001#6
  | special2 _ => 0b011100#6

theorem Encoding.op_of_matches {e : Encoding} (h : e.Matches w) : op w = e.opcode := by
  cases e with
  | major o => exact h
  | _ => exact h.1

/-- No instruction has the encoding of an unknown cache operation. -/
theorem UnknownCache.unnamed (h : UnknownCache w) (i : Instruction) : ¬ i.Encodes w := by
  intro hi
  have ho := Encoding.op_of_matches hi
  rw [h.1] at ho
  have hr := h.2
  simp only [List.mem_cons, List.not_mem_nil, or_false, not_or] at hr
  cases i
  case iIndexInvalid => exact hr.1 hi.2
  case iIndexStoreTag => exact hr.2.1 hi.2
  case iHitInvalid => exact hr.2.2.1 hi.2
  case dIndexWritebackInvalid => exact hr.2.2.2.1 hi.2
  case dIndexStoreTag => exact hr.2.2.2.2.1 hi.2
  case dHitInvalid => exact hr.2.2.2.2.2.1 hi.2
  case dHitWritebackInvalid => exact hr.2.2.2.2.2.2 hi.2
  all_goals exact absurd ho (by decide)

theorem UnknownSpecial2.unnamed (h : UnknownSpecial2 w) (i : Instruction) :
    ¬ i.Encodes w := by
  intro hi
  have ho := Encoding.op_of_matches hi
  rw [h.1] at ho
  have hr := h.2
  simp only [List.mem_cons, List.not_mem_nil, or_false, not_or] at hr
  cases i
  case madd => exact hr.1 hi.2
  case maddu => exact hr.2.1 hi.2
  case msub => exact hr.2.2.1 hi.2
  case mul => exact hr.2.2.2 hi.2
  all_goals exact absurd ho (by decide)

/-- An unknown cache operation raises nothing. -/
theorem UnknownCache.ctype (h : UnknownCache w) :
    (decoder w true old).cp0Ctl.ctype = old.ctype := by
  have hr := h.2
  simp only [List.mem_cons, List.not_mem_nil, or_false, not_or] at hr
  change (decodeOp w (presetDecoded w old)).cp0Ctl.ctype = _
  rw [decodeOp_cache h.1]
  unfold decodeCache
  dsimp only
  split <;> rfl

/-- So does an unknown function of `SPECIAL2`. -/
theorem UnknownSpecial2.ctype (h : UnknownSpecial2 w) :
    (decoder w true old).cp0Ctl.ctype = old.ctype := by
  change (decodeOp w (presetDecoded w old)).cp0Ctl.ctype = _
  rw [decodeOp_special2 h.1]
  unfold decodeSpecial2
  split <;> rfl

end Unknown

/-- The decoder accepts exactly the instruction set, for one word. -/
structure AcceptsExactly (w : Word) (old : Cp0Control) : Prop where
  named : ∀ i : Instruction, i.Encodes w → decoder w true old = i.decoded w old
  unnamed : (∀ i : Instruction, ¬ i.Encodes w) → (decoder w true old).Refused

namespace Instruction

variable {w : Word} {old : Cp0Control}

/-- What the three slipped rows say is not what their instruction needs. -/
theorem Slipped.decoder_ne {i : Instruction} (hs : i.Slipped) (h : i.Encodes w) :
    decoder w true old ≠ i.decoded w old := by
  intro he
  rcases hs with rfl | rfl | rfl
  · have hm := congrArg (fun d : Decoded => d.ctl.mul) he
    change (decodeOp w (presetDecoded w old)).ctl.mul = true at hm
    rw [decodeOp_special2 h.1, decodeSpecial2, h.2] at hm
    exact Bool.false_ne_true hm
  · have hm := congrArg (fun d : Decoded => d.ctl.sc) he
    change (decodeOp w (presetDecoded w old)).ctl.sc = false at hm
    rw [decodeOp, show op w = _ from h] at hm
    exact Bool.false_ne_true hm.symm
  · have hm := congrArg (fun d : Decoded => d.ctl.sc) he
    change (decodeOp w (presetDecoded w old)).ctl.sc = true at hm
    rw [decodeOp, show op w = _ from h] at hm
    exact Bool.false_ne_true hm

end Instruction

/-- The decoder accepts exactly the instruction set it names, except for the words of the two
empty defaults and of the three slipped rows. -/
theorem accepts_exactly_iff (w : Word) (old : Cp0Control) (ho : old.Clean) :
    AcceptsExactly w old ↔
      ¬ UnknownCache w ∧ ¬ UnknownSpecial2 w ∧
        ∀ i : Instruction, i.Slipped → ¬ i.Encodes w := by
  constructor
  · intro h
    refine ⟨fun hc => ?_, fun hs => ?_, fun i hs hi => hs.decoder_ne hi (h.named i hi)⟩
    · have ht := (h.unnamed hc.unnamed).ctype
      rw [hc.ctype, ho.1] at ht
      cases ht
    · have ht := (h.unnamed hs.unnamed).ctype
      rw [hs.ctype, ho.1] at ht
      cases ht
  · rintro ⟨hc, hs, hsl⟩
    exact ⟨fun i hi => Instruction.decoder_eq hi (fun h => hsl i h hi) ho,
      fun hn => decodeOp_refused hn hc hs⟩

/-- `ADDU $3,$1,$2` is accepted. -/
theorem accepts_exactly_addu : AcceptsExactly 0x00221821#32 {} :=
  (accepts_exactly_iff 0x00221821#32 {} ⟨rfl, rfl⟩).2
    ⟨by decide, by decide, by rintro i (rfl | rfl | rfl) <;> decide⟩

/-- `CLZ` decodes to nothing and raises nothing. -/
theorem not_accepts_exactly :
    ¬ ∀ (w : Word) (old : Cp0Control), old.Clean → AcceptsExactly w old := by
  intro h
  have ht := ((h 0x70221820#32 {} ⟨rfl, rfl⟩).unnamed
    (UnknownSpecial2.unnamed (by decide))).ctype
  exact absurd ht (by decide)

end FrailCPU
