import FrailCPU.Core.Step
import FrailCPU.Cp0.Timer

/-!
# The registers of coprocessor 0 as software sees them

`MTC0` assigns some bits of a register, `MFC0` reads the register by a case of its own, and the
hardware and the TLB write beside them. A register keeps to its type when its reserved fields
read zero: `Index`, `PageMask`, `Wired` and the `EntryLo` registers take reserved bits from
`MTC0`, and `TagLo` is missing from the case of `MFC0`.
-/

namespace FrailCPU

open ClockedMachine

/-- The registers that `MFC0` or `MTC0` names. -/
inductive Cp0Reg
  | index | random | entryLo0 | entryLo1 | context | pageMask | wired | badVaddr | count
  | entryHi | compare | status | cause | epc | prid | config0 | tagLo | errorEpc | ebase
  | config1
  deriving DecidableEq, Repr

namespace Cp0Reg

/-- Number and selection. -/
def address : Cp0Reg → BitVec 8
  | index => 0#5 ++ 0#3
  | random => 1#5 ++ 0#3
  | entryLo0 => 2#5 ++ 0#3
  | entryLo1 => 3#5 ++ 0#3
  | context => 4#5 ++ 0#3
  | pageMask => 5#5 ++ 0#3
  | wired => 6#5 ++ 0#3
  | badVaddr => 8#5 ++ 0#3
  | count => 9#5 ++ 0#3
  | entryHi => 10#5 ++ 0#3
  | compare => 11#5 ++ 0#3
  | status => 12#5 ++ 0#3
  | cause => 13#5 ++ 0#3
  | epc => 14#5 ++ 0#3
  | prid => 15#5 ++ 0#3
  | config0 => 16#5 ++ 0#3
  | tagLo => 28#5 ++ 0#3
  | errorEpc => 30#5 ++ 0#3
  | ebase => 15#5 ++ 1#3
  | config1 => 16#5 ++ 1#3

/-- The bits that `MTC0` assigns. -/
def assigned : Cp0Reg → Word
  | index | pageMask | wired | count | compare | epc | tagLo | errorEpc => BitVec.allOnes 32
  | entryLo0 | entryLo1 => 0x3fffffff#32
  | context => 0xff800000#32
  | entryHi => 0xffffe0ff#32
  | status => 0x1040ff17#32
  | cause => 0x00800300#32
  | config0 => 0x7#32
  | ebase => 0x3ffff000#32
  | random | badVaddr | prid | config1 => 0#32

/-- The fields that the types of `cp0_pkg.svh` declare reserved. -/
def reserved : Cp0Reg → Word
  | index => 0x7ffffff0#32
  | random | wired => 0xfffffff0#32
  | entryLo0 | entryLo1 => 0xfc000000#32
  | pageMask => 0xe0001fff#32
  | entryHi => 0x00001f00#32
  | status => 0x00040008#32
  | cause => 0x0f3f0083#32
  | ebase => 0x40000fff#32
  | _ => 0#32

/-- The bits that software may write. -/
def writable (k : Cp0Reg) : Word := k.assigned &&& ~~~k.reserved

/-- The register as it is kept. -/
def value (k : Cp0Reg) (r : Cp0Regs) : Word :=
  match k with
  | index => r.index
  | random => r.random
  | entryLo0 => r.entryLo0
  | entryLo1 => r.entryLo1
  | context => r.context
  | pageMask => r.pageMask
  | wired => r.wired
  | badVaddr => r.badVaddr
  | count => r.count
  | entryHi => r.entryHi
  | compare => r.compare
  | status => r.status.toWord
  | cause => r.cause.toWord
  | epc => r.epc
  | prid => 0x00004220#32
  | config0 => (0x8000048#28 ++ 0#1 ++ r.config0.extractLsb' 0 3 : BitVec 32)
  | tagLo => r.tagLo
  | errorEpc => r.errorEpc
  | ebase => (0b10#2 ++ r.ebase ++ 0#12 : BitVec 32)
  | config1 => 0x20291480#32

variable {k : Cp0Reg} {r : Cp0Regs}

theorem read_tagLo : r.read tagLo.address = 0#32 := rfl

theorem read_eq (h : k ≠ tagLo) : r.read k.address = k.value r := by
  cases k <;> first | rfl | exact absurd rfl h

theorem eq_maskedWrite {m old new x : Word}
    (h : ∀ i < 32, x.getLsbD i = if m.getLsbD i then new.getLsbD i else old.getLsbD i) :
    x = Lanes.maskedWrite m old new := by
  apply BitVec.eq_of_getLsbD_eq
  intro i hi
  rw [h i hi, Lanes.getLsbD_maskedWrite _ _ _ _ hi]

theorem status_write (s : Cp0Status) (wd : Word) :
    ({ cu0 := wd.getLsbD 28, bev := wd.getLsbD 22, im := wd.extractLsb' 8 8,
       um := wd.getLsbD 4, erl := wd.getLsbD 2, exl := wd.getLsbD 1,
       ie := wd.getLsbD 0 } : Cp0Status).toWord =
      Lanes.maskedWrite status.assigned s.toWord wd := by
  apply eq_maskedWrite
  intro i hi
  simp only [Cp0Status.toWord, BitVec.getLsbD_append, bit, assigned]
  interval_cases i <;> simp

theorem cause_write (c : Cp0Cause) (wd : Word) :
    ({ c with
       iv := wd.getLsbD 23
       ip := Lanes.maskedWrite 0x03#8 c.ip (wd.extractLsb' 8 8) } : Cp0Cause).toWord =
      Lanes.maskedWrite cause.assigned c.toWord wd := by
  apply eq_maskedWrite
  intro i hi
  simp only [Cp0Cause.toWord, BitVec.getLsbD_append, bit, assigned]
  interval_cases i <;> simp [Lanes.maskedWrite]

theorem config0_write (w wd : Word) :
    (0x8000048#28 ++ 0#1 ++ (Lanes.maskedWrite 0x7#32 w wd).extractLsb' 0 3 : BitVec 32) =
      Lanes.maskedWrite config0.assigned
        (0x8000048#28 ++ 0#1 ++ w.extractLsb' 0 3 : BitVec 32) wd := by
  apply eq_maskedWrite
  intro i hi
  simp only [BitVec.getLsbD_append, assigned]
  interval_cases i <;> simp [Lanes.maskedWrite]

theorem ebase_write (b : BitVec 18) (wd : Word) :
    (0b10#2 ++ wd.extractLsb' 12 18 ++ 0#12 : BitVec 32) =
      Lanes.maskedWrite ebase.assigned (0b10#2 ++ b ++ 0#12 : BitVec 32) wd := by
  apply eq_maskedWrite
  intro i hi
  simp only [BitVec.getLsbD_append, assigned]
  interval_cases i <;> simp

/-- `MTC0` of a register assigns some bits of it. -/
theorem value_write_self (wd : Word) :
    k.value (r.write k.address wd) = Lanes.maskedWrite k.assigned (k.value r) wd := by
  cases k with
  | status => exact status_write r.status wd
  | cause => exact cause_write r.cause wd
  | config0 => exact config0_write r.config0 wd
  | ebase => exact ebase_write r.ebase wd
  | entryLo0 => rfl
  | entryLo1 => rfl
  | context => rfl
  | entryHi => rfl
  | random => exact (Lanes.maskedWrite_zero _ _).symm
  | badVaddr => exact (Lanes.maskedWrite_zero _ _).symm
  | prid => exact (Lanes.maskedWrite_zero _ _).symm
  | config1 => exact (Lanes.maskedWrite_zero _ _).symm
  | index => exact (Lanes.maskedWrite_allOnes _ _).symm
  | pageMask => exact (Lanes.maskedWrite_allOnes _ _).symm
  | wired => exact (Lanes.maskedWrite_allOnes _ _).symm
  | count => exact (Lanes.maskedWrite_allOnes _ _).symm
  | compare => exact (Lanes.maskedWrite_allOnes _ _).symm
  | epc => exact (Lanes.maskedWrite_allOnes _ _).symm
  | tagLo => exact (Lanes.maskedWrite_allOnes _ _).symm
  | errorEpc => exact (Lanes.maskedWrite_allOnes _ _).symm

theorem value_writeSel0 (n : BitVec 5) (wd : Word) (h : k.address ≠ n ++ 0#3) :
    k.value (r.writeSel0 n wd) = k.value r := by
  unfold Cp0Regs.writeSel0
  split <;> cases k <;> first | rfl | exact absurd rfl h

/-- `MTC0` changes no other register. -/
theorem value_write_of_ne {wa : BitVec 8} (h : wa ≠ k.address) (wd : Word) :
    k.value (r.write wa wd) = k.value r := by
  rw [Cp0Regs.write]
  split
  · rename_i h0
    refine value_writeSel0 _ _ fun hk => h ?_
    rw [hk, eq_append_zero_iff]
    exact ⟨beq_iff_eq.mp h0, rfl⟩
  · split
    · rename_i hw
      rw [beq_iff_eq.mp hw] at h
      cases k <;> first | rfl | exact absurd rfl h
    · rfl

/-- A value that leaves the reserved bits alone. -/
theorem maskedWrite_writable_iff {m res old new : Word} (h : old &&& res = 0#32) :
    Lanes.maskedWrite m old new = Lanes.maskedWrite (m &&& ~~~res) old new ↔
      new &&& (m &&& res) = 0#32 := by
  have hold : ∀ i, res.getLsbD i = true → old.getLsbD i = false := by
    intro i hi
    have hb := congrArg (fun w : Word => w.getLsbD i) h
    simpa [hi] using hb
  constructor
  · intro he
    apply BitVec.eq_of_getLsbD_eq
    intro i hi
    have hb := congrArg (fun w : Word => w.getLsbD i) he
    simp only [Lanes.getLsbD_maskedWrite _ _ _ _ hi, BitVec.getLsbD_and, BitVec.getLsbD_not, hi,
      decide_true, Bool.true_and] at hb
    rw [BitVec.getLsbD_and, BitVec.getLsbD_and, BitVec.getLsbD_zero]
    cases hm : m.getLsbD i with
    | false => simp
    | true =>
        cases hr : res.getLsbD i with
        | false => simp
        | true =>
            rw [hm, hr, hold i hr] at hb
            simpa using hb
  · intro hz
    apply BitVec.eq_of_getLsbD_eq
    intro i hi
    have hb := congrArg (fun w : Word => w.getLsbD i) hz
    simp only [BitVec.getLsbD_and, BitVec.getLsbD_zero] at hb
    simp only [Lanes.getLsbD_maskedWrite _ _ _ _ hi, BitVec.getLsbD_and, BitVec.getLsbD_not, hi,
      decide_true, Bool.true_and]
    cases hm : m.getLsbD i with
    | false => simp
    | true =>
        cases hr : res.getLsbD i with
        | false => simp
        | true =>
            rw [hm, hr] at hb
            rw [hold i hr]
            simpa using hb

/-- What is not written keeps its reserved bits. -/
theorem maskedWrite_reserved {m res old new : Word} (hm : m &&& res = 0#32)
    (h : old &&& res = 0#32) : Lanes.maskedWrite m old new &&& res = 0#32 := by
  apply BitVec.eq_of_getLsbD_eq
  intro i hi
  have hb := congrArg (fun w : Word => w.getLsbD i) h
  have hc := congrArg (fun w : Word => w.getLsbD i) hm
  simp only [BitVec.getLsbD_and, BitVec.getLsbD_zero] at hb hc ⊢
  rw [Lanes.getLsbD_maskedWrite _ _ _ _ hi]
  cases hr : res.getLsbD i with
  | false => exact Bool.and_false _
  | true =>
      rw [hr, Bool.and_true] at hb hc
      rw [hc, hb]
      rfl

end Cp0Reg

/-- The reserved fields of all registers are zero. -/
def Cp0Regs.Clean (r : Cp0Regs) : Prop := ∀ k : Cp0Reg, k.value r &&& k.reserved = 0#32

/-- A cycle: the instruction in W, which is not `MTC0` and `ERET` at once, and the content of
the TLB. -/
structure Cp0Cycle where
  input : Cp0Input
  tlbRam : Tlb
  single : input.valid = true → input.isEret = false

namespace Cp0State

variable (s : Cp0State) (c : Cp0Cycle)

/-- The inputs of `cp0`, with the answer of the TLB. -/
def driven : Cp0Input := { c.input with mmuResp := mmuResp s.regs c.tlbRam }

def cycle : Cp0State := s.step (s.driven c)

/-- An `MTC0` is carried out. -/
def accepts : Bool :=
  !s.takesInterrupt (s.driven c) && c.input.ctype != .exception && c.input.valid

/-- The registers keep what software may write: the register that `MTC0` names reads the new
value in its writable bits and what it read before in the others, no register but `Count` changes
beside it, and reserved fields read zero. -/
structure Keeps : Prop where
  written : ∀ k : Cp0Reg, s.accepts c = true → c.input.wa = k.address →
    (s.cycle c).regs.read k.address =
      Lanes.maskedWrite k.writable (s.regs.read k.address) c.input.wd
  others : ∀ k : Cp0Reg, s.accepts c = true → c.input.wa ≠ k.address → k ≠ .count →
    k.value (s.cycle c).regs = k.value s.regs
  reserved : ∀ k : Cp0Reg, (s.cycle c).regs.read k.address &&& k.reserved = 0#32

/-- An `MTC0` writes no reserved bit, and nothing but zero to `TagLo`. -/
def Respects : Prop :=
  ∀ k : Cp0Reg, s.accepts c = true → c.input.wa = k.address →
    c.input.wd &&& (k.assigned &&& k.reserved) = 0#32 ∧ (k = .tagLo → c.input.wd = 0#32)

end Cp0State

section Clean

variable {r : Cp0Regs}

theorem Cp0Status.toWord_reserved (s : Cp0Status) :
    s.toWord &&& Cp0Reg.status.reserved = 0#32 := by
  apply BitVec.eq_of_getLsbD_eq
  intro i hi
  simp only [Cp0Status.toWord, BitVec.getLsbD_and, BitVec.getLsbD_append, bit, Cp0Reg.reserved]
  interval_cases i <;> simp

theorem Cp0Cause.toWord_reserved (c : Cp0Cause) :
    c.toWord &&& Cp0Reg.cause.reserved = 0#32 := by
  apply BitVec.eq_of_getLsbD_eq
  intro i hi
  simp only [Cp0Cause.toWord, BitVec.getLsbD_and, BitVec.getLsbD_append, bit, Cp0Reg.reserved]
  interval_cases i <;> simp

theorem ebase_reserved (b : BitVec 18) :
    (0b10#2 ++ b ++ 0#12 : BitVec 32) &&& Cp0Reg.ebase.reserved = 0#32 := by
  apply BitVec.eq_of_getLsbD_eq
  intro i hi
  simp only [BitVec.getLsbD_and, BitVec.getLsbD_append, Cp0Reg.reserved]
  interval_cases i <;> simp

theorem index_reserved (p : BitVec 1) (i : TlbIndex) :
    (p ++ 0#27 ++ i : BitVec 32) &&& Cp0Reg.index.reserved = 0#32 := by
  apply BitVec.eq_of_getLsbD_eq
  intro k hk
  simp only [BitVec.getLsbD_and, BitVec.getLsbD_append, Cp0Reg.reserved]
  interval_cases k <;> simp

theorem entryHi_reserved (v : BitVec 19) (a : BitVec 8) :
    (v ++ 0#5 ++ a : BitVec 32) &&& Cp0Reg.entryHi.reserved = 0#32 := by
  apply BitVec.eq_of_getLsbD_eq
  intro k hk
  simp only [BitVec.getLsbD_and, BitVec.getLsbD_append, Cp0Reg.reserved]
  interval_cases k <;> simp

theorem entryLo_reserved (pfn : BitVec 20) (c : BitVec 3) (d v g : BitVec 1) :
    (0#6 ++ pfn ++ c ++ d ++ v ++ g : BitVec 32) &&& Cp0Reg.entryLo0.reserved = 0#32 := by
  apply BitVec.eq_of_getLsbD_eq
  intro k hk
  simp only [BitVec.getLsbD_and, BitVec.getLsbD_append, Cp0Reg.reserved]
  interval_cases k <;> simp

/-- The registers that are kept as words decide. -/
theorem Cp0Regs.clean_of_words (hindex : r.index &&& Cp0Reg.index.reserved = 0#32)
    (hrandom : r.random &&& Cp0Reg.random.reserved = 0#32)
    (hlo0 : r.entryLo0 &&& Cp0Reg.entryLo0.reserved = 0#32)
    (hlo1 : r.entryLo1 &&& Cp0Reg.entryLo1.reserved = 0#32)
    (hmask : r.pageMask &&& Cp0Reg.pageMask.reserved = 0#32)
    (hwired : r.wired &&& Cp0Reg.wired.reserved = 0#32)
    (hhi : r.entryHi &&& Cp0Reg.entryHi.reserved = 0#32) : r.Clean := by
  intro k
  cases k with
  | index => exact hindex
  | random => exact hrandom
  | entryLo0 => exact hlo0
  | entryLo1 => exact hlo1
  | pageMask => exact hmask
  | wired => exact hwired
  | entryHi => exact hhi
  | status => exact r.status.toWord_reserved
  | cause => exact r.cause.toWord_reserved
  | ebase => exact ebase_reserved r.ebase
  | context => exact BitVec.and_zero
  | badVaddr => exact BitVec.and_zero
  | count => exact BitVec.and_zero
  | compare => exact BitVec.and_zero
  | epc => exact BitVec.and_zero
  | prid => exact BitVec.and_zero
  | config0 => exact BitVec.and_zero
  | tagLo => exact BitVec.and_zero
  | errorEpc => exact BitVec.and_zero
  | config1 => exact BitVec.and_zero

namespace Cp0Regs.Clean

variable (h : r.Clean) (i : Cp0Input)

include h

theorem setExl (b : Bool) : (r.setExl b).Clean :=
  clean_of_words (h .index) (h .random) (h .entryLo0) (h .entryLo1) (h .pageMask) (h .wired)
    (h .entryHi)

theorem takeInterrupt : (r.takeInterrupt i).Clean := by
  rw [Cp0Regs.takeInterrupt, recordPc_eq]
  exact clean_of_words (h .index) (h .random) (h .entryLo0) (h .entryLo1) (h .pageMask)
    (h .wired) (h .entryHi)

theorem writeVpn2 (vaddr : Word) :
    FrailCPU.writeVpn2 r.entryHi vaddr &&& Cp0Reg.entryHi.reserved = 0#32 :=
  Cp0Reg.maskedWrite_reserved (by decide) (h .entryHi)

theorem takeException (code : BitVec 5) : (r.takeException code i).Clean := by
  rw [takeException_eq]
  refine clean_of_words (h .index) (h .random) (h .entryLo0) (h .entryLo1) (h .pageMask)
    (h .wired) ?_
  cases i.refused with
  | none => exact h .entryHi
  | some vaddr => exact h.writeVpn2 vaddr

/-- What the TLB answers has the reserved fields at zero. -/
theorem tlbResult (t : TlbType) (tlbRam : Tlb) : (r.tlbResult t (mmuResp r tlbRam)).Clean := by
  cases t with
  | tlbp =>
      refine clean_of_words ?_ (h .random) (h .entryLo0) (h .entryLo1) (h .pageMask) (h .wired)
        (h .entryHi)
      exact index_reserved _ _
  | tlbr =>
      refine clean_of_words (h .index) (h .random) ?_ ?_ (h .pageMask) (h .wired) ?_
      · exact entryLo_reserved _ _ _ _ _
      · exact entryLo_reserved _ _ _ _ _
      · exact entryHi_reserved _ _
  | tlbwi => exact h
  | tlbwr => exact h
  | noTlb => exact h

end Cp0Regs.Clean

end Clean

namespace Cp0State

variable {s : Cp0State} {c : Cp0Cycle} {i : Cp0Input}

theorem value_counted {k : Cp0Reg} (h : k ≠ .count) : k.value (s.counted i) = k.value s.regs := by
  rw [counted]
  split
  · cases k <;> first | rfl | exact absurd rfl h
  · rfl

theorem clean_counted (h : s.regs.Clean) : (s.counted i).Clean := by
  intro k
  by_cases hk : k = .count
  · rw [hk]
    exact BitVec.and_zero
  · rw [value_counted hk]
    exact h k

/-- The answer of the TLB does not depend on the counter. -/
theorem tlbResult_counted (hs : s.regs.Clean) :
    ((s.counted (s.driven c)).tlbResult (s.driven c).tlbType (s.driven c).mmuResp).Clean := by
  have hm : mmuResp (s.counted (s.driven c)) c.tlbRam = mmuResp s.regs c.tlbRam := by
    rw [counted]
    split <;> rfl
  change ((s.counted (s.driven c)).tlbResult _ (mmuResp s.regs c.tlbRam)).Clean
  rw [← hm]
  exact (clean_counted hs).tlbResult _ _

theorem regs_cycle_of_accepts (h : s.accepts c = true) :
    (s.cycle c).regs = (s.counted (s.driven c)).write c.input.wa c.input.wd := by
  rw [accepts, Bool.and_eq_true, Bool.and_eq_true, Bool.not_eq_true', bne_iff_ne] at h
  obtain ⟨⟨hi, he⟩, hv⟩ := h
  have hret : (s.driven c).isEret = false := c.single hv
  change s.regsNxt (s.driven c) = _
  rw [regsNxt, hret, if_neg Bool.false_ne_true, regsTaken, hi, if_neg Bool.false_ne_true,
    if_neg (by rw [beq_iff_eq]; exact he), if_pos (show (s.driven c).valid = true from hv)]
  rfl

/-- Without an `MTC0` the reserved fields stay zero. -/
theorem clean_cycle_of_not_accepts (hs : s.regs.Clean) (h : s.accepts c = false) :
    (s.cycle c).regs.Clean := by
  have htaken : (s.regsTaken (s.driven c)).Clean := by
    have hc : (s.counted (s.driven c)).Clean := clean_counted hs
    rw [regsTaken]
    split
    · exact hc.takeInterrupt _
    · split
      · exact hc.takeException _ _
      · rename_i hi he
        have hct : (c.input.ctype == .exception) = false := Bool.eq_false_iff.mpr he
        rw [accepts, Bool.eq_false_iff.mpr hi, bne, hct] at h
        have hv : (s.driven c).valid = false := h
        rw [if_neg (by rw [hv]; exact Bool.false_ne_true)]
        exact tlbResult_counted hs
  change (s.regsNxt (s.driven c)).Clean
  rw [regsNxt]
  split
  · exact htaken.setExl false
  · exact htaken

/-- What software reads is the register, `TagLo` apart. -/
theorem read_reserved {r : Cp0Regs} {k : Cp0Reg} (h : k.value r &&& k.reserved = 0#32) :
    r.read k.address &&& k.reserved = 0#32 := by
  by_cases hk : k = .tagLo
  · rw [hk]
    exact BitVec.and_zero
  · rw [Cp0Reg.read_eq hk]
    exact h

theorem keeps_of_not_accepts (hs : s.regs.Clean) (h : s.accepts c = false) : s.Keeps c where
  written _ ha := by
    rw [h] at ha
    cases ha
  others _ ha := by
    rw [h] at ha
    cases ha
  reserved k := read_reserved (clean_cycle_of_not_accepts hs h k)

/-- The register that `MTC0` names. -/
theorem read_cycle_of_accepts {k : Cp0Reg} (h : s.accepts c = true)
    (ha : c.input.wa = k.address) (hk : k ≠ .tagLo) :
    (s.cycle c).regs.read k.address =
      Lanes.maskedWrite k.assigned (s.regs.read k.address) c.input.wd := by
  rw [Cp0Reg.read_eq hk, Cp0Reg.read_eq hk, regs_cycle_of_accepts h, ha, Cp0Reg.value_write_self]
  by_cases hc : k = .count
  · rw [hc]
    exact (Lanes.maskedWrite_allOnes _ _).trans (Lanes.maskedWrite_allOnes _ _).symm
  · rw [value_counted hc]

theorem written_iff {k : Cp0Reg} (hs : s.regs.Clean) (h : s.accepts c = true)
    (ha : c.input.wa = k.address) :
    (s.cycle c).regs.read k.address =
        Lanes.maskedWrite k.writable (s.regs.read k.address) c.input.wd ↔
      c.input.wd &&& (k.assigned &&& k.reserved) = 0#32 ∧ (k = .tagLo → c.input.wd = 0#32) := by
  by_cases hk : k = .tagLo
  · subst hk
    rw [Cp0Reg.read_tagLo, Cp0Reg.read_tagLo]
    have hw : Cp0Reg.tagLo.writable = BitVec.allOnes 32 := by decide
    have hr : Cp0Reg.tagLo.assigned &&& Cp0Reg.tagLo.reserved = 0#32 := by decide
    rw [hw, hr, Lanes.maskedWrite_allOnes, BitVec.and_zero]
    exact ⟨fun hz => ⟨rfl, fun _ => hz.symm⟩, fun hz => (hz.2 rfl).symm⟩
  · rw [read_cycle_of_accepts h ha hk, Cp0Reg.writable,
      Cp0Reg.maskedWrite_writable_iff (read_reserved (hs k))]
    exact ⟨fun hz => ⟨hz, fun ht => absurd ht hk⟩, fun hz => hz.1⟩

theorem value_cycle_of_ne {k : Cp0Reg} (h : s.accepts c = true) (ha : c.input.wa ≠ k.address)
    (hk : k ≠ .count) : k.value (s.cycle c).regs = k.value s.regs := by
  rw [regs_cycle_of_accepts h, Cp0Reg.value_write_of_ne ha, value_counted hk]

/-- A value that respects the reserved fields leaves them zero. -/
theorem clean_cycle_of_respects (hs : s.regs.Clean) (h : s.accepts c = true)
    (hr : s.Respects c) : (s.cycle c).regs.Clean := by
  intro k
  by_cases hc : k = .count
  · rw [hc]
    exact BitVec.and_zero
  by_cases ht : k = .tagLo
  · rw [ht]
    exact BitVec.and_zero
  by_cases ha : c.input.wa = k.address
  · rw [← Cp0Reg.read_eq ht, (written_iff hs h ha).mpr (hr k h ha)]
    refine Cp0Reg.maskedWrite_reserved ?_ (read_reserved (hs k))
    rw [Cp0Reg.writable, BitVec.and_assoc, BitVec.not_and_self]
    exact BitVec.and_zero
  · rw [value_cycle_of_ne h ha hc]
    exact hs k

theorem clean_cycle (hs : s.regs.Clean) (hr : s.Respects c) : (s.cycle c).regs.Clean := by
  cases h : s.accepts c with
  | false => exact clean_cycle_of_not_accepts hs h
  | true => exact clean_cycle_of_respects hs h hr

theorem keeps_iff (hs : s.regs.Clean) : s.Keeps c ↔ s.Respects c := by
  constructor
  · intro hk k h ha
    exact (written_iff hs h ha).mp (hk.written k h ha)
  · intro hr
    cases h : s.accepts c with
    | false => exact keeps_of_not_accepts hs h
    | true =>
        exact ⟨fun k _ ha => (written_iff hs h ha).mpr (hr k h ha),
          fun k _ ha hc => value_cycle_of_ne h ha hc,
          fun k => read_reserved (clean_cycle_of_respects hs h hr k)⟩

theorem clean_reset : ({} : Cp0State).regs.Clean :=
  Cp0Regs.clean_of_words rfl rfl rfl rfl rfl rfl rfl

/-- A cycle with `MTC0`. -/
def mtc0 (k : Cp0Reg) (wd : Word) : Cp0Cycle where
  input := { valid := true, wa := k.address, wd := wd }
  tlbRam := fun _ => {}
  single _ := rfl

end Cp0State

end FrailCPU
