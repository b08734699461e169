import FrailCPU.Core.Group
import FrailCPU.Decode.Hilo
import FrailCPU.Execute.MulDiv

/-!
# HI and LO in program order

The effect of a committed group on HI and LO against the architecture, which executes
slot 1 before slot 0. `HiloInstr.exec` is the effect of one instruction, and a division
by zero has none that is defined. The results of the units are those they reach when the
operands of the group stay in front of them.
-/

namespace FrailCPU

namespace HiLo

def bits (h : HiLo) : BitVec 64 := h.hi ++ h.lo

def ofBits (b : BitVec 64) : HiLo := ⟨b.extractLsb' 32 32, b.extractLsb' 0 32⟩

@[simp] theorem ofBits_append (x y : Word) : ofBits (x ++ y) = ⟨x, y⟩ := by
  have hx : (x ++ y : BitVec 64).extractLsb' 32 32 = x := BitVec.extractLsb'_append_eq_left
  have hy : (x ++ y : BitVec 64).extractLsb' 0 32 = y := by
    rw [BitVec.extractLsb'_append_eq_of_add_le (by omega), BitVec.extractLsb'_eq_self]
  rw [ofBits, hx, hy]

end HiLo

/-- The product of the operands, in the double width. -/
def mulOf (signed : Bool) (rd : Operands) : BitVec 64 :=
  if signed then rd.rd1.signExtend 64 * rd.rd2.signExtend 64
  else rd.rd1.setWidth 64 * rd.rd2.setWidth 64

/-- The remainder in front of the quotient. -/
def divOf (signed : Bool) (rd : Operands) : BitVec 64 :=
  if signed then rd.rd1.srem rd.rd2 ++ rd.rd1.sdiv rd.rd2
  else rd.rd1 % rd.rd2 ++ rd.rd1 / rd.rd2

/-- The effect of an instruction. -/
def HiloInstr.exec (k : HiloInstr) (rd : Operands) (h : HiLo) : HiLo :=
  match k with
  | .mult | .multu => .ofBits (mulOf k.signed rd)
  | .div | .divu => .ofBits (divOf k.signed rd)
  | .madd | .maddu => .ofBits (h.bits + mulOf k.signed rd)
  | .msub => .ofBits (h.bits - mulOf k.signed rd)
  | .mthi => { h with hi := rd.rd1 }
  | .mtlo => { h with lo := rd.rd1 }
  | _ => h

/-- What the architecture lets an instruction read from HI or LO. -/
def HiloInstr.Reads (k : HiloInstr) (h : HiLo) (x : Word) : Prop :=
  (k = .mfhi → x = h.hi) ∧ (k = .mflo → x = h.lo)

section Units

variable (dataI : Pair IssueData) (rd : Pair Operands)

/-- The operands of the units: the magnitudes. -/
def unitA : Word := if nega dataI rd then -multia dataI rd else multia dataI rd

def unitB : Word := if negb dataI rd then -multib dataI rd else multib dataI rd

/-- The results that the units reach for the operands of the group. -/
def unitResult : MulDivResult where
  multc := (({} : Multiplier).next true (unitA dataI rd) (unitB dataI rd)).c
  divc := ((fun d : Divider => d.next true (unitA dataI rd) (unitB dataI rd))^[33] {}).c

/-- The operands that go to the units, as those of one instruction. -/
def unitOperands : Operands := ⟨multia dataI rd, multib dataI rd⟩

theorem signExtend_of_msb {x : Word} (h : x.msb = true) :
    x.signExtend 64 = -(-x).setWidth 64 := by
  have hx := x.isLt
  have hge : 2 ^ 32 ≤ 2 * x.toNat := BitVec.msb_eq_true_iff_two_mul_ge.mp h
  apply BitVec.eq_of_toNat_eq
  rw [BitVec.toNat_signExtend, h, BitVec.toNat_neg, BitVec.toNat_setWidth,
    BitVec.toNat_setWidth, BitVec.toNat_neg]
  simp only [if_true]
  omega

/-- The sign of a product of magnitudes. -/
theorem mulOf_magnitudes (signed : Bool) (a b : Word) :
    (if (signed && a.msb) != (signed && b.msb) then
        -((if signed && a.msb then -a else a).setWidth 64 *
          (if signed && b.msb then -b else b).setWidth 64)
      else
        (if signed && a.msb then -a else a).setWidth 64 *
          (if signed && b.msb then -b else b).setWidth 64) = mulOf signed ⟨a, b⟩ := by
  cases signed with
  | false => rfl
  | true =>
      simp only [mulOf, Bool.true_and, if_true]
      cases ha : a.msb <;> cases hb : b.msb <;>
        simp [signExtend_of_msb, BitVec.signExtend_eq_setWidth_of_msb_false, ha, hb]

/-- The signs of a quotient of magnitudes and of its remainder, which has the sign of the
dividend. -/
theorem divOf_magnitudes (signed : Bool) (a b : Word) :
    ((if signed && a.msb then
        -((if signed && a.msb then -a else a) % (if signed && b.msb then -b else b))
      else (if signed && a.msb then -a else a) % (if signed && b.msb then -b else b)) ++
      (if (signed && a.msb) != (signed && b.msb) then
        -((if signed && a.msb then -a else a) / (if signed && b.msb then -b else b))
      else (if signed && a.msb then -a else a) / (if signed && b.msb then -b else b)) :
        BitVec 64) = divOf signed ⟨a, b⟩ := by
  cases signed with
  | false => rfl
  | true =>
      simp only [divOf, Bool.true_and, if_true, BitVec.sdiv_eq, BitVec.srem_eq]
      cases ha : a.msb <;> cases hb : b.msb <;> rfl

theorem unitB_ne_zero (hb : multib dataI rd ≠ 0#32) : unitB dataI rd ≠ 0#32 := by
  unfold unitB
  split
  · simpa using hb
  · exact hb

theorem hiloData_mul (h : (dataI.slot1.ctl.mul || dataI.slot0.ctl.mul) = true) :
    hiloData dataI rd (unitResult dataI rd) =
      mulOf (signedMulDivOf dataI) (unitOperands dataI rd) := by
  simp only [hiloData, h, if_true, unitResult, Multiplier.c_next]
  exact mulOf_magnitudes (signedMulDivOf dataI) (multia dataI rd) (multib dataI rd)

theorem hiloData_div (hm : (dataI.slot1.ctl.mul || dataI.slot0.ctl.mul) = false)
    (hd : (dataI.slot1.ctl.div || dataI.slot0.ctl.div) = true)
    (hb : multib dataI rd ≠ 0#32) :
    hiloData dataI rd (unitResult dataI rd) =
      divOf (signedMulDivOf dataI) (unitOperands dataI rd) := by
  have hub : unitB dataI rd ≠ 0#32 := unitB_ne_zero dataI rd hb
  have hc : (unitResult dataI rd).divc =
      unitA dataI rd % unitB dataI rd ++ unitA dataI rd / unitB dataI rd :=
    Divider.c_iterate hub
  have hi : (unitA dataI rd % unitB dataI rd ++ unitA dataI rd / unitB dataI rd :
      BitVec 64).extractLsb' 32 32 = unitA dataI rd % unitB dataI rd :=
    congrArg HiLo.hi (HiLo.ofBits_append _ _)
  have hlo : (unitA dataI rd % unitB dataI rd ++ unitA dataI rd / unitB dataI rd :
      BitVec 64).extractLsb' 0 32 = unitA dataI rd / unitB dataI rd :=
    congrArg HiLo.lo (HiLo.ofBits_append _ _)
  simp only [hiloData, hm, hd, if_true, Bool.false_eq_true, if_false, hc, hi, hlo]
  exact divOf_magnitudes (signedMulDivOf dataI) (multia dataI rd) (multib dataI rd)

end Units

/-- What the control record of an instruction asks for: `MADDU` adds the sum of its
operands. -/
def HiloInstr.written (k : HiloInstr) (rd : Operands) (h : HiLo) : HiLo :=
  if k = .maddu then .ofBits (h.bits + (rd.rd1 + rd.rd2).setWidth 64) else k.exec rd h

/-- `alu_out_ext` of an instruction that writes both halves. -/
def HiloInstr.result (k : HiloInstr) (rd : Operands) : BitVec 64 :=
  if k = .maddu then (rd.rd1 + rd.rd2).setWidth 64
  else if k.divides then divOf k.signed rd else mulOf k.signed rd

/-- The instruction of an issued record. -/
def IssueData.hiloInstr (d : IssueData) : HiloInstr :=
  if d.valid then FrailCPU.hiloInstr d.rawInstr else .other

/-- What the issue stage guarantees about the instructions of a group on HI and LO. -/
structure HiloGroup (dataI : Pair IssueData) : Prop where
  hilo : dataI.Each fun d => d.ctl.Hilo d.hiloInstr
  coherent : dataI.Each fun d => d.ctl.Coherent
  multi : (dataI.slot1.ctl.multiOp && dataI.slot0.ctl.multiOp) = false
  lo : (dataI.slot1.ctl.lowrite && dataI.slot0.ctl.lotoreg) = false
  hi : (dataI.slot1.ctl.hiwrite && dataI.slot0.ctl.hitoreg) = false
  eret : dataI.slot1.cp0Ctl.ctype = .eret → dataI.slot0 = {}

section Issue

theorem decodeSlot_hilo {f : FetchData} (preB : Bool) (prePc : Word) (h : f.valid = true) :
    (decodeSlot f preB prePc).ctl.Hilo (hiloInstr f.rawInstr) := by
  simp only [decodeSlot, h]
  exact decoder_hilo f.rawInstr f.cp0Ctl

theorem issueEn2_hilo {c1 c2 : DecodeData} {b : Pair PortBypass}
    (h : issueEn2 c1 c2 b = true) :
    (c1.ctl.lowrite && c2.ctl.lotoreg) = false ∧ (c1.ctl.hiwrite && c2.ctl.hitoreg) = false := by
  simp only [issueEn2, Bool.and_eq_true, Bool.not_eq_true', Bool.or_eq_false_iff] at h
  exact ⟨h.2.1.1.1.1.1.2, h.2.1.1.1.1.2⟩

theorem hilo_issued {f : FetchData} {preB : Bool} {prePc : Word}
    (h : (decodeSlot f preB prePc).valid = true) {d : IssueData}
    (hctl : d.ctl = (decodeSlot f preB prePc).ctl) (hv : d.valid = f.valid)
    (hraw : d.rawInstr = f.rawInstr) : d.ctl.Hilo d.hiloInstr := by
  have hf : f.valid = true := h
  rw [IssueData.hiloInstr, hv, hf, if_pos rfl, hctl, hraw]
  exact decodeSlot_hilo preB prePc hf

theorem hilo_empty : ({} : IssueData).ctl.Hilo ({} : IssueData).hiloInstr := Control.hilo_zero

/-- The contents of a cleared register. -/
theorem hiloGroup_empty : HiloGroup ⟨{}, {}⟩ where
  hilo := ⟨hilo_empty, hilo_empty⟩
  coherent := ⟨Control.coherent_zero, Control.coherent_zero⟩
  multi := rfl
  lo := rfl
  hi := rfl
  eret := fun _ => rfl

variable (c1 c2 : DecodeData) (b : Pair PortBypass) (rd1 rd2 : Pair Word)

/-- The record is one that the decoder made of some fetched word. -/
def DecodeData.Fetched (c : DecodeData) : Prop :=
  ∃ f preB prePc, c = decodeSlot f preB prePc

theorem hiloGroup_issueGroup (hc1 : c1.Fetched) (hc2 : c2.Fetched) :
    HiloGroup (issueGroup c1 c2 b rd1 rd2) := by
  obtain ⟨f1, preB1, prePc1, rfl⟩ := hc1
  obtain ⟨f2, preB2, prePc2, rfl⟩ := hc2
  by_cases h1 : issueEn1 (decodeSlot f1 preB1 prePc1) (decodeSlot f2 preB2 prePc2) b = true
  · have hv1 : (decodeSlot f1 preB1 prePc1).valid = true := by
      simp only [issueEn1, Bool.and_eq_true] at h1
      exact h1.1.1
    by_cases h2 : issueEn2 (decodeSlot f1 preB1 prePc1) (decodeSlot f2 preB2 prePc2) b = true
    · have ht := issueEn2_together h2
      obtain ⟨hlo, hhi⟩ := issueEn2_hilo h2
      simp only [issueGroup, h1, h2, if_true]
      exact
        { hilo := ⟨hilo_issued hv1 rfl rfl rfl, hilo_issued ht.valid2 rfl rfl rfl⟩
          coherent := ⟨decoder_coherent _ _ _, decoder_coherent _ _ _⟩
          multi := ht.multi
          lo := hlo
          hi := hhi
          eret := fun he => absurd he ht.ctype1.2 }
    · simp only [issueGroup, h1, h2, if_true]
      exact
        { hilo := ⟨hilo_issued hv1 rfl rfl rfl, hilo_empty⟩
          coherent := ⟨decoder_coherent _ _ _, Control.coherent_zero⟩
          multi := Bool.and_false _
          lo := Bool.and_false _
          hi := Bool.and_false _
          eret := fun _ => rfl }
  · have h2 : ¬ issueEn2 (decodeSlot f1 preB1 prePc1) (decodeSlot f2 preB2 prePc2) b = true :=
      fun h2 => h1 (issueEn1_of_issueEn2 h2)
    simp only [issueGroup, h1, h2]
    exact hiloGroup_empty

end Issue

section Group

variable {dataI : Pair IssueData} {rd : Pair Operands} (g : HiloGroup dataI)

theorem Control.Coherent.not_link {c : Control} (h : c.Coherent) (hw : c.writesHilo = true) :
    c.isLink = false := by
  rw [Bool.eq_false_iff]
  intro hl
  have := (h.transfers_plain (h.link_transfers hl)).2.1
  rw [hw] at this
  exact absurd this (by simp)


theorem hiloData_result {k : HiloInstr} {r : Operands} (ho : (k.overwrites || k.accumulates) = true)
    (hne : k ≠ .maddu)
    (hmul : (dataI.slot1.ctl.mul || dataI.slot0.ctl.mul) = k.multiplies)
    (hdiv : (dataI.slot1.ctl.div || dataI.slot0.ctl.div) = k.divides)
    (hsigned : signedMulDivOf dataI = k.signed) (hops : unitOperands dataI rd = r)
    (hd : k.divides = true → r.rd2 ≠ 0#32) :
    hiloData dataI rd (unitResult dataI rd) = k.result r := by
  have hb : multib dataI rd = r.rd2 := congrArg Operands.rd2 hops
  rw [HiloInstr.result, if_neg hne]
  by_cases hk : k.divides = true
  · have hm : k.multiplies = false := by
      cases k <;> first | rfl | exact absurd hk (by decide)
    rw [if_pos hk, hiloData_div dataI rd (hmul.trans hm) (hdiv.trans hk) (hb ▸ hd hk), hsigned,
      hops]
  · have hm : k.multiplies = true := by
      cases k <;> first | rfl | exact absurd rfl hk | exact absurd rfl hne | exact absurd ho (by decide)
    rw [if_neg hk, hiloData_mul dataI rd (hmul.trans hm), hsigned, hops]

/-- An instruction that writes both halves uses a unit, `MADDU` apart. -/
theorem HiloInstr.usesUnit {k : HiloInstr} (ho : (k.overwrites || k.accumulates) = true)
    (hne : k ≠ .maddu) : (k.divides || k.multiplies) = true := by
  cases k <;> first | rfl | exact absurd rfl hne | exact absurd ho (by decide)

/-- The record of `MADDU` asks the arithmetic unit for the sum. -/
theorem aluOut_sum {d : IssueData} {r : Operands} (h : d.ctl.Hilo .maddu) :
    aluOut d r = r.rd1 + r.rd2 := by
  obtain ⟨ha, hs, hv⟩ := h.sum rfl
  simp [aluOut, aluA, aluB, alu, ha, hs, hv]

include g

theorem HiloGroup.unitsOf (hown : dataI.slot1.ctl.multiOp = true) :
    dataI.slot0.ctl.mul = false ∧ dataI.slot0.ctl.div = false := by
  have h := g.multi
  rw [hown, Bool.true_and, Control.multiOp, Bool.or_eq_false_iff] at h
  exact ⟨h.2, h.1⟩

theorem HiloGroup.aluOutExt1 (hw : (dataI.slot1.hiloInstr.overwrites ||
      dataI.slot1.hiloInstr.accumulates) = true)
    (hd : dataI.slot1.hiloInstr.divides = true → rd.slot1.rd2 ≠ 0#32) :
    FrailCPU.aluOutExt1 dataI rd (unitResult dataI rd) =
      dataI.slot1.hiloInstr.result rd.slot1 := by
  have hc := g.hilo.slot1
  have hlink : dataI.slot1.ctl.isLink = false := by
    apply g.coherent.slot1.not_link
    rw [Control.writesHilo, hc.hiwrite, HiloInstr.writesHi, hw]
    rfl
  generalize dataI.slot1.hiloInstr = k at hc hw hd ⊢
  have ho : k ≠ .other := by rintro rfl; exact absurd hw (by decide)
  rw [FrailCPU.aluOutExt1, hlink, if_neg (by simp)]
  by_cases hm : k = .maddu
  · subst hm
    rw [hc.mul ho, hc.div ho, aluOut_sum hc]
    rfl
  · have hu := HiloInstr.usesUnit hw hm
    have hunit : dataI.slot1.ctl.multiOp = true := by
      rw [Control.multiOp, hc.mul ho, hc.div ho, hu]
    obtain ⟨hm0, hd0⟩ := g.unitsOf hunit
    have hown : mulDivSlot1 dataI = true := by rw [mulDivSlot1, Bool.or_comm]; exact hunit
    rw [hc.mul ho, hc.div ho, Bool.or_comm, hu, if_pos rfl]
    apply hiloData_result hw hm
    · rw [hm0, Bool.or_false, hc.mul ho]
    · rw [hd0, Bool.or_false, hc.div ho]
    · rw [signedMulDivOf, if_pos hown, hc.signedMulDiv ho]
    · simp [unitOperands, multia, multib, hown]
    · exact hd

theorem HiloGroup.aluOutExt0 (hw : (dataI.slot0.hiloInstr.overwrites ||
      dataI.slot0.hiloInstr.accumulates) = true)
    (hd : dataI.slot0.hiloInstr.divides = true → rd.slot0.rd2 ≠ 0#32) :
    FrailCPU.aluOutExt0 dataI rd (unitResult dataI rd) =
      dataI.slot0.hiloInstr.result rd.slot0 := by
  have hc := g.hilo.slot0
  generalize dataI.slot0.hiloInstr = k at hc hw hd ⊢
  have ho : k ≠ .other := by rintro rfl; exact absurd hw (by decide)
  rw [FrailCPU.aluOutExt0]
  by_cases hm : k = .maddu
  · subst hm
    rw [hc.mul ho, hc.div ho, aluOut_sum hc]
    rfl
  · have hu := HiloInstr.usesUnit hw hm
    have hmulti := g.multi
    rw [Control.multiOp, Control.multiOp, hc.mul ho, hc.div ho, hu, Bool.and_true,
      Bool.or_eq_false_iff] at hmulti
    have hown : mulDivSlot1 dataI = false := by
      rw [mulDivSlot1, hmulti.1, hmulti.2]
      rfl
    rw [hc.mul ho, hc.div ho, hu, if_pos rfl]
    apply hiloData_result hw hm
    · rw [hmulti.2, Bool.false_or, hc.mul ho]
    · rw [hmulti.1, Bool.false_or, hc.div ho]
    · simp [signedMulDivOf, hown, hc.signedMulDiv ho]
    · simp [unitOperands, multia, multib, hown]
    · exact hd
end Group

section Commit

/-- A record in W that carries what its control record asks for. -/
structure MemoryData.CarriesHilo (d : MemoryData) (k : HiloInstr) (rd : Operands) : Prop where
  hilo : d.ctl.Hilo k
  result : (k.overwrites || k.accumulates) = true → d.aluOutExt = k.result rd
  move : k = .mthi ∨ k = .mtlo → d.regData = rd.rd1

variable {d : MemoryData} {k : HiloInstr} {rd : Operands} {h : HiLo}

theorem MemoryData.CarriesHilo.hiDataOf (hd : d.CarriesHilo k rd) (hk : k.writesHi = true) :
    FrailCPU.hiDataOf h d = (k.written rd h).hi := by
  rw [FrailCPU.hiDataOf, hiloRes, hd.hilo.srca, hd.hilo.hiloOp]
  cases k with
  | mthi => exact hd.move (Or.inl rfl)
  | mtlo | mfhi | mflo | other => exact absurd hk (by decide)
  | _ => rw [hd.result rfl]; rfl

theorem MemoryData.CarriesHilo.loDataOf (hd : d.CarriesHilo k rd) (hk : k.writesLo = true) :
    FrailCPU.loDataOf h d = (k.written rd h).lo := by
  rw [FrailCPU.loDataOf, hiloRes, hd.hilo.srca, hd.hilo.hiloOp]
  cases k with
  | mtlo => exact hd.move (Or.inr rfl)
  | mthi | mfhi | mflo | other => exact absurd hk (by decide)
  | _ => rw [hd.result rfl]; rfl

/-- The merge of the writes of a group. -/
def mergeHilo (k : Pair HiloInstr) (rd : Pair Operands) (h : HiLo) : HiLo where
  hi := if k.slot0.writesHi then (k.slot0.written rd.slot0 h).hi
    else if k.slot1.writesHi then (k.slot1.written rd.slot1 h).hi else h.hi
  lo := if k.slot0.writesLo then (k.slot0.written rd.slot0 h).lo
    else if k.slot1.writesLo then (k.slot1.written rd.slot1 h).lo else h.lo

theorem hiloNxt_eq {w : Pair MemoryData} {k : Pair HiloInstr} {rd : Pair Operands}
    (h1 : w.slot1.CarriesHilo k.slot1 rd.slot1) (h0 : w.slot0.CarriesHilo k.slot0 rd.slot0) :
    hiloNxt h w = mergeHilo k rd h := by
  rw [hiloNxt, mergeHilo, h1.hilo.hiwrite, h1.hilo.lowrite, h0.hilo.hiwrite, h0.hilo.lowrite]
  congr 1
  · split
    · rename_i hk
      exact h0.hiDataOf hk
    · split
      · rename_i hk
        exact h1.hiDataOf hk
      · rfl
  · split
    · rename_i hk
      exact h0.loDataOf hk
    · split
      · rename_i hk
        exact h1.loDataOf hk
      · rfl

end Commit
/-- The group that leaves the queue in front of these fetched words. -/
def fetchedGroup (f : Pair FetchData) (b : Pair PortBypass) (rd1 rd2 : Pair Word) :
    Pair IssueData :=
  issueGroup (decode f).slot1 (decode f).slot0 b rd1 rd2

/-- The units have had the operands of the group long enough. -/
def GroupEnv.settled (env : GroupEnv) (dataI : Pair IssueData) : GroupEnv :=
  { env with u := unitResult dataI env.rd }

/-- No slot of the group raises an exception. -/
def Commits (w : Pair MemoryData) : Prop := w.Each fun d => d.cp0Ctl.ctype ≠ .exception

instance (w : Pair MemoryData) : Decidable (Commits w) :=
  inferInstanceAs (Decidable (w.Each _))

/-- The division of a slot is defined. -/
def HiloInstr.Defined (k : HiloInstr) (rd : Operands) : Prop :=
  k.divides = true → rd.rd2 ≠ 0#32

instance (k : HiloInstr) (rd : Operands) : Decidable (k.Defined rd) :=
  inferInstanceAs (Decidable (k.divides = true → rd.rd2 ≠ 0#32))

section Carries

variable {dataI : Pair IssueData} {env : GroupEnv}

/-- A record with the same bits, which may have lost writes to registers and accesses. -/
theorem Control.Hilo.congr {c c' : Control} {k : HiloInstr} (h : c.Hilo k)
    (hbits : c' = { c with
      memtoreg := c'.memtoreg, memwrite := c'.memwrite, regwrite := c'.regwrite,
      cp0write := c'.cp0write })
    (hacc : c'.accesses = true → c.accesses = true) : c'.Hilo k := by
  rw [hbits] at hacc ⊢
  exact ⟨h.hiwrite, h.lowrite, h.hitoreg, h.lotoreg, h.sc, h.hiloOp, h.srca, h.mul, h.div,
    h.signedMulDiv, h.sum, fun ha => h.access (hacc ha), h.checked⟩

theorem Control.Hilo.executeCtl1 {k : HiloInstr} {rd : Pair Operands}
    (h : dataI.slot1.ctl.Hilo k) : (FrailCPU.executeCtl1 dataI rd).Hilo k := by
  refine h.congr rfl fun ha => ?_
  simp only [FrailCPU.executeCtl1, Control.accesses, Bool.or_eq_true, Bool.and_eq_true] at ha ⊢
  tauto

theorem Control.Hilo.executeCtl0 {k : HiloInstr} {rd : Pair Operands}
    (h : dataI.slot0.ctl.Hilo k) : (FrailCPU.executeCtl0 dataI rd).Hilo k := by
  refine h.congr rfl fun ha => ?_
  simp only [FrailCPU.executeCtl0, Control.accesses, Bool.or_eq_true, Bool.and_eq_true] at ha ⊢
  tauto

theorem Control.Hilo.squashWrites {c : Control} (h : c.Hilo .other) :
    c.squashWrites.Hilo .other := by
  refine ⟨rfl, rfl, h.hitoreg, h.lotoreg, h.sc, h.hiloOp, h.srca, h.mul, h.div,
    h.signedMulDiv, h.sum, fun ha => h.access ?_, h.checked⟩
  simp only [Control.squashWrites, Control.accesses, Bool.or_eq_true] at ha ⊢
  tauto

variable (g : HiloGroup dataI)

include g

theorem carriesHilo_slot1 (hd : dataI.slot1.hiloInstr.Defined env.rd.slot1) :
    (groupW dataI (env.settled dataI)).slot1.CarriesHilo dataI.slot1.hiloInstr
      env.rd.slot1 where
  hilo := g.hilo.slot1.executeCtl1
  result hw := g.aluOutExt1 hw hd
  move hk := by
    change regDataOf dataI.slot1 env.rd.slot1 = _
    have hs : dataI.slot1.ctl.srca = true := by
      rw [g.hilo.slot1.srca]
      rcases hk with hk | hk <;> rw [hk] <;> rfl
    rw [regDataOf, if_pos hs]

/-- Without an exception nothing of slot 0 is taken back. -/
theorem groupW_slot0_ctl_of_commits (hc : Commits (groupW dataI env))
    (hs : dataI.slot0 ≠ {}) : (groupW dataI env).slot0.ctl = executeCtl0 dataI env.rd := by
  have h1 := hc.slot1
  have h0 := hc.slot0
  rw [groupW_slot1_ctype] at h1
  rw [groupW_slot0_ctype] at h0
  have hany0 : (ownOutcome dataI env).slot0.any = false := by
    rw [Bool.eq_false_iff]
    intro ha
    exact h1 (Cp0Type.charge_any ha)
  have hany1 : (ownOutcome dataI env).slot1.any = false := by
    rw [Bool.eq_false_iff]
    intro ha
    exact h0 (Cp0Type.charge_any ha)
  have hleaves : (groupE dataI env).slot1.cp0Ctl.ctype.leaves = false := by
    rw [Bool.eq_false_iff]
    intro hl
    rw [Cp0Type.leaves_iff] at hl
    rcases hl with hl | hl
    · rw [hl, Cp0Type.charge_exception] at h1
      exact h1 rfl
    · rw [groupE_slot1_ctype] at hl
      split at hl
      · exact absurd hl (by simp)
      · exact hs (g.eret hl)
  rw [groupW_slot0_ctl, hleaves, hany0, hany1]
  rfl

theorem carriesHilo_slot0 (hc : Commits (groupW dataI (env.settled dataI)))
    (hd : dataI.slot0.hiloInstr.Defined env.rd.slot0) :
    (groupW dataI (env.settled dataI)).slot0.CarriesHilo dataI.slot0.hiloInstr
      env.rd.slot0 := by
  have hctl : (executeCtl0 dataI env.rd).Hilo dataI.slot0.hiloInstr :=
    g.hilo.slot0.executeCtl0
  by_cases hs : dataI.slot0 = {}
  · have hk : dataI.slot0.hiloInstr = .other := by rw [hs]; rfl
    rw [hk] at hctl ⊢
    refine ⟨?_, fun hw => absurd hw (by decide), fun hw => absurd hw (by simp)⟩
    rw [groupW_slot0_ctl]
    split
    · exact hctl.squashWrites
    · exact hctl
  · refine ⟨?_, fun hw => g.aluOutExt0 hw hd, fun hk => ?_⟩
    · rw [groupW_slot0_ctl_of_commits g hc hs]
      exact hctl
    · change regDataOf dataI.slot0 env.rd.slot0 = _
      have hsrc : dataI.slot0.ctl.srca = true := by
        rw [g.hilo.slot0.srca]
        rcases hk with hk | hk <;> rw [hk] <;> rfl
      rw [regDataOf, if_pos hsrc]

end Carries

/-- The special registers that `writeback` reads. -/
def HiLo.read (h : HiLo) (cp0Rd : Word) : SpecialRead := ⟨h.hi, h.lo, cp0Rd⟩

/-- A group in W follows the architecture on HI and LO: it leaves what slot 1 and then
slot 0 make of the old value, and what reads HI or LO, in the group or as the next one in
W, gets what the instructions in front of it have left. -/
structure FollowsHilo (k : Pair HiloInstr) (rd : Pair Operands) (h : HiLo)
    (w : Pair MemoryData) : Prop where
  written : hiloNxt h w = k.slot0.exec rd.slot0 (k.slot1.exec rd.slot1 h)
  read1 : ∀ c, k.slot1.Reads h (writebackData w.slot1 (h.read c))
  read0 : ∀ c, k.slot0.Reads (k.slot1.exec rd.slot1 h) (writebackData w.slot0 (h.read c))
  next : ∀ (d : MemoryData) (l : HiloInstr), d.ctl.Hilo l → ∀ c,
    l.Reads (k.slot0.exec rd.slot0 (k.slot1.exec rd.slot1 h))
      (writebackData d ((hiloNxt h w).read c))

/-- The merge of the two slots agrees with program order. -/
def HiloInOrder (k : Pair HiloInstr) : Prop :=
  k.slot0.overwrites = true ∨
    k.slot1 ≠ .maddu ∧ k.slot0 ≠ .maddu ∧
      (k.slot0.accumulates = true → k.slot1.writes = false)

instance (k : Pair HiloInstr) : Decidable (HiloInOrder k) := by
  unfold HiloInOrder
  infer_instance

theorem HiLo.eq_of {g h : HiLo} (hhi : g.hi = h.hi) (hlo : g.lo = h.lo) : g = h := by
  cases g
  cases h
  simp_all

section Order

variable {k : HiloInstr} {rd : Operands} (h h' : HiLo)

theorem HiloInstr.exec_hi (hk : k.accumulates = false) :
    (k.exec rd h).hi = if k.writesHi then (k.exec rd h').hi else h.hi := by
  cases k <;> first | exact absurd hk (by decide) | rfl

theorem HiloInstr.exec_lo (hk : k.accumulates = false) :
    (k.exec rd h).lo = if k.writesLo then (k.exec rd h').lo else h.lo := by
  cases k <;> first | exact absurd hk (by decide) | rfl

theorem HiloInstr.exec_hi_kept (hk : k.writesHi = false) : (k.exec rd h).hi = h.hi := by
  cases k <;> first | exact absurd hk (by decide) | rfl

theorem HiloInstr.exec_lo_kept (hk : k.writesLo = false) : (k.exec rd h).lo = h.lo := by
  cases k <;> first | exact absurd hk (by decide) | rfl

theorem HiloInstr.exec_of_not_writes (hk : k.writes = false) : k.exec rd h = h := by
  cases k <;> first | exact absurd hk (by decide) | rfl

theorem HiloInstr.written_eq (hk : k ≠ .maddu) : k.written rd h = k.exec rd h := if_neg hk

theorem HiloInstr.exec_of_overwrites (hk : k.overwrites = true) :
    k.exec rd h = k.exec rd h' := by
  cases k <;> first | exact absurd hk (by decide) | rfl

theorem HiloInstr.overwrites_facts (hk : k.overwrites = true) :
    k.writesHi = true ∧ k.writesLo = true ∧ k ≠ .maddu := by
  cases k <;> first | exact ⟨rfl, rfl, by decide⟩ | exact absurd hk (by decide)

theorem HiloInstr.accumulates_facts (hk : k.accumulates = true) :
    k.writesHi = true ∧ k.writesLo = true := by
  cases k <;> first | exact ⟨rfl, rfl⟩ | exact absurd hk (by decide)

theorem mergeHilo_eq {k : Pair HiloInstr} (hk : HiloInOrder k) (rd : Pair Operands) :
    mergeHilo k rd h = k.slot0.exec rd.slot0 (k.slot1.exec rd.slot1 h) := by
  rcases hk with hover | ⟨h1, h0, hacc⟩
  · obtain ⟨hhi, hlo, hne⟩ := HiloInstr.overwrites_facts hover
    rw [mergeHilo, if_pos hhi, if_pos hlo, HiloInstr.written_eq h hne]
    exact HiloInstr.exec_of_overwrites h _ hover
  · by_cases ha : k.slot0.accumulates = true
    · obtain ⟨hhi, hlo⟩ := HiloInstr.accumulates_facts ha
      rw [mergeHilo, if_pos hhi, if_pos hlo, HiloInstr.written_eq h h0,
        HiloInstr.exec_of_not_writes h (hacc ha)]
    · have ha' : k.slot0.accumulates = false := by simpa using ha
      have hhi : (k.slot0.exec rd.slot0 (k.slot1.exec rd.slot1 h)).hi = _ :=
        HiloInstr.exec_hi _ h ha'
      have hlo : (k.slot0.exec rd.slot0 (k.slot1.exec rd.slot1 h)).lo = _ :=
        HiloInstr.exec_lo _ h ha'
      rw [mergeHilo, HiloInstr.written_eq h h0, HiloInstr.written_eq h h1]
      refine HiLo.eq_of (Eq.trans ?_ hhi.symm) (Eq.trans ?_ hlo.symm)
      · dsimp only
        split
        · rfl
        · split
          · rfl
          · rename_i hk1
            exact (HiloInstr.exec_hi_kept h (by simpa using hk1)).symm
      · dsimp only
        split
        · rfl
        · split
          · rfl
          · rename_i hk1
            exact (HiloInstr.exec_lo_kept h (by simpa using hk1)).symm

end Order

section Follows

variable {dataI : Pair IssueData} {env : GroupEnv} (g : HiloGroup dataI)

/-- The instructions of a group. -/
def hiloInstrs (dataI : Pair IssueData) : Pair HiloInstr := dataI.map IssueData.hiloInstr

theorem writebackData_reads {d : MemoryData} {k : HiloInstr} (hd : d.ctl.Hilo k) (h : HiLo)
    (c : Word) : k.Reads h (writebackData d (h.read c)) := by
  refine ⟨fun hk => ?_, fun hk => ?_⟩
  · have hsc := hd.sc (Or.inl hk)
    have hhi := hd.hitoreg
    rw [hk] at hhi
    simp [writebackData, hsc, hhi, HiLo.read]
  · have hsc := hd.sc (Or.inr hk)
    have hhi := hd.hitoreg
    have hlo := hd.lotoreg
    rw [hk] at hhi hlo
    simp [writebackData, hsc, hhi, hlo, HiLo.read]

include g

theorem hiloNxt_groupW (h : HiLo) (hc : Commits (groupW dataI (env.settled dataI)))
    (hd1 : dataI.slot1.hiloInstr.Defined env.rd.slot1)
    (hd0 : dataI.slot0.hiloInstr.Defined env.rd.slot0) :
    hiloNxt h (groupW dataI (env.settled dataI)) = mergeHilo (hiloInstrs dataI) env.rd h :=
  hiloNxt_eq (carriesHilo_slot1 g hd1) (carriesHilo_slot0 g hc hd0)

/-- The queue lets no instruction read what its companion writes. -/
theorem reads_slot0 {h : HiLo} {rd : Operands} {x : Word}
    (hr : dataI.slot0.hiloInstr.Reads h x) :
    dataI.slot0.hiloInstr.Reads (dataI.slot1.hiloInstr.exec rd h) x := by
  have hhi := g.hi
  have hlo := g.lo
  rw [g.hilo.slot1.hiwrite, g.hilo.slot0.hitoreg] at hhi
  rw [g.hilo.slot1.lowrite, g.hilo.slot0.lotoreg] at hlo
  refine ⟨fun hk => ?_, fun hk => ?_⟩
  · rw [hk] at hhi
    rw [HiloInstr.exec_hi_kept h (by simpa using hhi)]
    exact hr.1 hk
  · rw [hk] at hlo
    rw [HiloInstr.exec_lo_kept h (by simpa using hlo)]
    exact hr.2 hk

theorem followsHilo_of_inOrder (h : HiLo) (hk : HiloInOrder (hiloInstrs dataI))
    (hc : Commits (groupW dataI (env.settled dataI)))
    (hd1 : dataI.slot1.hiloInstr.Defined env.rd.slot1)
    (hd0 : dataI.slot0.hiloInstr.Defined env.rd.slot0) :
    FollowsHilo (hiloInstrs dataI) env.rd h (groupW dataI (env.settled dataI)) where
  written := (hiloNxt_groupW g h hc hd1 hd0).trans (mergeHilo_eq h hk env.rd)
  read1 c := writebackData_reads (carriesHilo_slot1 g hd1).hilo h c
  read0 c := reads_slot0 g (writebackData_reads (carriesHilo_slot0 g hc hd0).hilo h c)
  next d k hd c := by
    rw [(hiloNxt_groupW g h hc hd1 hd0).trans (mergeHilo_eq h hk env.rd)]
    exact writebackData_reads hd _ c

end Follows

section Quiet

/-- E finds nothing for the instruction, and its access, if any, is not translated. -/
structure QuietSlot (d : IssueData) (r : Operands) : Prop where
  overflow : exceptionOf d r = false
  trap : trapOf d r = false
  aligned : d.ctl.accesses = true → aluOut d r = 0x80000000#32

/-- Operands with which an instruction raises nothing. -/
def quietOperands (d : IssueData) : Operands :=
  if d.ctl.accesses then ⟨0x80000000#32 - extendB d, 0#32⟩
  else if d.ctl.tne then ⟨0#32, 1#32⟩ else ⟨0#32, 0#32⟩

theorem extendSign_top (a : Word) : (extendSign a).getLsbD 32 = (extendSign a).getLsbD 31 := by
  rw [extendSign, BitVec.getLsbD_signExtend, BitVec.getLsbD_signExtend,
    BitVec.msb_eq_getLsbD_last]
  rfl

theorem aluOverflow_zero_right (a : Word) (f : AluFunc) : aluOverflow a 0#32 f = false := by
  have h0 : extendSign 0#32 = 0#33 := rfl
  have h := extendSign_top a
  cases f with
  | add => rw [aluOverflow, h0, BitVec.add_zero, h, bne_self_eq_false]
  | sub => rw [aluOverflow, h0, BitVec.sub_zero, h, bne_self_eq_false]
  | _ => rfl

theorem aluOverflow_zero_add (b : Word) : aluOverflow 0#32 b .add = false := by
  have h0 : extendSign 0#32 = 0#33 := rfl
  rw [aluOverflow, h0, BitVec.zero_add, extendSign_top b, bne_self_eq_false]

variable {d : IssueData} {k : HiloInstr}

theorem quietSlot_quietOperands (hc : d.ctl.Coherent) (hh : d.ctl.Hilo k) :
    QuietSlot d (quietOperands d) where
  overflow := by
    rw [Bool.eq_false_iff]
    intro hx
    have hf := exceptionOf_alufunc hx
    obtain ⟨hacc, -, htne, -⟩ := hc.overflow_plain hf
    obtain ⟨hsh, hsub⟩ := hh.checked hf
    have hq : quietOperands d = ⟨0#32, 0#32⟩ := by simp [quietOperands, hacc, htne]
    rw [exceptionOf, hq, aluA, if_neg (by simp [hsh])] at hx
    rcases hf with hf | hf
    · rw [hf, aluOverflow_zero_add] at hx
      exact absurd hx (by simp)
    · rw [aluB, hsub hf, aluOverflow_zero_right] at hx
      exact absurd hx (by simp)
  trap := by
    by_cases ht : d.ctl.tne = true
    · have hacc := (hc.trap_plain ht).1
      simp [trapOf, quietOperands, hacc, ht]
    · simp [trapOf, ht]
  aligned ha := by
    obtain ⟨-, -, -, hf, hs, hsh⟩ := hc.access_plain ha
    simp only [aluOut, aluA, aluB, alu, quietOperands, ha, hf, hs, hsh, if_true,
      Bool.false_eq_true, if_false]
    exact BitVec.sub_add_cancel _ _

/-- An instruction that writes HI or LO raises nothing, whatever its operands are. -/
theorem quietSlot_of_writes (hc : d.ctl.Coherent) (hw : d.ctl.writesHilo = true)
    (r : Operands) : QuietSlot d r where
  overflow := by
    rw [Bool.eq_false_iff]
    intro hx
    have h := (hc.overflow_plain (exceptionOf_alufunc hx)).2.1
    rw [hw] at h
    exact absurd h (by simp)
  trap := by
    rw [Bool.eq_false_iff]
    intro hx
    have h := (hc.trap_plain (trapOf_tne hx)).2.1
    rw [hw] at h
    exact absurd h (by simp)
  aligned ha := by
    have h := (hc.access_plain ha).1
    rw [hw] at h
    exact absurd h (by simp)

theorem QuietSlot.misalign {r : Operands} (h : QuietSlot d r) :
    loadMisalign d r = false ∧ storeMisalign d r = false := by
  by_cases ha : d.ctl.accesses = true
  · have haddr := h.aligned ha
    constructor <;>
      simp [loadMisalign, storeMisalign, sizeMisaligned, haddr]
  · exact misalign_of_silent (by simpa using ha)

variable {dataI : Pair IssueData} {env : GroupEnv}

/-- A request to the first segment without translation has no outcome. -/
theorem dTlbExc_of_unmapped {m : MmuState} {r : DBusReq} (h : r.addr = 0x80000000#32) :
    m.dTlbExc r = {} := by
  have hm : isMapped r.addr = false := by rw [h]; rfl
  simp [MmuState.dTlbExc, hm]

theorem commits_of_quiet (g : HiloGroup dataI)
    (hx : dataI.Each fun d => d.cp0Ctl.ctype ≠ .exception)
    (h1 : QuietSlot dataI.slot1 env.rd.slot1) (h0 : QuietSlot dataI.slot0 env.rd.slot0) :
    Commits (groupW dataI env) := by
  have hf1 : (found1 dataI env.rd).any = false := by
    simp [found1, Found.any, h1.overflow, h1.trap, h1.misalign]
  have hf0 : (found0 dataI env.rd).any = false := by
    simp [found0, Found.any, h0.overflow, h0.trap, h0.misalign]
  have ho1 : (ownOutcome dataI env).slot1 = {} := by
    by_cases ha : dataI.slot1.ctl.accesses = true
    · apply dTlbExc_of_unmapped
      change (aluOutExt1 dataI env.rd env.u).extractLsb' 0 32 = _
      have hl : dataI.slot1.ctl.isLink = false := by
        rw [Bool.eq_false_iff]
        intro hl
        have h := (g.coherent.slot1.transfers_plain (g.coherent.slot1.link_transfers hl)).1
        rw [ha] at h
        exact absurd h (by simp)
      obtain ⟨hm, hd⟩ := g.hilo.slot1.access ha
      simp [aluOutExt1, hl, hm, hd, h1.aligned ha]
    · exact ownOutcome_slot1_of_silent (groupE_slot1_accesses (by simpa using ha))
  have ho0 : (ownOutcome dataI env).slot0 = {} := by
    by_cases ha : dataI.slot0.ctl.accesses = true
    · apply dTlbExc_of_unmapped
      change (aluOutExt0 dataI env.rd env.u).extractLsb' 0 32 = _
      obtain ⟨hm, hd⟩ := g.hilo.slot0.access ha
      simp [aluOutExt0, hm, hd, h0.aligned ha]
    · exact ownOutcome_slot0_of_silent (groupE_slot0_accesses (by simpa using ha))
  constructor
  · rw [groupW_slot1_ctype, ho0, Cp0Type.charge_none, groupE_slot1_ctype, hf1]
    exact hx.slot1
  · rw [groupW_slot0_ctype, ho1, Cp0Type.charge_none, groupE_slot0_ctype, hf0]
    exact hx.slot0

end Quiet

/-- Every commit of the group follows the architecture, with the units given the time
they need: for all operands with which its divisions are defined, for every translation
and whatever HI and LO held. -/
def GroupFollowsHilo (dataI : Pair IssueData) : Prop :=
  ∀ (env : GroupEnv) (h : HiLo), dataI.slot1.hiloInstr.Defined env.rd.slot1 →
    dataI.slot0.hiloInstr.Defined env.rd.slot0 →
    Commits (groupW dataI (env.settled dataI)) →
    FollowsHilo (hiloInstrs dataI) env.rd h (groupW dataI (env.settled dataI))

section OutOfOrder

variable {k : HiloInstr} {rd r : Operands} {h : HiLo}

theorem HiloInstr.exec_congr (hr : k.writes = true → rd = r) : k.exec rd h = k.exec r h := by
  by_cases hk : k.writes = true
  · rw [hr hk]
  · rw [exec_of_not_writes h (by simpa using hk), exec_of_not_writes h (by simpa using hk)]

theorem HiloInstr.writes_eq_false (hk : k.writes = false) :
    k.writesHi = false ∧ k.writesLo = false := by
  rwa [writes, Bool.or_eq_false_iff] at hk

theorem mergeHilo_congr {k : Pair HiloInstr} {rd r : Pair Operands}
    (h1 : k.slot1.writes = true → rd.slot1 = r.slot1)
    (h0 : k.slot0.writes = true → rd.slot0 = r.slot0) :
    mergeHilo k rd h = mergeHilo k r h := by
  by_cases hw1 : k.slot1.writes = true
  · by_cases hw0 : k.slot0.writes = true
    · rw [mergeHilo, mergeHilo, h1 hw1, h0 hw0]
    · have hn := HiloInstr.writes_eq_false (by simpa using hw0)
      simp only [mergeHilo, hn, h1 hw1, Bool.false_eq_true, if_false]
  · have hn1 := HiloInstr.writes_eq_false (by simpa using hw1)
    by_cases hw0 : k.slot0.writes = true
    · simp only [mergeHilo, hn1, h0 hw0, Bool.false_eq_true, if_false]
    · have hn := HiloInstr.writes_eq_false (by simpa using hw0)
      simp only [mergeHilo, hn, hn1, Bool.false_eq_true, if_false]

/-- Operands of the two slots that tell the merge from program order. -/
def tellingOperands (k : Pair HiloInstr) : Pair Operands :=
  if k.slot0 = .maddu then ⟨⟨0#32, 1#32⟩, ⟨0#32, 1#32⟩⟩
  else if k.slot1 = .maddu then ⟨⟨-1#32, -1#32⟩, ⟨0#32, 1#32⟩⟩
  else ⟨⟨1#32, 1#32⟩, ⟨0#32, 1#32⟩⟩

theorem tellingOperands_rd2 (k : Pair HiloInstr) :
    (tellingOperands k).slot1.rd2 ≠ 0#32 ∧ (tellingOperands k).slot0.rd2 ≠ 0#32 := by
  unfold tellingOperands
  split
  · decide
  · split <;> decide

theorem HiloInstr.writes_of_divides {k : HiloInstr} (hk : k.divides = true) :
    k.writes = true := by
  cases k <;> first | rfl | exact absurd hk (by decide)

/-- Two instructions that use the same unit do not leave together. -/
def HiloInstr.usesUnits (k : HiloInstr) : Bool := k.divides || k.multiplies

theorem mergeHilo_ne :
    ∀ k1 k0 : HiloInstr, ¬ HiloInOrder ⟨k1, k0⟩ → (k1.usesUnits && k0.usesUnits) = false →
      mergeHilo ⟨k1, k0⟩ (tellingOperands ⟨k1, k0⟩) {} ≠
        k0.exec (tellingOperands ⟨k1, k0⟩).slot0
          (k1.exec (tellingOperands ⟨k1, k0⟩).slot1 {}) := by
  intro k1 k0
  cases k0 <;> cases k1 <;> decide

end OutOfOrder

section Main

variable {dataI : Pair IssueData} (g : HiloGroup dataI)

include g

theorem HiloGroup.usesUnits :
    (dataI.slot1.hiloInstr.usesUnits && dataI.slot0.hiloInstr.usesUnits) = false := by
  have h := g.multi
  have h1 := g.hilo.slot1
  have h0 := g.hilo.slot0
  rw [Bool.eq_false_iff] at h ⊢
  intro hu
  rw [Bool.and_eq_true] at hu
  have hne1 : dataI.slot1.hiloInstr ≠ .other := fun he => by
    rw [he] at hu
    exact absurd hu.1 (by decide)
  have hne0 : dataI.slot0.hiloInstr ≠ .other := fun he => by
    rw [he] at hu
    exact absurd hu.2 (by decide)
  apply h
  rw [Control.multiOp, Control.multiOp, h1.mul hne1, h1.div hne1, h0.mul hne0, h0.div hne0]
  exact (Bool.and_eq_true _ _).mpr hu

/-- A group commits with given operands for its instructions on HI and LO. -/
theorem exists_commits (hx : dataI.Each fun d => d.cp0Ctl.ctype ≠ .exception)
    (r : Pair Operands) :
    ∃ env : GroupEnv, Commits (groupW dataI (env.settled dataI)) ∧
      (dataI.slot1.hiloInstr.writes = true → env.rd.slot1 = r.slot1) ∧
      (dataI.slot0.hiloInstr.writes = true → env.rd.slot0 = r.slot0) := by
  have quiet : ∀ d : IssueData, d.ctl.Coherent → d.ctl.Hilo d.hiloInstr → ∀ r : Operands,
      QuietSlot d (if d.hiloInstr.writes then r else quietOperands d) := by
    intro d hc hh r
    split
    · rename_i hw
      refine quietSlot_of_writes hc ?_ r
      rw [Control.writesHilo, hh.hiwrite, hh.lowrite]
      exact hw
    · exact quietSlot_quietOperands hc hh
  refine ⟨{ rd := ⟨if dataI.slot1.hiloInstr.writes then r.slot1 else quietOperands dataI.slot1,
    if dataI.slot0.hiloInstr.writes then r.slot0 else quietOperands dataI.slot0⟩ }, ?_,
    fun hw => if_pos hw, fun hw => if_pos hw⟩
  exact commits_of_quiet g hx (quiet _ g.coherent.slot1 g.hilo.slot1 r.slot1)
    (quiet _ g.coherent.slot0 g.hilo.slot0 r.slot0)

theorem inOrder_of_followsHilo (hx : dataI.Each fun d => d.cp0Ctl.ctype ≠ .exception)
    (hf : GroupFollowsHilo dataI) : HiloInOrder (hiloInstrs dataI) := by
  by_contra hk
  obtain ⟨env, hc, h1, h0⟩ := exists_commits g hx (tellingOperands (hiloInstrs dataI))
  obtain ⟨ht1, ht0⟩ := tellingOperands_rd2 (hiloInstrs dataI)
  have hd1 : dataI.slot1.hiloInstr.Defined env.rd.slot1 := fun hd => by
    rw [h1 (HiloInstr.writes_of_divides hd)]
    exact ht1
  have hd0 : dataI.slot0.hiloInstr.Defined env.rd.slot0 := fun hd => by
    rw [h0 (HiloInstr.writes_of_divides hd)]
    exact ht0
  have hw : hiloNxt {} (groupW dataI (env.settled dataI)) =
      dataI.slot0.hiloInstr.exec env.rd.slot0
        (dataI.slot1.hiloInstr.exec env.rd.slot1 {}) := (hf env {} hd1 hd0 hc).written
  rw [hiloNxt_groupW g {} hc hd1 hd0, mergeHilo_congr h1 h0,
    HiloInstr.exec_congr h1, HiloInstr.exec_congr h0] at hw
  exact mergeHilo_ne _ _ hk g.usesUnits hw

end Main

/-- The effect on HI and LO of a group that commits is that of its instructions in program
order exactly when no `MADDU` writes what stays and slot 0 does not accumulate behind a
write of slot 1. -/
theorem hilo_follows_iff (f : Pair FetchData) (b : Pair PortBypass) (rd1 rd2 : Pair Word)
    (hx : (fetchedGroup f b rd1 rd2).Each fun d => d.cp0Ctl.ctype ≠ .exception) :
    GroupFollowsHilo (fetchedGroup f b rd1 rd2) ↔
      HiloInOrder (hiloInstrs (fetchedGroup f b rd1 rd2)) := by
  have g : HiloGroup (fetchedGroup f b rd1 rd2) := 
    hiloGroup_issueGroup _ _ b rd1 rd2 ⟨_, _, _, rfl⟩ ⟨_, _, _, rfl⟩
  constructor
  · exact inOrder_of_followsHilo g hx
  · intro hk env h hd1 hd0 hc
    exact followsHilo_of_inOrder g h hk hc hd1 hd0

/-- A fetched word in a slot. -/
def fetchedWord (w pc : Word) : FetchData := { valid := true, rawInstr := w, pc }

/-- `MULT` with `MTHI` behind it is in order. -/
theorem hilo_follows_mult_mthi :
    GroupFollowsHilo
      (fetchedGroup ⟨fetchedWord 0x00430018#32 0#32, fetchedWord 0x00800011#32 4#32⟩ ⟨{}, {}⟩
        ⟨0#32, 0#32⟩ ⟨0#32, 0#32⟩) :=
  (hilo_follows_iff _ _ _ _ (by decide)).mpr (by decide)

/-- `MADDU` of 2 and 3 adds 5. -/
theorem not_hilo_follows_maddu :
    ¬ GroupFollowsHilo
      (fetchedGroup ⟨fetchedWord 0x70430001#32 0#32, {}⟩ ⟨{}, {}⟩ ⟨0#32, 0#32⟩
        ⟨0#32, 0#32⟩) := by
  intro h
  have hw := (h { rd := ⟨⟨2#32, 3#32⟩, {}⟩ } {} (by decide) (by decide) (by decide)).written
  exact absurd (congrArg HiLo.lo hw) (by decide)

end FrailCPU
