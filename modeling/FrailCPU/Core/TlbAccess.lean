import FrailCPU.Core.Step
import FrailCPU.Mmu.Translate

/-!
# The TLB instructions against each other

`TLBWI` and `TLBWR` pack the registers into an entry, `TLBR` unpacks an entry into the
registers, `TLBP` and the translations search the array. What is written is what is read
and found: for every content of the array and of the registers, the unused bits and the
common `G` bit apart.
-/

namespace FrailCPU

open VAddr

/-- The fields of `entry_hi_t` and `entry_lo_t` that an entry keeps. -/
def entryHiMask : Word := 0xffffe0ff#32

def entryLoMask : Word := 0x03fffffe#32

/-- `entry_lo_t` with the fields of one half of an entry. -/
def packLo (p : PageEntry) (g : Bool) : Word :=
  (0#6 ++ p.pfn ++ p.c ++ bit p.d ++ bit p.v ++ bit g : BitVec 32)

/-- The half of an entry that an `EntryLo` describes. -/
def unpackLo (lo : Word) : PageEntry where
  pfn := lo.extractLsb' 6 20
  c := lo.extractLsb' 3 3
  d := lo.getLsbD 2
  v := lo.getLsbD 1

section Packing

theorem packHi_unpack (w : Word) :
    (w.extractLsb' 13 19 ++ 0#5 ++ w.extractLsb' 0 8 : BitVec 32) = w &&& entryHiMask := by
  apply BitVec.eq_of_getLsbD_eq
  intro i hi
  simp only [BitVec.getLsbD_append, BitVec.getLsbD_and, BitVec.getLsbD_extractLsb',
    entryHiMask]
  interval_cases i <;> simp

theorem packHi_vpn2 (v : BitVec 19) (a : BitVec 8) :
    ((v ++ 0#5 ++ a : BitVec 32)).extractLsb' 13 19 = v := by
  apply BitVec.eq_of_getLsbD_eq
  intro i hi
  simp only [BitVec.getLsbD_append, BitVec.getLsbD_extractLsb']
  interval_cases i <;> simp

theorem packHi_asid (v : BitVec 19) (a : BitVec 8) :
    ((v ++ 0#5 ++ a : BitVec 32)).extractLsb' 0 8 = a := by
  apply BitVec.eq_of_getLsbD_eq
  intro i hi
  simp only [BitVec.getLsbD_append, BitVec.getLsbD_extractLsb']
  interval_cases i <;> simp

/-- Unpacking and packing keeps the fields and puts the given `G` in. -/
theorem packLo_unpackLo (w : Word) (g : Bool) :
    packLo (unpackLo w) g = (w &&& entryLoMask) ||| (bit g).setWidth 32 := by
  apply BitVec.eq_of_getLsbD_eq
  intro i hi
  simp only [packLo, unpackLo, BitVec.getLsbD_append, BitVec.getLsbD_extractLsb', bit,
    entryLoMask]
  interval_cases i <;> simp

theorem unpackLo_packLo (p : PageEntry) (g : Bool) : unpackLo (packLo p g) = p := by
  rcases p with ⟨pfn, c, d, v⟩
  have hpfn : (packLo ⟨pfn, c, d, v⟩ g).extractLsb' 6 20 = pfn := by
    apply BitVec.eq_of_getLsbD_eq
    intro i hi
    simp only [packLo, BitVec.getLsbD_append, BitVec.getLsbD_extractLsb']
    interval_cases i <;> simp
  have hc : (packLo ⟨pfn, c, d, v⟩ g).extractLsb' 3 3 = c := by
    apply BitVec.eq_of_getLsbD_eq
    intro i hi
    simp only [packLo, BitVec.getLsbD_append, BitVec.getLsbD_extractLsb']
    interval_cases i <;> simp
  have hd : (packLo ⟨pfn, c, d, v⟩ g).getLsbD 2 = d := by
    simp only [packLo, BitVec.getLsbD_append, bit]
    simp
  have hv : (packLo ⟨pfn, c, d, v⟩ g).getLsbD 1 = v := by
    simp only [packLo, BitVec.getLsbD_append, bit]
    simp
  rw [unpackLo, hpfn, hc, hd, hv]

theorem packLo_g (p : PageEntry) (g : Bool) : (packLo p g).getLsbD 0 = g := by
  simp only [packLo, BitVec.getLsbD_append, bit]
  simp

/-- The `Index` register of a successful probe. -/
theorem packIndex (i : TlbIndex) :
    (bit (!true) ++ 0#27 ++ i : BitVec 32) = i.setWidth 32 := by
  apply BitVec.eq_of_getLsbD_eq
  intro k hk
  simp only [BitVec.getLsbD_append, BitVec.getLsbD_setWidth, bit]
  interval_cases k <;> simp

end Packing

namespace Cp0Regs

variable (r : Cp0Regs) (tlbRam : Tlb)

/-- The entry the `Index` register names. -/
def indexField : TlbIndex := r.index.extractLsb' 0 4

def asidField : BitVec 8 := r.entryHi.extractLsb' 0 8

/-- The `G` that both `EntryLo` registers agree on. -/
def globalField : Bool := r.entryLo0.getLsbD 0 && r.entryLo1.getLsbD 0

/-- The registers after `TLBR`. -/
def tlbRead : Cp0Regs := r.tlbResult .tlbr (mmuResp r tlbRam)

/-- The registers after `TLBP`. -/
def tlbProbe : Cp0Regs := r.tlbResult .tlbp (mmuResp r tlbRam)

/-- `w_index`. -/
def writeIndex (t : TlbType) : TlbIndex :=
  if t == .tlbwi then r.indexField else r.random.extractLsb' 0 4

/-- The half of a page pair that the `EntryLo` registers describe. -/
def halfField (odd : Bool) : PageEntry :=
  if odd then unpackLo r.entryLo1 else unpackLo r.entryLo0

/-- The three registers that `TLBR` loads. -/
structure SameEntry (r r' : Cp0Regs) : Prop where
  entryHi : r.entryHi = r'.entryHi
  entryLo0 : r.entryLo0 = r'.entryLo0
  entryLo1 : r.entryLo1 = r'.entryLo1

end Cp0Regs

/-- What the array holds behind a write of the entry `i` from the registers `r`: what `TLBR`
reads, what `TLBP` and the translations find, and what the other entries are. -/
structure Tlb.Written (before after : Tlb) (r : Cp0Regs) (i : TlbIndex) : Prop where
  /-- `TLBR` returns the fields that were written, with the common `G` in both halves. -/
  read : ∀ q : Cp0Regs, q.indexField = i →
    (q.tlbRead after).entryHi = r.entryHi &&& entryHiMask ∧
      (q.tlbRead after).entryLo0 =
        (r.entryLo0 &&& entryLoMask) ||| (bit r.globalField).setWidth 32 ∧
      (q.tlbRead after).entryLo1 =
        (r.entryLo1 &&& entryLoMask) ||| (bit r.globalField).setWidth 32
  /-- `TLBP` finds the entry: bit 31 of `Index` is clear and its low bits are `i`. -/
  probe : (∀ j, j ≠ i → ¬ (before j).Maps r.entryHi r.asidField) →
    ∀ q : Cp0Regs, q.entryHi = r.entryHi →
      (q.tlbProbe after).index = i.setWidth 32
  /-- An address of the page pair is translated with the half that was written for it. -/
  lookup : ∀ vaddr asid, vpn2 vaddr = vpn2 r.entryHi →
    asid = r.asidField ∨ r.globalField = true →
    (∀ j, j ≠ i → ¬ (before j).Maps vaddr asid) →
    tlbSearch after vaddr asid =
      { found := true, index := i
        paddr := (r.halfField (oddPage vaddr)).pfn ++ pageOffset vaddr
        c := (r.halfField (oddPage vaddr)).c
        d := (r.halfField (oddPage vaddr)).d
        v := (r.halfField (oddPage vaddr)).v }
  /-- The other entries read as before. -/
  others : ∀ q : Cp0Regs, q.indexField ≠ i →
    (q.tlbRead after).SameEntry (q.tlbRead before)

section Written

variable {tlbRam : Tlb} {r : Cp0Regs} {i : TlbIndex}

theorem wEntry_eq :
    wEntry r =
      { vpn2 := r.entryHi.extractLsb' 13 19, asid := r.entryHi.extractLsb' 0 8
        g := r.entryLo0.getLsbD 0 && r.entryLo1.getLsbD 0
        pfn0 := (unpackLo r.entryLo0).pfn, c0 := (unpackLo r.entryLo0).c
        d0 := (unpackLo r.entryLo0).d, v0 := (unpackLo r.entryLo0).v
        pfn1 := (unpackLo r.entryLo1).pfn, c1 := (unpackLo r.entryLo1).c
        d1 := (unpackLo r.entryLo1).d, v1 := (unpackLo r.entryLo1).v } := rfl

theorem wEntry_half (odd : Bool) : (wEntry r).half odd = r.halfField odd := by
  cases odd <;> rfl

theorem wEntry_maps {vaddr : Word} {asid : BitVec 8} (hv : vpn2 vaddr = vpn2 r.entryHi)
    (ha : asid = r.asidField ∨ r.globalField = true) : (wEntry r).Maps vaddr asid :=
  ⟨hv.symm, ha.imp Eq.symm id⟩

/-- `TLBR` unpacks the entry that `Index` names. -/
theorem tlbRead_entryHi :
    (r.tlbRead tlbRam).entryHi =
      ((tlbRam r.indexField).vpn2 ++ 0#5 ++ (tlbRam r.indexField).asid : BitVec 32) := rfl

theorem tlbRead_entryLo0 :
    (r.tlbRead tlbRam).entryLo0 =
      packLo ((tlbRam r.indexField).half false) (tlbRam r.indexField).g := rfl

theorem tlbRead_entryLo1 :
    (r.tlbRead tlbRam).entryLo1 =
      packLo ((tlbRam r.indexField).half true) (tlbRam r.indexField).g := rfl

theorem tlbProbe_index :
    (r.tlbProbe tlbRam).index =
      (bit (!(tlbSearch tlbRam r.entryHi r.asidField).found) ++ 0#27 ++
        (tlbSearch tlbRam r.entryHi r.asidField).index : BitVec 32) := rfl

/-- Behind a write only the written entry can map an address that no other entry mapped. -/
theorem maps_update_unique {vaddr : Word} {asid : BitVec 8} {e : TlbEntry}
    (ho : ∀ j, j ≠ i → ¬ (tlbRam j).Maps vaddr asid) :
    ∀ j, (Function.update tlbRam i e j).Maps vaddr asid → j = i := by
  intro j hj
  by_contra hne
  rw [Function.update_of_ne hne] at hj
  exact ho j hne hj

theorem tlbSearch_update {vaddr : Word} {asid : BitVec 8}
    (hv : vpn2 vaddr = vpn2 r.entryHi) (ha : asid = r.asidField ∨ r.globalField = true)
    (ho : ∀ j, j ≠ i → ¬ (tlbRam j).Maps vaddr asid) :
    tlbSearch (Function.update tlbRam i (wEntry r)) vaddr asid =
      { found := true, index := i
        paddr := (r.halfField (oddPage vaddr)).pfn ++ pageOffset vaddr
        c := (r.halfField (oddPage vaddr)).c
        d := (r.halfField (oddPage vaddr)).d
        v := (r.halfField (oddPage vaddr)).v } := by
  have hm : (Function.update tlbRam i (wEntry r) i).Maps vaddr asid := by
    rw [Function.update_self]
    exact wEntry_maps hv ha
  rw [tlbSearch_of_maps hm (maps_update_unique ho), Function.update_self, wEntry_half]

/-- A write of one entry from the registers. -/
theorem written_update (tlbRam : Tlb) (r : Cp0Regs) (i : TlbIndex) :
    tlbRam.Written (Function.update tlbRam i (wEntry r)) r i where
  read q hq := by
    rw [tlbRead_entryHi, tlbRead_entryLo0, tlbRead_entryLo1, hq, Function.update_self,
      wEntry_half, wEntry_half]
    exact ⟨packHi_unpack r.entryHi, packLo_unpackLo r.entryLo0 r.globalField,
      packLo_unpackLo r.entryLo1 r.globalField⟩
  probe ho q hq := by
    have ha : q.asidField = r.asidField := by
      rw [Cp0Regs.asidField, hq, Cp0Regs.asidField]
    rw [tlbProbe_index, hq, ha, tlbSearch_update rfl (Or.inl rfl) ho]
    exact packIndex i
  lookup vaddr asid hv ha ho := tlbSearch_update hv ha ho
  others q hq := by
    constructor
    · rw [tlbRead_entryHi, tlbRead_entryHi, Function.update_of_ne hq]
    · rw [tlbRead_entryLo0, tlbRead_entryLo0, Function.update_of_ne hq]
    · rw [tlbRead_entryLo1, tlbRead_entryLo1, Function.update_of_ne hq]

/-- The entry that `TLBR` has read is packed from the registers again. -/
theorem wEntry_tlbRead : wEntry (r.tlbRead tlbRam) = tlbRam r.indexField := by
  rw [wEntry_eq, tlbRead_entryHi, tlbRead_entryLo0, tlbRead_entryLo1, packHi_vpn2,
    packHi_asid, unpackLo_packLo, unpackLo_packLo, packLo_g, packLo_g, Bool.and_self]
  rfl

end Written

/-- The TLB operations agree: behind a write everything reads and finds what was written, and
to write back what `TLBR` has returned leaves the array as it is. -/
structure Tlb.Agree (tlbRam : Tlb) (r : Cp0Regs) (w : Pair MemoryData) : Prop where
  written : writesTlb w = true →
    tlbRam.Written (tlbNxt tlbRam r w) r (r.writeIndex w.slot1.ctl.tlbType)
  restored : r.writeIndex w.slot1.ctl.tlbType = r.indexField →
    tlbNxt tlbRam (r.tlbRead tlbRam) w = tlbRam

theorem tlb_operations_agree (tlbRam : Tlb) (r : Cp0Regs) (w : Pair MemoryData) :
    tlbRam.Agree r w where
  written h := by
    have hn : tlbNxt tlbRam r w =
        Function.update tlbRam (r.writeIndex w.slot1.ctl.tlbType) (wEntry r) := by
      rw [tlbNxt, if_pos h]
      rfl
    rw [hn]
    exact written_update tlbRam r _
  restored h := by
    unfold tlbNxt
    split
    · rw [wEntry_tlbRead, ← h]
      exact Function.update_eq_self _ tlbRam
    · rfl

namespace CoreState

variable {s : CoreState} {i : CoreInput}

/-- The array a clock edge of the core leaves. -/
theorem step_tlbRam : (s.step i).tlbRam = tlbNxt s.tlbRam s.cp0.regs s.dataM3 := rfl

/-- A TLB instruction in W, when nothing else reaches `cp0` in that cycle. -/
theorem step_tlbResult (hw : s.dataM3.slot1.ctl.cp0write = false)
    (he : isEret s.dataM3 = false) (hx : s.cp0.isIntExc (s.cp0In i) = false) :
    (s.step i).cp0.regs =
      (s.cp0.counted (s.cp0In i)).tlbResult s.dataM3.slot1.ctl.tlbType
        (mmuResp s.cp0.regs s.tlbRam) := by
  have hv : (s.cp0In i).valid = false := hw
  have hr : (s.cp0In i).isEret = false := he
  simp only [Cp0State.isIntExc, Bool.or_eq_false_iff] at hx
  simp only [step, Cp0State.step, Cp0State.regsNxt, Cp0State.regsTaken, hx, hv, hr,
    Bool.false_eq_true, if_false]
  rfl

end CoreState

end FrailCPU
