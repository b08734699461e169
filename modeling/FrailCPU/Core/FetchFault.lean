import FrailCPU.Core.Group
import FrailCPU.Fetch.Record

/-!
# An instruction whose fetch failed

The word that comes with a failed fetch is decoded like any other. For a misaligned
program counter it is forced to zero, which decodes to nothing. For a TLB fault it is
whatever the instruction cache holds: the decoder may replace the type of the record,
and the stages behind it act on the control bits of the word. The words that do no harm
are those of `HarmlessWord`. The outcome itself reaches slot 1 from the second word of
the fetch, so the first word is charged only when the second one fails too.
-/

namespace FrailCPU

/-- The instruction with the records `e` in M1 and `w` in W asks for no data, writes
nothing, is no `ERET`, and `cp0` takes its exception with this code and its address. -/
structure OnlyFaults (e : ExecuteData) (w : MemoryData) (pair : Pair MemoryData)
    (s : Cp0State) (resp : MmuResp) (irq : IrqInput) (code : BitVec 5) : Prop where
  request : (memoryReq e).valid = false
  regs : ∀ sp, (writeback w sp).valid = false
  hilo : w.ctl.writesHilo = false
  cp0write : w.ctl.cp0write = false
  tlb : w.ctl.tlbType ≠ .tlbwi ∧ w.ctl.tlbType ≠ .tlbwr
  eret : w.cp0Ctl.ctype ≠ .eret
  exception : (cp0Input pair resp irq).ctype = .exception
  noInterrupt : s.takesInterrupt (cp0Input pair resp irq) = false
  excCode : (s.step (cp0Input pair resp irq)).regs.cause.excCode = code
  badVaddr : (s.step (cp0Input pair resp irq)).regs.badVaddr = w.pc

section Passages

variable (x : DecodeData) (s : Cp0State) (irq : IrqInput) (code : BitVec 5)

/-- Issued as the older instruction, with any companion. -/
def FaultsInSlot1 : Prop :=
  ∀ (c : DecodeData) (b : Pair PortBypass) (rd1 rd2 : Pair Word) (env : GroupEnv)
    (resp : MmuResp), issueEn1 x c b = true →
    let dataI := issueGroup x c b rd1 rd2
    OnlyFaults (groupE dataI env).slot1 (groupW dataI env).slot1 (groupW dataI env)
      s resp irq code

/-- Issued as the younger instruction, with any companion that raises nothing itself. -/
def FaultsInSlot0 : Prop :=
  ∀ (c : DecodeData) (b : Pair PortBypass) (rd1 rd2 : Pair Word) (env : GroupEnv)
    (resp : MmuResp), issueEn2 c x b = true →
    let dataI := issueGroup c x b rd1 rd2
    raises1 dataI env = false →
    OnlyFaults (groupE dataI env).slot0 (groupW dataI env).slot0 (groupW dataI env)
      s resp irq code

def FaultsOnly : Prop := FaultsInSlot1 x s irq code ∧ FaultsInSlot0 x s irq code

/-- No interrupt is pending or being taken in the cycle of W. -/
def Quiet : Prop :=
  s.regs.interrupt irq.extInt = false ∧ (s.intSaved && irq.interValid) = false

end Passages

/-- The exception record that a failed fetch left: the code follows from it. -/
def FaultCode (x : DecodeData) (code : BitVec 5) : Prop :=
  (x.cp0Ctl.etype.badVaddrF = true ∧ code = exccodeAdel) ∨
    (x.cp0Ctl.etype.badVaddrF = false ∧ x.cp0Ctl.etype.reserveInstr = false ∧
      (x.iTlbExc.refill || x.iTlbExc.invalid) = true ∧ code = exccodeTlbl)

/-- A decoded instruction that keeps its exception and asks for nothing else. -/
structure Harmless (x : DecodeData) : Prop where
  ctype : x.cp0Ctl.ctype = .exception
  accesses : x.ctl.accesses = false
  hilo : x.ctl.writesHilo = false
  cp0write : x.ctl.cp0write = false
  tlb : x.ctl.tlbType ≠ .tlbwi ∧ x.ctl.tlbType ≠ .tlbwr

section Sufficient

variable {x : DecodeData} {s : Cp0State} {irq : IrqInput} {code : BitVec 5}

theorem Quiet.takesInterrupt (h : Quiet s irq) (pair : Pair MemoryData) (resp : MmuResp) :
    s.takesInterrupt (cp0Input pair resp irq) = false := by
  have hi : s.interrupt (cp0Input pair resp irq) = false := h.1
  rw [Cp0State.takesInterrupt, Cp0State.isInt, hi, Bool.false_or]
  exact h.2

/-- What `cp0` does in a quiet cycle with the record of a failed fetch. -/
theorem step_of_faultCode (hq : Quiet s irq) (hf : FaultCode x code)
    (pair : Pair MemoryData) (resp : MmuResp) (ht : (excSlot pair).cp0Ctl.ctype = .exception)
    (hb : (excSlot pair).cp0Ctl.etype.badVaddrF = x.cp0Ctl.etype.badVaddrF)
    (hr : (excSlot pair).cp0Ctl.etype.reserveInstr = x.cp0Ctl.etype.reserveInstr)
    (hi : (excSlot pair).iTlbExc = x.iTlbExc) (he : isEret pair = false) :
    (s.step (cp0Input pair resp irq)).regs.cause.excCode = code ∧
      (s.step (cp0Input pair resp irq)).regs.badVaddr = (excSlot pair).pc := by
  have hn : s.interrupt (cp0Input pair resp irq) = false := hq.1
  have hregs : (s.step (cp0Input pair resp irq)).regs =
      (s.counted (cp0Input pair resp irq)).takeException
        (excCode false (cp0Input pair resp irq)) (cp0Input pair resp irq) := by
    have ht' : (cp0Input pair resp irq).ctype = .exception := ht
    have he' : (cp0Input pair resp irq).isEret = false := he
    simp [Cp0State.step, Cp0State.regsNxt, Cp0State.regsTaken, hq.takesInterrupt, ht', he', hn]
  have hb' : (cp0Input pair resp irq).etype.badVaddrF = x.cp0Ctl.etype.badVaddrF := hb
  have hr' : (cp0Input pair resp irq).etype.reserveInstr = x.cp0Ctl.etype.reserveInstr := hr
  have hi' : (cp0Input pair resp irq).iTlbExc = x.iTlbExc := hi
  have hpc : (cp0Input pair resp irq).pc = (excSlot pair).pc := rfl
  rw [hregs, ← hpc]
  rcases hf with ⟨h1, rfl⟩ | ⟨h1, h2, h3, rfl⟩
  · have hcode : excCode false (cp0Input pair resp irq) = exccodeAdel := by
      simp [excCode, hb', h1]
    rw [hcode]
    simp [Cp0Regs.takeException, Cp0Regs.setExl, Cp0Regs.setCode, hb', h1]
  · have hcode : excCode false (cp0Input pair resp irq) = exccodeTlbl := by
      simp [excCode, hb', hr', hi', h1, h2, h3]
    have hany : x.iTlbExc.any = true := by simp [TlbExc.any, h3]
    rw [hcode]
    simp [Cp0Regs.takeException, Cp0Regs.setExl, Cp0Regs.setCode, hb', h1, hi', hany]

/-- Nothing leaves together with an instruction that carries an exception. -/
theorem issueEn2_of_exception {c1 c2 : DecodeData} (b : Pair PortBypass)
    (h : c1.cp0Ctl.ctype = .exception) : issueEn2 c1 c2 b = false := by
  simp [issueEn2, h]

theorem faultsInSlot1_of_harmless (hx : Harmless x) (hf : FaultCode x code)
    (hq : Quiet s irq) : FaultsInSlot1 x s irq code := by
  intro c b rd1 rd2 env resp h1 dataI
  have hd1 : dataI.slot1 = issueRecord x b.slot1 rd1.slot1 rd2.slot1 := by
    simp [dataI, issueGroup, h1]
  have hd0 : dataI.slot0 = {} := by
    simp [dataI, issueGroup, issueEn2_of_exception b hx.ctype]
  have ht : (groupW dataI env).slot1.cp0Ctl.ctype = .exception := by
    have ht1 : (groupE dataI env).slot1.cp0Ctl.ctype = .exception := by
      simp [groupE_slot1_ctype, hd1, issueRecord, hx.ctype]
    rw [groupW_slot1_ctype, ht1, Cp0Type.charge_exception]
  have ht0 : (groupW dataI env).slot0.cp0Ctl.ctype ≠ .eret := by
    rw [groupW_slot0_ctype, groupE_slot0_ctype, hd0]
    apply Cp0Type.charge_ne_eret
    split <;> simp
  have hsel : excSlot (groupW dataI env) = (groupW dataI env).slot1 := by
    simp [excSlot, validN, ht, Cp0Type.leaves]
  have hstep := step_of_faultCode hq hf (groupW dataI env) resp
    (by rw [hsel, ht]) (by rw [hsel, groupW_slot1_badVaddrF, hd1]; rfl)
    (by rw [hsel, groupW_slot1_reserveInstr, hd1]; rfl)
    (by rw [hsel, groupW_slot1_iTlbExc, hd1]; rfl) (by simp [isEret, ht, ht0])
  rw [hsel] at hstep
  exact
    { request := groupE_slot1_accesses (by rw [hd1]; exact hx.accesses)
      regs := fun sp => writeback_valid_of_leaves (by simp [ht, Cp0Type.leaves])
      hilo := by rw [groupW_slot1_writesHilo, hd1]; exact hx.hilo
      cp0write := by rw [groupW_slot1_cp0write, hd1]; exact hx.cp0write
      tlb := by rw [groupW_slot1_tlbType, hd1]; exact hx.tlb
      eret := by simp [ht]
      exception := by
        change (excSlot (groupW dataI env)).cp0Ctl.ctype = .exception
        rw [hsel, ht]
      noInterrupt := hq.takesInterrupt _ resp
      excCode := hstep.1
      badVaddr := hstep.2 }

theorem faultsInSlot0_of_harmless (hx : Harmless x) (hf : FaultCode x code)
    (hq : Quiet s irq) : FaultsInSlot0 x s irq code := by
  intro c b rd1 rd2 env resp h2 dataI hr
  have h1 := issueEn1_of_issueEn2 h2
  have hc := (issueEn2_together h2).ctype1
  have hd1 : dataI.slot1 = issueRecord c b.slot1 rd1.slot1 rd2.slot1 := by
    simp [dataI, issueGroup, h1]
  have hd0 : dataI.slot0 =
      { issueRecord x b.slot0 rd1.slot0 rd2.slot0 with
        preB := false, prePc := 0#32, isSlot := c.ctl.transfers } := by
    simp [dataI, issueGroup, h2]
  have hacc : (groupE dataI env).slot0.ctl.accesses = false :=
    groupE_slot0_accesses (by rw [hd0]; exact hx.accesses)
  simp only [raises1, Bool.or_eq_false_iff] at hr
  -- The companion is charged with the outcome of the silent slot 0.
  have ht1 : (groupW dataI env).slot1.cp0Ctl.ctype = c.cp0Ctl.ctype := by
    rw [groupW_slot1_ctype, ownOutcome_slot0_of_silent hacc, Cp0Type.charge_none,
      groupE_slot1_ctype, hr.1, hd1]
    rfl
  have ht : (groupW dataI env).slot0.cp0Ctl.ctype = .exception := by
    have ht0 : (groupE dataI env).slot0.cp0Ctl.ctype = .exception := by
      simp [groupE_slot0_ctype, hd0, issueRecord, hx.ctype]
    rw [groupW_slot0_ctype, ht0, Cp0Type.charge_exception]
  have hsel : excSlot (groupW dataI env) = (groupW dataI env).slot0 := by
    simp [excSlot, validN, ht1, Cp0Type.leaves, hc]
  have hstep := step_of_faultCode hq hf (groupW dataI env) resp
    (by rw [hsel, ht]) (by rw [hsel, groupW_slot0_badVaddrF, hd0]; rfl)
    (by rw [hsel, groupW_slot0_reserveInstr, hd0]; rfl)
    (by rw [hsel, groupW_slot0_iTlbExc, hd0]; rfl) (by simp [isEret, ht, ht1, hc])
  rw [hsel] at hstep
  exact
    { request := hacc
      regs := fun sp => writeback_valid_of_leaves (by simp [ht, Cp0Type.leaves])
      hilo := groupW_slot0_writesHilo (by rw [hd0]; exact hx.hilo)
      cp0write := groupW_slot0_cp0write (by rw [hd0]; exact hx.cp0write)
      tlb := by rw [groupW_slot0_tlbType, hd0]; exact hx.tlb
      eret := by simp [ht]
      exception := by
        change (excSlot (groupW dataI env)).cp0Ctl.ctype = .exception
        rw [hsel, ht]
      noInterrupt := hq.takesInterrupt _ resp
      excCode := hstep.1
      badVaddr := hstep.2 }

end Sufficient

section Necessary

variable {x : DecodeData} {s : Cp0State} {irq : IrqInput} {code : BitVec 5}

/-- The code that `cp0` records is the one `code` names. -/
theorem OnlyFaults.excCode_eq {e : ExecuteData} {w : MemoryData} {pair : Pair MemoryData}
    {resp : MmuResp} (h : OnlyFaults e w pair s resp irq code) :
    FrailCPU.excCode (s.interrupt (cp0Input pair resp irq)) (cp0Input pair resp irq) = code := by
  rw [← h.excCode]
  simp only [Cp0State.step, Cp0State.regsNxt, Cp0State.regsTaken, h.noInterrupt, h.exception]
  split <;> simp [Cp0Regs.setExl]

theorem OnlyFaults.quiet {e : ExecuteData} {w : MemoryData} {pair : Pair MemoryData}
    {resp : MmuResp} (h : OnlyFaults e w pair s resp irq code) (hc : code ≠ exccodeInt) :
    Quiet s irq := by
  have hi : s.interrupt (cp0Input pair resp irq) = false := by
    rw [Bool.eq_false_iff]
    intro hi
    apply hc
    rw [← h.excCode_eq, hi]
    rfl
  have hn := h.noInterrupt
  rw [Cp0State.takesInterrupt, Cp0State.isInt, hi, Bool.false_or] at hn
  exact ⟨hi, hn⟩

theorem ite_ne {α : Type} {b : Bool} {u v c : α} (hu : u ≠ c) (hv : v ≠ c) :
    (if b then u else v) ≠ c := by
  cases b with
  | false => exact hv
  | true => exact hu

/-- Only the outcome of a fetch or of a data request makes the code `TLBL`. -/
theorem excCode_ne_tlbl {b : Bool} {i : Cp0Input} (hi : i.iTlbExc = {})
    (hd : i.dTlbExc = {}) : FrailCPU.excCode b i ≠ exccodeTlbl := by
  rw [excCode, hi, hd]
  simp only [Bool.or_self, Bool.false_eq_true, if_false]
  repeat' apply ite_ne
  all_goals decide

/-- A valid companion without any effect: its control record is empty. -/
def idle : DecodeData := { valid := true }

/-- The group of `x` with the idle companion, all registers ready. -/
def probe (x : DecodeData) : Pair IssueData :=
  issueGroup x idle ⟨{}, {}⟩ ⟨0#32, 0#32⟩ ⟨0#32, 0#32⟩

/-- Operands for which an access of `x` is at address zero. -/
def probeEnv (x : DecodeData) : GroupEnv :=
  { rd := ⟨⟨-extendB (issueRecord x {} 0#32 0#32), 0#32⟩, {}⟩ }

theorem probe_issueEn1 (hv : x.valid = true) : issueEn1 x idle ⟨{}, {}⟩ = true := by
  simp [issueEn1, PortBypass.ready, hv, idle]

theorem probe_slot1 (hv : x.valid = true) :
    (probe x).slot1 = issueRecord x {} 0#32 0#32 := by
  simp [probe, issueGroup, probe_issueEn1 hv]

theorem probe_slot0_ctl : (probe x).slot0.ctl = {} := by
  simp only [probe, issueGroup]
  split <;> rfl

theorem probe_slot0_cp0Ctl : (probe x).slot0.cp0Ctl = {} := by
  simp only [probe, issueGroup]
  split <;> rfl

theorem probe_outcome : (ownOutcome (probe x) (probeEnv x)).slot0 = {} := by
  apply ownOutcome_slot0_of_silent
  apply groupE_slot0_accesses
  rw [probe_slot0_ctl]
  rfl

/-- The idle companion never becomes an exception. -/
theorem probe_slot0_ctype (ho : (ownOutcome (probe x) (probeEnv x)).slot1 = {}) :
    (groupW (probe x) (probeEnv x)).slot0.cp0Ctl.ctype = .noExc := by
  have hl : loadMisalign (probe x).slot0 (probeEnv x).rd.slot0 = false := by
    simp [loadMisalign, probe_slot0_ctl]
  have hs : storeMisalign (probe x).slot0 (probeEnv x).rd.slot0 = false := by
    simp [storeMisalign, probe_slot0_ctl]
  have he : exceptionOf (probe x).slot0 (probeEnv x).rd.slot0 = false := by
    simp [exceptionOf, probe_slot0_ctl, aluOverflow]
  have ht : trapOf (probe x).slot0 (probeEnv x).rd.slot0 = false := by
    simp [trapOf, probe_slot0_ctl]
  rw [groupW_slot0_ctype, ho, Cp0Type.charge_none, groupE_slot0_ctype, probe_slot0_cp0Ctl]
  simp [found0, Found.any, hl, hs, he, ht]

theorem FaultsInSlot1.onProbe (h : FaultsInSlot1 x s irq code) (hv : x.valid = true) :
    OnlyFaults (groupE (probe x) (probeEnv x)).slot1 (groupW (probe x) (probeEnv x)).slot1
      (groupW (probe x) (probeEnv x)) s {} irq code :=
  h idle ⟨{}, {}⟩ ⟨0#32, 0#32⟩ ⟨0#32, 0#32⟩ (probeEnv x) {} (probe_issueEn1 hv)

/-- A fault-only instruction makes no access, for otherwise its request at address zero
would be seen. -/
theorem FaultsInSlot1.accesses (h : FaultsInSlot1 x s irq code) (hv : x.valid = true)
    (hc : x.ctl.Coherent) : x.ctl.accesses = false := by
  cases ha : x.ctl.accesses with
  | false => rfl
  | true =>
      obtain ⟨-, -, -, hfunc, hsrc, hsh⟩ := hc.access_plain ha
      have hout : aluOut (probe x).slot1 (probeEnv x).rd.slot1 = 0#32 := by
        simp [aluOut, aluA, aluB, alu, probe_slot1 hv, issueRecord, hfunc, hsrc, hsh, probeEnv,
          BitVec.add_comm, BitVec.add_neg_eq_sub]
      have hl : loadMisalign (probe x).slot1 (probeEnv x).rd.slot1 = false := by
        simp [loadMisalign, sizeMisaligned, hout]
      have hs : storeMisalign (probe x).slot1 (probeEnv x).rd.slot1 = false := by
        simp [storeMisalign, sizeMisaligned, hout]
      have hr : (groupE (probe x) (probeEnv x)).slot1.ctl.accesses = false :=
        (h.onProbe hv).request
      have he : (groupE (probe x) (probeEnv x)).slot1.ctl.accesses =
          (probe x).slot1.ctl.accesses := by
        simp [groupE, execute, executeCtl1, Control.accesses, hl, hs]
      rw [he, probe_slot1 hv] at hr
      exact ha.symm.trans hr

theorem probe_slot1_ctype_of_special (hv : x.valid = true) (hc : x.ctl.Coherent)
    (h : x.ctl.cp0toreg = true ∨ x.ctl.cp0write = true ∨ x.ctl.isEret = true) :
    (groupW (probe x) (probeEnv x)).slot1.cp0Ctl.ctype = x.cp0Ctl.ctype := by
  have hd : (probe x).slot1.ctl = x.ctl := by rw [probe_slot1 hv]; rfl
  obtain ⟨he, hs, hl, ht⟩ := quiet_of_special (d := (probe x).slot1)
    (r := (probeEnv x).rd.slot1) (by rw [hd]; exact hc) (by rw [hd]; exact h)
  have hn : (found1 (probe x) (probeEnv x).rd).any = false := by
    simp [found1, Found.any, he, hs, hl, ht]
  rw [groupW_slot1_ctype, probe_outcome, Cp0Type.charge_none, groupE_slot1_ctype, hn]
  simp [probe_slot1 hv, issueRecord]

/-- The record `cp0` looks at for the probe is that of `x`. -/
theorem FaultsInSlot1.selected (h : FaultsInSlot1 x s irq code) (hv : x.valid = true)
    (hc : x.ctl.Coherent) : excSlot (groupW (probe x) (probeEnv x)) =
      (groupW (probe x) (probeEnv x)).slot1 := by
  have hacc := h.accesses hv hc
  have ho : (ownOutcome (probe x) (probeEnv x)).slot1 = {} :=
    ownOutcome_slot1_of_silent (groupE_slot1_accesses (by rw [probe_slot1 hv]; exact hacc))
  have hx : (excSlot (groupW (probe x) (probeEnv x))).cp0Ctl.ctype = .exception :=
    (h.onProbe hv).exception
  unfold excSlot at hx ⊢
  split
  · rfl
  · rename_i hn
    rw [if_neg hn, probe_slot0_ctype ho] at hx
    cases hx

theorem FaultsInSlot1.ctype (h : FaultsInSlot1 x s irq code) (hv : x.valid = true)
    (hc : x.ctl.Coherent) :
    (groupW (probe x) (probeEnv x)).slot1.cp0Ctl.ctype = .exception := by
  rw [← h.selected hv hc]
  exact (h.onProbe hv).exception

end Necessary

section Record

variable {f : FetchData} {preB : Bool} {prePc : Word} {s : Cp0State} {irq : IrqInput}

/-- Of the words that come with a charged TLB fault, only harmless ones do nothing but
fault. -/
theorem harmless_of_faultsInSlot1 (hf : f.cp0Ctl.ctype = .exception)
    (hb : f.cp0Ctl.etype.badVaddrF = false) (hv : f.valid = true)
    (h : FaultsInSlot1 (decodeSlot f preB prePc) s irq exccodeTlbl) :
    Harmless (decodeSlot f preB prePc) ∧
      (decodeSlot f preB prePc).cp0Ctl.etype.reserveInstr = false := by
  have hc := (decodeSlot_wellDecoded f preB prePc).coherent
  have ht := decoder_typed f.rawInstr f.valid f.cp0Ctl
  have hv' : (decodeSlot f preB prePc).valid = true := hv
  have hx := h.ctype hv' hc
  have hp := h.onProbe hv'
  have hcode := hp.excCode_eq
  have hsel := h.selected hv' hc
  have hb' : (decodeSlot f preB prePc).cp0Ctl.etype.badVaddrF = false :=
    ht.badVaddrF.trans hb
  generalize hxd : decodeSlot f preB prePc = x at *
  refine ⟨⟨?_, h.accesses hv' hc, ?_, ?_, ?_⟩, ?_⟩
  · have ht' : x.cp0Ctl.ctype = f.cp0Ctl.ctype ∨ x.cp0Ctl.ctype = .exception ∨
        (x.cp0Ctl.ctype = .eret ∧ x.ctl.isEret = true) ∨
        (x.cp0Ctl.ctype = .instr ∧ (x.ctl.cp0toreg = true ∨ x.ctl.cp0write = true)) := by
      rw [← hxd]
      exact ht.ctype
    rcases ht' with he | he | ⟨he, hs⟩ | ⟨he, hs⟩
    · exact he.trans hf
    · exact he
    · rw [probe_slot1_ctype_of_special hv' hc (Or.inr (Or.inr hs)), he] at hx
      cases hx
    · rw [probe_slot1_ctype_of_special hv' hc (by tauto), he] at hx
      cases hx
  · simpa [probe_slot1 hv', issueRecord] using hp.hilo
  · simpa [probe_slot1 hv', issueRecord] using hp.cp0write
  · simpa [probe_slot1 hv', issueRecord] using hp.tlb
  · cases hr : x.cp0Ctl.etype.reserveInstr with
    | false => rfl
    | true =>
        have hbi : (cp0Input (groupW (probe x) (probeEnv x)) {} irq).etype.badVaddrF = false := by
          change (excSlot _).cp0Ctl.etype.badVaddrF = false
          rw [hsel, groupW_slot1_badVaddrF, probe_slot1 hv']
          exact hb'
        have hri : (cp0Input (groupW (probe x) (probeEnv x)) {} irq).etype.reserveInstr = true := by
          change (excSlot _).cp0Ctl.etype.reserveInstr = true
          rw [hsel, groupW_slot1_reserveInstr, probe_slot1 hv']
          exact hr
        rw [excCode, hbi, hri] at hcode
        simp only [Bool.false_eq_true, if_false, if_true] at hcode
        exact absurd hcode (ite_ne (by decide) (by decide))

/-- An instruction that no fault is charged to does not take one. -/
theorem not_faultsInSlot1_of_uncharged (hf : f.iTlbExc = {}) (hv : f.valid = true) :
    ¬ FaultsInSlot1 (decodeSlot f preB prePc) s irq exccodeTlbl := by
  intro h
  have hc := (decodeSlot_wellDecoded f preB prePc).coherent
  have hv' : (decodeSlot f preB prePc).valid = true := hv
  have hsel := h.selected hv' hc
  apply excCode_ne_tlbl _ _ (h.onProbe hv').excCode_eq
  · change (excSlot _).iTlbExc = {}
    rw [hsel, groupW_slot1_iTlbExc, probe_slot1 hv']
    exact hf
  · change (excSlot _).dTlbExc = {}
    rw [hsel, groupW_slot1_dTlbExc, probe_outcome]

end Record

section Fetch

variable (m : MmuState) (dataP : PcSelectData) (env : FetchEnv) (words : Pair Word)
  (s : Cp0State) (irq : IrqInput)

/-- The two instructions of one fetch. -/
def fetched : Pair DecodeData := decode (fetchRecords m dataP env words)

/-- The fetch of the word at `pc` failed. -/
def failed1 : Bool := pcExcept dataP.pc || (pcOutcome m dataP env).any

/-- The fetch of the word at `pc+4` failed. -/
def failed0 : Bool := (nextOutcome m dataP env).any

/-- The code of the failure: `AdEL` for the misaligned program counter. -/
def failCode : BitVec 5 := if pcExcept dataP.pc then exccodeAdel else exccodeTlbl

/-- Each instruction whose own fetch failed does nothing but fault; the younger one is
asked only when the older one lets it go on. -/
def FetchFaultsOnly : Prop :=
  ((fetched m dataP env words).slot1.valid = true → failed1 m dataP env = true →
    FaultsOnly (fetched m dataP env words).slot1 s irq (failCode dataP)) ∧
  ((fetched m dataP env words).slot0.valid = true → failed0 m dataP env = true →
    (fetched m dataP env words).slot1.cp0Ctl.ctype.leaves = false →
    FaultsOnly (fetched m dataP env words).slot0 s irq exccodeTlbl)

/-- How the decoder reads a word that comes with a TLB fault. -/
def faultedWord (w : Word) : Decoded := decoder w true { ctype := .exception }

/-- The word keeps the fault and asks for nothing else: it is no load, store or cache
operation, writes neither HI nor LO nor the TLB, is no CP0 move and no `ERET`, and is not
reserved. -/
structure HarmlessWord (w : Word) : Prop where
  ctype : (faultedWord w).cp0Ctl.ctype = .exception
  accesses : (faultedWord w).ctl.accesses = false
  hilo : (faultedWord w).ctl.writesHilo = false
  cp0write : (faultedWord w).ctl.cp0write = false
  tlb : (faultedWord w).ctl.tlbType ≠ .tlbwi ∧ (faultedWord w).ctl.tlbType ≠ .tlbwr
  reserve : (faultedWord w).cp0Ctl.etype.reserveInstr = false

/-- When the word at `pc` failed, W is quiet, and the address is misaligned or both words
failed and the word is harmless; when the word at `pc+4` failed, the word in front of it
leaves through `cp0`. -/
def FaultsContained : Prop :=
  ((fetched m dataP env words).slot1.valid = true → failed1 m dataP env = true →
    Quiet s irq ∧ (pcExcept dataP.pc = true ∨
      (failed0 m dataP env = true ∧ HarmlessWord words.slot1))) ∧
  ((fetched m dataP env words).slot0.valid = true → failed0 m dataP env = true →
    (faultedWord words.slot1).cp0Ctl.ctype.leaves = true)

variable {m dataP env words s irq}

theorem pcExcept_of_failed0 (h : failed0 m dataP env = true) : pcExcept dataP.pc = false := by
  cases hp : pcExcept dataP.pc with
  | false => rfl
  | true =>
      rw [failed0, nextOutcome_of_pcExcept m dataP env hp] at h
      cases h

/-- The record of slot 1 when the second word failed is that of a bare exception. -/
theorem fetched_slot1_of_failed0 (hv : (fetched m dataP env words).slot1.valid = true)
    (h : failed0 m dataP env = true) :
    (fetched m dataP env words).slot1.ctl = (faultedWord words.slot1).ctl ∧
      (fetched m dataP env words).slot1.cp0Ctl = (faultedWord words.slot1).cp0Ctl := by
  have hp := pcExcept_of_failed0 h
  have hv' : (fetchRecords m dataP env words).slot1.valid = true := hv
  have hc : (fetchRecords m dataP env words).slot1.cp0Ctl = { ctype := .exception } := by
    have hn : (m.iTlbExc (vIreq dataP env).slot1).any = true := h
    simp [fetchRecords, dataF2Nxt, dataF1Nxt, hp, hn]
  have hr : (fetchRecords m dataP env words).slot1.rawInstr = words.slot1 := by
    simp [fetchRecords, dataF2Nxt, dataF1Nxt, hp]
  simp only [fetched, decode, decodeSlot, hv', hc, hr]
  exact ⟨rfl, rfl⟩

theorem fetched_slot1_valid_of_slot0
    (h : (fetched m dataP env words).slot0.valid = true) :
    (fetched m dataP env words).slot1.valid = true := by
  simp only [fetched, decode, decodeSlot, fetchRecords, dataF2Nxt, dataF1Nxt,
    Bool.and_eq_true] at h ⊢
  exact h.2

/-- The zero word of a misaligned fetch does no harm. -/
theorem harmless_of_pcExcept (hv : (fetched m dataP env words).slot1.valid = true)
    (hp : pcExcept dataP.pc = true) :
    Harmless (fetched m dataP env words).slot1 ∧
      FaultCode (fetched m dataP env words).slot1 exccodeAdel := by
  have hv' : (fetchRecords m dataP env words).slot1.valid = true := hv
  have hc : (fetchRecords m dataP env words).slot1.cp0Ctl =
      { excEret := true, ctype := .exception, etype := { badVaddrF := true } } := by
    simp [fetchRecords, dataF2Nxt, dataF1Nxt, hp]
  have hr : (fetchRecords m dataP env words).slot1.rawInstr = 0#32 := by
    simp [fetchRecords, dataF2Nxt, dataF1Nxt, hp]
  have hx : (fetched m dataP env words).slot1.ctl = (decoder 0#32 true
        { excEret := true, ctype := .exception, etype := { badVaddrF := true } }).ctl ∧
      (fetched m dataP env words).slot1.cp0Ctl = (decoder 0#32 true
        { excEret := true, ctype := .exception, etype := { badVaddrF := true } }).cp0Ctl := by
    constructor <;> simp only [fetched, decode, decodeSlot, hv', hc, hr]
  refine ⟨⟨?_, ?_, ?_, ?_, ?_⟩, Or.inl ⟨?_, rfl⟩⟩
  · rw [hx.2]; decide
  · rw [hx.1]; decide
  · rw [hx.1]; decide
  · rw [hx.1]; decide
  · rw [hx.1]; decide
  · rw [hx.2]; decide

theorem faultCode_of_failed0 (hv : (fetched m dataP env words).slot1.valid = true)
    (h : failed0 m dataP env = true)
    (hr : (fetched m dataP env words).slot1.cp0Ctl.etype.reserveInstr = false) :
    FaultCode (fetched m dataP env words).slot1 exccodeTlbl := by
  have hb : (fetched m dataP env words).slot1.cp0Ctl.etype.badVaddrF = false := by
    rw [(fetched_slot1_of_failed0 hv h).2]
    exact (decoder_typed words.slot1 true { ctype := .exception }).badVaddrF
  have hi : (fetched m dataP env words).slot1.iTlbExc = nextOutcome m dataP env :=
    fetchRecords_slot1_iTlbExc m dataP env words
  refine Or.inr ⟨hb, hr, ?_, rfl⟩
  rw [hi]
  simpa [failed0, TlbExc.any, nextOutcome, MmuState.iTlbExc] using h

theorem FaultsOnly.quiet {x : DecodeData} {code : BitVec 5} (h : FaultsOnly x s irq code)
    (hv : x.valid = true) (hc : code ≠ exccodeInt) : Quiet s irq :=
  (h.1.onProbe hv).quiet hc

theorem faultsOnly_of_harmless {x : DecodeData} {code : BitVec 5} (hx : Harmless x)
    (hf : FaultCode x code) (hq : Quiet s irq) : FaultsOnly x s irq code :=
  ⟨faultsInSlot1_of_harmless hx hf hq, faultsInSlot0_of_harmless hx hf hq⟩

/-- Slot 1 with a misaligned program counter. -/
theorem faultsOnly_slot1_of_pcExcept (hv : (fetched m dataP env words).slot1.valid = true)
    (hp : pcExcept dataP.pc = true) :
    FaultsOnly (fetched m dataP env words).slot1 s irq (failCode dataP) ↔ Quiet s irq := by
  have hcode : failCode dataP = exccodeAdel := by simp [failCode, hp]
  obtain ⟨hx, hf⟩ := harmless_of_pcExcept hv hp
  rw [hcode]
  exact ⟨fun h => h.quiet hv (by decide), faultsOnly_of_harmless hx hf⟩

/-- Slot 1 when its own fetch failed in the TLB. -/
theorem faultsOnly_slot1_of_outcome (hv : (fetched m dataP env words).slot1.valid = true)
    (hp : pcExcept dataP.pc = false) :
    FaultsOnly (fetched m dataP env words).slot1 s irq (failCode dataP) ↔
      Quiet s irq ∧ failed0 m dataP env = true ∧ HarmlessWord words.slot1 := by
  have hcode : failCode dataP = exccodeTlbl := by simp [failCode, hp]
  have hi : (fetchRecords m dataP env words).slot1.iTlbExc = nextOutcome m dataP env :=
    fetchRecords_slot1_iTlbExc m dataP env words
  rw [hcode]
  constructor
  · intro h
    have h0 : failed0 m dataP env = true := by
      by_contra h0
      have hn := TlbExc.any_eq_false.1 (Bool.eq_false_of_not_eq_true h0)
      exact not_faultsInSlot1_of_uncharged (hi.trans hn) hv h.1
    obtain ⟨hctl, hcp0⟩ := fetched_slot1_of_failed0 hv h0
    have hft : (fetchRecords m dataP env words).slot1.cp0Ctl.ctype = .exception := by
      have h0' : (nextOutcome m dataP env).any = true := h0
      simp [fetchRecords_slot1_ctype, h0']
    have hfb : (fetchRecords m dataP env words).slot1.cp0Ctl.etype.badVaddrF = false := hp
    obtain ⟨hx, hr⟩ := harmless_of_faultsInSlot1 hft hfb hv h.1
    refine ⟨h.quiet hv (by decide), h0, ?_⟩
    exact
      { ctype := by rw [← hcp0]; exact hx.ctype
        accesses := by rw [← hctl]; exact hx.accesses
        hilo := by rw [← hctl]; exact hx.hilo
        cp0write := by rw [← hctl]; exact hx.cp0write
        tlb := by rw [← hctl]; exact hx.tlb
        reserve := by rw [← hcp0]; exact hr }
  · rintro ⟨hq, h0, hw⟩
    obtain ⟨hctl, hcp0⟩ := fetched_slot1_of_failed0 hv h0
    have hx : Harmless (fetched m dataP env words).slot1 :=
      { ctype := by rw [hcp0]; exact hw.ctype
        accesses := by rw [hctl]; exact hw.accesses
        hilo := by rw [hctl]; exact hw.hilo
        cp0write := by rw [hctl]; exact hw.cp0write
        tlb := by rw [hctl]; exact hw.tlb }
    have hf := faultCode_of_failed0 hv h0 (by rw [hcp0]; exact hw.reserve)
    exact faultsOnly_of_harmless hx hf hq

/-- Slot 0 is never charged with its own outcome. -/
theorem not_faultsOnly_slot0 (hv : (fetched m dataP env words).slot0.valid = true)
    (h : failed0 m dataP env = true) :
    ¬ FaultsOnly (fetched m dataP env words).slot0 s irq exccodeTlbl := by
  have hi : (fetchRecords m dataP env words).slot0.iTlbExc = {} := by
    have h' : (nextOutcome m dataP env).any = true := h
    rw [fetchRecords_slot0_iTlbExc, if_pos h']
  exact fun hf => not_faultsInSlot1_of_uncharged hi hv hf.1

end Fetch

/-- A fetch from an unmapped page of an empty TLB. -/
def failingFetch : PcSelectData := { pc := 0x00400000#32 }

def emptyTlb : MmuState := { tlbRam := fun _ => {}, asid := 0#8, configK0 := 3#3 }

end FrailCPU
