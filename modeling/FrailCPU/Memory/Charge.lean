import FrailCPU.Memory.Memory
import FrailCPU.Fetch.Record

/-!
# Who is charged with a TLB exception

The pair of data requests enters `mmu` with the older one at port 0, and the pair of
fetch requests with `pc` at port 0; both sides then read the outcomes back with the
older slot at index 1. So an outcome is charged to the other slot, and the records are
right only when the exchange cannot be seen: on the data side when both slots have the
same outcome, on the fetch side when there is none.
-/

namespace FrailCPU

/-- The exception records of M2 name, for each slot, the outcome of the slot's own
request. -/
def DataCharged (m : MmuState) (dataE : Pair ExecuteData) : Prop :=
  let charged := memory dataE (memoryExc m dataE)
  let own := dataE.map fun e => m.dTlbExc (memoryReq e)
  (charged.slot1.dTlbExc = own.slot1 ∧
    charged.slot1.cp0Ctl.ctype = dataE.slot1.cp0Ctl.ctype.charge own.slot1) ∧
  (charged.slot0.dTlbExc = own.slot0 ∧
    charged.slot0.cp0Ctl.ctype = dataE.slot0.cp0Ctl.ctype.charge own.slot0)

/-- The fetch records name, for each slot, the outcome of the slot's own address. -/
def FetchCharged (m : MmuState) (dataP : PcSelectData) (env : FetchEnv)
    (words : Pair Word) : Prop :=
  let charged := fetchRecords m dataP env words
  (charged.slot1.iTlbExc = pcOutcome m dataP env ∧
    charged.slot1.cp0Ctl.ctype =
      if pcExcept dataP.pc || (pcOutcome m dataP env).any then .exception else .noExc) ∧
  (charged.slot0.iTlbExc = nextOutcome m dataP env ∧
    charged.slot0.cp0Ctl.ctype =
      if (nextOutcome m dataP env).any then .exception else .noExc)

theorem dataCharged_iff (m : MmuState) (dataE : Pair ExecuteData) :
    DataCharged m dataE ↔
      m.dTlbExc (memoryReq dataE.slot1) = m.dTlbExc (memoryReq dataE.slot0) := by
  constructor
  · rintro ⟨⟨h, -⟩, -⟩
    exact h.symm
  · intro h
    simp [DataCharged, memory, chargeDTlbExc, h]

theorem fetchCharged_iff (m : MmuState) (dataP : PcSelectData) (env : FetchEnv)
    (words : Pair Word) :
    FetchCharged m dataP env words ↔
      pcOutcome m dataP env = {} ∧ nextOutcome m dataP env = {} := by
  simp only [FetchCharged, fetchRecords_slot1_iTlbExc, fetchRecords_slot0_iTlbExc,
    fetchRecords_slot1_ctype, fetchRecords_slot0_ctype]
  constructor
  · rintro ⟨⟨h1, -⟩, h0, -⟩
    have hnone : nextOutcome m dataP env = {} := by
      by_cases h : (nextOutcome m dataP env).any = true
      · rw [if_pos h] at h0
        exact h0.symm
      · exact TlbExc.any_eq_false.1 (Bool.eq_false_of_not_eq_true h)
    exact ⟨h1.symm.trans hnone, hnone⟩
  · rintro ⟨h1, h0⟩
    simp [h1, h0]

/-- Every exception record of the two slots is that of the slot's own access exactly
when neither word of the fetch faults and both data requests have one outcome. -/
theorem tlbExc_charged_iff (m : MmuState) (dataE : Pair ExecuteData) (dataP : PcSelectData)
    (env : FetchEnv) (words : Pair Word) :
    (DataCharged m dataE ∧ FetchCharged m dataP env words) ↔
      m.dTlbExc (memoryReq dataE.slot1) = m.dTlbExc (memoryReq dataE.slot0) ∧
        pcOutcome m dataP env = {} ∧ nextOutcome m dataP env = {} := by
  rw [dataCharged_iff, fetchCharged_iff]

/-- A load in slot 0 that misses the TLB, beside an instruction that makes no request. -/
def loneLoad : Pair ExecuteData where
  slot1 := {}
  slot0 := { valid := true, pc := 0xbfc00004#32, aluOutExt := 0x00400000#64,
             ctl := { memtoreg := true, regwrite := true, msize := .size4 } }

/-- The refill of the lone load is recorded for slot 1, and its own record stays empty. -/
theorem not_dataCharged_loneLoad :
    ¬ DataCharged { tlbRam := fun _ => {}, asid := 0#8, configK0 := 3#3 } loneLoad := by
  rw [dataCharged_iff]
  decide

end FrailCPU
