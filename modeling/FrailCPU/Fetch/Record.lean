import FrailCPU.Mmu.Mmu

/-!
# The fetch records

The part of `MyCore.sv` between the program counter and the decoder. One fetch asks
for the words at `pc` and `pc+4`; `dataF1Nxt` records the outcome of the translation
for both words, and `dataF2Nxt` splits the record over the two slots when the words
arrive.
-/

namespace FrailCPU

/-- `pcselect_data_t`: the registers of the program counter. -/
structure PcSelectData where
  pc : Word := 0xbfc00000#32
  cacheI : Bool := false
  icacheInst : ICacheInst := .unknown

/-- `pc_except`: the program counter is misaligned. -/
def pcExcept (pc : Word) : Bool := pc.getLsbD 1 || pc.getLsbD 0

/-- What the fetch stage reads besides the program counter and the translation. -/
structure FetchEnv where
  m1IcacheInst : ICacheInst := .unknown
  iWait : Bool := false
  icacheSaved : Bool := false
  predTaken : Bool := false
  hitBit : Bool := false
  prePc : Word := 0#32

/-- `zero_prej`: the prediction belongs to the second word. -/
def FetchEnv.zeroPrej (env : FetchEnv) : Bool := env.predTaken && !env.hitBit

/-- `icache_inst`: the operation the instruction cache performs in this cycle. -/
def FetchEnv.icacheInst (env : FetchEnv) (dataP : PcSelectData) : ICacheInst :=
  if dataP.cacheI then dataP.icacheInst else env.m1IcacheInst

/-- `v_ireq`: port 0 asks for `pc`, port 1 for the word behind it. -/
def vIreq (dataP : PcSelectData) (env : FetchEnv) : Pair IBusReq where
  slot1 :=
    { valid := env.icacheInst dataP == .unknown && !pcExcept dataP.pc
      addr := dataP.pc + 4#32 }
  slot0 := { valid := !pcExcept dataP.pc, addr := dataP.pc }

/-- `dataF1_nxt`. -/
def dataF1Nxt (dataP : PcSelectData) (iTlbExc : Pair TlbExc) (env : FetchEnv) :
    Fetch1Data :=
  let fetching := env.m1IcacheInst == .unknown && !env.iWait && !env.icacheSaved && !dataP.cacheI
  { cp0Ctl :=
      { excEret := pcExcept dataP.pc
        ctype := if pcExcept dataP.pc || iTlbExc.slot1.any then .exception else .noExc
        etype := { badVaddrF := pcExcept dataP.pc } }
    valid := fetching
    pc := dataP.pc
    preB := env.predTaken && !env.zeroPrej
    prePc := env.prePc
    nxtValid := !env.zeroPrej && fetching
    nxtException := !iTlbExc.slot1.any && iTlbExc.slot0.any
    iTlbExc := if !iTlbExc.slot1.any then iTlbExc.slot0 else iTlbExc.slot1 }

/-- The two words of `iresp`, or the pair saved during a stall. -/
def instrWords (irespData : Pair Word) (saved : Option (Pair Word)) : Pair Word :=
  saved.getD irespData

/-- `dataF2_nxt`. -/
def dataF2Nxt (dataF1 : Fetch1Data) (words : Pair Word) : Pair FetchData where
  slot1 :=
    { valid := dataF1.valid
      rawInstr := if dataF1.cp0Ctl.excEret then 0#32 else words.slot1
      pc := dataF1.pc
      cp0Ctl := dataF1.cp0Ctl
      preB := dataF1.preB
      prePc := dataF1.prePc
      iTlbExc := if dataF1.nxtException then {} else dataF1.iTlbExc }
  slot0 :=
    { valid := dataF1.nxtValid
      rawInstr := if dataF1.cp0Ctl.excEret then 0#32 else words.slot0
      pc := if dataF1.nxtValid then dataF1.pc + 4#32 else 0#32
      cp0Ctl := { ctype := if dataF1.nxtException then .exception else .noExc }
      iTlbExc := if dataF1.nxtException then dataF1.iTlbExc else {} }

section Split

variable (dataP : PcSelectData) (exc : Pair TlbExc) (env : FetchEnv) (words : Pair Word)

/-- Slot 1 carries the outcome of port 1, whatever port 0 says. -/
theorem dataF2Nxt_slot1_iTlbExc :
    (dataF2Nxt (dataF1Nxt dataP exc env) words).slot1.iTlbExc = exc.slot1 := by
  simp only [dataF2Nxt, dataF1Nxt]
  by_cases h1 : exc.slot1.any = true
  · simp [h1]
  · have e1 := TlbExc.any_eq_false.1 (Bool.eq_false_of_not_eq_true h1)
    by_cases h0 : exc.slot0.any = true
    · simp [e1, h0]
    · have e0 := TlbExc.any_eq_false.1 (Bool.eq_false_of_not_eq_true h0)
      simp [e1, e0]

/-- Slot 0 carries the outcome of port 0, and only when port 1 found nothing. -/
theorem dataF2Nxt_slot0_iTlbExc :
    (dataF2Nxt (dataF1Nxt dataP exc env) words).slot0.iTlbExc =
      if exc.slot1.any then {} else exc.slot0 := by
  simp only [dataF2Nxt, dataF1Nxt]
  by_cases h1 : exc.slot1.any = true
  · simp [h1]
  · by_cases h0 : exc.slot0.any = true
    · simp [h1, h0]
    · have e0 := TlbExc.any_eq_false.1 (Bool.eq_false_of_not_eq_true h0)
      simp [h1, e0]

end Split

section Fetch

variable (m : MmuState) (dataP : PcSelectData) (env : FetchEnv) (words : Pair Word)

/-- The records of one fetch, from the program counter to the decoder. -/
def fetchRecords : Pair FetchData :=
  dataF2Nxt (dataF1Nxt dataP ((vIreq dataP env).map m.iTlbExc) env) words

/-- The outcome of the word at `pc`, which slot 1 will hold. -/
def pcOutcome : TlbExc := m.iTlbExc (vIreq dataP env).slot0

/-- The outcome of the word at `pc+4`, which slot 0 will hold. -/
def nextOutcome : TlbExc := m.iTlbExc (vIreq dataP env).slot1

theorem nextOutcome_of_pcExcept (h : pcExcept dataP.pc = true) :
    nextOutcome m dataP env = {} :=
  m.iTlbExc_of_invalid (by simp [vIreq, h])

/-- The two outcomes come back with the ports in the other order: slot 1 is given the
outcome of `pc+4`. -/
theorem fetchRecords_slot1_iTlbExc :
    (fetchRecords m dataP env words).slot1.iTlbExc = nextOutcome m dataP env :=
  dataF2Nxt_slot1_iTlbExc dataP _ env words

theorem fetchRecords_slot0_iTlbExc :
    (fetchRecords m dataP env words).slot0.iTlbExc =
      if (nextOutcome m dataP env).any then {} else pcOutcome m dataP env :=
  dataF2Nxt_slot0_iTlbExc dataP _ env words

theorem fetchRecords_slot1_ctype :
    (fetchRecords m dataP env words).slot1.cp0Ctl.ctype =
      if pcExcept dataP.pc || (nextOutcome m dataP env).any then .exception else .noExc := rfl

theorem fetchRecords_slot0_ctype :
    (fetchRecords m dataP env words).slot0.cp0Ctl.ctype =
      if !(nextOutcome m dataP env).any && (pcOutcome m dataP env).any then .exception
      else .noExc := rfl

end Fetch

end FrailCPU
