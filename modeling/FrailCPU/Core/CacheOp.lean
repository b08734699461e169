import FrailCPU.Core.Liveness
import FrailCPU.ICache.Wedge

/-!
# The operations of the instruction cache

A `CACHE` instruction with an operation of the instruction cache sends the fetch to the address
of the operation and back behind itself, and the operation goes with the detour: it is saved
while the fetch waits, laid on the wires of the cache with the address, and performed as a sweep
over the tag array. What one cycle does to the pipeline in front of the operation, to the save
registers of the fetch and to the cache.
-/

namespace FrailCPU

open ClockedMachine

/-! ### The words of the operations -/

/-- An operation of the instruction cache is named, and its instruction accesses nothing. -/
def DecodeData.Sweeps (d : DecodeData) : Prop :=
  d.ctl.cacheI = true → d.cacheCtl.icacheInst ≠ .unknown ∧ d.ctl.accesses = false

section Decode

variable (instr : Word) {d : Decoded}

theorem decodeRegimm_cacheI : (decodeRegimm instr d).ctl.cacheI = false := by
  unfold decodeRegimm
  split <;> rfl

theorem decodeCop0_cacheI : (decodeCop0 instr d).ctl.cacheI = false := by
  unfold decodeCop0
  split
  · unfold decodeCop0Func
    split <;> rfl
  all_goals rfl

theorem decodeCop1_cacheI : (decodeCop1 instr d).ctl.cacheI = false := by
  unfold decodeCop1
  split <;> rfl

theorem decodeCache_sweeps (hc : (decodeCache instr d).ctl.cacheI = true) :
    (decodeCache instr d).cacheCtl.icacheInst ≠ .unknown ∧
      (decodeCache instr d).ctl.accesses = false := by
  revert hc
  unfold decodeCache
  split <;> simp [Control.accesses]

variable (h : d.ctl = {})

include h

theorem decodeSpecial_cacheI : (decodeSpecial instr d).ctl.cacheI = false := by
  unfold decodeSpecial
  split <;> simp [h, Decoded.reserved, Decoded.threeReg, Decoded.twoReg, Decoded.shiftReg]

theorem decodeSpecial2_cacheI : (decodeSpecial2 instr d).ctl.cacheI = false := by
  unfold decodeSpecial2
  split <;> simp [h, Decoded.threeReg, Decoded.twoReg]

theorem decodeOp_sweeps (hc : (decodeOp instr d).ctl.cacheI = true) :
    (decodeOp instr d).cacheCtl.icacheInst ≠ .unknown ∧
      (decodeOp instr d).ctl.accesses = false := by
  revert hc
  unfold decodeOp
  split
  case h_12 => simp [decodeRegimm_cacheI]
  case h_31 => exact decodeCache_sweeps instr
  case h_32 => simp [decodeCop0_cacheI]
  case h_33 => simp [decodeSpecial_cacheI instr h]
  case h_34 => simp [decodeCop1_cacheI]
  case h_37 => simp [decodeSpecial2_cacheI instr h]
  all_goals
    simp [h, Decoded.reserved, Decoded.twoReg, Decoded.immReg, Decoded.mergeReg,
      Decoded.copUnusable]

end Decode

theorem decodeSlot_sweeps (f : FetchData) (preB : Bool) (prePc : Word) :
    (decodeSlot f preB prePc).Sweeps := by
  intro hc
  cases hv : f.valid with
  | false =>
      simp only [decodeSlot, decoder, hv] at hc
      cases hc
  | true =>
      simp only [decodeSlot, decoder, hv] at hc ⊢
      exact decodeOp_sweeps f.rawInstr rfl hc

/-- A group with an operation of the instruction cache names it and accesses nothing. -/
def SweepsAlone (op : ICacheInst) (ctl1 ctl0 : Control) : Prop :=
  ctl1.cacheI = true → op ≠ .unknown ∧ ctl1.accesses = false ∧ ctl0.accesses = false

namespace Cpu

variable {s : Cpu} {i : CpuInput}

/-- The operations of the instruction cache on their way to M1. -/
structure OpsNamed (s : Cpu) : Prop where
  queue : s.queue.val.All DecodeData.Sweeps
  e : SweepsAlone s.core.dataI.slot1.cacheCtl.icacheInst s.core.dataI.slot1.ctl
    s.core.dataI.slot0.ctl
  m1 : SweepsAlone s.core.dataE.slot1.cacheCtl.icacheInst s.core.dataE.slot1.ctl
    s.core.dataE.slot0.ctl

theorem opsNamed_reset : OpsNamed {} where
  queue := ⟨fun _ h => (by cases h), fun _ h => (by cases h)⟩
  e h := by cases h
  m1 h := by cases h

theorem sweepsAlone_issueGroup {c1 c2 : DecodeData} (hc : c1.WellDecoded) (hs : c1.Sweeps)
    (b : Pair PortBypass) (rd1 rd2 : Pair Word) :
    SweepsAlone (issueGroup c1 c2 b rd1 rd2).slot1.cacheCtl.icacheInst
      (issueGroup c1 c2 b rd1 rd2).slot1.ctl (issueGroup c1 c2 b rd1 rd2).slot0.ctl := by
  intro hI
  cases h1 : issueEn1 c1 c2 b with
  | false =>
      rw [issueGroup, h1] at hI
      cases hI
  | true =>
      have hslot : (issueGroup c1 c2 b rd1 rd2).slot1 =
          issueRecord c1 b.slot1 rd1.slot1 rd2.slot1 := by
        rw [issueGroup, h1]
        rfl
      rw [hslot] at hI ⊢
      have hsingle : c1.ctl.singleIssue = true := hc.coherent.cacheI_alone hI
      have h2 : issueEn2 c1 c2 b = false := by simp [issueEn2, hsingle]
      have hslot0 : (issueGroup c1 c2 b rd1 rd2).slot0 = {} := by
        rw [issueGroup, h2]
        rfl
      rw [hslot0]
      exact ⟨(hs hI).1, (hs hI).2, rfl⟩

/-- E only takes accesses back. -/
theorem sweepsAlone_execute {d : Pair IssueData} (rd : Pair Operands) (u : MulDivResult)
    (h : SweepsAlone d.slot1.cacheCtl.icacheInst d.slot1.ctl d.slot0.ctl) :
    SweepsAlone (execute d rd u).slot1.cacheCtl.icacheInst (execute d rd u).slot1.ctl
      (execute d rd u).slot0.ctl := by
  intro hI
  obtain ⟨hop, h1, h0⟩ := h hI
  simp only [Control.accesses, Bool.or_eq_false_iff] at h1 h0
  refine ⟨hop, ?_, ?_⟩
  · simp [execute, executeCtl1, Control.accesses, h1]
  · simp [execute, executeCtl0, Control.accesses, h0]

theorem OpsNamed.step (h : s.OpsNamed) : (s.step i).OpsNamed where
  queue := h.queue.step decodeSlot_sweeps _
  e := by
    simp only [Cpu.step, CoreState.step]
    exact pipereg2_ordered (P := fun p : Pair IssueData =>
      SweepsAlone p.slot1.cacheCtl.icacheInst p.slot1.ctl p.slot0.ctl) (fun h => by cases h)
        (sweepsAlone_issueGroup s.queue.property.candidate1
          (h.queue.candidate1 fun h => by cases h) _ _ _) h.e
  m1 := by
    simp only [Cpu.step, CoreState.step]
    exact pipereg2_ordered (P := fun p : Pair ExecuteData =>
      SweepsAlone p.slot1.cacheCtl.icacheInst p.slot1.ctl p.slot0.ctl) (fun h => by cases h)
        (sweepsAlone_execute _ _ h.e) h.m1

end Cpu

/-! ### A fetch that starts again -/

namespace Cpu

variable (s : Cpu) (i : CpuInput)

/-- The register behind the program counter is written. -/
def accepts : Bool := !(s.hazardFront i).stallF2 && !(s.hazardFront i).flushF2

/-- The fetch at the program counter is taken. -/
def captures : Bool :=
  s.accepts i &&
    (dataF1Nxt s.front.dataP (s.fetchInput i).iTlbExc (s.front.env (s.fetchInput i))).valid

/-- Nothing is left between the program counter and M2. -/
structure Emptied : Prop where
  cleared : s.Cleared
  drained : s.front.Drained s.dataD
  blank : s.core.dataE.Each fun d => d.ctl.accesses = false ∧ d.ctl.waitSignal = false

variable {s i}

theorem f1_step (hc : s.captures i = false) (h : s.front.dataF1.valid = false) :
    (s.step i).front.dataF1.valid = false := by
  simp only [captures, accepts, Bool.and_eq_false_iff, Bool.not_eq_false'] at hc
  change (pipereg2 ({} : Fetch1Data) (s.hazardFront i).stallF2 (s.hazardFront i).flushF2 _ _).valid = false
  rw [pipereg2]
  split
  · rfl
  · rename_i hf
    split
    · exact h
    · rename_i hs
      rcases hc with (hc | hc) | hc
      · exact absurd hc hs
      · exact absurd hc hf
      · exact hc

/-- The pipeline stays empty until a fetch is taken. -/
theorem Emptied.step (h : s.Emptied) (ho : s.Ordered) (hc : s.captures i = false) :
    (s.step i).Emptied where
  cleared := h.cleared.step ho (enqueued_of_invalid ho h.drained.d)
  drained := by
    refine ⟨f1_step hc h.drained.f1, ?_, ?_⟩
    · exact pipereg2_ordered (P := fun p : Pair FetchData => p.slot1.valid = false) rfl
        h.drained.f1 h.drained.f2
    · exact pipereg2_ordered (P := fun p : Pair FetchData => p.slot1.valid = false) rfl
        h.drained.f2 h.drained.d
  blank := by
    refine pipereg2_ordered (P := fun p : Pair ExecuteData =>
      p.Each fun d => d.ctl.accesses = false ∧ d.ctl.waitSignal = false) ?_ ?_ h.blank
    · exact ⟨⟨rfl, rfl⟩, ⟨rfl, rfl⟩⟩
    · rw [CoreState.dataENxt, h.cleared.dataI]
      exact ⟨⟨rfl, rfl⟩, ⟨rfl, rfl⟩⟩

theorem Emptied.cacheI (h : s.Emptied) : s.core.dataE.slot1.ctl.cacheI = false :=
  h.cleared.dataE.cacheI

theorem Emptied.targetM (h : s.Emptied) : s.targetM = none := by
  rw [Cpu.targetM, h.cacheI, h.cleared.dataE.branchTaken]
  rfl

theorem Emptied.waitM (h : s.Emptied) : s.core.waitM = false := h.blank.slot1.2

/-- A cycle that throws away everything in front of M2. -/
structure Squashes (s : Cpu) (i : CpuInput) : Prop where
  front : s.hazardFront i =
    { flushF2 := true, flushD := true, flushI := true, flushQue := true, stallF := s.iWait i,
      fihazrdNxt := s.iWait i }
  flushE : (s.hazardIn i).back.flushE = true
  flushM : (s.hazardIn i).back.flushM = true

theorem squashes_of_chain (hc : (s.hazardIn i).chain s.front.fihazrd =
      (s.hazardIn i).squashFront s.front.fihazrd)
    (he : (s.hazardIn i).back.flushE = true) (hm : (s.hazardIn i).back.flushM = true) :
    s.Squashes i := by
  refine ⟨?_, he, hm⟩
  have hi : (s.hazardIn i).iWait = s.iWait i := rfl
  rw [Cpu.hazardFront, HazardIn.front, hc, HazardIn.squashFront, hi]
  cases s.iWait i <;> cases s.front.fihazrd <;> rfl

theorem squashes_of_excpW (hw : s.core.excpW (s.coreInput i) = true) : s.Squashes i := by
  have hb := HazardIn.back_squashW (h := s.hazardIn i) hw
  exact squashes_of_chain (HazardIn.chain_squash (Or.inl hw)) (by rw [hb]) (by rw [hb])

/-- M1 holds its group. -/
def held (s : Cpu) (i : CpuInput) : Bool := i.dWait || s.core.waitM

theorem squashes_of_branchM (hw : s.core.excpW (s.coreInput i) = false)
    (hs : s.held i = false) (hm : (s.core.excpM1 || s.core.branchM) = true) : s.Squashes i := by
  have hs' : ((s.hazardIn i).dWait || (s.hazardIn i).waitM) = false := hs
  have hm' : ((s.hazardIn i).excpM || (s.hazardIn i).branchM) = true := hm
  have hb := HazardIn.back_squashM (h := s.hazardIn i) hw hs' hm'
  exact squashes_of_chain (HazardIn.chain_squash (Or.inr ⟨hs', hm'⟩)) (by rw [hb]) (by rw [hb])

section Squash

variable (h : s.Squashes i)

include h

theorem Squashes.accepts : s.accepts i = false := by
  rw [Cpu.accepts, h.front]
  rfl

theorem Squashes.stallF : (s.hazardFront i).stallF = s.iWait i := by rw [h.front]

theorem Squashes.dataE : (s.step i).core.dataE = ⟨{}, {}⟩ := by
  have hm := h.flushM
  rw [hazardIn_back] at hm
  simp only [Cpu.step, CoreState.step, hm, pipereg2, if_true]

theorem Squashes.emptied : (s.step i).Emptied where
  cleared := cleared_of_squash h.front rfl rfl h.flushE h.flushM
  drained := by
    constructor <;> simp [Cpu.step, FrontEnd.step, fetchInput, h.front, pipereg2]
  blank := by
    rw [h.dataE]
    exact ⟨⟨rfl, rfl⟩, ⟨rfl, rfl⟩⟩

end Squash

/-- A program counter that is held lets no fetch through. -/
theorem accepts_of_stallF (h : (s.hazardFront i).stallF = true) : s.accepts i = false := by
  have hshut : (s.hazardFront i).stallF2 = true ∨ (s.hazardFront i).flushF2 = true := by
    revert h
    unfold hazardFront HazardIn.front HazardIn.chain HazardIn.squashFront
    dsimp only
    split_ifs <;> simp
  rw [accepts]
  rcases hshut with hs | hs
  · rw [hs]
    rfl
  · rw [hs]
    exact Bool.and_false _

theorem captures_of_accepts (h : s.accepts i = false) : s.captures i = false := by
  rw [captures, h, Bool.false_and]

theorem captures_of_stallF (h : (s.hazardFront i).stallF = true) : s.captures i = false :=
  captures_of_accepts (accepts_of_stallF h)

section Held

variable (hw : s.core.excpW (s.coreInput i) = false) (hs : s.held i = true)

include hw hs

theorem stallF_of_held : (s.hazardFront i).stallF = true := by
  have hc : (s.hazardIn i).chain s.front.fihazrd = _ := HazardIn.chain_stall hw (Or.inl hs)
  rw [Cpu.hazardFront, HazardIn.front_stallF, hc]

theorem dataE_of_held : (s.step i).core.dataE = s.core.dataE := by
  have hb : s.core.hazardOut (s.coreInput i) = _ := HazardIn.back_held (h := s.hazardIn i) hw hs
  simp only [Cpu.step, CoreState.step, hb, pipereg2]
  rfl

theorem m1IcacheInst_of_held : (s.step i).m1IcacheInst = s.m1IcacheInst := by
  rw [step_m1IcacheInst, HazardIn.back_held (h := s.hazardIn i) hw hs]
  rfl

end Held

/-- Without an operation in M1, none comes to M2. -/
theorem m1IcacheInst_step (hk : s.OpsKnown) (hI : s.core.dataE.slot1.ctl.cacheI = false) :
    (s.step i).m1IcacheInst = .unknown ∨
      (s.hazardFront i).stallF = true ∧ (s.step i).m1IcacheInst = s.m1IcacheInst := by
  cases hw : s.core.excpW (s.coreInput i) with
  | true =>
      left
      rw [step_m1IcacheInst, HazardIn.back_squashW (h := s.hazardIn i) hw]
      rfl
  | false =>
      cases hs : s.held i with
      | true => exact Or.inr ⟨stallF_of_held hw hs, m1IcacheInst_of_held hw hs⟩
      | false =>
          left
          have hd : (s.hazardIn i).dWait = false ∧ (s.hazardIn i).waitM = false :=
            Bool.or_eq_false_iff.mp hs
          have hw' : (s.hazardIn i).excpW = false := hw
          obtain ⟨-, hf, hst⟩ := hazard_moves (s.hazardIn i).excpM (s.hazardIn i).branchM
            (s.hazardIn i).eWait
          rw [step_m1IcacheInst, HazardIn.back, hw', hd.1, hd.2, hf, hst]
          exact hk.m1 hI

/-- An emptied pipeline that nothing holds lets the fetch wait or go on. -/
theorem Emptied.moves (h : s.Emptied) (hw : s.core.excpW (s.coreInput i) = false)
    (hd : i.dWait = false) (he : i.eWait = false) :
    s.hazardFront i =
      if s.iWait i then { stallF := true, flushF2 := true, fihazrdNxt := s.front.fihazrd }
      else { flushF2 := s.front.fihazrd } := by
  have hs : ((s.hazardIn i).dWait || (s.hazardIn i).waitM) = false :=
    Bool.or_eq_false_iff.mpr ⟨hd, h.waitM⟩
  have hm : ((s.hazardIn i).excpM || (s.hazardIn i).branchM) = false :=
    Bool.or_eq_false_iff.mpr ⟨h.cleared.excpM1, h.cleared.branchM⟩
  have ho : (s.hazardIn i).overflowI = false := h.cleared.overflow
  have hi : (s.hazardIn i).iWait = s.iWait i := rfl
  have hc : (s.hazardIn i).chain s.front.fihazrd = _ := HazardIn.chain_move hw hs hm he
  rw [ho, hi, if_neg Bool.false_ne_true] at hc
  rw [Cpu.hazardFront, HazardIn.front, hc]
  cases s.iWait i <;> cases s.front.fihazrd <;> rfl

theorem Emptied.stallF (h : s.Emptied) (hd : i.dWait = false) (he : i.eWait = false) :
    (s.hazardFront i).stallF = s.iWait i := by
  cases hw : s.core.excpW (s.coreInput i) with
  | true => exact (squashes_of_excpW hw).stallF
  | false =>
      rw [h.moves hw hd he]
      cases s.iWait i <;> rfl

theorem excpW_of_selected (h : (s.front.selected (s.fetchInput i)).1 = .pcw) :
    s.core.excpW (s.coreInput i) = true := by
  cases hw : s.core.excpW (s.coreInput i) with
  | true => rfl
  | false =>
      rw [← redirects_w, Bool.or_eq_false_iff] at hw
      revert h
      change (pcselect (s.redirects i) _ _ _ _).1 = _ → _
      rw [pcselect, hw.1, hw.2, if_neg Bool.false_ne_true, if_neg Bool.false_ne_true]
      split_ifs <;> simp

/-- An operation in M1 asks for its detour. -/
theorem selected_of_cacheI (hw : s.core.excpW (s.coreInput i) = false)
    (hI : s.core.dataE.slot1.ctl.cacheI = true) :
    (s.front.selected (s.fetchInput i)).1 = .pcm := by
  rw [← redirects_w, Bool.or_eq_false_iff] at hw
  have hi : (s.redirects i).icache = true := hI
  change (pcselect (s.redirects i) _ _ _ _).1 = _
  rw [pcselect, hw.1, hw.2, hi]
  rfl

/-- Nothing but a redirect from W comes out of an emptied pipeline. -/
theorem Emptied.unredirected (h : s.Emptied) (hw : s.core.excpW (s.coreInput i) = false) :
    s.front.Unredirected (s.fetchInput i) := by
  refine FrontEnd.unredirected_of_raised ?_
  rw [show (s.fetchInput i).redirects = s.redirects i from rfl, raised_eq hw, h.targetM]
  rfl

end Cpu

namespace FrontEnd

variable {f : FrontEnd} {i : FetchInput}

/-- The fetch goes on. -/
structure Goes (f : FrontEnd) (i : FetchInput) : Prop where
  dataP : (f.step i).dataP = f.dataPNxt i
  pcSaved : (f.step i).pcSaved = false
  icacheSaved : (f.step i).icacheSaved = false

theorem goes_of_stallF (h : i.hazard.stallF = false) : f.Goes i := by
  have hs : f.saves i = false := by
    rw [saves, h]
    rfl
  constructor <;> simp [FrontEnd.step, hs, h]

/-- A target that is selected while the fetch is stalled. -/
structure Keeps (f : FrontEnd) (i : FetchInput) : Prop where
  dataP : (f.step i).dataP = f.dataP
  pcSaved : (f.step i).pcSaved = true
  icacheSaved : (f.step i).icacheSaved = (f.icacheSaved || i.redirects.icache)
  icacheInstSave : (f.step i).icacheInstSave =
    if i.redirects.icache then i.redirects.icacheInst else f.icacheInstSave
  forward : (f.step i).forwardPctypeSave = (f.selected i).1

theorem keeps_of_selected (h : i.hazard.stallF = true) (hs : (f.selected i).1 ≠ .noForward) :
    f.Keeps i := by
  have hs' : f.saves i = true := by
    rw [saves, h]
    simpa using hs
  constructor <;> simp [FrontEnd.step, hs', h]

theorem icacheInstSave_of_stallF (h : f.Unredirected i) (hF : i.hazard.stallF = true) :
    (f.step i).icacheInstSave = f.icacheInstSave := by
  simp [FrontEnd.step, h.saves, hF]

section Plain

variable (h : f.icacheSaved = false) (hi : i.redirects.icache = false)

include h hi

theorem icacheSaved_step : (f.step i).icacheSaved = false := by
  simp [FrontEnd.step, h, hi]

/-- Without an operation the program counter gets an address to fetch from. -/
theorem cacheI_dataPNxt : (f.dataPNxt i).cacheI = false := by
  rw [dataPNxt]
  split
  · exact h
  · split <;> exact hi

/-- An operation at the program counter has been there before. -/
theorem dataP_step (hc : (f.step i).dataP.cacheI = true) :
    i.hazard.stallF = true ∧ (f.step i).dataP = f.dataP := by
  cases hF : i.hazard.stallF with
  | true =>
      refine ⟨rfl, ?_⟩
      simp [FrontEnd.step, hF]
  | false =>
      rw [(goes_of_stallF hF).dataP, cacheI_dataPNxt h hi] at hc
      cases hc

theorem pcnxtSaved_step (hp : (f.step i).icachePcnxtSaved = true) :
    i.hazard.stallF = true ∧ f.icachePcnxtSaved = true := by
  simp only [FrontEnd.step, hi, h, Bool.false_eq_true, if_false, Bool.not_false, Bool.and_true,
    Bool.not_eq_true'] at hp
  split at hp
  · cases hp
  · rename_i hs
    rw [Bool.not_eq_false] at hs
    exact ⟨hs, hp⟩

end Plain

/-- A target that is saved for a redirect from W. -/
theorem pcw_step (hp : (f.step i).pcSaved = true)
    (hw : (f.step i).forwardPctypeSave = .pcw) :
    i.hazard.stallF = true ∧
      ((f.selected i).1 = .pcw ∨ f.pcSaved = true ∧ f.forwardPctypeSave = .pcw) := by
  simp only [FrontEnd.step] at hp hw
  cases hs : f.saves i with
  | true =>
      rw [hs, if_pos rfl] at hw
      rw [saves, Bool.and_eq_true] at hs
      exact ⟨hs.1, Or.inl hw⟩
  | false =>
      rw [hs, if_neg Bool.false_ne_true] at hp hw
      cases hF : i.hazard.stallF with
      | true =>
          rw [hF, if_pos rfl] at hp hw
          exact ⟨rfl, Or.inr ⟨hp, hw⟩⟩
      | false =>
          rw [hF] at hp
          cases hp

/-- The target of a redirect goes to the program counter as an address to fetch from, or to
the save register as one. -/
def SetsOut (f : FrontEnd) (i : FetchInput) (a : Word) : Prop :=
  if i.hazard.stallF then
    (f.step i).pcSaved = true ∧ (f.step i).pcSave = a ∧ (f.step i).icacheSaved = false
  else (f.step i).dataP.pc = a ∧ (f.step i).dataP.cacheI = false

/-- A redirect that finds no operation and is not junior to what is saved sets out. -/
theorem setsOut_of_raised {l : ForwardPcType} {a : Word}
    (hr : i.redirects.raised = some (l, a)) (hi : i.redirects.icache = false)
    (h : f.icacheSaved = false)
    (hrank : f.pcSaved = true → ¬ l.rank < f.forwardPctypeSave.rank)
    (hpcnxt : i.hazard.stallF = false → f.icachePcnxtSaved = true → f.pcSaved = true) :
    f.SetsOut i a := by
  obtain ⟨hl, hne, ha, -⟩ := selected_of_raised (f := f) hr fun hc => by
    rw [hi] at hc
    cases hc
  rw [SetsOut]
  cases hF : i.hazard.stallF with
  | true =>
      have hs : f.saves i = true := by
        rw [saves, hF, hl]
        simpa using hne
      rw [if_pos rfl]
      refine ⟨?_, ?_, icacheSaved_step h hi⟩
      · simp [FrontEnd.step, hs]
      · simpa [FrontEnd.step, hs] using ha hi
  | false =>
      rw [if_neg Bool.false_ne_true]
      have hP : (f.step i).dataP = f.dataPNxt i := by simp [FrontEnd.step, hF]
      have h1 : (f.pcSaved && decide ((f.selected i).1.rank < f.forwardPctypeSave.rank)) =
          false := by
        rw [hl]
        cases hp : f.pcSaved with
        | false => rfl
        | true => simpa using hrank hp
      have h2 : (f.icachePcnxtSaved && !f.pcSaved) = false := by
        cases hp : f.icachePcnxtSaved with
        | false => rfl
        | true => simp [hpcnxt hF hp]
      refine ⟨?_, by rw [hP]; exact cacheI_dataPNxt h hi⟩
      rw [hP, dataPNxt, h1, h2]
      exact ha hi

end FrontEnd

namespace ICache.State

variable {s : State} {i : Input}

/-- A cache that knows of no operation saves none. -/
theorem instSave_next (hv : s.validInst i = .unknown)
    (hs : s.instSaved = true → s.instSave = .unknown) :
    (s.next i).instSaved = true → (s.next i).instSave = .unknown := by
  intro h
  change (if !s.en i && !s.instSaved then true else if s.en i then false else s.instSaved) = true
    at h
  change (if !s.en i && !s.instSaved then i.cacheInst else s.instSave) = _
  cases hsv : s.instSaved with
  | true =>
      rw [Bool.not_true, Bool.and_false, if_neg Bool.false_ne_true]
      exact hs hsv
  | false =>
      rw [validInst, hsv] at hv
      cases he : s.en i with
      | true =>
          rw [he, hsv] at h
          cases h
      | false => exact hv

/-- A cache that does not accept keeps the operation on its wires. -/
theorem instSaved_next_of_wait (he : s.en i = false) : (s.next i).instSaved = true := by
  change (if !s.en i && !s.instSaved then true else if s.en i then false else s.instSaved) = true
  rw [he]
  cases s.instSaved <;> rfl

theorem instSaved_next_of_en (he : s.en i = true) : (s.next i).instSaved = false := by
  change (if !s.en i && !s.instSaved then true else if s.en i then false else s.instSaved) = _
  rw [he]
  rfl

theorem cacheOper_ne_invalid (hv : s.validInst i = .unknown) : s.cacheOper i ≠ .invalid := by
  rw [cacheOper, hv]
  cases (i.ireq .one).valid <;> simp

/-- Without an operation no sweep begins. -/
theorem next_state_ne (hv : s.validInst i = .unknown) (hs : s.state ≠ .invalidAll) :
    (s.next i).state ≠ .invalidAll := by
  have ho := cacheOper_ne_invalid hv
  change (s.fsmNext i).state ≠ _
  rw [fsmNext]
  cases hst : s.state with
  | idle =>
      dsimp only
      cases hc : s.cacheOper i with
      | invalid => exact absurd hc ho
      | req =>
          dsimp only
          split
          · simp [startMiss]
          · split
            · simp [startMiss]
            · exact hs
      | null | writebackInvalid | indexStore => exact hs
  | fetch p =>
      dsimp only
      split
      · dsimp only
        split <;> simp
      · exact hs
  | invalidAll => exact absurd hst hs

/-- A pair is accepted by an idle cache, which stays idle. -/
theorem next_state_of_en (hs : s.state ≠ .invalidAll) (he : s.en i = true) :
    (s.next i).state = .idle := by
  rw [en] at he
  simp only [Bool.or_eq_true, Bool.and_eq_true, beq_iff_eq] at he
  rcases he with ⟨⟨hv, hh⟩, hidle⟩ | ⟨hst, -⟩
  · rw [ireqHit, Bool.and_eq_true, Bool.and_eq_true] at hh
    obtain ⟨⟨hvalid, h1⟩, h2⟩ := hh
    rw [next_state_of_req hidle (cacheOper_of_unknown hv hvalid), h1, h2]
    simp
  · exact absurd hst hs

/-- An operation on an idle cache begins its sweep. -/
theorem sweep_begins (hs : s.state = .idle) (hv : s.validInst i ≠ .unknown)
    (hr : (i.ireq .one).valid = true) :
    s.en i = false ∧ (s.next i).state = .invalidAll := by
  refine ⟨?_, next_state_of_operation hs (cacheOper_of_operation hv hr)⟩
  rw [en_of_idle hs, beq_eq_false_iff_ne.mpr hv]
  rfl

/-- The sweep goes on to the last set. -/
theorem sweep_goes (hs : s.state = .invalidAll) :
    s.en i = (s.metaIndex == 63#6) ∧
      (s.next i).state = if s.metaIndex == 63#6 then .idle else .invalidAll := by
  refine ⟨?_, ?_⟩
  · rw [en, hs]
    simp
  · change (s.fsmNext i).state = _
    rw [fsmNext, hs]

end ICache.State

end FrailCPU
