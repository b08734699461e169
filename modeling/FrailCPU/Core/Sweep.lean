import FrailCPU.Core.CacheOp
import FrailCPU.Core.Load
import FrailCPU.ICache.Transparent

/-!
# An operation of the instruction cache is performed once

The core with its units and both caches, from reset. An operation that leaves M1 goes through
three stages: it is saved while the fetch waits, it is at the program counter, and no operation
is under way. Every cycle that meets the conditions keeps the run in one of them, so the sweep
of an operation is over before the next fetch is taken. When the fetch does not wait, the
operation is lost.
-/

namespace FrailCPU

open ClockedMachine

/-- The core, the units, the data cache and the instruction cache. `ops` counts the operations
of the instruction cache that have left M1, `begun` the sweeps that have begun and `swept` those
that are over. -/
structure SweepTrace where
  cpu : UnitCpu := {}
  data : DCache.Service := {}
  instr : ICache.State := {}
  ops : ℕ := 0
  begun : ℕ := 0
  swept : ℕ := 0

/-- What reaches the core and the caches from outside in a cycle. -/
structure SweepInput where
  prediction : Prediction := {}
  extInt : BitVec 6 := 0#6
  tagLo : Word := 0#32
  ready : Bool := false
  data : Word := 0#32
  icresp : CBusResp := ⟨false, false, 0#32⟩

namespace SweepTrace

variable (s : SweepTrace) (i : SweepInput)

/-- `icache_inst`. -/
def icacheInst : ICacheInst :=
  FetchEnv.icacheInst { m1IcacheInst := s.cpu.cpu.m1IcacheInst } s.cpu.cpu.front.dataP

def instrInput : ICache.Input where
  ireq
    | .one => s.cpu.cpu.core.mmu.ireq s.cpu.cpu.ireqs.slot0
    | .two => s.cpu.cpu.core.mmu.ireq s.cpu.cpu.ireqs.slot1
  icresp := i.icresp
  cacheInst := s.icacheInst

def dataOffer : DCache.Offer where
  dreq := Exchange.sent ⟨s.cpu.cpu.core.dataE, s.cpu.cpu.core.mmu⟩
  isUncached := Exchange.isUncached ⟨s.cpu.cpu.core.dataE, s.cpu.cpu.core.mmu⟩
  cacheInst := s.cpu.cpu.core.dataE.slot1.cacheCtl.dcacheInst
  tagLo := i.tagLo
  ready := i.ready
  data := i.data

def cycle : CycleInput where
  addrOk := s.instr.addrOk (s.instrInput i)
  instrData := ⟨s.instr.respData .one, s.instr.respData .two⟩
  prediction := i.prediction
  dWait := !s.data.cache.addrOk
  respData := ⟨s.data.cache.respData .one, s.data.cache.respData .two⟩
  extInt := i.extInt

def cpuInput : CpuInput := s.cpu.cpuInput (s.cycle i)

/-- A `CACHE` on the instruction cache goes from M1 to M2. A fetch that was refused is no
instruction, whatever word came with it. -/
def leaves : Bool :=
  s.cpu.cpu.core.dataE.slot1.ctl.cacheI &&
    s.cpu.cpu.core.dataE.slot1.cp0Ctl.ctype == .noExc &&
    !s.cpu.cpu.core.excpW (s.cpu.cpu.coreInput (s.cpuInput i)) &&
    !(!s.data.cache.addrOk || s.cpu.cpu.core.waitM)

/-- A sweep begins. -/
def begins : Bool :=
  s.instr.state != .invalidAll && (s.instr.next (s.instrInput i)).state == .invalidAll

/-- The last set is cleared. -/
def ends : Bool := s.instr.state == .invalidAll && s.instr.metaIndex == 63#6

/-- A clock edge. -/
def step : SweepTrace where
  cpu := s.cpu.step (s.cycle i)
  data := s.data.step (s.dataOffer i)
  instr := s.instr.next (s.instrInput i)
  ops := if s.leaves i then s.ops + 1 else s.ops
  begun := if s.begins i then s.begun + 1 else s.begun
  swept := if s.ends then s.swept + 1 else s.swept

end SweepTrace

namespace SweepTrace

variable (s : SweepTrace) (i : SweepInput)

/-- `is_eret || is_INTEXC`. -/
def excpW : Bool := s.cpu.cpu.core.excpW (s.cpu.cpu.coreInput (s.cpuInput i))

/-- `i_wait`. -/
def iWait : Bool := s.cpu.cpu.iWait (s.cpuInput i)

/-- A word that asks for an operation of the instruction cache goes from M1 to M2, be it an
instruction or the word of a refused fetch. -/
def sendsOn : Bool :=
  s.cpu.cpu.core.dataE.slot1.ctl.cacheI && !s.excpW i && !s.cpu.cpu.held (s.cpuInput i)

/-- An operation has left M1 and its sweep is not over. -/
def underWay : Bool :=
  s.cpu.cpu.front.dataP.cacheI && s.cpu.cpu.front.dataP.icacheInst != .unknown ||
    s.cpu.cpu.front.icacheSaved && !s.cpu.cpu.core.dataE.slot1.ctl.cacheI

/-- The conditions under which the operations are performed: the fetch waits when an operation
leaves M1, and does not wait when the word of a refused fetch that looks like one does; no
redirect from W meets an operation in M1, in the save registers of the fetch, or at the end of
its sweep; and the request of the fetch is not refused while an operation is under way. -/
structure Unhindered : Prop where
  waiting : s.sendsOn i = true →
    (s.cpu.cpu.core.dataE.slot1.cp0Ctl.ctype = .noExc ↔ s.iWait i = true)
  notOvertaken : ¬ s.cpu.cpu.Overtakes (s.cpuInput i)
  notLost : s.excpW i = true → s.cpu.cpu.front.icacheSaved = false
  asked : s.underWay = true → ((s.instrInput i).ireq .one).valid = true

instance : Decidable (s.Unhindered i) :=
  decidable_of_iff
    ((s.sendsOn i = true →
        (s.cpu.cpu.core.dataE.slot1.cp0Ctl.ctype = .noExc ↔ s.iWait i = true)) ∧
      ¬ s.cpu.cpu.Overtakes (s.cpuInput i) ∧
      (s.excpW i = true → s.cpu.cpu.front.icacheSaved = false) ∧
      (s.underWay = true → ((s.instrInput i).ireq .one).valid = true))
    ⟨fun h => ⟨h.1, h.2.1, h.2.2.1, h.2.2.2⟩,
      fun h => ⟨h.waiting, h.notOvertaken, h.notLost, h.asked⟩⟩

/-- Every operation is performed once. -/
structure SweepsOnce : Prop where
  /-- There is one sweep for each operation, and they do not overlap. -/
  counted : (s.step i).swept ≤ (s.step i).begun ∧ (s.step i).begun ≤ (s.step i).ops ∧
    (s.step i).ops ≤ (s.step i).swept + 1
  /-- What has been fetched behind an operation is thrown away when that leaves M1. -/
  refetched : s.leaves i = true → (s.step i).cpu.cpu.Emptied
  /-- A fetch that is taken finds the sweeps of all operations over. -/
  first : s.cpu.cpu.captures (s.cpuInput i) = true → s.swept = s.ops
  /-- A sweep leaves no valid tag. -/
  complete : s.ends = true → ∀ k w, ((s.step i).instr.metaRam k w).valid = false
  /-- An operation whose sweep is not over is saved until the fetch is answered, and then it
  is at the program counter. -/
  carried : s.swept ≠ s.ops →
    s.cpu.cpu.front.icacheSaved = true ∧
        (s.iWait i = false → (s.step i).cpu.cpu.front.dataP.cacheI = true ∧
          (s.step i).cpu.cpu.front.dataP.icacheInst ≠ .unknown) ∨
      s.cpu.cpu.front.dataP.cacheI = true ∧ s.cpu.cpu.front.dataP.icacheInst ≠ .unknown
  /-- An operation at the program counter is performed at once. -/
  performed : s.cpu.cpu.front.dataP.cacheI = true →
    s.cpu.cpu.front.dataP.icacheInst ≠ .unknown →
      s.begins i = true ∨ s.instr.state = .invalidAll
  /-- The cache does not take another fetch for an operation, nor for a part of a sweep. -/
  plain : s.cpu.cpu.front.dataP.cacheI = false →
    s.instr.validInst (s.instrInput i) = .unknown ∧ s.instr.state ≠ .invalidAll
  /-- A fetch that is answered is taken, unless it is squashed. -/
  taken : s.cpu.cpu.front.dataP.cacheI = false → s.iWait i = false →
    s.cpu.cpu.accepts (s.cpuInput i) = true → s.cpu.cpu.captures (s.cpuInput i) = true
  /-- The redirects, less those of the operations themselves, are followed by a fetch. -/
  redirected : ∀ l a, (s.cpu.cpu.redirects (s.cpuInput i)).raised = some (l, a) →
    l = .pcw ∨ s.cpu.cpu.core.dataE.slot1.ctl.cacheI = false →
      s.cpu.cpu.front.SetsOut (s.cpu.cpu.fetchInput (s.cpuInput i)) a

/-! ### The stages of an operation -/

/-- No operation is under way. The word of a refused fetch may have sent the fetch on a detour. -/
structure Quiet : Prop where
  nameless : s.cpu.cpu.front.dataP.cacheI = true →
    s.cpu.cpu.front.dataP.icacheInst = .unknown
  m1 : s.cpu.cpu.front.dataP.cacheI = false → s.cpu.cpu.m1IcacheInst = .unknown
  emptied : s.cpu.cpu.front.dataP.cacheI = true → s.cpu.cpu.Emptied
  icacheSaved : s.cpu.cpu.front.icacheSaved = true →
    s.cpu.cpu.core.dataE.slot1.ctl.cacheI = true
  senior : s.cpu.cpu.front.pcSaved = true → s.cpu.cpu.front.forwardPctypeSave = .pcw →
    s.cpu.cpu.Emptied
  pcnxtSaved : s.cpu.cpu.front.icachePcnxtSaved = true →
    s.cpu.cpu.front.dataP.cacheI = true ∨
      s.cpu.cpu.core.dataE.slot1.ctl.cacheI = true ∧ s.cpu.cpu.front.pcSaved = true
  instSaved : s.instr.instSaved = true → s.instr.instSave = .unknown
  state : s.instr.state ≠ .invalidAll
  begun : s.begun = s.ops
  swept : s.swept = s.ops

/-- The operation has left M1 and waits in the save registers for the answer to the fetch. -/
structure Saved : Prop where
  emptied : s.cpu.cpu.Emptied
  cacheI : s.cpu.cpu.front.dataP.cacheI = false
  icacheSaved : s.cpu.cpu.front.icacheSaved = true
  named : s.cpu.cpu.front.icacheInstSave ≠ .unknown
  pcSaved : s.cpu.cpu.front.pcSaved = true
  forward : s.cpu.cpu.front.forwardPctypeSave ≠ .noForward
  fihazrd : s.cpu.cpu.front.fihazrd = true
  instSaved : s.instr.instSaved = true
  instSave : s.instr.instSave = .unknown
  state : s.instr.state ≠ .invalidAll
  en : s.data.cache.en = true
  begun : s.begun = s.swept
  ops : s.ops = s.swept + 1

/-- The operation is at the program counter, and its sweep begins or is on. -/
structure Sweeping : Prop where
  emptied : s.cpu.cpu.Emptied
  cacheI : s.cpu.cpu.front.dataP.cacheI = true
  named : s.cpu.cpu.front.dataP.icacheInst ≠ .unknown
  icacheSaved : s.cpu.cpu.front.icacheSaved = false
  en : s.data.cache.en = true
  ops : s.ops = s.swept + 1
  phase : s.instr.state = .idle ∧ s.instr.instSaved = false ∧ s.begun = s.swept ∨
    s.instr.state = .invalidAll ∧ s.begun = s.swept + 1

/-- What the records say at every time. -/
structure Sound : Prop where
  known : s.cpu.cpu.OpsKnown
  alone : s.cpu.cpu.OpsNamed
  cleared : s.instr.Swept

variable {s i}

theorem Sound.step (h : s.Sound) : (s.step i).Sound where
  known := h.known.step
  alone := h.alone.step
  cleared := h.cleared.next _

/-- The data cache stays ready when it is asked for nothing. -/
theorem en_step (he : s.data.cache.en = true)
    (hb : s.cpu.cpu.core.dataE.Each fun d => d.ctl.accesses = false) :
    (s.step i).data.cache.en = true := by
  have h1 : ((s.dataOffer i).dreq .one).valid = false := by
    change ((memoryReq s.cpu.cpu.core.dataE.slot1).valid && _) = false
    rw [show (memoryReq s.cpu.cpu.core.dataE.slot1).valid = false from hb.slot1]
    rfl
  have h2 : ((s.dataOffer i).dreq .two).valid = false := by
    change ((memoryReq s.cpu.cpu.core.dataE.slot0).valid && _) = false
    rw [show (memoryReq s.cpu.cpu.core.dataE.slot0).valid = false from hb.slot0]
    rfl
  have hd : s.data.cache.dreqEn (s.data.input (s.dataOffer i)) = true := by
    have h1' : ((s.data.input (s.dataOffer i)).dreq .one).valid = false := h1
    have h2' : ((s.data.input (s.dataOffer i)).dreq .two).valid = false := h2
    rw [DCache.State.dreqEn, h1', h2']
    simp
  change s.data.cache.enNext (s.data.input (s.dataOffer i)) = true
  rw [DCache.State.enNext, he, hd]
  rfl

/-- Nothing is in E, and E does not wait. -/
theorem eWait_of_emptied (h : s.cpu.cpu.Emptied) : (s.cpuInput i).eWait = false := by
  have hv : s.cpu.units.divValid = false ∧ s.cpu.units.multValid = false := by
    constructor
    · rw [UnitCore.divValid, show s.cpu.units.core.dataI = ⟨{}, {}⟩ from h.cleared.dataI]
      rfl
    · rw [UnitCore.multValid, show s.cpu.units.core.dataI = ⟨{}, {}⟩ from h.cleared.dataI]
      rfl
  change s.cpu.units.eWait = false
  rw [UnitCore.eWait, hv.1, hv.2]
  rfl

theorem dWait_of_en (h : s.data.cache.en = true) : (s.cpuInput i).dWait = false := by
  change (!s.data.cache.en) = false
  rw [h]
  rfl

/-- The fetch waits for a request that is not accepted. -/
theorem iWait_eq : s.iWait i =
    (((s.instrInput i).ireq .one).valid && !s.instr.en (s.instrInput i)) := rfl

theorem leaves_eq : s.leaves i =
    (s.sendsOn i && s.cpu.cpu.core.dataE.slot1.cp0Ctl.ctype == .noExc) := by
  change (s.cpu.cpu.core.dataE.slot1.ctl.cacheI && _ && !s.excpW i &&
    !s.cpu.cpu.held (s.cpuInput i)) = _
  rw [sendsOn]
  cases s.cpu.cpu.core.dataE.slot1.ctl.cacheI <;> cases s.excpW i <;>
    cases s.cpu.cpu.held (s.cpuInput i) <;> simp

/-- A cycle in which the cache has no operation to perform. -/
structure Still (s : SweepTrace) (i : SweepInput) : Prop where
  state : (s.step i).instr.state ≠ .invalidAll
  begun : (s.step i).begun = s.begun
  swept : (s.step i).swept = s.swept

theorem still_of_validInst (hv : s.instr.validInst (s.instrInput i) = .unknown)
    (hs : s.instr.state ≠ .invalidAll) : s.Still i := by
  have hn : (s.instr.next (s.instrInput i)).state ≠ .invalidAll := ICache.State.next_state_ne hv hs
  refine ⟨hn, ?_, ?_⟩
  · have hb : s.begins i = false := by
      rw [begins, beq_eq_false_iff_ne.mpr hn]
      exact Bool.and_false _
    simp [step, hb]
  · have he : s.ends = false := by
      rw [ends, beq_eq_false_iff_ne.mpr hs]
      rfl
    simp [step, he]

section Quiet

variable (h : s.Quiet)

include h

/-- The cache sees no operation. -/
theorem Quiet.validInst : s.instr.validInst (s.instrInput i) = .unknown := by
  have hw : s.icacheInst = .unknown := by
    rw [icacheInst, FetchEnv.icacheInst]
    cases hc : s.cpu.cpu.front.dataP.cacheI with
    | true => exact h.nameless hc
    | false => exact h.m1 hc
  rw [ICache.State.validInst]
  cases hs : s.instr.instSaved with
  | true => exact h.instSaved hs
  | false => exact hw

theorem Quiet.still : s.Still i := still_of_validInst h.validInst h.state

theorem Quiet.counts (hl : s.leaves i = false) :
    (s.step i).begun = (s.step i).ops ∧ (s.step i).swept = (s.step i).ops := by
  have ho : (s.step i).ops = s.ops := by simp [step, hl]
  rw [h.still.begun, h.still.swept, ho]
  exact ⟨h.begun, h.swept⟩

theorem Quiet.cacheI (hI : s.cpu.cpu.core.dataE.slot1.ctl.cacheI = true) :
    s.cpu.cpu.front.dataP.cacheI = false := by
  cases hc : s.cpu.cpu.front.dataP.cacheI with
  | false => rfl
  | true =>
      rw [(h.emptied hc).cacheI] at hI
      cases hI

/-- A group without an operation is in M1. -/
theorem Quiet.unsent (hs : s.Sound) (hI : s.cpu.cpu.core.dataE.slot1.ctl.cacheI = false) :
    (s.step i).Quiet := by
  have ho := hs.known.ordered
  have hi : (s.cpu.cpu.fetchInput (s.cpuInput i)).redirects.icache = false := hI
  have hsv : s.cpu.cpu.front.icacheSaved = false := by
    cases hc : s.cpu.cpu.front.icacheSaved with
    | false => rfl
    | true =>
        rw [h.icacheSaved hc] at hI
        cases hI
  have hempty (he : s.cpu.cpu.Emptied)
      (hF : (s.cpu.cpu.hazardFront (s.cpuInput i)).stallF = true) :
      (s.step i).cpu.cpu.Emptied := he.step ho (Cpu.captures_of_stallF hF)
  have hl : s.leaves i = false := by
    rw [leaves, hI]
    rfl
  exact {
    nameless := fun hc => by
      obtain ⟨-, hP⟩ := FrontEnd.dataP_step hsv hi hc
      have hP' : (s.step i).cpu.cpu.front.dataP = s.cpu.cpu.front.dataP := hP
      rw [hP'] at hc ⊢
      exact h.nameless hc
    m1 := fun hc => by
      rcases Cpu.m1IcacheInst_step (i := s.cpuInput i) hs.known hI with hm | ⟨hF, hm⟩
      · exact hm
      · have hP : (s.step i).cpu.cpu.front.dataP = s.cpu.cpu.front.dataP := if_pos hF
        rw [hP] at hc
        exact hm.trans (h.m1 hc)
    emptied := fun hc => by
      obtain ⟨hF, hP⟩ := FrontEnd.dataP_step hsv hi hc
      have hP' : (s.step i).cpu.cpu.front.dataP = s.cpu.cpu.front.dataP := hP
      rw [hP'] at hc
      exact hempty (h.emptied hc) hF
    icacheSaved := fun hc => by
      have hn := FrontEnd.icacheSaved_step hsv hi
      exact absurd hc (by rw [Bool.not_eq_true]; exact hn)
    senior := fun hp hw => by
      obtain ⟨hF, hc⟩ := FrontEnd.pcw_step hp hw
      rcases hc with hc | ⟨hp', hw'⟩
      · exact (Cpu.squashes_of_excpW (Cpu.excpW_of_selected hc)).emptied
      · exact hempty (h.senior hp' hw') hF
    pcnxtSaved := fun hp => by
      obtain ⟨hF, hp'⟩ := FrontEnd.pcnxtSaved_step hsv hi hp
      have hP : (s.step i).cpu.cpu.front.dataP = s.cpu.cpu.front.dataP := if_pos hF
      rcases h.pcnxtSaved hp' with hc | ⟨hc, -⟩
      · exact Or.inl (by rw [hP]; exact hc)
      · rw [hI] at hc
        cases hc
    instSaved := ICache.State.instSave_next h.validInst h.instSaved
    state := h.still.state
    begun := (h.counts hl).1
    swept := (h.counts hl).2 }

/-- An operation is held in M1. -/
theorem Quiet.kept (hI : s.cpu.cpu.core.dataE.slot1.ctl.cacheI = true) (hw : s.excpW i = false)
    (hh : s.cpu.cpu.held (s.cpuInput i) = true) : (s.step i).Quiet := by
  have hsel := Cpu.selected_of_cacheI hw hI
  have hk : s.cpu.cpu.front.Keeps (s.cpu.cpu.fetchInput (s.cpuInput i)) :=
    FrontEnd.keeps_of_selected (Cpu.stallF_of_held hw hh) (by rw [hsel]; decide)
  have hP : (s.step i).cpu.cpu.front.dataP = s.cpu.cpu.front.dataP := hk.dataP
  have hc' : ¬ (s.step i).cpu.cpu.front.dataP.cacheI = true := by
    rw [hP, h.cacheI hI]
    exact Bool.false_ne_true
  have hI' : (s.step i).cpu.cpu.core.dataE.slot1.ctl.cacheI = true := by
    have hE : (s.step i).cpu.cpu.core.dataE = s.cpu.cpu.core.dataE := Cpu.dataE_of_held hw hh
    rw [hE]
    exact hI
  have hl : s.leaves i = false := by
    rw [leaves_eq, sendsOn, hh]
    simp
  exact {
    nameless := fun h' => absurd h' hc'
    m1 := fun _ => (Cpu.m1IcacheInst_of_held hw hh).trans (h.m1 (h.cacheI hI))
    emptied := fun h' => absurd h' hc'
    icacheSaved := fun _ => hI'
    senior := fun _ hpw => by
      have hs := hk.forward.symm.trans hpw
      rw [hsel] at hs
      cases hs
    pcnxtSaved := fun _ => Or.inr ⟨hI', hk.pcSaved⟩
    instSaved := ICache.State.instSave_next h.validInst h.instSaved
    state := h.still.state
    begun := (h.counts hl).1
    swept := (h.counts hl).2 }

section Sent

variable (hI : s.cpu.cpu.core.dataE.slot1.ctl.cacheI = true) (hw : s.excpW i = false)
  (hh : s.cpu.cpu.held (s.cpuInput i) = false)

include hI hw hh

omit h in
theorem squashes_of_sent : s.cpu.cpu.Squashes (s.cpuInput i) := by
  refine Cpu.squashes_of_branchM hw hh ?_
  rw [CoreState.branchM, hI]
  simp

omit h in
theorem leaves_of_sent :
    s.leaves i = (s.cpu.cpu.core.dataE.slot1.cp0Ctl.ctype == .noExc) := by
  rw [leaves_eq, sendsOn, hI, hw, hh]
  rfl

/-- The word of a refused fetch sends the fetch on its detour without an operation. -/
theorem Quiet.refused (ht : s.cpu.cpu.core.dataE.slot1.cp0Ctl.ctype ≠ .noExc)
    (hiw : s.iWait i = false) : (s.step i).Quiet := by
  have hq := squashes_of_sent hI hw hh
  have hg : s.cpu.cpu.front.Goes (s.cpu.cpu.fetchInput (s.cpuInput i)) :=
    FrontEnd.goes_of_stallF (hq.stallF.trans hiw)
  have hP : (s.step i).cpu.cpu.front.dataP.cacheI = true ∧
      (s.step i).cpu.cpu.front.dataP.icacheInst = .unknown := by
    have h1 : (s.cpu.cpu.front.pcSaved && decide
        ((s.cpu.cpu.front.selected (s.cpu.cpu.fetchInput (s.cpuInput i))).1.rank <
          s.cpu.cpu.front.forwardPctypeSave.rank)) = false := by
      rw [Cpu.selected_of_cacheI hw hI]
      cases hp : s.cpu.cpu.front.pcSaved with
      | false => rfl
      | true =>
          -- only a target of W is senior to that of the operation, and W has emptied M1
          cases hf : s.cpu.cpu.front.forwardPctypeSave with
          | pcw =>
              rw [(h.senior hp hf).cacheI] at hI
              cases hI
          | noForward | pci | pcm => rfl
    have hd : (s.step i).cpu.cpu.front.dataP = _ := hg.dataP
    rw [hd, FrontEnd.dataPNxt, h1, if_neg Bool.false_ne_true]
    split <;> exact ⟨hI, rfl⟩
  have hl : s.leaves i = false := by
    rw [leaves_of_sent hI hw hh]
    exact beq_eq_false_iff_ne.mpr ht
  exact {
    nameless := fun _ => hP.2
    m1 := fun hc => by
      rw [hP.1] at hc
      cases hc
    emptied := fun _ => hq.emptied
    icacheSaved := fun hc => by
      have hn : (s.step i).cpu.cpu.front.icacheSaved = false := hg.icacheSaved
      rw [hn] at hc
      cases hc
    senior := fun _ _ => hq.emptied
    pcnxtSaved := fun _ => Or.inl hP.1
    instSaved := ICache.State.instSave_next h.validInst h.instSaved
    state := h.still.state
    begun := (h.counts hl).1
    swept := (h.counts hl).2 }

/-- An operation leaves M1 while the fetch waits. -/
theorem Quiet.sent (hs : s.Sound) (ht : s.cpu.cpu.core.dataE.slot1.cp0Ctl.ctype = .noExc)
    (hiw : s.iWait i = true) : (s.step i).Saved := by
  have hq := squashes_of_sent hI hw hh
  have hsel := Cpu.selected_of_cacheI hw hI
  have hk : s.cpu.cpu.front.Keeps (s.cpu.cpu.fetchInput (s.cpuInput i)) :=
    FrontEnd.keeps_of_selected (hq.stallF.trans hiw) (by rw [hsel]; decide)
  have hicache : (s.cpu.cpu.fetchInput (s.cpuInput i)).redirects.icache = true := hI
  obtain ⟨hop, h1, h0⟩ := hs.alone.m1 hI
  have hen : s.instr.en (s.instrInput i) = false := by
    rw [iWait_eq, Bool.and_eq_true, Bool.not_eq_true'] at hiw
    exact hiw.2
  have hl : s.leaves i = true := by
    rw [leaves_of_sent hI hw hh, ht]
    rfl
  have hP : (s.step i).cpu.cpu.front.dataP = s.cpu.cpu.front.dataP := hk.dataP
  exact {
    emptied := hq.emptied
    cacheI := by
      rw [hP]
      exact h.cacheI hI
    icacheSaved := hk.icacheSaved.trans (by rw [hicache]; exact Bool.or_true _)
    named := by
      have hn : (s.step i).cpu.cpu.front.icacheInstSave = _ := hk.icacheInstSave
      rw [hn, hicache]
      exact hop
    pcSaved := hk.pcSaved
    forward := by
      have hf : (s.step i).cpu.cpu.front.forwardPctypeSave = _ := hk.forward
      rw [hf, hsel]
      decide
    fihazrd := by
      change (s.cpu.cpu.hazardFront (s.cpuInput i)).fihazrdNxt = true
      rw [hq.front]
      exact hiw
    instSaved := ICache.State.instSaved_next_of_wait hen
    instSave := ICache.State.instSave_next h.validInst h.instSaved
      (ICache.State.instSaved_next_of_wait hen)
    state := h.still.state
    en := by
      refine en_step ?_ ⟨h1, h0⟩
      have hd : (s.cpuInput i).dWait = false := (Bool.or_eq_false_iff.mp hh).1
      change (!s.data.cache.en) = false at hd
      simpa using hd
    begun := by
      rw [h.still.begun, h.still.swept, h.begun, h.swept]
    ops := by
      rw [h.still.swept, h.swept]
      simp [step, hl] }

end Sent

end Quiet

theorem leaves_of_emptied (h : s.cpu.cpu.Emptied) : s.leaves i = false := by
  rw [leaves, h.cacheI]
  rfl

section Saved

variable (h : s.Saved)

include h

theorem Saved.validInst : s.instr.validInst (s.instrInput i) = .unknown := by
  rw [ICache.State.validInst, h.instSaved]
  exact h.instSave

theorem Saved.still : s.Still i := still_of_validInst h.validInst h.state

theorem Saved.counts : (s.step i).begun = (s.step i).swept ∧
    (s.step i).ops = (s.step i).swept + 1 := by
  rw [(h.still (i := i)).begun, (h.still (i := i)).swept]
  refine ⟨h.begun, ?_⟩
  rw [← h.ops]
  simp [step, leaves_of_emptied h.emptied]

variable (hw : s.excpW i = false)

include hw

theorem Saved.hazardFront : s.cpu.cpu.hazardFront (s.cpuInput i) =
    if s.iWait i then { stallF := true, flushF2 := true, fihazrdNxt := true }
    else { flushF2 := true } := by
  rw [h.emptied.moves hw (dWait_of_en h.en) (eWait_of_emptied h.emptied), h.fihazrd]
  rfl

/-- The fetch at the program counter is thrown away. -/
theorem Saved.accepts : s.cpu.cpu.accepts (s.cpuInput i) = false := by
  rw [Cpu.accepts, h.hazardFront hw]
  cases s.iWait i <;> rfl

/-- The fetch still waits. -/
theorem Saved.wait (ho : s.cpu.cpu.Ordered) (hiw : s.iWait i = true) : (s.step i).Saved := by
  have hz := h.hazardFront hw
  rw [hiw, if_pos rfl] at hz
  have hF : (s.cpu.cpu.fetchInput (s.cpuInput i)).hazard.stallF = true := by
    change (s.cpu.cpu.hazardFront (s.cpuInput i)).stallF = true
    rw [hz]
  have hk : s.cpu.cpu.front.Kept (s.step i).cpu.cpu.front :=
    FrontEnd.Unredirected.kept (h.emptied.unredirected hw) hF
  have hen : s.instr.en (s.instrInput i) = false := by
    rw [iWait_eq, Bool.and_eq_true, Bool.not_eq_true'] at hiw
    exact hiw.2
  exact {
    emptied := h.emptied.step ho (Cpu.captures_of_stallF hF)
    cacheI := by rw [hk.dataP, h.cacheI]
    icacheSaved := by rw [hk.icacheSaved, h.icacheSaved]
    named := by
      have hn : (s.step i).cpu.cpu.front.icacheInstSave = _ :=
        FrontEnd.icacheInstSave_of_stallF (h.emptied.unredirected hw) hF
      rw [hn]
      exact h.named
    pcSaved := by rw [hk.pcSaved, h.pcSaved]
    forward := by
      rw [hk.forward]
      exact h.forward
    fihazrd := by
      change (s.cpu.cpu.hazardFront (s.cpuInput i)).fihazrdNxt = true
      rw [hz]
    instSaved := ICache.State.instSaved_next_of_wait hen
    instSave := ICache.State.instSave_next h.validInst (fun _ => h.instSave)
      (ICache.State.instSaved_next_of_wait hen)
    state := h.still.state
    en := en_step h.en ⟨h.emptied.blank.slot1.1, h.emptied.blank.slot0.1⟩
    begun := h.counts.1
    ops := h.counts.2 }

/-- The fetch is answered, and the operation goes to the program counter. -/
theorem Saved.go (ho : s.cpu.cpu.Ordered) (hv : ((s.instrInput i).ireq .one).valid = true)
    (hiw : s.iWait i = false) : (s.step i).Sweeping := by
  have hz := h.hazardFront hw
  rw [hiw, if_neg Bool.false_ne_true] at hz
  have hF : (s.cpu.cpu.fetchInput (s.cpuInput i)).hazard.stallF = false := by
    change (s.cpu.cpu.hazardFront (s.cpuInput i)).stallF = false
    rw [hz]
  have hg := FrontEnd.goes_of_stallF (f := s.cpu.cpu.front) hF
  have hen : s.instr.en (s.instrInput i) = true := by
    rw [iWait_eq, hv] at hiw
    simpa using hiw
  have hP : (s.step i).cpu.cpu.front.dataP =
      { pc := s.cpu.cpu.front.pcSave, cacheI := true,
        icacheInst := s.cpu.cpu.front.icacheInstSave } := by
    have hd : (s.step i).cpu.cpu.front.dataP = _ := hg.dataP
    have hu := h.emptied.unredirected hw
    rw [hd, FrontEnd.dataPNxt, h.pcSaved, hu.forward, h.icacheSaved]
    cases hf : s.cpu.cpu.front.forwardPctypeSave with
    | noForward => exact absurd hf h.forward
    | pci | pcm | pcw => rfl
  exact {
    emptied := h.emptied.step ho (Cpu.captures_of_accepts (h.accepts hw))
    cacheI := by rw [hP]
    named := by
      rw [hP]
      exact h.named
    icacheSaved := hg.icacheSaved
    en := en_step h.en ⟨h.emptied.blank.slot1.1, h.emptied.blank.slot0.1⟩
    ops := h.counts.2
    phase := Or.inl ⟨ICache.State.next_state_of_en h.state hen,
      ICache.State.instSaved_next_of_en hen, h.counts.1⟩ }

end Saved

section Sweeping

variable (h : s.Sweeping)

include h

theorem Sweeping.stallF : (s.cpu.cpu.hazardFront (s.cpuInput i)).stallF = s.iWait i :=
  h.emptied.stallF (dWait_of_en h.en) (eWait_of_emptied h.emptied)

theorem Sweeping.underWay : s.underWay = true := by
  rw [SweepTrace.underWay, h.cacheI, bne_iff_ne.mpr h.named]
  rfl

/-- A fetch for the operation delivers nothing. -/
theorem Sweeping.captures : s.cpu.cpu.captures (s.cpuInput i) = false := by
  have hv : (dataF1Nxt s.cpu.cpu.front.dataP (s.cpu.cpu.fetchInput (s.cpuInput i)).iTlbExc
      (s.cpu.cpu.front.env (s.cpu.cpu.fetchInput (s.cpuInput i)))).valid = false := by
    simp [dataF1Nxt, h.cacheI]
  rw [Cpu.captures, hv, Bool.and_false]

/-- The program counter stays for another cycle of the sweep. -/
theorem Sweeping.stay (ho : s.cpu.cpu.Ordered) (hiw : s.iWait i = true)
    (hn : s.ends = false)
    (hp : (s.step i).instr.state = .invalidAll ∧ (s.step i).begun = s.swept + 1) :
    (s.step i).Sweeping := by
  have hP : (s.step i).cpu.cpu.front.dataP = s.cpu.cpu.front.dataP :=
    if_pos (h.stallF.trans hiw)
  have hsw : (s.step i).swept = s.swept := by simp [step, hn]
  exact {
    emptied := h.emptied.step ho h.captures
    cacheI := by rw [hP, h.cacheI]
    named := by
      rw [hP]
      exact h.named
    icacheSaved := FrontEnd.icacheSaved_step h.icacheSaved h.emptied.cacheI
    en := en_step h.en ⟨h.emptied.blank.slot1.1, h.emptied.blank.slot0.1⟩
    ops := by
      rw [hsw, ← h.ops]
      simp [step, leaves_of_emptied h.emptied]
    phase := Or.inr ⟨hp.1, by rw [hsw]; exact hp.2⟩ }

/-- The sweep begins. -/
theorem Sweeping.start (hv : ((s.instrInput i).ireq .one).valid = true)
    (hst : s.instr.state = .idle) (hsv : s.instr.instSaved = false) :
    s.begins i = true ∧ s.iWait i = true := by
  have hop : s.instr.validInst (s.instrInput i) ≠ .unknown := by
    have hw : s.icacheInst = s.cpu.cpu.front.dataP.icacheInst := by
      rw [icacheInst, FetchEnv.icacheInst, h.cacheI, if_pos rfl]
    rw [ICache.State.validInst, hsv, if_neg Bool.false_ne_true]
    exact fun hu => h.named (hw.symm.trans hu)
  obtain ⟨he, hn⟩ := ICache.State.sweep_begins hst hop hv
  refine ⟨?_, ?_⟩
  · rw [begins, hn, hst]
    rfl
  · rw [iWait_eq, hv, he]
    rfl

/-- The last set is cleared, and the fetch goes on behind the operation. -/
theorem Sweeping.over (hs : s.Sound) (hst : s.instr.state = .invalidAll)
    (hb : s.begun = s.swept + 1) (hk : s.instr.metaIndex = 63#6) : (s.step i).Quiet := by
  obtain ⟨he, hn⟩ := ICache.State.sweep_goes (i := s.instrInput i) hst
  rw [hk] at he hn
  have hiw : s.iWait i = false := by
    rw [iWait_eq, he]
    exact Bool.and_false _
  have hF : (s.cpu.cpu.hazardFront (s.cpuInput i)).stallF = false := h.stallF.trans hiw
  have hg : s.cpu.cpu.front.Goes (s.cpu.cpu.fetchInput (s.cpuInput i)) :=
    FrontEnd.goes_of_stallF hF
  have hi : (s.cpu.cpu.fetchInput (s.cpuInput i)).redirects.icache = false := h.emptied.cacheI
  have hc : ¬ (s.step i).cpu.cpu.front.dataP.cacheI = true := by
    have hd : (s.step i).cpu.cpu.front.dataP = _ := hg.dataP
    rw [hd, FrontEnd.cacheI_dataPNxt h.icacheSaved hi]
    exact Bool.false_ne_true
  have hps : ¬ (s.step i).cpu.cpu.front.pcSaved = true := by
    have hp : (s.step i).cpu.cpu.front.pcSaved = false := hg.pcSaved
    rw [hp]
    exact Bool.false_ne_true
  have hends : s.ends = true := by
    rw [ends, hst, hk]
    rfl
  have hbegins : s.begins i = false := by
    rw [begins, hst]
    rfl
  have hl := leaves_of_emptied (i := i) h.emptied
  exact {
    nameless := fun h' => absurd h' hc
    m1 := fun _ => by
      rcases Cpu.m1IcacheInst_step (i := s.cpuInput i) hs.known h.emptied.cacheI with
        hm | ⟨hF', -⟩
      · exact hm
      · rw [hF] at hF'
        cases hF'
    emptied := fun h' => absurd h' hc
    icacheSaved := fun h' => by
      have hn : (s.step i).cpu.cpu.front.icacheSaved = false := hg.icacheSaved
      rw [hn] at h'
      cases h'
    senior := fun h' _ => absurd h' hps
    pcnxtSaved := fun h' => by
      obtain ⟨hF', -⟩ := FrontEnd.pcnxtSaved_step h.icacheSaved hi h'
      rw [show (s.cpu.cpu.fetchInput (s.cpuInput i)).hazard.stallF = false from hF] at hF'
      cases hF'
    instSaved := fun h' => by
      have hn : (s.step i).instr.instSaved = false := ICache.State.instSaved_next_of_en he
      rw [hn] at h'
      cases h'
    state := by
      have hn' : (s.step i).instr.state = _ := hn
      rw [hn']
      decide
    begun := by
      simp [step, hl, hbegins, hb, h.ops]
    swept := by
      simp [step, hl, hends, h.ops] }

end Sweeping

/-- The stage of the last operation. -/
def Staged (s : SweepTrace) : Prop := s.Quiet ∨ s.Saved ∨ s.Sweeping

theorem Quiet.step (h : s.Quiet) (hs : s.Sound) (hu : s.Unhindered i) : (s.step i).Staged := by
  cases hI : s.cpu.cpu.core.dataE.slot1.ctl.cacheI with
  | false => exact Or.inl (h.unsent hs hI)
  | true =>
      -- a redirect from W would overtake the operation
      have hw : s.excpW i = false := by
        cases hw : s.excpW i with
        | false => rfl
        | true => exact absurd ⟨hw, Or.inl hI⟩ hu.notOvertaken
      cases hh : s.cpu.cpu.held (s.cpuInput i) with
      | true => exact Or.inl (h.kept hI hw hh)
      | false =>
          have hsend : s.sendsOn i = true := by
            rw [sendsOn, hI, hw, hh]
            rfl
          have hwait := hu.waiting hsend
          cases hiw : s.iWait i with
          | true => exact Or.inr (Or.inl (h.sent hI hw hh hs (hwait.mpr hiw) hiw))
          | false =>
              refine Or.inl (h.refused hI hw hh (fun ht => ?_) hiw)
              rw [hwait.mp ht] at hiw
              cases hiw

theorem Saved.excpW (h : s.Saved) (hu : s.Unhindered i) : s.excpW i = false := by
  cases hw : s.excpW i with
  | false => rfl
  | true =>
      have hl := hu.notLost hw
      rw [h.icacheSaved] at hl
      cases hl

theorem Saved.asked (h : s.Saved) (hu : s.Unhindered i) :
    ((s.instrInput i).ireq .one).valid = true := by
  refine hu.asked ?_
  rw [underWay, h.icacheSaved, h.emptied.cacheI]
  simp

theorem Saved.step (h : s.Saved) (hs : s.Sound) (hu : s.Unhindered i) : (s.step i).Staged := by
  have hw := h.excpW hu
  have hv := h.asked hu
  cases hiw : s.iWait i with
  | true => exact Or.inr (Or.inl (h.wait hw hs.known.ordered hiw))
  | false => exact Or.inr (Or.inr (h.go hw hs.known.ordered hv hiw))

theorem Sweeping.step (h : s.Sweeping) (hs : s.Sound) (hu : s.Unhindered i) :
    (s.step i).Staged := by
  have hv := hu.asked h.underWay
  rcases h.phase with ⟨hst, hsv, hb⟩ | ⟨hst, hb⟩
  · obtain ⟨hbegins, hiw⟩ := h.start hv hst hsv
    have hn : s.ends = false := by
      rw [ends, hst]
      rfl
    have hstate : (s.instr.next (s.instrInput i)).state = .invalidAll := by
      rw [begins, Bool.and_eq_true, beq_iff_eq] at hbegins
      exact hbegins.2
    refine Or.inr (Or.inr (h.stay hs.known.ordered hiw hn ⟨hstate, ?_⟩))
    simp [SweepTrace.step, hbegins, hb]
  · by_cases hk : s.instr.metaIndex = 63#6
    · exact Or.inl (h.over hs hst hb hk)
    · obtain ⟨he, hn⟩ := ICache.State.sweep_goes (i := s.instrInput i) hst
      rw [beq_eq_false_iff_ne.mpr hk] at he hn
      have hiw : s.iWait i = true := by
        rw [iWait_eq, hv, he]
        rfl
      have hends : s.ends = false := by
        rw [ends, beq_eq_false_iff_ne.mpr hk]
        exact Bool.and_false _
      have hbegins : s.begins i = false := by
        rw [begins, hst]
        rfl
      refine Or.inr (Or.inr (h.stay hs.known.ordered hiw hends ⟨hn, ?_⟩))
      simp [SweepTrace.step, hbegins, hb]

theorem Staged.step (h : s.Staged) (hs : s.Sound) (hu : s.Unhindered i) : (s.step i).Staged := by
  rcases h with h | h | h
  · exact h.step hs hu
  · exact h.step hs hu
  · exact h.step hs hu

/-! ### What follows from the stages -/

theorem Staged.counted (h : s.Staged) :
    s.swept ≤ s.begun ∧ s.begun ≤ s.ops ∧ s.ops ≤ s.swept + 1 := by
  rcases h with h | h | h
  · have hb := h.begun
    have hw := h.swept
    omega
  · have hb := h.begun
    have ho := h.ops
    omega
  · have ho := h.ops
    rcases h.phase with ⟨-, -, hb⟩ | ⟨-, hb⟩ <;> omega

theorem emptied_of_leaves (hl : s.leaves i = true) : (s.step i).cpu.cpu.Emptied := by
  rw [leaves_eq, Bool.and_eq_true, sendsOn, Bool.and_eq_true, Bool.and_eq_true,
    Bool.not_eq_true', Bool.not_eq_true'] at hl
  obtain ⟨⟨⟨hI, hw⟩, hh⟩, -⟩ := hl
  exact (squashes_of_sent hI hw hh).emptied

theorem Staged.carried (h : s.Staged) (hs : s.Sound) (hu : s.Unhindered i)
    (hn : s.swept ≠ s.ops) :
    s.cpu.cpu.front.icacheSaved = true ∧
        (s.iWait i = false → (s.step i).cpu.cpu.front.dataP.cacheI = true ∧
          (s.step i).cpu.cpu.front.dataP.icacheInst ≠ .unknown) ∨
      s.cpu.cpu.front.dataP.cacheI = true ∧ s.cpu.cpu.front.dataP.icacheInst ≠ .unknown := by
  rcases h with h | h | h
  · exact absurd h.swept hn
  · refine Or.inl ⟨h.icacheSaved, fun hiw => ?_⟩
    have hgo := h.go (h.excpW hu) hs.known.ordered (h.asked hu) hiw
    exact ⟨hgo.cacheI, hgo.named⟩
  · exact Or.inr ⟨h.cacheI, h.named⟩

/-- A fetch is taken only when no operation is under way. -/
theorem Staged.first (h : s.Staged) (hu : s.Unhindered i)
    (hc : s.cpu.cpu.captures (s.cpuInput i) = true) : s.swept = s.ops := by
  rcases h with h | h | h
  · exact h.swept
  · rw [Cpu.captures_of_accepts (h.accepts (h.excpW hu))] at hc
    cases hc
  · rw [h.captures] at hc
    cases hc

theorem Staged.performed (h : s.Staged) (hu : s.Unhindered i)
    (hc : s.cpu.cpu.front.dataP.cacheI = true)
    (hn : s.cpu.cpu.front.dataP.icacheInst ≠ .unknown) :
    s.begins i = true ∨ s.instr.state = .invalidAll := by
  rcases h with h | h | h
  · exact absurd (h.nameless hc) hn
  · rw [h.cacheI] at hc
    cases hc
  · rcases h.phase with ⟨hst, hsv, -⟩ | ⟨hst, -⟩
    · exact Or.inl (h.start (hu.asked h.underWay) hst hsv).1
    · exact Or.inr hst

theorem Staged.plain (h : s.Staged) (hc : s.cpu.cpu.front.dataP.cacheI = false) :
    s.instr.validInst (s.instrInput i) = .unknown ∧ s.instr.state ≠ .invalidAll := by
  rcases h with h | h | h
  · exact ⟨h.validInst, h.state⟩
  · exact ⟨h.validInst, h.state⟩
  · rw [h.cacheI] at hc
    cases hc

/-- An operation in M1 shuts the register behind the program counter. -/
theorem accepts_of_cacheI (hI : s.cpu.cpu.core.dataE.slot1.ctl.cacheI = true)
    (hw : s.excpW i = false) : s.cpu.cpu.accepts (s.cpuInput i) = false := by
  cases hh : s.cpu.cpu.held (s.cpuInput i) with
  | true => exact Cpu.accepts_of_stallF (Cpu.stallF_of_held hw hh)
  | false => exact (squashes_of_sent hI hw hh).accepts

theorem Staged.taken (h : s.Staged) (hu : s.Unhindered i)
    (hc : s.cpu.cpu.front.dataP.cacheI = false) (hiw : s.iWait i = false)
    (ha : s.cpu.cpu.accepts (s.cpuInput i) = true) :
    s.cpu.cpu.captures (s.cpuInput i) = true := by
  rcases h with h | h | h
  · have hw : s.excpW i = false := by
      cases hw : s.excpW i with
      | false => rfl
      | true =>
          rw [(Cpu.squashes_of_excpW hw).accepts] at ha
          cases ha
    have hsv : s.cpu.cpu.front.icacheSaved = false := by
      cases hsv : s.cpu.cpu.front.icacheSaved with
      | false => rfl
      | true =>
          rw [accepts_of_cacheI (h.icacheSaved hsv) hw] at ha
          cases ha
    have hm : (s.cpu.cpu.fetchInput (s.cpuInput i)).redirects.m1IcacheInst = .unknown := h.m1 hc
    have hi : (s.cpu.cpu.fetchInput (s.cpuInput i)).iWait = false := hiw
    rw [Cpu.captures, ha]
    simp [dataF1Nxt, FrontEnd.env, hm, hi, hsv, hc]
  · rw [h.accepts (h.excpW hu)] at ha
    cases ha
  · rw [h.cacheI] at hc
    cases hc

/-- A redirect comes from W, or from a group in M1. -/
theorem stage_of_raised {l : ForwardPcType} {a : Word}
    (hr : (s.cpu.cpu.redirects (s.cpuInput i)).raised = some (l, a)) :
    s.excpW i = true ∧ l = .pcw ∨ l = .pcm ∧ ¬ s.cpu.cpu.Emptied := by
  cases hw : s.excpW i with
  | true =>
      obtain ⟨b, hb⟩ := Cpu.raised_of_excpW hw
      rw [hb] at hr
      cases hr
      exact Or.inl ⟨rfl, rfl⟩
  | false =>
      rw [Cpu.raised_eq hw] at hr
      refine Or.inr ⟨?_, fun he => ?_⟩
      · obtain ⟨b, -, hb⟩ := Option.map_eq_some_iff.mp hr
        cases hb
        rfl
      · rw [he.targetM] at hr
        cases hr

/-- A redirect from M1 that is not that of an operation finds nothing saved by W. -/
theorem Quiet.setsOut (h : s.Quiet) {a : Word}
    (hr : (s.cpu.cpu.redirects (s.cpuInput i)).raised = some (.pcm, a))
    (hne : ¬ s.cpu.cpu.Emptied) (hI : s.cpu.cpu.core.dataE.slot1.ctl.cacheI = false) :
    s.cpu.cpu.front.SetsOut (s.cpu.cpu.fetchInput (s.cpuInput i)) a := by
  have hI' : ¬ s.cpu.cpu.core.dataE.slot1.ctl.cacheI = true := by
    rw [hI]
    exact Bool.false_ne_true
  refine FrontEnd.setsOut_of_raised hr hI ?_ (fun hp => ?_) (fun _ hp => ?_)
  · cases hsv : s.cpu.cpu.front.icacheSaved with
    | false => rfl
    | true => exact absurd (h.icacheSaved hsv) hI'
  · cases hf : s.cpu.cpu.front.forwardPctypeSave with
    | pcw => exact absurd (h.senior hp hf) hne
    | noForward | pci | pcm => decide
  · rcases h.pcnxtSaved hp with hc | ⟨hc, -⟩
    · exact absurd (h.emptied hc) hne
    · exact absurd hc hI'

theorem Staged.redirected (h : s.Staged) (hu : s.Unhindered i) {l : ForwardPcType} {a : Word}
    (hr : (s.cpu.cpu.redirects (s.cpuInput i)).raised = some (l, a))
    (hl : l = .pcw ∨ s.cpu.cpu.core.dataE.slot1.ctl.cacheI = false) :
    s.cpu.cpu.front.SetsOut (s.cpu.cpu.fetchInput (s.cpuInput i)) a := by
  rcases stage_of_raised hr with ⟨hw, rfl⟩ | ⟨rfl, hne⟩
  · have hno := hu.notOvertaken
    refine FrontEnd.setsOut_of_raised hr ?_ (hu.notLost hw)
      (fun _ => not_lt.mpr (ForwardPcType.rank_le _)) (fun hF hp => ?_)
    · change s.cpu.cpu.core.dataE.slot1.ctl.cacheI = false
      by_contra hI
      exact hno ⟨hw, Or.inl (by simpa using hI)⟩
    · by_contra hps
      have hiw : s.cpu.cpu.iWait (s.cpuInput i) = false :=
        (Cpu.squashes_of_excpW hw).stallF.symm.trans hF
      exact hno ⟨hw, Or.inr (Or.inr ⟨hiw, hp, by simpa using hps⟩)⟩
  · have hI : s.cpu.cpu.core.dataE.slot1.ctl.cacheI = false := by
      rcases hl with hl | hl
      · cases hl
      · exact hl
    rcases h with h | h | h
    · exact h.setsOut hr hne hI
    · exact absurd h.emptied hne
    · exact absurd h.emptied hne

/-- The sweep comes to the last set with all others cleared. -/
theorem Sound.complete (hs : s.Sound) (he : s.ends = true) (k : DCache.Index) (w : DCache.Way) :
    ((s.step i).instr.metaRam k w).valid = false := by
  rw [ends, Bool.and_eq_true, beq_iff_eq, beq_iff_eq] at he
  refine ICache.State.clear_next hs.cleared he.1 ?_ w
  rw [he.2]
  bv_omega

/-- A cycle of a run in which the conditions hold. -/
theorem Staged.sweepsOnce (h : s.Staged) (hs : s.Sound) (hu : s.Unhindered i) :
    s.SweepsOnce i where
  counted := (h.step hs hu).counted
  refetched := emptied_of_leaves
  first := h.first hu
  complete := hs.complete
  carried := h.carried hs hu
  performed := h.performed hu
  plain := h.plain
  taken := h.taken hu
  redirected _ _ := h.redirected hu

theorem sound_reset : Sound {} where
  known := Cpu.opsKnown_reset
  alone := Cpu.opsNamed_reset
  cleared h := by cases h

theorem staged_reset : Staged {} := Or.inl {
  nameless := fun h => by cases h
  m1 := fun _ => rfl
  emptied := fun h => by cases h
  icacheSaved := fun h => by cases h
  senior := fun h => by cases h
  pcnxtSaved := fun h => by cases h
  instSaved := fun h => by cases h
  state := by decide
  begun := rfl
  swept := rfl }

/-- In a run in which the conditions hold, every operation is performed once. -/
theorem run_sweepsOnce (is : List SweepInput) (h : Along step Unhindered {} is) :
    Along step SweepsOnce {} is :=
  Along.imp_of_kept (P := fun s : SweepTrace => s.Sound ∧ s.Staged)
    (fun _ _ hs hu => ⟨hs.1.step, hs.2.step hs.1 hu⟩) (fun _ _ hs hu => hs.2.sweepsOnce hs.1 hu)
    h ⟨sound_reset, staged_reset⟩

/-! ### Runs of which every cycle is known -/

/-- What the core and the instruction cache read in a cycle. -/
structure Reads where
  addrOk : Bool := false
  words : Pair Word := ⟨0#32, 0#32⟩
  addr : Word := 0#32
  cacheInst : ICacheInst := .unknown
  icresp : CBusResp := ⟨false, false, 0#32⟩

namespace Reads

variable (r : Reads)

def input : SweepInput := { icresp := r.icresp }

def cycle : CycleInput := { addrOk := r.addrOk, instrData := r.words }

def instr : ICache.Input where
  ireq
    | .one => ⟨true, r.addr⟩
    | .two => ⟨r.cacheInst == .unknown, r.addr + 4#32⟩
  icresp := r.icresp
  cacheInst := r.cacheInst

end Reads

/-- A clock edge at which `r` is read. -/
def stepReads (s : SweepTrace) (r : Reads) : SweepTrace :=
  { s.step r.input with
    cpu := s.cpu.step r.cycle
    instr := s.instr.next r.instr }

/-- In this cycle `r` is read, and the data cache is ready and has not been asked. -/
structure Meets (s : SweepTrace) (r : Reads) : Prop where
  one : (s.instrInput r.input).ireq .one = r.instr.ireq .one
  two : (s.instrInput r.input).ireq .two = r.instr.ireq .two
  cacheInst : s.icacheInst = r.cacheInst
  addrOk : s.instr.addrOk r.instr = r.addrOk
  words1 : s.instr.respData .one = r.words.slot1
  words0 : s.instr.respData .two = r.words.slot0
  en : s.data.cache.addrOk = true
  data1 : s.data.cache.respData .one = 0#32
  data0 : s.data.cache.respData .two = 0#32

/-- No redirect comes from W, and an operation finds the fetch waiting. -/
structure Calm (s : SweepTrace) (r : Reads) : Prop where
  meets : s.Meets r
  excpW : s.cpu.cpu.core.excpW (s.cpu.cpu.coreInput (s.cpu.cpuInput r.cycle)) = false
  waiting : s.cpu.cpu.core.dataE.slot1.ctl.cacheI = true →
    s.cpu.cpu.core.dataE.slot1.cp0Ctl.ctype = .noExc ∧ r.addrOk = false

section Reads

variable {r : Reads}

instance : Decidable (s.Meets r) :=
  decidable_of_iff
    ((s.instrInput r.input).ireq .one = r.instr.ireq .one ∧
      (s.instrInput r.input).ireq .two = r.instr.ireq .two ∧ s.icacheInst = r.cacheInst ∧
      s.instr.addrOk r.instr = r.addrOk ∧ s.instr.respData .one = r.words.slot1 ∧
      s.instr.respData .two = r.words.slot0 ∧ s.data.cache.addrOk = true ∧
      s.data.cache.respData .one = 0#32 ∧ s.data.cache.respData .two = 0#32)
    ⟨fun ⟨h1, h2, h3, h4, h5, h6, h7, h8, h9⟩ => ⟨h1, h2, h3, h4, h5, h6, h7, h8, h9⟩,
      fun h => ⟨h.one, h.two, h.cacheInst, h.addrOk, h.words1, h.words0, h.en, h.data1, h.data0⟩⟩

instance : Decidable (s.Calm r) :=
  decidable_of_iff
    (s.Meets r ∧ s.cpu.cpu.core.excpW (s.cpu.cpu.coreInput (s.cpu.cpuInput r.cycle)) = false ∧
      (s.cpu.cpu.core.dataE.slot1.ctl.cacheI = true →
        s.cpu.cpu.core.dataE.slot1.cp0Ctl.ctype = .noExc ∧ r.addrOk = false))
    ⟨fun h => ⟨h.1, h.2.1, h.2.2⟩, fun h => ⟨h.meets, h.excpW, h.waiting⟩⟩

theorem Meets.instrInput (h : s.Meets r) : s.instrInput r.input = r.instr := by
  have hq : (s.instrInput r.input).ireq = r.instr.ireq := by
    funext p
    cases p with
    | one => exact h.one
    | two => exact h.two
  have hi : (s.instrInput r.input).cacheInst = r.instr.cacheInst := h.cacheInst
  calc s.instrInput r.input
      = ⟨(s.instrInput r.input).ireq, r.icresp, (s.instrInput r.input).cacheInst⟩ := rfl
    _ = r.instr := by
        rw [hq, hi]
        rfl

theorem Meets.cycle (h : s.Meets r) : s.cycle r.input = r.cycle := by
  rw [SweepTrace.cycle, h.instrInput, h.addrOk, h.words1, h.words0, h.en, h.data1, h.data0]
  rfl

theorem Meets.step (h : s.Meets r) : s.step r.input = s.stepReads r := by
  rw [stepReads, SweepTrace.step, h.cycle, h.instrInput]

theorem Calm.unhindered (h : s.Calm r) : s.Unhindered r.input := by
  have hi := h.meets.instrInput
  have hw : ¬ s.excpW r.input = true := by
    rw [SweepTrace.excpW, SweepTrace.cpuInput, h.meets.cycle, h.excpW]
    exact Bool.false_ne_true
  have hv : ((s.instrInput r.input).ireq .one).valid = true := by
    rw [hi]
    rfl
  refine ⟨fun hs => ?_, fun ho => hw ho.1, fun hw' => absurd hw' hw, fun _ => hv⟩
  rw [sendsOn, Bool.and_eq_true, Bool.and_eq_true] at hs
  obtain ⟨ht, ha⟩ := h.waiting hs.1.1
  have he : s.instr.en (s.instrInput r.input) = false := by
    rw [hi]
    exact h.meets.addrOk.trans ha
  refine iff_of_true ht ?_
  rw [iWait_eq, hv, he]
  rfl

end Reads

/-- A line that is missing is filled with the words `ws`. -/
def filling (addr : Word) (ws : List Word) : List Reads :=
  { addr := addr } :: (List.range 16).map fun k =>
    { addr := addr
      words := if k < 2 then ⟨0#32, 0#32⟩ else ⟨ws.getD 0 0#32, 0#32⟩
      icresp := { ready := true, last := k == 15, data := ws.getD k 0#32 } }

/-- Its pairs are fetched. Each is on the wires in the cycle after. -/
def fetching (addr : Word) (ws : List Word) : List Reads :=
  (List.range 8).map fun k =>
    { addrOk := true
      words :=
        if k = 0 then ⟨ws.getD 0 0#32, 0#32⟩
        else ⟨ws.getD (2 * k - 2) 0#32, ws.getD (2 * k - 1) 0#32⟩
      addr := addr + BitVec.ofNat 32 (8 * k) }

/-- `lui $1, 0xbfc0` and, so far on that the fetch is in the next line by then, an operation at
`0x800($1)`. -/
def lateCache : List Word := [0x3c01bfc0#32, 0#32, 0#32, 0#32, 0xbc200800#32]

/-- The operation leaves M1 while the next line is missing, is saved until that is filled, and
is performed. The last cycle is that of the fetch behind it. -/
def savedCache : List Reads :=
  filling 0x1fc00000#32 lateCache ++ fetching 0x1fc00000#32 lateCache ++
    [{ addr := 0x1fc00040#32 },
      { addr := 0x1fc00040#32, cacheInst := .indexInvalid, icresp := ⟨true, false, 0#32⟩ }] ++
    ((List.range 15).map fun k =>
      { addr := 0x1fc00040#32, icresp := { ready := true, last := k == 14, data := 0#32 } }) ++
    [{ addr := 0x1fc00040#32, addrOk := true }] ++
    List.replicate 64 { addr := 0x1fc00800#32, cacheInst := .indexInvalid } ++
    [{ addr := 0x1fc00800#32, cacheInst := .indexInvalid, addrOk := true },
      { addr := 0x1fc00014#32 }]

theorem run_sweepsOnce_saved :
    (run step {} (savedCache.map Reads.input)).swept = 1 ∧
      Along step SweepsOnce {} (savedCache.map Reads.input) := by
  have hc : Along stepReads Calm {} savedCache := by decide +kernel
  have hm (s : SweepTrace) (r : Reads) (h : s.Calm r) : s.step r.input = s.stepReads r :=
    h.meets.step
  refine ⟨?_, run_sweepsOnce _ (hc.map hm fun s r h => h.unhindered)⟩
  rw [hc.run_map hm]
  decide +kernel

/-- `lui $1, 0xbfc0` and an operation at `0($1)` soon after it. -/
def earlyCache : List Word := [0x3c01bfc0#32, 0#32, 0xbc200000#32]

/-- The operation leaves M1 while the line still hits. The last cycle is that of the fetch at
its address. -/
def lostCache : List Reads :=
  filling 0x1fc00000#32 earlyCache ++ fetching 0x1fc00000#32 earlyCache ++
    [{ addr := 0x1fc00000#32, addrOk := true }]

/-- The fetch behind the operation. -/
def behindCache : Reads :=
  { addrOk := true, words := ⟨0x3c01bfc0#32, 0#32⟩, addr := 0x1fc0000c#32 }

/-- The fetch behind the operation is taken, and no sweep has begun. -/
theorem not_run_sweepsOnce_lost : ¬ ∀ is, Along step SweepsOnce {} is := by
  intro h
  have hm : Along stepReads Meets {} (lostCache ++ [behindCache]) := by decide +kernel
  rw [along_append] at hm
  have hrun : run step {} (lostCache.map Reads.input) = run stepReads {} lostCache :=
    hm.1.run_map fun _ _ hr => hr.step
  have hfirst := ((along_append step SweepsOnce _ _ _).mp
    (h (lostCache.map Reads.input ++ [behindCache.input]))).2.1.first
  rw [hrun, SweepTrace.cpuInput, hm.2.1.cycle] at hfirst
  exact absurd (hfirst (by decide +kernel)) (by decide +kernel)

end SweepTrace

end FrailCPU
