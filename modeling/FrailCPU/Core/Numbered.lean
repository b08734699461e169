import FrailCPU.Core.Step
import FrailCPU.Library.Machine

/-!
# Instructions by number

A core is run together with the numbers of the groups in its stages. A group has the
number of the cycle in which it entered E; its older instruction, in slot 1, has twice
that number and the younger one, in slot 0, one more, so the numbers are in program
order. Beside them the instructions that had an effect are listed: one that has written a
general register, HI or LO, or a CP0 register, or had a store accepted by the data cache.
-/

namespace FrailCPU

/-- An instruction that has entered E. -/
structure Issued where
  id : ℕ
  pc : Word
  transfers : Bool
  deriving DecidableEq

/-- The instructions of the group `n`. -/
def groupIssued (n : ℕ) (d : Pair IssueData) : List Issued :=
  (if d.slot1.valid then [⟨2 * n, d.slot1.pc, d.slot1.ctl.transfers⟩] else []) ++
    (if d.slot0.valid then [⟨2 * n + 1, d.slot0.pc, d.slot0.ctl.transfers⟩] else [])

/-- The numbers of the flagged instructions of a group. -/
def flaggedIds (n : Option ℕ) (b : Pair Bool) : List ℕ :=
  match n with
  | none => []
  | some n => (if b.slot1 then [2 * n] else []) ++ (if b.slot0 then [2 * n + 1] else [])

/-- A general register, HI or LO is written in W, or `EXL` is cleared by an `ERET`. -/
def MemoryData.writesRegister (d : MemoryData) : Bool :=
  (d.ctl.regwrite && d.valid && !d.cp0Ctl.ctype.leaves) || d.ctl.writesHilo ||
    d.cp0Ctl.ctype == .eret

/-- A CP0 register is written in W, by a move or by the result of a TLB instruction. -/
def MemoryData.writesCp0 (d : MemoryData) : Bool :=
  d.ctl.cp0write || d.ctl.tlbType == .tlbp || d.ctl.tlbType == .tlbr

/-- The slots of a group behind M1 whose store the cache has accepted: the outcome of a
slot's own request is in the record of the other slot. -/
def stored (c : Pair Control) (e : Pair TlbExc) : Pair Bool where
  slot1 := c.slot1.memwrite && !e.slot0.any
  slot0 := c.slot0.memwrite && !e.slot1.any

def storedX (p : Pair ExecuteData) : Pair Bool := stored (p.map (·.ctl)) (p.map (·.dTlbExc))

def storedW (p : Pair MemoryData) : Pair Bool := stored (p.map (·.ctl)) (p.map (·.dTlbExc))

/-- The slots of a group that left W with an effect, if nothing was taken there. -/
def leftEffects (w : Pair MemoryData) : Pair Bool where
  slot1 := w.slot1.writesRegister || w.slot1.writesCp0 || (storedW w).slot1
  slot0 := w.slot0.writesRegister || (storedW w).slot0

namespace CoreState

variable (s : CoreState) (i : CoreInput)

/-- The stores in M1 that the cache accepts in this cycle. -/
def acceptedStores : Pair Bool :=
  s.dataE.map fun d =>
    !i.dWait && (s.mmu.dreq (memoryReq d)).valid && (memoryReq d).strobe != 0#4

/-- `is_INTEXC`. -/
def intExc : Bool := s.cp0.isIntExc (s.cp0In i)

/-- The slots in W that write a register in this cycle. -/
def registerWrites : Pair Bool where
  slot1 := s.dataM3.slot1.writesRegister || (s.dataM3.slot1.writesCp0 && !s.intExc i)
  slot0 := s.dataM3.slot0.writesRegister

/-- `cp0` takes the interrupt and records `EPC` and `BD`. -/
def recordsInterrupt : Bool :=
  s.cp0.takesInterrupt (s.cp0In i) && !s.cp0.regs.status.exl

end CoreState

/-- The core with the numbers of its groups, youngest stage first. -/
structure NumberedCore where
  core : CoreState := {}
  now : ℕ := 0
  noE : Option ℕ := none
  noM1 : Option ℕ := none
  noM2 : Option ℕ := none
  noM3 : Option ℕ := none
  noW : Option ℕ := none
  issued : List Issued := []
  committed : List ℕ := []
  discarded : List ℕ := []
  effects : List ℕ := []
  last : Option (ℕ × Pair MemoryData) := none

namespace NumberedCore

variable (s : NumberedCore) (i : CoreInput)

/-- The groups in flight. -/
def flight : List ℕ :=
  s.noE.toList ++ s.noM1.toList ++ s.noM2.toList ++ s.noM3.toList ++ s.noW.toList

/-- The groups that a flush removes in front of W. -/
def dropped : List ℕ :=
  if s.core.excpW i then
    s.noE.toList ++ s.noM1.toList ++ s.noM2.toList ++ s.noM3.toList
  else if (s.core.hazardOut i).flushE then s.noE.toList
  else []

/-- A clock edge. A group leaves W committed, unless an exception or an interrupt is taken
in that cycle; `last` is the last group with an instruction that has left W. -/
def step : NumberedCore :=
  let h := s.core.hazardOut i
  let enters := !h.stallE && !h.flushE
  let nxt := s.core.dataINxt i
  { core := s.core.step i
    now := s.now + 1
    noE := pipereg2 none h.stallE h.flushE (if nxt.slot1.valid then some s.now else none) s.noE
    noM1 := pipereg2 none h.stallM h.flushM s.noE s.noM1
    noM2 := pipereg2 none h.stallM2 h.flushM2 s.noM1 s.noM2
    noM3 := pipereg2 none false h.flushM3 s.noM2 s.noM3
    noW := pipereg2 none false h.flushW s.noM3 s.noW
    issued := if enters then groupIssued s.now nxt ++ s.issued else s.issued
    committed := if s.core.intExc i then s.committed else s.noW.toList ++ s.committed
    discarded :=
      (if s.core.intExc i then s.noW.toList else []) ++ s.dropped i ++ s.discarded
    effects :=
      flaggedIds s.noW (s.core.registerWrites i) ++
        flaggedIds s.noM1 (s.core.acceptedStores i) ++ s.effects
    last :=
      if s.core.dataM3.slot1.valid || s.core.dataM3.slot0.valid then
        s.noW.map fun n => (n, s.core.dataM3)
      else s.last }

/-- `EPC` designates `x`: it is the instruction there, or the branch in front of it when
`BD` is set. -/
def Designates (x : Issued) : Prop :=
  let r := s.core.cp0.regs
  (r.cause.bd = false → x.pc = r.epc) ∧
    (r.cause.bd = true → x.transfers = true ∧
      ∃ y ∈ s.issued, y.id = x.id + 1 ∧ y.pc = r.epc + 4#32)

/-- If an interrupt is recorded in this cycle, then `EPC` designates an instruction such
that every older one has committed, or has been removed by an earlier exception or
redirection, and neither it nor a younger one has had an effect. -/
def Precise : Prop :=
  s.core.recordsInterrupt i = true → ∃ x ∈ s.issued, (s.step i).Designates x ∧
    (∀ m ∈ s.issued, m.id < x.id →
      m.id / 2 ∈ s.committed ∨ (m.id / 2 < x.id / 2 ∧ m.id / 2 ∈ s.discarded)) ∧
    ∀ e ∈ (s.step i).effects, e < x.id

/-- The interrupted program resumes at slot 1 of the last group. -/
def resumesAtSlot1 (w : Pair MemoryData) : Bool := !w.slot0.valid || w.slot0.isSlot

/-- If an interrupt is recorded in this cycle, then the instructions of the last group
from the saved one on had no effect, the group in W has none, and no store behind them
has been accepted. -/
def QuietTake : Prop :=
  s.core.recordsInterrupt i = true →
    (∀ w ∈ s.last, (leftEffects w.2).slot0 = false ∧
      (resumesAtSlot1 w.2 = true → (leftEffects w.2).slot1 = false)) ∧
    (s.core.dataM3.slot1.writesRegister = false ∧ s.core.dataM3.slot0.writesRegister = false) ∧
    storedW s.core.dataM3 = ⟨false, false⟩ ∧ storedX s.core.dataM2 = ⟨false, false⟩ ∧
    storedX s.core.dataM1 = ⟨false, false⟩ ∧ s.core.acceptedStores i = ⟨false, false⟩

instance (x : Issued) : Decidable (s.Designates x) :=
  inferInstanceAs (Decidable ((_ → _) ∧ (_ → _ ∧ ∃ y ∈ s.issued, _)))

instance : Decidable (s.Precise i) :=
  inferInstanceAs (Decidable (_ → ∃ x ∈ s.issued, _))

instance : Decidable (s.QuietTake i) :=
  have : Decidable (∀ w ∈ s.last, (leftEffects w.2).slot0 = false ∧
      (resumesAtSlot1 w.2 = true → (leftEffects w.2).slot1 = false)) :=
    match s.last with
    | none => isTrue (fun _ h => nomatch h)
    | some w => decidable_of_iff ((leftEffects w.2).slot0 = false ∧
        (resumesAtSlot1 w.2 = true → (leftEffects w.2).slot1 = false)) (by simp)
  inferInstanceAs (Decidable (_ → _))

end NumberedCore

end FrailCPU
