import FrailCPU.Issue.Issue
import FrailCPU.Execute.Execute

/-!
# The bypass network

`bypassI.sv` supplies a candidate of the issue queue, `bypassE.sv` an instruction in E.
Both search the older groups from the youngest to the oldest, slot 0 before slot 1, and
stop at the first instruction that writes the register. Loads and reads of special
registers have their value only in the last stage: `delay_toreg` tells them from the
others. An operand that comes by while E is stalled is saved.
-/

namespace FrailCPU

/-- `delay_toreg`. -/
def BypassInput.delayToreg (a : BypassInput) : Bool :=
  a.memtoreg || a.lotoreg || a.hitoreg || a.cp0toreg

/-- `delay_toreg2`. -/
def BypassExecute.delayToreg (b : BypassExecute) : Bool :=
  b.memtoreg || b.lotoreg || b.hitoreg || b.cp0toreg

def BypassInput.writes (a : BypassInput) (ra : CregAddr) : Bool := a.regwrite && a.rdst == ra

def BypassExecute.writes (b : BypassExecute) (ra : CregAddr) : Bool :=
  b.regwrite && b.rdst == ra

/-- What one stage answers: slot 0 is asked first, and `rest` when neither slot writes
the register. -/
def stageAnswer {α β : Type} (writes : α → CregAddr → Bool) (answer : α → β)
    (p : Pair α) (ra : CregAddr) (rest : β) : β :=
  if writes p.slot0 ra then answer p.slot0
  else if writes p.slot1 ra then answer p.slot1
  else rest

/-- The producers in the four registers behind E. -/
structure Producers where
  dataE : Pair BypassInput := ⟨{}, {}⟩
  dataM1 : Pair BypassInput := ⟨{}, {}⟩
  dataM2 : Pair BypassInput := ⟨{}, {}⟩
  dataM3 : Pair BypassInput := ⟨{}, {}⟩

/-- One port of `bypassI.sv`. A producer in E cannot supply its value yet; it makes the
port wait only when it is delayed. -/
def bypassI (dataEnxt : Pair BypassExecute) (p : Producers) (ra : CregAddr) :
    BypassOutput :=
  stageAnswer BypassExecute.writes (fun b => { valid := !b.delayToreg }) dataEnxt ra <|
  stageAnswer BypassInput.writes
    (fun a => { valid := !a.delayToreg, bypass := !a.delayToreg, data := a.data }) p.dataE ra <|
  stageAnswer BypassInput.writes
    (fun a => { valid := !a.delayToreg, bypass := !a.delayToreg, data := a.data }) p.dataM1 ra <|
  stageAnswer BypassInput.writes
    (fun a => { bypass := !a.delayToreg, data := a.data }) p.dataM2 ra <|
  stageAnswer BypassInput.writes (fun a => { bypass := true, data := a.data }) p.dataM3 ra {}

/-- One port of `bypassE.sv`. What a producer in the last stage had ready before was
taken at issue, so only a delayed one is asked there. -/
def bypassE (p : Producers) (ra : CregAddr) : BypassOutput :=
  stageAnswer BypassInput.writes
    (fun a => { bypass := !a.delayToreg, data := a.data }) p.dataE ra <|
  stageAnswer BypassInput.writes
    (fun a => { bypass := !a.delayToreg, data := a.data }) p.dataM1 ra <|
  stageAnswer BypassInput.writes
    (fun a => { bypass := !a.delayToreg, data := a.data }) p.dataM2 ra <|
  stageAnswer BypassInput.writes
    (fun a => { bypass := a.delayToreg, data := a.data }) p.dataM3 ra {}

/-- `bypass_rd_saved` and `bypass_save_rd` of one port. -/
structure SavedOperand where
  saved : Bool := false
  data : Word := 0#32

namespace SavedOperand

/-- `rd1[i]` and `rd2[i]`. -/
def select (s : SavedOperand) (b : BypassOutput) (rd : Word) : Word :=
  if b.bypass then b.data else if s.saved then s.data else rd

/-- The clock edge of one port. -/
def step (s : SavedOperand) (stallE : Bool) (b : BypassOutput) : SavedOperand :=
  if stallE && b.bypass then { saved := true, data := b.data }
  else if !stallE then {} else s

/-- The value used in the cycle that leaves E, when `waits` are the network's answers in
the stalled cycles before it. -/
def settle (s : SavedOperand) (rd : Word) : List BypassOutput → BypassOutput → Word
  | [], last => s.select last rd
  | b :: waits, last => (s.step true b).settle rd waits last

@[simp] theorem settle_nil (s : SavedOperand) (rd : Word) (last : BypassOutput) :
    s.settle rd [] last = s.select last rd := rfl

@[simp] theorem settle_cons (s : SavedOperand) (rd : Word) (b : BypassOutput)
    (waits : List BypassOutput) (last : BypassOutput) :
    s.settle rd (b :: waits) last = (s.step true b).settle rd waits last := rfl

end SavedOperand

/-- A passage of a group from the queue out of E: the network and the register file in
the cycle of its issue, the network in the cycles E stalls, and in the cycle it leaves. -/
structure Passage where
  dataEnxt : Pair BypassExecute := ⟨{}, {}⟩
  issue : Producers := {}
  regs : CregAddr → Word := fun _ => 0#32
  waits : List Producers := []
  leave : Producers := {}

namespace Passage

variable (t : Passage)

/-- Both ports of a candidate. -/
def portBypass (c : DecodeData) : PortBypass where
  ra1 := bypassI t.dataEnxt t.issue c.ra1
  ra2 := bypassI t.dataEnxt t.issue c.ra2

/-- The operands that the record `d` of an issued instruction uses when it leaves E. -/
def operands (d : IssueData) : Operands where
  rd1 := SavedOperand.settle {} d.rd1 (t.waits.map fun p => bypassE p d.ra1)
    (bypassE t.leave d.ra1)
  rd2 := SavedOperand.settle {} d.rd2 (t.waits.map fun p => bypassE p d.ra2)
    (bypassE t.leave d.ra2)

/-- The group that the candidates form. -/
def group (c1 c2 : DecodeData) : Pair IssueData :=
  issueGroup c1 c2 ⟨t.portBypass c1, t.portBypass c2⟩ ⟨t.regs c1.ra1, t.regs c2.ra1⟩
    ⟨t.regs c1.ra2, t.regs c2.ra2⟩

/-- The candidates leave together. -/
def together (c1 c2 : DecodeData) : Bool :=
  issueEn2 c1 c2 ⟨t.portBypass c1, t.portBypass c2⟩

/-- The value that the network delivers for register `r`. -/
def view (r : CregAddr) : Word :=
  SavedOperand.settle {} ((bypassI t.dataEnxt t.issue r).select (t.regs r))
    (t.waits.map fun p => bypassE p r) (bypassE t.leave r)

end Passage

end FrailCPU
