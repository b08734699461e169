import FrailCPU.Decode.Facts
import FrailCPU.Library.Machine

/-!
# The issue stage

`issue.sv`. The queue is two rings of sixteen records whose heads and tails move
downwards; equal pointers mean that the odd ring is next. In every cycle the two oldest
records are the candidates, and `issueEn1`, `issueEn2` say which of them leave.
-/

namespace FrailCPU

/-- `multi_op`. -/
def Control.multiOp (c : Control) : Bool := c.div || c.mul

/-- The two outputs of the bypass network for one candidate. -/
structure PortBypass where
  ra1 : BypassOutput := {}
  ra2 : BypassOutput := {}

/-- Both registers of the candidate can be supplied. -/
def PortBypass.ready (b : PortBypass) : Bool := b.ra1.valid && b.ra2.valid

section Enables

variable (c1 c2 : DecodeData) (b : Pair PortBypass)

/-- `issue_en1`. -/
def issueEn1 : Bool :=
  c1.valid && b.slot1.ready && !(c1.ctl.transfers && !(c2.valid && b.slot0.ready))

/-- The first disjunct of `issue_en2`: the younger candidate reads what the older one
writes. It is not asked behind a branch. -/
def pairHazard : Bool :=
  c1.ctl.regwrite && (c1.rdst == c2.ra1 || c1.rdst == c2.ra2) && !c1.ctl.transfers

/-- `issue_en2`. -/
def issueEn2 : Bool :=
  c2.valid && b.slot0.ready &&
    !(pairHazard c1 c2 || (c1.ctl.multiOp && c2.ctl.multiOp) || c1.ctl.cp0write ||
      c2.ctl.cp0write || !issueEn1 c1 c2 b || c2.ctl.branch || c2.ctl.jump ||
      (c1.ctl.lowrite && c2.ctl.lotoreg) || (c1.ctl.hiwrite && c2.ctl.hitoreg) ||
      (c1.ctl.cp0toreg && c2.ctl.cp0toreg) ||
      (c1.cp0Ctl.ctype == .exception || c1.cp0Ctl.ctype == .eret) ||
      c1.ctl.singleIssue || c2.ctl.singleIssue)

end Enables

/-- The value of a read port: the bypassed one, or that of the register file. -/
def BypassOutput.select (b : BypassOutput) (rd : Word) : Word :=
  if b.bypass then b.data else rd

/-- The record of an issued candidate. -/
def issueRecord (c : DecodeData) (b : PortBypass) (rd1 rd2 : Word) : IssueData :=
  { valid := c.valid
    rd1 := b.ra1.select rd1
    rd2 := b.ra2.select rd2
    ctl := c.ctl
    cp0ra := c.cp0ra
    imm := c.imm
    ra1 := c.ra1
    ra2 := c.ra2
    pc := c.pc
    rawInstr := c.rawInstr
    rdst := c.rdst
    preB := c.preB
    prePc := c.prePc
    cacheCtl := c.cacheCtl
    cp0Ctl := c.cp0Ctl
    iTlbExc := c.iTlbExc }

/-- `dataI`: the group that leaves. Slot 0 loses its prediction, and is a delay slot
behind a branch. -/
def issueGroup (c1 c2 : DecodeData) (b : Pair PortBypass) (rd1 rd2 : Pair Word) :
    Pair IssueData where
  slot1 := if issueEn1 c1 c2 b then issueRecord c1 b.slot1 rd1.slot1 rd2.slot1 else {}
  slot0 :=
    if issueEn2 c1 c2 b then
      { issueRecord c2 b.slot0 rd1.slot0 rd2.slot0 with
        preB := false, prePc := 0#32, isSlot := c1.ctl.transfers }
    else {}

/-- `index_t`. -/
abbrev QueueIndex := BitVec 4

/-- The two rings and their pointers. -/
structure IssueQueue where
  even : QueueIndex → DecodeData := fun _ => {}
  odd : QueueIndex → DecodeData := fun _ => {}
  headEven : QueueIndex := 0#4
  headOdd : QueueIndex := 0#4
  tailEven : QueueIndex := 0#4
  tailOdd : QueueIndex := 0#4

/-- `push` and `pop`: one step down, and from zero to the top. -/
def QueueIndex.next (i : QueueIndex) : QueueIndex := if i == 0#4 then 15#4 else i - 1#4

namespace IssueQueue

variable (q : IssueQueue)

/-- `odd_larger` of the heads. -/
def oddFirst : Bool := q.headOdd == q.headEven

/-- `odd_larger` of the tails. -/
def oddNext : Bool := q.tailOdd == q.tailEven

def queEmpty : Bool := q.headEven == q.tailEven && q.headOdd == q.tailOdd

def rdataOdd : DecodeData := if q.headOdd != q.tailOdd then q.odd q.headOdd else {}

def rdataEven : DecodeData := if q.headEven != q.tailEven then q.even q.headEven else {}

def candidate1 : DecodeData := if q.oddFirst then q.rdataOdd else q.rdataEven

def candidate2 : DecodeData := if q.oddFirst then q.rdataEven else q.rdataOdd

/-- `overflow`. -/
def overflow : Bool :=
  q.tailOdd.next == q.headOdd || q.tailEven.next == q.headEven

/-- `dataI_nxt`. -/
def dataI (b : Pair PortBypass) (rd1 rd2 : Pair Word) : Pair IssueData :=
  if q.queEmpty then ⟨{}, {}⟩ else issueGroup q.candidate1 q.candidate2 b rd1 rd2

end IssueQueue

/-- What the queue reads in a cycle. `dataF2` is what the decoder was fed with: the
records that arrive are its outputs. -/
structure IssueInput where
  dataF2 : Pair FetchData := ⟨{}, {}⟩
  bypass : Pair PortBypass := ⟨{}, {}⟩
  rd1 : Pair Word := ⟨0#32, 0#32⟩
  rd2 : Pair Word := ⟨0#32, 0#32⟩
  flushQue : Bool := false
  stallI : Bool := false
  stallIDe : Bool := false

namespace IssueQueue

variable (q : IssueQueue) (i : IssueInput)

/-- The record that goes to the odd ring, if any, and the one that goes to the even
ring: slot 1 goes to the ring that is next. -/
def wdataOdd : DecodeData :=
  if q.oddNext then (decode i.dataF2).slot1 else (decode i.dataF2).slot0

def wdataEven : DecodeData :=
  if q.oddNext then (decode i.dataF2).slot0 else (decode i.dataF2).slot1

def oddEn : Bool := !i.stallI && (q.wdataOdd i).valid

def evenEn : Bool := !i.stallI && (q.wdataEven i).valid

/-- The heads move: the queue is not stalled, or only by its own overflow. -/
def popping : Bool := !i.stallI || (q.overflow && !i.stallIDe)

def popOdd : Bool :=
  q.popping i && if q.oddFirst then issueEn1 q.candidate1 q.candidate2 i.bypass
    else issueEn2 q.candidate1 q.candidate2 i.bypass

def popEven : Bool :=
  q.popping i && if q.oddFirst then issueEn2 q.candidate1 q.candidate2 i.bypass
    else issueEn1 q.candidate1 q.candidate2 i.bypass

/-- A clock edge of `issue.sv`. The rings are written even while the pointers are
cleared. -/
def step : IssueQueue where
  even := if q.evenEn i then Function.update q.even q.tailEven (q.wdataEven i) else q.even
  odd := if q.oddEn i then Function.update q.odd q.tailOdd (q.wdataOdd i) else q.odd
  tailEven := if i.flushQue then 0#4 else if q.evenEn i then q.tailEven.next else q.tailEven
  tailOdd := if i.flushQue then 0#4 else if q.oddEn i then q.tailOdd.next else q.tailOdd
  headEven := if i.flushQue then 0#4 else if q.popEven i then q.headEven.next else q.headEven
  headOdd := if i.flushQue then 0#4 else if q.popOdd i then q.headOdd.next else q.headOdd

/-- Every record of the rings comes from the decoder, or was never written. -/
structure WellFormed : Prop where
  even : ∀ i, (q.even i).WellDecoded
  odd : ∀ i, (q.odd i).WellDecoded

theorem wellFormed_reset : WellFormed {} where
  even _ := wellDecoded_zero
  odd _ := wellDecoded_zero

variable {q}

theorem wdataOdd_wellDecoded : (q.wdataOdd i).WellDecoded := by
  unfold wdataOdd
  split <;> exact decodeSlot_wellDecoded ..

theorem wdataEven_wellDecoded : (q.wdataEven i).WellDecoded := by
  unfold wdataEven
  split <;> exact decodeSlot_wellDecoded ..

theorem WellFormed.step (h : q.WellFormed) : (q.step i).WellFormed where
  even k := by
    simp only [IssueQueue.step]
    split
    · rw [Function.update_apply]
      split
      · exact wdataEven_wellDecoded i
      · exact h.even k
    · exact h.even k
  odd k := by
    simp only [IssueQueue.step]
    split
    · rw [Function.update_apply]
      split
      · exact wdataOdd_wellDecoded i
      · exact h.odd k
    · exact h.odd k

theorem WellFormed.rdataOdd (h : q.WellFormed) : q.rdataOdd.WellDecoded := by
  unfold IssueQueue.rdataOdd
  split
  · exact h.odd _
  · exact wellDecoded_zero

theorem WellFormed.rdataEven (h : q.WellFormed) : q.rdataEven.WellDecoded := by
  unfold IssueQueue.rdataEven
  split
  · exact h.even _
  · exact wellDecoded_zero

theorem WellFormed.candidate1 (h : q.WellFormed) : q.candidate1.WellDecoded := by
  unfold IssueQueue.candidate1
  split
  · exact h.rdataOdd
  · exact h.rdataEven

theorem WellFormed.candidate2 (h : q.WellFormed) : q.candidate2.WellDecoded := by
  unfold IssueQueue.candidate2
  split
  · exact h.rdataEven
  · exact h.rdataOdd

/-- An empty queue has no candidates. -/
theorem candidates_of_queEmpty (h : q.queEmpty = true) :
    q.candidate1 = {} ∧ q.candidate2 = {} := by
  simp only [queEmpty, Bool.and_eq_true, beq_iff_eq] at h
  simp [IssueQueue.candidate1, IssueQueue.candidate2, IssueQueue.rdataOdd,
    IssueQueue.rdataEven, h]

/-- The test for an empty queue changes nothing: without candidates nothing issues. -/
theorem dataI_eq (b : Pair PortBypass) (rd1 rd2 : Pair Word) :
    q.dataI b rd1 rd2 = issueGroup q.candidate1 q.candidate2 b rd1 rd2 := by
  by_cases h : q.queEmpty = true
  · obtain ⟨h1, h2⟩ := candidates_of_queEmpty h
    simp [dataI, h, h1, h2, issueGroup, issueEn1, issueEn2]
  · simp [dataI, h]

end IssueQueue

section Together

variable {c1 c2 : DecodeData} {b : Pair PortBypass}

/-- What the younger candidate may assume about its companion: everything `issueEn2`
rules out, under the names of the control bits. -/
structure IssuedTogether (c1 c2 : DecodeData) : Prop where
  valid1 : c1.valid = true
  valid2 : c2.valid = true
  hazard : pairHazard c1 c2 = false
  multi : (c1.ctl.multiOp && c2.ctl.multiOp) = false
  cp0write1 : c1.ctl.cp0write = false
  cp0write2 : c2.ctl.cp0write = false
  branch2 : c2.ctl.branch = false
  jump2 : c2.ctl.jump = false
  ctype1 : c1.cp0Ctl.ctype ≠ .exception ∧ c1.cp0Ctl.ctype ≠ .eret
  single1 : c1.ctl.singleIssue = false
  single2 : c2.ctl.singleIssue = false

theorem issueEn2_together (h : issueEn2 c1 c2 b = true) : IssuedTogether c1 c2 := by
  simp only [issueEn2, Bool.and_eq_true, Bool.not_eq_true', Bool.or_eq_false_iff,
    Bool.not_eq_false', beq_eq_false_iff_ne] at h
  obtain ⟨⟨h2, -⟩, ⟨⟨⟨⟨⟨⟨⟨⟨⟨⟨⟨⟨hz, hm⟩, hc1⟩, hc2⟩, he1⟩, hb⟩, hj⟩, -⟩, -⟩, -⟩, ht⟩, hs1⟩, hs2⟩⟩ := h
  have h1 : c1.valid = true := by
    simp only [issueEn1, Bool.and_eq_true] at he1
    exact he1.1.1
  exact ⟨h1, h2, hz, hm, hc1, hc2, hb, hj, ht, hs1, hs2⟩

theorem issueEn1_of_issueEn2 (h : issueEn2 c1 c2 b = true) : issueEn1 c1 c2 b = true := by
  simp only [issueEn2, Bool.and_eq_true, Bool.not_eq_true', Bool.or_eq_false_iff,
    Bool.not_eq_false'] at h
  obtain ⟨-, ⟨⟨⟨⟨⟨⟨⟨⟨-, he1⟩, -⟩, -⟩, -⟩, -⟩, -⟩, -⟩, -⟩, -⟩ := h
  exact he1

end Together

end FrailCPU
