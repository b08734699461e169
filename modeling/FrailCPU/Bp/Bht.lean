import FrailCPU.Execute.Execute
import FrailCPU.Decode.Facts

/-!
# The branch history table

`bht.sv`: 2 ways of 8 sets. An entry keeps the target of a branch, one bit of history and a
counter for each value of it. The table is looked up with the address of the fetch and written
with the instruction in M1. An entry that is found is trained in every cycle in which its
instruction stands there, and a branch that is not found takes the way that the replacement bit
of the set of the *fetch* names.
-/

namespace FrailCPU

/-- The history bit and the counters of `bh_data_t`. -/
structure History where
  bhr : Bool := false
  counter0 : BitVec 2 := 0#2
  counter1 : BitVec 2 := 0#2
  deriving DecidableEq

/-- `bh_data_t`. -/
structure BhtData where
  pc : Word := 0#32
  history : History := {}
  deriving DecidableEq

/-- `meta_t` of `bht.sv`. -/
structure BhtInfo where
  valid : Bool := false
  tag : BitVec 18 := 0#18
  deriving DecidableEq

abbrev BhtIndex := BitVec 3

abbrev BhtWay := Bool

/-- `get_tag` of `bht.sv`. -/
def bhtTag (addr : Word) : BitVec 18 := addr.extractLsb' 2 18

/-- `get_index` of `bht.sv`. -/
def bhtIndex (addr : Word) : BhtIndex := addr.extractLsb' 15 3

namespace History

variable (h : History)

def counter (b : Bool) : BitVec 2 := if b then h.counter1 else h.counter0

/-- `dpre`. -/
def predicts : Bool := (h.counter h.bhr).getLsbD 1

/-- `w_counter`. The counter is the one of `is_taken`, not the one of the history. -/
def wCounter (isTaken : Bool) : BitVec 2 :=
  match h.counter isTaken with
  | 0#2 => if isTaken then 1#2 else 0#2
  | 1#2 => if isTaken then 2#2 else 0#2
  | 2#2 => if isTaken then 3#2 else 1#2
  | _ => if isTaken then 3#2 else 2#2

/-- `w_pc_replace.counter` and `w_pc_replace.bhr`. -/
def write (isTaken inBht : Bool) : History where
  bhr := if inBht then isTaken else true
  counter0 := if isTaken then h.counter0 else if inBht then h.wCounter isTaken else 3#2
  counter1 := if isTaken then if inBht then h.wCounter isTaken else 3#2 else h.counter1

end History

structure Bht where
  metaRam : BhtIndex → BhtWay → BhtInfo := fun _ _ => {}
  dataRam : BhtIndex → BhtWay → BhtData := fun _ _ => {}
  plruRam : BhtIndex → BhtWay := fun _ => false

structure BhtInput where
  isWrite : Bool := false
  branchPc : Word := 0#32
  executedBranchPc : Word := 0#32
  destPc : Word := 0#32
  isTaken : Bool := false

/-- The way that the search loop leaves behind: the last one that matches. -/
def matchLine (m : BhtWay → BhtInfo) (t : BitVec 18) : Option BhtWay :=
  if (m true).valid && (m true).tag == t then some true
  else if (m false).valid && (m false).tag == t then some false
  else none

namespace Bht

variable (s : Bht)

/-- `pc_hit` and `pc_hit_line`. -/
def pcHitLine (branchPc : Word) : Option BhtWay :=
  matchLine (s.metaRam (bhtIndex branchPc)) (bhtTag branchPc)

/-- `pcp4_hit` and `pcp4_hit_line`, in the set of `branch_pc`. -/
def pcp4HitLine (branchPc : Word) : Option BhtWay :=
  matchLine (s.metaRam (bhtIndex branchPc)) (bhtTag (branchPc + 4#32))

def hit (branchPc : Word) : Bool :=
  (s.pcp4HitLine branchPc).isSome || (s.pcHitLine branchPc).isSome

def hitLine (branchPc : Word) : BhtWay :=
  match s.pcHitLine branchPc with
  | some w => w
  | none => (s.pcp4HitLine branchPc).getD false

/-- `r_pc_predict`. -/
def predicted (branchPc : Word) : BhtData :=
  s.dataRam (bhtIndex branchPc) (s.hitLine branchPc)

def predictPc (branchPc : Word) : Word :=
  if s.hit branchPc then (s.predicted branchPc).pc else 0#32

def dpre (branchPc : Word) : Bool := (s.predicted branchPc).history.predicts

variable (i : BhtInput)

/-- `in_bht` and `in_bht_line`. -/
def inBht : Option BhtWay :=
  matchLine (s.metaRam (bhtIndex i.executedBranchPc)) (bhtTag i.executedBranchPc)

def replaceLine : BhtWay := s.plruRam (bhtIndex i.branchPc)

/-- `replace_addr.line`. -/
def replaceAddrLine : BhtWay := (s.inBht i).getD (s.replaceLine i)

/-- `w_meta`. -/
def wMeta : BhtWay → BhtInfo := fun w =>
  if (s.inBht i).isNone && i.isWrite && w == s.replaceLine i then
    ⟨true, bhtTag i.executedBranchPc⟩
  else s.metaRam (bhtIndex i.executedBranchPc) w

/-- `w_pc_replace`. -/
def wPcReplace : BhtData :=
  let r := s.dataRam (bhtIndex i.executedBranchPc) (s.replaceAddrLine i)
  { pc := if (s.inBht i).isNone && i.isWrite then i.destPc else r.pc
    history := r.history.write i.isTaken (s.inBht i).isSome }

/-- A clock edge with `resetn` high. -/
def step : Bht where
  metaRam := Function.update s.metaRam (bhtIndex i.executedBranchPc) (s.wMeta i)
  dataRam :=
    if (s.inBht i).isSome || i.isWrite then
      Function.update s.dataRam (bhtIndex i.executedBranchPc)
        (Function.update (s.dataRam (bhtIndex i.executedBranchPc)) (s.replaceAddrLine i)
          (s.wPcReplace i))
    else s.dataRam
  plruRam :=
    if s.hit i.branchPc then
      Function.update s.plruRam (bhtIndex i.branchPc) (!s.hitLine i.branchPc)
    else s.plruRam

end Bht

/-! ### The predictor of the fetch -/

/-- What `jht` or `rpct` answers to the address of the fetch. -/
structure JumpHit where
  hit : Bool := false
  hitPc : Bool := false

/-- `f1_taken` of `bpu.sv`. -/
def f1Taken (s : Bht) (jht rpct : JumpHit) (f1Pc : Word) : Bool :=
  if rpct.hit || jht.hit then true
  else if s.hit f1Pc then s.dpre f1Pc
  else false

/-- `pos` of `bpu.sv`. -/
def hitPos (s : Bht) (jht rpct : JumpHit) (f1Pc : Word) : Bool :=
  (s.pcHitLine f1Pc).isSome || rpct.hitPc || jht.hitPc

/-- `pre_b`, as the fetch record takes it. -/
def preBOf (s : Bht) (jht rpct : JumpHit) (f1Pc : Word) : Bool :=
  f1Taken s jht rpct f1Pc && !(f1Taken s jht rpct f1Pc && !hitPos s jht rpct f1Pc)

/-- What `MyCore.sv` connects to the table: the address of the fetch, and the instruction that
stands in M1, with its record in E and its operands there. -/
structure BhtCycle where
  f1Pc : Word
  dataI : IssueData
  operands : Operands
  coherent : dataI.ctl.Coherent

def BhtCycle.input (c : BhtCycle) : BhtInput where
  isWrite := c.dataI.ctl.branch
  branchPc := c.f1Pc
  executedBranchPc := c.dataI.pc
  destPc := destPcOf c.dataI c.operands
  isTaken := branchTakenOf c.dataI c.operands

def Bht.cycle (s : Bht) (c : BhtCycle) : Bht := s.step c.input

/-! ### One entry -/

/-- The entry of the branch at `pc`, and its way. -/
def Bht.entry (s : Bht) (pc : Word) : Option (BhtWay × BhtData) :=
  (s.pcHitLine pc).map fun w => (w, s.dataRam (bhtIndex pc) w)

section Entry

variable {s : Bht} {i : BhtInput} {pc : Word} {w : BhtWay} {e : BhtData}

theorem matchLine_spec {m : BhtWay → BhtInfo} {t : BitVec 18} (h : matchLine m t = some w) :
    (m w).valid = true ∧ (m w).tag = t := by
  rw [matchLine] at h
  split_ifs at h with h1 h2
  · cases h
    rwa [Bool.and_eq_true, beq_iff_eq] at h1
  · cases h
    rwa [Bool.and_eq_true, beq_iff_eq] at h2

/-- An entry of another tag in the other way does not hide the match. -/
theorem matchLine_update {m : BhtWay → BhtInfo} {t : BitVec 18} (h : matchLine m t = some w)
    {x : BhtWay} (hx : x ≠ w) {info : BhtInfo} (ht : info.tag ≠ t) :
    matchLine (Function.update m x info) t = some w := by
  have hm := matchLine_spec h
  have hne : (info.tag == t) = false := beq_eq_false_iff_ne.mpr ht
  cases w with
  | true =>
      rw [matchLine, Function.update_of_ne (Ne.symm hx), hm.1, hm.2, beq_self_eq_true]
      rfl
  | false =>
      have hxt : x = true := by simpa using hx
      rw [matchLine, hxt, Function.update_self, hne, Bool.and_false, if_neg Bool.false_ne_true,
        Function.update_of_ne (by decide), hm.1, hm.2, beq_self_eq_true]
      rfl

theorem Bht.entry_eq_some : s.entry pc = some (w, e) ↔
    s.pcHitLine pc = some w ∧ s.dataRam (bhtIndex pc) w = e := by
  rw [Bht.entry, Option.map_eq_some_iff]
  constructor
  · rintro ⟨v, hv, he⟩
    cases he
    exact ⟨hv, rfl⟩
  · rintro ⟨hv, he⟩
    exact ⟨w, hv, by rw [he]⟩

/-- An entry is trained when its instruction stands in M1. -/
theorem Bht.entry_of_trained (h : s.entry pc = some (w, e)) (hp : i.executedBranchPc = pc) :
    (s.step i).entry pc = some (w, { e with history := e.history.write i.isTaken true }) := by
  rw [Bht.entry_eq_some] at h ⊢
  obtain ⟨hw, he⟩ := h
  have hin : s.inBht i = some w := by
    rw [inBht, hp]
    exact hw
  have hmeta : (s.step i).metaRam = s.metaRam := by
    have hm : s.wMeta i = s.metaRam (bhtIndex i.executedBranchPc) := by
      funext v
      rw [wMeta, hin]
      rfl
    change Function.update _ _ _ = _
    rw [hm, Function.update_eq_self]
  constructor
  · rw [pcHitLine, hmeta]
    exact hw
  · have hline : s.replaceAddrLine i = w := by rw [replaceAddrLine, hin]; rfl
    change (if (s.inBht i).isSome || i.isWrite then _ else _ : BhtIndex → BhtWay → BhtData) _ _ = _
    rw [hin, Option.isSome_some, Bool.true_or, if_pos rfl, hline, hp, Function.update_self,
      Function.update_self, wPcReplace, hline, hin, hp, he]
    rfl

/-- The instruction in M1 leaves the entry of `pc` in way `w` alone: it has another tag, and
does not take the way. -/
def Bht.Spares (s : Bht) (pc : Word) (w : BhtWay) (i : BhtInput) : Prop :=
  bhtTag i.executedBranchPc ≠ bhtTag pc ∧
    (i.isWrite = true → s.inBht i = none → bhtIndex i.executedBranchPc = bhtIndex pc →
      s.replaceLine i ≠ w)

theorem Bht.wMeta_eq : s.wMeta i = if (s.inBht i).isNone && i.isWrite then
    Function.update (s.metaRam (bhtIndex i.executedBranchPc)) (s.replaceLine i)
      ⟨true, bhtTag i.executedBranchPc⟩
    else s.metaRam (bhtIndex i.executedBranchPc) := by
  funext v
  rw [wMeta]
  cases (s.inBht i).isNone && i.isWrite with
  | false => rfl
  | true =>
      rw [if_pos rfl, Function.update_apply, Bool.true_and]
      exact if_congr beq_iff_eq rfl rfl

/-- What is written in the set of an entry that is spared is the other way. -/
theorem Bht.replaceAddrLine_ne (hw : s.pcHitLine pc = some w) (hs : s.Spares pc w i)
    (hk : bhtIndex i.executedBranchPc = bhtIndex pc)
    (hx : ((s.inBht i).isSome || i.isWrite) = true) : s.replaceAddrLine i ≠ w := by
  rw [replaceAddrLine]
  cases hin : s.inBht i with
  | some v =>
      rintro rfl
      have hv := (matchLine_spec hin).2
      rw [hk] at hv
      exact hs.1 (hv.symm.trans (matchLine_spec hw).2)
  | none =>
      rw [hin] at hx
      exact hs.2 hx hin hk

theorem Bht.pcHitLine_of_spared (hw : s.pcHitLine pc = some w) (hs : s.Spares pc w i) :
    (s.step i).pcHitLine pc = some w := by
  change matchLine (Function.update s.metaRam _ (s.wMeta i) _) _ = _
  by_cases hk : bhtIndex i.executedBranchPc = bhtIndex pc
  · rw [hk, Function.update_self, wMeta_eq, hk]
    split
    · rename_i hx
      rw [Bool.and_eq_true, Option.isNone_iff_eq_none] at hx
      exact matchLine_update hw (hs.2 hx.2 hx.1 hk) hs.1
    · exact hw
  · rw [Function.update_of_ne (Ne.symm hk)]
    exact hw

theorem Bht.entry_of_spared (h : s.entry pc = some (w, e)) (hs : s.Spares pc w i) :
    (s.step i).entry pc = some (w, e) := by
  rw [Bht.entry_eq_some] at h ⊢
  obtain ⟨hw, he⟩ := h
  refine ⟨pcHitLine_of_spared hw hs, ?_⟩
  change (if (s.inBht i).isSome || i.isWrite then _ else _ : BhtIndex → BhtWay → BhtData) _ _ = _
  split
  · rename_i hx
    by_cases hk : bhtIndex i.executedBranchPc = bhtIndex pc
    · rw [hk, Function.update_self, Function.update_of_ne (Ne.symm (replaceAddrLine_ne hw hs hk hx))]
      exact he
    · rw [Function.update_of_ne (Ne.symm hk)]
      exact he
  · exact he

/-- A branch with an entry is predicted by it, unless another table knows the address. -/
theorem preBOf_entry (h : s.entry pc = some (w, e)) : preBOf s {} {} pc = e.history.predicts := by
  rw [Bht.entry_eq_some] at h
  have hhit : s.hit pc = true := by rw [Bht.hit, h.1, Option.isSome_some, Bool.or_true]
  have hline : s.hitLine pc = w := by rw [Bht.hitLine, h.1]
  have htaken : f1Taken s {} {} pc = e.history.predicts := by
    rw [f1Taken, hhit, Bht.dpre, Bht.predicted, hline, h.2]
    rfl
  have hpos : hitPos s {} {} pc = true := by rw [hitPos, h.1]; rfl
  rw [preBOf, htaken, hpos]
  cases e.history.predicts <;> rfl

end Entry

end FrailCPU
