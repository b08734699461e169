import FrailCPU.Fetch.FrontEnd
import FrailCPU.Library.Machine

/-!
# The predicted path

The fetch stages without a redirect. A group is accepted in a cycle in which the fetch is
not stalled, and its words are the answer of the instruction cache in the cycle after. They
reach `dataF2` when the stages in front of the queue move, at once or out of the save
register. The run is carried together with the groups that have been accepted and with
the pairs that `dataF2` has captured.
-/

namespace FrailCPU

/-- A group of the path: what the predictor said at `pc`, and the answer of the instruction
cache. -/
structure FetchGroup where
  pc : Word
  taken : Bool
  single : Bool
  prePc : Word
  words : Pair Word := ⟨0#32, 0#32⟩
  deriving DecidableEq

namespace FetchGroup

/-- Where the path goes on: the second word was predicted, or the group was, or neither. -/
def succ (g : FetchGroup) : Word :=
  if g.single then g.pc + 4#32 else if g.taken then g.prePc else g.pc + 8#32

/-- The word that is recorded for a fetch at `pc`. -/
def recorded (pc word : Word) : Word := if pcExcept pc then 0#32 else word

/-- The instructions of the group. -/
def instrs (g : FetchGroup) : List (Word × Word) :=
  (g.pc, recorded g.pc g.words.slot1) ::
    if g.single then [] else [(g.pc + 4#32, recorded g.pc g.words.slot0)]

end FetchGroup

/-- The groups follow each other from `pc` on. -/
def IsPath : Word → List FetchGroup → Prop
  | _, [] => True
  | pc, g :: gs => g.pc = pc ∧ IsPath g.succ gs

/-- Where a path from `pc` goes on. -/
def pathEnd : Word → List FetchGroup → Word
  | pc, [] => pc
  | _, g :: gs => pathEnd g.succ gs

section Path

variable {pc : Word} {gs hs : List FetchGroup}

@[simp] theorem isPath_nil : IsPath pc [] := trivial

theorem isPath_append : IsPath pc (gs ++ hs) ↔ IsPath pc gs ∧ IsPath (pathEnd pc gs) hs := by
  induction gs generalizing pc with
  | nil => simp [pathEnd]
  | cons g gs ih => rw [List.cons_append, IsPath, IsPath, ih, pathEnd, and_assoc]

theorem pathEnd_append : pathEnd pc (gs ++ hs) = pathEnd (pathEnd pc gs) hs := by
  induction gs generalizing pc with
  | nil => rfl
  | cons g gs ih => rw [List.cons_append, pathEnd, ih, pathEnd]

end Path

/-- A cycle without a redirect: any stalls and waits, any prediction, any outcomes of the
translation. -/
structure QuietCycle where
  dWait : Bool := false
  waitM : Bool := false
  eWait : Bool := false
  overflowI : Bool := false
  iWait : Bool := false
  prediction : Prediction := {}
  iTlbExc : Pair TlbExc := ⟨{}, {}⟩
  respData : Pair Word := ⟨0#32, 0#32⟩

namespace QuietCycle

variable (i : QuietCycle)

def hazardIn : HazardIn where
  dWait := i.dWait
  waitM := i.waitM
  eWait := i.eWait
  overflowI := i.overflowI
  iWait := i.iWait

def fetchInput (f : FrontEnd) : FetchInput where
  prediction := i.prediction
  hazard := i.hazardIn.front f.fihazrd
  iTlbExc := i.iTlbExc
  iWait := i.iWait
  respData := i.respData

/-- The group at `pc`, before its words are there. -/
def group (pc : Word) : FetchGroup where
  pc := pc
  taken := i.prediction.taken && i.prediction.hitBit
  single := i.prediction.taken && !i.prediction.hitBit
  prePc := i.prediction.prePc

end QuietCycle

/-- The valid pairs of a record for the decoder. -/
def validInstrs (d : Pair FetchData) : List (Word × Word) :=
  (if d.slot1.valid then [(d.slot1.pc, d.slot1.rawInstr)] else []) ++
    if d.slot0.valid then [(d.slot0.pc, d.slot0.rawInstr)] else []

/-- The fetch stages with their history: the groups that were accepted and answered, the
one that is answered in this cycle, and the pairs that `dataF2` has captured. -/
structure FetchTrace where
  front : FrontEnd
  answered : List FetchGroup := []
  awaited : Option FetchGroup := none
  captured : List (Word × Word) := []

namespace FetchTrace

variable (s : FetchTrace) (i : QuietCycle)

/-- The groups of the path after the answer of this cycle. -/
def path : List FetchGroup :=
  s.answered ++ (s.awaited.map fun g => { g with words := i.respData }).toList

/-- A clock edge. -/
def step : FetchTrace :=
  let h := i.hazardIn.front s.front.fihazrd
  let f := s.front.step (i.fetchInput s.front)
  { front := f
    answered := s.path i
    awaited := if h.stallF then none else some (i.group s.front.dataP.pc)
    captured := if h.stallD then s.captured else s.captured ++ validInstrs f.dataF2 }

/-- What `dataF2` has captured is a path from `pc`: the one of the accepted groups, with
their own answers, of which the last may still be on its way. -/
def Contiguous (pc : Word) : Prop :=
  IsPath pc s.answered ∧
    ∃ delivered rest, s.answered = delivered ++ rest ∧ rest.length ≤ 1 ∧
      s.captured = delivered.flatMap FetchGroup.instrs

end FetchTrace

/-- Nothing is on its way and nothing is saved. -/
structure FrontEnd.Fresh (f : FrontEnd) : Prop where
  cacheI : f.dataP.cacheI = false
  pcSaved : f.pcSaved = false
  icacheSaved : f.icacheSaved = false
  icachePcnxtSaved : f.icachePcnxtSaved = false
  fihazrd : f.fihazrd = false
  valid1 : f.dataF1.valid = false
  valid0 : f.dataF1.nxtValid = false

section Hazard

variable (i : QuietCycle)

theorem quiet_flushD : (i.hazardIn.front false).flushD = false ∧
    (i.hazardIn.front false).fihazrdNxt = false := by
  have h : ∀ d w e o iw : Bool,
      (HazardIn.front { dWait := d, waitM := w, eWait := e, overflowI := o, iWait := iw }
        false).flushD = false ∧
      (HazardIn.front { dWait := d, waitM := w, eWait := e, overflowI := o, iWait := iw }
        false).fihazrdNxt = false := by decide
  exact h _ _ _ _ _

/-- Stages in front of the queue either stand still together, or move on together; then a
fetch that is not accepted leaves a gap. -/
theorem quiet_stalls :
    ((i.hazardIn.front false).stallF2 = true → (i.hazardIn.front false).stallF = true ∧
      (i.hazardIn.front false).stallD = true ∧ (i.hazardIn.front false).flushF2 = false) ∧
    ((i.hazardIn.front false).stallF2 = false → (i.hazardIn.front false).stallD = false ∧
      (i.hazardIn.front false).flushF2 = (i.hazardIn.front false).stallF) ∧
    ((i.hazardIn.front false).stallF = false → i.iWait = false) := by
  have h : ∀ d w e o iw : Bool,
      let f := HazardIn.front { dWait := d, waitM := w, eWait := e, overflowI := o, iWait := iw }
        false
      (f.stallF2 = true → f.stallF = true ∧ f.stallD = true ∧ f.flushF2 = false) ∧
      (f.stallF2 = false → f.stallD = false ∧ f.flushF2 = f.stallF) ∧
      (f.stallF = false → iw = false) := by decide
  exact h _ _ _ _ _

end Hazard

section Records

theorem quiet_pcselect (pc : Word) (taken hitBit : Bool) (prePc : Word) :
    pcselect {} pc (taken && !hitBit) (taken && !(taken && !hitBit)) prePc =
      (.noForward, if taken && !hitBit then pc - 4#32 else if taken && hitBit then prePc else pc) := by
  cases taken <;> cases hitBit <;> rfl

variable {f : FrontEnd} {i : QuietCycle}

/-- The record of an accepted fetch is that of its group. -/
structure Fetch1Data.Of (d : Fetch1Data) (g : FetchGroup) : Prop where
  valid : d.valid = true
  nxtValid : d.nxtValid = !g.single
  pc : d.pc = g.pc
  excEret : d.cp0Ctl.excEret = pcExcept g.pc

theorem validInstrs_of {d : Fetch1Data} {g : FetchGroup} (h : d.Of g) :
    validInstrs (dataF2Nxt d g.words) = g.instrs := by
  simp only [validInstrs, dataF2Nxt, FetchGroup.instrs, FetchGroup.recorded, h.valid, h.nxtValid,
    h.pc, h.excEret]
  cases g.single <;> rfl

theorem validInstrs_invalid {d : Fetch1Data} (h1 : d.valid = false) (h0 : d.nxtValid = false)
    (words : Pair Word) : validInstrs (dataF2Nxt d words) = [] := by
  simp [validInstrs, dataF2Nxt, h1, h0]

theorem dataF1Nxt_of (hc : f.dataP.cacheI = false) (hs : f.icacheSaved = false)
    (hw : i.iWait = false) :
    (dataF1Nxt f.dataP i.iTlbExc (f.env (i.fetchInput f))).Of (i.group f.dataP.pc) where
  valid := by simp [dataF1Nxt, FrontEnd.env, QuietCycle.fetchInput, hc, hs, hw]
  nxtValid := by
    simp [dataF1Nxt, FrontEnd.env, QuietCycle.fetchInput, QuietCycle.group, FetchEnv.zeroPrej, hc,
      hs, hw]
  pc := rfl
  excEret := rfl

/-- Without a redirect the fetch goes on behind its group. -/
theorem quiet_selected :
    f.selected (i.fetchInput f) = (.noForward, (i.group f.dataP.pc).succ) := by
  have h4 : f.dataP.pc + 8#32 - 4#32 = f.dataP.pc + 4#32 := by
    rw [BitVec.sub_eq_add_neg, BitVec.add_assoc]
    rfl
  rw [FetchGroup.succ, QuietCycle.group, ← h4]
  exact quiet_pcselect _ _ _ _

theorem dataPNxt_quiet (hs : f.pcSaved = false) (hn : f.icachePcnxtSaved = false) :
    f.dataPNxt (i.fetchInput f) = { pc := (i.group f.dataP.pc).succ, cacheI := false } := by
  rw [FrontEnd.dataPNxt, hs, hn, quiet_selected]
  rfl

end Records

namespace FetchTrace

variable {s : FetchTrace} {i : QuietCycle} {pc : Word}

/-- What F1 holds: nothing, or the last group, whose words are either saved or come with
the answer of this cycle. -/
def Flight (s : FetchTrace) : Prop :=
  (s.front.dataF1.valid = false ∧ s.front.dataF1.nxtValid = false ∧ s.awaited = none ∧
      s.captured = s.answered.flatMap FetchGroup.instrs) ∨
    (∃ g, s.awaited = some g ∧ s.front.dataF1.Of g ∧ s.front.rawInstrSave = none ∧
      s.captured = s.answered.flatMap FetchGroup.instrs) ∨
    ∃ done g, s.awaited = none ∧ s.answered = done ++ [g] ∧ s.front.dataF1.Of g ∧
      s.front.rawInstrSave = some g.words ∧ s.captured = done.flatMap FetchGroup.instrs

/-- The accepted groups are a path, and the program counter stands at its end. -/
structure OnPath (s : FetchTrace) (pc : Word) : Prop where
  path : IsPath pc (s.answered ++ s.awaited.toList)
  dataP : s.front.dataP.pc = pathEnd pc (s.answered ++ s.awaited.toList)
  cacheI : s.front.dataP.cacheI = false
  pcSaved : s.front.pcSaved = false
  icacheSaved : s.front.icacheSaved = false
  icachePcnxtSaved : s.front.icachePcnxtSaved = false
  fihazrd : s.front.fihazrd = false
  flight : s.Flight

/-- The answer of the cycle changes no program counter. -/
theorem OnPath.path_answered (h : s.OnPath pc) :
    IsPath pc (s.path i) ∧ s.front.dataP.pc = pathEnd pc (s.path i) := by
  have hp := h.path
  have hd := h.dataP
  rw [FetchTrace.path]
  cases hw : s.awaited with
  | none =>
      rw [hw] at hp hd
      exact ⟨hp, hd⟩
  | some g =>
      rw [hw] at hp hd
      rw [isPath_append] at hp
      rw [pathEnd_append] at hd
      rw [isPath_append, pathEnd_append]
      exact ⟨hp, hd⟩

/-- With the answer of the cycle, F1 holds nothing or the last group with its words. -/
theorem Flight.answered (h : s.Flight) :
    (s.front.dataF1.valid = false ∧ s.front.dataF1.nxtValid = false ∧
        s.captured = (s.path i).flatMap FetchGroup.instrs) ∨
      ∃ done g, s.path i = done ++ [g] ∧ s.front.dataF1.Of g ∧
        instrWords i.respData s.front.rawInstrSave = g.words ∧
        s.captured = done.flatMap FetchGroup.instrs := by
  rcases h with ⟨h1, h0, hw, hc⟩ | ⟨g, hw, hg, hr, hc⟩ | ⟨done, g, hw, ha, hg, hr, hc⟩
  · left
    refine ⟨h1, h0, ?_⟩
    rw [FetchTrace.path, hw, hc]
    simp
  · right
    refine ⟨s.answered, { g with words := i.respData }, by rw [FetchTrace.path, hw]; rfl,
      ⟨hg.valid, hg.nxtValid, hg.pc, hg.excEret⟩, by rw [hr]; rfl, hc⟩
  · right
    exact ⟨done, g, by rw [FetchTrace.path, hw, ha]; simp, hg, by rw [hr]; rfl, hc⟩

/-- The pairs that `dataF2` captures are those of the group in F1. -/
theorem Flight.captures (h : s.Flight) :
    s.captured ++ validInstrs (dataF2Nxt s.front.dataF1
        (instrWords i.respData s.front.rawInstrSave)) =
      (s.path i).flatMap FetchGroup.instrs := by
  rcases h.answered (i := i) with ⟨h1, h0, hc⟩ | ⟨done, g, hp, hg, hw, hc⟩
  · rw [validInstrs_invalid h1 h0, List.append_nil, hc]
  · rw [hw, validInstrs_of hg, hp, hc, List.flatMap_append]
    simp

theorem OnPath.step (h : s.OnPath pc) : (s.step i).OnPath pc := by
  obtain ⟨hp, hd⟩ := h.path_answered (i := i)
  obtain ⟨hfd, hfi⟩ := quiet_flushD i
  obtain ⟨hstall, hmove, hacc⟩ := quiet_stalls i
  have hh : (i.fetchInput s.front).hazard = i.hazardIn.front false := by
    rw [QuietCycle.fetchInput, h.fihazrd]
  have hsaves : s.front.saves (i.fetchInput s.front) = false := by
    rw [FrontEnd.saves, quiet_selected]
    exact Bool.and_false _
  have hpcS : (s.step i).front.pcSaved = false := by
    simp [FetchTrace.step, FrontEnd.step, hsaves, h.pcSaved]
  have hicS : (s.step i).front.icacheSaved = false := by
    simp [FetchTrace.step, FrontEnd.step, hsaves, h.icacheSaved]
  have hpnS : (s.step i).front.icachePcnxtSaved = false := by
    simp [FetchTrace.step, FrontEnd.step, QuietCycle.fetchInput, h.icachePcnxtSaved]
  have hfih : (s.step i).front.fihazrd = false := by
    simp only [FetchTrace.step, FrontEnd.step, hh]
    exact hfi
  have hcap : (i.hazardIn.front false).stallD = false → (s.step i).captured =
      (s.path i).flatMap FetchGroup.instrs := by
    intro hsd
    simp only [FetchTrace.step, FrontEnd.step, hh, h.fihazrd, hsd, hfd, pipereg2]
    exact h.flight.captures
  cases hF : (i.hazardIn.front false).stallF with
  | false =>
      have hF2 : (i.hazardIn.front false).stallF2 = false := by
        rw [Bool.eq_false_iff]
        intro h2
        rw [(hstall h2).1] at hF
        cases hF
      have haw : (s.step i).awaited = some (i.group s.front.dataP.pc) := by
        simp [FetchTrace.step, h.fihazrd, hF]
      have hpc : (s.step i).front.dataP =
          { pc := (i.group s.front.dataP.pc).succ, cacheI := false } := by
        simp only [FetchTrace.step, FrontEnd.step, hh, hF]
        exact dataPNxt_quiet h.pcSaved h.icachePcnxtSaved
      have hF1 : (s.step i).front.dataF1.Of (i.group s.front.dataP.pc) := by
        simp only [FetchTrace.step, FrontEnd.step, hh, hF2, (hmove hF2).2, hF, pipereg2]
        exact dataF1Nxt_of h.cacheI h.icacheSaved (hacc hF)
      have hraw : (s.step i).front.rawInstrSave = none := by
        simp [FetchTrace.step, FrontEnd.step, hh, hF2]
      refine ⟨?_, ?_, by rw [hpc], hpcS, hicS, hpnS, hfih,
        Or.inr (Or.inl ⟨_, haw, hF1, hraw, hcap (hmove hF2).1⟩)⟩
      · rw [haw]
        exact isPath_append.mpr ⟨hp, hd, trivial⟩
      · rw [haw, pathEnd_append, hpc]
        rfl
  | true =>
      have haw : (s.step i).awaited = none := by simp [FetchTrace.step, h.fihazrd, hF]
      have hpc : (s.step i).front.dataP = s.front.dataP := by
        simp only [FetchTrace.step, FrontEnd.step, hh, hF, if_true]
      have hanswered : (s.step i).answered ++ (s.step i).awaited.toList = s.path i := by
        rw [haw]
        exact List.append_nil _
      refine ⟨by rw [hanswered]; exact hp, by rw [hanswered, hpc]; exact hd,
        by rw [hpc]; exact h.cacheI, hpcS, hicS, hpnS, hfih, ?_⟩
      cases hF2 : (i.hazardIn.front false).stallF2 with
      | false =>
          -- the wait of the instruction cache: what F1 held moves on, and a gap follows
          have hF1 : (s.step i).front.dataF1 = {} := by
            simp only [FetchTrace.step, FrontEnd.step, hh, (hmove hF2).2, hF, pipereg2, if_true]
          exact Or.inl ⟨by rw [hF1], by rw [hF1], haw, hcap (hmove hF2).1⟩
      | true =>
          obtain ⟨-, hsd, hf2⟩ := hstall hF2
          have hF1 : (s.step i).front.dataF1 = s.front.dataF1 := by
            simp only [FetchTrace.step, FrontEnd.step, hh, hF2, hf2, pipereg2, if_true]
            rfl
          have hc : (s.step i).captured = s.captured := by
            simp [FetchTrace.step, h.fihazrd, hsd]
          have hraw : (s.step i).front.rawInstrSave =
              some (instrWords i.respData s.front.rawInstrSave) := by
            simp only [FetchTrace.step, FrontEnd.step, hh, hF2, instrWords]
            cases s.front.rawInstrSave <;> rfl
          rcases h.flight.answered (i := i) with ⟨h1, h0, hca⟩ | ⟨done, g, hpa, hg, hw, hca⟩
          · exact Or.inl ⟨by rw [hF1]; exact h1, by rw [hF1]; exact h0, haw, hc.trans hca⟩
          · exact Or.inr (Or.inr ⟨done, g, haw, hpa, by rw [hF1]; exact hg, by rw [hraw, hw],
              hc.trans hca⟩)

theorem OnPath.contiguous (h : s.OnPath pc) : s.Contiguous pc := by
  refine ⟨(isPath_append.mp h.path).1, ?_⟩
  rcases h.flight with ⟨-, -, -, hc⟩ | ⟨g, -, -, -, hc⟩ | ⟨done, g, -, ha, -, -, hc⟩
  · exact ⟨s.answered, [], by simp, by simp, hc⟩
  · exact ⟨s.answered, [], by simp, by simp, hc⟩
  · exact ⟨done, [g], ha, by simp, hc⟩

end FetchTrace

/-- In every run without a redirect, from any state in which nothing is on its way, the
pairs that `dataF2` captures are one path from the program counter. -/
theorem fetch_contiguous (f : FrontEnd) (hf : f.Fresh) (is : List QuietCycle) :
    (ClockedMachine.run FetchTrace.step { front := f } is).Contiguous f.dataP.pc := by
  have h : FetchTrace.OnPath { front := f } f.dataP.pc :=
    { path := trivial
      dataP := rfl
      cacheI := hf.cacheI
      pcSaved := hf.pcSaved
      icacheSaved := hf.icacheSaved
      icachePcnxtSaved := hf.icachePcnxtSaved
      fihazrd := hf.fihazrd
      flight := Or.inl ⟨hf.valid1, hf.valid0, rfl, rfl⟩ }
  have hrun : (ClockedMachine.run FetchTrace.step { front := f } is).OnPath f.dataP.pc :=
    ClockedMachine.run_invariant (P := fun s : FetchTrace => s.OnPath f.dataP.pc) (fun _ _ hs => hs.step) h is
  exact hrun.contiguous

theorem fresh_reset : ({} : FrontEnd).Fresh := ⟨rfl, rfl, rfl, rfl, rfl, rfl, rfl⟩

/-- The words of the first group arrive in a stall and are captured after it. -/
def stalledCycles : List QuietCycle :=
  [{}, { dWait := true, respData := ⟨1#32, 2#32⟩ }, { respData := ⟨3#32, 4#32⟩ }]

theorem fetch_contiguous_stalled :
    (ClockedMachine.run FetchTrace.step { front := {} } stalledCycles).captured =
        [(0xbfc00000#32, 1#32), (0xbfc00004#32, 2#32)] ∧
      (ClockedMachine.run FetchTrace.step { front := {} } stalledCycles).Contiguous
        0xbfc00000#32 :=
  ⟨by decide, fetch_contiguous {} fresh_reset stalledCycles⟩

end FrailCPU
