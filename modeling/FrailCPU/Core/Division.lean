import FrailCPU.Core.Flight
import FrailCPU.Core.Hilo

/-!
# The divider beside the pipeline

The core together with the registers of `multi.sv` and `div.sv`, which give it `e_wait`
and the results. The divider is told neither of a squash nor of a new operand: it goes on
with what it has begun. Its result is that of the instruction in E as long as the
instruction stays there, and the operands with it, until the division is done. With the
operands held it divides their magnitudes in 33 cycles, and E gives the results the signs.
-/

namespace FrailCPU

section Held

/-- The low word is the quotient of the operands, truncated toward zero, and the high word
their remainder, which has the sign of the dividend. Only the quotient of `-2^31` by `-1` is
no number of 32 bits. -/
structure Truncates (x : BitVec 64) (a b : Word) : Prop where
  lo : x.extractLsb' 0 32 = BitVec.ofInt 32 (a.toInt.tdiv b.toInt)
  hi : (x.extractLsb' 32 32).toInt = a.toInt.tmod b.toInt

theorem sdiv_eq_ofInt (a b : Word) : a.sdiv b = BitVec.ofInt 32 (a.toInt.tdiv b.toInt) := by
  apply BitVec.eq_of_toInt_eq
  rw [BitVec.toInt_sdiv, BitVec.toInt_ofInt]

theorem truncates_divOf (a b : Word) : Truncates (divOf true ⟨a, b⟩) a b where
  lo := by
    have hlo : (a.srem b ++ a.sdiv b : BitVec 64).extractLsb' 0 32 = a.sdiv b :=
      congrArg HiLo.lo (HiLo.ofBits_append _ _)
    rw [divOf, if_pos rfl]
    exact hlo.trans (sdiv_eq_ofInt a b)
  hi := by
    have hhi : (a.srem b ++ a.sdiv b : BitVec 64).extractLsb' 32 32 = a.srem b :=
      congrArg HiLo.hi (HiLo.ofBits_append _ _)
    rw [divOf, if_pos rfl]
    exact (congrArg BitVec.toInt hhi).trans (BitVec.toInt_srem a b)

/-- The results differ from those of a division at rest only in the product. -/
theorem hiloData_of_divc {dataI : Pair IssueData} {rd : Pair Operands} {u u' : MulDivResult}
    (hm : (dataI.slot1.ctl.mul || dataI.slot0.ctl.mul) = false) (h : u.divc = u'.divc) :
    hiloData dataI rd u = hiloData dataI rd u' := by
  simp only [hiloData, hm, h]
  rfl

/-- With the operands held from a cycle in which it is at rest and `valid` is set, the divider
raises `done` in the 33rd cycle for the first time, and then has the remainder and the
quotient. With the magnitudes and the signs of E a signed division truncates. -/
theorem divider_divides (d : Divider) (hd : d.state = .init) (valid : ℕ → Bool)
    (hv : valid 0 = true) :
    (∀ a b : Word, b ≠ 0#32 → d.Divides valid a b) ∧
      ∀ (dataI : Pair IssueData) (rd : Pair Operands) (multc : BitVec 64),
        (dataI.slot1.ctl.mul || dataI.slot0.ctl.mul) = false →
        (dataI.slot1.ctl.div || dataI.slot0.ctl.div) = true →
        signedMulDivOf dataI = true → multib dataI rd ≠ 0#32 →
        Truncates
          (hiloData dataI rd
            { multc, divc := (d.held valid (unitA dataI rd) (unitB dataI rd) 33).c })
          (multia dataI rd) (multib dataI rd) := by
  refine ⟨fun a b hb => Divider.divides_of_init hd hv hb, ?_⟩
  intro dataI rd multc hm hdiv hsigned hb
  have hub : unitB dataI rd ≠ 0#32 := unitB_ne_zero dataI rd hb
  have hc : (d.held valid (unitA dataI rd) (unitB dataI rd) 33).c =
      (unitResult dataI rd).divc :=
    (Divider.divides_of_init hd hv hub).c.trans (Divider.c_iterate hub).symm
  rw [hiloData_of_divc hm hc, hiloData_div dataI rd hm hdiv hb, hsigned]
  exact truncates_divOf (multia dataI rd) (multib dataI rd)

/-- `DIV` in slot 1. -/
def divideGroup : Pair IssueData := ⟨{ ctl := { div := true, signedMulDiv := true } }, {}⟩

/-- A divisor above `2^31`, and `-2^31` by `-1`. -/
theorem divider_divides_intMin :
    Divider.Divides {} (fun _ => true) 0xffffffff#32 0xfffffffe#32 ∧
      Truncates
        (hiloData divideGroup ⟨⟨0x80000000#32, 0xffffffff#32⟩, {}⟩
          { divc := (Divider.held {} (fun _ => true) 0x80000000#32 1#32 33).c })
        0x80000000#32 0xffffffff#32 :=
  ⟨(divider_divides {} rfl (fun _ => true) rfl).1 _ _ (by decide),
    (divider_divides {} rfl (fun _ => true) rfl).2 divideGroup
      ⟨⟨0x80000000#32, 0xffffffff#32⟩, {}⟩ 0#64 rfl rfl rfl (by decide)⟩

end Held

/-- A word that was fetched and put into the queue with its prediction. -/
structure Queued where
  fetched : FetchData := {}
  preB : Bool := false
  prePc : Word := 0#32

def Queued.candidate (q : Queued) : Candidate :=
  ⟨decodeSlot q.fetched q.preB q.prePc, decodeSlot_wellDecoded _ _ _⟩

theorem Queued.candidate_fetched (q : Queued) : q.candidate.val.Fetched := ⟨_, _, _, rfl⟩

/-- The core with the registers of its two units. -/
structure UnitCore where
  core : CoreState := {}
  mul : Multiplier := {}
  div : Divider := {}

/-- What the core reads in a cycle, less what the units answer. -/
structure UnitInput where
  queued : Pair Queued := ⟨{}, {}⟩
  iWait : Bool := false
  dWait : Bool := false
  respData : Pair Word := ⟨0#32, 0#32⟩
  extInt : BitVec 6 := 0#6

/-- Nothing at the head of the queue, and the caches do not wait. -/
def UnitInput.idle : UnitInput := {}

/-- The word `w` at `pc`, alone at the head of the queue. -/
def UnitInput.single (w pc : Word) : UnitInput :=
  { queued := ⟨{ fetched := { valid := true, rawInstr := w, pc } }, {}⟩ }

namespace UnitCore

variable (s : UnitCore) (i : UnitInput)

/-- `mult_valid`. -/
def multValid : Bool := s.core.dataI.slot1.ctl.mul || s.core.dataI.slot0.ctl.mul

/-- `div_valid`. -/
def divValid : Bool := s.core.dataI.slot1.ctl.div || s.core.dataI.slot0.ctl.div

/-- `e_wait`. -/
def eWait : Bool :=
  (s.divValid && !s.div.done s.divValid) || (s.multValid && !s.mul.done s.multValid)

def coreInput : CoreInput where
  candidates := i.queued.map Queued.candidate
  iWait := i.iWait
  dWait := i.dWait
  eWait := s.eWait
  u := { multc := s.mul.c, divc := s.div.c }
  respData := i.respData
  extInt := i.extInt

/-- The inputs `a` and `b` of both units. -/
def a : Word := unitA s.core.dataI s.core.operands

def b : Word := unitB s.core.dataI s.core.operands

/-- A clock edge. -/
def step : UnitCore where
  core := s.core.step (s.coreInput i)
  mul := s.mul.next s.multValid s.a s.b
  div := s.div.next s.divValid s.a s.b

def hazardOut : HazardOut := s.core.hazardOut (s.coreInput i)

/-- A division is under way. -/
def dividing : Bool := s.divValid && !s.div.done s.divValid

/-- The group in E leaves it in this cycle. -/
def leavesE : Bool := !(s.hazardOut i).stallM && !(s.hazardOut i).flushM

/-- If the instruction of a slot divides, then `x` is the remainder and the quotient of its
own operands. -/
def OwnQuotient (d : IssueData) (rd : Operands) (x : BitVec 64) : Prop :=
  d.hiloInstr.divides = true → rd.rd2 ≠ 0#32 → x = divOf d.hiloInstr.signed rd

/-- A division that leaves E has its own result with it. -/
def DividesOwn : Prop :=
  s.leavesE i = true →
    OwnQuotient s.core.dataI.slot1 s.core.operands.slot1 (s.step i).core.dataE.slot1.aluOutExt ∧
    OwnQuotient s.core.dataI.slot0 s.core.operands.slot0 (s.step i).core.dataE.slot0.aluOutExt

instance (d : IssueData) (rd : Operands) (x : BitVec 64) : Decidable (OwnQuotient d rd x) :=
  inferInstanceAs (Decidable (_ → _ → _))

instance : Decidable (s.DividesOwn i) :=
  inferInstanceAs (Decidable (_ → _ ∧ _))

/-- The record whose operands the units take. -/
def unitSlot : IssueData :=
  if mulDivSlot1 s.core.dataI then s.core.dataI.slot1 else s.core.dataI.slot0

end UnitCore

/-- The youngest writer of the register behind E is a delayed one that stands in M3: its
value comes by in the next cycle. -/
def lateOperand (p : Producers) (ra : CregAddr) : Bool :=
  stageAnswer BypassInput.writes (fun _ => false) p.dataE ra <|
  stageAnswer BypassInput.writes (fun _ => false) p.dataM1 ra <|
  stageAnswer BypassInput.writes BypassInput.delayToreg p.dataM2 ra false

/-- A division that is under way is not squashed, and no operand of it comes late. -/
def UnitCore.Undisturbed (s : UnitCore) (i : UnitInput) : Prop :=
  s.dividing = true → (s.hazardOut i).flushE = false ∧
    lateOperand s.core.producers s.unitSlot.ra1 = false ∧
    lateOperand s.core.producers s.unitSlot.ra2 = false

instance (s : UnitCore) (i : UnitInput) : Decidable (s.Undisturbed i) :=
  inferInstanceAs (Decidable (_ → _ ∧ _ ∧ _))

section Hazard

theorem hazard_flushE :
    ∀ excpW dWait waitM excpM branchM eWait : Bool,
      (hazard excpW dWait waitM excpM branchM eWait).flushE = false →
        excpW = false ∧ ((dWait || waitM) = false → excpM = false ∧ branchM = false) := by
  decide

theorem hazard_leaves :
    ∀ excpW dWait waitM excpM branchM eWait : Bool,
      (!(hazard excpW dWait waitM excpM branchM eWait).stallM &&
          !(hazard excpW dWait waitM excpM branchM eWait).flushM) = true →
        eWait = false := by
  decide

variable {s : CoreState} {i : CoreInput}

theorem noSquash_of_flushE (h : (s.hazardOut i).flushE = false) : s.NoSquash i :=
  hazard_flushE _ _ _ _ _ _ h

end Hazard

section Operands

variable {p q : Producers} {ra : CregAddr}

/-- The producers one cycle later when E has stalled: those behind E have moved on, or
those in M1 and M2 have stayed, and none is new. -/
structure Producers.Stalled (p q : Producers) : Prop where
  bypassE : ∀ ra, bypassE q ra =
    (stageAnswer BypassInput.writes
      (fun a => { bypass := !a.delayToreg, data := a.data }) p.dataE ra <|
    stageAnswer BypassInput.writes
      (fun a => { bypass := !a.delayToreg, data := a.data }) p.dataM1 ra <|
    stageAnswer BypassInput.writes
      (fun a => { bypass := a.delayToreg, data := a.data }) q.dataM3 ra {})
  writes1 : ∀ ra, q.dataM3.slot1.writes ra = p.dataM2.slot1.writes ra
  writes0 : ∀ ra, q.dataM3.slot0.writes ra = p.dataM2.slot0.writes ra
  delay1 : q.dataM3.slot1.delayToreg = p.dataM2.slot1.delayToreg
  delay0 : q.dataM3.slot0.delayToreg = p.dataM2.slot0.delayToreg

/-- Unless an operand comes late, the network offers nothing that it has not offered
before. -/
theorem Producers.Stalled.offers (h : p.Stalled q) (hl : lateOperand p ra = false)
    (hb : (FrailCPU.bypassE q ra).bypass = true) :
    (FrailCPU.bypassE p ra).bypass = true ∧
      (FrailCPU.bypassE q ra).data = (FrailCPU.bypassE p ra).data := by
  rw [h.bypassE] at hb ⊢
  simp only [FrailCPU.bypassE, lateOperand, stageAnswer, h.writes0, h.writes1, h.delay0,
    h.delay1] at hb hl ⊢
  by_cases hE0 : p.dataE.slot0.writes ra = true
  · simp_all
  · by_cases hE1 : p.dataE.slot1.writes ra = true
    · simp_all
    · by_cases h10 : p.dataM1.slot0.writes ra = true
      · simp_all
      · by_cases h11 : p.dataM1.slot1.writes ra = true
        · simp_all
        · by_cases h20 : p.dataM2.slot0.writes ra = true
          · simp_all
          · by_cases h21 : p.dataM2.slot1.writes ra = true <;> simp_all

/-- A saved operand covers for an answer that has passed. -/
theorem SavedOperand.select_step (sv : SavedOperand) (rd : Word) {b b' : BypassOutput}
    (h : b'.bypass = true → b.bypass = true ∧ b'.data = b.data) :
    (sv.step true b).select b' rd = sv.select b rd := by
  cases hb : b.bypass with
  | false =>
      have hb' : b'.bypass = false := by
        rw [Bool.eq_false_iff]
        intro hx
        rw [(h hx).1] at hb
        cases hb
      simp [SavedOperand.step, SavedOperand.select, hb, hb']
  | true =>
      cases hb' : b'.bypass with
      | false => simp [SavedOperand.step, SavedOperand.select, hb, hb']
      | true => simp [SavedOperand.select, hb, hb', (h hb').2]

variable {s : CoreState} {i : CoreInput}

theorem producers_stalled (hs : s.NoSquash i) (he : i.eWait = true) :
    s.producers.Stalled (s.step i).producers := by
  by_cases hh : (i.dWait || s.waitM) = true
  · obtain ⟨-, hE, hM1, hM2, hM3⟩ := step_held hs hh
    constructor <;> simp only [CoreState.producers, CoreState.dataW, hE, hM1, hM2, hM3]
    · intro ra
      rfl
    all_goals first | rfl | exact fun _ => rfl
  · rw [Bool.not_eq_true] at hh
    obtain ⟨-, hE, hM1, hM2, hM3⟩ := step_busy hs hh he
    rw [dataM1Nxt_eq (hs.2 hh).1] at hM1
    constructor <;> simp only [CoreState.producers, CoreState.dataW, hE, hM1, hM2, hM3]
    · intro ra
      rfl
    all_goals first | rfl | exact fun _ => rfl

theorem dataI_stalled (hs : s.NoSquash i) (he : i.eWait = true) :
    (s.step i).dataI = s.dataI := by
  by_cases hh : (i.dWait || s.waitM) = true
  · exact (step_held hs hh).1
  · exact (step_busy hs (by simpa using hh) he).1

theorem saved1_stalled (he : i.eWait = true) :
    (s.step i).saved1 = s.saved1.zipWith (fun sv b => sv.step true b) s.bypassRa1E := by
  simp only [CoreState.step, he, Bool.true_or]

theorem saved2_stalled (he : i.eWait = true) :
    (s.step i).saved2 = s.saved2.zipWith (fun sv b => sv.step true b) s.bypassRa2E := by
  simp only [CoreState.step, he, Bool.true_or]

theorem operands_slot1_stalled (hs : s.NoSquash i) (he : i.eWait = true)
    (h1 : lateOperand s.producers s.dataI.slot1.ra1 = false)
    (h2 : lateOperand s.producers s.dataI.slot1.ra2 = false) :
    (s.step i).operands.slot1 = s.operands.slot1 := by
  have hp := producers_stalled hs he
  simp only [CoreState.operands, CoreState.bypassRa1E, CoreState.bypassRa2E,
    dataI_stalled hs he, saved1_stalled he, saved2_stalled he, Pair.map_slot1,
    Pair.zipWith_slot1]
  rw [SavedOperand.select_step _ _ (hp.offers h1), SavedOperand.select_step _ _ (hp.offers h2)]

theorem operands_slot0_stalled (hs : s.NoSquash i) (he : i.eWait = true)
    (h1 : lateOperand s.producers s.dataI.slot0.ra1 = false)
    (h2 : lateOperand s.producers s.dataI.slot0.ra2 = false) :
    (s.step i).operands.slot0 = s.operands.slot0 := by
  have hp := producers_stalled hs he
  simp only [CoreState.operands, CoreState.bypassRa1E, CoreState.bypassRa2E,
    dataI_stalled hs he, saved1_stalled he, saved2_stalled he, Pair.map_slot0,
    Pair.zipWith_slot0]
  rw [SavedOperand.select_step _ _ (hp.offers h1), SavedOperand.select_step _ _ (hp.offers h2)]

end Operands

namespace UnitCore

variable {s : UnitCore} {i : UnitInput}

section Step

theorem eWait_of_dividing (h : s.dividing = true) : s.eWait = true := by
  rw [eWait]
  change (s.dividing || _) = true
  rw [h, Bool.true_or]

theorem unitA_congr {dataI : Pair IssueData} {rd rd' : Pair Operands}
    (h : multia dataI rd = multia dataI rd') : unitA dataI rd = unitA dataI rd' := by
  rw [unitA, unitA, nega, nega, h]

theorem unitB_congr {dataI : Pair IssueData} {rd rd' : Pair Operands}
    (h : multib dataI rd = multib dataI rd') : unitB dataI rd = unitB dataI rd' := by
  rw [unitB, unitB, negb, negb, h]

/-- While E waits and nothing is squashed, the group stays in E, and the units keep their
inputs unless an operand of theirs comes late. -/
theorem inputs_kept (he : s.eWait = true) (hf : (s.hazardOut i).flushE = false)
    (hu : lateOperand s.core.producers s.unitSlot.ra1 = false ∧
      lateOperand s.core.producers s.unitSlot.ra2 = false) :
    (s.step i).core.dataI = s.core.dataI ∧ (s.step i).a = s.a ∧ (s.step i).b = s.b := by
  obtain ⟨h1, h2⟩ := hu
  have hs : s.core.NoSquash (s.coreInput i) := noSquash_of_flushE hf
  have he' : (s.coreInput i).eWait = true := he
  have hI : (s.step i).core.dataI = s.core.dataI := dataI_stalled hs he'
  have hops : unitOperands s.core.dataI (s.step i).core.operands =
      unitOperands s.core.dataI s.core.operands := by
    simp only [unitSlot] at h1 h2
    simp only [unitOperands, multia, multib]
    cases hm : mulDivSlot1 s.core.dataI with
    | true =>
        rw [hm] at h1 h2
        have h : (s.step i).core.operands.slot1 = s.core.operands.slot1 :=
          operands_slot1_stalled hs he' h1 h2
        simp only [h, if_true]
    | false =>
        rw [hm] at h1 h2
        have h : (s.step i).core.operands.slot0 = s.core.operands.slot0 :=
          operands_slot0_stalled hs he' h1 h2
        simp only [h, Bool.false_eq_true, if_false]
  have ha : multia s.core.dataI (s.step i).core.operands = multia s.core.dataI s.core.operands :=
    congrArg Operands.rd1 hops
  have hb : multib s.core.dataI (s.step i).core.operands = multib s.core.dataI s.core.operands :=
    congrArg Operands.rd2 hops
  refine ⟨hI, ?_, ?_⟩
  · rw [UnitCore.a, hI]
    exact unitA_congr ha
  · rw [UnitCore.b, hI]
    exact unitB_congr hb

/-- While a division is under way, the group stays in E and the units keep their inputs. -/
theorem inputs_stalled (hd : s.dividing = true) (hu : s.Undisturbed i) :
    (s.step i).core.dataI = s.core.dataI ∧ (s.step i).a = s.a ∧ (s.step i).b = s.b :=
  inputs_kept (eWait_of_dividing hd) (hu hd).1 (hu hd).2

theorem hiloGroup_dataINxt :
    HiloGroup (s.core.dataINxt (s.coreInput i)) :=
  hiloGroup_issueGroup _ _ _ _ _ i.queued.slot1.candidate_fetched i.queued.slot0.candidate_fetched

theorem HiloGroup.step (g : HiloGroup s.core.dataI) : HiloGroup (s.step i).core.dataI := by
  change HiloGroup (pipereg2 _ _ _ _ _)
  rw [pipereg2]
  split
  · exact hiloGroup_empty
  · split
    · exact g
    · exact hiloGroup_dataINxt

end Step

/-- The divider works on the instruction that stands in E. -/
structure Own (s : UnitCore) : Prop where
  group : HiloGroup s.core.dataI
  divider : s.div.state = .doing → s.divValid = true ∧ ∃ k, s.div.After s.a s.b k

theorem own_reset : Own {} where
  group := hiloGroup_empty
  divider h := absurd h (by decide)

section Own

/-- One cycle of the divider, with the group it works for. -/
theorem Own.step (h : s.Own) (hu : s.Undisturbed i) : (s.step i).Own where
  group := HiloGroup.step h.group
  divider hdoing := by
    have keep : ∀ k, (s.step i).div.After s.a s.b k → s.dividing = true →
        (s.step i).divValid = true ∧ ∃ k, (s.step i).div.After (s.step i).a (s.step i).b k := by
      intro k hk hd
      obtain ⟨hI, ha, hb⟩ := inputs_stalled hd hu
      rw [dividing, Bool.and_eq_true] at hd
      rw [ha, hb, divValid, hI]
      exact ⟨hd.1, k, hk⟩
    cases hst : s.div.state with
    | init =>
        cases hv : s.divValid with
        | false =>
            have : (s.step i).div.state = .init := by
              simp [UnitCore.step, Divider.next, Divider.stateNxt, hst, hv]
            rw [this] at hdoing
            cases hdoing
        | true =>
            exact keep 0 (Divider.After.start hst hv)
              (by rw [dividing, hv, Divider.done_init hst]; rfl)
    | doing =>
        obtain ⟨hv, k, hk⟩ := h.divider hst
        rcases Nat.lt_or_eq_of_le hk.le with hlt | rfl
        · exact keep (k + 1) (hk.next hlt) (by rw [dividing, hv, hk.not_done hlt]; rfl)
        · have : (s.step i).div.state = .init := hk.next_state
          rw [this] at hdoing
          cases hdoing

/-- A group that leaves E takes what the units have. -/
theorem dataE_of_leavesE (hl : s.leavesE i = true) :
    (s.step i).core.dataE =
      execute s.core.dataI s.core.operands { multc := s.mul.c, divc := s.div.c } := by
  rw [leavesE, Bool.and_eq_true, Bool.not_eq_true', Bool.not_eq_true'] at hl
  change pipereg2 _ (s.hazardOut i).stallM (s.hazardOut i).flushM _ _ = _
  rw [hl.1, hl.2]
  rfl

theorem Own.divc (h : s.Own) (hl : s.leavesE i = true) (hv : s.divValid = true)
    (hb : s.b ≠ 0#32) : s.div.c = s.a % s.b ++ s.a / s.b := by
  have he : s.eWait = false := hazard_leaves _ _ _ _ _ _ hl
  have hdone : s.div.done s.divValid = true := by
    rw [eWait, hv, Bool.true_and, Bool.or_eq_false_iff, Bool.not_eq_false'] at he
    rw [hv]
    exact he.1
  cases hst : s.div.state with
  | init =>
      rw [Divider.done_init hst, hv] at hdone
      cases hdone
  | doing =>
      obtain ⟨-, k, hk⟩ := h.divider hst
      obtain rfl := hk.done_iff.mp hdone
      exact hk.c hb

/-- The unit has reached what it reaches from rest with the operands of the group. -/
theorem Own.hiloData (h : s.Own) (hl : s.leavesE i = true) (hv : s.divValid = true)
    (hm : s.multValid = false) (hb : multib s.core.dataI s.core.operands ≠ 0#32) :
    FrailCPU.hiloData s.core.dataI s.core.operands { multc := s.mul.c, divc := s.div.c } =
      FrailCPU.hiloData s.core.dataI s.core.operands
        (unitResult s.core.dataI s.core.operands) := by
  have hub : s.b ≠ 0#32 := unitB_ne_zero _ _ hb
  apply hiloData_of_divc hm
  exact (h.divc hl hv hub).trans (Divider.c_iterate hub).symm

/-- The divide bit of an instruction that divides, and the group's use of the units. -/
theorem divides_bits {c : Control} {k : HiloInstr} (hc : c.Hilo k) (hk : k.divides = true) :
    c.div = true ∧ c.mul = false := by
  have ho : k ≠ .other := by rintro rfl; exact absurd hk (by decide)
  rw [hc.div ho, hc.mul ho]
  refine ⟨hk, ?_⟩
  cases k <;> first | rfl | exact absurd hk (by decide)

theorem divides_result {k : HiloInstr} (hk : k.divides = true) (rd : Operands) :
    (k.overwrites || k.accumulates) = true ∧ k.result rd = divOf k.signed rd := by
  cases k <;> first | exact ⟨rfl, rfl⟩ | exact absurd hk (by decide)

theorem Own.slot1 (h : s.Own) (hl : s.leavesE i = true) :
    OwnQuotient s.core.dataI.slot1 s.core.operands.slot1
      (s.step i).core.dataE.slot1.aluOutExt := by
  intro hk hb
  obtain ⟨hdiv, hmul⟩ := divides_bits h.group.hilo.slot1 hk
  obtain ⟨hw, hres⟩ := divides_result hk s.core.operands.slot1
  have hunit : s.core.dataI.slot1.ctl.multiOp = true := by rw [Control.multiOp, hdiv]; rfl
  have hown : mulDivSlot1 s.core.dataI = true := by rw [mulDivSlot1, hdiv, Bool.or_true]
  have hd := h.hiloData hl (by rw [divValid, hdiv]; rfl)
    (by rw [multValid, hmul, (h.group.unitsOf hunit).1]; rfl)
    (by rw [multib, hown]; exact hb)
  rw [dataE_of_leavesE hl, ← hres, ← h.group.aluOutExt1 hw fun _ => hb]
  change aluOutExt1 _ _ _ = _
  rw [aluOutExt1, aluOutExt1, hd]

theorem Own.slot0 (h : s.Own) (hl : s.leavesE i = true) :
    OwnQuotient s.core.dataI.slot0 s.core.operands.slot0
      (s.step i).core.dataE.slot0.aluOutExt := by
  intro hk hb
  obtain ⟨hdiv, hmul⟩ := divides_bits h.group.hilo.slot0 hk
  obtain ⟨hw, hres⟩ := divides_result hk s.core.operands.slot0
  have hmulti := h.group.multi
  rw [Control.multiOp, Control.multiOp, hdiv, hmul, Bool.or_false, Bool.and_true,
    Bool.or_eq_false_iff] at hmulti
  have hown : mulDivSlot1 s.core.dataI = false := by rw [mulDivSlot1, hmulti.1, hmulti.2]; rfl
  have hd := h.hiloData hl (by rw [divValid, hdiv, Bool.or_true])
    (by rw [multValid, hmul, hmulti.2]; rfl) (by rw [multib, hown]; exact hb)
  rw [dataE_of_leavesE hl, ← hres, ← h.group.aluOutExt0 hw fun _ => hb]
  change aluOutExt0 _ _ _ = _
  rw [aluOutExt0, aluOutExt0, hd]

end Own

/-- In every run in which no division under way is squashed or gets an operand late, a
division that leaves E has its own result with it. -/
theorem division_own (is : List UnitInput)
    (h : ClockedMachine.Along UnitCore.step Undisturbed {} is) (i : UnitInput) :
    (ClockedMachine.run UnitCore.step {} is).DividesOwn i := by
  have ho : (ClockedMachine.run UnitCore.step {} is).Own :=
    h.invariant (fun _ _ ho hu => ho.step hu) own_reset
  exact fun hl => ⟨ho.slot1 hl, ho.slot0 hl⟩

/-- `addiu $6, $0, 2` and `div $6, $6`, which leaves E in the next cycle. -/
def divideRun : List UnitInput :=
  [.single 0x24060002#32 0xbfc00000#32, .single 0x00c6001a#32 0xbfc00004#32] ++
    List.replicate 33 .idle

theorem division_own_two :
    (ClockedMachine.run UnitCore.step {} divideRun).leavesE .idle = true ∧
      (ClockedMachine.run UnitCore.step {} divideRun).DividesOwn .idle :=
  ⟨by decide +kernel, division_own divideRun (by decide +kernel) .idle⟩

/-- The same division twice, first behind a `SYSCALL`, which squashes it. -/
def squashedRun : List UnitInput :=
  [.single 0x24060002#32 0xbfc00000#32, .single 0x0000000c#32 0xbfc00004#32,
    .single 0x00c6001a#32 0xbfc00008#32] ++ List.replicate 4 .idle ++
    [.single 0x00c6001a#32 0xbfc00380#32] ++ List.replicate 28 .idle

/-- The second one leaves E with what the divider has made of both. -/
theorem not_division_own_squashed :
    ¬ (ClockedMachine.run UnitCore.step {} squashedRun).DividesOwn .idle := by
  decide +kernel

end UnitCore

end FrailCPU
