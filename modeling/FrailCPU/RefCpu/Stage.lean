import FrailCPU.RefCpu.View

/-!
# What the states of the control know

The invariant of the core says for each state of the control what is known of the instruction
in it: the word that was fetched is the one in memory, the decoder has sent it where it is, a
checked access is aligned, and a bus has a request pending only while the core waits for it.
What an implementer leaves behind an instruction that it is done with needs none of this.
-/

namespace FrailCPU.RefCpu

open Instr ByteMemory ClockedMachine

/-- The states that talk to a bus. -/
def CpuState.onBus (st : CpuState) : Bool :=
  match st with
  | .fetch | .fetchAddrSent | .load | .loadAddrSent | .store | .storeAddrSent => true
  | _ => false

/-- The states that wait for `data_ok` only. -/
def CpuState.waits (st : CpuState) : Bool :=
  match st with
  | .fetchAddrSent | .loadAddrSent | .storeAddrSent => true
  | _ => false

/-- The states in front of the effect of the instruction. -/
def CpuState.before (st : CpuState) : Bool :=
  match st with
  | .unknown | .commit | .branch | .exception | .storeAddrSent => false
  | _ => true

/-- The states that have the effect of an instruction, on their own. -/
def CpuState.executes (st : CpuState) : Bool :=
  match st with
  | .branchEval | .arithmetic | .rtype | .loaded | .cop0Access | .exceptionReturn => true
  | _ => false

namespace Context

variable (ctx : Context) (mem : Memory)

/-- A load whose address has been checked. -/
def Loads : Prop :=
  ∃ k u, loadKind (op ctx.instr) = some (k, u) ∧ ¬ k.Misaligned ctx.memAddr ∧
    ctx.args.addr = ctx.memAddr

/-- A store whose address has been checked. -/
def Stores : Prop :=
  ∃ k, storeKind (op ctx.instr) = some k ∧ ¬ k.Misaligned ctx.memAddr ∧
    ctx.args = .mem ctx.memAddr k.msize (strobeOf k (ctx.memAddr.extractLsb' 0 2))
      (dataOf k ctx.vRt)

/-- What a state of the control knows. -/
def Stage : Prop :=
  match ctx.state with
  | .fetchAddrSent => ctx.pc.toNat % 4 = 0
  | .decode => ctx.Holds mem
  | .branchEval | .arithmetic | .rtype | .addrCheck | .cop0Decode =>
    ctx.Holds mem ∧ ctx.decode.state = ctx.state
  | .load | .loadAddrSent => ctx.Holds mem ∧ ctx.Loads
  | .loaded =>
    ctx.Holds mem ∧ ctx.Loads ∧
      ctx.args.data = ByteMemory.word mem (translate ctx.args.addr)
  | .store => ctx.Holds mem ∧ ctx.Stores
  | .cop0Access =>
    ctx.Holds mem ∧ op ctx.instr = 0b010000#6 ∧ ctx.instr.getLsbD 25 = false
  | .exceptionReturn => ctx.Holds mem ∧ instrOf ctx.instr = some .eret
  | .exception =>
    ctx.delayed = false ∧ (ctx.args.code = exInt → ctx.cp0.status.exl = false)
  | _ => True

end Context

namespace Machine

variable (s : Machine) (i : CoreInput)

/-- A fetch is pending while the core waits for its answer. -/
def InstPort : Prop :=
  match s.ctx.state with
  | .fetchAddrSent => ∃ q, s.ipend = some q ∧ q.addr = s.ctx.pc ∧ q.strobe = 0#4
  | _ => s.ipend = none

def DataPort : Prop :=
  match s.ctx.state with
  | .loadAddrSent => ∃ q, s.dpend = some q ∧ q.addr = s.ctx.args.addr ∧ q.strobe = 0#4
  | .storeAddrSent => ∃ q, s.dpend = some q ∧ q.strobe ≠ 0#4
  | _ => s.dpend = none

structure Inv : Prop where
  zero : s.ctx.r 0#5 = 0#32
  stage : s.ctx.Stage s.mem
  inst : s.InstPort
  data : s.DataPort

/-- The condition of the refinement on a cycle. -/
structure Fair : Prop where
  honest : s.Honest i
  regular : s.ctx.Regular

instance : Decidable (s.Fair i) :=
  decidable_of_iff (s.Honest i ∧ s.ctx.Regular)
    ⟨fun h => ⟨h.1, h.2⟩, fun h => ⟨h.honest, h.regular⟩⟩

end Machine

section Next

variable {ctx : Context} {mem : Memory} {s : Machine} {i : CoreInput}

theorem Context.Stage.tick (h : ctx.Stage mem) (ext : BitVec 6) (id : CregAddr) :
    ({ ctx with cp0 := ctx.cp0.tick ext, targetId := id } : Context).Stage mem := by
  unfold Stage at h ⊢
  cases hs : ctx.state <;> simp only [hs] at h ⊢
  case decode => exact h.congr rfl rfl rfl
  case branchEval | arithmetic | rtype | addrCheck | cop0Decode =>
    refine ⟨h.1.congr rfl rfl rfl, Eq.trans ?_ h.2⟩
    exact decode_state_congr _ _ rfl
  case load | loadAddrSent | loaded | store | cop0Access | exceptionReturn =>
    exact ⟨h.1.congr rfl rfl rfl, h.2⟩
  all_goals exact h

theorem Context.next_eq (hs : ctx.state ≠ .commit) :
    ctx.next i = { (ctx.out i).zeroed with
      cp0 := (ctx.out i).zeroed.cp0.tick i.extInt
      targetId := 0#5 } := by
  rw [next, newCtx, if_neg hs]
  rfl

/-- Outside of `COMMIT` the proxy adds the tick and nothing else. -/
theorem Machine.step_abs (hs : s.ctx.state ≠ .commit) :
    (s.step i).abs =
      ((s.ctx.out i).zeroed.view (s.step i).mem).map (·.tick i.extInt) := by
  change (s.ctx.next i).view (s.step i).mem = _
  rw [Context.next_eq hs]
  exact (s.ctx.out i).zeroed.view_tick (s.step i).mem i.extInt

theorem Context.ireq_valid (h : ctx.state.onBus = false) : ctx.ireq.toDreq.valid = false := by
  unfold ireq
  cases hs : ctx.state <;> rw [hs] at h <;> first | rfl | cases h

theorem Context.dreq_valid (h : ctx.state ≠ .load) (h' : ctx.state ≠ .store) :
    ctx.dreq.valid = false := by
  unfold dreq
  split <;> first | contradiction | rfl

theorem Machine.inst_none (h : s.InstPort) (hw : s.ctx.state ≠ .fetchAddrSent) :
    s.ipend = none := by
  unfold InstPort at h
  split at h <;> first | contradiction | exact h

theorem Machine.data_none (h : s.DataPort) (hl : s.ctx.state ≠ .loadAddrSent)
    (hs : s.ctx.state ≠ .storeAddrSent) : s.dpend = none := by
  unfold DataPort at h
  split at h <;> first | contradiction | exact h

theorem Machine.instPort_of_none (h : s.ipend = none) (hw : s.ctx.state ≠ .fetchAddrSent) :
    s.InstPort := by
  unfold InstPort
  split <;> first | contradiction | exact h

theorem Machine.dataPort_of_none (h : s.dpend = none) (hl : s.ctx.state ≠ .loadAddrSent)
    (hs : s.ctx.state ≠ .storeAddrSent) : s.DataPort := by
  unfold DataPort
  split <;> first | contradiction | exact h

theorem Context.dreq_of_not_valid (h : ctx.dreq.valid = false) : ctx.dreq = default := by
  unfold Context.dreq at h ⊢
  cases hs : ctx.state <;> rw [hs] at h <;> first | rfl | cases h

/-- Only two states ask on the data bus. -/
theorem Context.state_of_dreq (h : ctx.dreq.valid = true) :
    ctx.state = .load ∨ ctx.state = .store := by
  unfold Context.dreq at h
  split at h
  · exact Or.inl ‹_›
  · exact Or.inr ‹_›
  · cases h

theorem Context.state_of_ireq (h : ctx.ireq.valid = true) : ctx.state = .fetch := by
  unfold Context.ireq at h
  split at h <;> first | assumption | cases h

/-- The core asks on one bus only, and on none that owes it an answer. -/
theorem Machine.Inv.ireq_valid {m : Machine} (h : m.Inv) (hv : m.ctx.ireq.valid = true) :
    m.ipend = none ∧ m.ctx.dreq.valid = false := by
  have hs := Context.state_of_ireq hv
  exact ⟨Machine.inst_none h.inst (by simp [hs]),
    Context.dreq_valid (by simp [hs]) (by simp [hs])⟩

theorem Machine.Inv.dreq_valid {m : Machine} (h : m.Inv) (hv : m.ctx.dreq.valid = true) :
    m.dpend = none := by
  rcases Context.state_of_dreq hv with hs | hs <;>
    exact Machine.data_none h.data (by simp [hs]) (by simp [hs])

/-- What a cycle outside of `COMMIT` has to keep. -/
theorem Machine.refines_of (hs : s.ctx.state ≠ .commit)
    (hstage : (s.ctx.out i).zeroed.Stage (s.step i).mem) (hi : (s.step i).InstPort)
    (hd : (s.step i).DataPort)
    (hview : (s.ctx.out i).zeroed.view (s.step i).mem = follow isaStep s.abs (s.acts i)) :
    RefinesStep Machine.step Machine.events Machine.abs isaStep Machine.Inv s i where
  kept := {
    zero := by
      change Function.update (s.ctx.out i).r 0#5 0#32 0#5 = 0#32
      exact Function.update_self ..
    stage := by
      change (s.ctx.next i).Stage (s.step i).mem
      rw [Context.next_eq hs]
      exact hstage.tick i.extInt 0#5
    inst := hi
    data := hd }
  simulates := by rw [step_abs hs, hview, events, follow_tick]

/-- A cycle of a state that does not talk to a bus, for one that waits for none. -/
theorem Machine.refines_of_idle (h : s.Inv) (hs : s.ctx.state ≠ .commit)
    (hb : s.ctx.state.onBus = false) (hw : (s.ctx.out i).state.waits = false)
    (hstage : (s.ctx.out i).zeroed.Stage s.mem)
    (hview : (s.ctx.out i).zeroed.view s.mem = follow isaStep s.abs (s.acts i)) :
    RefinesStep Machine.step Machine.events Machine.abs isaStep Machine.Inv s i := by
  have ne : ∀ st : CpuState, st.onBus = true → s.ctx.state ≠ st := by
    rintro st hst rfl
    rw [hst] at hb
    cases hb
  have ne' : ∀ {st : CpuState}, st.waits = true → (s.ctx.out i).state ≠ st := by
    rintro st hst rfl
    rw [hst] at hw
    cases hw
  have hv := Context.dreq_valid (ne .load rfl) (ne .store rfl)
  have hmem : (s.step i).mem = s.mem := by
    change performed s.mem _ = s.mem
    rw [Pending.accepted_of_not_valid hv]
    rfl
  have hi : (s.step i).ipend = none := by
    change s.ipend.next _ _ = none
    rw [inst_none h.inst (ne _ rfl), Pending.next_none (Context.ireq_valid hb)]
  have hd : (s.step i).dpend = none := by
    change s.dpend.next _ _ = none
    rw [data_none h.data (ne _ rfl) (ne _ rfl), Pending.next_none hv]
  refine refines_of hs ?_ (instPort_of_none hi (ne' rfl)) (dataPort_of_none hd (ne' rfl) (ne' rfl))
    ?_
  · rw [hmem]
    exact hstage
  · rw [hmem, hview]

end Next

/-- What the implementers leave behind an instruction. -/
structure Context.Ends (out : Context) : Prop where
  ended : out.state = .fetch ∨ out.state = .commit ∨ out.state = .branch ∨
    out.state = .exception ∨ out.state = .unknown
  thrown : out.state = .exception → out.delayed = false ∧ out.args.code ≠ exInt

namespace Context

variable {ctx out : Context} {mem : Memory}

theorem ends_throw {code : BitVec 5} (h : code ≠ exInt) : (ctx.throw out code).Ends where
  ended := Or.inr (Or.inr (Or.inr (Or.inl rfl)))
  thrown _ := ⟨rfl, (Args.code_setCode code ctx.delayed).symm ▸ h⟩

theorem ends_of_ne (h : out.state = .fetch ∨ out.state = .commit ∨ out.state = .branch ∨
    out.state = .unknown) : out.Ends where
  ended := by tauto
  thrown he := by simp [he] at h

theorem Ends.waits (h : out.Ends) : out.state.waits = false := by
  rcases h.ended with h | h | h | h | h <;> rw [h] <;> rfl

theorem Ends.stage (h : out.Ends) : out.zeroed.Stage mem := by
  have hs : out.zeroed.state = out.state := rfl
  rcases h.ended with he | he | he | he | he
  case inr.inr.inr.inl =>
    obtain ⟨hd, hc⟩ := h.thrown he
    simp only [Stage, hs, he]
    exact ⟨hd, fun hn => absurd hn hc⟩
  all_goals simp only [Stage, hs, he]

theorem ends_computed (i : Instruction) : (ctx.computed i).Ends := by
  by_cases h : i.Overflows ctx.instr ctx.vRs ctx.vRt
  · rw [computed_of h]
    exact ends_throw (by decide)
  · rw [computed_of_not h]
    exact ends_of_ne (Or.inr (Or.inl rfl))

theorem ends_arithmetic (hd : ctx.decode.state = .arithmetic) : ctx.arithmetic.Ends := by
  obtain ⟨i, -, -, -, he⟩ := arithmetic_computes hd
  rw [he]
  exact ends_computed i

theorem ends_rtypeCase (hs : out.state = .commit) : (ctx.rtypeCase out).Ends := by
  unfold rtypeCase
  dsimp only
  split
  all_goals try split
  all_goals first
    | exact ends_throw (by decide)
    | exact ends_of_ne (Or.inr (Or.inl hs))
    | exact ends_of_ne (Or.inr (Or.inr (Or.inl rfl)))
    | exact ends_of_ne (Or.inr (Or.inr (Or.inr rfl)))

theorem ends_rtype : ctx.rtype.Ends := by
  have h : (ctx.rtypeCase { ctx with state := .commit, targetId := rd ctx.instr }).Ends :=
    ends_rtypeCase rfl
  unfold rtype
  dsimp only
  split
  · exact ⟨h.ended, h.thrown⟩
  · exact h

theorem ends_branchCase : ctx.branchCase.1.Ends := by
  have h : ctx.linked.Ends := ends_of_ne (Or.inr (Or.inr (Or.inl linked_state)))
  unfold branchCase
  split
  case h_7 =>
    split <;> first | exact h | exact ends_throw (by decide)
  case h_8 => exact ends_of_ne (Or.inr (Or.inr (Or.inr rfl)))
  all_goals exact h

theorem ends_branchEval : ctx.branchEval.Ends where
  ended := ends_branchCase.ended
  thrown h := ⟨(ends_branchCase.thrown h).1,
    fun hc => (ends_branchCase.thrown h).2 ((Args.code_setNewPc _).symm.trans hc)⟩

theorem ends_branch : ctx.branch.Ends := by
  unfold branch
  dsimp only
  split
  · exact ends_of_ne (Or.inr (Or.inr (Or.inr rfl)))
  · exact ends_of_ne (Or.inl rfl)

theorem ends_exception : ctx.exception.Ends := by
  have h : ctx.exception.state = .fetch ∨ ctx.exception.state = .unknown := by
    change (if _ then CpuState.unknown else if _ then CpuState.unknown else .fetch) = _ ∨
      (if _ then CpuState.unknown else if _ then CpuState.unknown else .fetch) = _
    split
    · exact Or.inr rfl
    · split
      · exact Or.inr rfl
      · exact Or.inl rfl
  exact ends_of_ne (h.imp_right fun h => Or.inr (Or.inr h))

theorem ends_loaded : ctx.loaded.Ends := by
  unfold loaded
  dsimp only
  split
  case h_6 => exact ends_of_ne (Or.inr (Or.inr (Or.inr rfl)))
  all_goals exact ends_of_ne (Or.inr (Or.inl rfl))

theorem ends_cop0Access : ctx.cop0Access.Ends := by
  have hs : (if (cp0IdOf (rd ctx.instr ++ sel ctx.instr)).isNone then CpuState.unknown
      else .commit) = .commit ∨
      (if (cp0IdOf (rd ctx.instr ++ sel ctx.instr)).isNone then CpuState.unknown
      else .commit) = .unknown := by
    split
    · exact Or.inr rfl
    · exact Or.inl rfl
  unfold cop0Access
  dsimp only
  split
  case h_3 => exact ends_throw (by decide)
  all_goals exact ends_of_ne (Or.inr (hs.imp_right fun h => Or.inr h))

theorem ends_exceptionReturn : ctx.exceptionReturn.Ends := by
  have hs : ctx.exceptionReturn.state = .fetch ∨ ctx.exceptionReturn.state = .unknown := by
    change (if ctx.delayed then CpuState.unknown else .fetch) = _ ∨
      (if ctx.delayed then CpuState.unknown else .fetch) = _
    split
    · exact Or.inr rfl
    · exact Or.inl rfl
  exact ends_of_ne (hs.imp_right fun h => Or.inr (Or.inr h))

end Context

end FrailCPU.RefCpu
