import FrailCPU.RefCpu.Stage

/-!
# The core refines its instruction set

One lemma for each state of the control: its cycle keeps the invariant and does what its events
say. Over honest buses of any latency, and whatever the interrupt lines do, a run of the core is
a run of the instruction set, and the core stops exactly where that is undefined.
-/

namespace FrailCPU.RefCpu

open Instr ByteMemory ClockedMachine

section States

variable {s : Machine} {i : CoreInput}

/-- A state whose cycle is the whole of an instruction. -/
theorem Machine.refines_of_ends (h : s.Inv) (hs : s.ctx.state ≠ .commit)
    (hb : s.ctx.state.onBus = false) (he : (s.ctx.out i).Ends)
    (hview : (s.ctx.out i).zeroed.view s.mem = follow isaStep s.abs (s.acts i)) :
    RefinesStep Machine.step Machine.events Machine.abs isaStep Machine.Inv s i :=
  refines_of_idle h hs hb he.waits he.stage hview

theorem Machine.refines_unknown (h : s.Inv) (hs : s.ctx.state = .unknown) :
    RefinesStep Machine.step Machine.events Machine.abs isaStep Machine.Inv s i := by
  have ho : s.ctx.out i = s.ctx := by rw [Context.out, hs]
  refine refines_of_ends h (by simp [hs]) (by rw [hs]; rfl) ?_ ?_
  · rw [ho]
    exact Context.ends_of_ne (Or.inr (Or.inr (Or.inr hs)))
  · rw [ho, acts, abs, hs, Context.view, Context.view, hs]
    simp only [Context.zeroed, hs]
    rfl

/-- A state that has the effect of the instruction. -/
theorem Machine.refines_of_executes (h : s.Inv) (hx : s.ctx.state.executes = true)
    (he : (s.ctx.out i).Ends)
    (hview : (s.ctx.out i).zeroed.view s.mem =
      (s.ctx.arch s.mem).instr (s.ctx.out i).args.badVAddr) :
    RefinesStep Machine.step Machine.events Machine.abs isaStep Machine.Inv s i := by
  have hacts : s.acts i = [.instr (s.ctx.out i).args.badVAddr] := by
    unfold acts
    cases hs : s.ctx.state <;> rw [hs] at hx <;> first | rfl | cases hx
  have habs : s.abs = some (s.ctx.arch s.mem) := by
    unfold abs Context.view
    cases hs : s.ctx.state <;> rw [hs] at hx <;> first | rfl | cases hx
  refine refines_of_ends h ?_ ?_ he ?_
  · rintro hs
    rw [hs] at hx
    cases hx
  · cases hs : s.ctx.state <;> rw [hs] at hx <;> first | rfl | cases hx
  · rw [hview, hacts, habs]
    rfl

theorem Machine.refines_branchEval (h : s.Inv) (hr : s.ctx.Regular)
    (hs : s.ctx.state = .branchEval) :
    RefinesStep Machine.step Machine.events Machine.abs isaStep Machine.Inv s i := by
  have ho : s.ctx.out i = s.ctx.branchEval := by rw [Context.out, hs]
  have hst := h.stage
  simp only [Context.Stage, hs] at hst
  refine refines_of_executes h (by rw [hs]; rfl) ?_ ?_ <;> rw [ho]
  · exact Context.ends_branchEval
  · exact branchEval_view hst.1 hst.2 hs hr

theorem Machine.refines_arithmetic (h : s.Inv) (hs : s.ctx.state = .arithmetic) :
    RefinesStep Machine.step Machine.events Machine.abs isaStep Machine.Inv s i := by
  have ho : s.ctx.out i = s.ctx.arithmetic := by rw [Context.out, hs]
  have hst := h.stage
  simp only [Context.Stage, hs] at hst
  refine refines_of_executes h (by rw [hs]; rfl) ?_ ?_ <;> rw [ho]
  · exact Context.ends_arithmetic hst.2
  · exact arithmetic_view hst.1 hst.2

theorem Machine.refines_rtype (h : s.Inv) (hs : s.ctx.state = .rtype) :
    RefinesStep Machine.step Machine.events Machine.abs isaStep Machine.Inv s i := by
  have ho : s.ctx.out i = s.ctx.rtype := by rw [Context.out, hs]
  have hst := h.stage
  simp only [Context.Stage, hs] at hst
  refine refines_of_executes h (by rw [hs]; rfl) ?_ ?_ <;> rw [ho]
  · exact Context.ends_rtype
  · exact rtype_view hst.1 hst.2

theorem Machine.refines_cop0Access (h : s.Inv) (hs : s.ctx.state = .cop0Access) :
    RefinesStep Machine.step Machine.events Machine.abs isaStep Machine.Inv s i := by
  have ho : s.ctx.out i = s.ctx.cop0Access := by rw [Context.out, hs]
  have hst := h.stage
  simp only [Context.Stage, hs] at hst
  refine refines_of_executes h (by rw [hs]; rfl) ?_ ?_ <;> rw [ho]
  · exact Context.ends_cop0Access
  · exact cop0Access_view hst.1 hst.2.1 hst.2.2

theorem Machine.refines_exceptionReturn (h : s.Inv) (hs : s.ctx.state = .exceptionReturn) :
    RefinesStep Machine.step Machine.events Machine.abs isaStep Machine.Inv s i := by
  have ho : s.ctx.out i = s.ctx.exceptionReturn := by rw [Context.out, hs]
  have hst := h.stage
  simp only [Context.Stage, hs] at hst
  refine refines_of_executes h (by rw [hs]; rfl) ?_ ?_ <;> rw [ho]
  · exact Context.ends_exceptionReturn
  · exact exceptionReturn_view hst.1 hst.2

theorem Machine.refines_loaded (h : s.Inv) (hs : s.ctx.state = .loaded) :
    RefinesStep Machine.step Machine.events Machine.abs isaStep Machine.Inv s i := by
  have ho : s.ctx.out i = s.ctx.loaded := by rw [Context.out, hs]
  have hst := h.stage
  simp only [Context.Stage, hs] at hst
  obtain ⟨hh, ⟨k, u, hk, hm, ha⟩, hd⟩ := hst
  refine refines_of_executes h (by rw [hs]; rfl) ?_ ?_ <;> rw [ho]
  · exact Context.ends_loaded
  · exact loaded_view hh hk hm ha hd _

/-- `BRANCH` lets the delay slot be next. -/
theorem Machine.refines_branch (h : s.Inv) (hs : s.ctx.state = .branch) :
    RefinesStep Machine.step Machine.events Machine.abs isaStep Machine.Inv s i := by
  have ho : s.ctx.out i = s.ctx.branch := by rw [Context.out, hs]
  have hz : s.ctx.branch.zeroed = s.ctx.branch := by
    refine Context.zeroed_eq ?_
    rw [Context.branch]
    split <;> exact h.zero
  refine refines_of_ends h (by simp [hs]) (by rw [hs]; rfl) ?_ ?_
  · rw [ho]
    exact Context.ends_branch
  · rw [ho, hz]
    simp only [acts, abs, hs, Context.view, follow_nil]
    have hsl := s.ctx.slot_isSome s.mem
    rw [Context.branch]
    cases hd : s.ctx.delayed with
    | true =>
      rw [Arch.jump_eq_none (hsl.trans hd)]
      rfl
    | false =>
      rw [Arch.jump_eq_some (hsl.trans hd)]
      rfl

/-- `EXCEPTION` sets the registers that the entry sets. -/
theorem Machine.refines_exception (h : s.Inv) (hs : s.ctx.state = .exception) :
    RefinesStep Machine.step Machine.events Machine.abs isaStep Machine.Inv s i := by
  have ho : s.ctx.out i = s.ctx.exception := by rw [Context.out, hs]
  have hst := h.stage
  simp only [Context.Stage, hs] at hst
  have hz : s.ctx.exception.zeroed = s.ctx.exception :=
    Context.zeroed_eq (show s.ctx.exception.r 0#5 = 0#32 from h.zero)
  refine refines_of_ends h (by simp [hs]) (by rw [hs]; rfl) ?_ ?_
  · rw [ho]
    exact Context.ends_exception
  · rw [ho, hz]
    simp only [acts, abs, hs, Context.view, follow_nil]
    cases he : s.ctx.cp0.status.erl with
    | true =>
      rw [Context.entered_eq_none he]
      simp only [Context.exception, he, if_true]
    | false =>
      have hi : (s.ctx.args.code == exInt && (s.ctx.cp0.status.exl || false)) = false := by
        by_cases hc : s.ctx.args.code = exInt
        · rw [hst.2 hc, Bool.or_false, Bool.and_false]
        · rw [beq_eq_false_iff_ne.2 hc, Bool.false_and]
      rw [Context.entered_eq_some he]
      simp only [Context.exception, he, hi, Bool.false_eq_true, if_false, Context.arch, hst.1]

theorem Context.view_of_before {ctx : Context} (h : ctx.state.before = true) (mem : Memory) :
    ctx.view mem = some (ctx.arch mem) := by
  unfold view
  cases hs : ctx.state <;> rw [hs] at h <;> first | rfl | cases h

/-- A state that raises an exception or hands the instruction on. -/
theorem Machine.refines_of_check (h : s.Inv)
    (hs : s.ctx.state = .decode ∨ s.ctx.state = .addrCheck ∨ s.ctx.state = .cop0Decode)
    (hx : (s.ctx.out i).state = .exception → (s.ctx.out i).Ends ∧
      (s.ctx.out i).zeroed.view s.mem = (s.ctx.arch s.mem).instr (s.ctx.out i).args.badVAddr)
    (hgo : (s.ctx.out i).state ≠ .exception → (s.ctx.out i).state.before = true ∧
      (s.ctx.out i).state.waits = false ∧ (s.ctx.out i).arch s.mem = s.ctx.arch s.mem ∧
      (s.ctx.out i).Stage s.mem) :
    RefinesStep Machine.step Machine.events Machine.abs isaStep Machine.Inv s i := by
  have habs : s.abs = some (s.ctx.arch s.mem) := by
    refine Context.view_of_before ?_ s.mem
    rcases hs with hs | hs | hs <;> rw [hs] <;> rfl
  have hacts : s.acts i = if (s.ctx.out i).state = .exception then
      [.instr (s.ctx.out i).args.badVAddr] else [] := by
    unfold acts
    rcases hs with hs | hs | hs <;> rw [hs]
  have hb : s.ctx.state.onBus = false := by
    rcases hs with hs | hs | hs <;> rw [hs] <;> rfl
  have hc : s.ctx.state ≠ .commit := by
    rcases hs with hs | hs | hs <;> rw [hs] <;> decide
  by_cases he : (s.ctx.out i).state = .exception
  · refine refines_of_ends h hc hb (hx he).1 ?_
    rw [(hx he).2, hacts, if_pos he, habs]
    rfl
  · obtain ⟨hbe, hw, ha, hst⟩ := hgo he
    have hz : (s.ctx.out i).zeroed = s.ctx.out i :=
      Context.zeroed_eq ((congrFun (congrArg Arch.r ha) 0#5).trans h.zero)
    refine refines_of_idle h hc hb hw ?_ ?_ <;> rw [hz]
    · exact hst
    · rw [Context.view_of_before hbe, ha, hacts, if_neg he, habs]
      rfl

/-- Where the decoder sends a word that it does not refuse. -/
theorem decode_sends {ctx : Context} (h : ctx.decode.state ≠ .exception) :
    ctx.decode = { ctx with state := ctx.decode.state } ∧
      (ctx.decode.state = .branchEval ∨ ctx.decode.state = .arithmetic ∨
        ctx.decode.state = .rtype ∨ ctx.decode.state = .addrCheck ∨
        ctx.decode.state = .cop0Decode) := by
  unfold Context.decode at h ⊢
  split at h
  case h_26 => exact absurd rfl h
  all_goals simp

theorem Machine.refines_decode (h : s.Inv) (hs : s.ctx.state = .decode) :
    RefinesStep Machine.step Machine.events Machine.abs isaStep Machine.Inv s i := by
  have ho : s.ctx.out i = s.ctx.decode := by rw [Context.out, hs]
  have hst := h.stage
  simp only [Context.Stage, hs] at hst
  refine refines_of_check h (Or.inl hs) ?_ ?_ <;> rw [ho]
  · intro he
    obtain ⟨hd, hi⟩ := decode_reserved he
    rw [hd, hst.instr_reserved hi]
    exact ⟨Context.ends_throw (by decide), Context.view_thrown _ h.zero exRi rfl⟩
  · intro he
    obtain ⟨hd, hc⟩ := decode_sends he
    have hstage : s.ctx.decode.decode.state = s.ctx.decode.state :=
      Context.decode_state_congr _ _ (by rw [hd])
    have hh : s.ctx.decode.Holds s.mem := by
      rw [hd]
      exact hst.congr rfl rfl rfl
    refine ⟨?_, ?_, by rw [hd]; rfl, ?_⟩
    · rcases hc with hc | hc | hc | hc | hc <;> rw [hc] <;> rfl
    · rcases hc with hc | hc | hc | hc | hc <;> rw [hc] <;> rfl
    · unfold Context.Stage
      rcases hc with hc | hc | hc | hc | hc <;> simp only [hc] <;>
        exact ⟨hh, hstage.trans hc⟩

theorem Machine.refines_cop0Decode (h : s.Inv) (hs : s.ctx.state = .cop0Decode) :
    RefinesStep Machine.step Machine.events Machine.abs isaStep Machine.Inv s i := by
  have ho : s.ctx.out i = s.ctx.cop0Decode := by rw [Context.out, hs]
  have hst := h.stage
  simp only [Context.Stage, hs] at hst
  have hop := decode_cop0Decode hst.2
  have hsp : instrOf s.ctx.instr = cop0Of s.ctx.instr := by simp only [instrOf, hop]
  refine refines_of_check h (Or.inr (Or.inr hs)) ?_ ?_ <;> rw [ho]
  · intro he
    refine ⟨?_, cop0Decode_view hst.1 hop he⟩
    unfold Context.cop0Decode at he ⊢
    split at he
    case isTrue hc =>
      split at he
      case isTrue => cases he
      case isFalse hf =>
        rw [if_pos hc, if_neg hf]
        exact Context.ends_throw (by decide)
    case isFalse => cases he
  · intro he
    unfold Context.cop0Decode at he ⊢
    split at he
    case isTrue hc =>
      split at he
      case isTrue hf =>
        rw [if_pos hc, if_pos hf]
        refine ⟨rfl, rfl, rfl, hst.1.congr rfl rfl rfl, ?_⟩
        change instrOf s.ctx.instr = _
        rw [hsp, cop0Of, if_pos hc, if_pos hf]
      case isFalse => exact absurd rfl he
    case isFalse hc =>
      rw [if_neg hc]
      exact ⟨rfl, rfl, rfl, hst.1.congr rfl rfl rfl, hop, Bool.eq_false_iff.2 hc⟩

/-- The words that go to `ADDR_CHECK` are loads and stores. -/
theorem decode_addrCheck {ctx : Context} (hd : ctx.decode.state = .addrCheck) :
    (∃ k u, loadKind (op ctx.instr) = some (k, u)) ∨ ∃ k, storeKind (op ctx.instr) = some k := by
  unfold Context.decode at hd
  split at hd
  case h_17 | h_18 | h_19 | h_20 | h_23 =>
    rename_i ho
    rw [ho]
    exact Or.inl ⟨_, _, rfl⟩
  case h_21 | h_22 | h_24 =>
    rename_i ho
    rw [ho]
    exact Or.inr ⟨_, rfl⟩
  all_goals cases hd

theorem Machine.refines_addrCheck (h : s.Inv) (hs : s.ctx.state = .addrCheck) :
    RefinesStep Machine.step Machine.events Machine.abs isaStep Machine.Inv s i := by
  have ho : s.ctx.out i = s.ctx.addrCheck := by rw [Context.out, hs]
  have hst := h.stage
  simp only [Context.Stage, hs] at hst
  rcases decode_addrCheck hst.2 with ⟨k, u, hk⟩ | ⟨k, hk⟩
  · rw [addrCheck_load hk] at ho
    by_cases hm : k.Misaligned s.ctx.memAddr
    · rw [if_pos hm] at ho
      refine refines_of_check h (Or.inr (Or.inl hs)) ?_ ?_ <;> rw [ho]
      · intro _
        rw [load_misaligned hst.1 hk hm]
        exact ⟨Context.ends_throw (show exAdel ≠ exInt by decide),
          addrError_view h.zero rfl exAdel _⟩
      · exact fun he => absurd rfl he
    · rw [if_neg hm] at ho
      refine refines_of_check h (Or.inr (Or.inl hs)) ?_ ?_ <;> rw [ho]
      · exact fun he => CpuState.noConfusion he
      · intro _
        refine ⟨rfl, rfl, rfl, hst.1.congr rfl rfl rfl, k, u, hk, hm, ?_⟩
        exact Args.addr_mem ..
  · rw [addrCheck_store hk] at ho
    by_cases hm : k.Misaligned s.ctx.memAddr
    · rw [if_pos hm] at ho
      refine refines_of_check h (Or.inr (Or.inl hs)) ?_ ?_ <;> rw [ho]
      · intro _
        rw [store_misaligned hst.1 hk hm]
        exact ⟨Context.ends_throw (show exAdes ≠ exInt by decide),
          addrError_view h.zero rfl exAdes _⟩
      · exact fun he => absurd rfl he
    · rw [if_neg hm] at ho
      refine refines_of_check h (Or.inr (Or.inl hs)) ?_ ?_ <;> rw [ho]
      · exact fun he => CpuState.noConfusion he
      · exact fun _ => ⟨rfl, rfl, rfl, hst.1.congr rfl rfl rfl, k, hk, hm, rfl⟩

/-- A cycle that talks to the instruction bus. -/
theorem Machine.step_of_fetching (h : s.Inv)
    (hs : s.ctx.state = .fetch ∨ s.ctx.state = .fetchAddrSent) :
    (s.step i).mem = s.mem ∧ (s.step i).dpend = none := by
  have hv : s.ctx.dreq.valid = false := by
    unfold Context.dreq
    rcases hs with hs | hs <;> rw [hs] <;> rfl
  have hd : s.dpend = none := by
    rcases hs with hs | hs <;> exact data_none h.data (by simp [hs]) (by simp [hs])
  constructor
  · change performed s.mem _ = s.mem
    rw [Pending.accepted_of_not_valid hv]
    rfl
  · change s.dpend.next _ _ = none
    rw [hd, Pending.next_none hv]

/-- A cycle of the fetch that has no effect. -/
theorem Machine.refines_of_fetching (h : s.Inv)
    (hs : s.ctx.state = .fetch ∨ s.ctx.state = .fetchAddrSent) (hn : s.acts i = [])
    (ho : ∃ w st, s.ctx.out i = { s.ctx with instr := w, state := st } ∧
      (st = .fetch ∧ (s.step i).ipend = none ∨
        st = .fetchAddrSent ∧ s.ctx.pc.toNat % 4 = 0 ∧
          (∃ q, (s.step i).ipend = some q ∧ q.addr = s.ctx.pc ∧ q.strobe = 0#4) ∨
        st = .decode ∧ s.ctx.pc.toNat % 4 = 0 ∧ (s.step i).ipend = none ∧
          w = ByteMemory.word s.mem (translate s.ctx.pc))) :
    RefinesStep Machine.step Machine.events Machine.abs isaStep Machine.Inv s i := by
  obtain ⟨w, st, ho, hc⟩ := ho
  obtain ⟨hm, hd⟩ := step_of_fetching (i := i) h hs
  have hz : (s.ctx.out i).zeroed = s.ctx.out i := by
    refine Context.zeroed_eq ?_
    rw [ho]
    exact h.zero
  have hns : (s.step i).ctx.state = st := by
    change (s.ctx.out i).state = st
    rw [ho]
  have hnp : (s.step i).ctx.pc = s.ctx.pc := by
    change (s.ctx.out i).pc = s.ctx.pc
    rw [ho]
  have hst : st = .fetch ∨ st = .fetchAddrSent ∨ st = .decode := by tauto
  refine refines_of (by rcases hs with hs | hs <;> simp [hs]) ?_ ?_ ?_ ?_
  · rw [hz, hm, ho]
    rcases hc with ⟨rfl, -⟩ | ⟨rfl, hp, -⟩ | ⟨rfl, hp, -, hw⟩
    · exact trivial
    · exact hp
    · exact ⟨h.zero, hp, hw⟩
  · rcases hc with ⟨rfl, hq⟩ | ⟨rfl, -, hq⟩ | ⟨rfl, -, hq, -⟩
    · exact instPort_of_none hq (by simp [hns])
    · simp only [InstPort, hns, hnp]
      exact hq
    · exact instPort_of_none hq (by simp [hns])
  · refine dataPort_of_none hd ?_ ?_ <;> rw [hns] <;> rcases hst with rfl | rfl | rfl <;> decide
  · have hv : s.abs = some (s.ctx.arch s.mem) :=
      Context.view_of_before (by rcases hs with hs | hs <;> rw [hs] <;> rfl) s.mem
    rw [hz, hm, hn, hv, ho]
    rcases hst with rfl | rfl | rfl <;> rfl

theorem Machine.refines_fetch (h : s.Inv) (hon : s.Honest i) (hs : s.ctx.state = .fetch) :
    RefinesStep Machine.step Machine.events Machine.abs isaStep Machine.Inv s i := by
  have ho : s.ctx.out i = s.ctx.fetch i.iresp := by rw [Context.out, hs]
  have hq : s.ctx.ireq = ⟨s.ctx.pc.extractLsb' 0 2 == 0#2, s.ctx.pc⟩ := by
    rw [Context.ireq, hs]
  have hp : s.ipend = none := inst_none h.inst (by simp [hs])
  by_cases hm : s.ctx.pc.toNat % 4 ≠ 0
  · have hlow : s.ctx.pc.extractLsb' 0 2 ≠ 0#2 := (low_ne_zero_iff s.ctx.pc).2 hm
    have he : (s.ctx.fetch i.iresp).Ends := by
      rw [Context.fetch, if_pos hlow]
      exact Context.ends_throw (show exAdel ≠ exInt by decide)
    have hx : (s.ctx.fetch i.iresp).state = .exception := by
      rw [Context.fetch, if_pos hlow]
      rfl
    obtain ⟨hmem, hd⟩ := step_of_fetching (i := i) h (Or.inl hs)
    have hns : (s.step i).ctx.state = .exception := (congrArg Context.state ho).trans hx
    have hn : (s.step i).ipend = none := by
      change s.ipend.next _ _ = none
      rw [hp, Pending.next_none]
      rw [hq]
      exact beq_eq_false_iff_ne.2 hlow
    refine refines_of (by simp [hs]) ?_ (instPort_of_none hn (by simp [hns]))
      (dataPort_of_none hd (by simp [hns]) (by simp [hns])) ?_
    · rw [ho]
      exact he.stage
    · rw [ho, hmem, fetch_misaligned_view h.zero hm]
      simp only [acts, abs, hs, Context.view, ho, hx]
      rfl
  · have hlow : s.ctx.pc.extractLsb' 0 2 = 0#2 := not_not.1 (mt (low_ne_zero_iff s.ctx.pc).1 hm)
    have ho' : s.ctx.out i = { s.ctx with
        instr := i.iresp.data
        state := memWait i.iresp .fetch .fetchAddrSent .decode } := by
      rw [ho, Context.fetch, if_neg (not_not_intro hlow)]
    have hv : s.ctx.ireq.toDreq.valid = true := by
      rw [hq]
      exact beq_iff_eq.2 hlow
    have hn : (s.step i).ipend =
        if i.iresp.addrOk && !i.iresp.dataOk then some s.ctx.ireq.toDreq else none := by
      change s.ipend.next _ _ = _
      rw [hp, Pending.next_of_valid hv]
    refine refines_of_fetching h (Or.inl hs) ?_ ⟨_, _, ho', ?_⟩
    · simp only [acts, hs, ho']
      rw [if_neg]
      unfold memWait
      split <;> [skip; split] <;> decide
    · have hin := hon.inst
      rw [hp, Pending.answered_of_valid hv] at hin
      rw [hn, hq]
      unfold memWait
      cases ha : i.iresp.addrOk <;> cases hd : i.iresp.dataOk
      · exact Or.inl ⟨rfl, rfl⟩
      · exact Or.inl ⟨rfl, rfl⟩
      · exact Or.inr (Or.inl ⟨rfl, not_not.1 hm, _, rfl, rfl, rfl⟩)
      · rw [ha, hd] at hin
        refine Or.inr (Or.inr ⟨rfl, not_not.1 hm, rfl, ?_⟩)
        rw [hin _ rfl rfl, hq]
        rfl

theorem Machine.refines_fetchAddrSent (h : s.Inv) (hon : s.Honest i)
    (hs : s.ctx.state = .fetchAddrSent) :
    RefinesStep Machine.step Machine.events Machine.abs isaStep Machine.Inv s i := by
  have ho : s.ctx.out i = s.ctx.fetchAddrSent i.iresp := by rw [Context.out, hs]
  have hst := h.stage
  simp only [Context.Stage, hs] at hst
  have hip := h.inst
  simp only [InstPort, hs] at hip
  obtain ⟨q, hq, ha, hstr⟩ := hip
  have hn : (s.step i).ipend = if i.iresp.dataOk then none else some q := by
    change s.ipend.next _ _ = _
    rw [hq, Pending.next_some]
  have hin := hon.inst
  rw [hq, Pending.answered_some] at hin
  refine refines_of_fetching h (Or.inr hs) (by simp only [acts, hs]) ⟨_, _, ho, ?_⟩
  rw [hn]
  cases hd : i.iresp.dataOk
  · exact Or.inr (Or.inl ⟨rfl, hst, q, rfl, ha, hstr⟩)
  · rw [hd] at hin
    refine Or.inr (Or.inr ⟨rfl, hst, rfl, ?_⟩)
    rw [hin _ rfl hstr, ha]

/-- A cycle that talks to the data bus. -/
theorem Machine.step_of_accessing (h : s.Inv)
    (hs : s.ctx.state = .load ∨ s.ctx.state = .loadAddrSent ∨ s.ctx.state = .store ∨
      s.ctx.state = .storeAddrSent) : (s.step i).ipend = none := by
  have hv : s.ctx.ireq.toDreq.valid = false := by
    unfold Context.ireq
    rcases hs with hs | hs | hs | hs <;> rw [hs] <;> rfl
  have hi : s.ipend = none := by
    rcases hs with hs | hs | hs | hs <;> exact inst_none h.inst (by simp [hs])
  change s.ipend.next _ _ = none
  rw [hi, Pending.next_none hv]

/-- A cycle of a load in front of its answer. -/
theorem Machine.refines_of_loading (h : s.Inv)
    (hs : s.ctx.state = .load ∨ s.ctx.state = .loadAddrSent)
    (hm : (s.step i).mem = s.mem)
    (ho : ∃ st, s.ctx.out i =
        { s.ctx with args := s.ctx.args.setData i.dresp.data, state := st } ∧
      (st = .load ∧ (s.step i).dpend = none ∨
        st = .loadAddrSent ∧
          (∃ q, (s.step i).dpend = some q ∧ q.addr = s.ctx.args.addr ∧ q.strobe = 0#4) ∨
        st = .loaded ∧ (s.step i).dpend = none ∧
          i.dresp.data = ByteMemory.word s.mem (translate s.ctx.args.addr))) :
    RefinesStep Machine.step Machine.events Machine.abs isaStep Machine.Inv s i := by
  obtain ⟨st, ho, hc⟩ := ho
  have hi := step_of_accessing (i := i) h (hs.imp_right Or.inl)
  have hst := h.stage
  obtain ⟨hh, hl⟩ : s.ctx.Holds s.mem ∧ s.ctx.Loads := by
    rcases hs with hs | hs <;> simpa only [Context.Stage, hs] using hst
  have hl' : (s.ctx.out i).Loads := by
    obtain ⟨k, u, hk, hm, ha⟩ := hl
    rw [ho]
    exact ⟨k, u, hk, hm, (Args.addr_setData _).trans ha⟩
  have hh' : (s.ctx.out i).Holds s.mem := by
    rw [ho]
    exact hh.congr rfl rfl rfl
  have hns : (s.step i).ctx.state = st := by
    change (s.ctx.out i).state = st
    rw [ho]
  have hna : (s.step i).ctx.args.addr = s.ctx.args.addr := by
    change (s.ctx.next i).args.addr = _
    rw [Context.next_args _ _ (by rcases hs with hs | hs <;> simp [hs]), ho]
    exact Args.addr_setData _
  have hst' : st = .load ∨ st = .loadAddrSent ∨ st = .loaded := by tauto
  refine refines_of (by rcases hs with hs | hs <;> simp [hs]) ?_
    (instPort_of_none hi (by rw [hns]; rcases hst' with rfl | rfl | rfl <;> decide)) ?_ ?_
  · rw [Context.zeroed_eq hh'.zero, hm]
    have hs' : (s.ctx.out i).state = st := by rw [ho]
    unfold Context.Stage
    rw [hs']
    rcases hc with ⟨rfl, -⟩ | ⟨rfl, -⟩ | ⟨rfl, -, hw⟩
    · exact ⟨hh', hl'⟩
    · exact ⟨hh', hl'⟩
    · refine ⟨hh', hl', ?_⟩
      rw [ho]
      exact (Args.data_setData _).trans (hw.trans (by rw [Args.addr_setData]))
  · rcases hc with ⟨rfl, hq⟩ | ⟨rfl, hq⟩ | ⟨rfl, hq, -⟩
    · exact dataPort_of_none hq (by simp [hns]) (by simp [hns])
    · simp only [DataPort, hns, hna]
      exact hq
    · exact dataPort_of_none hq (by simp [hns]) (by simp [hns])
  · have hv : s.abs = some (s.ctx.arch s.mem) :=
      Context.view_of_before (by rcases hs with hs | hs <;> rw [hs] <;> rfl) s.mem
    have hn : s.acts i = [] := by
      unfold acts
      rcases hs with hs | hs <;> rw [hs]
    rw [Context.zeroed_eq hh'.zero, hm, hn, hv, ho]
    rcases hst' with rfl | rfl | rfl <;> rfl

theorem Machine.refines_load (h : s.Inv) (hon : s.Honest i) (hs : s.ctx.state = .load) :
    RefinesStep Machine.step Machine.events Machine.abs isaStep Machine.Inv s i := by
  have ho : s.ctx.out i = s.ctx.load i.dresp := by rw [Context.out, hs]
  have hq : s.ctx.dreq = ⟨true, s.ctx.args.addr, s.ctx.args.size, 0#4, 0#32⟩ := by
    rw [Context.dreq, hs]
  have hv : s.ctx.dreq.valid = true := by rw [hq]
  have hp : s.dpend = none := data_none h.data (by simp [hs]) (by simp [hs])
  have hn : (s.step i).dpend =
      if i.dresp.addrOk && !i.dresp.dataOk then some s.ctx.dreq else none := by
    change s.dpend.next _ _ = _
    rw [hp, Pending.next_of_valid hv]
  have hm : (s.step i).mem = s.mem := by
    change performed s.mem (s.dpend.accepted s.ctx.dreq i.dresp) = s.mem
    rw [hp, Pending.accepted, hq]
    cases i.dresp.addrOk <;> rfl
  have hda := hon.data
  rw [hp, Pending.answered_of_valid hv] at hda
  refine refines_of_loading h (Or.inl hs) hm ⟨_, ho, ?_⟩
  rw [hn, hq]
  unfold memWait
  cases ha : i.dresp.addrOk <;> cases hd : i.dresp.dataOk
  · exact Or.inl ⟨rfl, rfl⟩
  · exact Or.inl ⟨rfl, rfl⟩
  · exact Or.inr (Or.inl ⟨rfl, _, rfl, rfl, rfl⟩)
  · rw [ha, hd] at hda
    refine Or.inr (Or.inr ⟨rfl, rfl, ?_⟩)
    rw [hda _ rfl (by rw [hq]), hq]

theorem Machine.refines_loadAddrSent (h : s.Inv) (hon : s.Honest i)
    (hs : s.ctx.state = .loadAddrSent) :
    RefinesStep Machine.step Machine.events Machine.abs isaStep Machine.Inv s i := by
  have ho : s.ctx.out i = s.ctx.loadAddrSent i.dresp := by rw [Context.out, hs]
  have hv : s.ctx.dreq.valid = false := Context.dreq_valid (by simp [hs]) (by simp [hs])
  have hdp := h.data
  simp only [DataPort, hs] at hdp
  obtain ⟨q, hq, ha, hstr⟩ := hdp
  have hn : (s.step i).dpend = if i.dresp.dataOk then none else some q := by
    change s.dpend.next _ _ = _
    rw [hq, Pending.next_some]
  have hm : (s.step i).mem = s.mem := by
    change performed s.mem _ = s.mem
    rw [Pending.accepted_of_not_valid hv]
    rfl
  have hda := hon.data
  rw [hq, Pending.answered_some] at hda
  refine refines_of_loading h (Or.inr hs) hm ⟨_, ho, ?_⟩
  rw [hn]
  cases hd : i.dresp.dataOk
  · exact Or.inr (Or.inl ⟨rfl, q, rfl, ha, hstr⟩)
  · rw [hd] at hda
    refine Or.inr (Or.inr ⟨rfl, rfl, ?_⟩)
    rw [hda _ rfl hstr, ha]

/-- `STORE` has its effect when the request is taken. -/
theorem Machine.refines_store (h : s.Inv) (hs : s.ctx.state = .store) :
    RefinesStep Machine.step Machine.events Machine.abs isaStep Machine.Inv s i := by
  have ho : s.ctx.out i =
      { s.ctx with state := memWait i.dresp .store .storeAddrSent .commit } := by
    rw [Context.out, hs]
    rfl
  have hst := h.stage
  simp only [Context.Stage, hs] at hst
  obtain ⟨hh, k, hk, hmis, hargs⟩ := hst
  have hq : s.ctx.dreq = ⟨true, s.ctx.args.addr, s.ctx.args.size, s.ctx.args.strobe,
      s.ctx.args.data⟩ := by
    rw [Context.dreq, hs]
  have hv : s.ctx.dreq.valid = true := by rw [hq]
  have hstr : s.ctx.dreq.strobe ≠ 0#4 := by
    rw [hq, hargs]
    change (Args.mem _ _ _ _).strobe ≠ 0#4
    rw [Args.strobe_mem]
    exact strobe_ne_zero hk hmis
  have hp : s.dpend = none := data_none h.data (by simp [hs]) (by simp [hs])
  have hi := step_of_accessing (i := i) h (Or.inr (Or.inr (Or.inl hs)))
  have hn : (s.step i).dpend =
      if i.dresp.addrOk && !i.dresp.dataOk then some s.ctx.dreq else none := by
    change s.dpend.next _ _ = _
    rw [hp, Pending.next_of_valid hv]
  have hmem : (s.step i).mem = performed s.mem (s.dpend.accepted s.ctx.dreq i.dresp) := rfl
  rw [hp, Pending.accepted, hv] at hmem
  have hz : (s.ctx.out i).zeroed = s.ctx.out i := by
    refine Context.zeroed_eq ?_
    rw [ho]
    exact h.zero
  have hns : (s.step i).ctx.state = memWait i.dresp .store .storeAddrSent .commit := by
    change (s.ctx.out i).state = _
    rw [ho]
  have habs : s.abs = some (s.ctx.arch s.mem) := Context.view_of_before (by rw [hs]; rfl) s.mem
  have hacts : s.acts i =
      if i.dresp.addrOk then [.instr (s.ctx.out i).args.badVAddr] else [] := by
    simp only [acts, hs]
  cases ha : i.dresp.addrOk with
  | false =>
    have hw : memWait i.dresp .store .storeAddrSent .commit = .store := by
      rw [memWait, ha]
      rfl
    rw [hw] at ho hns
    rw [ha] at hmem hacts hn
    refine refines_of (by simp [hs]) ?_ (instPort_of_none hi (by simp [hns]))
      (dataPort_of_none hn (by simp [hns]) (by simp [hns])) ?_
    · rw [hz, ho, hmem]
      exact ⟨hh.congr rfl rfl rfl, k, hk, hmis, hargs⟩
    · rw [hz, ho, hmem, hacts, habs]
      rfl
  | true =>
    have hput : (s.step i).mem = put (k.place (translate s.ctx.memAddr)) s.ctx.vRt s.mem := by
      rw [hmem, ha, hq, hargs]
      refine Eq.trans ?_ (performed_store hk hmis s.mem s.ctx.vRt true k.msize)
      rw [Args.addr_mem, Args.size_mem, Args.strobe_mem, Args.data_mem]
      rfl
    rw [ha] at hacts hn
    have hview : ∀ st, st = .commit ∨ st = .storeAddrSent →
        ({ s.ctx with state := st } : Context).zeroed.view (s.step i).mem =
          follow isaStep s.abs (s.acts i) := by
      intro st hst
      rw [store_view { s.ctx with state := st } hh hk hmis hst rfl _ hput, hacts, habs]
      rfl
    cases hd : i.dresp.dataOk with
    | false =>
      have hw : memWait i.dresp .store .storeAddrSent .commit = .storeAddrSent := by
        rw [memWait, ha, hd]
        rfl
      rw [hw] at ho hns
      rw [hd] at hn
      refine refines_of (by simp [hs]) ?_ (instPort_of_none hi (by simp [hns])) ?_ ?_
      · rw [ho]
        exact trivial
      · simp only [DataPort, hns]
        exact ⟨_, hn, hstr⟩
      · rw [ho]
        exact hview _ (Or.inr rfl)
    | true =>
      have hw : memWait i.dresp .store .storeAddrSent .commit = .commit := by
        rw [memWait, ha, hd]
        rfl
      rw [hw] at ho hns
      rw [hd] at hn
      refine refines_of (by simp [hs]) ?_ (instPort_of_none hi (by simp [hns]))
        (dataPort_of_none hn (by simp [hns]) (by simp [hns])) ?_
      · rw [ho]
        exact trivial
      · rw [ho]
        exact hview _ (Or.inl rfl)

theorem Machine.refines_storeAddrSent (h : s.Inv) (hs : s.ctx.state = .storeAddrSent) :
    RefinesStep Machine.step Machine.events Machine.abs isaStep Machine.Inv s i := by
  have ho : s.ctx.out i =
      { s.ctx with state := if i.dresp.dataOk then .commit else .storeAddrSent } := by
    rw [Context.out, hs]
    rfl
  have hv : s.ctx.dreq.valid = false := Context.dreq_valid (by simp [hs]) (by simp [hs])
  have hdp := h.data
  simp only [DataPort, hs] at hdp
  obtain ⟨q, hq, hstr⟩ := hdp
  have hi := step_of_accessing (i := i) h (Or.inr (Or.inr (Or.inr hs)))
  have hn : (s.step i).dpend = if i.dresp.dataOk then none else some q := by
    change s.dpend.next _ _ = _
    rw [hq, Pending.next_some]
  have hm : (s.step i).mem = s.mem := by
    change performed s.mem _ = s.mem
    rw [Pending.accepted_of_not_valid hv]
    rfl
  have hz : (s.ctx.out i).zeroed = s.ctx.out i := by
    refine Context.zeroed_eq ?_
    rw [ho]
    exact h.zero
  have hns : (s.step i).ctx.state = if i.dresp.dataOk then .commit else .storeAddrSent := by
    change (s.ctx.out i).state = _
    rw [ho]
  have hacts : s.acts i = [] := by simp only [acts, hs]
  have habs : s.abs = some (s.ctx.arch s.mem).advance := by rw [abs, Context.view, hs]
  cases hd : i.dresp.dataOk with
  | false =>
    rw [hd] at ho hns hn
    refine refines_of (by simp [hs]) ?_ (instPort_of_none hi (by rw [hns]; decide)) ?_ ?_
    · rw [ho]
      exact trivial
    · have hns' : (s.step i).ctx.state = .storeAddrSent := hns
      simp only [DataPort, hns']
      exact ⟨q, hn, hstr⟩
    · rw [hz, ho, hm, hacts, habs]
      rfl
  | true =>
    rw [hd] at ho hns hn
    refine refines_of (by simp [hs]) ?_ (instPort_of_none hi (by rw [hns]; decide))
      (dataPort_of_none hn (by rw [hns]; decide) (by rw [hns]; decide)) ?_
    · rw [ho]
      exact trivial
    · rw [hz, ho, hm, hacts, habs]
      rfl

theorem Arch.advance_slot (a : Arch) : a.advance.slot = none := by
  unfold advance
  split
  · rfl
  · assumption

theorem Context.commit_cp0 (ctx : Context) : ctx.commit.cp0 = ctx.cp0 := by
  unfold commit
  split <;> split <;> rfl

theorem Context.commit_r (ctx : Context) : ctx.commit.r = ctx.r := by
  unfold commit
  split <;> split <;> rfl

theorem Context.commit_state (ctx : Context) :
    ctx.commit.state = if ctx.cp0.hasInterrupt then .exception else .fetch := by
  unfold commit
  split <;> split <;> rfl

theorem Context.commit_delayed (ctx : Context) (h : ctx.cp0.hasInterrupt = true) :
    ctx.commit.delayed = false := by
  rw [commit, if_pos h]
  rfl

/-- `COMMIT` goes on to the next instruction, whether there is an interrupt or not. -/
theorem Context.commit_arch (ctx : Context) (mem : Memory) :
    ctx.commit.arch mem = (ctx.arch mem).advance := by
  unfold commit
  cases hi : ctx.cp0.hasInterrupt <;> cases hd : ctx.delayed <;>
    simp [arch, Arch.advance, throw, hd]

/-- `COMMIT` looks for interrupts; the record that the proxy has cleared is one of an interrupt in
front of the next instruction. -/
theorem Machine.refines_commit (h : s.Inv) (hs : s.ctx.state = .commit) :
    RefinesStep Machine.step Machine.events Machine.abs isaStep Machine.Inv s i := by
  have ho : s.ctx.out i = s.ctx.commit := by rw [Context.out, hs]
  have hv : s.ctx.dreq.valid = false := Context.dreq_valid (by simp [hs]) (by simp [hs])
  have hm : (s.step i).mem = s.mem := by
    change performed s.mem _ = s.mem
    rw [Pending.accepted_of_not_valid hv]
    rfl
  have hi : (s.step i).ipend = none := by
    change s.ipend.next _ _ = none
    rw [inst_none h.inst (by simp [hs]), Pending.next_none (Context.ireq_valid (by rw [hs]; rfl))]
  have hd : (s.step i).dpend = none := by
    change s.dpend.next _ _ = none
    rw [data_none h.data (by simp [hs]) (by simp [hs]), Pending.next_none hv]
  have hz : s.ctx.commit.r 0#5 = 0#32 := (congrFun s.ctx.commit_r 0#5).trans h.zero
  have hn : (s.step i).ctx = { s.ctx.commit with
      cp0 := s.ctx.commit.cp0.tick i.extInt
      args := 0#71
      targetId := 0#5 } := by
    change s.ctx.next i = _
    rw [Context.next, Context.newCtx, if_pos hs, ho]
    dsimp only
    rw [← hz, Function.update_eq_self]
  have hargs : (s.step i).ctx.args = 0#71 := by rw [hn]
  have hst : (s.step i).ctx.state = if s.ctx.cp0.hasInterrupt then .exception else .fetch := by
    rw [hn]
    exact s.ctx.commit_state
  have habs : s.abs = some (s.ctx.commit.arch s.mem) := by
    rw [abs, Context.view, hs, Context.commit_arch]
  have hevents : s.events i = [.poll] ++ [.tick i.extInt] := by rw [events, acts, hs]
  refine ⟨⟨?_, ?_, instPort_of_none hi ?_, dataPort_of_none hd ?_ ?_⟩, ?_⟩
  · rw [hn]
    exact hz
  · unfold Context.Stage
    cases hint : s.ctx.cp0.hasInterrupt with
    | false =>
      rw [hst, hint]
      exact trivial
    | true =>
      rw [hst, hint, hn]
      refine ⟨s.ctx.commit_delayed hint, fun _ => ?_⟩
      change s.ctx.commit.cp0.status.exl = false
      rw [s.ctx.commit_cp0]
      simp only [Cp0.hasInterrupt, Bool.and_eq_true, Bool.not_eq_true'] at hint
      exact hint.2
  iterate 3
    rw [hst]
    split <;> decide
  · rw [habs, hevents, follow_tick]
    cases hint : s.ctx.cp0.hasInterrupt with
    | false =>
      have hp : isaStep (s.ctx.commit.arch s.mem) .poll = some (s.ctx.commit.arch s.mem) := by
        refine if_neg ?_
        change ¬ s.ctx.commit.cp0.hasInterrupt = true
        rw [s.ctx.commit_cp0, hint]
        decide
      rw [abs, Context.view_of_before (by rw [hst, hint]; rfl), hm, hn, follow_cons,
        Option.bind_some, hp]
      rfl
    | true =>
      have hp : isaStep (s.ctx.commit.arch s.mem) .poll =
          (s.ctx.commit.arch s.mem).enter exInt 0#32 := by
        refine if_pos ?_
        change s.ctx.commit.cp0.hasInterrupt = true
        rw [s.ctx.commit_cp0, hint]
      have he : (s.ctx.commit.arch s.mem).slot = none := by
        rw [s.ctx.commit_arch]
        exact Arch.advance_slot _
      have harch : { (s.step i).ctx.arch s.mem with slot := none } =
          (s.ctx.commit.arch s.mem).tick i.extInt := by
        rw [hn]
        exact congrArg (fun t => { (s.ctx.commit.arch s.mem).tick i.extInt with slot := t }) he.symm
      rw [follow_cons, Option.bind_some, hp, follow_nil, abs, hm]
      rw [Context.view_of_exception _ (by rw [hst, hint]; rfl)
        (show (s.step i).ctx.args.code = exInt by rw [hargs]; decide) none (by rw [hargs]; decide),
        harch, hargs, show Args.badVAddr 0#71 = 0#32 by decide]
      exact Arch.enter_tick _ _ _ _

end States

/-- Every cycle keeps the invariant and does what its events say. -/
theorem Machine.refines {s : Machine} {i : CoreInput} (h : s.Inv) (hf : s.Fair i) :
    RefinesStep Machine.step Machine.events Machine.abs isaStep Machine.Inv s i := by
  cases hs : s.ctx.state with
  | unknown => exact refines_unknown h hs
  | commit => exact refines_commit h hs
  | fetch => exact refines_fetch h hf.honest hs
  | fetchAddrSent => exact refines_fetchAddrSent h hf.honest hs
  | decode => exact refines_decode h hs
  | branchEval => exact refines_branchEval h hf.regular hs
  | branch => exact refines_branch h hs
  | arithmetic => exact refines_arithmetic h hs
  | rtype => exact refines_rtype h hs
  | «exception» => exact refines_exception h hs
  | addrCheck => exact refines_addrCheck h hs
  | load => exact refines_load h hf.honest hs
  | loadAddrSent => exact refines_loadAddrSent h hf.honest hs
  | loaded => exact refines_loaded h hs
  | store => exact refines_store h hs
  | storeAddrSent => exact refines_storeAddrSent h hs
  | cop0Decode => exact refines_cop0Decode h hs
  | cop0Access => exact refines_cop0Access h hs
  | exceptionReturn => exact refines_exceptionReturn h hs

/-- The core and the memory at reset. -/
def Machine.reset (mem : Memory) : Machine := { mem := mem }

theorem Machine.inv_reset (mem : Memory) : (reset mem).Inv where
  zero := rfl
  stage := trivial
  inst := rfl
  data := rfl

theorem Machine.abs_reset (mem : Memory) : (reset mem).abs = some (Arch.reset mem) := rfl

/-- From reset, over buses that answer what lies in the memory, the core executes its instruction
set, and it has stopped exactly when that is undefined. -/
theorem core_refines (mem : Memory) {is : List CoreInput}
    (h : Along Machine.step Machine.Fair (.reset mem) is) :
    (run Machine.step (.reset mem) is).abs =
      follow isaStep (some (Arch.reset mem))
        (collect Machine.step Machine.events (.reset mem) is) :=
  (refines_run (fun _ _ => Machine.refines) h (Machine.inv_reset mem)).2

/-- `ADDIU $1, $0, 5` and `SW $1, 0($0)` at the reset vector. -/
def addiuSw : Memory :=
  setWord (setWord (fun _ => 0#8) 0x1fc00000#32 0x24010005#32) 0x1fc00004#32 0xac010000#32

/-- Buses that take their time with them. -/
def addiuSwCycles : List CoreInput :=
  [{ iresp := ⟨true, true, 0x24010005#32⟩ }, {}, {}, {}, { iresp := ⟨true, false, 0#32⟩ }, {},
    { iresp := ⟨false, true, 0xac010000#32⟩ }, {}, {}, {}, { dresp := ⟨true, false, 0#32⟩ }, {},
    { dresp := ⟨false, true, 0#32⟩ }, {}]

theorem core_refines_addiuSw :
    (run Machine.step (.reset addiuSw) addiuSwCycles).abs =
      follow isaStep (some (Arch.reset addiuSw))
        (collect Machine.step Machine.events (.reset addiuSw) addiuSwCycles) :=
  core_refines addiuSw (by decide +kernel)

end FrailCPU.RefCpu
