import FrailCPU.RefCpu.Refine

/-!
# The trace of the debugger

`Debugger` names the register of the new context that its `target_id` points at. A cycle changes
no other register, so whoever applies the trace to a cleared register file has the registers of
the core at any time, and with them those of the instruction set. What is reported is the work
of the instruction at the `pc` of the report.
-/

namespace FrailCPU.RefCpu

open Instr ClockedMachine

/-- The register file of somebody who reads the trace. -/
def DebugPort.apply (r : RegFile) (p : DebugPort) : RegFile :=
  if p.wen then Function.update r p.wnum p.wdata else r

namespace Context

variable {ctx out : Context}

/-- What an implementer writes is what it names. -/
def Names (ctx out : Context) : Prop :=
  ∀ id, id ≠ out.targetId → out.r id = ctx.r id

theorem names_of_eq (h : out.r = ctx.r) : ctx.Names out := fun id _ => congrFun h id

theorem names_setReg (h : out.r = ctx.r) {id : CregAddr} (hi : out.targetId = id) (v : Word) :
    ctx.Names (out.setReg id v) := by
  intro j hj
  rw [← hi] at hj ⊢
  exact (Function.update_of_ne hj v out.r).trans (congrFun h j)

theorem names_arithmetic : ctx.Names ctx.arithmetic := by
  unfold arithmetic
  dsimp only
  split
  case h_8 =>
    split
    · exact names_of_eq rfl
    · exact names_setReg rfl rfl _
  case h_9 => exact names_of_eq rfl
  all_goals exact names_setReg rfl rfl _

theorem names_rtypeCase (h : out.r = ctx.r) (hi : out.targetId = rd ctx.instr) :
    ctx.Names (ctx.rtypeCase out) := by
  unfold rtypeCase
  dsimp only
  split
  all_goals try split
  all_goals first
    | exact names_of_eq h
    | exact names_setReg h hi _

/-- The instructions whose writeback is cancelled write no register. -/
theorem rtypeCase_r (h : cancelsWriteback (func ctx.instr) = true) (out : Context) :
    (ctx.rtypeCase out).r = out.r := by
  unfold cancelsWriteback at h
  split at h
  case h_8 => cases h
  all_goals
    rename_i hf
    simp only [rtypeCase, hf]
  all_goals split <;> rfl

theorem names_rtype : ctx.Names ctx.rtype := by
  unfold rtype
  dsimp only
  split
  case isTrue h => exact names_of_eq (rtypeCase_r h _)
  case isFalse => exact names_rtypeCase rfl rfl

theorem names_linked : ctx.Names ctx.linked := by
  unfold linked
  split
  · exact names_setReg rfl rfl _
  · exact names_of_eq rfl

theorem names_branchEval : ctx.Names ctx.branchEval := by
  change ctx.Names ctx.branchCase.1
  by_cases hn : op ctx.instr = 0b000001#6 ∧ regimmOf (rt ctx.instr) = none
  · rw [branchCase_reserved hn.1 hn.2]
    exact names_of_eq rfl
  · unfold branchCase
    split
    case h_7 ho =>
      split
      case h_5 =>
        refine absurd ⟨ho, ?_⟩ hn
        unfold regimmOf
        split <;> first | contradiction | rfl
      all_goals exact names_linked
    all_goals exact names_linked

theorem names_loaded : ctx.Names ctx.loaded := by
  unfold loaded
  dsimp only
  split
  case h_6 => exact names_of_eq rfl
  all_goals exact names_setReg rfl rfl _

theorem names_cop0Access : ctx.Names ctx.cop0Access := by
  unfold cop0Access
  dsimp only
  split
  case h_1 => exact names_setReg rfl rfl _
  all_goals exact names_of_eq rfl

theorem addrCheck_r (ctx : Context) : ctx.addrCheck.r = ctx.r := by
  unfold addrCheck
  dsimp only
  split
  all_goals try split
  all_goals rfl

theorem names_out (ctx : Context) (i : CoreInput) : ctx.Names (ctx.out i) := by
  unfold out
  cases ctx.state with
  | arithmetic => exact names_arithmetic
  | rtype => exact names_rtype
  | branchEval => exact names_branchEval
  | loaded => exact names_loaded
  | cop0Access => exact names_cop0Access
  | addrCheck => exact names_of_eq ctx.addrCheck_r
  | commit => exact names_of_eq ctx.commit_r
  | branch =>
    refine names_of_eq ?_
    change ctx.branch.r = ctx.r
    rw [branch]
    split <;> rfl
  | fetch =>
    refine names_of_eq ?_
    change (ctx.fetch i.iresp).r = ctx.r
    rw [fetch]
    split <;> rfl
  | decode =>
    refine names_of_eq ?_
    change ctx.decode.r = ctx.r
    unfold decode
    split <;> rfl
  | cop0Decode =>
    refine names_of_eq ?_
    change ctx.cop0Decode.r = ctx.r
    unfold cop0Decode
    split <;> [split; skip] <;> rfl
  | _ => exact names_of_eq rfl

/-- Only the states that have the effect of an instruction name a register. -/
theorem target_of_not_executes {i : CoreInput} (ht : ctx.targetId = 0#5)
    (hx : ctx.state.executes = false) : (ctx.out i).targetId = 0#5 := by
  unfold out
  cases hs : ctx.state with
  | branchEval | arithmetic | rtype | loaded | cop0Access =>
    rw [hs] at hx
    cases hx
  | addrCheck =>
    change ctx.addrCheck.targetId = _
    unfold addrCheck
    dsimp only
    split
    all_goals try split
    all_goals first | exact ht | rfl
  | commit =>
    change ctx.commit.targetId = _
    unfold commit
    split <;> split <;> first | exact ht | rfl
  | branch =>
    change ctx.branch.targetId = _
    rw [branch]
    split <;> exact ht
  | fetch =>
    change (ctx.fetch i.iresp).targetId = _
    rw [fetch]
    split <;> first | exact ht | rfl
  | decode =>
    change ctx.decode.targetId = _
    unfold decode
    split <;> first | exact ht | rfl
  | cop0Decode =>
    change ctx.cop0Decode.targetId = _
    unfold cop0Decode
    split <;> [split; skip] <;> first | exact ht | rfl
  | _ => exact ht

end Context

section Debugger

variable {ctx : Context} {i : CoreInput}

/-- A report is all that a cycle does to the registers. -/
theorem apply_debugger (h : ctx.r 0#5 = 0#32) :
    (debugger ctx i).apply ctx.r = (ctx.next i).r := by
  have hn := ctx.names_out i
  funext id
  unfold DebugPort.apply debugger
  by_cases ht : (ctx.newCtx i).targetId = 0#5
  · rw [ht]
    change ctx.r id = Function.update (ctx.out i).r 0#5 0#32 id
    by_cases hid : id = 0#5
    · rw [hid, Function.update_self, h]
    · rw [Function.update_of_ne hid]
      exact (hn id (fun he => hid (he.trans ht))).symm
  · simp only [bne_iff_ne, ne_eq, ht, not_false_eq_true, if_true]
    change _ = (ctx.newCtx i).r id
    by_cases hid : id = (ctx.newCtx i).targetId
    · rw [hid, Function.update_self]
    · rw [Function.update_of_ne hid]
      change ctx.r id = Function.update (ctx.out i).r 0#5 0#32 id
      by_cases hz : id = 0#5
      · rw [hz, Function.update_self, h]
      · rw [Function.update_of_ne hz]
        exact (hn id hid).symm

theorem trace_run (s : Machine) (h : s.ctx.r 0#5 = 0#32) (is : List CoreInput) :
    (collect Machine.step (fun s i => [debugger s.ctx i]) s is).foldl DebugPort.apply s.ctx.r =
      (run Machine.step s is).ctx.r := by
  induction is generalizing s with
  | nil => rfl
  | cons i is ih =>
    have hz : (s.step i).ctx.r 0#5 = 0#32 := by
      change Function.update (s.ctx.out i).r 0#5 0#32 0#5 = 0#32
      exact Function.update_self ..
    rw [collect_cons, List.singleton_append, List.foldl_cons, apply_debugger h, run_cons]
    exact ih (s.step i) hz

end Debugger

/-- The registers of a state that is defined are those of the context. -/
theorem Context.view_r {ctx : Context} {mem : ByteMemory.Memory} {a : Arch}
    (h : ctx.view mem = some a) : a.r = ctx.r := by
  have hadv : ∀ b : Arch, b.advance.r = b.r := by
    intro b
    unfold Arch.advance
    split <;> rfl
  unfold view at h
  split at h
  · cases h
  · rw [← Option.some.inj h, hadv]
    rfl
  · rw [← Option.some.inj h, hadv]
    rfl
  · unfold Arch.jump at h
    split at h
    · cases h
    · rw [← Option.some.inj h]
      rfl
  · unfold entered at h
    split at h
    · cases h
    · rw [← Option.some.inj h]
      rfl
  · rw [← Option.some.inj h]
    rfl

/-- Whoever applies the trace has the registers of the instruction set, and what is reported next
is the work of the instruction that is next. -/
theorem debugger_traces (mem : ByteMemory.Memory) {is : List CoreInput} {a : Arch}
    (h : Along Machine.step Machine.Fair (.reset mem) is)
    (ha : follow isaStep (some (Arch.reset mem))
      (collect Machine.step Machine.events (.reset mem) is) = some a) :
    (collect Machine.step (fun s i => [debugger s.ctx i]) (.reset mem) is).foldl DebugPort.apply
        (fun _ => 0#32) = a.r ∧
      ∀ i, (debugger (run Machine.step (.reset mem) is).ctx i).wen = true →
        (debugger (run Machine.step (.reset mem) is).ctx i).pc = a.pc ∧
          ∃ junk, (run Machine.step (.reset mem) is).events i = [.instr junk, .tick i.extInt] := by
  have habs := (refines_run (fun _ _ => Machine.refines) h (Machine.inv_reset mem)).2
  have hv : (run Machine.step (.reset mem) is).ctx.view (run Machine.step (.reset mem) is).mem =
      some a := habs.trans ha
  refine ⟨(trace_run (.reset mem) rfl is).trans (Context.view_r hv).symm, fun i hw => ?_⟩
  have ht : (run Machine.step (.reset mem) is).ctx.targetId = 0#5 :=
    run_invariant (P := fun s : Machine => s.ctx.targetId = 0#5) (fun _ _ _ => rfl) rfl is
  generalize run Machine.step (.reset mem) is = s at hv hw ht ⊢
  have hx : s.ctx.state.executes = true := by
    by_contra hx
    have h0 := Context.target_of_not_executes (i := i) ht (Bool.eq_false_iff.2 hx)
    have hw' : ((s.ctx.out i).targetId != 0#5) = true := hw
    rw [h0] at hw'
    exact absurd hw' (by decide)
  have hb : s.ctx.state.before = true := by
    cases hs : s.ctx.state <;> rw [hs] at hx <;> first | rfl | cases hx
  refine ⟨?_, (s.ctx.out i).args.badVAddr, ?_⟩
  · rw [Context.view_of_before hb, Option.some.injEq] at hv
    rw [← hv]
    rfl
  · unfold Machine.events Machine.acts
    cases hs : s.ctx.state <;> rw [hs] at hx <;> first | rfl | cases hx

theorem addiuSw_defined :
    (follow isaStep (some (Arch.reset addiuSw))
      (collect Machine.step Machine.events (.reset addiuSw) addiuSwCycles)).isSome = true := by
  decide +kernel

theorem debugger_traces_addiuSw :
    (collect Machine.step (fun s i => [debugger s.ctx i]) (.reset addiuSw) addiuSwCycles).foldl
        DebugPort.apply (fun _ => 0#32) =
      ((follow isaStep (some (Arch.reset addiuSw))
        (collect Machine.step Machine.events (.reset addiuSw) addiuSwCycles)).get
          addiuSw_defined).r :=
  (debugger_traces addiuSw (by decide +kernel) (Option.some_get addiuSw_defined).symm).1

end FrailCPU.RefCpu
