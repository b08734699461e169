import FrailCPU.RefCpu.Port
import FrailCPU.RefCpu.Execute
import FrailCPU.Library.Refinement

/-!
# The core executes the instruction set

A state of the core stands for the state before the instruction it works on until the state of
the control that has its effect is over, and for the one behind it from then on. A cycle puts
out an instruction when it has that effect, a look for interrupts in `COMMIT`, and a tick in any
case.
-/

namespace FrailCPU.RefCpu

open Instr ByteMemory ClockedMachine

namespace Context

variable (ctx : Context) (mem : Memory)

/-- The context as a state between two instructions. -/
def arch : Arch where
  pc := ctx.pc
  slot := if ctx.delayed then some ctx.delayedPc else none
  r := ctx.r
  hi := ctx.hi
  lo := ctx.lo
  cp0 := ctx.cp0
  mem := mem

/-- The state behind the entry into the exception that `args` records. -/
def entered : Option Arch :=
  if ctx.cp0.status.erl then none
  else some { ctx.arch mem with
    cp0 := ctx.cp0.enter ctx.args.code ctx.args.badVAddr ctx.args.delayed ctx.pc
    pc := ctx.cp0.vector ctx.args.code
    slot := none }

/-- The state of the instruction set that a context stands for. -/
def view : Option Arch :=
  match ctx.state with
  | .unknown => none
  | .commit | .storeAddrSent => some (ctx.arch mem).advance
  | .branch => (ctx.arch mem).jump ctx.args.newPc
  | .exception => ctx.entered mem
  | _ => some (ctx.arch mem)

/-- What the proxy does to the registers. -/
def zeroed : Context := { ctx with r := Function.update ctx.r 0#5 0#32 }

end Context

namespace Machine

variable (s : Machine) (i : CoreInput)

def abs : Option Arch := s.ctx.view s.mem

/-- The events of a cycle before the tick. -/
def acts : List Event :=
  match s.ctx.state with
  | .fetch | .decode | .addrCheck | .cop0Decode =>
    if (s.ctx.out i).state = .exception then [.instr (s.ctx.out i).args.badVAddr] else []
  | .branchEval | .arithmetic | .rtype | .loaded | .cop0Access | .exceptionReturn =>
    [.instr (s.ctx.out i).args.badVAddr]
  | .store => if i.dresp.addrOk then [.instr (s.ctx.out i).args.badVAddr] else []
  | .commit => [.poll]
  | _ => []

def events : List Event := s.acts i ++ [.tick i.extInt]

end Machine

/-- The clock in the state of the instruction set. -/
def Arch.tick (a : Arch) (ext : BitVec 6) : Arch := { a with cp0 := a.cp0.tick ext }

section Tick

variable (ctx : Context) (mem : Memory) (ext : BitVec 6)

theorem Arch.advance_tick (a : Arch) : (a.tick ext).advance = a.advance.tick ext := by
  simp only [advance, tick]
  cases a.slot <;> rfl

theorem Arch.jump_eq_none {a : Arch} (h : a.slot.isSome = true) (t : Word) : a.jump t = none :=
  if_pos h

theorem Arch.jump_eq_some {a : Arch} (h : a.slot.isSome = false) (t : Word) :
    a.jump t = some { a with pc := a.pc + 4#32, slot := some t } :=
  if_neg (Bool.eq_false_iff.1 h)

theorem Arch.jump_tick (a : Arch) (t : Word) :
    (a.tick ext).jump t = (a.jump t).map (·.tick ext) := by
  cases h : a.slot.isSome with
  | true =>
    rw [jump_eq_none h, jump_eq_none (a := a.tick ext) h]
    rfl
  | false =>
    rw [jump_eq_some h, jump_eq_some (a := a.tick ext) h]
    rfl

theorem Arch.enter_eq_none {a : Arch} (h : a.cp0.status.erl = true) (code : BitVec 5)
    (bad : Word) : a.enter code bad = none :=
  if_pos h

theorem Arch.enter_eq_some {a : Arch} (h : a.cp0.status.erl = false) (code : BitVec 5)
    (bad : Word) :
    a.enter code bad = some { a with
      cp0 := a.cp0.enter code bad a.slot.isSome a.pc
      pc := a.cp0.vector code
      slot := none } :=
  if_neg (Bool.eq_false_iff.1 h)

theorem Arch.enter_tick (a : Arch) (code : BitVec 5) (bad : Word) :
    (a.tick ext).enter code bad = (a.enter code bad).map (·.tick ext) := by
  cases h : a.cp0.status.erl with
  | true =>
    rw [enter_eq_none h, enter_eq_none (a := a.tick ext) h]
    rfl
  | false =>
    rw [enter_eq_some h, enter_eq_some (a := a.tick ext) h]
    rfl

theorem Context.entered_eq_none {ctx : Context} (h : ctx.cp0.status.erl = true) (mem : Memory) :
    ctx.entered mem = none :=
  if_pos h

theorem Context.entered_eq_some {ctx : Context} (h : ctx.cp0.status.erl = false)
    (mem : Memory) :
    ctx.entered mem = some { ctx.arch mem with
      cp0 := ctx.cp0.enter ctx.args.code ctx.args.badVAddr ctx.args.delayed ctx.pc
      pc := ctx.cp0.vector ctx.args.code
      slot := none } :=
  if_neg (Bool.eq_false_iff.1 h)

theorem Context.entered_tick :
    ({ ctx with cp0 := ctx.cp0.tick ext } : Context).entered mem =
      (ctx.entered mem).map (·.tick ext) := by
  cases h : ctx.cp0.status.erl with
  | true =>
    rw [entered_eq_none h, entered_eq_none
      (show ({ ctx with cp0 := ctx.cp0.tick ext } : Context).cp0.status.erl = true from h)]
    rfl
  | false =>
    rw [entered_eq_some h, entered_eq_some
      (show ({ ctx with cp0 := ctx.cp0.tick ext } : Context).cp0.status.erl = false from h)]
    rfl

/-- The clock can be moved out of a context. -/
theorem Context.view_tick :
    ({ ctx with cp0 := ctx.cp0.tick ext } : Context).view mem =
      (ctx.view mem).map (·.tick ext) := by
  have ha : ({ ctx with cp0 := ctx.cp0.tick ext } : Context).arch mem =
    (ctx.arch mem).tick ext := rfl
  simp only [view]
  cases ctx.state with
  | unknown => rfl
  | commit | storeAddrSent => exact congrArg some (ha ▸ Arch.advance_tick ext (ctx.arch mem))
  | branch => exact ha ▸ Arch.jump_tick ext (ctx.arch mem) ctx.args.newPc
  | exception => exact ctx.entered_tick mem ext
  | _ => exact congrArg some ha

theorem follow_tick (t : Option Arch) (es : List Event) :
    follow isaStep t (es ++ [.tick ext]) = (follow isaStep t es).map (·.tick ext) := by
  rw [follow_append]
  cases follow isaStep t es <;> rfl

end Tick

section View

variable {ctx out : Context} {mem : Memory}

theorem Context.zeroed_eq (h : ctx.r 0#5 = 0#32) : ctx.zeroed = ctx := by
  have hr : Function.update ctx.r 0#5 0#32 = ctx.r := by
    rw [← h, Function.update_eq_self]
  rw [zeroed, hr]

theorem Context.zeroed_zero : ctx.zeroed.r 0#5 = 0#32 := by simp [zeroed]

theorem Context.slot_isSome (ctx : Context) (mem : Memory) :
    (ctx.arch mem).slot.isSome = ctx.delayed := by
  simp only [arch]
  cases ctx.delayed <;> rfl

/-- A register written by the core, with register 0 held at zero. -/
theorem Context.arch_setReg (ctx : Context) (h : ctx.r 0#5 = 0#32) (id : CregAddr) (v : Word) :
    (ctx.setReg id v).zeroed.arch mem = (ctx.arch mem).setReg id v := by
  have hz := zeroed_eq h
  by_cases hid : id = 0#5
  · subst hid
    rw [Arch.setReg, if_pos rfl]
    change (ctx.setReg 0#5 v).zeroed.arch mem = ctx.arch mem
    rw [zeroed, setReg, Function.update_idem, ← h, Function.update_eq_self]
  · rw [Arch.setReg, if_neg hid]
    simp only [zeroed, setReg]
    rw [Function.update_comm hid, ← h, Function.update_eq_self]
    rfl

/-- The state `EXCEPTION` stands for the entry into what `args` records. -/
theorem Context.view_of_exception (out : Context) (hs : out.state = .exception)
    {code : BitVec 5} (hc : out.args.code = code) (slot : Option Word)
    (hd : out.args.delayed = slot.isSome) :
    out.view mem = Arch.enter { out.arch mem with slot := slot } code out.args.badVAddr := by
  rw [view, hs]
  change out.entered mem = _
  cases h : out.cp0.status.erl with
  | true =>
    rw [entered_eq_none h, Arch.enter_eq_none (a := { out.arch mem with slot := slot }) h]
  | false =>
    rw [entered_eq_some h, Arch.enter_eq_some (a := { out.arch mem with slot := slot }) h, hc, hd]
    rfl

/-- An exception that is thrown is entered. -/
theorem Context.view_throw (code : BitVec 5) :
    (ctx.throw out code).zeroed.view mem =
      (({ out with delayed := ctx.delayed } : Context).zeroed.arch mem).enter code
        (ctx.throw out code).args.badVAddr := by
  refine view_of_exception (ctx.throw out code).zeroed rfl (Args.code_setCode _ _) _ ?_
  exact (Args.delayed_setDelayed _).trans
    (({ out with delayed := ctx.delayed } : Context).zeroed.slot_isSome mem).symm

theorem Context.view_thrown (out : Context) (hz : ctx.r 0#5 = 0#32) (code : BitVec 5)
    (ho : ({ out with delayed := ctx.delayed } : Context).arch mem = ctx.arch mem) :
    (ctx.throw out code).zeroed.view mem =
      (ctx.arch mem).enter code (ctx.throw out code).args.badVAddr := by
  have hr : out.r 0#5 = 0#32 := (congrFun (congrArg Arch.r ho) 0#5).trans hz
  rw [view_throw,
    zeroed_eq (show ({ out with delayed := ctx.delayed } : Context).r 0#5 = 0#32 from hr), ho]

end View

/-- The word at `pc` has been fetched. -/
structure Context.Holds (ctx : Context) (mem : Memory) : Prop where
  zero : ctx.r 0#5 = 0#32
  aligned : ctx.pc.toNat % 4 = 0
  instr : ctx.instr = ByteMemory.word mem (translate ctx.pc)

/-- It is about the registers, `pc` and `instr` only. -/
theorem Context.Holds.congr {ctx ctx' : Context} {mem : Memory} (h : ctx.Holds mem)
    (hr : ctx'.r = ctx.r) (hp : ctx'.pc = ctx.pc) (hi : ctx'.instr = ctx.instr) :
    ctx'.Holds mem where
  zero := by rw [hr, h.zero]
  aligned := by rw [hp, h.aligned]
  instr := by rw [hi, hp, h.instr]

theorem Context.decode_state_congr (ctx ctx' : Context) (hi : ctx'.instr = ctx.instr) :
    ctx'.decode.state = ctx.decode.state := by
  unfold decode
  rw [hi]
  split <;> rfl

namespace Context.Holds

variable {ctx : Context} {mem : Memory} (h : ctx.Holds mem)

include h

theorem instr_eq {i : Instruction} (hi : instrOf ctx.instr = some i) (junk : Word) :
    (ctx.arch mem).instr junk = (ctx.arch mem).execute i ctx.instr junk := by
  have hf : (ctx.arch mem).fetched = ctx.instr := h.instr.symm
  have hp : ¬ (ctx.arch mem).pc.toNat % 4 ≠ 0 := not_not_intro h.aligned
  rw [Arch.instr, if_neg hp, hf, hi]

theorem instr_reserved (hi : instrOf ctx.instr = none) (junk : Word) :
    (ctx.arch mem).instr junk = (ctx.arch mem).enter exRi junk := by
  have hf : (ctx.arch mem).fetched = ctx.instr := h.instr.symm
  have hp : ¬ (ctx.arch mem).pc.toNat % 4 ≠ 0 := not_not_intro h.aligned
  rw [Arch.instr, if_neg hp, hf, hi]

end Context.Holds

section Values

variable {ctx out : Context} {mem : Memory}

theorem Context.view_of_commit (hs : out.state = .commit) :
    out.view mem = some (out.arch mem).advance := by
  rw [view, hs]

/-- A result that is written and committed. -/
theorem view_commit_setReg (hz : ctx.r 0#5 = 0#32) (id target : CregAddr) (v : Word) :
    (({ ctx with state := .commit, targetId := target } : Context).setReg id v).zeroed.view mem =
      some ((ctx.arch mem).setReg id v).advance := by
  rw [Context.view_of_commit rfl,
    Context.arch_setReg { ctx with state := .commit, targetId := target } hz]
  rfl

theorem execute_arith {i : Instruction} (hi : i.isInteger = true) (hl : i.links = false)
    (junk : Word) :
    (ctx.arch mem).execute i ctx.instr junk =
      if i.Overflows ctx.instr ctx.vRs ctx.vRt then (ctx.arch mem).enter exOv junk
      else some ((ctx.arch mem).setReg (i.dest ctx.instr)
        (i.result ctx.instr ctx.pc ctx.vRs ctx.vRt)).advance := by
  cases i <;> first
    | rfl
    | exact absurd hi Bool.false_ne_true
    | exact absurd hl.symm Bool.false_ne_true

theorem Context.Holds.computed_view (h : ctx.Holds mem) {i : Instruction}
    (hi : instrOf ctx.instr = some i) (hk : i.isInteger = true) (hl : i.links = false) :
    (ctx.computed i).zeroed.view mem = (ctx.arch mem).instr (ctx.computed i).args.badVAddr := by
  rw [h.instr_eq hi, execute_arith hk hl]
  by_cases ho : i.Overflows ctx.instr ctx.vRs ctx.vRt
  · rw [if_pos ho, Context.computed_of ho]
    exact Context.view_thrown _ h.zero exOv rfl
  · rw [if_neg ho, Context.computed_of_not ho, view_commit_setReg h.zero]

theorem arithmetic_view (h : ctx.Holds mem) (hd : ctx.decode.state = .arithmetic) :
    ctx.arithmetic.zeroed.view mem = (ctx.arch mem).instr ctx.arithmetic.args.badVAddr := by
  obtain ⟨i, hi, hk, hl, he⟩ := arithmetic_computes hd
  rw [he]
  exact h.computed_view hi hk hl

/-- An instruction that is committed without a register write of its own. -/
theorem Context.Holds.committed (h : ctx.Holds mem) (out : Context) (hs : out.state = .commit)
    (hr : out.r = ctx.r) : out.zeroed.view mem = some (out.arch mem).advance := by
  have hz : out.r 0#5 = 0#32 := by rw [hr, h.zero]
  rw [zeroed_eq hz, view_of_commit hs]

theorem decode_rtype (hd : ctx.decode.state = .rtype) : op ctx.instr = 0b000000#6 := by
  unfold Context.decode at hd
  split at hd <;> simp_all [Context.throw]

/-- The writeback that is cancelled is one for the trace only. -/
theorem rtype_view_eq :
    ctx.rtype.zeroed.view mem =
      (ctx.rtypeCase { ctx with state := .commit, targetId := rd ctx.instr }).zeroed.view mem := by
  rw [Context.rtype]
  split <;> rfl

theorem rtype_args_eq :
    ctx.rtype.args =
      (ctx.rtypeCase { ctx with state := .commit, targetId := rd ctx.instr }).args := by
  rw [Context.rtype]
  split <;> rfl

theorem Context.view_of_branch (out : Context) (mem : Memory) (hs : out.state = .branch) :
    out.view mem = (out.arch mem).jump out.args.newPc := by
  rw [view, hs]

/-- A division, or the state that reports an undefined one. -/
theorem divide_view (h : ctx.Holds mem) (signed : Bool) (hs : out.state = .commit)
    (ho : out.arch mem = ctx.arch mem) :
    (if ctx.vRt = 0#32 then out.fatal
      else { out with
        hi := (divOf signed ⟨ctx.vRs, ctx.vRt⟩).extractLsb' 32 32
        lo := (divOf signed ⟨ctx.vRs, ctx.vRt⟩).extractLsb' 0 32 }).zeroed.view mem =
      (ctx.arch mem).divide signed ctx.vRs ctx.vRt := by
  rw [Arch.divide]
  split
  case isTrue => rfl
  case isFalse =>
    refine (h.committed { out with
      hi := (divOf signed ⟨ctx.vRs, ctx.vRt⟩).extractLsb' 32 32
      lo := (divOf signed ⟨ctx.vRs, ctx.vRt⟩).extractLsb' 0 32 } hs
      (congrArg Arch.r ho)).trans ?_
    rw [← ho]
    rfl

/-- A jump, with the link that was written for it. -/
theorem jump_view (out : Context) {a : Arch} (hs : out.state = .branch)
    (ha : out.zeroed.arch mem = a) (t : Word) :
    { out with args := out.args.setNewPc t }.zeroed.view mem = a.jump t := by
  refine (Context.view_of_branch ({ out with args := out.args.setNewPc t } : Context).zeroed mem
    hs).trans ?_
  change (out.zeroed.arch mem).jump (out.args.setNewPc t).newPc = _
  rw [ha, Args.newPc_setNewPc]

theorem rtype_view (h : ctx.Holds mem) (hd : ctx.decode.state = .rtype) :
    ctx.rtype.zeroed.view mem = (ctx.arch mem).instr ctx.rtype.args.badVAddr := by
  have hop := decode_rtype hd
  have hsp : instrOf ctx.instr = specialOf (func ctx.instr) := by simp only [instrOf, hop]
  cases hi : instrOf ctx.instr with
  | none =>
    rw [h.instr_reserved hi, rtype_view_eq, rtype_args_eq, rtypeCase_reserved (hsp.symm.trans hi)]
    exact Context.view_thrown _ h.zero exRi rfl
  | some i =>
    by_cases hk : i.isInteger = true ∧ i.links = false
    · rw [rtype_computes hop hi hk.1 hk.2]
      exact h.computed_view hi hk.1 hk.2
    have he := encodes_of_instrOf hi
    rw [h.instr_eq hi, rtype_view_eq, rtype_args_eq]
    cases i
    case mult =>
      have hf : func ctx.instr = 0b011000#6 := he.2
      simp only [Context.rtypeCase, hf]
      exact h.committed _ rfl rfl
    case multu =>
      have hf : func ctx.instr = 0b011001#6 := he.2
      simp only [Context.rtypeCase, hf]
      exact h.committed _ rfl rfl
    case div =>
      have hf : func ctx.instr = 0b011010#6 := he.2
      simp only [Context.rtypeCase, hf]
      exact divide_view h true rfl rfl
    case divu =>
      have hf : func ctx.instr = 0b011011#6 := he.2
      simp only [Context.rtypeCase, hf]
      exact divide_view h false rfl rfl
    case mfhi =>
      have hf : func ctx.instr = 0b010000#6 := he.2
      simp only [Context.rtypeCase, hf]
      exact view_commit_setReg h.zero _ _ _
    case mflo =>
      have hf : func ctx.instr = 0b010010#6 := he.2
      simp only [Context.rtypeCase, hf]
      exact view_commit_setReg h.zero _ _ _
    case mthi =>
      have hf : func ctx.instr = 0b010001#6 := he.2
      simp only [Context.rtypeCase, hf]
      exact h.committed _ rfl rfl
    case mtlo =>
      have hf : func ctx.instr = 0b010011#6 := he.2
      simp only [Context.rtypeCase, hf]
      exact h.committed _ rfl rfl
    case jr =>
      have hf : func ctx.instr = 0b001000#6 := he.2
      simp only [Context.rtypeCase, hf]
      exact jump_view { ctx with state := .branch, targetId := rd ctx.instr } rfl
        (congrArg (Context.arch · mem) (Context.zeroed_eq (show ({ ctx with
          state := .branch, targetId := rd ctx.instr } : Context).r 0#5 = 0#32 from h.zero)))
        ctx.vRs
    case jalr =>
      have hf : func ctx.instr = 0b001001#6 := he.2
      simp only [Context.rtypeCase, hf]
      exact jump_view (({ ctx with state := .branch, targetId := rd ctx.instr } :
        Context).setReg (rd ctx.instr) ctx.linkPc) rfl (Context.arch_setReg { ctx with
          state := .branch, targetId := rd ctx.instr } h.zero _ _) ctx.vRs
    case syscall =>
      have hf : func ctx.instr = 0b001100#6 := he.2
      simp only [Context.rtypeCase, hf]
      exact Context.view_thrown _ h.zero exSys rfl
    case «break» =>
      have hf : func ctx.instr = 0b001101#6 := he.2
      simp only [Context.rtypeCase, hf]
      exact Context.view_thrown _ h.zero exBp rfl
    case movz | movn | sync | tne =>
      rw [hsp, show func ctx.instr = _ from he.2] at hi
      exact absurd hi (by decide)
    all_goals first
      | exact absurd ⟨rfl, rfl⟩ hk
      | cases (specialOf_encodes (hsp.symm.trans hi)).1

end Values

/-- What the union and the width of `ctx.pc[31:28]` ask of a branch: a reserved word of the
`REGIMM` opcode, whose record `new_pc` overwrites, is in no delay slot, and a jump is not the
last word of its region. -/
structure Context.Regular (ctx : Context) : Prop where
  reserved : ctx.state = .branchEval → instrOf ctx.instr = none → ctx.delayed = false
  region : ctx.state = .branchEval → instrOf ctx.instr = some .j ∨ instrOf ctx.instr = some .jal →
    (ctx.pc + 4#32).extractLsb' 28 4 = ctx.pc.extractLsb' 28 4

instance (ctx : Context) : Decidable ctx.Regular :=
  decidable_of_iff ((ctx.state = .branchEval → instrOf ctx.instr = none → ctx.delayed = false) ∧
    (ctx.state = .branchEval → instrOf ctx.instr = some .j ∨ instrOf ctx.instr = some .jal →
      (ctx.pc + 4#32).extractLsb' 28 4 = ctx.pc.extractLsb' 28 4))
    ⟨fun h => ⟨h.1, h.2⟩, fun h => ⟨h.reserved, h.region⟩⟩

section Branches

variable {ctx out : Context} {mem : Memory}

theorem decode_branchEval (hd : ctx.decode.state = .branchEval) :
    op ctx.instr = 0b000100#6 ∨ op ctx.instr = 0b000101#6 ∨ op ctx.instr = 0b000110#6 ∨
      op ctx.instr = 0b000111#6 ∨ op ctx.instr = 0b000010#6 ∨ op ctx.instr = 0b000011#6 ∨
      op ctx.instr = 0b000001#6 := by
  unfold Context.decode at hd
  split at hd <;> simp_all [Context.throw]

theorem linked_arch (hz : ctx.r 0#5 = 0#32) {i : Instruction} (hl : i.links = ctx.needLink)
    (hi : i.links = true → i.dest ctx.instr = 31#5) :
    ctx.linked.zeroed.arch mem = (ctx.arch mem).link i ctx.instr := by
  rw [Context.linked, Arch.link, ← hl]
  cases hk : i.links with
  | true =>
    rw [if_pos rfl, if_pos rfl, hi hk]
    exact Context.arch_setReg { ctx with state := .branch, targetId := 31#5 } hz _ _
  | false =>
    rw [if_neg Bool.false_ne_true, if_neg Bool.false_ne_true]
    rw [Context.zeroed_eq (show ({ ctx with state := .branch } : Context).r 0#5 = 0#32 from hz)]
    rfl

theorem linked_state : ctx.linked.state = .branch := by
  rw [Context.linked]
  split <;> rfl

theorem targetPc_eq : ctx.targetPc = branchTarget ctx.instr ctx.pc := by
  rw [Context.targetPc, offset_eq]
  rfl

/-- A branch or a jump goes where its case says. -/
theorem branchEval_jump (hz : ctx.r 0#5 = 0#32) {i : Instruction} {t : Word}
    (hl : i.links = ctx.needLink) (hi : i.links = true → i.dest ctx.instr = 31#5)
    (hc : ctx.branchCase = (ctx.linked, t)) :
    ctx.branchEval.zeroed.view mem = ((ctx.arch mem).link i ctx.instr).jump t := by
  rw [Context.branchEval, hc]
  exact jump_view _ linked_state (linked_arch hz hl hi) t

/-- A branch that is taken or not. -/
theorem branchEval_branch (hz : ctx.r 0#5 = 0#32) {i : Instruction} (taken : Bool)
    (hl : i.links = ctx.needLink) (hi : i.links = true → i.dest ctx.instr = 31#5)
    (ht : taken = true ↔ Taken i ctx.vRs ctx.vRt)
    (hc : ctx.branchCase = (ctx.linked, if taken then ctx.targetPc else ctx.linkPc)) :
    ctx.branchEval.zeroed.view mem = ((ctx.arch mem).link i ctx.instr).jump
      (if Taken i ctx.vRs ctx.vRt then branchTarget ctx.instr ctx.pc else ctx.pc + 8#32) := by
  rw [branchEval_jump hz hl hi hc, targetPc_eq]
  by_cases h : Taken i ctx.vRs ctx.vRt
  · rw [if_pos h, if_pos (ht.2 h)]
  · rw [if_neg h, if_neg (mt ht.1 h)]
    rfl

theorem jumpPc_eq (hr : (ctx.pc + 4#32).extractLsb' 28 4 = ctx.pc.extractLsb' 28 4) :
    ctx.jumpPc = jumpTarget ctx.instr ctx.pc := by
  rw [Context.jumpPc, jumpTarget, hr]

theorem branchCase_reserved (ho : op ctx.instr = 0b000001#6)
    (hn : regimmOf (rt ctx.instr) = none) :
    ctx.branchCase = (ctx.throw { ctx with state := .branch } exRi, 0#32) := by
  have hlink : ctx.linked = { ctx with state := .branch } := by
    rw [Context.linked, if_neg]
    simp only [Context.needLink, ho, Bool.or_eq_true, Bool.and_eq_true, beq_iff_eq]
    rintro (h | ⟨-, h | h⟩)
    · exact absurd h (by decide)
    · rw [h] at hn
      exact absurd hn (by decide)
    · rw [h] at hn
      exact absurd hn (by decide)
  simp only [Context.branchCase, ho, hlink]
  unfold regimmOf at hn
  split at hn
  case h_5 => split <;> first | contradiction | rfl
  all_goals cases hn

/-- A reserved branch that stands in no delay slot: the zero that `new_pc` puts over its record
is what the record has there. -/
theorem reserved_view (h : ctx.Holds mem) (hi : instrOf ctx.instr = none)
    (hc : ctx.branchCase = (ctx.throw { ctx with state := .branch } exRi, 0#32))
    (hd : ctx.delayed = false) :
    ctx.branchEval.zeroed.view mem = (ctx.arch mem).instr ctx.branchEval.args.badVAddr := by
  have hcode : ctx.branchEval.args.code = exRi := by
    rw [Context.branchEval, hc]
    exact (Args.code_setNewPc _).trans (Args.code_setCode exRi ctx.delayed)
  have hdelayed : ctx.branchEval.args.delayed = false := by
    rw [Context.branchEval, hc]
    exact Args.delayed_setNewPc 0#32
  have hz : (ctx.throw { ctx with state := .branch } exRi).r 0#5 = 0#32 := h.zero
  have harch : { ctx.branchEval.zeroed.arch mem with slot := none } = ctx.arch mem := by
    rw [Context.branchEval, hc]
    rw [Context.zeroed_eq (show ({ ctx.throw { ctx with state := .branch } exRi with
      args := (ctx.throw { ctx with state := .branch } exRi).args.setNewPc 0#32 } :
        Context).r 0#5 = 0#32 from hz)]
    simp only [Context.arch, Context.throw, hd, Bool.false_eq_true, if_false]
  rw [h.instr_reserved hi]
  refine (Context.view_of_exception ctx.branchEval.zeroed ?_ hcode none hdelayed).trans
    (congrArg (Arch.enter · exRi ctx.branchEval.args.badVAddr) harch)
  change ctx.branchCase.1.state = .exception
  rw [hc]
  rfl

theorem branchEval_view (h : ctx.Holds mem) (hd : ctx.decode.state = .branchEval)
    (hs : ctx.state = .branchEval) (hr : ctx.Regular) :
    ctx.branchEval.zeroed.view mem = (ctx.arch mem).instr ctx.branchEval.args.badVAddr := by
  rcases decode_branchEval hd with ho | ho | ho | ho | ho | ho | ho
  · have hi : instrOf ctx.instr = some .beq := by simp only [instrOf, ho]
    rw [h.instr_eq hi]
    refine branchEval_branch (i := .beq) h.zero (ctx.vRs == ctx.vRt) ?_
      (fun h => absurd h Bool.false_ne_true) ?_ ?_
    · simp [Context.needLink, ho, Instruction.links]
    · exact beq_iff_eq
    · simp only [Context.branchCase, ho]
  · have hi : instrOf ctx.instr = some .bne := by simp only [instrOf, ho]
    rw [h.instr_eq hi]
    refine branchEval_branch (i := .bne) h.zero (ctx.vRs != ctx.vRt) ?_
      (fun h => absurd h Bool.false_ne_true) ?_ ?_
    · simp [Context.needLink, ho, Instruction.links]
    · exact bne_iff_ne
    · simp only [Context.branchCase, ho]
  · have hi : instrOf ctx.instr = some .blez := by simp only [instrOf, ho]
    rw [h.instr_eq hi]
    refine branchEval_branch (i := .blez) h.zero (ctx.vRs.sle 0#32) ?_
      (fun h => absurd h Bool.false_ne_true) ?_ ?_
    · simp [Context.needLink, ho, Instruction.links]
    · rw [sle_zero]
      exact decide_eq_true_iff
    · simp only [Context.branchCase, ho]
  · have hi : instrOf ctx.instr = some .bgtz := by simp only [instrOf, ho]
    rw [h.instr_eq hi]
    refine branchEval_branch (i := .bgtz) h.zero ((0#32).slt ctx.vRs) ?_
      (fun h => absurd h Bool.false_ne_true) ?_ ?_
    · simp [Context.needLink, ho, Instruction.links]
    · rw [zero_slt]
      exact decide_eq_true_iff
    · simp only [Context.branchCase, ho]
  · have hi : instrOf ctx.instr = some .j := by simp only [instrOf, ho]
    rw [h.instr_eq hi]
    refine branchEval_jump (i := .j) h.zero ?_ (fun h => absurd h Bool.false_ne_true) ?_
    · simp [Context.needLink, ho, Instruction.links]
    · rw [show (ctx.arch mem).pc = ctx.pc from rfl, ← jumpPc_eq (hr.region hs (Or.inl hi))]
      simp only [Context.branchCase, ho]
  · have hi : instrOf ctx.instr = some .jal := by simp only [instrOf, ho]
    rw [h.instr_eq hi]
    refine branchEval_jump (i := .jal) h.zero ?_ (fun _ => rfl) ?_
    · simp [Context.needLink, ho, Instruction.links]
    · rw [show (ctx.arch mem).pc = ctx.pc from rfl, ← jumpPc_eq (hr.region hs (Or.inr hi))]
      simp only [Context.branchCase, ho]
  · have hsp : instrOf ctx.instr = regimmOf (rt ctx.instr) := by simp only [instrOf, ho]
    cases hi : instrOf ctx.instr with
    | none =>
      exact reserved_view h hi (branchCase_reserved ho (hsp.symm.trans hi)) (hr.reserved hs hi)
    | some i =>
      have he := encodes_of_instrOf hi
      rw [h.instr_eq hi]
      cases i
      case bltz =>
        have ht : rt ctx.instr = 0b00000#5 := he.2
        refine branchEval_branch (i := .bltz) h.zero (ctx.vRs.slt 0#32) ?_
          (fun h => absurd h Bool.false_ne_true) ?_ ?_
        · simp [Context.needLink, ho, ht, Instruction.links]
        · rw [slt_zero]
          exact decide_eq_true_iff
        · simp only [Context.branchCase, ho, ht]
      case bltzal =>
        have ht : rt ctx.instr = 0b10000#5 := he.2
        refine branchEval_branch (i := .bltzal) h.zero (ctx.vRs.slt 0#32) ?_
          (fun _ => rfl) ?_ ?_
        · simp [Context.needLink, ho, ht, Instruction.links]
        · rw [slt_zero]
          exact decide_eq_true_iff
        · simp only [Context.branchCase, ho, ht]
      case bgez =>
        have ht : rt ctx.instr = 0b00001#5 := he.2
        refine branchEval_branch (i := .bgez) h.zero ((0#32).sle ctx.vRs) ?_
          (fun h => absurd h Bool.false_ne_true) ?_ ?_
        · simp [Context.needLink, ho, ht, Instruction.links]
        · rw [zero_sle]
          exact decide_eq_true_iff
        · simp only [Context.branchCase, ho, ht]
      case bgezal =>
        have ht : rt ctx.instr = 0b10001#5 := he.2
        refine branchEval_branch (i := .bgezal) h.zero ((0#32).sle ctx.vRs) ?_
          (fun _ => rfl) ?_ ?_
        · simp [Context.needLink, ho, ht, Instruction.links]
        · rw [zero_sle]
          exact decide_eq_true_iff
        · simp only [Context.branchCase, ho, ht]
      all_goals cases (regimmOf_encodes (hsp.symm.trans hi)).1

end Branches

section Access

variable {ctx out : Context} {mem : Memory} {k : AccessKind} {isUnsigned : Bool}

/-- An access that fails the check of its address. -/
theorem addrError_view (hz : ctx.r 0#5 = 0#32)
    (ho : ({ out with delayed := ctx.delayed } : Context).arch mem = ctx.arch mem)
    (code : BitVec 5) (vaddr : Word) :
    (ctx.addrError out code vaddr).zeroed.view mem = (ctx.arch mem).enter code vaddr := by
  refine (Context.view_thrown { out with args := out.args.setBadVAddr vaddr } hz code ho).trans ?_
  exact congrArg _ (Args.badVAddr_setCode code ctx.delayed vaddr)

theorem load_misaligned (h : ctx.Holds mem)
    (hk : loadKind (op ctx.instr) = some (k, isUnsigned)) (hm : k.Misaligned ctx.memAddr)
    (junk : Word) : (ctx.arch mem).instr junk = (ctx.arch mem).enter exAdel ctx.memAddr := by
  obtain ⟨i, hi, he⟩ := (ctx.arch mem).execute_load hk
  rw [h.instr_eq hi, he]
  exact if_pos hm

theorem store_misaligned (h : ctx.Holds mem) (hk : storeKind (op ctx.instr) = some k)
    (hm : k.Misaligned ctx.memAddr) (junk : Word) :
    (ctx.arch mem).instr junk = (ctx.arch mem).enter exAdes ctx.memAddr := by
  obtain ⟨i, hi, he⟩ := (ctx.arch mem).execute_store hk
  rw [h.instr_eq hi, he]
  exact if_pos hm

/-- A load that has been checked and answered. -/
theorem loaded_view (h : ctx.Holds mem) (hk : loadKind (op ctx.instr) = some (k, isUnsigned))
    (hm : ¬ k.Misaligned ctx.memAddr) (ha : ctx.args.addr = ctx.memAddr)
    (hd : ctx.args.data = ByteMemory.word mem (translate ctx.args.addr)) (junk : Word) :
    ctx.loaded.zeroed.view mem = (ctx.arch mem).instr junk := by
  obtain ⟨i, hi, he⟩ := (ctx.arch mem).execute_load hk
  rw [h.instr_eq hi, he, loaded_eq hk hm ha hd, view_commit_setReg h.zero]
  exact (if_neg hm).symm

/-- A store that has been checked, when its request is taken. -/
theorem store_view (out : Context) (h : ctx.Holds mem) (hk : storeKind (op ctx.instr) = some k)
    (hm : ¬ k.Misaligned ctx.memAddr) (hs : out.state = .commit ∨ out.state = .storeAddrSent)
    (ho : out.arch mem = ctx.arch mem) (junk : Word) {mem' : Memory}
    (hmem : mem' = put (k.place (translate ctx.memAddr)) ctx.vRt mem) :
    out.zeroed.view mem' = (ctx.arch mem).instr junk := by
  obtain ⟨i, hi, he⟩ := (ctx.arch mem).execute_store hk
  have hz : out.r 0#5 = 0#32 := (congrFun (congrArg Arch.r ho) 0#5).trans h.zero
  have hv : out.view mem' = some (out.arch mem').advance := by
    rcases hs with hs | hs <;> rw [Context.view, hs]
  rw [h.instr_eq hi, he, Context.zeroed_eq hz, hv]
  refine Eq.trans ?_ (if_neg hm).symm
  rw [hmem, show out.arch (put (k.place (translate ctx.memAddr)) ctx.vRt mem) =
    { out.arch mem with mem := put (k.place (translate ctx.memAddr)) ctx.vRt mem } from rfl, ho]
  rfl

end Access

section System

variable {ctx out : Context} {mem : Memory}

theorem decode_cop0Decode (hd : ctx.decode.state = .cop0Decode) :
    op ctx.instr = 0b010000#6 := by
  unfold Context.decode at hd
  split at hd <;> simp_all [Context.throw]

/-- A word that the decoder refuses. -/
theorem decode_reserved (hd : ctx.decode.state = .exception) :
    ctx.decode = ctx.throw ctx exRi ∧ instrOf ctx.instr = none := by
  unfold Context.decode at hd ⊢
  split at hd
  case h_26 =>
    refine ⟨rfl, ?_⟩
    unfold instrOf
    split <;> first | contradiction | rfl
  all_goals cases hd

theorem cop0Decode_view (h : ctx.Holds mem) (ho : op ctx.instr = 0b010000#6)
    (hs : ctx.cop0Decode.state = .exception) :
    ctx.cop0Decode.zeroed.view mem = (ctx.arch mem).instr ctx.cop0Decode.args.badVAddr := by
  have hsp : instrOf ctx.instr = cop0Of ctx.instr := by simp only [instrOf, ho]
  rw [Context.cop0Decode] at hs ⊢
  split at hs
  case isTrue hc =>
    split at hs
    case isTrue => cases hs
    case isFalse hf =>
      have hi : instrOf ctx.instr = none := by rw [hsp, cop0Of, if_pos hc, if_neg hf]
      rw [if_pos hc, if_neg hf, h.instr_reserved hi]
      exact Context.view_thrown _ h.zero exRi rfl
  case isFalse => cases hs

theorem cop0Access_view (h : ctx.Holds mem) (ho : op ctx.instr = 0b010000#6)
    (hc : ctx.instr.getLsbD 25 = false) :
    ctx.cop0Access.zeroed.view mem = (ctx.arch mem).instr ctx.cop0Access.args.badVAddr := by
  have hsp : instrOf ctx.instr = if rs ctx.instr = 0b00000#5 then some .mfc0
      else if rs ctx.instr = 0b00100#5 then some .mtc0 else none := by
    simp only [instrOf, ho, cop0Of, hc, Bool.false_eq_true, if_false]
  by_cases hm : rs ctx.instr = 0b00000#5
  · rw [if_pos hm] at hsp
    rw [h.instr_eq hsp]
    simp only [Context.cop0Access, hm]
    change _ = (ctx.arch mem).readCp0 ctx.instr
    rw [Arch.readCp0]
    cases hf : cp0IdOf (rd ctx.instr ++ sel ctx.instr) with
    | none => rfl
    | some id => exact view_commit_setReg h.zero _ _ _
  · by_cases ht : rs ctx.instr = 0b00100#5
    · rw [if_neg hm, if_pos ht] at hsp
      rw [h.instr_eq hsp]
      simp only [Context.cop0Access, ht]
      change _ = (ctx.arch mem).writeCp0 ctx.instr
      rw [Arch.writeCp0]
      cases hf : cp0IdOf (rd ctx.instr ++ sel ctx.instr) with
      | none => rfl
      | some id => exact h.committed _ rfl rfl
    · rw [if_neg hm, if_neg ht] at hsp
      rw [h.instr_reserved hsp]
      have he : ctx.cop0Access = ctx.throw { ctx with
          state := if (cp0IdOf (rd ctx.instr ++ sel ctx.instr)).isNone then .unknown
            else .commit } exRi := by
        unfold Context.cop0Access
        split <;> first | contradiction | rfl
      rw [he]
      exact Context.view_thrown _ h.zero exRi rfl

theorem exceptionReturn_view (h : ctx.Holds mem) (hi : instrOf ctx.instr = some .eret) :
    ctx.exceptionReturn.zeroed.view mem =
      (ctx.arch mem).instr ctx.exceptionReturn.args.badVAddr := by
  have hz : ctx.exceptionReturn.r 0#5 = 0#32 := h.zero
  rw [h.instr_eq hi, Context.zeroed_eq hz]
  change _ = (ctx.arch mem).eret
  rw [Arch.eret, Context.slot_isSome]
  cases hd : ctx.delayed with
  | true =>
    have hs : ctx.exceptionReturn.state = .unknown := if_pos hd
    rw [Context.view, hs]
    rfl
  | false =>
    have hs : ctx.exceptionReturn.state = .fetch := if_neg (Bool.eq_false_iff.1 hd)
    rw [Context.view, hs]
    rfl

/-- `FETCH` at an address that is no word's. -/
theorem fetch_misaligned_view (hz : ctx.r 0#5 = 0#32) (hm : ctx.pc.toNat % 4 ≠ 0)
    (iresp : BusResp) :
    (ctx.fetch iresp).zeroed.view mem = (ctx.arch mem).instr (ctx.fetch iresp).args.badVAddr := by
  have hp : ctx.pc.extractLsb' 0 2 ≠ 0#2 := (low_ne_zero_iff ctx.pc).2 hm
  have hi : ∀ junk, (ctx.arch mem).instr junk = (ctx.arch mem).enter exAdel ctx.pc :=
    fun junk => if_pos hm
  rw [hi, Context.fetch, if_pos hp]
  exact addrError_view hz rfl exAdel ctx.pc

end System

end FrailCPU.RefCpu
