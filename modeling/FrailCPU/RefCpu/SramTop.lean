import FrailCPU.RefCpu.Progress

/-!
# The core on synchronous memories

`SRAMTop.sv`: the bus converters of `DBusToSRAMx` accept every request at once and answer it in
the cycle behind, with what the memory has read at the clock edge. The two ports belong to one
memory; what a port puts out behind a write, or behind a cycle without a request, is not
determined. A run of the core on such a memory is one over honest buses, and the core waits in
none of its cycles.
-/

namespace FrailCPU.RefCpu

open ByteMemory ClockedMachine

/-- `sramx_req_t`. -/
structure SramxReq where
  en : Bool
  wen : Strobe
  addr : Word
  wdata : Word
  deriving DecidableEq, Repr

/-- The request side of `DBusToSRAMx`, with the translation that `SRAMTop` puts behind it. -/
def dbusToSramx (dreq : DBusReq) : SramxReq :=
  ⟨dreq.valid, dreq.strobe, translate dreq.addr, dreq.data⟩

/-- The response side. -/
def sramxToDbus (lastValid : Bool) (rdata : Word) : BusResp := ⟨true, lastValid, rdata⟩

/-- A word that a port has read at the edge. -/
def SramxReq.read (m : Memory) (r : SramxReq) : Option Word :=
  if r.en && r.wen == 0#4 then some (ByteMemory.word m r.addr) else none

/-- `SRAMTop` with the registers `last_valid` of the converters, and the words the ports have to
put out; the monitors of the buses are those of `Machine`. -/
structure SramTop extends Machine where
  ilast : Bool := false
  dlast : Bool := false
  iread : Option Word := none
  dread : Option Word := none

structure SramInput where
  instRdata : Word := 0#32
  dataRdata : Word := 0#32
  extInt : BitVec 6 := 0#6

namespace SramTop

variable (s : SramTop) (i : SramInput)

/-- What the core reads. -/
def input : CoreInput where
  iresp := sramxToDbus s.ilast i.instRdata
  dresp := sramxToDbus s.dlast i.dataRdata
  extInt := i.extInt

def step : SramTop where
  toMachine := s.toMachine.step (s.input i)
  ilast := s.ctx.ireq.valid
  dlast := s.ctx.dreq.valid
  iread := (dbusToSramx s.ctx.ireq.toDreq).read s.mem
  dread := (dbusToSramx s.ctx.dreq).read s.mem

/-- The memories put out what they have read; the program keeps to what `Regular` asks. -/
structure Lawful : Prop where
  inst : ∀ w ∈ s.iread, i.instRdata = w
  data : ∀ w ∈ s.dread, i.dataRdata = w
  regular : s.ctx.Regular

instance : Decidable (s.Lawful i) :=
  -- the words that are read are at most one, not all of them
  have : Decidable (∀ w ∈ s.iread, i.instRdata = w) := Option.decidableForallMem _
  have : Decidable (∀ w ∈ s.dread, i.dataRdata = w) := Option.decidableForallMem _
  decidable_of_iff ((∀ w ∈ s.iread, i.instRdata = w) ∧ (∀ w ∈ s.dread, i.dataRdata = w) ∧
    s.ctx.Regular)
    ⟨fun h => ⟨h.1, h.2.1, h.2.2⟩, fun h => ⟨h.inst, h.data, h.regular⟩⟩

/-- The converters and the monitors agree. -/
structure Ports : Prop where
  inv : s.toMachine.Inv
  ilast : s.ilast = s.ipend.isSome
  dlast : s.dlast = s.dpend.isSome
  iread : ∀ q, s.ipend = some q → s.iread = some (ByteMemory.word s.mem (translate q.addr))
  dread : ∀ q, s.dpend = some q → q.strobe = 0#4 →
    s.dread = some (ByteMemory.word s.mem (translate q.addr))

def reset (mem : Memory) : SramTop := { mem := mem }

end SramTop

section Drive

variable {s : SramTop} {i : SramInput}

theorem SramTop.ports_reset (mem : Memory) : (reset mem).Ports where
  inv := Machine.inv_reset mem
  ilast := rfl
  dlast := rfl
  iread _ h := by cases h
  dread _ h := by cases h

/-- A port of a memory that answers in the cycle behind. -/
theorem Pending.answered_sram {p : Pending} {req : DBusReq} {last : Bool} {rdata : Word}
    (h : last = p.isSome) : p.answered req (sramxToDbus last rdata) = p := by
  subst h
  cases p <;> rfl

theorem SramTop.Ports.fair (h : s.Ports) (hl : s.Lawful i) :
    s.toMachine.Fair (s.input i) where
  honest := {
    inst := by
      change Answers s.mem (s.ipend.answered _ (sramxToDbus s.ilast i.instRdata)) i.instRdata
      rw [Pending.answered_sram h.ilast]
      exact fun q hq _ => hl.inst _ (h.iread q hq)
    data := by
      change Answers s.mem (s.dpend.answered _ (sramxToDbus s.dlast i.dataRdata)) i.dataRdata
      rw [Pending.answered_sram h.dlast]
      exact fun q hq hs => hl.data _ (h.dread q hq hs) }
  regular := hl.regular

/-- A port that is not asked while an answer is due. -/
theorem Pending.next_sram {p : Pending} {req : DBusReq} {last : Bool} {rdata : Word}
    (h : last = p.isSome) (hv : p.isSome = true → req.valid = false) :
    p.next req (sramxToDbus last rdata) = if req.valid then some req else none := by
  subst h
  cases p with
  | none =>
    cases hr : req.valid <;> simp [next, due, accepted, sramxToDbus, hr]
  | some q =>
    rw [hv rfl]
    rfl

theorem SramTop.Ports.ipend (h : s.Ports) :
    (s.step i).ipend = if s.ctx.ireq.valid then some s.ctx.ireq.toDreq else none := by
  refine Pending.next_sram h.ilast fun hp => ?_
  by_contra hv
  have hn := (h.inv.ireq_valid (Bool.not_eq_false _ ▸ hv)).1
  rw [hn] at hp
  cases hp

theorem SramTop.Ports.dpend (h : s.Ports) :
    (s.step i).dpend = if s.ctx.dreq.valid then some s.ctx.dreq else none := by
  refine Pending.next_sram h.dlast fun hp => ?_
  by_contra hv
  have hn := h.inv.dreq_valid (Bool.not_eq_false _ ▸ hv)
  rw [hn] at hp
  cases hp

theorem SramTop.Ports.step (h : s.Ports) (hl : s.Lawful i) : (s.step i).Ports where
  inv := (Machine.refines h.inv (h.fair hl)).kept
  ilast := by
    rw [h.ipend]
    change s.ctx.ireq.valid = _
    cases s.ctx.ireq.valid <;> rfl
  dlast := by
    rw [h.dpend]
    change s.ctx.dreq.valid = _
    cases s.ctx.dreq.valid <;> rfl
  iread q hq := by
    rw [h.ipend] at hq
    cases hv : s.ctx.ireq.valid with
    | false =>
      rw [hv] at hq
      cases hq
    | true =>
      rw [hv] at hq
      obtain rfl := Option.some.inj hq
      have hm : (s.step i).mem = s.mem := by
        change performed s.mem _ = s.mem
        rw [Pending.accepted_of_not_valid (h.inv.ireq_valid hv).2]
        rfl
      rw [hm]
      change (dbusToSramx s.ctx.ireq.toDreq).read s.mem = _
      rw [SramxReq.read]
      exact if_pos (by rw [dbusToSramx, IBusReq.toDreq, hv]; rfl)
  dread q hq hstr := by
    rw [h.dpend] at hq
    cases hv : s.ctx.dreq.valid with
    | false =>
      rw [hv] at hq
      cases hq
    | true =>
      rw [hv] at hq
      obtain rfl := Option.some.inj hq
      have hm : (s.step i).mem = s.mem := by
        change performed s.mem (s.dpend.accepted s.ctx.dreq (s.input i).dresp) = s.mem
        rw [h.inv.dreq_valid hv, Pending.accepted, hv]
        exact if_pos hstr
      rw [hm]
      change (dbusToSramx s.ctx.dreq).read s.mem = _
      rw [SramxReq.read]
      exact if_pos (by rw [dbusToSramx, hv, hstr]; rfl)

theorem SramTop.drives (h : s.Ports) (hl : s.Lawful i) :
    Drives SramTop.step Machine.step SramTop.toMachine SramTop.input SramTop.Ports Machine.Fair
      s i where
  kept := h.step hl
  simulates := rfl
  condition := h.fair hl

/-- The memories make the core wait in no cycle. -/
theorem SramTop.Ports.stalled (h : s.Ports) : s.ctx.stalled (s.input i) = false := by
  have hi : s.ctx.state = .fetchAddrSent → s.ilast = true := by
    intro hs
    have hp := h.inv.inst
    simp only [Machine.InstPort, hs] at hp
    obtain ⟨q, hq, -⟩ := hp
    rw [h.ilast, hq]
    rfl
  have hd : s.ctx.state = .loadAddrSent ∨ s.ctx.state = .storeAddrSent → s.dlast = true := by
    rintro (hs | hs)
    all_goals
      have hp := h.inv.data
      simp only [Machine.DataPort, hs] at hp
      obtain ⟨q, hq, -⟩ := hp
      rw [h.dlast, hq]
      rfl
  unfold Context.stalled
  cases hs : s.ctx.state with
  | fetch => exact Bool.and_false _
  | fetchAddrSent => exact congrArg Bool.not (hi hs)
  | loadAddrSent => exact congrArg Bool.not (hd (Or.inl hs))
  | storeAddrSent => exact congrArg Bool.not (hd (Or.inr hs))
  | _ => rfl

end Drive

/-- What has stopped stays so. -/
theorem Context.out_unknown {ctx : Context} (h : ctx.state = .unknown) (i : CoreInput) :
    (ctx.next i).state = .unknown := by
  change (ctx.out i).state = .unknown
  rw [out, h]
  exact h

theorem SramTop.run_unknown {s : SramTop} (h : s.ctx.state = .unknown) (is : List SramInput) :
    (run SramTop.step s is).ctx.state = .unknown :=
  run_invariant (P := fun s : SramTop => s.ctx.state = .unknown)
    (fun s i h => Context.out_unknown h (s.input i)) h is

/-- Every cycle counts, until the core has stopped. -/
theorem SramTop.busy_run {s : SramTop} {is : List SramInput} (hp : s.Ports)
    (hl : Along SramTop.step SramTop.Lawful s is)
    (hn : (run SramTop.step s is).ctx.state ≠ .unknown) :
    (collect SramTop.step (fun s i => s.toMachine.busy (s.input i)) s is).length = is.length := by
  induction is generalizing s with
  | nil => rfl
  | cons i is ih =>
    have hs : s.ctx.state ≠ .unknown := fun hs => hn (run_unknown hs (i :: is))
    have hb : s.toMachine.busy (s.input i) = [()] := by
      rw [Machine.busy, hp.stalled]
      exact if_neg (by simp [hs])
    rw [collect_cons, hb, List.length_append, ih (hp.step hl.1) hl.2 hn]
    exact Nat.add_comm 1 is.length

/-- The memory answers in the cycle behind. -/
def addiuSwReads : List SramInput :=
  [{}, { instRdata := 0x24010005#32 }, {}, {}, {}, {}, { instRdata := 0xac010000#32 }, {}, {}, {},
    {}, {}]

end FrailCPU.RefCpu
