import FrailCPU.DCache.Tags
import FrailCPU.Library.LineStore
import FrailCPU.Library.Machine
import FrailCPU.Memory.Bus

/-!
# The data cache and its memory

The cache, the memory that answers it, and what the correctness of the cache is told with: the
tag array when the pair was accepted, the words as they were last fetched or stored, and the
words that an uncached store has changed behind the cache.
-/

namespace FrailCPU.DCache

open ClockedMachine LineStore

/-- What a cycle presents to the cache and to the memory. -/
structure Access where
  dreq : Port → DBusReq
  isUncached : Port → Bool
  beat : Beat

def Access.input (a : Access) (resp : CBusResp) : Input :=
  ⟨a.dreq, a.isUncached, resp, .unknown, 0#32⟩

/-- The bytes of a request that are not written are zero, as `writedata.sv` leaves them. -/
def CleanLanes (r : DBusReq) : Prop := getMask r.strobe &&& r.data = r.data

instance (r : DBusReq) : Decidable (CleanLanes r) :=
  inferInstanceAs (Decidable (getMask r.strobe &&& r.data = r.data))

/-- A word of memory after a store. -/
def storeWord (mem : BitVec 30 → Word) (r : DBusReq) : BitVec 30 → Word :=
  Function.update mem (wordAddr r.addr)
    (Lanes.maskedWrite (getMask r.strobe) (mem (wordAddr r.addr)) r.data)

/-- A word changes in its line. -/
theorem lineWords_update (mem : BitVec 30 → Word) (l l' : Tag × Index) (o o' : Offset) (w : Word) :
    lineWords (Function.update mem (l'.1 ++ l'.2 ++ o') w) l o =
      if l = l' ∧ o = o' then w else lineWords mem l o := by
  have hiff : l.1 ++ l.2 ++ o = l'.1 ++ l'.2 ++ o' ↔ l = l' ∧ o = o' := by
    rw [append_inj_iff, append_inj_iff, Prod.ext_iff]
  rw [lineWords, Function.update_apply]
  by_cases hl : l = l' ∧ o = o'
  · rw [if_pos (hiff.mpr hl), if_pos hl]
  · rw [if_neg fun hn => hl (hiff.mp hn), if_neg hl]
    rfl

namespace State

variable (s : State)

/-- The request accesses the data RAM on behalf of an instruction. -/
def performs (p : Port) : Bool := (s.req p).valid && !(s.cacheHandle.side p).isUncached

def storedBy (p : Port) (mem : BitVec 30 → Word) : BitVec 30 → Word :=
  if s.performs p then storeWord mem (s.req p) else mem

/-- The slot is being filled. -/
def filling (k : Slot) : Bool :=
  match s.fsm.state with
  | .fetch _ => k == s.fsm.missAddr.slot
  | _ => false

/-- The line that a slot of the data RAM holds. The slot of a refill holds none. -/
def names (k : Slot) : Option (Tag × Index) :=
  if s.filling k then none
  else if (s.metaRam k.index k.line).valid then some ((s.metaRam k.index k.line).tag, k.index)
  else none

def words (k : Slot) (o : Offset) : Word := s.dataRam ⟨k, o⟩

/-- The line of a request. -/
def lineOf (p : Port) : Tag × Index := (tagOf (s.req p).addr, s.index p)

end State

structure System where
  cache : State := {}
  bus : BusMemory
  before : Index → Meta := fun _ _ => default
  held : BitVec 30 → Word
  aliased : BitVec 30 → Bool := fun _ => false

namespace System

variable (t : System) (a : Access)

def resp : CBusResp := t.bus.resp t.cache.dcreq a.beat

def input : Input := a.input (t.resp a)

/-- The words as last fetched or stored: a beat of a refill, or the stores of the pair with
the access. -/
def heldNext : BitVec 30 → Word :=
  match t.cache.fsm.state with
  | .fetch _ =>
    if (t.resp a).ready then
      Function.update t.held (t.bus.word t.cache.dcreq) (t.resp a).data
    else t.held
  | _ =>
    if t.cache.en then t.cache.storedBy .two (t.cache.storedBy .one t.held) else t.held

def aliasedNext : BitVec 30 → Bool :=
  match t.cache.fsm.state with
  | .fetch _ =>
    if (t.resp a).ready then Function.update t.aliased (t.bus.word t.cache.dcreq) false
    else t.aliased
  | .uncache _ =>
    if (t.resp a).ready && t.cache.dcreq.isWrite then
      Function.update t.aliased (t.bus.word t.cache.dcreq) true
    else t.aliased
  | _ => t.aliased

/-- A clock edge. -/
def step : System where
  cache := t.cache.next (t.input a)
  bus := t.bus.next t.cache.dcreq a.beat
  before := t.cache.beforeNext t.before
  held := t.heldNext a
  aliased := t.aliasedNext a

/-- Reset with a cleared tag array and any memory. -/
def reset (mem : BitVec 30 → Word) : System := { bus := { mem }, held := mem }

/-! ### Evaluation -/

/-- What is in the data RAM after a write. -/
theorem ramWrite_apply (mem : DataAddr → Word) (en : Bool) (x : DataAddr) (strobe : Strobe)
    (w : Word) : ramWrite mem en x strobe w = fun y =>
      if en && y == x then Lanes.maskedWrite (getMask strobe) (mem y) w else mem y := by
  funext y
  rw [ramWrite]
  cases en with
  | false => rfl
  | true =>
      rw [if_pos rfl, Function.update_apply, Bool.true_and]
      by_cases h : y = x
      · rw [if_pos h, if_pos (beq_iff_eq.mpr h), h]
      · rw [if_neg h, if_neg (by rwa [beq_iff_eq])]

/-- A clock edge with the data RAM written out, so that a run can be evaluated. -/
def stepEval : System :=
  let s := t.cache
  let one := fun y =>
    if s.port1En && y == s.port1Addr then
      Lanes.maskedWrite (getMask s.port1Wen) (s.dataRam y) (s.req .one).data
    else s.dataRam y
  let two := fun y =>
    if s.port2En && y == s.port2Addr then
      Lanes.maskedWrite (getMask s.port2Wen) (one y) (s.port2DataW (t.input a))
    else one y
  { t.step a with
    cache :=
      { s.next (t.input a) with
        dataRam := two } }

theorem step_eq_stepEval : step = stepEval := by
  funext t a
  have h : t.cache.dataRamNext (t.input a) = (t.stepEval a).cache.dataRam := by
    rw [State.dataRamNext, ramWrite_apply, ramWrite_apply]
    rfl
  have hcache : (t.step a).cache = (t.stepEval a).cache := by
    change t.cache.next (t.input a) = { t.cache.next (t.input a) with
      dataRam := (t.stepEval a).cache.dataRam }
    rw [← h]
    rfl
  change t.step a = { t.step a with cache := (t.stepEval a).cache }
  rw [← hcache]

variable {t a}

/-! ### The pace of the bus -/

theorem ready_of_last (h : (t.resp a).last = true) : (t.resp a).ready = true :=
  BusMemory.last_imp_ready h

theorem polite_input : State.Polite (t.input a) := ready_of_last

theorem resp_of_quiet (h : t.cache.dcreq.valid = false) :
    (t.resp a).ready = false ∧ (t.resp a).last = false := by
  rw [resp, BusMemory.resp, h]
  exact ⟨rfl, rfl⟩

theorem bus_step_of_quiet (h : t.cache.dcreq.valid = false) : (t.step a).bus = t.bus := by
  apply BusMemory.next_of_idle
  rw [h, Bool.false_and]

theorem mem_step_of_read (h : t.cache.dcreq.isWrite = false) :
    (t.step a).bus.mem = t.bus.mem := BusMemory.next_mem_of_read h

/-- The beats of a burst are counted by the cache and by the memory alike. -/
structure Paced (t : System) : Prop where
  fetch : ∀ p, t.cache.fsm.state = .fetch p → t.bus.beat = t.cache.fsm.missAddr.offset
  writeback : ∀ p, t.cache.fsm.state = .writeback p → t.bus.beat = t.cache.fsm.offsetCount
  single : (∀ p, t.cache.fsm.state ≠ .fetch p) → (∀ p, t.cache.fsm.state ≠ .writeback p) →
    t.bus.beat = 0#4

theorem dcreq_fetch {p : Port} (h : t.cache.fsm.state = .fetch p) :
    t.cache.dcreq.valid = true ∧ t.cache.dcreq.isWrite = false ∧ t.cache.dcreq.len = mlen16 ∧
      t.cache.dcreq.addr = State.lineAddr (tagOf (t.cache.req p).addr) (t.cache.index p) := by
  rw [State.dcreq, State.cbusAddr, h]
  exact ⟨rfl, rfl, rfl, rfl⟩

theorem dcreq_writeback {p : Port} (h : t.cache.fsm.state = .writeback p) :
    t.cache.dcreq.valid = t.cache.fsm.delayCounter ∧ t.cache.dcreq.isWrite = true ∧
      t.cache.dcreq.len = mlen16 ∧ t.cache.dcreq.strobe = 15#4 ∧
      t.cache.dcreq.data = t.cache.fsm.buffer t.cache.fsm.offsetCount ∧
      t.cache.dcreq.addr = State.lineAddr
        ((t.cache.cacheHandle.side p).metaR (t.cache.processReplaceLine p)).tag
        (t.cache.index p) := by
  rw [State.dcreq, State.cbusAddr, h]
  exact ⟨rfl, rfl, rfl, rfl, rfl, rfl⟩

theorem dcreq_uncache {p : Port} (h : t.cache.fsm.state = .uncache p) :
    t.cache.dcreq.valid = true ∧ t.cache.dcreq.isWrite = ((t.cache.req p).strobe != 0#4) ∧
      t.cache.dcreq.len = mlen1 ∧ t.cache.dcreq.addr = (t.cache.req p).addr := by
  rw [State.dcreq, State.cbusAddr, h]
  exact ⟨rfl, rfl, rfl, rfl⟩

theorem word_fetch {p : Port} (h : t.cache.fsm.state = .fetch p) :
    t.bus.word t.cache.dcreq = tagOf (t.cache.req p).addr ++ t.cache.index p ++ t.bus.beat := by
  rw [BusMemory.word, (dcreq_fetch h).2.2.2, word_lineAddr]

theorem word_writeback {p : Port} (h : t.cache.fsm.state = .writeback p) :
    t.bus.word t.cache.dcreq =
      ((t.cache.cacheHandle.side p).metaR (t.cache.processReplaceLine p)).tag ++ t.cache.index p ++
        t.bus.beat := by
  rw [BusMemory.word, (dcreq_writeback h).2.2.2.2.2, word_lineAddr]

theorem resp_fetch {p : Port} (h : t.cache.fsm.state = .fetch p) :
    (t.resp a).ready = a.beat.ready ∧ (t.resp a).last = (a.beat.ready && t.bus.beat == 15#4) := by
  obtain ⟨hv, -, hl, -⟩ := dcreq_fetch h
  rw [resp, BusMemory.resp, hv, hl]
  exact ⟨rfl, rfl⟩

theorem beat_step : (t.step a).bus.beat =
    if (t.resp a).ready then (if (t.resp a).last then 0#4 else t.bus.beat + 1#4)
    else t.bus.beat := by
  change (t.bus.next t.cache.dcreq a.beat).beat = _
  rw [BusMemory.next, resp, BusMemory.resp]
  cases t.cache.dcreq.valid && a.beat.ready <;> rfl

theorem last_eq : (t.resp a).last =
    ((t.resp a).ready && t.bus.beat == t.cache.dcreq.len) := rfl

/-- With the last beat every word of the line has gone over the bus. -/
theorem arrived_of_last (hlen : t.cache.dcreq.len = mlen16) (hl : (t.resp a).last = true)
    (o : Offset) : o < t.bus.beat ∨ ((t.resp a).ready = true ∧ o = t.bus.beat) := by
  have hbeat : t.bus.beat = 15#4 := by
    have hl' := hl
    rw [last_eq, hlen, Bool.and_eq_true, beq_iff_eq] at hl'
    exact hl'.2
  have hcases : o < 15#4 ∨ o = 15#4 := by bv_omega
  rw [hbeat]
  exact hcases.imp_right fun ho => ⟨ready_of_last hl, ho⟩

theorem arrived_of_lt {o : Offset} (hlen : t.cache.dcreq.len = mlen16)
    (hl : (t.resp a).last = false) (ho : o < (t.step a).bus.beat) :
    o < t.bus.beat ∨ ((t.resp a).ready = true ∧ o = t.bus.beat) := by
  rw [beat_step, hl, if_neg Bool.false_ne_true] at ho
  cases hr : (t.resp a).ready with
  | false =>
      rw [hr, if_neg Bool.false_ne_true] at ho
      exact Or.inl ho
  | true =>
      rw [hr, if_pos rfl] at ho
      have hne : t.bus.beat ≠ 15#4 := by
        intro hn
        rw [last_eq, hr, hn, hlen] at hl
        cases hl
      have hcases : o < t.bus.beat ∨ o = t.bus.beat := by bv_omega
      exact hcases.imp_right fun ho => ⟨rfl, ho⟩

theorem paced_reset (mem : BitVec 30 → Word) : (reset mem).Paced :=
  ⟨fun _ h => (by cases h), fun _ h => (by cases h), fun _ _ => rfl⟩

/-- A single access has one beat. -/
theorem last_of_single {p : Port} (hp : t.Paced) (h : t.cache.fsm.state = .uncache p) :
    (t.resp a).last = (t.resp a).ready := by
  have hb := hp.single (by rw [h]; simp) (by rw [h]; simp)
  rw [resp, BusMemory.resp, hb, (dcreq_uncache h).2.2.1]
  exact Bool.and_true _

theorem fsm_of_accept (h : t.cache.en = true) : (t.step a).cache.fsm = t.cache.fsm := by
  change t.cache.fsmNext (t.input a) = _
  rw [State.fsmNext, h, if_pos rfl]

theorem Paced.step (hp : t.Paced) (h : t.cache.Sound t.before) : (t.step a).Paced := by
  cases hen : t.cache.en with
  | true =>
      have hi := (h.phase.accepts hen).idle
      have hs : (t.step a).cache.fsm.state = .idle := by rw [fsm_of_accept hen, hi]
      refine ⟨fun p hf => ?_, fun p hf => ?_, fun _ _ => ?_⟩
      · rw [hs] at hf
        cases hf
      · rw [hs] at hf
        cases hf
      · rw [bus_step_of_quiet (by simp [State.dcreq, hi])]
        exact hp.single (by rw [hi]; simp) (by rw [hi]; simp)
  | false =>
      cases h.phase with
      | ready en _ _ _ _ => rw [hen] at en; cases en
      | finished en _ _ _ _ _ => rw [hen] at en; cases en
      | think hb hi hu hd =>
          have hzero := hp.single (by rw [hi]; simp) (by rw [hi]; simp)
          have hbus : (t.step a).bus = t.bus := bus_step_of_quiet (by simp [State.dcreq, hi])
          obtain ⟨p, -, -, ⟨-, hfsm⟩ | ⟨-, hfsm⟩⟩ :=
            State.fsm_of_due (i := t.input a) hb hi hd hu
          · have hs : (t.step a).cache.fsm.state = .uncache p := congrArg Fsm.state hfsm
            refine ⟨fun q hf => ?_, fun q hf => ?_, fun _ _ => by rw [hbus, hzero]⟩
            · rw [hs] at hf
              cases hf
            · rw [hs] at hf
              cases hf
          · refine ⟨fun q _ => ?_, fun q _ => ?_, fun _ _ => by rw [hbus, hzero]⟩
            · rw [hbus, hzero]
              exact (congrArg (fun f : Fsm => f.missAddr.offset) hfsm).symm
            · rw [hbus, hzero]
              exact (congrArg Fsm.offsetCount hfsm).symm
      | writeback p hb hs _ _ _ =>
          have hfsm := hb.fsm_writeback (i := t.input a) hs
          have hready : (t.input a).dcresp.ready = (t.resp a).ready := rfl
          have hlast : (t.input a).dcresp.last = (t.resp a).last := rfl
          have hbeat := beat_step (t := t) (a := a)
          have hold := hp.writeback p hs
          cases hr : (t.resp a).ready with
          | false =>
              have hl : (t.resp a).last = false := by
                cases hl : (t.resp a).last with
                | false => rfl
                | true => rw [ready_of_last hl] at hr; cases hr
              have hs' : (t.step a).cache.fsm.state = .writeback p := by
                change (t.cache.next (t.input a)).fsm.state = _
                rw [hfsm, State.fsmWriteback, hready, hr, hs]
                rfl
              rw [hr, if_neg Bool.false_ne_true] at hbeat
              refine ⟨fun q hf => ?_, fun q _ => ?_, fun _ hw => absurd hs' (hw p)⟩
              · rw [hs'] at hf
                cases hf
              · rw [hbeat, hold]
                change _ = (t.cache.next (t.input a)).fsm.offsetCount
                rw [hfsm, State.fsmWriteback, hready, hr]
                rfl
          | true =>
              rw [hr, if_pos rfl] at hbeat
              cases hl : (t.resp a).last with
              | true =>
                  rw [hl, if_pos rfl] at hbeat
                  have hs' : (t.step a).cache.fsm.state = .fetch p := by
                    change (t.cache.next (t.input a)).fsm.state = _
                    rw [hfsm, State.fsmWriteback, hready, hlast, hr, hl]
                    rfl
                  refine ⟨fun q _ => ?_, fun q hf => ?_, fun hf _ => absurd hs' (hf p)⟩
                  · rw [hbeat]
                    change _ = (t.cache.next (t.input a)).fsm.missAddr.offset
                    rw [hfsm, State.fsmWriteback, hlast, hl]
                    rfl
                  · rw [hs'] at hf
                    cases hf
              | false =>
                  rw [hl, if_neg Bool.false_ne_true] at hbeat
                  have hs' : (t.step a).cache.fsm.state = .writeback p := by
                    change (t.cache.next (t.input a)).fsm.state = _
                    rw [hfsm, State.fsmWriteback, hready, hlast, hr, hl]
                    rfl
                  refine ⟨fun q hf => ?_, fun q _ => ?_, fun _ hw => absurd hs' (hw p)⟩
                  · rw [hs'] at hf
                    cases hf
                  · rw [hbeat, hold]
                    change _ = (t.cache.next (t.input a)).fsm.offsetCount
                    rw [hfsm, State.fsmWriteback, hready, hr]
                    rfl
      | fetch p hb hs _ _ =>
          have hfsm := hb.fsm_fetch (i := t.input a) hs
          have hready : (t.input a).dcresp.ready = (t.resp a).ready := rfl
          have hbeat := beat_step (t := t) (a := a)
          have hold := hp.fetch p hs
          cases hl : (t.resp a).last with
          | true =>
              have hs' : (t.step a).cache.fsm.state = .idle :=
                hb.fetch_last hs hl polite_input
              rw [ready_of_last hl, hl, if_pos rfl, if_pos rfl] at hbeat
              refine ⟨fun q hf => ?_, fun q hf => ?_, fun _ _ => hbeat⟩
              · rw [hs'] at hf
                cases hf
              · rw [hs'] at hf
                cases hf
          | false =>
              have hs' : (t.step a).cache.fsm.state = .fetch p := hb.fetch_more hs hl
              refine ⟨fun q _ => ?_, fun q hf => ?_, fun hf _ => absurd hs' (hf p)⟩
              · rw [hbeat, hl, if_neg Bool.false_ne_true, hold]
                change _ = (t.cache.next (t.input a)).fsm.missAddr.offset
                rw [hfsm, State.fsmFetch, hready]
                cases (t.resp a).ready <;> rfl
              · rw [hs'] at hf
                cases hf
      | uncache p hb hs _ _ =>
          have hfsm := hb.fsm_uncache (i := t.input a) hs
          have hbeat := beat_step (t := t) (a := a)
          have hzero := hp.single (by rw [hs]; simp) (by rw [hs]; simp)
          rw [last_of_single hp hs, hzero] at hbeat
          have hs' : (t.step a).cache.fsm.state = .idle ∨
              (t.step a).cache.fsm.state = .uncache p := by
            change (t.cache.next (t.input a)).fsm.state = _ ∨
              (t.cache.next (t.input a)).fsm.state = _
            rw [hfsm]
            cases (t.input a).dcresp.last with
            | true => exact Or.inl rfl
            | false => exact Or.inr rfl
          refine ⟨fun q hf => ?_, fun q hf => ?_, fun _ _ => ?_⟩
          · rcases hs' with hs' | hs' <;> rw [hs'] at hf <;> cases hf
          · rcases hs' with hs' | hs' <;> rw [hs'] at hf <;> cases hf
          · rw [hbeat]
            cases (t.resp a).ready <;> rfl

end System

end FrailCPU.DCache
