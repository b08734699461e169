import FrailCPU.RefCpu.Port
import FrailCPU.Verilate.CBusDevice

/-!
# The stupid buffer

`StupidBuffer.sv`: a buffer of one line. It takes a request while it is idle, fetches the whole
line of its address into a LUTRAM, from the word that was asked for on, answers out of that, and
writes the whole line back behind a write. The memory as its client knows it has the write from
the moment the request is taken; the memory behind the bus gets it with the first word of the
line that is written back, and the words behind that one are what lies there already.
-/

namespace FrailCPU.RefCpu

open ByteMemory Verilate

/-- `LUTRAM`, read at once and written at the clock edge under the strobe. -/
abbrev Lutram := BitVec 4 → Word

def lutramWrite (ram : Lutram) (addr : BitVec 4) (strobe : Strobe) (wdata : Word) : Lutram :=
  Function.update ram addr (Lanes.maskedWrite (DCache.getMask strobe) (ram addr) wdata)

/-- `state_t`. -/
inductive BufferState
  | idle | fetch | ready | flush
  deriving DecidableEq, Repr

structure StupidBuffer where
  state : BufferState := .idle
  req : DBusReq := default
  offset : BitVec 4 := 0#4
  ram : Lutram := fun _ => 0#32

namespace StupidBuffer

variable (b : StupidBuffer) (dreq : DBusReq) (cresp : CBusResp)

/-- The DBus driver. -/
def dresp : BusResp := ⟨b.state == .idle, b.state == .ready, b.ram b.offset⟩

/-- The CBus driver. -/
def creq : CBusReq where
  valid := b.state == .fetch || b.state == .flush
  isWrite := b.state == .flush
  size := .size4
  addr := b.req.addr
  strobe := 0b1111#4
  data := b.ram b.offset
  len := mlen16

/-- The port of the LUTRAM. -/
def ramNext : Lutram :=
  match b.state with
  | .fetch => lutramWrite b.ram b.offset 0b1111#4 cresp.data
  | .ready => lutramWrite b.ram b.offset b.req.strobe b.req.data
  | _ => b.ram

def next : StupidBuffer :=
  match b.state with
  | .idle =>
    if dreq.valid then
      { b with
        state := .fetch
        req := dreq
        offset := lineOffset dreq.addr
        ram := b.ramNext cresp }
    else { b with ram := b.ramNext cresp }
  | .fetch =>
    if cresp.ready then
      { b with
        state := if cresp.last then .ready else .fetch
        offset := b.offset + 1#4
        ram := b.ramNext cresp }
    else { b with ram := b.ramNext cresp }
  | .ready =>
    { b with
      state := if b.req.strobe ≠ 0#4 then .flush else .idle
      ram := b.ramNext cresp }
  | .flush =>
    if cresp.ready then
      { b with
        state := if cresp.last then .idle else .flush
        offset := b.offset + 1#4
        ram := b.ramNext cresp }
    else { b with ram := b.ramNext cresp }

end StupidBuffer

/-- The word of a request behind its write. -/
def mergedWord (m : Memory) (p : Word) (req : DBusReq) : Word :=
  Lanes.maskedWrite (DCache.getMask req.strobe) (ByteMemory.word m p) req.data

/-- The memory behind a request for the address `p`. -/
def merged (m : Memory) (p : Word) (req : DBusReq) : Memory :=
  if req.strobe = 0#4 then m else setWord m p (mergedWord m p req)

section Lanes

theorem getMask_full : DCache.getMask 0b1111#4 = BitVec.allOnes 32 := by decide

theorem maskedWrite_full (old new : Word) :
    Lanes.maskedWrite (DCache.getMask 0b1111#4) old new = new := by
  rw [getMask_full, Lanes.maskedWrite, BitVec.allOnes_and, BitVec.not_allOnes,
    BitVec.zero_and, BitVec.or_zero]

theorem getMask_zero (old new : Word) :
    Lanes.maskedWrite (DCache.getMask 0#4) old new = old := by
  have h : DCache.getMask 0#4 = 0#32 := by decide
  rw [h, Lanes.maskedWrite, BitVec.zero_and, BitVec.not_zero, BitVec.allOnes_and,
    BitVec.zero_or]

theorem lutramWrite_full (ram : Lutram) (addr : BitVec 4) (wdata : Word) :
    lutramWrite ram addr 0b1111#4 wdata = Function.update ram addr wdata := by
  rw [lutramWrite, maskedWrite_full]

variable (m : Memory) (p : Word) (req : DBusReq)

/-- The word that was asked for. -/
theorem word_merged : ByteMemory.word (merged m p req) p = mergedWord m p req := by
  unfold merged
  split
  case isTrue h => rw [mergedWord, h, getMask_zero]
  case isFalse => exact word_setWord rfl

theorem word_merged_of_ne {x : Word} (h : base x ≠ base p) :
    ByteMemory.word (merged m p req) x = ByteMemory.word m x := by
  unfold merged
  split
  · rfl
  · exact word_setWord_of_ne h

end Lanes

namespace StupidBuffer

/-- What the buffer holds of the memory `m` behind it, at the beat `k` of its transaction, for a
client that knows the memory `m'`; the address of the request is `p` there. -/
def Holds (b : StupidBuffer) (p : Word) (m m' : Memory) (k : ℕ) : Prop :=
  match b.state with
  | .idle => m' = m
  | .fetch => b.offset = lineOffset p + BitVec.ofNat 4 k ∧
      (∀ j < k, b.ram (lineOffset p + BitVec.ofNat 4 j) =
        ByteMemory.word m (lineWord p (lineOffset p + BitVec.ofNat 4 j))) ∧
      m' = merged m p b.req
  | .ready => b.offset = lineOffset p ∧ (∀ o, b.ram o = ByteMemory.word m (lineWord p o)) ∧
      m' = merged m p b.req
  | .flush => b.offset = lineOffset p + BitVec.ofNat 4 k ∧
      (∀ o, b.ram o = ByteMemory.word m' (lineWord p o)) ∧ b.req.strobe ≠ 0#4 ∧
      m' = if k = 0 then merged m p b.req else m

variable {b : StupidBuffer} {p : Word} {m m' m1 : Memory} {k : ℕ} {dreq : DBusReq}
  {cresp : CBusResp}

/-- The answer is the word of the client's memory. -/
theorem Holds.answer (h : b.Holds p m m' k) (hs : b.state = .ready) (hr : b.req.strobe = 0#4) :
    b.dresp.data = ByteMemory.word m' p := by
  simp only [Holds, hs] at h
  obtain ⟨ho, hram, rfl⟩ := h
  change b.ram b.offset = _
  rw [hram, ho, lineWord_lineOffset, merged, if_pos hr]
  exact word_congr (base_base p)

theorem holds_of_idle (hs : b.state = .idle) (h : m' = m) : b.Holds p m m' k := by
  simp only [Holds, hs]
  exact h

/-- A request is taken. -/
theorem next_of_request (hs : b.state = .idle) (hv : dreq.valid = true) :
    b.next dreq cresp =
      { b with state := .fetch, req := dreq, offset := lineOffset dreq.addr } := by
  simp only [next, ramNext, hs, hv, if_true]

theorem holds_of_request (hs : b.state = .idle) (hv : dreq.valid = true)
    (hp : lineOffset p = lineOffset dreq.addr) (h : m' = merged m p dreq) :
    (b.next dreq cresp).Holds p m m' 0 := by
  rw [next_of_request hs hv]
  refine ⟨?_, fun j hj => absurd hj (Nat.not_lt_zero j), h⟩
  rw [hp]
  exact (BitVec.add_zero _).symm

/-- The offsets of the beats are all of a line. -/
theorem exists_beat (p : Word) (o : BitVec 4) : ∃ j < 16, o = lineOffset p + BitVec.ofNat 4 j := by
  refine ⟨(o - lineOffset p).toNat, (o - lineOffset p).isLt, ?_⟩
  rw [BitVec.ofNat_toNat, BitVec.setWidth_eq, BitVec.add_comm, BitVec.sub_add_cancel]

theorem add_ofNat_ne {o : BitVec 4} {j k : ℕ} (hj : j < k) (hk : k < 16) :
    o + BitVec.ofNat 4 j ≠ o + BitVec.ofNat 4 k := by
  intro h
  have ht := congrArg BitVec.toNat ((BitVec.add_right_inj o).1 h)
  simp only [BitVec.toNat_ofNat] at ht
  omega

variable (dreq cresp) in
/-- The buffer in a cycle of `FETCH`. -/
theorem next_of_fetch (hs : b.state = .fetch) :
    b.next dreq cresp =
      { b with
        state := if cresp.ready && cresp.last then .ready else .fetch
        offset := if cresp.ready then b.offset + 1#4 else b.offset
        ram := Function.update b.ram b.offset cresp.data } := by
  simp only [next, ramNext, hs, lutramWrite_full]
  cases cresp.ready <;> cases cresp.last <;> rfl

/-- The beats that have come stay. -/
theorem fetched_mono (h : b.Holds p m m' k) (hs : b.state = .fetch) (hk : k ≤ 15) (v : Word) :
    ∀ j < k, Function.update b.ram b.offset v (lineOffset p + BitVec.ofNat 4 j) =
      ByteMemory.word m (lineWord p (lineOffset p + BitVec.ofNat 4 j)) := by
  simp only [Holds, hs] at h
  intro j hj
  rw [Function.update_of_ne, h.2.1 j hj]
  rw [h.1]
  exact add_ofNat_ne hj (by omega)

theorem Holds.fetch_silent (h : b.Holds p m m' k) (hs : b.state = .fetch) (hk : k ≤ 15)
    (hr : cresp.ready = false) :
    (b.next dreq cresp).state = .fetch ∧ (b.next dreq cresp).Holds p m m' k := by
  have hmono := fetched_mono h hs hk cresp.data
  simp only [Holds, hs] at h
  rw [next_of_fetch _ _ hs, hr]
  exact ⟨rfl, h.1, hmono, h.2.2⟩

/-- The words of the line so far, with the one that has come. -/
theorem fetched_succ (h : b.Holds p m m' k) (hs : b.state = .fetch) (hk : k ≤ 15)
    (hd : cresp.data = ByteMemory.word m (lineWord p (lineOffset p + BitVec.ofNat 4 k))) :
    ∀ j < k + 1, Function.update b.ram b.offset cresp.data (lineOffset p + BitVec.ofNat 4 j) =
      ByteMemory.word m (lineWord p (lineOffset p + BitVec.ofNat 4 j)) := by
  intro j hj
  rcases Nat.lt_succ_iff_lt_or_eq.1 hj with hj | rfl
  · exact fetched_mono h hs hk cresp.data j hj
  · simp only [Holds, hs] at h
    rw [h.1, Function.update_self, hd]

theorem Holds.fetch_next (h : b.Holds p m m' k) (hs : b.state = .fetch) (hk : k < 15)
    (hr : cresp.ready = true) (hl : cresp.last = false)
    (hd : cresp.data = ByteMemory.word m (lineWord p (lineOffset p + BitVec.ofNat 4 k))) :
    (b.next dreq cresp).state = .fetch ∧ (b.next dreq cresp).Holds p m m' (k + 1) := by
  have hsucc := fetched_succ h hs hk.le hd
  simp only [Holds, hs] at h
  rw [next_of_fetch _ _ hs, hr, hl]
  refine ⟨rfl, ?_, hsucc, h.2.2⟩
  change b.offset + 1#4 = _
  rw [h.1, BitVec.ofNat_add, BitVec.add_assoc]

theorem Holds.fetch_last (h : b.Holds p m m' 15) (hs : b.state = .fetch)
    (hr : cresp.ready = true) (hl : cresp.last = true)
    (hd : cresp.data = ByteMemory.word m (lineWord p (lineOffset p + BitVec.ofNat 4 15))) :
    (b.next dreq cresp).state = .ready ∧ (b.next dreq cresp).Holds p m m' 0 := by
  have hsucc := fetched_succ h hs le_rfl hd
  simp only [Holds, hs] at h
  rw [next_of_fetch _ _ hs, hr, hl]
  refine ⟨rfl, ?_, ?_, h.2.2⟩
  · change b.offset + 1#4 = _
    rw [h.1, BitVec.add_assoc]
    exact BitVec.add_zero _
  · intro o
    obtain ⟨j, hj, rfl⟩ := exists_beat p o
    exact hsucc j hj

variable (dreq cresp) in
/-- `READY` merges the data of a write into the line. -/
theorem Holds.ready_next (h : b.Holds p m m' k) (hs : b.state = .ready) :
    (b.next dreq cresp).state = (if b.req.strobe ≠ 0#4 then .flush else .idle) ∧
      (b.next dreq cresp).Holds p m m' 0 := by
  simp only [Holds, hs] at h
  obtain ⟨ho, hram, rfl⟩ := h
  have hn : b.next dreq cresp =
      { b with
        state := if b.req.strobe ≠ 0#4 then .flush else .idle
        ram := lutramWrite b.ram b.offset b.req.strobe b.req.data } := by
    simp only [next, ramNext, hs]
  rw [hn]
  refine ⟨rfl, ?_⟩
  by_cases hz : b.req.strobe = 0#4
  · have hi : (if b.req.strobe ≠ 0#4 then BufferState.flush else .idle) = .idle :=
      if_neg (not_not_intro hz)
    exact holds_of_idle hi (if_pos hz)
  · have hf : (if b.req.strobe ≠ 0#4 then BufferState.flush else .idle) = .flush := if_pos hz
    simp only [Holds, hf]
    refine ⟨ho.trans (BitVec.add_zero _).symm, fun o => ?_, hz, rfl⟩
    rw [lutramWrite, hram]
    by_cases hoo : o = b.offset
    · subst hoo
      rw [Function.update_self, ho, lineWord_lineOffset, word_congr (base_base p),
        word_congr (base_base p), word_merged]
      rfl
    · rw [Function.update_of_ne hoo, hram, word_merged_of_ne]
      rw [base_lineWord, ← lineWord_lineOffset, ← ho]
      exact fun he => hoo (lineWord_inj he)

/-- The memory behind the bus when a word of the line has been written back. -/
theorem Holds.flushed (h : b.Holds p m m' k) (hs : b.state = .flush)
    (hm : m1 = setWord m (lineWord p (lineOffset p + BitVec.ofNat 4 k)) (b.ram b.offset)) :
    m1 = m' := by
  simp only [Holds, hs] at h
  obtain ⟨ho, hram, hz, hm'⟩ := h
  rw [hm, hram, ho]
  cases k with
  | zero =>
    rw [if_pos rfl] at hm'
    have hx : lineOffset p + BitVec.ofNat 4 0 = lineOffset p := BitVec.add_zero _
    rw [hx, lineWord_lineOffset, setWord_congr (base_base p), word_congr (base_base p), hm',
      word_merged, merged, if_neg hz]
  | succ k =>
    rw [if_neg (Nat.succ_ne_zero k)] at hm'
    rw [hm', setWord_word]

variable (dreq cresp) in
theorem next_of_flush (hs : b.state = .flush) :
    b.next dreq cresp =
      { b with
        state := if cresp.ready && cresp.last then .idle else .flush
        offset := if cresp.ready then b.offset + 1#4 else b.offset } := by
  simp only [next, ramNext, hs]
  cases cresp.ready <;> cases cresp.last <;> rfl

theorem Holds.flush_silent (h : b.Holds p m m' k) (hs : b.state = .flush)
    (hr : cresp.ready = false) :
    (b.next dreq cresp).state = .flush ∧ (b.next dreq cresp).Holds p m m' k := by
  simp only [Holds, hs] at h
  rw [next_of_flush _ _ hs, hr]
  exact ⟨rfl, h⟩

theorem Holds.flush_next (h : b.Holds p m m' k) (hs : b.state = .flush)
    (hr : cresp.ready = true) (hl : cresp.last = false)
    (hm : m1 = setWord m (lineWord p (lineOffset p + BitVec.ofNat 4 k)) (b.ram b.offset)) :
    (b.next dreq cresp).state = .flush ∧ (b.next dreq cresp).Holds p m1 m' (k + 1) := by
  have hf := h.flushed hs hm
  simp only [Holds, hs] at h
  rw [next_of_flush _ _ hs, hr, hl]
  refine ⟨rfl, ?_, h.2.1, h.2.2.1, ?_⟩
  · change b.offset + 1#4 = _
    rw [h.1, BitVec.ofNat_add, BitVec.add_assoc]
  · rw [if_neg (Nat.succ_ne_zero k), hf]

theorem Holds.flush_last (h : b.Holds p m m' k) (hs : b.state = .flush)
    (hr : cresp.ready = true) (hl : cresp.last = true)
    (hm : m1 = setWord m (lineWord p (lineOffset p + BitVec.ofNat 4 k)) (b.ram b.offset)) :
    (b.next dreq cresp).state = .idle ∧ (b.next dreq cresp).Holds p m1 m' 0 := by
  have hf := h.flushed hs hm
  rw [next_of_flush _ _ hs, hr, hl]
  exact ⟨rfl, holds_of_idle rfl hf.symm⟩

theorem valid_iff : b.creq.valid = true ↔ b.state = .fetch ∨ b.state = .flush := by
  simp [creq]

theorem creq_of_idle (hs : b.state = .idle) : b.creq.valid = false := by
  rw [creq, hs]
  rfl

theorem creq_of_ready (hs : b.state = .ready) : b.creq.valid = false := by
  rw [creq, hs]
  rfl

theorem ne_idle_of_valid (hv : b.creq.valid = true) : b.state ≠ .idle := by
  rcases valid_iff.1 hv with hs | hs <;> simp [hs]

theorem addrOk_of_idle (hs : b.state = .idle) : b.dresp.addrOk = true := beq_iff_eq.2 hs

theorem dataOk_of_ready (hs : b.state = .ready) : b.dresp.dataOk = true := beq_iff_eq.2 hs

variable (dreq cresp) in
theorem next_req (hs : b.state ≠ .idle) : (b.next dreq cresp).req = b.req := by
  unfold next
  split
  · contradiction
  · split <;> rfl
  · rfl
  · split <;> rfl

section Monitor

variable (q : Pending) (req : DBusReq)

/-- Nothing is taken but from an idle buffer. -/
theorem accepted_of_ne (hs : b.state ≠ .idle) : q.accepted req b.dresp = none := by
  have ha : b.dresp.addrOk = false := beq_eq_false_iff_ne.2 hs
  rw [Pending.accepted, ha, Bool.and_false]
  rfl

theorem accepted_of_idle (hs : b.state = .idle) :
    Pending.accepted none req b.dresp = if req.valid then some req else none := by
  rw [Pending.accepted, dresp, hs]
  cases req.valid <;> rfl

/-- The monitor beside an idle buffer. -/
theorem pend_of_idle (hs : b.state = .idle) :
    Pending.next none req b.dresp = if req.valid then some req else none := by
  rw [Pending.next, Pending.due, accepted_of_idle req hs, dresp, hs]
  rfl

theorem pend_of_ready (hs : b.state = .ready) : q.next req b.dresp = none := by
  rw [Pending.next, dresp, hs]
  rfl

theorem pend_of_busy (hv : b.creq.valid = true) : q.next req b.dresp = q := by
  have hd : b.dresp.dataOk = false := by
    rcases valid_iff.1 hv with hs | hs <;> rw [dresp, hs] <;> rfl
  rw [Pending.next, hd, Pending.due, accepted_of_ne q req (ne_idle_of_valid hv)]
  cases q <;> rfl

theorem answered_of_ne (hs : b.state ≠ .ready) : q.answered req b.dresp = none := by
  have hd : b.dresp.dataOk = false := beq_eq_false_iff_ne.2 hs
  rw [Pending.answered, hd]
  exact if_neg Bool.false_ne_true

theorem answered_of_ready (hs : b.state = .ready) :
    Pending.answered (some b.req) req b.dresp = some b.req := by
  rw [Pending.answered_some, dresp, hs]
  rfl

end Monitor

/-- A cycle of the buffer over a bus that serves its transaction, at the address `a` there. -/
structure Transfers (b : StupidBuffer) (p : Word) (m1 m' : Memory) (k : ℕ) (dreq : DBusReq)
    (cresp : CBusResp) : Prop where
  silent : cresp.ready = false →
    (b.next dreq cresp).state = b.state ∧ (b.next dreq cresp).Holds p m1 m' k
  beat : cresp.ready = true → k < 15 →
    (b.next dreq cresp).state = b.state ∧ (b.next dreq cresp).Holds p m1 m' (k + 1)
  last : cresp.ready = true → k = 15 →
    (b.next dreq cresp).state = (if b.state = .fetch then .ready else .idle) ∧
      (b.next dreq cresp).Holds p m1 m' 0

variable (dreq) in
theorem Holds.transfers (h : b.Holds p m m' k) (hv : b.creq.valid = true) (hk : k ≤ 15)
    {x a : Word}
    (hb : CBusDevice.Beats m x { b.creq with addr := a } k cresp m1)
    (hx : base x = lineWord p (lineOffset p + BitVec.ofNat 4 k)) :
    b.Transfers p m1 m' k dreq cresp := by
  have hbase : base x = base (lineWord p (lineOffset p + BitVec.ofNat 4 k)) := by
    rw [hx, base_lineWord]
  have hl : cresp.ready = true → cresp.last = decide (k = 15) := hb.last
  rcases valid_iff.1 hv with hs | hs
  · have hw : ({ b.creq with addr := a } : CBusReq).isWrite = false := by
      change (b.state == .flush) = false
      rw [hs]
      rfl
    have hd : cresp.ready = true →
        cresp.data = ByteMemory.word m (lineWord p (lineOffset p + BitVec.ofNat 4 k)) :=
      fun hr => (hb.read hr hw).1.trans (word_congr hbase)
    refine ⟨fun hr => ?_, fun hr hk => ?_, fun hr hk => ?_⟩
    · rw [(hb.silent hr).2, hs]
      exact h.fetch_silent hs hk hr
    · rw [(hb.read hr hw).2, hs]
      exact h.fetch_next hs hk hr (by rw [hl hr, decide_eq_false hk.ne]) (hd hr)
    · subst hk
      rw [(hb.read hr hw).2, hs]
      exact h.fetch_last hs hr (by rw [hl hr]; rfl) (hd hr)
  · have hw : ({ b.creq with addr := a } : CBusReq).isWrite = true := by
      change (b.state == .flush) = true
      rw [hs]
      rfl
    have hm : cresp.ready = true →
        m1 = setWord m (lineWord p (lineOffset p + BitVec.ofNat 4 k)) (b.ram b.offset) := by
      intro hr
      rw [hb.write hr hw, setWord_congr hbase]
      exact congrArg _ (maskedWrite_full _ _)
    refine ⟨fun hr => ?_, fun hr hk => ?_, fun hr hk => ?_⟩
    · rw [(hb.silent hr).2, hs]
      exact h.flush_silent hs hr
    · rw [hs]
      exact h.flush_next hs hr (by rw [hl hr, decide_eq_false hk.ne]) (hm hr)
    · subst hk
      rw [hs]
      exact h.flush_last hs hr (by rw [hl hr]; rfl) (hm hr)

end StupidBuffer

end FrailCPU.RefCpu
