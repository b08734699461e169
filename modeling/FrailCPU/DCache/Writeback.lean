import FrailCPU.DCache.Answer
import FrailCPU.DCache.Dirty

/-!
# Write-backs

A write-back reads the victim from the data RAM, a word in each cycle, through the word
counter, the latency of the RAM and the place in the buffer, while the bus takes the buffer word
by word at its own pace. The reading is always two words ahead of a bus that does not take a
beat in the cycle in which the request first appears. A record beside the cache remembers the
RAM and the tags at the acceptance of what is in the latch.
-/

namespace FrailCPU.DCache

open ClockedMachine

/-- The line is written back in the state. -/
def FsmState.writesBack : FsmState → Bool
  | .writeback _ | .writebackInst => true
  | _ => false

namespace State

variable {s : State} {i : Input}

/-- The line that a CACHE operation in the latch addresses. -/
def operSlot (s : State) : Slot := ⟨s.cacheHandle.instOperLine, s.index .one⟩

/-! ### The buffer -/

/-- The buffer in cycle `c` of a write-back: the word behind the counter is on the read port,
and all words before it are in their places. -/
structure Filling (s : State) (c : ℕ) : Prop where
  offset : s.fsm.missAddr.offset = BitVec.ofNat 4 c
  delay : s.fsm.delayCounter = decide (0 < c)
  place : 0 < c → s.fsm.bufferOffset = BitVec.ofNat 4 (c - 1)
  port : 0 < c →
    s.portDataR .two = s.dataRam ⟨s.fsm.missAddr.slot, BitVec.ofNat 4 (c - 1)⟩
  buffer : ∀ k : Offset, k.toNat + 2 ≤ c →
    s.fsm.buffer k = s.dataRam ⟨s.fsm.missAddr.slot, k⟩

theorem filling_zero (ho : s.fsm.missAddr.offset = 0#4) (hd : s.fsm.delayCounter = false) :
    s.Filling 0 where
  offset := ho
  delay := hd
  place h := absurd h (lt_irrefl 0)
  port h := absurd h (lt_irrefl 0)
  buffer _ h := absurd h (by omega)

theorem ofNat_add_one (c : ℕ) : BitVec.ofNat 4 c + 1#4 = BitVec.ofNat 4 (c + 1) := by
  rw [BitVec.ofNat_add]

/-- A cycle of a write-back that is not its last one. -/
theorem Filling.next {c : ℕ} {stay done : FsmState} (h : s.Filling c)
    (hfsm : (s.next i).fsm = s.fsmWriteback i stay done) (hl : i.dcresp.last = false)
    (hi : s.fsm.state ≠ .idle) (hram : (s.next i).dataRam = s.dataRam) :
    (s.next i).Filling (c + 1) := by
  have hslot : (s.next i).fsm.missAddr.slot = s.fsm.missAddr.slot := by rw [hfsm]; rfl
  have hport : (s.next i).portDataR .two = s.dataRam s.fsm.missAddr := by
    simp [State.next, portDataRNext, port2Addr, hi]
  refine ⟨?_, ?_, fun _ => ?_, fun _ => ?_, fun k hk => ?_⟩
  · rw [hfsm, fsmWriteback, hl, h.offset, ofNat_add_one]
    rfl
  · rw [hfsm, fsmWriteback]
    simp
  · rw [hfsm, fsmWriteback, h.offset, Nat.add_sub_cancel]
  · rw [hport, hram, hslot, Nat.add_sub_cancel, ← h.offset]
  · rw [hram, hslot, hfsm, fsmWriteback]
    have hc : 0 < c := by omega
    dsimp only
    rw [h.place hc, h.port hc]
    by_cases hb : BitVec.ofNat 4 (c - 1) = k
    · -- the word that the read port shows
      rw [if_pos (beq_iff_eq.mpr hb), hb]
    · rw [if_neg (by rwa [beq_iff_eq])]
      refine h.buffer k ?_
      by_contra hn
      have hkc : c - 1 = k.toNat := by omega
      exact hb (by rw [hkc, BitVec.ofNat_toNat, BitVec.setWidth_eq])

/-- Neither port writes in a cycle of a write-back. -/
theorem dataRamNext_of_writesBack (hw : s.fsm.state.writesBack = true)
    (hq : s.cacheHandle.dreqEn = false ∧ s.finishReg = false) :
    s.dataRamNext i = s.dataRam := by
  have h1 : s.port1En = false := by
    rw [port1En, hq.1, hq.2]
    rfl
  have h2 : s.port2Wen = 0#4 := by
    rw [port2Wen]
    split <;> first | rfl | (rename_i hs; rw [hs] at hw; cases hw)
  rw [dataRamNext, h1, ramWrite_off, h2, ramWrite_zero]

/-- What the machine begins in the state without a burst. -/
theorem fsmIdle_begins (s : State) :
    s.fsmIdle = { s.fsm with delayCounter := false } ∨
      (∃ p, s.fsmIdle = { s.fsm with state := .uncache p, delayCounter := false }) ∨
      (∃ p, s.fsmIdle = s.startMiss p) ∨
      s.fsmIdle = { s.fsm with
        state := .writebackInst, missAddr := ⟨s.operSlot, 0#4⟩, offsetCount := 0#4,
        delayCounter := false } ∨
      s.fsmIdle = { s.fsm with
        state := .store, missAddr := ⟨s.operSlot, 0#4⟩, delayCounter := false } := by
  unfold fsmIdle
  cases s.cacheHandle.cacheOper with
  | null | invalid => exact Or.inl rfl
  | writebackInvalid =>
    dsimp only
    split_ifs
    · exact Or.inr (Or.inr (Or.inr (Or.inl rfl)))
    · exact Or.inl rfl
  | indexStore =>
    dsimp only
    split_ifs
    · exact Or.inr (Or.inr (Or.inr (Or.inr rfl)))
    · exact Or.inl rfl
  | req =>
    dsimp only
    split_ifs
    · exact Or.inr (Or.inl ⟨.one, rfl⟩)
    · exact Or.inr (Or.inr (Or.inl ⟨.one, rfl⟩))
    · exact Or.inr (Or.inl ⟨.two, rfl⟩)
    · exact Or.inr (Or.inr (Or.inl ⟨.two, rfl⟩))
    · exact Or.inl rfl

/-- A write-back begins at the first word. -/
theorem fsmIdle_of_writesBack (hi : s.fsm.state = .idle)
    (hw : s.fsmIdle.state.writesBack = true) :
    s.fsmIdle.missAddr.offset = 0#4 ∧ s.fsmIdle.offsetCount = 0#4 ∧
      s.fsmIdle.delayCounter = false := by
  rcases s.fsmIdle_begins with hb | ⟨p, hb⟩ | ⟨p, hb⟩ | hb | hb <;> rw [hb] at hw ⊢
  · rw [hi] at hw
    cases hw
  · cases hw
  · exact ⟨rfl, rfl, rfl⟩
  · exact ⟨rfl, rfl, rfl⟩
  · cases hw

/-- The line of an operation that the machine begins. -/
theorem fsmIdle_operSlot (hi : s.fsm.state = .idle)
    (hw : s.fsmIdle.state = .writebackInst ∨ s.fsmIdle.state = .store) :
    s.fsmIdle.missAddr.slot = s.operSlot := by
  rcases s.fsmIdle_begins with hb | ⟨p, hb⟩ | ⟨p, hb⟩ | hb | hb <;> rw [hb] at hw ⊢
  · rw [hi] at hw
    rcases hw with hw | hw <;> cases hw
  · rcases hw with hw | hw <;> cases hw
  · rw [startMiss] at hw
    dsimp only at hw
    split_ifs at hw <;> rcases hw with hw | hw <;> cases hw

/-- What a write-back asks the bus for. -/
theorem dcreq_of_writesBack (hw : s.fsm.state.writesBack = true) :
    s.dcreq.valid = s.fsm.delayCounter ∧ s.dcreq.isWrite = true ∧ s.dcreq.strobe = 15#4 ∧
      s.dcreq.data = s.fsm.buffer s.fsm.offsetCount ∧ s.dcreq.len = mlen16 := by
  rw [dcreq]
  cases hs : s.fsm.state with
  | writeback p => exact ⟨rfl, rfl, rfl, rfl, rfl⟩
  | writebackInst => exact ⟨rfl, rfl, rfl, rfl, rfl⟩
  | _ =>
    rw [hs] at hw
    cases hw

end State

/-- The cache on its bus, with what there was at the acceptance of the pair in `cache_handle`:
the data RAM, the tags and the dirty bits. `asked` says that a request was on the bus in the
cycle before. -/
structure Watch where
  service : Service := {}
  ram : DataAddr → Word := fun _ => 0#32
  tags : Index → Meta := fun _ _ => default
  dirty : Slot → Bool := fun _ => false
  asked : Bool := false

namespace Watch

variable (w : Watch) (o : Offer)

/-- The cache itself. -/
def cache : State := w.service.cache

/-- A clock edge. -/
def step : Watch where
  service := w.service.step o
  ram := if w.cache.en then (w.service.step o).cache.dataRam else w.ram
  tags := if w.cache.en then (w.service.step o).cache.metaRam else w.tags
  dirty := if w.cache.en then (w.service.step o).cache.cacheDirty else w.dirty
  asked := w.cache.dcreq.valid

/-- What the bus and the pipeline keep to: no beat of a write-back is taken in the first cycle
of its request, and no request comes in the cycle in which a CACHE operation takes a line out,
because the instructions behind it are fetched again. -/
structure Careful : Prop where
  late : w.cache.fsm.state.writesBack = true → w.asked = false →
    (w.service.resp o).ready = false
  alone : w.cache.en = true → w.cache.cacheHandle.cacheOper = .invalid ∨
    w.cache.cacheHandle.cacheOper = .writebackInvalid → ∀ p, (o.dreq p).valid = false

/-- A CACHE operation is in the latch, and what there was at its acceptance is there still,
except the words that an index store overwrites. -/
structure Operating : Prop where
  tags : w.cache.metaRam = w.tags
  dirty : w.cache.cacheDirty = w.dirty
  ram : ∀ a : DataAddr, (w.cache.cacheHandle.cacheOper = .indexStore →
    a.slot ≠ w.cache.operSlot) → w.cache.dataRam a = w.ram a
  operand : w.cache.cacheHandle.cacheOper ≠ .null → (w.cache.req .one).valid = true ∧
    (w.cache.cacheHandle.side .one).metaR = w.tags (w.cache.index .one)
  direct : w.cache.cacheHandle.cacheOper = .invalid → w.cache.cacheHandle.dreqEn = true
  slot : w.cache.fsm.state = .writebackInst ∨ w.cache.fsm.state = .store →
    w.cache.fsm.missAddr.slot = w.cache.operSlot

/-- A pair of requests is being served, and the words that no refill of the pair has replaced
are those of its acceptance. -/
structure Serving : Prop where
  sound : w.cache.Sound w.tags
  ram : ∀ a : DataAddr, (∀ p, w.cache.fsm.state = .fetch p ∨ w.cache.ends.fetch p = true →
    a.slot ≠ w.cache.missSlot p) → w.cache.dataRam a = w.ram a

/-- In cycle `c` of a write-back the reading is two words ahead of the bus. -/
structure Ahead (c : ℕ) : Prop where
  filling : w.cache.Filling c
  count : w.cache.fsm.offsetCount = w.service.beat
  behind : w.service.beat.toNat ≤ c - 2
  asked : w.asked = decide (2 ≤ c)

/-- No request comes in the cycle in which a CACHE operation takes a line out. -/
def Alone : Prop :=
  w.cache.en = true → w.cache.cacheHandle.cacheOper = .invalid ∨
    w.cache.cacheHandle.cacheOper = .writebackInvalid → ∀ p, (o.dreq p).valid = false

/-- What is kept by every clock edge, at any pace of the bus. -/
structure Guarded : Prop where
  attentive : w.service.Attentive
  unique : ∀ k, UniqueTags (w.cache.metaRam k)
  quiet : w.cache.en = false →
    w.cache.cacheHandle.dreqEn = false ∧ w.cache.finishReg = false
  marks : w.cache.en = true → w.cache.finishReg = true ∨ ∀ p, w.cache.Untouched p
  serving : w.cache.en = false → w.cache.cacheHandle.cacheOper = .req → w.Serving
  operating : w.cache.cacheHandle.cacheOper ≠ .req → w.Operating

/-- What is kept by every clock edge. -/
structure Watched : Prop extends w.Guarded where
  ahead : w.cache.fsm.state.writesBack = true → ∃ c, w.Ahead c

theorem guarded_reset : ({} : Watch).Guarded where
  attentive := Service.attentive_reset
  unique _ _ _ h := by cases h
  quiet h := by cases h
  marks _ := Or.inr fun _ => ⟨rfl, rfl, rfl⟩
  serving h := by cases h
  operating _ :=
    { tags := rfl
      dirty := rfl
      ram := fun _ _ => rfl
      operand := fun h => absurd rfl h
      direct := fun h => by cases h
      slot := by rintro (h | h) <;> cases h }

theorem watched_reset : ({} : Watch).Watched where
  toGuarded := guarded_reset
  ahead h := by cases h

variable {w o}

theorem cache_step : (w.step o).cache = w.cache.next (w.service.input o) := rfl

theorem polite_input : State.Polite (w.service.input o) := Service.ready_of_last

/-! ### A pair is taken -/

section Accept

variable (h : w.Guarded) (he : w.cache.en = true)

include h he

theorem Guarded.idle : w.cache.fsm.state = .idle := h.attentive.idle_of_en he

omit h in
/-- In the cycle of an acceptance with a request no line is taken out. -/
theorem oper_of_request (hc : w.Alone o) {p : Port} (hv : (o.dreq p).valid = true) :
    w.cache.cacheHandle.cacheOper ≠ .invalid ∧
      w.cache.cacheHandle.cacheOper ≠ .writebackInvalid := by
  constructor
  · intro ho
    rw [hc he (Or.inl ho) p] at hv
    cases hv
  · intro ho
    rw [hc he (Or.inr ho) p] at hv
    cases hv

theorem Guarded.metaRam_of_accept (ho : w.cache.cacheHandle.cacheOper ≠ .invalid ∧
    w.cache.cacheHandle.cacheOper ≠ .writebackInvalid) :
    (w.step o).cache.metaRam = w.cache.metaRam := by
  have hen : w.cache.metaEn = false := by
    rw [State.metaEn, h.idle he]
    simp [ho.1, ho.2]
  change w.cache.metaRamNext _ = _
  rw [State.metaRamNext, hen]
  rfl

/-- The entry of the addressed line is made invalid, and nothing else. -/
theorem Guarded.metaRam_of_invalidate (ho : w.cache.cacheHandle.cacheOper = .invalid ∨
    w.cache.cacheHandle.cacheOper = .writebackInvalid) :
    (w.step o).cache.metaRam = Function.update w.tags (w.cache.index .one)
      (Function.update (w.tags (w.cache.index .one)) w.cache.cacheHandle.instOperLine
        { w.tags (w.cache.index .one) w.cache.cacheHandle.instOperLine with valid := false }) := by
  have hop := h.operating (by rcases ho with ho | ho <;> rw [ho] <;> decide)
  have hidle := h.idle he
  have hm := (hop.operand (by rcases ho with ho | ho <;> rw [ho] <;> decide)).2
  have hen : w.cache.metaEn = true := by
    rw [State.metaEn, hidle]
    rcases ho with ho | ho <;> rw [ho] <;> rfl
  have haddr : w.cache.metaWAddr = w.cache.index .one := by
    rw [State.metaWAddr, hidle, if_neg (by simp)]
  have hw : w.cache.metaW (w.service.input o) = Function.update
      (w.tags (w.cache.index .one)) w.cache.cacheHandle.instOperLine
      { w.tags (w.cache.index .one) w.cache.cacheHandle.instOperLine with valid := false } := by
    rw [State.metaW, hm]
    rcases ho with ho | ho <;> rw [ho]
    rw [he]
    rfl
  change w.cache.metaRamNext _ = _
  rw [State.metaRamNext, hen, if_pos rfl, haddr, hw, hop.tags]

theorem Guarded.unique_of_accept (k : Index) : UniqueTags ((w.step o).cache.metaRam k) := by
  by_cases ho : w.cache.cacheHandle.cacheOper = .invalid ∨
      w.cache.cacheHandle.cacheOper = .writebackInvalid
  · have hop := h.operating (by rcases ho with ho | ho <;> rw [ho] <;> decide)
    have hu (k : Index) : UniqueTags (w.tags k) := hop.tags ▸ h.unique k
    rw [h.metaRam_of_invalidate he ho]
    by_cases hk : k = w.cache.index .one
    · rw [hk, Function.update_self]
      exact (hu _).invalidate _
    · rw [Function.update_of_ne hk]
      exact hu k
  · rw [h.metaRam_of_accept he (not_or.mp ho)]
    exact h.unique k

omit h in
/-- A pair that has to wait has a request. -/
theorem request_of_waits (hen : (w.step o).cache.en = false) : ∃ p, (o.dreq p).valid = true := by
  have hd : w.cache.dreqEn (w.service.input o) = false := by
    change w.cache.enNext _ = false at hen
    rw [State.enNext, he] at hen
    simpa using hen
  rw [State.dreqEn, Bool.or_eq_false_iff] at hd
  have hv : (!(o.dreq .one).valid && !(o.dreq .two).valid) = false := hd.2
  cases h1 : (o.dreq .one).valid with
  | true => exact ⟨.one, h1⟩
  | false => exact ⟨.two, by simpa [h1] using hv⟩

theorem Guarded.latches (hc : w.Alone o) {p : Port} (hv : (o.dreq p).valid = true) :
    w.cache.Latches (w.service.input o) := by
  have hi := h.idle he
  have ho := oper_of_request he hc hv
  refine ⟨he, hi, Service.finish_of_idle h.attentive.timed hi fun hw => absurd hw ho.2,
    h.marks he⟩

/-- The service of a pair with a request begins with the tags of its acceptance. -/
theorem Guarded.sound_of_accept (hc : w.Alone o)
    (ho : (w.step o).cache.cacheHandle.cacheOper = .req) {p : Port}
    (hv : (o.dreq p).valid = true) : (w.step o).cache.Sound (w.step o).tags := by
  have hl := h.latches he hc hv
  have hmeta := h.metaRam_of_accept (o := o) he (oper_of_request he hc hv)
  have htags : (w.step o).tags = w.cache.metaRam := by rw [step, he, if_pos rfl]; exact hmeta
  have hcache : (w.step o).cache.cacheHandle = w.cache.handleNext (w.service.input o) :=
    hl.cacheHandle
  rw [hcache] at ho
  rw [htags]
  exact ⟨hl.phase (Service.cacheInst_of_req ho), hl.snapshot h.unique hmeta⟩

theorem Guarded.serving_of_accept (hc : w.Alone o) (hen : (w.step o).cache.en = false)
    (ho : (w.step o).cache.cacheHandle.cacheOper = .req) : (w.step o).Serving := by
  obtain ⟨p, hv⟩ := request_of_waits he hen
  refine ⟨h.sound_of_accept he hc ho hv, fun a _ => ?_⟩
  rw [step, he]
  rfl

theorem Guarded.operating_of_accept (hc : w.Alone o)
    (ho : (w.step o).cache.cacheHandle.cacheOper ≠ .req) : (w.step o).Operating := by
  have hi := h.idle he
  have hcache : (w.step o).cache.cacheHandle = w.cache.handleNext (w.service.input o) := by
    simp [cache_step, State.next, he]
  have hfsm : (w.step o).cache.fsm = w.cache.fsm := Service.fsm_of_accept he
  refine ⟨?_, ?_, fun a _ => ?_, fun hn => ?_, fun hinv => ?_, fun hs => ?_⟩
  · rw [step, he]
    rfl
  · rw [step, he]
    rfl
  · rw [step, he]
    rfl
  · -- the operation comes with a request
    have hv : (o.dreq .one).valid = true := by
      rw [hcache] at hn ho
      change w.cache.cacheOper (w.service.input o) ≠ .null at hn
      change w.cache.cacheOper (w.service.input o) ≠ .req at ho
      by_contra hv
      have hv' : ((w.service.input o).dreq .one).valid = false := Bool.eq_false_iff.mpr hv
      rw [State.cacheOper, hv'] at hn ho
      simp at hn ho
      exact ho hn
    have hmeta := h.metaRam_of_accept (o := o) he (oper_of_request he hc hv)
    have htags : (w.step o).tags = w.cache.metaRam := by rw [step, he, if_pos rfl]; exact hmeta
    rw [htags, State.index, State.req, hcache]
    exact ⟨hv, rfl⟩
  · rw [hcache] at hinv ⊢
    change w.cache.cacheOper (w.service.input o) = .invalid at hinv
    change w.cache.dreqEn (w.service.input o) = true
    rw [State.cacheOper] at hinv
    split_ifs at hinv with hf
    simp only [State.invalidFlag, Bool.and_eq_true] at hf
    rw [State.dreqEn, hf.1.1]
    simp
  · rw [hfsm, hi] at hs
    rcases hs with hs | hs <;> cases hs

theorem Guarded.step_accept (hc : w.Alone o) : (w.step o).Guarded where
  attentive := h.attentive.step
  unique := h.unique_of_accept he
  quiet hen := by
    obtain ⟨p, hv⟩ := request_of_waits he hen
    have hl := h.latches he hc hv
    have hd : w.cache.dreqEn (w.service.input o) = false := by
      change w.cache.enNext _ = false at hen
      rw [State.enNext, he] at hen
      simpa using hen
    exact ⟨by rw [cache_step, hl.cacheHandle]; exact hd, hl.finish⟩
  marks _ := Or.inr (State.untouched_next (h.idle he) (h.marks he))
  serving := h.serving_of_accept he hc
  operating := h.operating_of_accept he hc

end Accept

/-! ### The latch waits -/

section Waits

variable (h : w.Guarded) (he : w.cache.en = false)

include he

theorem cacheHandle_of_waits : (w.step o).cache.cacheHandle = w.cache.cacheHandle :=
  State.next_cacheHandle he

theorem record_of_waits : (w.step o).ram = w.ram ∧ (w.step o).tags = w.tags ∧
    (w.step o).dirty = w.dirty := by
  simp [step, he]

/-- The instruction at the port is not looked at. -/
theorem next_of_waits : w.cache.next (w.service.input o) =
    w.cache.next { w.service.input o with cacheInst := .unknown } := by
  simp only [State.next, State.enNext, State.fsmNext, he, Bool.false_and, Bool.false_eq_true,
    if_false]
  rfl

theorem finish_of_wakes (hen : (w.step o).cache.en = true) : (w.step o).cache.finishReg = true := by
  change w.cache.enNext _ = true at hen
  change w.cache.finish _ = true
  rw [State.enNext, he] at hen
  simpa using hen

theorem not_finish_of_waits (hen : (w.step o).cache.en = false) :
    (w.step o).cache.finishReg = false := by
  change w.cache.enNext _ = false at hen
  change w.cache.finish _ = false
  rw [State.enNext, he] at hen
  simpa using hen

include h

theorem Guarded.busy (ho : w.cache.cacheHandle.cacheOper = .req) : w.cache.Busy :=
  ⟨he, ho, (h.quiet he).1, (h.quiet he).2⟩

theorem Guarded.sound_step (ho : w.cache.cacheHandle.cacheOper = .req) :
    (w.step o).cache.Sound w.tags := by
  have hs := (h.serving he ho).sound
  have hn := hs.next (i := { w.service.input o with cacheInst := .unknown }) rfl
    (polite_input (w := w) (o := o))
  rw [State.beforeNext, he, if_neg Bool.false_ne_true] at hn
  rw [cache_step, next_of_waits he]
  exact hn

/-- A refill writes to the slot of its miss, and nothing else writes. -/
theorem Guarded.serving_of_waits (ho : w.cache.cacheHandle.cacheOper = .req) :
    (w.step o).Serving := by
  have hs := h.serving he ho
  have hb := h.busy he ho
  refine ⟨(record_of_waits (o := o) he).2.1 ▸ h.sound_step he ho, fun a ha => ?_⟩
  have hslot (p : Port) (hp : w.cache.fsm.state = .fetch p ∨ w.cache.ends.fetch p = true) :
      a.slot ≠ w.cache.missSlot p := by
    have hends : (w.step o).cache.ends.fetch p = true := by
      rw [cache_step, hb.ends_fetch, Bool.or_eq_true, beq_iff_eq]
      exact hp
    rw [← State.missSlot_next hs.sound hb (polite_input (w := w) (o := o)) hp]
    exact ha p (Or.inr hends)
  have hsame : w.cache.dataRamNext (w.service.input o) a = w.cache.dataRam a := by
    by_cases hf : ∃ p, w.cache.fsm.state = .fetch p
    · obtain ⟨p, hf⟩ := hf
      have hne : a ≠ w.cache.fsm.missAddr := by
        rintro rfl
        exact hslot p (Or.inl hf) (hs.sound.snapshot.missAddr p (Or.inl hf))
      rw [State.dataRamNext_of_fetch hb hf, Function.update_of_ne hne]
    · rw [State.dataRamNext_of_busy hb (fun p hp => hf ⟨p, hp⟩) hs.sound.phase.not_store]
  rw [(record_of_waits he).1]
  change w.cache.dataRamNext (w.service.input o) a = _
  rw [hsame, hs.ram a hslot]

omit he in
/-- The state of the machine belongs to the operation. -/
theorem Guarded.state_of_oper (ho : w.cache.cacheHandle.cacheOper ≠ .req) :
    w.cache.fsm.state = .idle ∨
      (w.cache.fsm.state = .store ∧ w.cache.cacheHandle.cacheOper = .indexStore) ∨
      (w.cache.fsm.state = .writebackInst ∧
        w.cache.cacheHandle.cacheOper = .writebackInvalid ∧ w.cache.wbDirty = true) := by
  have ha := h.attentive.attends
  change w.cache.Attends at ha
  rw [State.Attends] at ha
  cases hs : w.cache.fsm.state with
  | idle => exact Or.inl rfl
  | store =>
    rw [hs] at ha
    exact Or.inr (Or.inl ⟨rfl, ha.2⟩)
  | writebackInst =>
    rw [hs] at ha
    exact Or.inr (Or.inr ⟨rfl, ha.2⟩)
  | fetch p | writeback p | uncache p =>
    rw [hs] at ha
    exact absurd ha.2 ho

/-- While the operation waits the tag array is written with what it holds. -/
theorem Guarded.metaRam_of_waits (ho : w.cache.cacheHandle.cacheOper ≠ .req) :
    (w.step o).cache.metaRam = w.cache.metaRam := by
  have hop := h.operating ho
  change w.cache.metaRamNext (w.service.input o) = _
  rw [State.metaRamNext]
  cases hen : w.cache.metaEn with
  | false => rfl
  | true =>
    have hs := h.state_of_oper ho
    have haddr : w.cache.metaWAddr = w.cache.index .one := by
      rw [State.metaWAddr, if_neg]
      rcases hs with hs | ⟨hs, -⟩ | ⟨hs, -⟩ <;> rw [hs] <;> simp
    have hnull : w.cache.cacheHandle.cacheOper ≠ .null := by
      intro hnull
      rw [State.metaEn, hnull] at hen
      rcases hs with hs | ⟨-, hs⟩ | ⟨-, hs, -⟩
      · rw [hs] at hen
        cases hen
      · rw [hnull] at hs
        cases hs
      · rw [hnull] at hs
        cases hs
    have hm := (hop.operand hnull).2
    have hw : w.cache.metaW (w.service.input o) = w.tags (w.cache.index .one) := by
      rw [State.metaW, hm, he]
      cases hc : w.cache.cacheHandle.cacheOper with
      | null => exact absurd hc hnull
      | req => exact absurd hc ho
      | invalid =>
        -- such an operation does not wait
        have hd := hop.direct hc
        rw [(h.quiet he).1] at hd
        cases hd
      | writebackInvalid => rfl
      | indexStore => rfl
    rw [if_pos rfl, haddr, hw, ← hop.tags, Function.update_eq_self]

/-- The index store overwrites the words of its line. -/
theorem Guarded.dataRam_of_waits (ho : w.cache.cacheHandle.cacheOper ≠ .req) (a : DataAddr)
    (ha : w.cache.cacheHandle.cacheOper = .indexStore → a.slot ≠ w.cache.operSlot) :
    (w.step o).cache.dataRam a = w.cache.dataRam a := by
  have hq := h.quiet he
  change w.cache.dataRamNext (w.service.input o) a = _
  rcases h.state_of_oper ho with hs | ⟨hs, hc⟩ | ⟨hs, -⟩
  · have h1 : w.cache.port1En = false := by
      rw [State.port1En, hq.1, hq.2]
      rfl
    have h2 : w.cache.port2En = false := by
      rw [State.port2En, if_pos hs, hq.1, hq.2]
      rfl
    rw [State.dataRamNext, h1, h2, State.ramWrite_off, State.ramWrite_off]
  · have h1 : w.cache.port1En = false := by
      rw [State.port1En, hq.1, hq.2]
      rfl
    have hne : a ≠ w.cache.fsm.missAddr := by
      rintro rfl
      exact ha hc ((h.operating ho).slot (Or.inr hs))
    have haddr : w.cache.port2Addr = w.cache.fsm.missAddr := by
      rw [State.port2Addr, hs, if_neg (by simp)]
    have hen : w.cache.port2En = true := by
      rw [State.port2En, hs, if_neg (by simp)]
    rw [State.dataRamNext, h1, State.ramWrite_off, haddr, hen, ramWrite, if_pos rfl,
      Function.update_of_ne hne]
  · rw [State.dataRamNext_of_writesBack (by rw [hs]; rfl) hq]

theorem Guarded.operating_of_waits (ho : w.cache.cacheHandle.cacheOper ≠ .req) :
    (w.step o).Operating := by
  have hop := h.operating ho
  have hcache := cacheHandle_of_waits (o := o) he
  obtain ⟨hram, htags, hdirty⟩ := record_of_waits (o := o) he
  have hslot : (w.step o).cache.operSlot = w.cache.operSlot := by
    rw [State.operSlot, State.operSlot, State.index_congr hcache, hcache]
  refine ⟨?_, ?_, fun a ha => ?_, fun hn => ?_, fun hinv => ?_, fun hs => ?_⟩
  · rw [h.metaRam_of_waits he ho, htags, hop.tags]
  · rw [hdirty, ← hop.dirty]
    simp [cache_step, State.next, ho]
  · rw [hcache, hslot] at ha
    rw [h.dataRam_of_waits he ho a ha, hram, hop.ram a ha]
  · rw [hcache] at hn ⊢
    rw [htags, State.index_congr hcache, State.req, hcache]
    exact hop.operand hn
  · rw [hcache] at hinv ⊢
    exact hop.direct hinv
  · rw [hslot]
    have hfsm := Service.fsm_step (v := w.service) (o := o) he
    change (w.step o).cache.fsm = _ at hfsm
    rcases h.state_of_oper ho with hst | ⟨hst, -⟩ | ⟨hst, -⟩
    · rw [show w.service.cache.fsm.state = .idle from hst] at hfsm
      rw [hfsm] at hs ⊢
      exact State.fsmIdle_operSlot hst hs
    · rw [show w.service.cache.fsm.state = .store from hst] at hfsm
      rw [hfsm, ← hop.slot (Or.inr hst)]
      rfl
    · rw [show w.service.cache.fsm.state = .writebackInst from hst] at hfsm
      rw [hfsm, ← hop.slot (Or.inl hst)]
      rfl

omit h in
theorem fsm_of_writesBack (hw : w.cache.fsm.state.writesBack = true) :
    ∃ done : FsmState, done.writesBack = false ∧ (w.step o).cache.fsm =
      w.cache.fsmWriteback (w.service.input o) w.cache.fsm.state done := by
  have hfsm := Service.fsm_step (v := w.service) (o := o) he
  cases hs : w.cache.fsm.state with
  | writeback p =>
    rw [show w.service.cache.fsm.state = .writeback p from hs] at hfsm
    exact ⟨.fetch p, rfl, hfsm⟩
  | writebackInst =>
    rw [show w.service.cache.fsm.state = .writebackInst from hs] at hfsm
    exact ⟨.idle, rfl, hfsm⟩
  | _ =>
    rw [hs] at hw
    cases hw

omit h in
/-- A write-back is entered from the state without a burst, and left with the last beat. -/
theorem enters_or_goes_on (hw : (w.step o).cache.fsm.state.writesBack = true) :
    w.cache.fsm.state = .idle ∨
      (w.cache.fsm.state.writesBack = true ∧ (w.service.resp o).last = false) := by
  have hfsm := Service.fsm_step (v := w.service) (o := o) he
  change (w.step o).cache.fsm = _ at hfsm
  have hst : w.service.cache.fsm.state = w.cache.fsm.state := rfl
  cases hs : w.cache.fsm.state with
  | idle => exact Or.inl rfl
  | fetch p =>
    rw [hst, hs] at hfsm
    rw [hfsm] at hw
    change (w.service.cache.fsmFetch (w.service.input o) p).state.writesBack = true at hw
    rw [State.fsmFetch] at hw
    split_ifs at hw
    · cases hw
    · cases hw
    · rw [hst, hs] at hw
      cases hw
  | uncache p =>
    rw [hst, hs] at hfsm
    rw [hfsm] at hw
    dsimp only at hw
    split_ifs at hw <;> cases hw
  | store =>
    rw [hst, hs] at hfsm
    rw [hfsm] at hw
    dsimp only at hw
    split_ifs at hw <;> cases hw
  | writeback p | writebackInst =>
    refine Or.inr ⟨rfl, ?_⟩
    obtain ⟨done, hd, hfsm⟩ := fsm_of_writesBack (o := o) he (by rw [hs]; rfl)
    rcases Service.fsmWriteback_cases (v := w.service) (o := o) rfl done with
      ⟨-, hdone, -⟩ | ⟨hl, -⟩
    · rw [hfsm] at hw
      change (w.service.cache.fsmWriteback (w.service.input o) w.service.cache.fsm.state
        done).state.writesBack = true at hw
      rw [hdone, hd] at hw
      cases hw
    · exact hl

/-- A write-back begins with an empty buffer and no beat. -/
theorem Guarded.ahead_of_idle (hi : w.cache.fsm.state = .idle)
    (hw : (w.step o).cache.fsm.state.writesBack = true) : (w.step o).Ahead 0 := by
  have hfsm : (w.step o).cache.fsm = w.cache.fsmIdle := by
    have hfsm := Service.fsm_step (v := w.service) (o := o) he
    rw [show w.service.cache.fsm.state = .idle from hi] at hfsm
    exact hfsm
  rw [hfsm] at hw
  obtain ⟨ho, hc, hd⟩ := State.fsmIdle_of_writesBack hi hw
  have hbeat : (w.step o).service.beat = 0#4 := by
    have ht := h.attentive.timed
    rw [Service.Timed, show w.service.cache.fsm.state = .idle from hi] at ht
    change (w.service.step o).beat = _
    rw [Service.beat_step, (Service.resp_of_idle (v := w.service) (o := o) hi).1, ht.1]
    rfl
  refine ⟨State.filling_zero (by rw [hfsm, ho]) (by rw [hfsm, hd]), ?_, ?_, ?_⟩
  · rw [hfsm, hc, hbeat]
  · rw [hbeat]
    exact Nat.zero_le _
  · exact State.dcreq_valid_of_idle hi

theorem Guarded.step_waits : (w.step o).Guarded where
  attentive := h.attentive.step
  unique k := by
    by_cases ho : w.cache.cacheHandle.cacheOper = .req
    · exact (h.sound_step he ho).snapshot.unique_metaRam k
    · rw [h.metaRam_of_waits he ho]
      exact h.unique k
  quiet hen := by
    rw [cacheHandle_of_waits he]
    exact ⟨(h.quiet he).1, not_finish_of_waits he hen⟩
  marks hen := Or.inl (finish_of_wakes he hen)
  serving _ ho := by
    rw [cacheHandle_of_waits he] at ho
    exact h.serving_of_waits he ho
  operating ho := by
    rw [cacheHandle_of_waits he] at ho
    exact h.operating_of_waits he ho

end Waits

theorem Guarded.step (h : w.Guarded) (hc : w.Alone o) : (w.step o).Guarded := by
  cases he : w.cache.en with
  | true => exact h.step_accept he hc
  | false => exact h.step_waits he

/-- A beat is taken in a later cycle than the first of the request. -/
theorem Ahead.two_le {c : ℕ} (h : w.Ahead c) (hw : w.cache.fsm.state.writesBack = true)
    (hc : w.Careful o) (hr : (w.service.resp o).ready = true) : 2 ≤ c := by
  have hasked : w.asked = true := by
    by_contra hn
    rw [hc.late hw (Bool.eq_false_iff.mpr hn)] at hr
    cases hr
  rwa [h.asked, decide_eq_true_iff] at hasked

/-- A cycle of a write-back that is not its last one. -/
theorem Watched.ahead_of_more (h : w.Watched) (he : w.cache.en = false) (hc : w.Careful o)
    (hw : w.cache.fsm.state.writesBack = true)
    {stay done : FsmState}
    (hfsm : (w.step o).cache.fsm = w.cache.fsmWriteback (w.service.input o) stay done)
    (hl : (w.service.resp o).last = false) : ∃ c, (w.step o).Ahead c := by
  obtain ⟨c, ha⟩ := h.ahead hw
  have hbehind := ha.behind
  have hi : w.cache.fsm.state ≠ .idle := by
    intro hi
    rw [hi] at hw
    cases hw
  have hram : (w.step o).cache.dataRam = w.cache.dataRam :=
    State.dataRamNext_of_writesBack hw (h.quiet he)
  have hbeat : (w.step o).service.beat =
      if (w.service.resp o).ready then w.service.beat + 1#4 else w.service.beat := by
    change (w.service.step o).beat = _
    rw [Service.beat_step, hl]
    rfl
  refine ⟨c + 1, ha.filling.next hfsm hl hi hram, ?_, ?_, ?_⟩
  · rw [hfsm, hbeat, State.fsmWriteback, ← ha.count]
    rfl
  · rw [hbeat]
    cases hr : (w.service.resp o).ready with
    | false =>
      rw [if_neg Bool.false_ne_true]
      omega
    | true =>
      have hlate := ha.two_le hw hc hr
      rw [if_pos rfl, BitVec.toNat_add]
      have := Nat.mod_le (w.service.beat.toNat + (1#4).toNat) (2 ^ 4)
      have h1 : (1#4 : BitVec 4).toNat = 1 := rfl
      omega
  · change w.cache.dcreq.valid = _
    rw [(State.dcreq_of_writesBack hw).1, ha.filling.delay]
    exact decide_eq_decide.mpr (by omega)

theorem Watched.ahead_of_waits (h : w.Watched) (he : w.cache.en = false) (hc : w.Careful o)
    (hw : (w.step o).cache.fsm.state.writesBack = true) : ∃ c, (w.step o).Ahead c := by
  rcases enters_or_goes_on he hw with hs | ⟨hs, hl⟩
  · exact ⟨0, h.ahead_of_idle he hs hw⟩
  · obtain ⟨done, -, hfsm⟩ := fsm_of_writesBack (o := o) he hs
    exact h.ahead_of_more he hc hs hfsm hl

theorem Watched.step (h : w.Watched) (hc : w.Careful o) : (w.step o).Watched where
  toGuarded := h.toGuarded.step hc.alone
  ahead hw := by
    cases he : w.cache.en with
    | true =>
      have hfsm : (w.step o).cache.fsm = w.cache.fsm := Service.fsm_of_accept he
      rw [hfsm, h.idle he] at hw
      cases hw
    | false => exact h.ahead_of_waits he hc hw

/-! ### The burst -/

/-- The slot that is written back: the victim of the miss, or the line of the operation. -/
def victim (w : Watch) : Slot :=
  match w.cache.fsm.state with
  | .writeback p => w.cache.victim p
  | _ => w.cache.operSlot

section Burst

variable (h : w.Guarded)

include h

theorem Guarded.serving_of_writeback {p : Port} (hs : w.cache.fsm.state = .writeback p) :
    w.Serving := by
  have ha := h.attentive.attends
  rw [State.Attends, show w.service.cache.fsm.state = .writeback p from hs] at ha
  exact h.serving ha.1 ha.2

theorem Guarded.operating_of_writebackInst (hs : w.cache.fsm.state = .writebackInst) :
    w.Operating ∧ w.cache.cacheHandle.cacheOper = .writebackInvalid := by
  have ha := h.attentive.attends
  rw [State.Attends, show w.service.cache.fsm.state = .writebackInst from hs] at ha
  have ho : w.cache.cacheHandle.cacheOper = .writebackInvalid := ha.2.1
  exact ⟨h.operating (by rw [ho]; decide), ho⟩

variable (hw : w.cache.fsm.state.writesBack = true)

include hw

/-- The state is one of the three. -/
theorem Guarded.waits_of_writesBack : w.cache.en = false := by
  by_contra he
  have hi := h.idle (by simpa using he)
  rw [hi] at hw
  cases hw

/-- The line in the data RAM is still that of the acceptance. -/
theorem Guarded.ram_of_victim (k : Offset) :
    w.cache.dataRam ⟨w.cache.fsm.missAddr.slot, k⟩ = w.ram ⟨w.cache.fsm.missAddr.slot, k⟩ := by
  cases hst : w.cache.fsm.state with
  | writeback p =>
    have hs := h.serving_of_writeback hst
    obtain ⟨hm, ht, -, hf⟩ := hs.sound.phase.misses_of_writeback hst
    apply hs.ram
    intro q hq
    have hq' : w.cache.ends.fetch q = true := hq.resolve_left (by rw [hst]; simp)
    rw [hs.sound.snapshot.missAddr p (Or.inr hst)]
    exact State.missSlot_ne_fetched hs.sound ht hm (by rw [hst]; simp) hf q hq'
  | writebackInst =>
    obtain ⟨hop, ho⟩ := h.operating_of_writebackInst hst
    apply hop.ram
    intro hx
    rw [ho] at hx
    cases hx
  | _ =>
    rw [hst] at hw
    cases hw

theorem Guarded.slot_eq_victim : w.cache.fsm.missAddr.slot = w.victim := by
  cases hs : w.cache.fsm.state with
  | writeback p =>
    have hsv := (h.serving_of_writeback hs).sound
    obtain ⟨-, -, -, hf⟩ := hsv.phase.misses_of_writeback hs
    rw [hsv.snapshot.missAddr p (Or.inr hs), victim, hs, State.missSlot,
      State.missWay_eq (Or.inl hf)]
    rfl
  | writebackInst => rw [(h.operating_of_writebackInst hs).1.slot (Or.inl hs), victim, hs]
  | _ =>
    rw [hs] at hw
    cases hw

/-- The address of the burst is the one that the tag array gave for the line. -/
theorem Guarded.addr_of_victim : w.cache.dcreq.addr =
    State.lineAddr (w.tags w.victim.index w.victim.line).tag w.victim.index := by
  change w.cache.cbusAddr = _
  rw [State.cbusAddr, victim]
  cases hs : w.cache.fsm.state with
  | writeback p =>
    dsimp only
    rw [(h.serving_of_writeback hs).sound.snapshot.metaR p]
    rfl
  | writebackInst =>
    obtain ⟨hop, ho⟩ := h.operating_of_writebackInst hs
    dsimp only
    rw [(hop.operand (by rw [ho]; decide)).2]
    rfl
  | _ =>
    rw [hs] at hw
    cases hw

omit h in
theorem last_of_writesBack : (w.service.resp o).last = true ↔
    (w.service.resp o).ready = true ∧ w.service.beat = 15#4 := by
  have hl : w.service.cache.dcreq.len = 15#4 := (State.dcreq_of_writesBack hw).2.2.2.2
  simp only [Service.resp, hl, Bool.and_eq_true, beq_iff_eq]

end Burst

/-- A beat that is taken carries its own word. -/
theorem Watched.data_of_beat (h : w.Watched) (hw : w.cache.fsm.state.writesBack = true)
    (hc : w.Careful o) (hr : (w.service.resp o).ready = true) :
    w.cache.dcreq.data = w.ram ⟨w.victim, w.service.beat⟩ := by
  obtain ⟨c, ha⟩ := h.ahead hw
  have hlate := ha.two_le hw hc hr
  have hbehind := ha.behind
  rw [(State.dcreq_of_writesBack hw).2.2.2.1, ha.count, ha.filling.buffer _ (by omega),
    h.ram_of_victim hw, h.slot_eq_victim hw]

/-- A cycle of a write-back, in `WRITEBACK_1`, `WRITEBACK_2` or `WRITEBACK`. -/
structure Sends (w : Watch) (o : Offer) : Prop where
  /-- The burst goes to the victim's own line. -/
  address : w.cache.dcreq.addr =
    State.lineAddr (w.tags w.victim.index w.victim.line).tag w.victim.index
  /-- A beat that is taken is the word of its number, as it was when the pair was accepted. -/
  beat : (w.service.resp o).ready = true → w.cache.dcreq.isWrite = true ∧
    w.cache.dcreq.strobe = 15#4 ∧ w.cache.dcreq.data = w.ram ⟨w.victim, w.service.beat⟩
  /-- The burst goes on to beat 15 and not further. -/
  more : (w.service.resp o).last = false → (w.step o).cache.fsm.state = w.cache.fsm.state ∧
    (w.step o).victim = w.victim ∧ (w.step o).service.beat =
      if (w.service.resp o).ready then w.service.beat + 1#4 else w.service.beat
  last : (w.service.resp o).last = true ↔
    (w.service.resp o).ready = true ∧ w.service.beat = 15#4
  refill : ∀ p, w.cache.fsm.state = .writeback p → (w.service.resp o).last = true →
    (w.step o).cache.fsm.state = .fetch p
  /-- Nothing is written over in the data RAM before the last beat has been taken. -/
  kept : (w.step o).cache.dataRam = w.cache.dataRam

/-- A write-back begins with beat 0, sends its line, and only then leaves its state. -/
structure WritesBack (w : Watch) (o : Offer) : Prop where
  begins : w.cache.fsm.state.writesBack = false →
    (w.step o).cache.fsm.state.writesBack = true → (w.step o).service.beat = 0#4
  sends : w.cache.fsm.state.writesBack = true → w.Sends o

theorem Watched.begins (h : w.Watched)
    (hw : w.cache.fsm.state.writesBack = false)
    (hn : (w.step o).cache.fsm.state.writesBack = true) : (w.step o).service.beat = 0#4 := by
  have he : w.cache.en = false := by
    by_contra he
    have he' : w.cache.en = true := by simpa using he
    have hfsm : (w.step o).cache.fsm = w.cache.fsm := Service.fsm_of_accept he'
    rw [hfsm, hw] at hn
    cases hn
  rcases enters_or_goes_on he hn with hs | ⟨hs, -⟩
  · have hb := (h.ahead_of_idle he hs hn).behind
    exact BitVec.eq_of_toNat_eq (Nat.le_zero.mp hb)
  · rw [hw] at hs
    cases hs

theorem Watched.goes_on (h : w.Watched) (hc : w.Careful o)
    (hw : w.cache.fsm.state.writesBack = true) (hl : (w.service.resp o).last = false) :
    (w.step o).cache.fsm.state = w.cache.fsm.state ∧ (w.step o).victim = w.victim := by
  have he := h.waits_of_writesBack hw
  obtain ⟨done, -, hfsm⟩ := fsm_of_writesBack (o := o) he hw
  have hl' : (w.service.input o).dcresp.last = false := hl
  have hstate : (w.step o).cache.fsm.state = w.cache.fsm.state := by
    rw [hfsm, State.fsmWriteback, hl']
    exact ite_self _
  have hslot : (w.step o).cache.fsm.missAddr.slot = w.cache.fsm.missAddr.slot := by
    rw [hfsm]
    rfl
  refine ⟨hstate, ?_⟩
  rw [← (h.step hc).slot_eq_victim (by rw [hstate, hw]), ← h.slot_eq_victim hw, hslot]

theorem Watched.sends (h : w.Watched) (hc : w.Careful o)
    (hw : w.cache.fsm.state.writesBack = true) : w.Sends o where
  address := h.addr_of_victim hw
  beat hr := ⟨(State.dcreq_of_writesBack hw).2.1, (State.dcreq_of_writesBack hw).2.2.1,
    h.data_of_beat hw hc hr⟩
  more hl := by
    obtain ⟨hs, hv⟩ := h.goes_on hc hw hl
    refine ⟨hs, hv, ?_⟩
    change (w.service.step o).beat = _
    rw [Service.beat_step, hl]
    rfl
  last := last_of_writesBack hw
  refill p hs hl := by
    have hfsm := Service.fsm_step (v := w.service) (o := o) (h.waits_of_writesBack hw)
    rw [show w.service.cache.fsm.state = .writeback p from hs] at hfsm
    change (w.step o).cache.fsm = _ at hfsm
    have hl' : (w.service.input o).dcresp.last = true := hl
    have hr' : (w.service.input o).dcresp.ready = true := Service.ready_of_last hl
    rw [hfsm]
    change (w.service.cache.fsmWriteback _ _ _).state = _
    rw [State.fsmWriteback, hl', hr']
    rfl
  kept := State.dataRamNext_of_writesBack hw (h.quiet (h.waits_of_writesBack hw))

/-- In every run of the cache, with any bus that does not take a beat in the first cycle of a
write-back's request. -/
theorem writeback_carries_victim (os : List Offer) (o : Offer)
    (h : Along step Careful {} (os ++ [o])) : (run step {} os).WritesBack o := by
  obtain ⟨hos, ho, -⟩ := (along_append _ _ _ _ _).mp h
  have hw : (run step {} os).Watched := hos.invariant (fun _ _ hw hc => hw.step hc) watched_reset
  exact ⟨hw.begins, hw.sends ho⟩

instance (w : Watch) (o : Offer) : Decidable (w.Alone o) :=
  decidable_of_iff
    (w.cache.en = true → (w.cache.cacheHandle.cacheOper = .invalid ∨
        w.cache.cacheHandle.cacheOper = .writebackInvalid) →
      (o.dreq .one).valid = false ∧ (o.dreq .two).valid = false)
    ⟨fun h he ho p => by cases p with
      | one => exact (h he ho).1
      | two => exact (h he ho).2,
    fun h he ho => ⟨h he ho .one, h he ho .two⟩⟩

instance (w : Watch) (o : Offer) : Decidable (w.Careful o) :=
  decidable_of_iff
    ((w.cache.fsm.state.writesBack = true → w.asked = false →
        (w.service.resp o).ready = false) ∧ w.Alone o)
    ⟨fun h => ⟨h.1, h.2⟩, fun h => ⟨h.late, h.alone⟩⟩

/-! A store fills a line and makes it dirty, and the line is written back. -/

def offerOf (inst : DCacheInst) (ready : Bool) (one : DBusReq) : Offer where
  dreq
    | .one => one
    | .two => default
  isUncached _ := false
  cacheInst := inst
  tagLo := 0#32
  ready := ready
  data := 0#32

def storeOf (x : Word) : DBusReq := ⟨true, x, .size4, 15#4, 0xabcd#32⟩

/-- The miss of a store, and the cycles of its refill. -/
def storeRun : List Offer :=
  offerOf .unknown true (storeOf 0x40#32) ::
    List.replicate 17 (offerOf .unknown true default)

/-- The operation on its line, and the cycles before the bus takes the first beat. -/
def flushRun : List Offer :=
  storeRun ++ offerOf .indexWritebackInvalid true (storeOf 0x40#32) ::
    List.replicate 3 (offerOf .unknown false default)

/-- The first beat that the bus takes. -/
theorem writeback_carries_victim_flush :
    ((run step {} flushRun).service.resp (offerOf .unknown true default)).ready = true ∧
      (run step {} flushRun).WritesBack (offerOf .unknown true default) :=
  ⟨by decide +kernel,
    writeback_carries_victim flushRun (offerOf .unknown true default) (by decide +kernel)⟩

end Watch

end FrailCPU.DCache
