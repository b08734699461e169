import FrailCPU.DCache.Phase

/-!
# The answer to a pair

The answers of the data cache carry no name. With the pair in `cache_handle` goes what the bus
has answered to its uncached requests, and the access of the pair is the clock edge at which
`en` is high. The answer on `dresp` in the cycle after it is what the data RAM held for a cached
request and what the bus had answered to an uncached one. The operations of the CACHE
instruction go through the same latch.
-/

namespace FrailCPU.DCache

/-- What a cycle presents to the cache, and what the bus does in it: it takes the beats of a
burst when it likes, and what it answers is not known. -/
structure Offer where
  dreq : Port → DBusReq
  isUncached : Port → Bool
  cacheInst : DCacheInst
  tagLo : Word
  ready : Bool
  data : Word

/-- The words of the data RAM that the cached requests of a pair read. A load that follows a
store of the same word in the pair takes the stored bytes from it. -/
def State.ramAnswer (s : State) : Port → Word
  | .one => s.dataRam (s.accessAddr .one)
  | .two =>
    if s.wToR then
      (getMask (s.req .one).strobe &&& (s.req .one).data) |||
        (getMask ((s.req .one).strobe ^^^ 15#4) &&& s.dataRam (s.accessAddr .one))
    else s.dataRam (s.accessAddr .two)

/-- The cache with the beat of the burst on its bus. `got` is what the bus has answered to the
uncached requests of the pair in `cache_handle`, and `answer` is the answer to the pair whose
access the last clock edge was. -/
structure Service where
  cache : State := {}
  beat : MLen := 0#4
  got : Port → Option Word := fun _ => none
  answer : Port → Option Word := fun _ => none

namespace Service

variable (v : Service) (o : Offer)

def resp : CBusResp where
  ready := v.cache.dcreq.valid && o.ready
  last := v.cache.dcreq.valid && o.ready && v.beat == v.cache.dcreq.len
  data := o.data

def input : Input := ⟨o.dreq, o.isUncached, v.resp o, o.cacheInst, o.tagLo⟩

/-- A clock edge. -/
def step : Service where
  cache := v.cache.next (v.input o)
  beat := if (v.resp o).ready then (if (v.resp o).last then 0#4 else v.beat + 1#4) else v.beat
  got p :=
    if v.cache.en then none
    else if v.cache.fsm.state = .uncache p ∧ (v.resp o).last then some (v.resp o).data
    else v.got p
  answer p :=
    if v.cache.en then
      if (v.cache.cacheHandle.side p).isUncached then v.got p else some (v.cache.ramAnswer p)
    else none

end Service

namespace State

variable (s : State)

/-- The state of the machine belongs to what is in `cache_handle`. -/
def Attends : Prop :=
  match s.fsm.state with
  | .idle => True
  | .fetch _ | .writeback _ | .uncache _ => s.en = false ∧ s.cacheHandle.cacheOper = .req
  | .store => s.en = false ∧ s.cacheHandle.cacheOper = .indexStore
  | .writebackInst =>
    s.en = false ∧ s.cacheHandle.cacheOper = .writebackInvalid ∧ s.wbDirty = true

/-- The machine is in a state of the younger request. -/
def secondTurn : Bool :=
  match s.fsm.state with
  | .fetch p | .writeback p | .uncache p => p == .two
  | _ => false

/-- The uncached requests of the pair go to the bus once each, the older one first. -/
structure Uncaches : Prop where
  /-- A pair begins without marks. -/
  fresh : s.en ≠ s.finishReg → ∀ p, s.ends.uncache p = false
  idle : s.finishReg = true → s.fsm.state = .idle
  turn : s.secondTurn = true → s.bypasses .one = true → s.ends.uncache .one = true
  done : s.en = true → s.cacheHandle.cacheOper = .req →
    ∀ p, s.bypasses p = true → s.ends.uncache p = true

end State

namespace Service

variable (v : Service)

/-- The word counter of the machine and the beat of the bus. -/
def Timed : Prop :=
  match v.cache.fsm.state with
  | .idle | .uncache _ => v.beat = 0#4 ∧ v.cache.fsm.missAddr.offset = 0#4
  | .fetch _ => v.cache.fsm.missAddr.offset = v.beat
  | .store => v.beat = 0#4
  | .writeback _ | .writebackInst => True

/-- What is kept by every clock edge. -/
structure Attentive : Prop where
  attends : v.cache.Attends
  timed : v.Timed
  uncaches : v.cache.Uncaches
  got : ∀ p, v.cache.ends.uncache p = true →
    v.cache.fsm.state = .uncache p ∨ v.got p = some (v.cache.uncachedData p)

theorem attentive_reset : ({} : Service).Attentive where
  attends := trivial
  timed := ⟨rfl, rfl⟩
  uncaches :=
    { fresh := fun _ _ => rfl
      idle := fun _ => rfl
      turn := fun h => by cases h
      done := fun _ h => by cases h }
  got _ h := by cases h

variable {v} {o : Offer}

/-! ### The bus -/

theorem resp_of_silent (h : v.cache.dcreq.valid = false) :
    (v.resp o).ready = false ∧ (v.resp o).last = false := by
  simp [resp, h]

theorem resp_of_idle (hs : v.cache.fsm.state = .idle) :
    (v.resp o).ready = false ∧ (v.resp o).last = false :=
  resp_of_silent (by simp [State.dcreq, hs])

theorem ready_of_last (h : (v.resp o).last = true) : (v.resp o).ready = true := by
  simp only [resp, Bool.and_eq_true] at h ⊢
  exact h.1

theorem beat_of_last (h : (v.resp o).last = true) : v.beat = v.cache.dcreq.len := by
  simp only [resp, Bool.and_eq_true, beq_iff_eq] at h
  exact h.2

/-- A request of one word is answered at once when it is taken. -/
theorem last_eq_ready {p : Port} (ht : v.Timed) (hs : v.cache.fsm.state = .uncache p) :
    (v.resp o).last = (v.resp o).ready := by
  rw [Timed, hs] at ht
  have hl : v.cache.dcreq.len = 0#4 := by
    rw [State.dcreq, hs]
    rfl
  rw [resp, ht.1, hl]
  simp

theorem beat_step : (v.step o).beat =
    if (v.resp o).ready then (if (v.resp o).last then 0#4 else v.beat + 1#4) else v.beat := rfl

theorem cache_step : (v.step o).cache = v.cache.next (v.input o) := rfl

/-! ### The state machine -/

/-- A pair that is not finished stays. -/
theorem waits (he : v.cache.en = false) (hf : v.cache.finish (v.input o) = false) :
    (v.step o).cache.en = false ∧ (v.step o).cache.cacheHandle = v.cache.cacheHandle := by
  rw [cache_step]
  exact ⟨by simp [State.enNext, he, hf], State.next_cacheHandle he⟩

theorem fsm_step (he : v.cache.en = false) : (v.step o).cache.fsm =
    match v.cache.fsm.state with
    | .idle => v.cache.fsmIdle
    | .fetch p => v.cache.fsmFetch (v.input o) p
    | .writeback p => v.cache.fsmWriteback (v.input o) (.writeback p) (.fetch p)
    | .uncache p =>
      { v.cache.fsm with state := if (v.resp o).last then .idle else .uncache p }
    | .store =>
      { v.cache.fsm with
        state := if v.cache.fsm.missAddr.offset == 15#4 then .idle else .store
        missAddr := ⟨v.cache.fsm.missAddr.slot, v.cache.fsm.missAddr.offset + 1#4⟩ }
    | .writebackInst => v.cache.fsmWriteback (v.input o) .writebackInst .idle := by
  rw [cache_step, State.next_fsm, State.fsmNext, he]
  rfl

theorem fsm_of_accept (he : v.cache.en = true) : (v.step o).cache.fsm = v.cache.fsm := by
  rw [cache_step, State.next_fsm, State.fsmNext, he]
  rfl

/-- The pair takes its access in the state without a burst. -/
theorem Attentive.idle_of_en (h : v.Attentive) (he : v.cache.en = true) :
    v.cache.fsm.state = .idle := by
  have ha := h.attends
  rw [State.Attends, he] at ha
  split at ha
  · assumption
  all_goals exact absurd ha.1 (by simp)

/-- What the machine begins with the pair that waits. -/
theorem fsmIdle_cases (s : State) (hi : s.fsm.state = .idle) :
    (s.fsmIdle.state = .idle ∧ s.fsmIdle.missAddr = s.fsm.missAddr) ∨
      (∃ p, s.cacheHandle.cacheOper = .req ∧ s.fsmIdle.state = .uncache p ∧
        s.fsmIdle.missAddr = s.fsm.missAddr ∧ (p = .two → s.uncacheDue .one = false)) ∨
      (∃ p, s.cacheHandle.cacheOper = .req ∧
        (s.fsmIdle.state = .fetch p ∨ s.fsmIdle.state = .writeback p) ∧
        s.fsmIdle.missAddr.offset = 0#4 ∧ s.uncacheDue .one = false) ∨
      (s.cacheHandle.cacheOper = .writebackInvalid ∧ s.wbDirty = true ∧
        s.fsmIdle.state = .writebackInst) ∨
      (s.cacheHandle.cacheOper = .indexStore ∧ s.fsmIdle.state = .store) := by
  have hmiss (p : Port) :
      ((s.startMiss p).state = .fetch p ∨ (s.startMiss p).state = .writeback p) ∧
        (s.startMiss p).missAddr.offset = 0#4 := by
    rw [State.startMiss]
    dsimp only
    split
    · exact ⟨Or.inr rfl, rfl⟩
    · exact ⟨Or.inl rfl, rfl⟩
  unfold State.fsmIdle
  cases ho : s.cacheHandle.cacheOper with
  | null => exact Or.inl ⟨hi, rfl⟩
  | invalid => exact Or.inl ⟨hi, rfl⟩
  | writebackInvalid =>
      dsimp only
      split_ifs with hd
      · rw [Bool.and_eq_true] at hd
        exact Or.inr (Or.inr (Or.inr (Or.inl ⟨rfl, hd.1, rfl⟩)))
      · exact Or.inl ⟨hi, rfl⟩
  | indexStore =>
      dsimp only
      split_ifs
      · exact Or.inr (Or.inr (Or.inr (Or.inr ⟨rfl, rfl⟩)))
      · exact Or.inl ⟨hi, rfl⟩
  | req =>
      dsimp only
      split_ifs with h1 h2 h3 h4
      · exact Or.inr (Or.inl ⟨.one, rfl, rfl, rfl, fun h => by cases h⟩)
      · rw [Bool.not_eq_true] at h1
        exact Or.inr (Or.inr (Or.inl ⟨.one, rfl, (hmiss .one).1, (hmiss .one).2, h1⟩))
      · rw [Bool.not_eq_true] at h1
        exact Or.inr (Or.inl ⟨.two, rfl, rfl, rfl, fun _ => h1⟩)
      · rw [Bool.not_eq_true] at h1
        exact Or.inr (Or.inr (Or.inl ⟨.two, rfl, (hmiss .two).1, (hmiss .two).2, h1⟩))
      · exact Or.inl ⟨hi, rfl⟩

/-- The pair that waits is not finished in the state without a burst. -/
theorem finish_of_idle (ht : v.Timed) (hi : v.cache.fsm.state = .idle)
    (hw : v.cache.cacheHandle.cacheOper = .writebackInvalid → v.cache.wbDirty = true) :
    v.cache.finish (v.input o) = false := by
  rw [Timed, hi] at ht
  have hl : (v.input o).dcresp.last = false := (resp_of_idle hi).2
  cases ho : v.cache.cacheHandle.cacheOper with
  | req => exact State.finish_of_idle hi (Or.inl ho)
  | null => exact State.finish_of_idle hi (Or.inr ho)
  | writebackInvalid => simp [State.finish, ho, hw ho, hl]
  | _ => simp [State.finish, ho, ht.2]

/-- The dirty bits change only with requests. -/
theorem wbDirty_of_waits (hc : (v.step o).cache.cacheHandle = v.cache.cacheHandle)
    (ho : v.cache.cacheHandle.cacheOper ≠ .req) :
    (v.step o).cache.wbDirty = v.cache.wbDirty := by
  have hdirty : (v.step o).cache.cacheDirty = v.cache.cacheDirty := by
    simp [cache_step, State.next, ho]
  rw [State.wbDirty, State.wbDirty, State.index, State.index, State.req, State.req, hc, hdirty]

theorem Attentive.step_idle (h : v.Attentive) (hi : v.cache.fsm.state = .idle) :
    (v.step o).cache.Attends ∧ (v.step o).Timed := by
  have hb : (v.step o).beat = v.beat := by rw [beat_step, (resp_of_idle hi).1]; rfl
  have ht := h.timed
  rw [Timed, hi] at ht
  rw [State.Attends, Timed, hb]
  cases he : v.cache.en with
  | true =>
      rw [fsm_of_accept he, hi]
      exact ⟨trivial, ht⟩
  | false =>
      have hf : (v.step o).cache.fsm = v.cache.fsmIdle := by rw [fsm_step he, hi]
      rw [hf]
      rcases fsmIdle_cases v.cache hi with ⟨hs, hm⟩ | ⟨p, ho, hs, hm, -⟩ | ⟨p, ho, hs, hm, -⟩ |
        ⟨ho, hd, hs⟩ | ⟨ho, hs⟩
      · rw [hs, hm]
        exact ⟨trivial, ht⟩
      · obtain ⟨hen, hc⟩ := waits he (finish_of_idle (o := o) h.timed hi (by simp [ho]))
        rw [hs, hm, hc]
        exact ⟨⟨hen, ho⟩, ht⟩
      · obtain ⟨hen, hc⟩ := waits he (finish_of_idle (o := o) h.timed hi (by simp [ho]))
        rcases hs with hs | hs
        · rw [hs, hm, hc]
          exact ⟨⟨hen, ho⟩, ht.1.symm⟩
        · rw [hs, hc]
          exact ⟨⟨hen, ho⟩, trivial⟩
      · obtain ⟨hen, hc⟩ := waits he (finish_of_idle (o := o) h.timed hi fun _ => hd)
        rw [hs, hc, wbDirty_of_waits hc (by simp [ho])]
        exact ⟨⟨hen, ho, hd⟩, trivial⟩
      · obtain ⟨hen, hc⟩ := waits he (finish_of_idle (o := o) h.timed hi (by simp [ho]))
        rw [hs, hc]
        exact ⟨⟨hen, ho⟩, ht.1⟩

/-- A burst that goes on does not finish the pair. -/
theorem finish_of_more (hl : (v.resp o).last = false)
    (ho : v.cache.cacheHandle.cacheOper = .req ∨
      v.cache.cacheHandle.cacheOper = .writebackInvalid ∧ v.cache.wbDirty = true) :
    v.cache.finish (v.input o) = false := by
  have hl' : (v.input o).dcresp.last = false := hl
  rcases ho with ho | ⟨ho, hd⟩
  · simp [State.finish, ho, hl']
  · simp [State.finish, ho, hd, hl']

theorem attends_of_idle {s : State} (hs : s.fsm.state = .idle) : s.Attends := by
  rw [State.Attends, hs]
  trivial

theorem beat_of_last_line {p : Port} (hs : v.cache.fsm.state = .fetch p)
    (hl : (v.resp o).last = true) : v.beat = 15#4 := by
  rw [beat_of_last hl, State.dcreq, hs]
  rfl

theorem Attentive.step_fetch (h : v.Attentive) {p : Port} (hs : v.cache.fsm.state = .fetch p) :
    (v.step o).cache.Attends ∧ (v.step o).Timed := by
  have ha := h.attends
  have ht := h.timed
  rw [State.Attends, hs] at ha
  rw [Timed, hs] at ht
  have hfsm : (v.step o).cache.fsm = v.cache.fsmFetch (v.input o) p := by rw [fsm_step ha.1, hs]
  cases hl : (v.resp o).last with
  | true =>
      have hr : (v.input o).dcresp.ready = true := ready_of_last hl
      have hl' : (v.input o).dcresp.last = true := hl
      rw [State.fsmFetch, hr, hl', if_pos rfl, if_pos rfl, ht, beat_of_last_line hs hl] at hfsm
      refine ⟨attends_of_idle (by rw [hfsm]), ?_⟩
      rw [Timed, hfsm, beat_step, hl, ready_of_last hl]
      exact ⟨rfl, rfl⟩
  | false =>
      obtain ⟨hen, hc⟩ := waits ha.1 (finish_of_more hl (Or.inl ha.2))
      have hl' : (v.input o).dcresp.last = false := hl
      rw [State.Attends, Timed, beat_step, hl, hen, hc]
      cases hr : (v.resp o).ready with
      | false =>
          have hr' : (v.input o).dcresp.ready = false := hr
          rw [State.fsmFetch, hr', if_neg Bool.false_ne_true] at hfsm
          rw [hfsm, hs]
          exact ⟨⟨rfl, ha.2⟩, ht⟩
      | true =>
          have hr' : (v.input o).dcresp.ready = true := hr
          rw [State.fsmFetch, hr', hl', if_pos rfl, if_neg Bool.false_ne_true, ht] at hfsm
          rw [hfsm]
          exact ⟨⟨rfl, ha.2⟩, rfl⟩

theorem Attentive.step_uncache (h : v.Attentive) {p : Port}
    (hs : v.cache.fsm.state = .uncache p) : (v.step o).cache.Attends ∧ (v.step o).Timed := by
  have ha := h.attends
  have ht := h.timed
  have hlr := last_eq_ready (o := o) ht hs
  rw [State.Attends, hs] at ha
  rw [Timed, hs] at ht
  have hfsm := fsm_step (o := o) ha.1
  rw [hs] at hfsm
  dsimp only at hfsm
  cases hl : (v.resp o).last with
  | true =>
      rw [hl, if_pos rfl] at hfsm
      refine ⟨attends_of_idle (by rw [hfsm]), ?_⟩
      rw [Timed, hfsm, beat_step, hl, ← hlr, hl]
      exact ⟨rfl, ht.2⟩
  | false =>
      obtain ⟨hen, hc⟩ := waits ha.1 (finish_of_more hl (Or.inl ha.2))
      rw [hl, if_neg Bool.false_ne_true] at hfsm
      rw [State.Attends, Timed, hfsm, hen, hc, beat_step, ← hlr, hl]
      exact ⟨⟨rfl, ha.2⟩, ht⟩

/-- A write-back goes on, or its last beat is taken and the word counter starts again. -/
theorem fsmWriteback_cases {w : FsmState} (hs : v.cache.fsm.state = w) (done : FsmState) :
    ((v.resp o).last = true ∧ (v.cache.fsmWriteback (v.input o) w done).state = done ∧
      (v.cache.fsmWriteback (v.input o) w done).missAddr.offset = 0#4) ∨
    ((v.resp o).last = false ∧ (v.cache.fsmWriteback (v.input o) w done).state = w) := by
  cases hl : (v.resp o).last with
  | true =>
      have hr : (v.input o).dcresp.ready = true := ready_of_last hl
      have hl' : (v.input o).dcresp.last = true := hl
      exact Or.inl ⟨rfl, by simp [State.fsmWriteback, hr, hl'],
        by simp [State.fsmWriteback, hl']⟩
  | false =>
      have hl' : (v.input o).dcresp.last = false := hl
      exact Or.inr ⟨rfl, by simp [State.fsmWriteback, hl', hs]⟩

theorem Attentive.step_writeback (h : v.Attentive) {p : Port}
    (hs : v.cache.fsm.state = .writeback p) : (v.step o).cache.Attends ∧ (v.step o).Timed := by
  have ha := h.attends
  rw [State.Attends, hs] at ha
  have hf : v.cache.finish (v.input o) = false := by
    have hn : (v.cache.fsm.state == v.cache.finishState) = false := by
      rw [hs, State.finishState_eq]
      split_ifs <;> rfl
    simp [State.finish, ha.2, hn]
  obtain ⟨hen, hc⟩ := waits ha.1 hf
  have hfsm : (v.step o).cache.fsm =
      v.cache.fsmWriteback (v.input o) (.writeback p) (.fetch p) := by rw [fsm_step ha.1, hs]
  rw [State.Attends, Timed, hen, hc, hfsm, beat_step]
  rcases fsmWriteback_cases (o := o) hs (.fetch p) with ⟨hl, hd, hm⟩ | ⟨hl, hd⟩
  · rw [hd, hm, hl, ready_of_last hl]
    exact ⟨⟨rfl, ha.2⟩, rfl⟩
  · rw [hd]
    exact ⟨⟨rfl, ha.2⟩, trivial⟩

theorem Attentive.step_writebackInst (h : v.Attentive)
    (hs : v.cache.fsm.state = .writebackInst) : (v.step o).cache.Attends ∧ (v.step o).Timed := by
  have ha := h.attends
  rw [State.Attends, hs] at ha
  have hfsm : (v.step o).cache.fsm =
      v.cache.fsmWriteback (v.input o) .writebackInst .idle := by rw [fsm_step ha.1, hs]
  rcases fsmWriteback_cases (o := o) hs .idle with ⟨hl, hd, hm⟩ | ⟨hl, hd⟩
  · refine ⟨attends_of_idle (by rw [hfsm, hd]), ?_⟩
    rw [Timed, hfsm, hd, hm, beat_step, hl, ready_of_last hl]
    exact ⟨rfl, rfl⟩
  · obtain ⟨hen, hc⟩ := waits ha.1 (finish_of_more hl (Or.inr ha.2))
    rw [State.Attends, Timed, hen, hc, wbDirty_of_waits hc (by simp [ha.2.1]), hfsm, hd]
    exact ⟨⟨rfl, ha.2⟩, trivial⟩

theorem Attentive.step_store (h : v.Attentive) (hs : v.cache.fsm.state = .store) :
    (v.step o).cache.Attends ∧ (v.step o).Timed := by
  have ha := h.attends
  have ht := h.timed
  rw [State.Attends, hs] at ha
  rw [Timed, hs] at ht
  have hb : (v.step o).beat = v.beat := by
    rw [beat_step, (resp_of_silent (o := o) (by simp [State.dcreq, hs])).1]
    rfl
  have hfsm := fsm_step (o := o) ha.1
  rw [hs] at hfsm
  dsimp only at hfsm
  cases ho : v.cache.fsm.missAddr.offset == 15#4 with
  | true =>
      rw [ho, if_pos rfl, beq_iff_eq.mp ho] at hfsm
      refine ⟨attends_of_idle (by rw [hfsm]), ?_⟩
      rw [Timed, hfsm, hb]
      exact ⟨ht, rfl⟩
  | false =>
      have hf : v.cache.finish (v.input o) = false := by simp [State.finish, ha.2, ho]
      obtain ⟨hen, hc⟩ := waits ha.1 hf
      rw [ho, if_neg Bool.false_ne_true] at hfsm
      rw [State.Attends, Timed, hen, hc, hfsm, hb]
      exact ⟨⟨rfl, ha.2⟩, ht⟩

theorem Attentive.step_fsm (h : v.Attentive) :
    (v.step o).cache.Attends ∧ (v.step o).Timed := by
  cases hs : v.cache.fsm.state with
  | idle => exact h.step_idle hs
  | fetch p => exact h.step_fetch hs
  | writeback p => exact h.step_writeback hs
  | uncache p => exact h.step_uncache hs
  | store => exact h.step_store hs
  | writebackInst => exact h.step_writebackInst hs

/-! ### The uncached requests -/

theorem ends_step (p : Port) : (v.step o).cache.ends.uncache p =
    (!v.cache.finishReg && (v.cache.fsm.state == .uncache p || v.cache.ends.uncache p)) := by
  rw [cache_step, State.next_ends, State.endsNext]
  cases v.cache.finishReg <;> rfl

/-- With the access of a pair its marks go. -/
theorem Attentive.ends_of_accept (h : v.Attentive) (he : v.cache.en = true) (p : Port) :
    (v.step o).cache.ends.uncache p = false := by
  rw [ends_step, h.idle_of_en he]
  cases hf : v.cache.finishReg with
  | true => rfl
  | false =>
      rw [h.uncaches.fresh (by simp [he, hf])]
      rfl

theorem en_step : (v.step o).cache.en = v.cache.enNext (v.input o) := rfl

theorem finishReg_step : (v.step o).cache.finishReg = v.cache.finish (v.input o) := rfl

/-- A pair is finished in the last cycle of a burst, or in the one of an operation. -/
theorem Attentive.idle_of_finish (h : v.Attentive) (hf : v.cache.finish (v.input o) = true) :
    (v.step o).cache.fsm.state = .idle := by
  cases hs : (v.step o).cache.fsm.state with
  | idle => rfl
  | _ =>
      exfalso
      have ha := (h.step_fsm (o := o)).1
      rw [State.Attends, hs] at ha
      have hen := ha.1
      rw [en_step, State.enNext, hf] at hen
      cases he : v.cache.en with
      | false => simp [he] at hen
      | true =>
          rw [fsm_of_accept he, h.idle_of_en he] at hs
          cases hs

theorem Attentive.fresh_step (h : v.Attentive)
    (hn : (v.step o).cache.en ≠ (v.step o).cache.finishReg) (p : Port) :
    (v.step o).cache.ends.uncache p = false := by
  cases he : v.cache.en with
  | true => exact h.ends_of_accept he p
  | false =>
      rw [en_step, finishReg_step, State.enNext, he] at hn
      simp at hn

/-- A request of a pair, and whether it goes to the bus by itself, while the pair waits. -/
theorem bypasses_step (he : v.cache.en = false) (p : Port) :
    (v.step o).cache.bypasses p = v.cache.bypasses p :=
  State.bypasses_congr (State.next_cacheHandle he) p

/-- A mark stays until the pair has its access. -/
theorem Attentive.mark_step (h : v.Attentive) (he : v.cache.en = false) {p : Port}
    (hm : v.cache.ends.uncache p = true) : (v.step o).cache.ends.uncache p = true := by
  have hf : v.cache.finishReg = false := by
    rw [Bool.eq_false_iff]
    intro hf
    rw [h.uncaches.fresh (by simp [he, hf])] at hm
    cases hm
  rw [ends_step, hf, hm, Bool.or_true]
  rfl

/-- The turn of the younger request begins when the older one is served. -/
theorem secondTurn_step (he : v.cache.en = false)
    (ht : (v.step o).cache.secondTurn = true) :
    v.cache.secondTurn = true ∨
      v.cache.fsm.state = .idle ∧ v.cache.uncacheDue .one = false := by
  have hfsm := fsm_step (o := o) he
  cases hs : v.cache.fsm.state with
  | idle =>
      right
      refine ⟨rfl, ?_⟩
      rw [hs] at hfsm
      rw [State.secondTurn, hfsm] at ht
      rcases fsmIdle_cases v.cache hs with ⟨h', -⟩ | ⟨p, -, h', -, h1⟩ | ⟨p, -, -, -, h1⟩ |
        ⟨-, -, h'⟩ | ⟨-, h'⟩
      · rw [h'] at ht
        cases ht
      · rw [h'] at ht
        exact h1 (beq_iff_eq.mp ht)
      · exact h1
      · rw [h'] at ht
        cases ht
      · rw [h'] at ht
        cases ht
  | fetch p =>
      left
      rw [hs] at hfsm
      dsimp only at hfsm
      rw [State.secondTurn, hfsm, State.fsmFetch] at ht
      rw [State.secondTurn, hs]
      revert ht
      cases (v.input o).dcresp.ready <;> cases (v.input o).dcresp.last <;> simp [hs]
  | writeback p =>
      left
      rw [hs] at hfsm
      rw [State.secondTurn, hfsm] at ht
      rw [State.secondTurn, hs]
      rcases fsmWriteback_cases (o := o) hs (.fetch p) with ⟨-, hd, -⟩ | ⟨-, hd⟩ <;>
        rw [hd] at ht <;> exact ht
  | uncache p =>
      left
      rw [hs] at hfsm
      rw [State.secondTurn, hfsm] at ht
      rw [State.secondTurn, hs]
      revert ht
      cases (v.resp o).last <;> simp
  | store =>
      rw [hs] at hfsm
      rw [State.secondTurn, hfsm] at ht
      revert ht
      cases v.cache.fsm.missAddr.offset == 15#4 <;> simp
  | writebackInst =>
      rw [hs] at hfsm
      rw [State.secondTurn, hfsm] at ht
      rcases fsmWriteback_cases (o := o) hs .idle with ⟨-, hd, -⟩ | ⟨-, hd⟩ <;>
        rw [hd] at ht <;> cases ht

theorem Attentive.turn_step (h : v.Attentive) (ht : (v.step o).cache.secondTurn = true)
    (hb : (v.step o).cache.bypasses .one = true) :
    (v.step o).cache.ends.uncache .one = true := by
  cases he : v.cache.en with
  | true =>
      rw [State.secondTurn, fsm_of_accept he, h.idle_of_en he] at ht
      cases ht
  | false =>
      rw [bypasses_step he] at hb
      rcases secondTurn_step he ht with ht | ⟨-, hu⟩
      · exact h.mark_step he (h.uncaches.turn ht hb)
      · rw [State.uncacheDue_eq, hb, Bool.true_and, Bool.not_eq_false'] at hu
        exact h.mark_step he hu

/-- The last burst of a pair leaves a mark for each uncached request. -/
theorem Attentive.done_of_finish (h : v.Attentive) (he : v.cache.en = false)
    (ho : v.cache.cacheHandle.cacheOper = .req) (hf : v.cache.finish (v.input o) = true)
    {p : Port} (hb : v.cache.bypasses p = true) : (v.step o).cache.ends.uncache p = true := by
  have hw : (CacheOper.req == CacheOper.writebackInvalid) = false := rfl
  have hx : (CacheOper.req == CacheOper.indexStore) = false := rfl
  have hs : v.cache.fsm.state = v.cache.finishState := by
    simp only [State.finish, ho, hw, hx, Bool.false_and, Bool.or_false, Bool.and_eq_true,
      beq_iff_eq] at hf
    exact hf.1.2
  rw [State.finishState_eq] at hs
  have hfin : v.cache.finishReg = false := by
    rw [Bool.eq_false_iff]
    intro hfin
    rw [h.uncaches.idle hfin] at hs
    revert hs
    split_ifs <;> simp
  have hmark (hs : v.cache.fsm.state = .uncache p) :
      (v.step o).cache.ends.uncache p = true := by
    rw [ends_step, hfin, hs]
    simp
  cases p with
  | two =>
      rw [hb, if_pos rfl] at hs
      exact hmark hs
  | one =>
      cases ht : v.cache.secondTurn with
      | true => exact h.mark_step he (h.uncaches.turn ht hb)
      | false =>
          refine hmark ?_
          rw [State.secondTurn] at ht
          split_ifs at hs <;> simp [hs] at ht hs ⊢

/-- Only a pair without an operation is one of requests. -/
theorem cacheInst_of_req {s : State} {i : Input} (h : (s.handleNext i).cacheOper = .req) :
    i.cacheInst = .unknown := by
  change s.cacheOper i = .req at h
  unfold State.cacheOper at h
  split_ifs at h with _ _ _ h'
  exact beq_iff_eq.mp h'

theorem Attentive.done_step (h : v.Attentive) (he : (v.step o).cache.en = true)
    (ho : (v.step o).cache.cacheHandle.cacheOper = .req) (p : Port)
    (hb : (v.step o).cache.bypasses p = true) : (v.step o).cache.ends.uncache p = true := by
  cases hen : v.cache.en with
  | false =>
      have hc : (v.step o).cache.cacheHandle = v.cache.cacheHandle := State.next_cacheHandle hen
      rw [hc] at ho
      rw [bypasses_step hen] at hb
      refine h.done_of_finish hen ho ?_ hb
      rw [en_step, State.enNext, hen] at he
      simpa using he
  | true =>
      exfalso
      have hc : (v.step o).cache.cacheHandle = v.cache.handleNext (v.input o) := by
        rw [cache_step, State.next, hen]
        rfl
      have hd : v.cache.dreqEn (v.input o) = true := by
        rw [en_step, State.enNext, hen] at he
        simpa using he
      rw [hc] at ho
      rw [State.dreqEn_eq (cacheInst_of_req ho), Bool.and_eq_true] at hd
      rw [State.bypasses, State.req, hc, Bool.and_eq_true] at hb
      have hv : (o.dreq p).valid = true := hb.1
      have hu : o.isUncached p = true := hb.2
      cases p with
      | one => simp [input, State.cacheHit, hv, hu] at hd
      | two => simp [input, State.cacheHit, hv, hu] at hd

theorem Attentive.got_step (h : v.Attentive) (p : Port)
    (hm : (v.step o).cache.ends.uncache p = true) :
    (v.step o).cache.fsm.state = .uncache p ∨
      (v.step o).got p = some ((v.step o).cache.uncachedData p) := by
  cases he : v.cache.en with
  | true =>
      rw [h.ends_of_accept he] at hm
      cases hm
  | false =>
      have hgot : (v.step o).got p = if v.cache.fsm.state = .uncache p ∧ (v.resp o).last
          then some (v.resp o).data else v.got p := by
        simp [step, he]
      have hdata : (v.step o).cache.uncachedData p =
          if v.cache.fsm.state = .uncache p ∧ (v.resp o).last then (v.resp o).data
          else v.cache.uncachedData p := rfl
      rw [hgot, hdata]
      by_cases hs : v.cache.fsm.state = .uncache p
      · cases hl : (v.resp o).last with
        | true => exact Or.inr (by rw [if_pos ⟨hs, rfl⟩, if_pos ⟨hs, rfl⟩])
        | false =>
            left
            have hfsm := fsm_step (o := o) he
            rw [hs] at hfsm
            dsimp only at hfsm
            rw [hfsm, hl, if_neg Bool.false_ne_true]
      · right
        rw [if_neg (fun hn => hs hn.1), if_neg (fun hn => hs hn.1)]
        rw [ends_step, beq_eq_false_iff_ne.mpr hs, Bool.false_or, Bool.and_eq_true] at hm
        exact (h.got p hm.2).resolve_left hs

theorem Attentive.step (h : v.Attentive) : (v.step o).Attentive where
  attends := h.step_fsm.1
  timed := h.step_fsm.2
  uncaches :=
    { fresh := h.fresh_step
      idle := h.idle_of_finish
      turn := h.turn_step
      done := h.done_step }
  got := h.got_step

/-! ### The answer -/

/-- A cached request is answered with what the data RAM held at its access. -/
theorem respData_of_cached {s : State} {i : Input} {p : Port} (hi : s.fsm.state = .idle)
    (hu : (s.cacheHandle.side p).isUncached = false) :
    (s.next i).respData p = s.ramAnswer p := by
  cases p with
  | one =>
      simp [State.ramAnswer, State.respData, State.next, hu, State.portDataRNext, State.port1Addr]
  | two =>
      simp [State.ramAnswer, State.respData, State.next, hu, State.portDataRNext, State.port1Addr,
        State.port2Addr, State.wToRRespData, hi]

/-- The answer on `dresp` is the one to the pair that had its access: the words of the RAM at
the access, and of the bus for the uncached requests. -/
theorem Attentive.answer_step (h : v.Attentive) (he : v.cache.en = true) {p : Port}
    (hu : (v.cache.cacheHandle.side p).isUncached = true →
      v.cache.cacheHandle.cacheOper = .req ∧ (v.cache.req p).valid = true) :
    (v.step o).answer p = some ((v.step o).cache.respData p) := by
  have hi := h.idle_of_en he
  have hans : (v.step o).answer p = if (v.cache.cacheHandle.side p).isUncached then v.got p
      else some (v.cache.ramAnswer p) := by
    simp [Service.step, he]
  rw [hans]
  cases hun : (v.cache.cacheHandle.side p).isUncached with
  | true =>
      obtain ⟨ho, hv⟩ := hu hun
      have hb : v.cache.bypasses p = true := by rw [State.bypasses, hv, hun]; rfl
      have hgot := (h.got p (h.uncaches.done he ho p hb)).resolve_left (by simp [hi])
      have hdata : (v.step o).cache.uncachedData p = v.cache.uncachedData p := by
        simp [cache_step, State.next, hi]
      rw [if_pos rfl, hgot, ← hdata]
      cases p <;> simp [State.respData, cache_step, State.next, hun]
  | false =>
      rw [if_neg Bool.false_ne_true, cache_step, respData_of_cached hi hun]

end Service

end FrailCPU.DCache
