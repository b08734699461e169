import FrailCPU.DCache.Agree
import FrailCPU.DCache.Answer
import FrailCPU.Mmu.Mmu

/-!
# Requests that the MMU refuses

`mmu.sv` takes the valid bit from a request that it refuses and forwards the rest. Two caches
are compared that differ in the strobe and the data of such a request: they stay the same when
the request is uncached, and the data RAM is written when it is not.
-/

namespace FrailCPU.DCache

open ClockedMachine

namespace State

variable {s : State} {i : Input} {p : Port} {strobe : Strobe} {data : Word}

/-- The state with another strobe and other data in the request of a port. -/
def relabel (s : State) (p : Port) (strobe : Strobe) (data : Word) : State :=
  { s with
    cacheHandle :=
      { s.cacheHandle with
        side := fun q =>
          if q = p then
            { s.cacheHandle.side q with
              dreq := { (s.cacheHandle.side q).dreq with strobe := strobe, data := data } }
          else s.cacheHandle.side q } }

/-- The state with other copies of the older store for the answer of the younger request. -/
def recopy (s : State) (strobe : Strobe) (data : Word) : State :=
  { s with wToRData := data, wToRStrobe := strobe }

/-- The request is not valid, it is not in the cache, and the machine is not serving it. -/
structure Barred (s : State) (p : Port) : Prop where
  invalid : (s.req p).valid = false
  uncached : (s.cacheHandle.side p).isUncached = true
  idle : s.fsm.state ≠ .fetch p ∧ s.fsm.state ≠ .writeback p ∧ s.fsm.state ≠ .uncache p

theorem relabel_req_of_ne {q : Port} (h : q ≠ p) :
    (s.relabel p strobe data).req q = s.req q := by
  rw [req, relabel]
  exact congrArg Side.dreq (if_neg h)

theorem relabel_valid (q : Port) :
    ((s.relabel p strobe data).req q).valid = (s.req q).valid := by
  cases p <;> cases q <;> rfl

theorem relabel_isUncached (q : Port) :
    ((s.relabel p strobe data).cacheHandle.side q).isUncached =
      (s.cacheHandle.side q).isUncached := by
  cases p <;> cases q <;> rfl

/-! ### What reads neither strobe nor data -/

theorem relabel_finish : (s.relabel p strobe data).finish i = s.finish i := by
  cases p <;> rfl

theorem relabel_enNext : (s.relabel p strobe data).enNext i = s.enNext i := by
  rw [enNext, enNext, relabel_finish]
  rfl

theorem relabel_fsmNext : (s.relabel p strobe data).fsmNext i = s.fsmNext i := by
  cases p <;> rfl

theorem relabel_metaR (q : Port) :
    ((s.relabel p strobe data).cacheHandle.side q).metaR = (s.cacheHandle.side q).metaR := by
  cases p <;> cases q <;> rfl

theorem relabel_metaFetch (q : Port) :
    (s.relabel p strobe data).metaFetch q = s.metaFetch q := by
  cases p <;> cases q <;> rfl

theorem relabel_metaRamNext : (s.relabel p strobe data).metaRamNext i = s.metaRamNext i := by
  have haddr : (s.relabel p strobe data).metaWAddr = s.metaWAddr := by cases p <;> rfl
  have hw : (s.relabel p strobe data).metaW i = s.metaW i := by
    simp only [metaW, relabel_metaFetch, relabel_metaR]
    rfl
  rw [metaRamNext, metaRamNext, haddr, hw]
  rfl

theorem relabel_victim (q : Port) : (s.relabel p strobe data).victim q = s.victim q := by
  cases p <;> cases q <;> rfl

theorem relabel_plruNew : (s.relabel p strobe data).plruNew i = s.plruNew i := by
  cases p <;> rfl

theorem relabel_replaceLineRegNext :
    (s.relabel p strobe data).replaceLineRegNext i = s.replaceLineRegNext i := by
  cases p <;> rfl

theorem relabel_portDataRNext :
    (s.relabel p strobe data).portDataRNext = s.portDataRNext := by
  cases p <;> rfl

/-! ### What reads them for a valid request only -/

theorem Barred.addrSame (h : s.Barred p) : s.addrSame = false := by
  have hv := h.invalid
  cases p <;> simp [State.addrSame, hv]

theorem Barred.processCacheHit (h : s.Barred p) : s.processCacheHit p = false := by
  rw [State.processCacheHit, h.invalid, Bool.and_false, Bool.false_and]

theorem Barred.relabel (h : s.Barred p) : (s.relabel p strobe data).Barred p :=
  ⟨(relabel_valid p).trans h.invalid, (relabel_isUncached p).trans h.uncached, h.idle⟩

theorem Barred.relabel_wToR (h : s.Barred p) : (s.relabel p strobe data).wToR = s.wToR := by
  rw [wToR, wToR, h.relabel.addrSame, h.addrSame]
  rfl

theorem Barred.wToW (h : s.Barred p) : s.wToW = false := by
  rw [State.wToW, h.addrSame]
  rfl

theorem Barred.relabel_cacheDirtyNew (h : s.Barred p) :
    (s.relabel p strobe data).cacheDirtyNew = s.cacheDirtyNew := by
  have hhit : (s.relabel p strobe data).processCacheHit p = false := h.relabel.processCacheHit
  have hhit' := h.processCacheHit
  have hfetch := h.idle.1
  have hfsm : (s.relabel p strobe data).fsm = s.fsm := rfl
  funext k
  simp only [cacheDirtyNew, hfsm]
  cases hs : s.fsm.state with
  | idle =>
    cases p with
    | one =>
      dsimp only
      rw [hhit, hhit']
      rfl
    | two =>
      dsimp only
      rw [hhit, hhit']
      rfl
  | fetch q =>
    have hq : q ≠ p := fun hq => hfetch (by rw [hs, hq])
    dsimp only
    rw [relabel_req_of_ne hq, relabel_victim]
    rfl
  | _ => rfl

theorem Barred.relabel_dcreq (h : s.Barred p) : (s.relabel p strobe data).dcreq = s.dcreq := by
  have huncache := h.idle.2.2
  have hfsm : (s.relabel p strobe data).fsm = s.fsm := rfl
  simp only [dcreq, cbusAddr, hfsm]
  cases hs : s.fsm.state with
  | uncache q =>
    have hq : q ≠ p := fun hq => huncache (by rw [hs, hq])
    dsimp only
    rw [relabel_req_of_ne hq]
  | fetch q | writeback q => cases p <;> cases q <;> rfl
  | writebackInst => cases p <;> rfl
  | _ => rfl

theorem Barred.relabel_dataRamNext (h : s.Barred p) :
    (s.relabel p strobe data).dataRamNext i = s.dataRamNext i := by
  have hw := h.wToW
  have hw' : (s.relabel p strobe data).wToW = false := h.relabel.wToW
  have haddr2 : (s.relabel p strobe data).port2Addr = s.port2Addr := by cases p <;> rfl
  cases p with
  | one =>
    -- the older port is not enabled, and nothing is merged onto the other one
    have hen (t : State) (ht : t.Barred .one) : t.port1En = false := by
      rw [port1En, ht.uncached]
      simp
    have hwen : (s.relabel .one strobe data).port2Wen = s.port2Wen := by
      rw [port2Wen, port2Wen, hw, hw']
      rfl
    have hdata : (s.relabel .one strobe data).port2DataW i = s.port2DataW i := by
      rw [port2DataW, port2DataW, hw, hw']
      rfl
    rw [dataRamNext, dataRamNext, hen _ h, hen _ h.relabel, ramWrite_off, ramWrite_off, haddr2,
      hwen, hdata]
    rfl
  | two =>
    have hport1 : (s.relabel .two strobe data).port1En = s.port1En := by
      rw [port1En, port1En, hw, hw']
      rfl
    rw [dataRamNext, dataRamNext, hport1, haddr2]
    by_cases hs : s.fsm.state = .idle
    · -- the younger port is not enabled either
      have hen (t : State) (ht : t.Barred .two) (hs : t.fsm.state = .idle) :
          t.port2En = false := by
        rw [port2En, if_pos hs, ht.uncached]
        simp
      rw [hen _ h hs, hen _ h.relabel hs, ramWrite_off, ramWrite_off]
      rfl
    · -- a refill writes, or the walk over a line
      have hwen : (s.relabel .two strobe data).port2Wen = s.port2Wen := by
        rw [port2Wen, port2Wen, show (s.relabel .two strobe data).fsm = s.fsm from rfl]
        cases hst : s.fsm.state with
        | idle => exact absurd hst hs
        | _ => rfl
      have hdata : (s.relabel .two strobe data).port2DataW i = s.port2DataW i := by
        rw [port2DataW, port2DataW, show (s.relabel .two strobe data).fsm = s.fsm from rfl]
        cases hst : s.fsm.state with
        | idle => exact absurd hst hs
        | _ => rfl
      rw [hwen, hdata]
      rfl

/-- A clock edge at which the pair waits. -/
theorem Barred.relabel_next (h : s.Barred p) (he : s.en = false) :
    (s.relabel p strobe data).next i = ((s.next i).relabel p strobe data).recopy
      ((s.relabel p strobe data).req .one).strobe ((s.relabel p strobe data).req .one).data := by
  rw [next, relabel_enNext, relabel_fsmNext, relabel_metaRamNext, h.relabel_cacheDirtyNew,
    relabel_plruNew, h.relabel_dataRamNext, relabel_portDataRNext, relabel_replaceLineRegNext,
    relabel_finish, h.relabel_wToR]
  simp only [relabel_isUncached]
  rw [show (s.relabel p strobe data).en = false from he, State.next, recopy, State.relabel, he]
  rfl

/-- The clock edge at which the next pair is taken. -/
theorem Barred.relabel_next_of_en (h : s.Barred p) (he : s.en = true) :
    (s.relabel p strobe data).next i = (s.next i).recopy
      ((s.relabel p strobe data).req .one).strobe ((s.relabel p strobe data).req .one).data := by
  rw [next, relabel_enNext, relabel_fsmNext, relabel_metaRamNext, h.relabel_cacheDirtyNew,
    relabel_plruNew, h.relabel_dataRamNext, relabel_portDataRNext, relabel_replaceLineRegNext,
    relabel_finish, h.relabel_wToR]
  simp only [relabel_isUncached]
  rw [show (s.relabel p strobe data).en = true from he, State.next, recopy, he]
  rfl

/-- The clock edge that takes the request. -/
theorem next_relabel (he : s.en = true) (r : DBusReq) :
    s.next { i with dreq := Function.update i.dreq p { r with strobe := strobe, data := data } } =
      (s.next { i with dreq := Function.update i.dreq p r }).relabel p strobe data := by
  have hen : s.enNext { i with
      dreq := Function.update i.dreq p { r with strobe := strobe, data := data } } =
        s.enNext { i with dreq := Function.update i.dreq p r } := by cases p <;> rfl
  have hhandle : s.handleNext { i with
      dreq := Function.update i.dreq p { r with strobe := strobe, data := data } } =
        { s.handleNext { i with dreq := Function.update i.dreq p r } with
          side := fun q =>
            if q = p then
              { (s.handleNext { i with dreq := Function.update i.dreq p r }).side q with
                dreq := { ((s.handleNext
                  { i with dreq := Function.update i.dreq p r }).side q).dreq with
                    strobe := strobe, data := data } }
            else (s.handleNext { i with dreq := Function.update i.dreq p r }).side q } := by
    rw [handleNext, ProcessPkg.mk.injEq]
    refine ⟨funext fun q => ?_, ?_, ?_, ?_⟩
    · cases p <;> cases q <;> rfl
    · cases p <;> rfl
    · cases p <;> rfl
    · cases p <;> rfl
  rw [next, hen, hhandle, next, relabel, he]
  rfl

theorem recopy_next : (s.recopy strobe data).next i = s.next i := rfl

/-- The machine begins to serve valid requests only. -/
theorem valid_of_fsmIdle {q : Port} (hi : s.fsm.state = .idle)
    (hs : s.fsmIdle.state = .fetch q ∨ s.fsmIdle.state = .writeback q ∨
      s.fsmIdle.state = .uncache q) : (s.req q).valid = true := by
  have hmiss (r : Port) (h : (s.startMiss r).state = .fetch q ∨
      (s.startMiss r).state = .writeback q ∨ (s.startMiss r).state = .uncache q) : r = q := by
    rw [startMiss] at h
    dsimp only at h
    split_ifs at h
    · simpa using h
    · simpa using h
  unfold fsmIdle at hs
  cases ho : s.cacheHandle.cacheOper with
  | null | invalid =>
    rw [ho] at hs
    simp [hi] at hs
  | writebackInvalid | indexStore =>
    rw [ho] at hs
    dsimp only at hs
    split_ifs at hs <;> simp [hi] at hs
  | req =>
    rw [ho] at hs
    dsimp only at hs
    split_ifs at hs with h1 h2 h3 h4
    · simp only [uncacheDue, Bool.and_eq_true] at h1
      simp at hs
      rw [← hs]
      exact h1.1.1
    · simp only [fetchDue, Bool.and_eq_true] at h2
      rw [← hmiss .one hs]
      exact h2.1.1.1.1
    · simp only [uncacheDue, Bool.and_eq_true] at h3
      simp at hs
      rw [← hs]
      exact h3.1.1
    · simp only [fetchDue, Bool.and_eq_true] at h4
      rw [← hmiss .two hs]
      exact h4.1.1.1.1
    · simp [hi] at hs

end State

namespace Service

variable {v : Service} {o : Offer} {p : Port}

/-- A request that is not valid stays so while the pair waits. -/
theorem barred_step (he : v.cache.en = false) (h : v.cache.Barred p) :
    (v.step o).cache.Barred p := by
  have hcache : (v.step o).cache.cacheHandle = v.cache.cacheHandle := State.next_cacheHandle he
  obtain ⟨hf, hw, hu⟩ := h.idle
  refine ⟨by rw [State.req, hcache]; exact h.invalid, by rw [hcache]; exact h.uncached, ?_⟩
  have hfsm := fsm_step (o := o) he
  have hserves : ¬ ((v.step o).cache.fsm.state = .fetch p ∨
      (v.step o).cache.fsm.state = .writeback p ∨ (v.step o).cache.fsm.state = .uncache p) := by
    intro hs
    rw [hfsm] at hs
    cases hst : v.cache.fsm.state with
    | idle =>
      rw [hst] at hs
      have hv := State.valid_of_fsmIdle hst hs
      rw [h.invalid] at hv
      cases hv
    | fetch q =>
      have hq : q ≠ p := fun hq => hf (by rw [hst, hq])
      rw [hst] at hs
      dsimp only at hs
      rw [State.fsmFetch] at hs
      split_ifs at hs <;> simp [hst, hq] at hs
    | writeback q =>
      have hq : q ≠ p := fun hq => hw (by rw [hst, hq])
      rw [hst] at hs
      dsimp only at hs
      rw [State.fsmWriteback] at hs
      dsimp only at hs
      split_ifs at hs <;> simp [hst, hq] at hs
    | uncache q =>
      have hq : q ≠ p := fun hq => hu (by rw [hst, hq])
      rw [hst] at hs
      dsimp only at hs
      split_ifs at hs <;> simp [hq] at hs
    | store =>
      rw [hst] at hs
      dsimp only at hs
      split_ifs at hs <;> simp at hs
    | writebackInst =>
      rw [hst] at hs
      dsimp only at hs
      rw [State.fsmWriteback] at hs
      dsimp only at hs
      split_ifs at hs <;> simp [hst] at hs
  exact ⟨fun hs => hserves (Or.inl hs), fun hs => hserves (Or.inr (Or.inl hs)),
    fun hs => hserves (Or.inr (Or.inr hs))⟩

/-- Two caches on one bus that differ in a request that is not valid, or not at all. -/
inductive Alike (p : Port) (v v' : Service) : Prop
  | waits (barred : v.cache.Barred p) (beat : v'.beat = v.beat)
      (cache : ∃ strobe data strobe' data',
        v'.cache = (v.cache.relabel p strobe data).recopy strobe' data')
  | same (beat : v'.beat = v.beat)
      (cache : ∃ strobe data, v'.cache = v.cache.recopy strobe data)

/-- The two caches have the same words, tags and dirty bits, and ask the bus for the same. -/
structure Unchanged (v v' : Service) : Prop where
  dataRam : v'.cache.dataRam = v.cache.dataRam
  metaRam : v'.cache.metaRam = v.cache.metaRam
  cacheDirty : v'.cache.cacheDirty = v.cache.cacheDirty
  dcreq : v'.cache.dcreq = v.cache.dcreq

theorem Alike.unchanged {v' : Service} (h : Alike p v v') : Unchanged v v' := by
  cases h with
  | waits hb _ hc =>
    obtain ⟨strobe, data, strobe', data', hc⟩ := hc
    have hd : ((v.cache.relabel p strobe data).recopy strobe' data').dcreq = v.cache.dcreq :=
      hb.relabel_dcreq
    exact ⟨by rw [hc]; rfl, by rw [hc]; rfl, by rw [hc]; rfl, by rw [hc, hd]⟩
  | same _ hc =>
    obtain ⟨strobe, data, hc⟩ := hc
    exact ⟨by rw [hc]; rfl, by rw [hc]; rfl, by rw [hc]; rfl, by rw [hc]; rfl⟩

theorem Alike.step {v' : Service} (h : Alike p v v') : Alike p (v.step o) (v'.step o) := by
  have hbeat : v'.beat = v.beat := by
    cases h with
    | waits _ hb _ => exact hb
    | same hb _ => exact hb
  have hresp : v'.resp o = v.resp o := by
    rw [resp, resp, h.unchanged.dcreq, hbeat]
  have hinput : v'.input o = v.input o := by rw [input, input, hresp]
  have hbeat' : (v'.step o).beat = (v.step o).beat := by rw [beat_step, beat_step, hresp, hbeat]
  cases h with
  | same _ hc =>
    obtain ⟨strobe, data, hc⟩ := hc
    refine .same hbeat' ⟨(v.step o).cache.wToRStrobe, (v.step o).cache.wToRData, ?_⟩
    rw [cache_step, hc, hinput, State.recopy_next]
    rfl
  | waits hb _ hc =>
    obtain ⟨strobe, data, strobe', data', hc⟩ := hc
    cases he : v.cache.en with
    | false =>
      refine .waits (barred_step he hb) hbeat' ⟨strobe, data,
        ((v.cache.relabel p strobe data).req .one).strobe,
        ((v.cache.relabel p strobe data).req .one).data, ?_⟩
      rw [cache_step, hc, hinput, State.recopy_next, hb.relabel_next he]
      rfl
    | true =>
      refine .same hbeat' ⟨((v.cache.relabel p strobe data).req .one).strobe,
        ((v.cache.relabel p strobe data).req .one).data, ?_⟩
      rw [cache_step, hc, hinput, State.recopy_next, hb.relabel_next_of_en he]
      rfl

end Service

/-- A request of the pipeline goes through the MMU to its port. -/
def Offer.present (o : Offer) (m : MmuState) (p : Port) (r : DBusReq) : Offer :=
  { o with
    dreq := Function.update o.dreq p (m.dreq r)
    isUncached := Function.update o.isUncached p (m.dUncache r) }

/-- What is on the port of an instruction that does not access the memory. -/
def absent (r : DBusReq) : DBusReq := { r with valid := false, strobe := 0#4, data := 0#32 }

namespace Service

variable {v : Service} {o : Offer} {p : Port} {m : MmuState} {r : DBusReq}

/-- The request changes nothing, whatever the other request of its pair is, and whatever comes
after it. -/
def Ignores (v : Service) (m : MmuState) (p : Port) (r : DBusReq) : Prop :=
  ∀ (o : Offer) (os : List Offer),
    Unchanged (run step v (o.present m p (absent r) :: os)) (run step v (o.present m p r :: os))

theorem dreq_of_absent : m.dreq (absent r) = absent { r with addr := m.paddr r.addr } := rfl

theorem dUncache_of_absent : m.dUncache (absent r) = m.dUncache r := rfl

/-- The cache behind the edge that takes a refused request. -/
theorem step_of_refused (he : v.cache.en = true) (hr : (m.dTlbExc r).any = true) :
    (v.step (o.present m p r)).cache =
      (v.step (o.present m p (absent r))).cache.relabel p r.strobe r.data := by
  have hd : m.dreq r = { m.dreq (absent r) with strobe := r.strobe, data := r.data } := by
    rw [m.dreq_of_refused hr, dreq_of_absent]
    rfl
  rw [cache_step, cache_step]
  change v.cache.next { v.input o with
    dreq := Function.update o.dreq p (m.dreq r)
    isUncached := Function.update o.isUncached p (m.dUncache r) } = _
  rw [hd]
  exact State.next_relabel (i := { v.input o with
    isUncached := Function.update o.isUncached p (m.dUncache r) }) he _

/-- An absent request has neither strobe nor data. -/
theorem relabel_absent (he : v.cache.en = true) :
    (v.step (o.present m p (absent r))).cache =
      (v.step (o.present m p (absent r))).cache.relabel p 0#4 0#32 :=
  State.next_relabel (i := { v.input o with
    isUncached := Function.update o.isUncached p (m.dUncache (absent r)) }) he (m.dreq (absent r))

theorem alike_of_refused (h : v.Attentive) (he : v.cache.en = true)
    (hr : (m.dTlbExc r).any = true) (hu : m.dUncache r = true) :
    Alike p (v.step (o.present m p (absent r))) (v.step (o.present m p r)) := by
  have hcache : (v.step (o.present m p (absent r))).cache.cacheHandle =
      v.cache.handleNext (v.input (o.present m p (absent r))) := by
    rw [cache_step, State.next, he]
    rfl
  have hfsm : (v.step (o.present m p (absent r))).cache.fsm = v.cache.fsm := fsm_of_accept he
  refine .waits ⟨?_, ?_, ?_⟩ rfl ⟨r.strobe, r.data,
    (v.step (o.present m p (absent r))).cache.wToRStrobe,
    (v.step (o.present m p (absent r))).cache.wToRData, ?_⟩
  · rw [State.req, hcache]
    change (Function.update o.dreq p (m.dreq (absent r)) p).valid = false
    rw [Function.update_self]
    rfl
  · rw [hcache]
    change Function.update o.isUncached p (m.dUncache (absent r)) p = true
    rw [Function.update_self, dUncache_of_absent, hu]
  · rw [hfsm, h.idle_of_en he]
    simp
  · rw [step_of_refused he hr]
    rfl

/-- An uncached request is ignored. -/
theorem ignores_of_uncached (h : v.Attentive) (he : v.cache.en = true)
    (hr : (m.dTlbExc r).any = true) (hu : m.dUncache r = true) : v.Ignores m p r :=
  fun _ os => Alike.unchanged (p := p)
    (run_related (fun _ _ _ h => h.step) (alike_of_refused h he hr hu) os)

/-! ### A cached request writes -/

/-- The pipeline asks for nothing. -/
def quiet : Offer := ⟨fun _ => default, fun _ => false, .unknown, 0#32, false, 0#32⟩

/-- The access of a request that is not valid, next to a port without a request. -/
theorem dataRamNext_relabel {s : State} {i : Input} (hi : s.fsm.state = .idle)
    (ho : s.cacheHandle.cacheOper = .req) (hd : s.cacheHandle.dreqEn = true)
    (hv : (s.req p).valid = false) (hu : (s.cacheHandle.side p).isUncached = false)
    (hz : ∀ q, (s.req q).strobe = 0#4) (strobe : Strobe) (data : Word) :
    (s.relabel p strobe data).dataRamNext i = Function.update s.dataRam (s.accessAddr p)
      (Lanes.maskedWrite (getMask strobe) (s.dataRam (s.accessAddr p)) data) := by
  have hw : (s.relabel p strobe data).wToW = false := by
    cases p <;> simp [State.wToW, State.addrSame, State.relabel_valid, hv]
  cases p with
  | one =>
    have hen : (s.relabel .one strobe data).port1En = true := by
      rw [State.port1En, hw, State.relabel_isUncached, hu]
      change (s.cacheHandle.dreqEn || s.finishReg) && !false && !false = true
      rw [hd]
      rfl
    have hwen1 : (s.relabel .one strobe data).port1Wen = strobe := by
      rw [State.port1Wen]
      exact if_pos (beq_iff_eq.mpr ho)
    have hwen2 : (s.relabel .one strobe data).port2Wen = 0#4 := by
      rw [State.port2Wen, show (s.relabel .one strobe data).fsm = s.fsm from rfl, hi, hw]
      exact (if_pos (beq_iff_eq.mpr ho)).trans (hz .two)
    rw [State.dataRamNext, hwen2, State.ramWrite_zero, hen, hwen1, ramWrite, if_pos rfl]
    rfl
  | two =>
    have hwen1 : (s.relabel .two strobe data).port1Wen = 0#4 := by
      rw [State.port1Wen]
      exact (if_pos (beq_iff_eq.mpr ho)).trans (hz .one)
    have hen : (s.relabel .two strobe data).port2En = true := by
      rw [State.port2En, State.relabel_isUncached, hu]
      change (if s.fsm.state = .idle then (s.cacheHandle.dreqEn || s.finishReg) && !false
        else true) = true
      rw [if_pos hi, hd]
      rfl
    have hwen2 : (s.relabel .two strobe data).port2Wen = strobe := by
      rw [State.port2Wen, show (s.relabel .two strobe data).fsm = s.fsm from rfl, hi, hw]
      exact if_pos (beq_iff_eq.mpr ho)
    have haddr : (s.relabel .two strobe data).port2Addr = s.accessAddr .two := if_pos hi
    have hdata : (s.relabel .two strobe data).port2DataW i = data := by
      rw [State.port2DataW, show (s.relabel .two strobe data).fsm = s.fsm from rfl, hi, hw]
      rfl
    rw [State.dataRamNext, hwen1, State.ramWrite_zero, hen, hwen2, haddr, hdata, ramWrite,
      if_pos rfl]
    rfl

/-- Some data under the mask is not what the word holds there. -/
theorem maskedWrite_ne {mask w : Word} (h : mask ≠ 0#32) :
    Lanes.maskedWrite mask w (mask &&& ~~~w) ≠ w := by
  intro hw
  refine h (BitVec.eq_of_getLsbD_eq fun j hj => ?_)
  have hbit := congrArg (fun x : Word => x.getLsbD j) hw
  rw [Lanes.getLsbD_maskedWrite _ _ _ _ hj, BitVec.getLsbD_and, BitVec.getLsbD_not] at hbit
  cases hm : mask.getLsbD j with
  | false => simp
  | true =>
    rw [hm] at hbit
    simp [hj] at hbit

theorem getMask_ne_zero {strobe : Strobe} (h : strobe ≠ 0#4) : getMask strobe ≠ 0#32 := by
  revert strobe
  decide

section Cached

variable (h : v.Attentive) (he : v.cache.en = true) (hr : (m.dTlbExc r).any = true)
  (hu : m.dUncache r = false)

include h he hr hu

/-- A refused request alone in its pair, and the access behind it: the cache with the request
writes a word of the data RAM, the cache without it does not. -/
theorem dataRam_of_cached :
    (run step v [quiet.present m p (absent r), quiet]).cache.dataRam =
        (v.step (quiet.present m p (absent r))).cache.dataRam ∧
      (run step v [quiet.present m p r, quiet]).cache.dataRam =
        Function.update (v.step (quiet.present m p (absent r))).cache.dataRam
          ((v.step (quiet.present m p (absent r))).cache.accessAddr p)
          (Lanes.maskedWrite (getMask r.strobe)
            ((v.step (quiet.present m p (absent r))).cache.dataRam
              ((v.step (quiet.present m p (absent r))).cache.accessAddr p)) r.data) := by
  have hfsm := (fsm_of_accept (o := quiet.present m p (absent r)) he).trans rfl
  have hself := relabel_absent (o := quiet) (p := p) (m := m) (r := r) he
  have hput := step_of_refused (o := quiet) (p := p) he hr
  change (v.step (quiet.present m p (absent r))).cache.dataRamNext _ = _ ∧
    (v.step (quiet.present m p r)).cache.dataRamNext _ = _
  rw [hput]
  generalize hstep : (v.step (quiet.present m p (absent r))).cache = s at hfsm hself
  have hcache : s.cacheHandle = v.cache.handleNext (v.input (quiet.present m p (absent r))) := by
    rw [← hstep, cache_step, State.next, he]
    rfl
  have hidle : s.fsm.state = .idle := by rw [hfsm, h.idle_of_en he]
  have hdreq (q : Port) : s.req q =
      Function.update (fun _ : Port => (default : DBusReq)) p (m.dreq (absent r)) q := by
    rw [State.req, hcache]
    rfl
  have hvalid (q : Port) : (s.req q).valid = false := by
    rw [hdreq]
    cases p <;> cases q <;> rfl
  have hstrobe (q : Port) : (s.req q).strobe = 0#4 := by
    rw [hdreq]
    cases p <;> cases q <;> rfl
  have huncached : (s.cacheHandle.side p).isUncached = false := by
    rw [hcache]
    change Function.update (fun _ => false) p (m.dUncache r) p = false
    rw [Function.update_self, hu]
  have hoper : s.cacheHandle.cacheOper = .req := by
    rw [hcache]
    exact State.cacheOper_eq (s := v.cache) (i := v.input (quiet.present m p (absent r))) rfl
  have hdirect : s.cacheHandle.dreqEn = true := by
    rw [hcache]
    cases p <;> rfl
  have hwrites (i : Input) (strobe : Strobe) (data : Word) :=
    dataRamNext_relabel (i := i) hidle hoper hdirect (hvalid p) huncached hstrobe strobe data
  have hkeeps (i : Input) : s.dataRamNext i = s.dataRam := by
    calc s.dataRamNext i
        = (s.relabel p 0#4 0#32).dataRamNext i := congrArg (fun t => t.dataRamNext i) hself
      _ = s.dataRam := by
        rw [hwrites, State.getMask_zero, Lanes.maskedWrite_zero, Function.update_eq_self]
  exact ⟨hkeeps _, hwrites _ _ _⟩

/-- A refused request that is ignored has no bytes that the word does not have. -/
theorem kept_of_ignores (hi : v.Ignores m p r) : Lanes.maskedWrite (getMask r.strobe)
      ((v.step (quiet.present m p (absent r))).cache.dataRam
        ((v.step (quiet.present m p (absent r))).cache.accessAddr p)) r.data =
    (v.step (quiet.present m p (absent r))).cache.dataRam
      ((v.step (quiet.present m p (absent r))).cache.accessAddr p) := by
  have hsame := (hi quiet [quiet]).dataRam
  obtain ⟨hkeep, hwrite⟩ := dataRam_of_cached (p := p) h he hr hu
  rw [hkeep, hwrite] at hsame
  have hword := congrFun hsame ((v.step (quiet.present m p (absent r))).cache.accessAddr p)
  rwa [Function.update_self] at hword

end Cached

theorem uncached_of_ignores (h : v.Attentive) (he : v.cache.en = true)
    (hr : (m.dTlbExc r).any = true) (hs : r.strobe ≠ 0#4)
    (hi : ∀ data, getMask r.strobe &&& data = data → v.Ignores m p { r with data := data }) :
    m.dUncache r = true := by
  by_contra hu
  -- the bytes that the word does not have
  obtain ⟨w, hw⟩ : ∃ w, (v.step (quiet.present m p (absent r))).cache.dataRam
      ((v.step (quiet.present m p (absent r))).cache.accessAddr p) = w := ⟨_, rfl⟩
  have hclean : getMask r.strobe &&& (getMask r.strobe &&& ~~~w) = getMask r.strobe &&& ~~~w := by
    rw [← BitVec.and_assoc, BitVec.and_self]
  have hkept := kept_of_ignores (r := { r with data := getMask r.strobe &&& ~~~w }) h he hr
    (Bool.eq_false_iff.mpr hu) (hi _ hclean)
  rw [show absent { r with data := getMask r.strobe &&& ~~~w } = absent r from rfl, hw] at hkept
  exact maskedWrite_ne (getMask_ne_zero hs) hkept

/-- A store that the MMU refuses, on either port, at an acceptance in any run. -/
theorem refused_store_ignored_iff (os : List Offer) (m : MmuState) (p : Port) (r : DBusReq)
    (hr : (m.dTlbExc r).any = true) (hs : r.strobe ≠ 0#4)
    (he : (run step {} os).cache.en = true) :
    (∀ data, getMask r.strobe &&& data = data →
      (run step {} os).Ignores m p { r with data := data }) ↔ m.dUncache r = true := by
  have h : (run step {} os).Attentive := run_invariant (fun _ _ h => h.step) attentive_reset os
  exact ⟨uncached_of_ignores h he hr hs, fun hu _ _ => ignores_of_uncached h he hr hu⟩

/-! A page that may only be read. -/

/-- One entry for the page at zero: valid, cached, not dirty. -/
def readOnly : MmuState where
  tlbRam := fun i => if i = 0#4 then { g := true, c0 := 3#3, v0 := true } else { vpn2 := 1#19 }
  asid := 0#8
  configK0 := 3#3

/-- A store to the page. -/
def storeToPage : DBusReq := ⟨true, 0x40#32, .size4, 15#4, 0xabcd#32⟩

/-- A port of the cache alone. -/
def alone (r : DBusReq) : Offer :=
  { quiet with
    dreq := Function.update quiet.dreq .one r
    isUncached := Function.update quiet.isUncached .one false }

/-- A load from the page fills the line: the miss and its refill. -/
def loadRun : List Offer :=
  alone ⟨true, 0x40#32, .size4, 0#4, 0#32⟩ :: List.replicate 17 { quiet with ready := true }

theorem present_absent :
    quiet.present readOnly .one (absent storeToPage) = alone (absent storeToPage) := by
  have hdreq : readOnly.dreq (absent storeToPage) = absent storeToPage := by decide +kernel
  have hu : readOnly.dUncache (absent storeToPage) = false := by decide +kernel
  rw [Offer.present, hdreq, hu]
  rfl

/-- The word of the line is overwritten. -/
theorem refused_store_writes :
    (readOnly.dTlbExc storeToPage).modified = true ∧ (run step {} loadRun).cache.en = true ∧
      ¬ (run step {} loadRun).Ignores readOnly .one storeToPage := by
  refine ⟨by decide +kernel, by decide +kernel, fun h => ?_⟩
  have hkept := kept_of_ignores (run_invariant (fun _ _ h => h.step) attentive_reset loadRun)
    (by decide +kernel) (by decide +kernel) (by decide +kernel) h
  rw [present_absent] at hkept
  have haddr : ((run step {} loadRun).step (alone (absent storeToPage))).cache.accessAddr .one =
      ⟨⟨false, 1#6⟩, 0#4⟩ := by decide +kernel
  rw [haddr] at hkept
  exact absurd hkept (by decide +kernel)

/-- The same page, not cached. -/
def readOnlyUncached : MmuState :=
  { readOnly with
    tlbRam := fun i => if i = 0#4 then { g := true, c0 := 2#3, v0 := true } else { vpn2 := 1#19 } }

theorem refused_store_ignored_uncached :
    (readOnlyUncached.dTlbExc storeToPage).modified = true ∧
      ∀ data, getMask 15#4 &&& data = data →
        (run step {} loadRun).Ignores readOnlyUncached .one { storeToPage with data := data } :=
  ⟨by decide +kernel, (refused_store_ignored_iff loadRun readOnlyUncached .one storeToPage
    (by decide +kernel) (by decide) (by decide +kernel)).mpr (by decide +kernel)⟩

end Service

end FrailCPU.DCache
