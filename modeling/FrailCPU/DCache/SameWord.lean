import FrailCPU.DCache.Agree
import FrailCPU.DCache.Answer
import FrailCPU.Memory.Memory

/-!
# A pair on one word

Both requests of a pair may name the same word. Two stores are merged on the second port of the
data RAM, a load behind a store takes the stored bytes from a register, a store behind a load
relies on a RAM that reads first. The outcome is compared with one access after the other, in
every run of the cache with any bus and any operations of the CACHE instruction in between.
-/

namespace FrailCPU

section Formed

open DCache

/-- A request as M1 forms it: a load moves nothing, a store moves the lanes of `writedata`. -/
def DBusReq.Formed (r : DBusReq) : Prop :=
  (r.strobe = 0#4 ∧ r.data = 0#32) ∨
    ∃ off v size kind, writedata off v size kind = (r.data, r.strobe)

theorem formed_memoryReq (e : ExecuteData) : (memoryReq e).Formed := by
  cases hs : !e.ctl.memtoreg && e.ctl.memwrite with
  | false =>
    left
    simp only [memoryReq, hs]
    exact ⟨rfl, rfl⟩
  | true =>
    right
    refine ⟨e.aluOutExt.extractLsb' 0 2, e.regData, e.ctl.msize, e.ctl.memtype, ?_⟩
    simp only [memoryReq, hs, if_true]

/-- The lanes without a strobe are zero. -/
theorem cleanLanes_writedata (off : BitVec 2) (v : Word) (size : MSize) (kind : MisalignMem) :
    getMask (writedata off v size kind).2 &&& (writedata off v size kind).1 =
      (writedata off v size kind).1 := by
  unfold writedata
  apply BitVec.eq_of_getLsbD_eq
  intro i hi
  split <;> split <;> try split
  all_goals
    simp only [getMask, BitVec.getLsbD_and, BitVec.getLsbD_append, BitVec.getLsbD_fill,
      BitVec.getLsbD_setWidth, BitVec.getLsbD_extractLsb', BitVec.getLsbD_zero]
    simp
  all_goals
    intros
    omega

theorem DBusReq.Formed.cleanLanes {r : DBusReq} (h : r.Formed) : CleanLanes r := by
  rcases h with ⟨hs, hd⟩ | ⟨off, v, size, kind, hw⟩
  · rw [CleanLanes, hs, hd]
    rfl
  · have hc := cleanLanes_writedata off v size kind
    rw [hw] at hc
    exact hc

end Formed

namespace DCache

open ClockedMachine

namespace State

variable (s : State)

/-- A pair of cached requests for one word: they go the same way through the cache. -/
structure Paired : Prop where
  hit : s.addrSame = true → (s.cacheHandle.side .one).hit = (s.cacheHandle.side .two).hit ∧
    (s.cacheHandle.side .one).hitLine = (s.cacheHandle.side .two).hitLine
  on : s.en = true → s.cacheHandle.cacheOper = .req → s.addrSame = true →
    (s.cacheHandle.dreqEn || s.finishReg) = true
  refilled : s.en = true → s.cacheHandle.cacheOper = .req → s.addrSame = true →
    (s.cacheHandle.side .one).hit = false → s.replaceLineReg .one = s.replaceLineReg .two

variable {s} {i : Input}

theorem paired_reset : ({} : State).Paired where
  hit h := by cases h
  on _ _ h := by cases h
  refilled _ _ h := by cases h

theorem word_of_addrSame (h : s.addrSame = true) :
    s.index .one = s.index .two ∧
      offsetOf (s.req .one).addr = offsetOf (s.req .two).addr := by
  simp only [addrSame, Bool.and_eq_true, beq_iff_eq] at h
  have hw := word_eq_iff.mp h.1.1
  exact ⟨hw.1.2, hw.2⟩

/-- Both accesses name the same word of the data RAM. -/
theorem Paired.accessAddr_eq (h : s.Paired) (he : s.en = true)
    (ho : s.cacheHandle.cacheOper = .req) (ha : s.addrSame = true) :
    s.accessAddr .one = s.accessAddr .two := by
  obtain ⟨hk, hf⟩ := word_of_addrSame ha
  obtain ⟨hh, hl⟩ := h.hit ha
  cases h1 : (s.cacheHandle.side .one).hit with
  | true =>
    rw [accessAddr_of_hit h1, accessAddr_of_hit (hh ▸ h1), hitSlot, hitSlot, hl, hk, hf]
  | false =>
    rw [accessAddr_of_miss h1, accessAddr_of_miss (hh ▸ h1), h.refilled he ho ha h1, hk, hf]

/-- A pair for one word is finished by the refill of the older request. -/
theorem finishState_of_addrSame (h : s.addrSame = true) :
    s.finishState = .fetch .one ∧ s.sameLine = true := by
  simp only [addrSame, Bool.and_eq_true, Bool.not_eq_true', beq_iff_eq] at h
  obtain ⟨⟨hw, hv1, hv2⟩, hu1, hu2⟩ := h
  have hl : s.sameLine = true := by
    have hline := line_eq_iff.mpr (word_eq_iff.mp hw).1
    simp only [sameLine, hline, hv1, hu1, beq_self_eq_true, Bool.and_self, Bool.not_false]
  refine ⟨?_, hl⟩
  simp [finishState, hu1, hu2, hl]

/-- A pair that is latched. -/
theorem paired_of_accept (he : s.en = true) : (s.next i).Paired := by
  have hc : (s.next i).cacheHandle = s.handleNext i := by
    simp [State.next, he]
  have hreq (p : Port) : (s.next i).req p = i.dreq p := by
    rw [req, hc]
    rfl
  have hhit (ha : (s.next i).addrSame = true) :
      s.hit i .one = s.hit i .two ∧ s.hitLine i .one = s.hitLine i .two := by
    simp only [addrSame, Bool.and_eq_true, beq_iff_eq, hreq] at ha
    obtain ⟨ht, hk⟩ := (word_eq_iff.mp ha.1.1).1
    constructor
    · rw [State.hit, State.hit, metaR, metaR, ht, hk]
    · rw [State.hitLine, State.hitLine, metaR, metaR, ht, hk]
  have hd (hen : (s.next i).en = true) : s.dreqEn i = true := by
    change s.enNext i = true at hen
    rw [enNext, he] at hen
    simpa using hen
  refine ⟨fun ha => ?_, fun hen _ _ => ?_, fun hen ho ha hm => ?_⟩
  · rw [hc]
    exact hhit ha
  · rw [hc]
    exact Bool.or_eq_true_iff.mpr (Or.inl (hd hen))
  · -- a pair without a refill has hit
    exfalso
    have hd := hd hen
    rw [hc] at ho hm
    simp only [addrSame, Bool.and_eq_true, hreq] at ha
    rw [dreqEn_eq (Service.cacheInst_of_req ho), ha.1.2.1, Bool.and_eq_true] at hd
    have hh : s.cacheHit i .one = true := by simpa using hd.1
    rw [cacheHit, show s.hit i .one = false from hm, Bool.and_false] at hh
    exact Bool.false_ne_true hh

/-- A pair that waits. -/
theorem Paired.of_waits (h : s.Paired) (he : s.en = false) : (s.next i).Paired := by
  have hc : (s.next i).cacheHandle = s.cacheHandle := next_cacheHandle he
  have hsame : (s.next i).addrSame = s.addrSame := by
    simp only [addrSame, req, hc]
  have hfin (hen : (s.next i).en = true) : s.finish i = true := by
    change s.enNext i = true at hen
    rw [enNext, he] at hen
    simpa using hen
  refine ⟨fun ha => ?_, fun hen _ _ => ?_, fun hen ho ha _ => ?_⟩
  · rw [hc]
    exact h.hit (hsame ▸ ha)
  · exact Bool.or_eq_true_iff.mpr (Or.inr (hfin hen))
  · rw [hsame] at ha
    rw [hc] at ho
    obtain ⟨hfs, hl⟩ := finishState_of_addrSame ha
    have hf := hfin hen
    simp only [finish, ho, hfs] at hf
    have hs : s.fsm.state = .fetch .one ∧ i.dcresp.last = true := by
      simpa using hf
    change s.replaceLineRegNext i .one = s.replaceLineRegNext i .two
    simp [replaceLineRegNext, hs.1, hs.2, hl]

theorem Paired.next (h : s.Paired) : (s.next i).Paired := by
  cases he : s.en with
  | true => exact paired_of_accept he
  | false => exact h.of_waits he

/-- The word after one access of it. The answer of an access is the word before it. -/
def perform (r : DBusReq) (w : Word) : Word :=
  Lanes.maskedWrite (getMask r.strobe) w r.data

/-- A load leaves the word alone. -/
theorem perform_load {r : DBusReq} (h : r.strobe = 0#4) (w : Word) : perform r w = w := by
  rw [perform, h, getMask_zero, Lanes.maskedWrite_zero]

/-- The bytes that a load takes from the register and from the RAM are those of the store. -/
theorem perform_eq_merge (r : DBusReq) (w : Word) :
    perform r w = (getMask r.strobe &&& r.data) ||| (getMask (r.strobe ^^^ 15#4) &&& w) := by
  have hm : getMask (r.strobe ^^^ 15#4) = ~~~ getMask r.strobe := by
    rw [getMask_xor]
    exact BitVec.xor_allOnes
  rw [perform, Lanes.maskedWrite, hm]

/-- The pair leaves the word of the data RAM and answers as if the older request had its access
before the younger one, except that of two stores the younger one is answered with the word
before both. -/
structure InOrder (s : State) (i : Input) : Prop where
  ram : (s.next i).dataRam = Function.update s.dataRam (s.accessAddr .one)
    (perform (s.req .two) (perform (s.req .one) (s.dataRam (s.accessAddr .one))))
  older : (s.next i).respData .one = s.dataRam (s.accessAddr .one)
  younger : s.wToW = false →
    (s.next i).respData .two = perform (s.req .one) (s.dataRam (s.accessAddr .one))
  twoStores : s.wToW = true → (s.next i).respData .two = s.dataRam (s.accessAddr .one)

section Outcome

variable (h : s.Paired) (he : s.en = true) (hi : s.fsm.state = .idle)
variable (ho : s.cacheHandle.cacheOper = .req) (ha : s.addrSame = true)

include ha

theorem cached_of_addrSame (p : Port) :
    (s.req p).valid = true ∧ (s.cacheHandle.side p).isUncached = false := by
  have hp := performs_of_addrSame ha p
  simpa [performs] using hp

include h he ho hi

theorem Paired.dataRam_next (hf : ∀ p, CleanLanes (s.req p)) :
    (s.next i).dataRam = Function.update s.dataRam (s.accessAddr .one)
      (perform (s.req .two) (perform (s.req .one) (s.dataRam (s.accessAddr .one)))) := by
  have heq := h.accessAddr_eq he ho ha
  have ht : s.Tidy := by
    refine ⟨hf, fun p hv => ?_⟩
    rw [(cached_of_addrSame ha p).1] at hv
    cases hv
  change s.dataRamNext i = _
  rw [dataRamNext_of_accesses ⟨hi, h.on he ho ha, ho⟩ ht fun _ => heq, storeRam, storeRam,
    performs_of_addrSame ha, performs_of_addrSame ha, if_pos rfl, if_pos rfl, heq,
    Function.update_self, Function.update_idem]
  rfl

omit h he ho in
theorem respData_one : (s.next i).respData .one = s.dataRam (s.accessAddr .one) :=
  Service.respData_of_cached hi (cached_of_addrSame ha .one).2

omit h he ho in
theorem respData_two : (s.next i).respData .two =
    if s.wToR then
      (getMask (s.req .one).strobe &&& (s.req .one).data) |||
        (getMask ((s.req .one).strobe ^^^ 15#4) &&& s.dataRam (s.accessAddr .one))
    else s.dataRam (s.accessAddr .two) :=
  Service.respData_of_cached hi (cached_of_addrSame ha .two).2

theorem Paired.inOrder (hf : ∀ p, CleanLanes (s.req p)) : s.InOrder i where
  ram := h.dataRam_next he hi ho ha hf
  older := respData_one hi ha
  younger hw := by
    rw [respData_two hi ha]
    cases hr : s.wToR with
    | true =>
      rw [if_pos rfl, perform_eq_merge]
    | false =>
      -- the older request is a load
      have hl : (s.req .one).strobe = 0#4 := by
        by_contra hs
        rw [wToW, ha, Bool.true_and, bne_iff_ne.mpr hs, Bool.true_and] at hw
        rw [wToR, ha, Bool.true_and, bne_iff_ne.mpr hs, Bool.true_and] at hr
        cases hb : ((s.req .two).strobe == 0#4) with
        | true => rw [hb] at hr; exact Bool.false_ne_true hr.symm
        | false => rw [bne, hb] at hw; exact Bool.false_ne_true hw.symm
      rw [if_neg Bool.false_ne_true, perform_load hl, h.accessAddr_eq he ho ha]
  twoStores hw := by
    have hr : s.wToR = false := by
      simp only [wToW, Bool.and_eq_true, bne_iff_ne] at hw
      rw [wToR, beq_eq_false_iff_ne.mpr hw.2, Bool.and_false]
    rw [respData_two hi ha, hr, if_neg Bool.false_ne_true, h.accessAddr_eq he ho ha]

end Outcome

end State

namespace Service

/-- In every run, for a pair of cached requests for one word at the edge of its access. -/
theorem same_word_in_order (os : List Offer) (o : Offer)
    (he : (run step {} os).cache.en = true)
    (ho : (run step {} os).cache.cacheHandle.cacheOper = .req)
    (ha : (run step {} os).cache.addrSame = true)
    (hf : ∀ p, ((run step {} os).cache.req p).Formed) :
    (run step {} os).cache.InOrder ((run step {} os).input o) := by
  have hatt : (run step {} os).Attentive :=
    run_invariant (fun _ _ h => h.step) attentive_reset os
  have hp : (run step {} os).cache.Paired :=
    run_invariant (P := fun v : Service => v.cache.Paired) (fun _ _ h => h.next) State.paired_reset os
  exact hp.inOrder he (hatt.idle_of_en he) ho ha fun p => (hf p).cleanLanes

/-! Two stores to one word that miss, on a bus that is always ready and reads zeros. -/

def wordStore (x d : Word) : DBusReq := ⟨true, x, .size4, 15#4, d⟩

def offerOf (one two : DBusReq) : Offer where
  dreq
    | .one => one
    | .two => two
  isUncached _ := false
  cacheInst := .unknown
  tagLo := 0#32
  ready := true
  data := 0#32

def storeRun : List Offer :=
  offerOf (wordStore 0#32 1#32) (wordStore 0#32 2#32) ::
    List.replicate 17 (offerOf default default)

theorem formed_wordStore (x d : Word) : (wordStore x d).Formed :=
  Or.inr ⟨0#2, d, .size4, .noMisalign, rfl⟩

theorem storeRun_formed (p : Port) : ((run step {} storeRun).cache.req p).Formed := by
  have h1 : (run step {} storeRun).cache.req .one = wordStore 0#32 1#32 := by decide +kernel
  have h2 : (run step {} storeRun).cache.req .two = wordStore 0#32 2#32 := by decide +kernel
  cases p with
  | one =>
    rw [h1]
    exact formed_wordStore _ _
  | two =>
    rw [h2]
    exact formed_wordStore _ _

theorem same_word_in_order_stores :
    (run step {} storeRun).cache.InOrder
      ((run step {} storeRun).input (offerOf default default)) :=
  same_word_in_order storeRun (offerOf default default) (by decide +kernel) (by decide +kernel)
    (by decide +kernel) storeRun_formed

/-- The younger store is not answered with the word that the older one has left. -/
theorem not_answered_in_order :
    ¬ ∀ (os : List Offer) (o : Offer), (run step {} os).cache.en = true →
      (run step {} os).cache.cacheHandle.cacheOper = .req →
      (run step {} os).cache.addrSame = true →
      (∀ p, ((run step {} os).cache.req p).Formed) →
      (run step {} (os ++ [o])).cache.respData .two =
        State.perform ((run step {} os).cache.req .one)
          ((run step {} os).cache.dataRam ((run step {} os).cache.accessAddr .one)) := by
  intro h
  have hstore := h storeRun (offerOf default default) (by decide +kernel) (by decide +kernel)
    (by decide +kernel) storeRun_formed
  exact absurd hstore (by decide +kernel)

end Service

end DCache

end FrailCPU
