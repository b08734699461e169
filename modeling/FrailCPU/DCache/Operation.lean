import FrailCPU.DCache.Writeback

/-!
# The operations of the CACHE instruction

An operation on the data cache waits in the latch like a pair of requests. The record of the
acceptance says which line it addresses, and what the tags, the words and the dirty bits were.
At the edge behind its completion they are compared with what the operation is for; the beats
that the bus has taken in between are kept in a list. The write-backs and invalidations take
out one line, the index store writes no tag.
-/

namespace FrailCPU.DCache

open ClockedMachine

/-- A beat that the bus has taken: the request of its burst, with its word, and its number. -/
structure Beat where
  request : CBusReq
  number : MLen
  deriving DecidableEq

/-- What the bus is asked for when a word of a line is written. -/
def wordWrite (t : Tag) (k : Index) (word : Word) : CBusReq :=
  ⟨true, true, .size4, State.lineAddr t k, 15#4, word, mlen16⟩

/-- The first `n` beats of the burst that writes a line. -/
def lineBurst (t : Tag) (k : Index) (words : Offset → Word) (n : ℕ) : List Beat :=
  (List.range n).map fun j =>
    ⟨wordWrite t k (words (BitVec.ofNat 4 j)), BitVec.ofNat 4 j⟩

theorem lineBurst_succ (t : Tag) (k : Index) (words : Offset → Word) (n : ℕ) :
    lineBurst t k words (n + 1) = lineBurst t k words n ++
      [⟨wordWrite t k (words (BitVec.ofNat 4 n)), BitVec.ofNat 4 n⟩] := by
  rw [lineBurst, List.range_succ, List.map_append]
  rfl

/-- What the latch holds for an operation that has found its line. -/
def oper (inst : DCacheInst) : CacheOper :=
  match inst with
  | .unknown => .req
  | .indexWritebackInvalid | .hitWritebackInvalid => .writebackInvalid
  | .indexStoreTag => .indexStore
  | .hitInvalid => .invalid

/-- `get_line`: the line that an index operation addresses. -/
def indexSlot (a : Word) : Slot := ⟨a.getLsbD 12, indexOf a⟩

/-- The line that an operation at the address `a` addresses: by index, or by a hit. -/
def target (inst : DCacheInst) (m : Index → Meta) (a : Word) : Option Slot :=
  match inst with
  | .unknown => none
  | .indexWritebackInvalid | .indexStoreTag => some (indexSlot a)
  | .hitInvalid | .hitWritebackInvalid =>
    if hit (m (indexOf a)) (tagOf a) then some ⟨hitLine (m (indexOf a)) (tagOf a), indexOf a⟩
    else none

section Latch

variable {s : State} {i : Input} (hv : (i.dreq .one).valid = true)

include hv

theorem operSlot_of_target {k : Slot}
    (hk : target i.cacheInst s.metaRam (i.dreq .one).addr = some k) :
    k = ⟨s.instOperLine i, indexOf (i.dreq .one).addr⟩ ∧ s.cacheOper i = oper i.cacheInst := by
  have hhit : s.hit i .one = hit (s.metaRam (indexOf (i.dreq .one).addr))
      (tagOf (i.dreq .one).addr) := rfl
  cases hc : i.cacheInst with
  | unknown =>
    rw [hc] at hk
    cases hk
  | indexWritebackInvalid | indexStoreTag =>
    rw [hc] at hk
    cases hk
    simp [indexSlot, State.instOperLine, State.indexLine, State.cacheOper, State.invalidFlag,
      State.wbInvalidFlag, hc, hv, oper]
  | hitInvalid | hitWritebackInvalid =>
    rw [hc, target, ← hhit] at hk
    split_ifs at hk with hh
    cases hk
    simp [State.instOperLine, State.cacheOper, State.invalidFlag, State.wbInvalidFlag, hc, hv,
      hh, oper, State.hitLine, State.metaR]

omit hv in
theorem null_of_no_target (hk : target i.cacheInst s.metaRam (i.dreq .one).addr = none)
    (hc : i.cacheInst ≠ .unknown) : s.cacheOper i = .null ∧ s.dreqEn i = true := by
  have hhit : s.hit i .one = hit (s.metaRam (indexOf (i.dreq .one).addr))
      (tagOf (i.dreq .one).addr) := rfl
  cases hi : i.cacheInst with
  | unknown => exact absurd hi hc
  | indexWritebackInvalid | indexStoreTag =>
    rw [hi] at hk
    cases hk
  | hitInvalid | hitWritebackInvalid =>
    rw [hi, target, ← hhit] at hk
    split_ifs at hk with hh
    simp [State.cacheOper, State.invalidFlag, State.wbInvalidFlag, State.dreqEn, hi, hh]

omit hv in
/-- A write-back has to wait, also when it finds nothing to write. -/
theorem dreqEn_of_writebackInvalid (ho : s.cacheOper i = .writebackInvalid) :
    s.dreqEn i = false := by
  rw [State.cacheOper] at ho
  split_ifs at ho with h1 h2
  simp only [State.wbInvalidFlag, Bool.and_eq_true, Bool.or_eq_true, beq_iff_eq] at h2
  rcases h2 with ⟨⟨hc, hh⟩ | hc, hv⟩
  · simp [State.dreqEn, hc, hh, hv]
  · simp [State.dreqEn, hc, hv]

end Latch

/-- The watched cache, with the operation at its last acceptance and the beats that the bus has
taken since. -/
structure Trace where
  watch : Watch := {}
  inst : DCacheInst := .unknown
  beats : List Beat := []

namespace Trace

variable (t : Trace) (o : Offer)

abbrev cache : State := t.watch.cache

def beatsNext : List Beat :=
  if t.cache.en then []
  else if (t.watch.service.resp o).ready then
    t.beats ++ [⟨t.cache.dcreq, t.watch.service.beat⟩]
  else t.beats

/-- A clock edge. -/
def step : Trace where
  watch := t.watch.step o
  inst := if t.cache.en then o.cacheInst else t.inst
  beats := t.beatsNext o

/-- The line of the operation in the latch, as it was looked up at its acceptance. -/
def line : Option Slot := target t.inst t.watch.tags (t.cache.req .one).addr

/-- The line is valid and dirty. -/
def dirtyLine (k : Slot) : Bool :=
  t.watch.dirty k && (t.watch.tags k.index k.line).valid

/-- The first `n` beats of the burst that writes a line back. -/
def burst (k : Slot) (n : ℕ) : List Beat :=
  lineBurst (t.watch.tags k.index k.line).tag k.index (fun o => t.watch.ram ⟨k, o⟩) n

/-- The line in the latch is that of the operation. -/
structure Finds : Prop where
  found : (t.cache.req .one).valid = true → ∀ k, t.line = some k →
    k = t.cache.operSlot ∧ t.cache.cacheHandle.cacheOper = oper t.inst
  lost : (t.cache.req .one).valid = true → t.line = none → t.inst ≠ .unknown →
    t.cache.cacheHandle.cacheOper = .null ∧ t.cache.cacheHandle.dreqEn = true
  marks : t.cache.ends.writebackInst = true →
    t.cache.finishReg = true ∨ t.cache.fsm.state = .writebackInst

/-- The beats that the bus has taken are those of the line. -/
structure Records : Prop where
  sending : t.cache.fsm.state = .writebackInst →
    t.beats = t.burst t.cache.operSlot t.watch.service.beat.toNat
  sent : t.cache.cacheHandle.cacheOper ≠ .req → t.cache.fsm.state ≠ .writebackInst →
    t.beats = if t.cache.en && t.cache.cacheHandle.cacheOper == .writebackInvalid &&
      t.cache.wbDirty then t.burst t.cache.operSlot 16 else []

theorem finds_reset : ({} : Trace).Finds where
  found h := by cases h
  lost h := by cases h
  marks h := by cases h

theorem records_reset : ({} : Trace).Records where
  sending h := by cases h
  sent _ _ := rfl

variable {t o}

theorem endsNext_writebackInst {s : State} : s.endsNext.writebackInst = true ↔
    s.finishReg = false ∧ (s.fsm.state = .writebackInst ∨ s.ends.writebackInst = true) := by
  rw [State.endsNext]
  cases s.finishReg with
  | true => simp
  | false => simp

/-! ### The operation is taken -/

section Accept

variable (hw : t.watch.Guarded) (he : t.cache.en = true)

include hw he

omit hw in
theorem cacheHandle_of_accept :
    (t.step o).cache.cacheHandle = t.cache.handleNext (t.watch.service.input o) := by
  change (if t.cache.en then _ else _) = _
  rw [he]
  rfl

omit hw in
theorem inst_of_accept : (t.step o).inst = o.cacheInst := if_pos he

/-- The line is looked up in the tags as they are behind the edge. -/
theorem line_of_accept (hc : t.watch.Alone o) (hv : (o.dreq .one).valid = true) :
    (t.step o).line = target o.cacheInst t.cache.metaRam (o.dreq .one).addr := by
  have htags : (t.step o).watch.tags = t.cache.metaRam := by
    change (if t.watch.cache.en then _ else _) = _
    rw [he, if_pos rfl]
    exact hw.metaRam_of_accept he (Watch.oper_of_request he hc hv)
  rw [line, htags, inst_of_accept he, State.req, cacheHandle_of_accept he]
  rfl

theorem finds_of_accept (h : t.Finds) (hc : t.watch.Alone o) : (t.step o).Finds where
  found hv k hk := by
    rw [State.req, cacheHandle_of_accept he] at hv
    rw [line_of_accept hw he hc hv] at hk
    obtain ⟨hk, ho⟩ := operSlot_of_target (i := t.watch.service.input o) hv hk
    rw [State.operSlot, State.index, State.req, cacheHandle_of_accept he, inst_of_accept he]
    exact ⟨hk, ho⟩
  lost hv hk hi := by
    rw [State.req, cacheHandle_of_accept he] at hv
    rw [line_of_accept hw he hc hv] at hk
    rw [inst_of_accept he] at hi
    rw [cacheHandle_of_accept he]
    exact null_of_no_target (i := t.watch.service.input o) hk hi
  marks hm := by
    change t.cache.endsNext.writebackInst = true at hm
    rw [endsNext_writebackInst, hw.idle he] at hm
    rcases h.marks (by simpa using hm.2) with hf | hs
    · rw [hf] at hm
      cases hm.1
    · rw [hw.idle he] at hs
      cases hs

theorem records_of_accept : (t.step o).Records where
  sending hs := by
    have hfsm : (t.step o).cache.fsm = t.cache.fsm := Service.fsm_of_accept he
    rw [hfsm, hw.idle he] at hs
    cases hs
  sent _ _ := by
    have hbeats : (t.step o).beats = [] := if_pos he
    rw [hbeats, if_neg]
    intro hn
    rw [Bool.and_eq_true, Bool.and_eq_true, beq_iff_eq, cacheHandle_of_accept he] at hn
    have hd := dreqEn_of_writebackInvalid hn.1.2
    have hen : (t.step o).cache.en = false := by
      change t.cache.enNext (t.watch.service.input o) = _
      rw [State.enNext, he, hd]
      rfl
    rw [hn.1.1] at hen
    cases hen

end Accept

/-! ### The operation waits -/

theorem toNat_beat_succ {n : MLen} (h : n ≠ 15#4) : (n + 1#4).toNat = n.toNat + 1 := by
  have hn : n.toNat ≠ 15 := fun hn => h (BitVec.eq_of_toNat_eq hn)
  have hlt := n.isLt
  rw [BitVec.toNat_add, show (1#4 : BitVec 4).toNat = 1 from rfl]
  omega

/-- What the bus takes a beat of. -/
theorem request_of_beat (hw : t.watch.Watched) (hc : t.watch.Careful o)
    (hs : t.cache.fsm.state = .writebackInst) (hr : (t.watch.service.resp o).ready = true) :
    t.cache.dcreq = wordWrite (t.watch.tags t.cache.operSlot.index t.cache.operSlot.line).tag
      t.cache.operSlot.index (t.watch.ram ⟨t.cache.operSlot, t.watch.service.beat⟩) := by
  have hb : t.watch.cache.fsm.state.writesBack = true := by
    rw [hs]
    rfl
  have hvictim : t.watch.victim = t.cache.operSlot := by
    rw [Watch.victim, hs]
  have hvalid : t.cache.dcreq.valid = true := by
    rw [Service.resp, Bool.and_eq_true] at hr
    exact hr.1
  have hsize : t.cache.dcreq.size = .size4 := by
    rw [State.dcreq, hs]
  have haddr := hw.addr_of_victim hb
  have hdata := hw.data_of_beat hb hc hr
  rw [hvictim] at haddr hdata
  obtain ⟨-, hwrite, hstrobe, -, hlen⟩ := State.dcreq_of_writesBack hb
  calc t.cache.dcreq
      = ⟨t.cache.dcreq.valid, t.cache.dcreq.isWrite, t.cache.dcreq.size, t.cache.dcreq.addr,
          t.cache.dcreq.strobe, t.cache.dcreq.data, t.cache.dcreq.len⟩ := rfl
    _ = _ := by
      rw [hvalid, hsize, hwrite,
        hstrobe, hlen,
        haddr, hdata]
      rfl

section Waits

variable (he : t.cache.en = false)

include he

theorem waits_same : (t.step o).cache.cacheHandle = t.cache.cacheHandle ∧
    (t.step o).inst = t.inst ∧ (t.step o).watch.tags = t.watch.tags ∧
    (t.step o).watch.ram = t.watch.ram ∧ (t.step o).watch.dirty = t.watch.dirty := by
  obtain ⟨hram, htags, hdirty⟩ := Watch.record_of_waits (w := t.watch) (o := o) he
  refine ⟨Watch.cacheHandle_of_waits (w := t.watch) he, ?_, htags, hram, hdirty⟩
  exact if_neg (by rw [he]; decide)

theorem operSlot_of_waits : (t.step o).cache.operSlot = t.cache.operSlot := by
  have hcache := (waits_same (o := o) he).1
  rw [State.operSlot, State.operSlot, State.index_congr hcache, hcache]

theorem line_of_waits : (t.step o).line = t.line := by
  obtain ⟨hcache, hinst, htags, -⟩ := waits_same (o := o) he
  rw [line, line, hinst, htags, State.req, State.req, hcache]

theorem burst_of_waits (k : Slot) (n : ℕ) : (t.step o).burst k n = t.burst k n := by
  obtain ⟨-, -, htags, hram, -⟩ := waits_same (o := o) he
  rw [burst, burst, htags, hram]

theorem stays_of_writebackInst (hs : t.cache.fsm.state = .writebackInst)
    (hl : (t.watch.service.resp o).last = false) :
    (t.step o).cache.fsm.state = .writebackInst := by
  have hfsm := Service.fsm_step (v := t.watch.service) (o := o) he
  rw [show t.watch.service.cache.fsm.state = .writebackInst from hs] at hfsm
  change (t.watch.service.step o).cache.fsm.state = _
  have hl' : (t.watch.service.input o).dcresp.last = false := hl
  rw [hfsm]
  change (t.watch.service.cache.fsmWriteback _ _ _).state = _
  rw [State.fsmWriteback, hl']
  rw [show t.watch.service.cache.fsm.state = .writebackInst from hs]
  exact ite_self _

/-- A write-back completes with its last beat. -/
theorem wakes_of_writebackInst (hw : t.watch.Guarded) (hs : t.cache.fsm.state = .writebackInst) :
    (t.step o).cache.en = true ↔ (t.watch.service.resp o).last = true := by
  have ha := hw.attentive.attends
  rw [State.Attends, show t.watch.service.cache.fsm.state = .writebackInst from hs] at ha
  have ho : t.cache.cacheHandle.cacheOper = .writebackInvalid := ha.2.1
  have hd : t.cache.wbDirty = true := ha.2.2
  change t.cache.enNext (t.watch.service.input o) = true ↔ _
  rw [State.enNext, he, State.finish, ho, hd]
  change _ ↔ (t.watch.service.input o).dcresp.last = true
  cases (t.watch.service.input o).dcresp.last <;> simp

theorem finds_of_waits (hw : t.watch.Guarded) (h : t.Finds) : (t.step o).Finds := by
  obtain ⟨hcache, hinst, -⟩ := waits_same (o := o) he
  refine ⟨fun hv k hk => ?_, fun hv hk hi => ?_, fun hm => ?_⟩
  · rw [State.req, hcache] at hv
    rw [line_of_waits he] at hk
    rw [operSlot_of_waits he, hcache, hinst]
    exact h.found hv k hk
  · rw [State.req, hcache] at hv
    rw [line_of_waits he] at hk
    rw [hinst] at hi
    rw [hcache]
    exact h.lost hv hk hi
  · change t.cache.endsNext.writebackInst = true at hm
    rw [endsNext_writebackInst] at hm
    have hs : t.cache.fsm.state = .writebackInst := by
      rcases hm.2 with hs | hs
      · exact hs
      · exact (h.marks hs).resolve_left (by rw [hm.1]; decide)
    cases hl : (t.watch.service.resp o).last with
    | false => exact Or.inr (stays_of_writebackInst he hs hl)
    | true => exact Or.inl (Watch.finish_of_wakes he ((wakes_of_writebackInst he hw hs).mpr hl))

theorem beats_of_waits : (t.step o).beats =
    if (t.watch.service.resp o).ready then t.beats ++ [⟨t.cache.dcreq, t.watch.service.beat⟩]
    else t.beats := if_neg (by rw [he]; decide)

variable (hw : t.watch.Watched) (h : t.Records)

include h

/-- Nothing has been sent before the machine leaves the state without a burst. -/
theorem Records.none_of_idle (ho : t.cache.cacheHandle.cacheOper ≠ .req)
    (hs : t.cache.fsm.state ≠ .writebackInst) : t.beats = [] := by
  rw [h.sent ho hs, he]
  rfl

include hw

theorem Records.more (hc : t.watch.Careful o) (hs : t.cache.fsm.state = .writebackInst)
    (hl : (t.watch.service.resp o).last = false) : (t.step o).beats =
      t.burst t.cache.operSlot (t.step o).watch.service.beat.toNat := by
  have hb : t.cache.fsm.state.writesBack = true := by rw [hs]; rfl
  have hbeat : (t.step o).watch.service.beat = if (t.watch.service.resp o).ready then
      t.watch.service.beat + 1#4 else t.watch.service.beat := ((hw.sends hc hb).more hl).2.2
  rw [beats_of_waits he, hbeat, h.sending hs]
  cases hr : (t.watch.service.resp o).ready with
  | false => rfl
  | true =>
    have hne : t.watch.service.beat ≠ 15#4 := by
      intro hn
      rw [(Watch.last_of_writesBack hb).mpr ⟨hr, hn⟩] at hl
      cases hl
    rw [if_pos rfl, if_pos rfl, request_of_beat hw hc hs hr, toNat_beat_succ hne, burst, burst,
      lineBurst_succ, BitVec.ofNat_toNat, BitVec.setWidth_eq]

theorem Records.full (hc : t.watch.Careful o) (hs : t.cache.fsm.state = .writebackInst)
    (hl : (t.watch.service.resp o).last = true) :
    (t.step o).beats = t.burst t.cache.operSlot 16 := by
  have hb : t.cache.fsm.state.writesBack = true := by rw [hs]; rfl
  obtain ⟨hr, hbeat⟩ := (Watch.last_of_writesBack hb).mp hl
  rw [beats_of_waits he, hr, if_pos rfl, h.sending hs, request_of_beat hw hc hs hr, hbeat, burst,
    burst, show (15#4 : BitVec 4).toNat = 15 from rfl, lineBurst_succ _ _ _ 15]

omit h in
theorem wbDirty_of_waits (ho : t.cache.cacheHandle.cacheOper ≠ .req) :
    (t.step o).cache.wbDirty = t.cache.wbDirty := by
  have hcache := (waits_same (o := o) he).1
  have hdirty : (t.step o).cache.cacheDirty = t.cache.cacheDirty := by
    have hn := (hw.operating_of_waits (o := o) he ho).dirty
    rw [(Watch.record_of_waits he).2.2, ← (hw.operating ho).dirty] at hn
    exact hn
  rw [State.wbDirty, State.wbDirty, hdirty, hcache, State.index_congr hcache]

omit h he hw in
theorem ready_of_store (hs : t.watch.cache.fsm.state = .store) :
    (t.watch.service.resp o).ready = false := by
  have hd : t.watch.service.cache.dcreq.valid = false := by
    rw [State.dcreq, show t.watch.service.cache.fsm.state = .store from hs]
  rw [Service.resp, hd]
  rfl

/-- Which edge takes the first beats, and which completes the operation. -/
theorem records_of_waits (hc : t.watch.Careful o) : (t.step o).Records where
  sending hs := by
    rw [operSlot_of_waits he, burst_of_waits he]
    have hn : (t.step o).watch.cache.fsm.state.writesBack = true := by
      rw [show (t.step o).watch.cache.fsm.state = .writebackInst from hs]
      rfl
    have ho : t.cache.cacheHandle.cacheOper ≠ .req := by
      have ho := ((hw.step hc).operating_of_writebackInst hs).2
      rw [show (t.watch.step o).cache.cacheHandle = t.cache.cacheHandle from
        (waits_same he).1] at ho
      rw [ho]
      decide
    rcases Watch.enters_or_goes_on (w := t.watch) he hn with hi | ⟨hb, hl⟩
    · -- the first cycle of the operation
      have hbeat := (hw.ahead_of_idle he hi hn).behind
      rw [beats_of_waits he, (Service.resp_of_idle hi).1, h.none_of_idle he ho (by
        rw [hi]
        decide), show (t.step o).watch.service.beat.toNat = 0 from Nat.le_zero.mp hbeat]
      rfl
    · refine h.more he hw hc ?_ hl
      rw [← show (t.step o).cache.fsm.state = t.cache.fsm.state from (hw.goes_on hc hb hl).1, hs]
  sent ho hs := by
    rw [(waits_same he).1] at ho
    rw [operSlot_of_waits he, burst_of_waits he, (waits_same he).1, wbDirty_of_waits he hw ho]
    rcases hw.state_of_oper ho with hst | ⟨hst, hc⟩ | ⟨hst, ho', hd⟩
    · -- with a dirty line the machine does not complete before it has sent it
      rw [beats_of_waits he, (Service.resp_of_idle hst).1, h.none_of_idle he ho (by
        rw [hst]
        decide), if_neg Bool.false_ne_true, if_neg]
      intro hn
      rw [Bool.and_eq_true, Bool.and_eq_true, beq_iff_eq] at hn
      have hfin := Watch.finish_of_wakes (w := t.watch) he hn.1.1
      change t.cache.finish _ = true at hfin
      have hlast : (t.watch.service.input o).dcresp.last = false :=
        (Service.resp_of_idle (v := t.watch.service) (o := o) hst).2
      rw [State.finish, hn.1.2, hn.2, hlast] at hfin
      cases hfin
    · rw [beats_of_waits he, ready_of_store hst, h.none_of_idle he ho (by
        rw [hst]
        decide), if_neg Bool.false_ne_true, if_neg]
      rw [hc]
      simp
    · have hlast : (t.watch.service.resp o).last = true := by
        by_contra hl
        exact hs (stays_of_writebackInst he hst (Bool.eq_false_iff.mpr hl))
      have hen : (t.step o).cache.en = true :=
        (wakes_of_writebackInst he hw.toGuarded hst).mpr hlast
      rw [h.full he hw hc hst hlast, hen, ho',
        hd]
      rfl

end Waits

/-- What is kept by every clock edge, at any pace of the bus. -/
structure Steady (t : Trace) : Prop where
  guarded : t.watch.Guarded
  finds : t.Finds

/-- What is kept by every clock edge. -/
structure Kept (t : Trace) : Prop where
  watched : t.watch.Watched
  finds : t.Finds
  records : t.Records

theorem Finds.step (hw : t.watch.Guarded) (h : t.Finds) (hc : t.watch.Alone o) :
    (t.step o).Finds := by
  cases he : t.cache.en with
  | true => exact finds_of_accept hw he h hc
  | false => exact finds_of_waits he hw h

theorem steady_reset : ({} : Trace).Steady := ⟨Watch.guarded_reset, finds_reset⟩

theorem Steady.step (h : t.Steady) (hc : t.watch.Alone o) : (t.step o).Steady :=
  ⟨h.guarded.step hc, h.finds.step h.guarded hc⟩

theorem kept_reset : ({} : Trace).Kept := ⟨Watch.watched_reset, finds_reset, records_reset⟩

theorem Kept.step (h : t.Kept) (hc : t.watch.Careful o) : (t.step o).Kept where
  watched := h.watched.step hc
  finds := h.finds.step h.watched.toGuarded hc.alone
  records := by
    cases he : t.cache.en with
    | true => exact records_of_accept h.watched.toGuarded he
    | false => exact records_of_waits he h.watched h.records hc

/-! ### The operation completes -/

section Completes

variable (h : t.watch.Guarded) (he : t.cache.en = true)
  (ho : t.cache.cacheHandle.cacheOper ≠ .req)

include h he ho

/-- An operation has no access to the data RAM. -/
theorem dataRam_of_completes : (t.step o).cache.dataRam = t.cache.dataRam := by
  have h1 : t.cache.port1Wen = 0#4 := by
    rw [State.port1Wen, if_neg (by simpa using ho)]
  have h2 : t.cache.port2Wen = 0#4 := by
    rw [State.port2Wen, h.idle he]
    exact if_neg (by simpa using ho)
  change t.cache.dataRamNext _ = _
  rw [State.dataRamNext, h1, h2, State.ramWrite_zero, State.ramWrite_zero]

omit he in
theorem dirty_of_completes : (t.step o).cache.cacheDirty = t.watch.dirty := by
  rw [← (h.operating ho).dirty]
  change (if t.cache.cacheHandle.cacheOper == .req then _ else _) = _
  exact if_neg (by simpa using ho)

theorem tags_of_completes (hn : t.cache.cacheHandle.cacheOper = .null ∨
    t.cache.cacheHandle.cacheOper = .indexStore) : (t.step o).cache.metaRam = t.watch.tags := by
  rw [← (h.operating ho).tags]
  refine h.metaRam_of_accept he ⟨?_, ?_⟩
  · rcases hn with hn | hn <;> rw [hn] <;> decide
  · rcases hn with hn | hn <;> rw [hn] <;> decide

omit he in
/-- The dirty bit that a write-back looks at is that of its line. -/
theorem wbDirty_of_completes (hn : t.cache.cacheHandle.cacheOper ≠ .null) :
    t.cache.wbDirty = t.dirtyLine t.cache.operSlot := by
  have hop := h.operating ho
  rw [State.wbDirty, dirtyLine, hop.dirty,
    show (t.cache.cacheHandle.side .one).metaR = _ from (hop.operand hn).2]
  rfl

end Completes

/-- The operations that take a line out of the cache. -/
def takesOut : DCacheInst → Bool
  | .indexWritebackInvalid | .hitWritebackInvalid | .hitInvalid => true
  | _ => false

theorem out_of_takesOut {inst : DCacheInst} {c : CacheOper} (hi : takesOut inst = true)
    (ho : c = oper inst) : c = .invalid ∨ c = .writebackInvalid := by
  rw [ho]
  cases inst with
  | unknown | indexStoreTag => cases hi
  | hitInvalid => exact Or.inl rfl
  | indexWritebackInvalid | hitWritebackInvalid => exact Or.inr rfl

theorem not_req_of_takesOut {inst : DCacheInst} {c : CacheOper} (hi : takesOut inst = true)
    (ho : c = oper inst) : c ≠ .req := by
  rcases out_of_takesOut hi ho with h | h <;> rw [h] <;> decide

/-- The tags with one line taken out. -/
def invalidated (m : Index → Meta) (k : Slot) : Index → Meta :=
  Function.update m k.index (Function.update (m k.index) k.line
    { m k.index k.line with valid := false })

theorem invalidated_self (m : Index → Meta) (k : Slot) :
    (invalidated m k k.index k.line).valid = false := by
  rw [invalidated, Function.update_self, Function.update_self]

theorem invalidated_of_ne (m : Index → Meta) {k k' : Slot} (h : k' ≠ k) :
    invalidated m k k'.index k'.line = m k'.index k'.line := by
  rw [invalidated]
  by_cases hi : k'.index = k.index
  · have hl : k'.line ≠ k.line := fun hl => h (by
      cases k
      cases k'
      cases hi
      cases hl
      rfl)
    rw [hi, Function.update_self, Function.update_of_ne hl]
  · rw [Function.update_of_ne hi]

/-- What an operation has to send: its line, unless there is nothing in it that the memory does
not have. -/
def due (t : Trace) : List Beat :=
  match t.line with
  | some k => if t.inst ≠ .hitInvalid ∧ t.dirtyLine k = true then t.burst k 16 else []
  | none => []

/-- The cache behind the completion of an operation that takes a line out, and what the bus has
taken for it. -/
structure TakesOut (t : Trace) (o : Offer) : Prop where
  invalid : ∀ k, t.line = some k →
    ((t.step o).cache.metaRam k.index k.line).valid = false
  tags : ∀ k : Slot, t.line ≠ some k →
    (t.step o).cache.metaRam k.index k.line = t.watch.tags k.index k.line
  ram : (t.step o).cache.dataRam = t.watch.ram
  dirty : (t.step o).cache.cacheDirty = t.watch.dirty
  beats : t.beats = t.due
  silent : (t.watch.service.resp o).ready = false

theorem Kept.takesOut (h : t.Kept) (he : t.cache.en = true)
    (hv : (t.cache.req .one).valid = true) (hi : Trace.takesOut t.inst = true) :
    t.TakesOut o := by
  have hg := h.watched.toGuarded
  have hne : t.inst ≠ .unknown := by
    intro hn
    rw [hn] at hi
    cases hi
  have hidle : t.cache.fsm.state = .idle := hg.idle he
  have hsilent : (t.watch.service.resp o).ready = false := (Service.resp_of_idle hidle).1
  have hsent (ho : t.cache.cacheHandle.cacheOper ≠ .req) := h.records.sent ho (by
    rw [hidle]
    decide)
  cases hk : t.line with
  | none =>
    have ho := (h.finds.lost hv hk hne).1
    have hr : t.cache.cacheHandle.cacheOper ≠ .req := by rw [ho]; decide
    refine ⟨fun k h => (by rw [hk] at h; cases h), fun k _ => ?_, ?_, dirty_of_completes hg hr,
      ?_, hsilent⟩
    · rw [tags_of_completes hg he hr (Or.inl ho)]
    · rw [dataRam_of_completes hg he hr]
      exact funext fun a => (hg.operating hr).ram a fun h => (by
        rw [ho] at h
        cases h)
    · rw [hsent hr, ho, due, hk, he]
      rfl
  | some k =>
    obtain ⟨rfl, ho⟩ := h.finds.found hv k hk
    have hr : t.cache.cacheHandle.cacheOper ≠ .req := not_req_of_takesOut hi ho
    have hout := out_of_takesOut hi ho
    have hmeta := hg.metaRam_of_invalidate (o := o) he hout
    refine ⟨fun k h => ?_, fun k hn => ?_, ?_, dirty_of_completes hg hr, ?_, hsilent⟩
    · rw [hk] at h
      cases h
      change ((t.watch.step o).cache.metaRam _ _).valid = false
      rw [hmeta]
      exact invalidated_self _ _
    · rw [hk] at hn
      change (t.watch.step o).cache.metaRam _ _ = _
      rw [hmeta]
      exact invalidated_of_ne _ fun hk => hn (congrArg some hk.symm)
    · rw [dataRam_of_completes hg he hr]
      refine funext fun a => (hg.operating hr).ram a fun h => ?_
      rcases hout with hx | hx <;> rw [hx] at h <;> cases h
    · have hn : t.cache.cacheHandle.cacheOper ≠ .null := by
        rcases hout with hx | hx <;> rw [hx] <;> decide
      rw [hsent hr, due, hk, he, wbDirty_of_completes hg hr hn, ho]
      dsimp only
      cases hinst : t.inst with
      | unknown | indexStoreTag =>
        rw [hinst] at hi
        cases hi
      | _ => simp [oper]

/-- The operation goes on, or it has its line to send and has not sent all of it. -/
theorem Kept.waits (h : t.Kept) (he : t.cache.en = false)
    (hv : (t.cache.req .one).valid = true) (hi : Trace.takesOut t.inst = true) :
    (t.step o).cache.en = true ∨ (t.step o).cache.fsm.state = .writebackInst ∧
      (t.cache.fsm.state = .writebackInst → (t.watch.service.resp o).last = false) := by
  have hg := h.watched.toGuarded
  have hdreq := (hg.quiet he).1
  have ho : t.cache.cacheHandle.cacheOper = .writebackInvalid := by
    cases hk : t.line with
    | none =>
      have hne : t.inst ≠ .unknown := by
        intro hn
        rw [hn] at hi
        cases hi
      rw [(h.finds.lost hv hk hne).2] at hdreq
      cases hdreq
    | some k =>
      rcases out_of_takesOut hi (h.finds.found hv k hk).2 with ho | ho
      · rw [(hg.operating (by rw [ho]; decide)).direct ho] at hdreq
        cases hdreq
      · exact ho
  have hr : t.cache.cacheHandle.cacheOper ≠ .req := by rw [ho]; decide
  rcases hg.state_of_oper hr with hs | ⟨-, hs⟩ | ⟨hs, -⟩
  · cases hd : t.cache.wbDirty with
    | false =>
      refine Or.inl ?_
      change t.cache.enNext (t.watch.service.input o) = true
      simp [State.enNext, State.finish, he, ho, hd]
    | true =>
      have hends : t.cache.ends.writebackInst = false := by
        by_contra hn
        rcases h.finds.marks (by simpa using hn) with hf | hf
        · rw [(hg.quiet he).2] at hf
          cases hf
        · rw [hs] at hf
          cases hf
      have hfsm := Service.fsm_step (v := t.watch.service) (o := o) he
      rw [show t.watch.service.cache.fsm.state = .idle from hs] at hfsm
      refine Or.inr ⟨?_, fun hx => by rw [hs] at hx; cases hx⟩
      change (t.watch.service.step o).cache.fsm.state = _
      rw [hfsm]
      change t.cache.fsmIdle.state = _
      rw [State.fsmIdle, ho]
      simp [hd, hends]
  · rw [ho] at hs
    cases hs
  · cases hl : (t.watch.service.resp o).last with
    | true => exact Or.inl ((wakes_of_writebackInst he hg hs).mpr hl)
    | false => exact Or.inr ⟨stays_of_writebackInst he hs hl, fun _ => rfl⟩

/-- An operation that takes a line out waits for its own burst only, and then it is done. -/
structure Performs (t : Trace) (o : Offer) : Prop where
  waits : t.cache.en = false → (t.step o).cache.en = true ∨
    (t.step o).cache.fsm.state = .writebackInst ∧
      (t.cache.fsm.state = .writebackInst → (t.watch.service.resp o).last = false)
  done : t.cache.en = true → t.TakesOut o

/-- In every run, with any bus that does not take a beat in the first cycle of a write-back's
request. -/
theorem takes_out_one_line (os : List Offer) (o : Offer)
    (h : Along step (fun t o => t.watch.Careful o) {} (os ++ [o]))
    (hv : ((run step {} os).cache.req .one).valid = true)
    (hi : takesOut (run step {} os).inst = true) : (run step {} os).Performs o := by
  obtain ⟨hos, ho, -⟩ := (along_append _ _ _ _ _).mp h
  have hk : (run step {} os).Kept := hos.invariant (fun _ _ hk hc => hk.step hc) kept_reset
  exact ⟨fun he => hk.waits he hv hi, fun he => hk.takesOut he hv hi⟩

/-! The line of a store is dirty: it is sent before it is taken out. -/

/-- The operation on the line, and the cycles of its burst. -/
def cleanRun : List Offer :=
  Watch.flushRun ++ List.replicate 16 (Watch.offerOf .unknown true default)

theorem takes_out_one_line_clean :
    (run step {} cleanRun).cache.en = true ∧ (run step {} cleanRun).line = some ⟨false, 1#6⟩ ∧
      (run step {} cleanRun).dirtyLine ⟨false, 1#6⟩ = true ∧
      (run step {} cleanRun).Performs (Watch.offerOf .unknown true default) :=
  ⟨by decide +kernel, by decide +kernel, by decide +kernel,
    takes_out_one_line cleanRun (Watch.offerOf .unknown true default) (by decide +kernel)
      (by decide +kernel) (by decide +kernel)⟩

/-- A line whose second word was stored, on a bus that takes a beat in every cycle of the
request. -/
def earlyRun : List Offer :=
  Watch.offerOf .unknown true (Watch.storeOf 0x44#32) ::
      List.replicate 17 (Watch.offerOf .unknown true default) ++
    Watch.offerOf .indexWritebackInvalid true (Watch.storeOf 0x44#32) ::
      List.replicate 18 (Watch.offerOf .unknown true default)
/-- The buffer does not have the second word yet when it is sent. -/
theorem sends_early_word :
    Along step (fun t o => t.watch.Alone o) {}
        (earlyRun ++ [Watch.offerOf .unknown true default]) ∧
      ((run step {} earlyRun).cache.req .one).valid = true ∧
      takesOut (run step {} earlyRun).inst = true ∧
      ¬ (run step {} earlyRun).Performs (Watch.offerOf .unknown true default) := by
  refine ⟨by decide +kernel, by decide +kernel, by decide +kernel, fun h => ?_⟩
  have hsent : ((run step {} earlyRun).beats[1]?.map fun b => b.request.data) = some 0#32 := by
    decide +kernel
  have hdue : ((run step {} earlyRun).due[1]?.map fun b => b.request.data) =
      some 0xabcd#32 := by decide +kernel
  rw [(h.done (by decide +kernel)).beats, hdue] at hsent
  exact absurd (Option.some.inj hsent) (by decide)

/-! ### The index store -/

/-- The entry that `tag_lo_valid` and `tag_lo_tag` give. -/
def storedTag (tagLo : Word) : Info :=
  ⟨tagLo.getLsbD 0, (BitVec.ofBool (tagLo.getLsbD 0)).setWidth 20⟩

/-- The entry `k` is that of the register, everything outside of its line is as before, and an
entry that is not valid is not hit. -/
structure Initialises (t : Trace) (o : Offer) (k : Slot) (tagLo : Word) : Prop where
  entry : (t.step o).cache.metaRam k.index k.line = storedTag tagLo
  tags : ∀ k' : Slot, k' ≠ k →
    (t.step o).cache.metaRam k'.index k'.line = t.watch.tags k'.index k'.line
  ram : ∀ a : DataAddr, a.slot ≠ k → (t.step o).cache.dataRam a = t.watch.ram a
  dirty : ∀ k' : Slot, k' ≠ k → (t.step o).cache.cacheDirty k' = t.watch.dirty k'
  misses : tagLo = 0#32 → ∀ a : Tag,
    hitBits ((t.step o).cache.metaRam k.index) a k.line = false

theorem Steady.initialises_iff (h : t.Steady) (he : t.cache.en = true)
    (hv : (t.cache.req .one).valid = true) (hi : t.inst = .indexStoreTag) (tagLo : Word) :
    t.Initialises o (indexSlot (t.cache.req .one).addr) tagLo ↔
      t.watch.tags (indexSlot (t.cache.req .one).addr).index
        (indexSlot (t.cache.req .one).addr).line = storedTag tagLo := by
  have hline : t.line = some (indexSlot (t.cache.req .one).addr) := by rw [line, hi, target]
  obtain ⟨hk, ho⟩ := h.finds.found hv _ hline
  rw [hi] at ho
  have hr : t.cache.cacheHandle.cacheOper ≠ .req := by rw [ho]; decide
  have hmeta := tags_of_completes (o := o) h.guarded he hr (Or.inr ho)
  rw [← hmeta]
  refine ⟨fun hn => hn.entry, fun hentry => ⟨hentry, fun _ _ => by rw [hmeta], fun a ha => ?_,
    fun k _ => ?_, fun hz a => ?_⟩⟩
  · rw [dataRam_of_completes h.guarded he hr]
    rw [hk] at ha
    exact (h.guarded.operating hr).ram a fun _ => ha
  · rw [dirty_of_completes h.guarded hr]
  · rw [hitBits, hentry, hz]
    rfl

/-- In every run. The state that writes the tag array is left before the operation is let
through, and the entry is put together only then. -/
theorem index_store_initialises_iff (os : List Offer) (o : Offer)
    (h : Along step (fun t o => t.watch.Alone o) {} (os ++ [o]))
    (he : (run step {} os).cache.en = true)
    (hv : ((run step {} os).cache.req .one).valid = true)
    (hi : (run step {} os).inst = .indexStoreTag) (tagLo : Word) :
    (run step {} os).Initialises o (indexSlot ((run step {} os).cache.req .one).addr) tagLo ↔
      (run step {} os).watch.tags (indexSlot ((run step {} os).cache.req .one).addr).index
        (indexSlot ((run step {} os).cache.req .one).addr).line = storedTag tagLo := by
  obtain ⟨hos, -⟩ := (along_append _ _ _ _ _).mp h
  exact (hos.invariant (fun _ _ hk hc => hk.step hc) steady_reset).initialises_iff he hv hi tagLo

/-- The operation on a line, and the cycles of its walk. -/
def indexStoreRun : List Offer :=
  Watch.offerOf .indexStoreTag true (Watch.storeOf 0x40#32) ::
    List.replicate 17 (Watch.offerOf .unknown true default)

/-- An entry that is not valid. -/
theorem index_store_initialises_reset :
    (run step {} indexStoreRun).Initialises (Watch.offerOf .unknown true default)
      (indexSlot ((run step {} indexStoreRun).cache.req .one).addr) 0#32 :=
  (index_store_initialises_iff indexStoreRun (Watch.offerOf .unknown true default)
    (by decide +kernel) (by decide +kernel) (by decide +kernel) (by decide +kernel) 0#32).mpr
    (by decide +kernel)

/-- A line that was stored to stays valid. -/
theorem index_store_keeps_tag :
    Along step (fun t o => t.watch.Alone o) {}
        (Watch.storeRun ++ indexStoreRun ++ [Watch.offerOf .unknown true default]) ∧
      (run step {} (Watch.storeRun ++ indexStoreRun)).cache.en = true ∧
      ((run step {} (Watch.storeRun ++ indexStoreRun)).cache.req .one).valid = true ∧
      (run step {} (Watch.storeRun ++ indexStoreRun)).inst = .indexStoreTag ∧
      ¬ (run step {} (Watch.storeRun ++ indexStoreRun)).Initialises
        (Watch.offerOf .unknown true default)
        (indexSlot ((run step {} (Watch.storeRun ++ indexStoreRun)).cache.req .one).addr)
        0#32 := by
  refine ⟨by decide +kernel, by decide +kernel, by decide +kernel, by decide +kernel,
    fun h => ?_⟩
  exact absurd h.entry (by decide +kernel)

end Trace

end FrailCPU.DCache
