import FrailCPU.DCache.Phase

/-!
# The tag array during a service

The tag array is rewritten a set at a time, from the entries that were read when the pair was
accepted. While a pair is served the array is the one of that moment with the entry of every
victim replaced, so it can be told from the marks of the refills that are over. The way that
a miss replaces is computed again in every cycle; it stays the same from the beginning of the
turn to the access.
-/

namespace FrailCPU.DCache

/-- No two valid ways of the set hold the same tag. -/
def UniqueTags (m : Meta) : Prop :=
  ∀ w v, (m w).valid = true → (m v).valid = true → (m w).tag = (m v).tag → w = v

section Sets

variable {m : Meta} {t : Tag} {w : Way}

theorem hit_eq_false : hit m t = false ↔ ∀ w, (m w).valid = true → (m w).tag ≠ t := by
  simp [hit, hitBits]

/-- The way that hits holds the tag. -/
theorem hitLine_spec (h : hit m t = true) :
    m (hitLine m t) = ⟨true, t⟩ := by
  have key (w : Way) (hw : hitBits m t w = true) : m w = ⟨true, t⟩ := by
    simp only [hitBits, Bool.and_eq_true, beq_iff_eq] at hw
    have he : m w = ⟨(m w).valid, (m w).tag⟩ := rfl
    rw [he, hw.1, hw.2]
  cases h1 : hitBits m t true with
  | true =>
      rw [hitLine, h1, Bool.and_false, Bool.false_or]
      exact key true h1
  | false =>
      rw [hit, h1, Bool.or_false] at h
      rw [hitLine, h1, Bool.and_false, Bool.false_or]
      exact key false h

/-- A line that misses may be entered. -/
theorem UniqueTags.update (hu : UniqueTags m) (h : hit m t = false) :
    UniqueTags (Function.update m w ⟨true, t⟩) := by
  rw [hit_eq_false] at h
  intro x y hx hy hxy
  by_cases hxw : x = w
  · by_cases hyw : y = w
    · rw [hxw, hyw]
    · rw [hxw, Function.update_self, Function.update_of_ne hyw] at hxy
      rw [Function.update_of_ne hyw] at hy
      exact absurd hxy.symm (h y hy)
  · rw [Function.update_of_ne hxw] at hx hxy
    by_cases hyw : y = w
    · rw [hyw, Function.update_self] at hxy
      exact absurd hxy (h x hx)
    · rw [Function.update_of_ne hyw] at hy hxy
      exact hu x y hx hy hxy

/-- A set stays without double tags when a way is taken out. -/
theorem UniqueTags.invalidate (h : UniqueTags m) (l : Way) :
    UniqueTags (Function.update m l { m l with valid := false }) := by
  have hvalid (x : Way) (hx : (Function.update m l { m l with valid := false } x).valid = true) :
      x ≠ l := by
    rintro rfl
    rw [Function.update_self] at hx
    cases hx
  intro x y hx hy ht
  have hxl := hvalid x hx
  have hyl := hvalid y hy
  rw [Function.update_of_ne hxl] at hx ht
  rw [Function.update_of_ne hyl] at hy ht
  exact h x y hx hy ht

end Sets

namespace State

variable (s : State) (i : Input)

/-- The way of a miss: chosen while its turn lasts, then kept. -/
def missWay (p : Port) : Way :=
  if s.ends.fetch p && s.fsm.state != .fetch p then s.replaceLineReg p else s.processReplaceLine p

def missSlot (p : Port) : Slot := ⟨s.missWay p, s.index p⟩

/-- The entry of the line that is fetched for `p` in the set as it was read. -/
def fetchedSet (p : Port) : Meta :=
  Function.update (s.cacheHandle.side p).metaR (s.missWay p) ⟨true, tagOf (s.req p).addr⟩

def afterFetch (p : Port) (m : Index → Meta) : Index → Meta :=
  if s.ends.fetch p then Function.update m (s.index p) (s.fetchedSet p) else m

/-- The tag array, told from the one at the acceptance of the pair. -/
def tagsNow (before : Index → Meta) : Index → Meta :=
  s.afterFetch .two (s.afterFetch .one before)

/-- The pair and the tag array `before` its service. -/
structure Snapshot (before : Index → Meta) : Prop where
  metaR : ∀ p, (s.cacheHandle.side p).metaR = before (s.index p)
  hit : ∀ p, (s.cacheHandle.side p).hit =
    DCache.hit (before (s.index p)) (tagOf (s.req p).addr)
  hitLine : ∀ p, (s.cacheHandle.side p).hitLine =
    DCache.hitLine (before (s.index p)) (tagOf (s.req p).addr)
  unique : ∀ k, UniqueTags (before k)
  metaRam : s.metaRam = s.tagsNow before
  fetched : ∀ p, s.ends.fetch p = true → s.misses p = true
  missAddr : ∀ p, s.fsm.state = .fetch p ∨ s.fsm.state = .writeback p →
    s.fsm.missAddr.slot = s.missSlot p
  avoids : ∀ p, s.ends.fetch p = true → s.indexEqual = true →
    (s.cacheHandle.side p.other).hit = true →
    s.missWay p = !(s.cacheHandle.side p.other).hitLine
  distinct : s.ends.fetch .one = true → s.fsm.state ≠ .fetch .one → s.misses .two = true →
    s.indexEqual = true → s.missWay .two = !s.missWay .one
  twin : s.finishReg = true → s.sameLine = true → s.misses .one = true →
    s.bypasses .two = false → s.replaceLineReg .two = s.replaceLineReg .one

section Ways

variable {s i}

theorem hit_of_misses {p : Port} (h : s.misses p = true) : (s.cacheHandle.side p).hit = false := by
  simp only [misses, Bool.and_eq_true, Bool.not_eq_true'] at h
  exact h.1.1.2

theorem not_processCacheHit {p : Port} (h : s.misses p = true) : s.processCacheHit p = false := by
  rw [processCacheHit, hit_of_misses h]
  rfl

theorem index_congr {t : State} (h : t.cacheHandle = s.cacheHandle) (p : Port) :
    t.index p = s.index p := by
  rw [index, index, req, req, h]

/-- The replacement bit of a set in which `p` misses stays, unless a refill of that set ends. -/
theorem plruNew_of_misses {p : Port} (hm : s.misses p = true)
    (hl : ∀ q, s.fsm.state = .fetch q → i.dcresp.last = true → s.index q ≠ s.index p)
    (hx : ¬ (s.indexEqual = true ∧ (s.cacheHandle.side p.other).hit = true)) :
    s.plruNew i (s.index p) = s.plru (s.index p) := by
  have hp := not_processCacheHit hm
  -- the other request hits in another set
  have ho : s.processCacheHit p.other = true → (s.index p.other == s.index p) = false := by
    intro h
    have hh : (s.cacheHandle.side p.other).hit = true := by
      simp only [processCacheHit, Bool.and_eq_true] at h
      exact h.1.1
    rw [beq_eq_false_iff_ne]
    intro he
    refine hx ⟨?_, hh⟩
    cases p with
    | one => exact beq_iff_eq.mpr he.symm
    | two => exact beq_iff_eq.mpr he
  have hself : ¬ (s.fsm.state = .fetch p ∧ i.dcresp.last = true) := fun h => hl p h.1 h.2 rfl
  -- a refill that ends is one of another set
  have hother : s.fsm.state = .fetch p.other ∧ i.dcresp.last = true →
      (s.index p.other == s.index p) = false :=
    fun h => beq_eq_false_iff_ne.mpr (hl p.other h.1 h.2)
  cases p with
  | one =>
      simp only [plruNew, hp, Bool.false_eq_true, if_false, if_neg hself]
      split
      · rw [show (s.index .two == s.index .one) = false from ho (by assumption)]
        rfl
      · split
        · rw [show (s.index .two == s.index .one) = false from hother (by assumption)]
          rfl
        · rfl
  | two =>
      simp only [plruNew, hp, Bool.false_eq_true, if_false, if_neg hself]
      split
      · rw [show (s.index .one == s.index .two) = false from ho (by assumption)]
        rfl
      · split
        · rw [show (s.index .one == s.index .two) = false from hother (by assumption)]
          rfl
        · rfl

/-- The choice of the way does not change during the turn. -/
theorem processReplaceLine_next {p : Port} (hb : s.Busy) (hm : s.misses p = true)
    (hl : ∀ q, s.fsm.state = .fetch q → i.dcresp.last = true → s.index q ≠ s.index p) :
    (s.next i).processReplaceLine p = s.processReplaceLine p := by
  have hh := next_cacheHandle (i := i) hb.en
  have hie : (s.next i).indexEqual = s.indexEqual := by
    rw [indexEqual, indexEqual, index_congr hh, index_congr hh]
  have hpl : (s.next i).plru = s.plruNew i := by simp [next, hb.oper]
  rw [processReplaceLine, processReplaceLine, hie, hh, hpl, index_congr hh]
  by_cases hx : s.indexEqual = true ∧ (s.cacheHandle.side p.other).hit = true
  · rw [hx.1, hx.2]
    rfl
  · rw [plruNew_of_misses hm hl hx]

/-- A refill is entered once. -/
theorem Phase.fetch_next {p : Port} (hph : s.Phase) (hb : s.Busy)
    (h : (s.next i).fsm.state = .fetch p) : s.fsm.state = .fetch p ∨ s.ends.fetch p = false := by
  cases hph with
  | ready en _ _ _ _ => rw [hb.en] at en; cases en
  | finished en _ _ _ _ _ => rw [hb.en] at en; cases en
  | think _ hi hu hd =>
      right
      obtain ⟨q, -, hq, ⟨-, hfsm⟩ | ⟨-, hfsm⟩⟩ := fsm_of_due (i := i) hb hi hd hu
      · rw [hfsm] at h
        cases h
      · rw [hfsm, startMiss] at h
        cases hx : s.cacheDirtyOf q && !s.ends.writeback q with
        | true => simp [hx] at h
        | false =>
            simp only [hx] at h
            cases h
            exact hq.fetch
  | writeback q _ hs _ hf _ =>
      right
      simp only [hb.fsm_writeback hs, fsmWriteback, hs] at h
      split_ifs at h
      cases h
      exact hf
  | fetch q _ hs _ _ =>
      left
      rw [hb.fsm_fetch hs, fsmFetch] at h
      split_ifs at h
      · exact hs.trans h
      · exact h
  | uncache q _ hs _ _ =>
      simp only [hb.fsm_uncache hs] at h
      split_ifs at h

/-- The way of a miss stays, unless the other request's refill ends in the same set before its
own begins. -/
theorem missWay_next {p : Port} (hph : s.Phase) (hb : s.Busy) (hpol : Polite i)
    (hm : s.misses p = true)
    (hl : s.ends.fetch p = false → s.fsm.state = .fetch p.other → i.dcresp.last = true →
      s.index p.other ≠ s.index p) :
    (s.next i).missWay p = s.missWay p := by
  have hends := hb.ends_fetch (i := i) p
  by_cases hs : s.fsm.state = .fetch p
  · have hne : (s.fsm.state != .fetch p) = false := by simpa using hs
    have hbeq : (s.fsm.state == .fetch p) = true := by simpa using hs
    rw [hbeq, Bool.true_or] at hends
    rw [missWay, missWay, hends, hne, Bool.and_false, if_neg Bool.false_ne_true]
    cases hlast : i.dcresp.last with
    | true =>
        rw [hb.fetch_last hs hlast hpol]
        cases p <;> simp [next, replaceLineRegNext, hs, hlast]
    | false =>
        rw [hb.fetch_more hs hlast, ← processReplaceLine_next (i := i) hb hm (by simp [hlast])]
        simp
  · have hne : (s.fsm.state == .fetch p) = false := by simpa using hs
    rw [hne, Bool.false_or] at hends
    cases he : s.ends.fetch p with
    | false =>
        rw [missWay, missWay, hends, he, Bool.false_and, if_neg Bool.false_ne_true, Bool.false_and,
          if_neg Bool.false_ne_true]
        refine processReplaceLine_next hb hm ?_
        intro q hq hlast
        cases p <;> cases q <;> first | exact absurd hq hs | exact hl he hq hlast
    | true =>
        have hst : ((s.next i).fsm.state == .fetch p) = false := by
          rw [beq_eq_false_iff_ne]
          intro h
          rcases hph.fetch_next hb h with h | h
          · exact hs h
          · rw [he] at h
            cases h
        have hreg : (s.next i).replaceLineReg p = s.replaceLineReg p := by
          cases p with
          | one => simp [next, replaceLineRegNext, hs]
          | two =>
              have hsl : s.sameLine = false := by
                simp only [misses, Bool.and_eq_true, Bool.not_eq_true'] at hm
                exact hm.2
              simp [next, replaceLineRegNext, hs, hsl]
        rw [missWay, missWay, hends, he, bne, hst, bne, hne, hreg]
        rfl

end Ways

section Fetch

variable {s i}

theorem fetchedSet_congr {t : State} {p : Port} (h : t.cacheHandle = s.cacheHandle)
    (hw : t.missWay p = s.missWay p) : t.fetchedSet p = s.fetchedSet p := by
  rw [fetchedSet, fetchedSet, hw, req, req, h]

theorem metaFetch_eq {p : Port} (hs : s.fsm.state = .fetch p) : s.metaFetch p = s.fetchedSet p := by
  have hw : s.missWay p = s.processReplaceLine p := by simp [missWay, hs]
  rw [metaFetch, fetchedSet, hw]

/-- The tag array is written in the states of a refill. -/
theorem metaRam_fetch {p : Port} (hb : s.Busy) (hs : s.fsm.state = .fetch p) :
    (s.next i).metaRam = Function.update s.metaRam (s.index p) (s.fetchedSet p) := by
  have ha : s.metaWAddr = s.index p := by
    cases p <;> simp [metaWAddr, hs]
  have hw : s.metaW i = s.metaFetch p := by
    simp [metaW, hb.oper, hs]
  have hen : s.metaEn = true := by simp [metaEn, hs]
  change s.metaRamNext i = _
  rw [metaRamNext, hen, ha, hw, metaFetch_eq hs]
  rfl

theorem metaRam_same (ho : s.cacheHandle.cacheOper = .req ∨ s.cacheHandle.cacheOper = .null)
    (hs : ∀ p, s.fsm.state ≠ .fetch p) (hst : s.fsm.state ≠ .store) :
    (s.next i).metaRam = s.metaRam := by
  have h1 : (CacheOper.req == CacheOper.invalid) = false := rfl
  have h2 : (CacheOper.req == CacheOper.writebackInvalid) = false := rfl
  have h3 : (CacheOper.null == CacheOper.invalid) = false := rfl
  have h4 : (CacheOper.null == CacheOper.writebackInvalid) = false := rfl
  have hen : s.metaEn = false := by
    rw [metaEn]
    split
    · exact absurd ‹_› hst
    · exact absurd ‹_› (hs _)
    · rcases ho with ho | ho
      · rw [ho, h1, h2]
        rfl
      · rw [ho, h3, h4]
        rfl
  change s.metaRamNext i = _
  rw [metaRamNext, hen]
  rfl

/-- While a pair is served the machine does not carry out a CACHE instruction. -/
theorem Phase.not_store (h : s.Phase) : s.fsm.state ≠ .store := by
  cases h <;> simp_all

end Fetch

section Step

variable {s i} {before : Index → Meta}

/-- The set of a refill that is over, or goes on. -/
theorem afterFetch_next {p : Port} (hph : s.Phase) (hb : s.Busy) (hpol : Polite i)
    (hm : s.ends.fetch p = true → s.misses p = true)
    (hs : s.fsm.state ≠ .fetch p) (m : Index → Meta) :
    (s.next i).afterFetch p m = s.afterFetch p m := by
  have hh := next_cacheHandle (i := i) hb.en
  have hends : (s.next i).ends.fetch p = s.ends.fetch p := by
    rw [hb.ends_fetch, show (s.fsm.state == .fetch p) = false by simpa using hs, Bool.false_or]
  rw [afterFetch, afterFetch, hends, index_congr hh]
  cases he : s.ends.fetch p with
  | false => rfl
  | true => rw [fetchedSet_congr hh (missWay_next hph hb hpol (hm he) (by simp [he]))]

theorem Phase.misses_of_fetch {p : Port} (h : s.Phase) (hs : s.fsm.state = .fetch p) :
    s.misses p = true ∧ s.Turn p ∧ s.Busy := by
  cases h with
  | ready _ hi _ _ _ => rw [hi] at hs; cases hs
  | finished _ hi _ _ _ _ => rw [hi] at hs; cases hs
  | think _ hi _ _ => rw [hi] at hs; cases hs
  | writeback _ _ hw _ _ _ => rw [hw] at hs; cases hs
  | uncache _ _ hu _ _ => rw [hu] at hs; cases hs
  | fetch q hb hq hm ht =>
      rw [hq] at hs
      cases hs
      exact ⟨hm, ht, hb⟩

theorem Phase.misses_of_writeback {p : Port} (h : s.Phase) (hs : s.fsm.state = .writeback p) :
    s.misses p = true ∧ s.Turn p ∧ s.Busy ∧ s.ends.fetch p = false := by
  cases h with
  | ready _ hi _ _ _ => rw [hi] at hs; cases hs
  | finished _ hi _ _ _ _ => rw [hi] at hs; cases hs
  | think _ hi _ _ => rw [hi] at hs; cases hs
  | fetch _ _ hw _ _ => rw [hw] at hs; cases hs
  | uncache _ _ hu _ _ => rw [hu] at hs; cases hs
  | writeback q hb hq hm hf ht =>
      rw [hq] at hs
      cases hs
      exact ⟨hm, ht, hb, hf⟩

/-- The turn of the older request comes first. -/
theorem Phase.untouched_of_one (h : s.Phase) (hs : s.fsm.state = .fetch .one) :
    s.ends.fetch .two = false :=
  Untouched.fetch (h.misses_of_fetch hs).2.1

/-- The tag array of a cycle in which the refill of `p` writes. -/
theorem Snapshot.metaRam_fetch {p : Port} (h : s.Snapshot before) (hph : s.Phase)
    (hpol : Polite i) (hs : s.fsm.state = .fetch p) :
    (s.next i).metaRam = (s.next i).tagsNow before := by
  obtain ⟨hm, ht, hb⟩ := hph.misses_of_fetch hs
  have hh := next_cacheHandle (i := i) hb.en
  have hw : (s.next i).fetchedSet p = s.fetchedSet p := by
    refine fetchedSet_congr hh (missWay_next hph hb hpol hm ?_)
    rintro - ho -
    rw [hs] at ho
    cases p <;> cases ho
  have hends : (s.next i).ends.fetch p = true := by
    rw [hb.ends_fetch, hs]
    simp
  rw [State.metaRam_fetch hb hs, h.metaRam, tagsNow, tagsNow]
  have hp (m : Index → Meta) : (s.next i).afterFetch p m =
      Function.update m (s.index p) (s.fetchedSet p) := by
    rw [afterFetch, hends, if_pos rfl, index_congr hh, hw]
  have hself (m : Index → Meta) :
      Function.update (s.afterFetch p m) (s.index p) (s.fetchedSet p) =
        Function.update m (s.index p) (s.fetchedSet p) := by
    rw [afterFetch]
    split
    · exact Function.update_idem _ _ _
    · rfl
  cases p with
  | one =>
      have h2 := hph.untouched_of_one hs
      have h2' : (s.next i).ends.fetch .two = false := by
        rw [hb.ends_fetch, hs, h2]
        rfl
      have hsame (m : Index → Meta) : s.afterFetch .two m = m := by
        rw [afterFetch, h2]
        rfl
      have hsame' (m : Index → Meta) : (s.next i).afterFetch .two m = m := by
        rw [afterFetch, h2']
        rfl
      rw [hsame, hsame', hp]
      exact hself before
  | two =>
      rw [hp, hself, afterFetch_next hph hb hpol (h.fetched .one) (by simp [hs])]

/-- After the older refill the younger request chooses the other way. -/
theorem distinct_of_last (hb : s.Busy) (hs : s.fsm.state = .fetch .one)
    (hl : i.dcresp.last = true) (hpol : Polite i) (h1 : s.misses .one = true)
    (h2 : s.misses .two = true) (hu : s.ends.fetch .two = false) (hie : s.indexEqual = true) :
    (s.next i).missWay .two = !(s.next i).missWay .one := by
  have hh := next_cacheHandle (i := i) hb.en
  have hone : (s.next i).missWay .one = s.processReplaceLine .one := by
    rw [missWay, hb.ends_fetch, hs, hb.fetch_last hs hl hpol]
    simp [next, replaceLineRegNext, hs, hl]
  have hie' : (s.next i).indexEqual = true := by
    rw [indexEqual, index_congr hh, index_congr hh]
    exact hie
  have hk : s.index .one = s.index .two := beq_iff_eq.mp hie
  have hplru : (s.next i).plru (s.index .two) = !s.processReplaceLine .one := by
    have hp : (s.next i).plru = s.plruNew i := by simp [next, hb.oper]
    rw [hp, plruNew, not_processCacheHit h1, not_processCacheHit h2]
    simp [hs, hl, hk]
  have htwo : (s.next i).missWay .two = (s.next i).processReplaceLine .two := by
    rw [missWay, hb.ends_fetch, hs, hu]
    rfl
  rw [hone, htwo, processReplaceLine, hie', hh, index_congr hh, hplru]
  simp [Port.other, hit_of_misses h1]

/-- The line that a miss fills is the one of its way. -/
theorem missAddr_next (h : s.Snapshot before) (hph : s.Phase) (hb : s.Busy) (hpol : Polite i)
    {p : Port} (hst : (s.next i).fsm.state = .fetch p ∨ (s.next i).fsm.state = .writeback p) :
    (s.next i).fsm.missAddr.slot = (s.next i).missSlot p := by
  have hh := next_cacheHandle (i := i) hb.en
  have hslot (hw : (s.next i).missWay p = s.missWay p) : (s.next i).missSlot p = s.missSlot p := by
    rw [missSlot, missSlot, hw, index_congr hh]
  have hkeep (hm : s.misses p = true) (hs : s.fsm.state = .fetch p ∨ s.fsm.state = .writeback p) :
      (s.next i).missWay p = s.missWay p := by
    refine missWay_next hph hb hpol hm ?_
    rintro - ho -
    rcases hs with hs | hs <;> rw [hs] at ho <;> cases p <;> cases ho
  cases hph with
  | ready en _ _ _ _ => rw [hb.en] at en; cases en
  | finished en _ _ _ _ _ => rw [hb.en] at en; cases en
  | think _ hi hu hd =>
      obtain ⟨q, -, hq, ⟨-, hfsm⟩ | ⟨hm, hfsm⟩⟩ := fsm_of_due (i := i) hb hi hd hu
      · rw [hfsm] at hst
        rcases hst with hst | hst <;> cases hst
      · have hpq : p = q := by
          rw [hfsm, startMiss] at hst
          dsimp only at hst
          split at hst <;> rcases hst with hst | hst <;> cases hst <;> rfl
        subst hpq
        have hends : (s.next i).ends.fetch p = false := by
          rw [hb.ends_fetch, hi, hq.fetch]
          rfl
        rw [hfsm, missSlot, missWay, hends, Bool.false_and, if_neg Bool.false_ne_true,
          processReplaceLine_next hb hm (by simp [hi]), index_congr hh]
        rfl
  | writeback q _ hs hm hf ht =>
      have hpq : p = q := by
        simp only [hb.fsm_writeback hs, fsmWriteback, hs] at hst
        split_ifs at hst <;> rcases hst with hst | hst <;> cases hst <;> rfl
      subst hpq
      rw [hslot (hkeep hm (Or.inr hs)), ← h.missAddr p (Or.inr hs), hb.fsm_writeback hs]
      rfl
  | fetch q _ hs hm ht =>
      have hpq : p = q := by
        simp only [hb.fsm_fetch hs, fsmFetch] at hst
        split_ifs at hst <;> simp_all
      subst hpq
      rw [hslot (hkeep hm (Or.inl hs)), ← h.missAddr p (Or.inl hs), hb.fsm_fetch hs, fsmFetch]
      split <;> rfl
  | uncache q _ hs _ _ =>
      simp only [hb.fsm_uncache hs] at hst
      split_ifs at hst <;> rcases hst with hst | hst <;> cases hst

theorem Snapshot.next_busy (h : s.Snapshot before) (hph : s.Phase) (hb : s.Busy)
    (hpol : Polite i) : (s.next i).Snapshot before := by
  have hh := next_cacheHandle (i := i) hb.en
  have hk := fun q => index_congr hh q
  have hreq (q : Port) : (s.next i).req q = s.req q := by rw [req, req, hh]
  have hie : (s.next i).indexEqual = s.indexEqual := by
    rw [indexEqual, indexEqual, hk, hk]
  have hmis := fun q => misses_congr hh q
  -- a refill that has begun
  have hfetched (p : Port) (hf : (s.next i).ends.fetch p = true) : s.misses p = true := by
    rw [hb.ends_fetch, Bool.or_eq_true, beq_iff_eq] at hf
    rcases hf with hf | hf
    · exact (hph.misses_of_fetch hf).1
    · exact h.fetched p hf
  refine
    { metaR := fun p => by rw [hh, hk]; exact h.metaR p
      hit := fun p => by rw [hh, hk, hreq]; exact h.hit p
      hitLine := fun p => by rw [hh, hk, hreq]; exact h.hitLine p
      unique := h.unique
      metaRam := ?_
      fetched := fun p hf => by rw [hmis]; exact hfetched p hf
      missAddr := ?_
      avoids := ?_
      distinct := ?_
      twin := ?_ }
  · by_cases hs : ∃ p, s.fsm.state = .fetch p
    · obtain ⟨p, hs⟩ := hs
      exact h.metaRam_fetch hph hpol hs
    · rw [metaRam_same (Or.inl hb.oper) (fun p hp => hs ⟨p, hp⟩) hph.not_store, h.metaRam, tagsNow,
        tagsNow, afterFetch_next hph hb hpol (h.fetched .one) (fun hp => hs ⟨_, hp⟩),
        afterFetch_next hph hb hpol (h.fetched .two) (fun hp => hs ⟨_, hp⟩)]
  · exact fun p hst => missAddr_next h hph hb hpol hst
  · intro p hf he ho
    rw [hie] at he
    rw [hh] at ho ⊢
    rw [hb.ends_fetch, Bool.or_eq_true, beq_iff_eq] at hf
    by_cases hs : s.fsm.state = .fetch p
    · rw [missWay_next hph hb hpol (hph.misses_of_fetch hs).1]
      · rw [missWay, hs, bne, beq_self_eq_true, Bool.not_true, Bool.and_false,
          if_neg Bool.false_ne_true, processReplaceLine, he, ho]
        rfl
      · rintro - hn -
        rw [hs] at hn
        cases p <;> cases hn
    · have hf' := hf.resolve_left hs
      rw [missWay_next hph hb hpol (h.fetched p hf') (by simp [hf'])]
      exact h.avoids p hf' he ho
  · intro hf hst hm he
    rw [hmis] at hm
    rw [hie] at he
    by_cases hs : s.fsm.state = .fetch .one
    · cases hl : i.dcresp.last with
      | false => exact absurd (hb.fetch_more hs hl) hst
      | true =>
          exact distinct_of_last hb hs hl hpol (hph.misses_of_fetch hs).1 hm
            (hph.untouched_of_one hs) he
    · rw [hb.ends_fetch, Bool.or_eq_true, beq_iff_eq] at hf
      have hf' := hf.resolve_left hs
      rw [missWay_next hph hb hpol hm fun _ hn => absurd hn hs,
        missWay_next hph hb hpol (h.fetched .one hf') (by simp [hf'])]
      exact h.distinct hf' hs hm he
  · intro hfin hsame hm hby
    have hsame' : s.sameLine = true := by
      rw [sameLine, hreq, hreq, hh] at hsame
      exact hsame
    rw [hmis] at hm
    rw [bypasses_congr hh] at hby
    have hm2 : s.misses .two = false := by
      rw [misses, hsame']
      simp
    rw [next_finishReg, hb.finish_eq, finishState_eq, hby, hm2, not_bypasses_of_misses hm] at hfin
    simp only [Bool.false_eq_true, if_false, Bool.and_eq_true, beq_iff_eq] at hfin
    simp [next, replaceLineRegNext, hfin.1, hfin.2, hsame']

theorem hit_metaR {p : Port} (h : s.Snapshot before) (hm : s.misses p = true) :
    DCache.hit (s.cacheHandle.side p).metaR (tagOf (s.req p).addr) = false := by
  rw [h.metaR, ← h.hit, hit_of_misses hm]

theorem Snapshot.unique_fetchedSet {p : Port} (h : s.Snapshot before) (hm : s.misses p = true) :
    UniqueTags (s.fetchedSet p) := by
  refine UniqueTags.update ?_ (hit_metaR h hm)
  rw [h.metaR]
  exact h.unique _

/-- The refills keep the tags of a set apart. -/
theorem Snapshot.unique_metaRam (h : s.Snapshot before) (k : Index) :
    UniqueTags (s.metaRam k) := by
  have hafter {p : Port} {m : Index → Meta} (hu : ∀ k, UniqueTags (m k)) (k : Index) :
      UniqueTags (s.afterFetch p m k) := by
    rw [afterFetch]
    split
    · by_cases hk : k = s.index p
      · rw [hk, Function.update_self]
        exact h.unique_fetchedSet (h.fetched p (by assumption))
      · rw [Function.update_of_ne hk]
        exact hu k
    · exact hu k
  rw [h.metaRam]
  exact hafter (hafter h.unique) k

/-- A pair is taken with the tag array of that moment. -/
theorem Latches.snapshot (ha : s.Latches i) (hu : ∀ k, UniqueTags (s.metaRam k))
    (hmeta : (s.next i).metaRam = s.metaRam) : (s.next i).Snapshot s.metaRam := by
  have hside (p : Port) : (s.next i).cacheHandle.side p =
      ⟨s.hit i p, s.hitLine i p, i.dreq p, s.metaR i p, i.isUncached p⟩ := by
    rw [ha.cacheHandle]
    rfl
  have hreq (p : Port) : (s.next i).req p = i.dreq p := by rw [req, hside]
  have hends (p : Port) : (s.next i).ends.fetch p = false := (ha.untouched p).fetch
  have hidle : (s.next i).fsm.state = .idle := by rw [ha.fsm, ha.idle]
  have hafter (p : Port) (m : Index → Meta) : (s.next i).afterFetch p m = m := by
    rw [afterFetch, hends, if_neg Bool.false_ne_true]
  refine ⟨fun p => ?_, fun p => ?_, fun p => ?_, hu, ?_, fun p hf => ?_,
    fun p hst => ?_, fun p hf => ?_, fun hf => ?_, fun hf => ?_⟩
  · rw [hside, index, hreq]
    rfl
  · rw [hside, index, hreq]
    rfl
  · rw [hside, index, hreq]
    rfl
  · rw [hmeta, tagsNow, hafter, hafter]
  · rw [hends] at hf
    cases hf
  · rw [hidle] at hst
    rcases hst with hst | hst <;> cases hst
  · rw [hends] at hf
    cases hf
  · rw [hends] at hf
    cases hf
  · rw [next_finishReg, ha.finish] at hf
    cases hf

/-- A pair is accepted with the tag array of that moment. -/
theorem Snapshot.accept (h : s.Snapshot before) (ha : s.Accepts) :
    (s.next i).Snapshot s.metaRam :=
  ha.latches.snapshot h.unique_metaRam
    (metaRam_same ha.oper (by simp [ha.idle]) (by simp [ha.idle]))

end Step

/-- The machine serves its pair by the book. -/
structure Sound (s : State) (before : Index → Meta) : Prop where
  phase : s.Phase
  snapshot : s.Snapshot before

/-- The tag array at the acceptance of the pair that the next cycle holds. -/
def beforeNext (s : State) (before : Index → Meta) : Index → Meta :=
  if s.en then s.metaRam else before

theorem sound_reset : Sound {} fun _ _ => default := by
  refine ⟨phase_reset, fun _ => rfl, fun _ => ?_, fun _ => ?_, ?_, ?_, ?_, ?_, ?_, ?_, ?_⟩
  · rfl
  · rfl
  · intro k w v hw
    cases hw
  · rfl
  · intro p hf
    cases hf
  · rintro p (h | h) <;> cases h
  · intro p hf
    cases hf
  · intro hf
    cases hf
  · intro hf
    cases hf

theorem Sound.next {s : State} {i : Input} {before : Index → Meta} (h : s.Sound before)
    (hc : i.cacheInst = .unknown) (hp : Polite i) : (s.next i).Sound (s.beforeNext before) := by
  refine ⟨h.phase.step hc hp, ?_⟩
  cases hen : s.en with
  | true =>
      rw [beforeNext, hen, if_pos rfl]
      exact h.snapshot.accept (h.phase.accepts hen)
  | false =>
      rw [beforeNext, hen, if_neg Bool.false_ne_true]
      cases hph : h.phase with
      | ready en _ _ _ _ => rw [hen] at en; cases en
      | finished en _ _ _ _ _ => rw [hen] at en; cases en
      | think hb _ _ _ => exact h.snapshot.next_busy h.phase hb hp
      | writeback _ hb _ _ _ _ => exact h.snapshot.next_busy h.phase hb hp
      | fetch _ hb _ _ _ => exact h.snapshot.next_busy h.phase hb hp
      | uncache _ hb _ _ _ => exact h.snapshot.next_busy h.phase hb hp

end State

end FrailCPU.DCache
