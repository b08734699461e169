import FrailCPU.DCache.System
import FrailCPU.DCache.Transactions

/-!
# Tags and data

Every valid way holds the words of the line that its tag names, as they were last fetched or
stored. A refill fills a slot that nothing names, and the access of a pair goes to the slots
that name the lines of its requests. Two things break this: the refill of the younger request
writes back the set as it was before the older one's refill, and the byte enables of the data
RAM do not ask whether a request is valid.
-/

namespace FrailCPU.DCache

open ClockedMachine LineStore

namespace State

variable {s : State} {before : Index → Meta} {k : Slot} {l : Tag × Index}

/-! ### The names -/

theorem names_eq_some_iff : s.names k = some l ↔
    s.filling k = false ∧ s.metaRam k.index k.line = ⟨true, l.1⟩ ∧ k.index = l.2 := by
  rw [names]
  cases s.filling k with
  | true => simp
  | false =>
      rw [if_neg Bool.false_ne_true]
      obtain ⟨v, tag⟩ := s.metaRam k.index k.line
      cases v with
      | true =>
          rw [if_pos rfl, Option.some_inj, Prod.ext_iff]
          simp
      | false => simp

theorem filling_of_ne (h : ∀ p, s.fsm.state ≠ .fetch p) : s.filling k = false := by
  rw [filling]
  split
  · exact absurd (by assumption) (h _)
  · rfl

theorem filling_of_fetch {p : Port} (h : s.fsm.state = .fetch p) :
    s.filling k = (k == s.fsm.missAddr.slot) := by
  rw [filling, h]

theorem distinct_names (h : s.Snapshot before) : Distinct s.names := by
  intro j k l hj hk
  obtain ⟨-, hj, hji⟩ := names_eq_some_iff.mp hj
  obtain ⟨-, hk, hki⟩ := names_eq_some_iff.mp hk
  have hindex : j.index = k.index := hji.trans hki.symm
  have hline : j.line = k.line := by
    rw [hindex] at hj
    exact h.unique_metaRam k.index _ _ (by rw [hj]) (by rw [hk]) (by rw [hj, hk])
  obtain ⟨jl, ji⟩ := j
  obtain ⟨kl, ki⟩ := k
  exact Slot.mk.injEq .. ▸ ⟨hline, hindex⟩

/-! ### The entries of the tag array -/

theorem fetchedSet_self (p : Port) : s.fetchedSet p (s.missWay p) = ⟨true, tagOf (s.req p).addr⟩ :=
  Function.update_self ..

/-- The entries that no refill has replaced are those of the acceptance. -/
theorem entry_of_kept (h : s.Snapshot before)
    (hk : ∀ p, s.ends.fetch p = true → k ≠ s.missSlot p) :
    s.metaRam k.index k.line = before k.index k.line := by
  have hafter (p : Port) (m : Index → Meta) (hm : m k.index k.line = before k.index k.line) :
      s.afterFetch p m k.index k.line = before k.index k.line := by
    rw [afterFetch]
    split
    · by_cases hi : k.index = s.index p
      · have hw : k.line ≠ s.missWay p := by
          intro hl
          refine hk p (by assumption) ?_
          obtain ⟨kl, ki⟩ := k
          exact Slot.mk.injEq .. ▸ ⟨hl, hi⟩
        rw [hi, Function.update_self, fetchedSet, Function.update_of_ne hw, h.metaR]
      · rw [Function.update_of_ne hi, hm]
    · exact hm
  rw [h.metaRam]
  exact hafter .two _ (hafter .one _ rfl)

/-- The entry of a refill, unless a later refill in its set has undone it. -/
theorem entry_of_fetch {p : Port} (h : s.Snapshot before) (hf : s.ends.fetch p = true)
    (hu : p = .one → s.ends.fetch .two = true → s.indexEqual = false) :
    s.metaRam (s.index p) (s.missWay p) = ⟨true, tagOf (s.req p).addr⟩ := by
  rw [h.metaRam, tagsNow]
  cases p with
  | two => rw [afterFetch, hf, if_pos rfl, Function.update_self, fetchedSet_self]
  | one =>
      have hone (m : Index → Meta) : s.afterFetch .one m (s.index .one) (s.missWay .one) =
          ⟨true, tagOf (s.req .one).addr⟩ := by
        rw [afterFetch, hf, if_pos rfl, Function.update_self, fetchedSet_self]
      rw [afterFetch]
      split
      · have hne : s.index .one ≠ s.index .two := beq_eq_false_iff_ne.mp (hu rfl (by assumption))
        rw [Function.update_of_ne hne, hone]
      · exact hone _

/-- The refill of the younger request restores the entry that the older one's has replaced. -/
theorem entry_of_undone (h : s.Snapshot before) (hf : s.ends.fetch .two = true)
    (hie : s.indexEqual = true) (hw : s.missWay .one ≠ s.missWay .two) :
    s.metaRam (s.index .one) (s.missWay .one) =
      (s.cacheHandle.side .one).metaR (s.missWay .one) := by
  have hi : s.index .one = s.index .two := beq_iff_eq.mp hie
  rw [h.metaRam, tagsNow, afterFetch, hf, if_pos rfl, hi, Function.update_self, fetchedSet,
    Function.update_of_ne hw, h.metaR, h.metaR, hi]

/-! ### The access of a pair -/

theorem getMask_or (a b : Strobe) : getMask (a ||| b) = getMask a ||| getMask b := by
  revert a b
  decide +kernel

theorem getMask_xor (a b : Strobe) : getMask (a ^^^ b) = getMask a ^^^ getMask b := by
  revert a b
  decide +kernel

theorem getMask_zero : getMask 0#4 = 0#32 := rfl

theorem CleanLanes.getLsbD {r : DBusReq} (h : CleanLanes r) (j : ℕ)
    (hm : (getMask r.strobe).getLsbD j = false) : r.data.getLsbD j = false := by
  rw [← h, BitVec.getLsbD_and, hm, Bool.false_and]

theorem ramWrite_off (m : DataAddr → Word) (a : DataAddr) (strobe : Strobe) (w : Word) :
    ramWrite m false a strobe w = m := rfl

/-- A write without byte enables is none. -/
theorem ramWrite_zero (m : DataAddr → Word) (en : Bool) (a : DataAddr) (w : Word) :
    ramWrite m en a 0#4 w = m := by
  rw [ramWrite, getMask_zero, Lanes.maskedWrite_zero, Function.update_eq_self, ite_self]

/-- The store of one request in the data RAM. -/
def storeRam (s : State) (p : Port) (m : DataAddr → Word) : DataAddr → Word :=
  if s.performs p then
    Function.update m (s.accessAddr p)
      (Lanes.maskedWrite (getMask (s.req p).strobe) (m (s.accessAddr p)) (s.req p).data)
  else m

/-- The requests in the latch are what the load and store unit sends. -/
structure Tidy (s : State) : Prop where
  lanes : ∀ p, CleanLanes (s.req p)
  silent : ∀ p, (s.req p).valid = false → (s.cacheHandle.side p).isUncached = false →
    (s.req p).strobe = 0#4

/-- The pair is ready for its access. -/
structure Accesses (s : State) : Prop where
  idle : s.fsm.state = .idle
  on : (s.cacheHandle.dreqEn || s.finishReg) = true
  oper : s.cacheHandle.cacheOper = .req

theorem strobe_of_idler {p : Port} (ht : s.Tidy) (hp : s.performs p = false)
    (hu : (s.cacheHandle.side p).isUncached = false) : (s.req p).strobe = 0#4 := by
  refine ht.silent p ?_ hu
  rw [performs, hu] at hp
  simpa using hp

theorem performs_of_addrSame (h : s.addrSame = true) (p : Port) : s.performs p = true := by
  simp only [addrSame, Bool.and_eq_true, Bool.not_eq_true'] at h
  cases p with
  | one => rw [performs, h.1.2.1, h.2.1]; rfl
  | two => rw [performs, h.1.2.2, h.2.2]; rfl

/-- Two stores to one word are merged, others go through their own ports. -/
theorem dataRamNext_of_accesses {i : Input} (ha : s.Accesses) (ht : s.Tidy)
    (hsame : s.addrSame = true → s.accessAddr .one = s.accessAddr .two) :
    s.dataRamNext i = s.storeRam .two (s.storeRam .one s.dataRam) := by
  have hoper : (s.cacheHandle.cacheOper == .req) = true := by rw [ha.oper]; rfl
  rw [dataRamNext, port1En, port1Wen, port1Addr, port2En, port2Wen, port2Addr, port2DataW, ha.idle,
    if_pos rfl, if_pos rfl, hoper, if_pos rfl, ha.on, Bool.true_and, Bool.true_and]
  dsimp only
  rw [if_pos rfl]
  -- a port on its own
  have hport (p : Port) (m : DataAddr → Word) :
      ramWrite m (!(s.cacheHandle.side p).isUncached) (s.accessAddr p) (s.req p).strobe
        (s.req p).data = s.storeRam p m := by
    cases hp : s.performs p with
    | true =>
        have hu : (s.cacheHandle.side p).isUncached = false := by
          simp only [performs, Bool.and_eq_true, Bool.not_eq_true'] at hp
          exact hp.2
        rw [storeRam, hp, if_pos rfl, hu, ramWrite]
        rfl
    | false =>
        rw [storeRam, hp, if_neg Bool.false_ne_true]
        cases hu : (s.cacheHandle.side p).isUncached with
        | true => rfl
        | false => rw [strobe_of_idler ht hp hu, ramWrite_zero]
  cases hw : s.wToW with
  | false =>
      rw [Bool.not_false, Bool.true_and, if_neg Bool.false_ne_true, if_neg Bool.false_ne_true,
        hport, hport]
  | true =>
      have haddr : s.addrSame = true := by
        simp only [wToW, Bool.and_eq_true] at hw
        exact hw.1.1
      have hp := performs_of_addrSame haddr
      have hu : (s.cacheHandle.side .two).isUncached = false := by
        have h2 := hp .two
        simp only [performs, Bool.and_eq_true, Bool.not_eq_true'] at h2
        exact h2.2
      rw [Bool.not_true, Bool.false_and, ramWrite_off, hu, if_pos rfl, if_pos rfl, storeRam, hp,
        if_pos rfl, storeRam, hp, if_pos rfl, hsame haddr, Function.update_self,
        Function.update_idem, ramWrite, Bool.not_false, if_pos rfl, wToWData, getMask_or,
        getMask_xor, Lanes.maskedWrite_merge fun j _ => CleanLanes.getLsbD (ht.lanes .one) j]

/-! ### Where a pair finds its lines -/

/-- A refill of the younger request has not restored a valid entry. -/
def Gone (s : State) : Prop :=
  s.ends.fetch .one = true → s.ends.fetch .two = true → s.indexEqual = true →
    ((s.cacheHandle.side .one).metaR (s.missWay .one)).valid = false

/-- The word is in a slot that names its line, or in one without a name while no slot names
the line. -/
def Located (s : State) (a : DataAddr) (l : Tag × Index) : Prop :=
  s.names a.slot = some l ∨ (s.names a.slot = none ∧ ∀ k, s.names k ≠ some l)

theorem lineOf_other_ne (hm1 : s.misses .one = true) (hm2 : s.misses .two = true) :
    s.lineOf .one ≠ s.lineOf .two := by
  intro h
  have hpair := Prod.ext_iff.mp h
  have hline := line_eq_iff.mpr hpair
  simp only [misses, sameLine, Bool.and_eq_true, Bool.not_eq_true'] at hm1 hm2
  have hsame := hm2.2
  rw [hm1.1.1.1, hm1.1.2, beq_iff_eq.mpr hline] at hsame
  cases hsame

theorem missWay_ne (h : s.Sound before) (hf1 : s.ends.fetch .one = true)
    (hf2 : s.ends.fetch .two = true) (hie : s.indexEqual = true) :
    s.missWay .one ≠ s.missWay .two := by
  have hs : s.fsm.state ≠ .fetch .one := by
    intro hs
    rw [h.phase.untouched_of_one hs] at hf2
    cases hf2
  rw [h.snapshot.distinct hf1 hs (h.snapshot.fetched .two hf2) hie]
  exact fun hn => by cases hw : s.missWay .one <;> rw [hw] at hn <;> cases hn

/-- The slot of a refill that is over, unless the younger refill has undone it. -/
theorem names_missSlot {p : Port} (h : s.Snapshot before) (hi : s.fsm.state = .idle)
    (hf : s.ends.fetch p = true)
    (hu : p = .one → s.ends.fetch .two = true → s.indexEqual = false) :
    s.names (s.missSlot p) = some (s.lineOf p) :=
  names_eq_some_iff.mpr
    ⟨filling_of_ne (by rw [hi]; simp), entry_of_fetch h hf hu, rfl⟩

/-- The line of a refill that is over. -/
theorem located_of_fetch {p : Port} (h : s.Sound before) (hg : s.Gone) (hi : s.fsm.state = .idle)
    (hf : s.ends.fetch p = true) (o : Offset) : s.Located ⟨s.missSlot p, o⟩ (s.lineOf p) := by
  have hfill (k : Slot) : s.filling k = false := filling_of_ne (by rw [hi]; simp)
  by_cases hu : p = .one ∧ s.ends.fetch .two = true ∧ s.indexEqual = true
  swap
  · refine Or.inl (names_missSlot h.snapshot hi hf fun hp h2 => ?_)
    rw [Bool.eq_false_iff]
    exact fun hie => hu ⟨hp, h2, hie⟩
  -- the younger refill has restored the entry, which was not valid
  obtain ⟨rfl, h2, hie⟩ := hu
  have hentry := entry_of_undone h.snapshot h2 hie (missWay_ne h hf h2 hie)
  have hinvalid := hg hf h2 hie
  refine Or.inr ⟨?_, fun k hk => ?_⟩
  · change s.names (s.missSlot .one) = none
    rw [names, hfill, if_neg Bool.false_ne_true]
    change (if (s.metaRam (s.index .one) (s.missWay .one)).valid then _ else none) = none
    rw [hentry, hinvalid]
    rfl
  · obtain ⟨-, he, hk2⟩ := names_eq_some_iff.mp hk
    have hindex : s.index .one = s.index .two := beq_iff_eq.mp hie
    -- the set is that of the younger refill
    rw [h.snapshot.metaRam, tagsNow, afterFetch, h2, if_pos rfl, hk2, lineOf, hindex,
      Function.update_self] at he
    by_cases hw : k.line = s.missWay .two
    · rw [hw, fetchedSet_self] at he
      have ht : tagOf (s.req .two).addr = tagOf (s.req .one).addr := congrArg Info.tag he
      exact lineOf_other_ne (h.snapshot.fetched .one hf) (h.snapshot.fetched .two h2)
        (Prod.ext ht.symm hindex)
    · have hmiss := hit_metaR h.snapshot (h.snapshot.fetched .one hf)
      rw [hit_eq_false] at hmiss
      rw [fetchedSet, Function.update_of_ne hw, h.snapshot.metaR, ← hindex,
        ← h.snapshot.metaR .one] at he
      exact hmiss k.line (by rw [he]) (by rw [he])

/-- The slot of a request that hits. -/
theorem names_hitSlot {p : Port} (h : s.Snapshot before) (hi : s.fsm.state = .idle)
    (hh : (s.cacheHandle.side p).hit = true) : s.names (s.hitSlot p) = some (s.lineOf p) := by
  have hfill : s.filling (s.hitSlot p) = false := filling_of_ne (by rw [hi]; simp)
  have hkept (q : Port) (hq : s.ends.fetch q = true) : s.hitSlot p ≠ s.missSlot q := by
    intro heq
    have hmq := h.fetched q hq
    have hqp : p = q.other := by
      cases p <;> cases q <;> first | rfl | (rw [hit_of_misses hmq] at hh; cases hh)
    subst hqp
    have hindex : s.index q.other = s.index q := congrArg Slot.index heq
    have hie : s.indexEqual = true := by
      cases q with
      | one => exact beq_iff_eq.mpr hindex.symm
      | two => exact beq_iff_eq.mpr hindex
    have hline : (s.cacheHandle.side q.other).hitLine = s.missWay q := congrArg Slot.line heq
    rw [h.avoids q hq hie hh] at hline
    exact absurd hline (by simp)
  refine names_eq_some_iff.mpr ⟨hfill, ?_, rfl⟩
  rw [h.hit] at hh
  have hentry := hitLine_spec hh
  rw [entry_of_kept h hkept]
  change before (s.index p) (s.cacheHandle.side p).hitLine = _
  rw [h.hitLine, hentry]
  rfl

/-- The slot of a request that misses. -/
theorem accessAddr_of_miss {p : Port} (hh : (s.cacheHandle.side p).hit = false) :
    s.accessAddr p = ⟨⟨s.replaceLineReg p, s.index p⟩, offsetOf (s.req p).addr⟩ := by
  rw [accessAddr, hh, if_neg Bool.false_ne_true]

theorem accessAddr_of_hit {p : Port} (hh : (s.cacheHandle.side p).hit = true) :
    s.accessAddr p = ⟨s.hitSlot p, offsetOf (s.req p).addr⟩ := by
  rw [accessAddr, hh, if_pos rfl]

theorem missWay_of_idle {p : Port} (hi : s.fsm.state = .idle) (hf : s.ends.fetch p = true) :
    s.missWay p = s.replaceLineReg p := by
  rw [missWay, hf, hi]
  rfl

/-- A valid request without its own refill that does not hit shares the line of the older
one. -/
theorem sameLine_of_performs {p : Port} (hp : s.performs p = true)
    (hh : (s.cacheHandle.side p).hit = false) (hm : s.misses p = false) :
    p = .two ∧ s.sameLine = true := by
  simp only [performs, Bool.and_eq_true, Bool.not_eq_true'] at hp
  rw [misses, hp.1, hp.2, hh] at hm
  cases p with
  | one => simp at hm
  | two => exact ⟨rfl, by simpa using hm⟩

theorem lineOf_congr {t : State} (h : t.cacheHandle = s.cacheHandle) (p : Port) :
    t.lineOf p = s.lineOf p :=
  Prod.ext (congrArg (fun r : DBusReq => tagOf r.addr) (req_congr h p)) (index_congr h p)

theorem line_of_sameLine (h : s.sameLine = true) : s.lineOf .one = s.lineOf .two := by
  simp only [sameLine, Bool.and_eq_true, beq_iff_eq] at h
  have hline := line_eq_iff.mp h.1.1
  exact Prod.ext hline.1 hline.2

/-- Requests for one line hit together. -/
theorem hit_of_line_eq (h : s.Snapshot before) (hl : s.lineOf .one = s.lineOf .two) :
    (s.cacheHandle.side .one).hit = (s.cacheHandle.side .two).hit ∧
      (s.cacheHandle.side .one).hitLine = (s.cacheHandle.side .two).hitLine := by
  have ht : tagOf (s.req .one).addr = tagOf (s.req .two).addr := congrArg Prod.fst hl
  have hk : s.index .one = s.index .two := congrArg Prod.snd hl
  rw [h.hit, h.hit, h.hitLine, h.hitLine, ht, hk]
  exact ⟨rfl, rfl⟩

/-- A pair that the bus has served, or that hits. -/
theorem Phase.accesses (h : s.Phase) (hen : s.en = true) :
    s.Accesses ∨ s.cacheHandle = default := by
  cases h with
  | ready _ hi _ _ hd =>
      rcases hd with ⟨hon, hoper, -⟩ | hd
      · exact Or.inl ⟨hi, by rw [hon, Bool.true_or], hoper⟩
      · exact Or.inr hd
  | finished _ hi hf hoper _ _ => exact Or.inl ⟨hi, by rw [hf, Bool.or_true], hoper⟩
  | think hb _ _ _ => rw [hb.en] at hen; cases hen
  | writeback _ hb _ _ _ _ => rw [hb.en] at hen; cases hen
  | fetch _ hb _ _ _ => rw [hb.en] at hen; cases hen
  | uncache _ hb _ _ _ => rw [hb.en] at hen; cases hen

/-- A request that misses has been served when the pair is over. -/
theorem Phase.served_of_miss {p : Port} (h : s.Phase) (hen : s.en = true)
    (hp : (s.req p).valid = true) (hh : (s.cacheHandle.side p).hit = false) :
    s.finishReg = true ∧ ∀ q, s.Served q := by
  cases h with
  | ready _ _ _ _ hd =>
      rcases hd with ⟨-, -, hd⟩ | hd
      · rw [(hd p hp).1] at hh
        cases hh
      · rw [req, hd] at hp
        cases hp
  | finished _ _ hf _ _ hserved => exact ⟨hf, hserved⟩
  | think hb _ _ _ => rw [hb.en] at hen; cases hen
  | writeback _ hb _ _ _ _ => rw [hb.en] at hen; cases hen
  | fetch _ hb _ _ _ => rw [hb.en] at hen; cases hen
  | uncache _ hb _ _ _ => rw [hb.en] at hen; cases hen

/-- The younger request for a line that the older one fetches uses the same slot. -/
theorem twin_slot (h : s.Sound before) (hen : s.en = true) (hp : s.performs .two = true)
    (hsl : s.sameLine = true) (hh : (s.cacheHandle.side .two).hit = false) :
    s.ends.fetch .one = true ∧ s.replaceLineReg .two = s.replaceLineReg .one := by
  have hvalid : s.performs .one = true := by
    simp only [sameLine, Bool.and_eq_true, Bool.not_eq_true'] at hsl
    rw [performs, hsl.1.2, hsl.2]
    rfl
  have hh1 : (s.cacheHandle.side .one).hit = false := by
    rw [(hit_of_line_eq h.snapshot (line_of_sameLine hsl)).1, hh]
  simp only [performs, Bool.and_eq_true, Bool.not_eq_true'] at hvalid hp
  have hm : s.misses .one = true := by
    rw [misses, hvalid.1, hvalid.2, hh1]
    rfl
  obtain ⟨hfin, hserved⟩ := h.phase.served_of_miss hen hvalid.1 hh1
  refine ⟨(hserved .one).fetch hm, h.snapshot.twin hfin hsl hm ?_⟩
  rw [bypasses, hp.1, hp.2]
  rfl

/-- With the access every request finds its line. -/
theorem located (h : s.Sound before) (hg : s.Gone) (hen : s.en = true) {p : Port}
    (hp : s.performs p = true) : s.Located (s.accessAddr p) (s.lineOf p) := by
  have hi := (h.phase.accepts hen).idle
  have hvalid : (s.req p).valid = true := by
    simp only [performs, Bool.and_eq_true] at hp
    exact hp.1
  cases hh : (s.cacheHandle.side p).hit with
  | true =>
      rw [accessAddr_of_hit hh]
      exact Or.inl (names_hitSlot h.snapshot hi hh)
  | false =>
      rw [accessAddr_of_miss hh]
      cases hm : s.misses p with
      | true =>
          have hf := ((h.phase.served_of_miss hen hvalid hh).2 p).fetch hm
          rw [← missWay_of_idle hi hf]
          exact located_of_fetch h hg hi hf _
      | false =>
          obtain ⟨rfl, hsl⟩ := sameLine_of_performs hp hh hm
          obtain ⟨hf, htwin⟩ := twin_slot h hen hp hsl hh
          have hline := line_of_sameLine hsl
          have hindex : s.index .one = s.index .two := congrArg Prod.snd hline
          rw [htwin, ← missWay_of_idle hi hf, ← hline, ← hindex]
          exact located_of_fetch h hg hi hf _

theorem accessAddr_of_addrSame (h : s.Sound before) (hen : s.en = true)
    (hs : s.addrSame = true) : s.accessAddr .one = s.accessAddr .two := by
  have hp := performs_of_addrSame hs
  simp only [addrSame, Bool.and_eq_true, beq_iff_eq, Bool.not_eq_true'] at hs
  obtain ⟨hline, hoff⟩ := word_eq_iff.mp hs.1.1
  have hlines : s.lineOf .one = s.lineOf .two := Prod.ext hline.1 hline.2
  have hindex : s.index .one = s.index .two := hline.2
  obtain ⟨hhit, hway⟩ := hit_of_line_eq h.snapshot hlines
  cases hh : (s.cacheHandle.side .two).hit with
  | true => rw [accessAddr_of_hit hh, accessAddr_of_hit (hhit.trans hh), hitSlot, hitSlot, hway,
      hindex, hoff]
  | false =>
      have hsl : s.sameLine = true := by
        rw [sameLine, hs.1.2.1, hs.2.1, beq_iff_eq.mpr (line_eq_iff.mpr hline)]
        rfl
      rw [accessAddr_of_miss hh, accessAddr_of_miss (hhit.trans hh),
        (twin_slot h hen (hp .two) hsl hh).2, hindex, hoff]

theorem wordAddr_req (p : Port) :
    wordAddr (s.req p).addr = (s.lineOf p).1 ++ (s.lineOf p).2 ++ offsetOf (s.req p).addr :=
  word_eq_append _

/-- The words of a line after a store. -/
theorem lineWords_storeWord {ref : BitVec 30 → Word} {p : Port} (l : Tag × Index) (o : Offset) :
    lineWords (storeWord ref (s.req p)) l o =
      if l = s.lineOf p ∧ o = offsetOf (s.req p).addr then
        Lanes.maskedWrite (getMask (s.req p).strobe)
          (lineWords ref (s.lineOf p) (offsetOf (s.req p).addr)) (s.req p).data
      else lineWords ref l o := by
  rw [storeWord, wordAddr_req, lineWords_update]
  rfl

theorem storeRam_apply {p : Port} {m : DataAddr → Word} (hp : s.performs p = true) (k : Slot)
    (o : Offset) : s.storeRam p m ⟨k, o⟩ =
      if k = (s.accessAddr p).slot ∧ o = offsetOf (s.req p).addr then
        Lanes.maskedWrite (getMask (s.req p).strobe)
          (m ⟨(s.accessAddr p).slot, offsetOf (s.req p).addr⟩) (s.req p).data
      else m ⟨k, o⟩ := by
  rw [storeRam, hp, if_pos rfl, Function.update_apply]
  have hiff : (⟨k, o⟩ : DataAddr) = s.accessAddr p ↔
      k = (s.accessAddr p).slot ∧ o = offsetOf (s.req p).addr :=
    DataAddr.mk.injEq _ _ _ _ ▸ Iff.rfl
  by_cases hk : k = (s.accessAddr p).slot ∧ o = offsetOf (s.req p).addr
  · rw [if_pos (hiff.mpr hk), if_pos hk]
    rfl
  · rw [if_neg fun hn => hk (hiff.mp hn), if_neg hk]

/-- A store in the slot of a line is a store in the line. -/
theorem copies_storeRam {p : Port} {m : DataAddr → Word} {ref : BitVec 30 → Word}
    {names : Slot → Option (Tag × Index)}
    (hc : Copies names (fun k o => m ⟨k, o⟩) (lineWords ref)) (hd : Distinct names)
    (hl : s.performs p = true → names (s.accessAddr p).slot = some (s.lineOf p) ∨
      (names (s.accessAddr p).slot = none ∧ ∀ k, names k ≠ some (s.lineOf p))) :
    Copies names (fun k o => s.storeRam p m ⟨k, o⟩) (lineWords (s.storedBy p ref)) := by
  cases hp : s.performs p with
  | false =>
      rw [storedBy, storeRam, hp]
      exact hc
  | true =>
      rw [storedBy, hp, if_pos rfl]
      rcases hl hp with hn | ⟨hn, hno⟩
      · refine hc.store hd hn (o := offsetOf (s.req p).addr) ?_ (fun k o hk => ?_)
          fun l o hlo => ?_
        · rw [storeRam_apply hp, if_pos ⟨rfl, rfl⟩, lineWords_storeWord, if_pos ⟨rfl, rfl⟩]
          exact congrArg (fun w => Lanes.maskedWrite _ w _) (hc _ _ hn _)
        · rw [storeRam_apply hp, if_neg hk]
        · rw [lineWords_storeWord, if_neg hlo]
      · refine hc.stray hn hno (fun k hk o => ?_) fun l hlo o => ?_
        · rw [storeRam_apply hp, if_neg fun h => hk h.1]
        · rw [lineWords_storeWord, if_neg fun h => hlo h.1]

/-! ### The data RAM while a pair is served -/

theorem dataRamNext_of_busy {i : Input} (hb : s.Busy) (hs : ∀ p, s.fsm.state ≠ .fetch p)
    (hst : s.fsm.state ≠ .store) : s.dataRamNext i = s.dataRam := by
  rw [dataRamNext, port1En, hb.dreqEn, hb.finishReg, Bool.or_false, Bool.false_and, Bool.false_and,
    ramWrite_off]
  by_cases hi : s.fsm.state = .idle
  · rw [port2En, if_pos hi, hb.dreqEn, hb.finishReg, Bool.or_false, Bool.false_and, ramWrite_off]
  · have hw : s.port2Wen = 0#4 := by
      rw [port2Wen]
      split
      · exact absurd (by assumption) hi
      · exact absurd (by assumption) (hs _)
      · exact absurd (by assumption) hst
      · rfl
    rw [hw, ramWrite_zero]

theorem dataRamNext_of_fetch {i : Input} {p : Port} (hb : s.Busy) (hs : s.fsm.state = .fetch p) :
    s.dataRamNext i = Function.update s.dataRam s.fsm.missAddr i.dcresp.data := by
  have hmask : getMask 15#4 = BitVec.allOnes 32 := by decide
  rw [dataRamNext, port1En, hb.dreqEn, hb.finishReg, Bool.or_false, Bool.false_and, Bool.false_and,
    ramWrite_off, port2En, port2Wen, port2Addr, port2DataW, hs, if_neg (by simp),
    if_neg (by simp), ramWrite, if_pos rfl, hmask, Lanes.maskedWrite_allOnes]

/-- No slot names the line that is being fetched. -/
theorem names_ne_fetched {p : Port} (h : s.Sound before) (hs : s.fsm.state = .fetch p)
    (k : Slot) : s.names k ≠ some (s.lineOf p) := by
  intro hk
  obtain ⟨hfill, he, hindex⟩ := names_eq_some_iff.mp hk
  obtain ⟨hm, ht, -⟩ := h.phase.misses_of_fetch hs
  have hslot := h.snapshot.missAddr p (Or.inl hs)
  rw [filling_of_fetch hs, hslot, beq_eq_false_iff_ne] at hfill
  -- the set as it was read does not have the line
  have hbefore (hb : before k.index k.line = ⟨true, (s.lineOf p).1⟩) : False := by
    have hmiss := hit_metaR h.snapshot hm
    rw [h.snapshot.metaR, hit_eq_false] at hmiss
    rw [hindex] at hb
    change before (s.index p) k.line = _ at hb
    exact hmiss k.line (by rw [hb]) (by rw [hb]; rfl)
  by_cases hkept : ∀ q, s.ends.fetch q = true → k ≠ s.missSlot q
  · exact hbefore (entry_of_kept h.snapshot hkept ▸ he)
  · push Not at hkept
    obtain ⟨q, hf, hkq⟩ := hkept
    have hpq : p = .two ∧ q = .one := by
      cases p with
      | two =>
          cases q with
          | one => exact ⟨rfl, rfl⟩
          | two => exact absurd hkq hfill
      | one =>
          cases q with
          | one => exact absurd hkq hfill
          | two =>
              rw [h.phase.untouched_of_one hs] at hf
              cases hf
    obtain ⟨rfl, rfl⟩ := hpq
    have hi : s.index .one = s.index .two := by
      have hki : k.index = s.index .one := congrArg Slot.index hkq
      exact hki.symm.trans hindex
    have hm1 := h.snapshot.fetched .one hf
    rw [hkq] at he
    change s.metaRam (s.index .one) (s.missWay .one) = _ at he
    cases h2 : s.ends.fetch .two with
    | false =>
        rw [entry_of_fetch h.snapshot hf (fun _ hn => by rw [h2] at hn; cases hn)] at he
        have htag : tagOf (s.req .one).addr = tagOf (s.req .two).addr := congrArg Info.tag he
        exact lineOf_other_ne hm1 hm (Prod.ext htag hi)
    | true =>
        have hie : s.indexEqual = true := beq_iff_eq.mpr hi
        rw [entry_of_undone h.snapshot h2 hie (missWay_ne h hf h2 hie)] at he
        have hmiss := hit_metaR h.snapshot hm1
        rw [hit_eq_false] at hmiss
        have hbe : before (s.index .one) (s.missWay .one) = ⟨true, (s.lineOf .two).1⟩ := by
          rw [← h.snapshot.metaR .one]
          exact he
        refine hbefore ?_
        rw [hkq]
        exact hbe

/-- An edge of a refill gives no other slot a new name, unless it restores a valid entry. -/
theorem names_of_fetch_step {i : Input} {p : Port} {l : Tag × Index} (h : s.Sound before)
    (hs : s.fsm.state = .fetch p)
    (hkept : p = .two → s.misses .one = true → s.indexEqual = true →
      ((s.cacheHandle.side .one).metaR (s.replaceLineReg .one)).valid = false)
    (hk : k ≠ s.fsm.missAddr.slot) (hn : (s.next i).metaRam k.index k.line = ⟨true, l.1⟩)
    (hindex : k.index = l.2) : s.names k = some l := by
  obtain ⟨hm, ht, hb⟩ := h.phase.misses_of_fetch hs
  have hslot := h.snapshot.missAddr p (Or.inl hs)
  refine names_eq_some_iff.mpr ⟨?_, ?_, hindex⟩
  · rw [filling_of_fetch hs, beq_eq_false_iff_ne]
    exact hk
  rw [metaRam_fetch hb hs] at hn
  by_cases hi : k.index = s.index p
  swap
  · rw [Function.update_of_ne hi] at hn
    exact hn
  have hw : k.line ≠ s.missWay p := by
    intro hl
    refine hk (hslot ▸ ?_)
    obtain ⟨kl, ki⟩ := k
    exact Slot.mk.injEq .. ▸ ⟨hl, hi⟩
  rw [hi, Function.update_self, fetchedSet, Function.update_of_ne hw, h.snapshot.metaR, ← hi] at hn
  rw [entry_of_kept h.snapshot, hn]
  intro q hf hkq
  cases p with
  | one =>
      cases q with
      | one => exact hw (congrArg Slot.line hkq)
      | two =>
          rw [h.phase.untouched_of_one hs] at hf
          cases hf
  | two =>
      cases q with
      | two => exact hw (congrArg Slot.line hkq)
      | one =>
          have hindex1 : k.index = s.index .one := congrArg Slot.index hkq
          have hline1 : k.line = s.missWay .one := congrArg Slot.line hkq
          have hie : s.indexEqual = true := beq_iff_eq.mpr (hindex1.symm.trans hi)
          have hway : s.missWay .one = s.replaceLineReg .one := by
            rw [missWay, hf, hs]
            rfl
          have hinvalid := hkept rfl (h.snapshot.fetched .one hf) hie
          rw [← hway, ← hline1, h.snapshot.metaR, ← hindex1, hn] at hinvalid
          cases hinvalid

end State

namespace System

variable {t : System} {a : Access}

/-- Requests as the load and store unit sends them, invalid ones without byte enables; and the
refill of the younger request restores no valid entry. -/
structure Orderly (t : System) (a : Access) : Prop where
  lanes : ∀ p, CleanLanes (a.dreq p)
  silent : ∀ p, (a.dreq p).valid = false → a.isUncached p = false → (a.dreq p).strobe = 0#4
  kept : t.cache.fsm.state = .fetch .two → t.cache.misses .one = true →
    t.cache.indexEqual = true →
    ((t.cache.cacheHandle.side .one).metaR (t.cache.replaceLineReg .one)).valid = false

/-- Every named slot is in place. -/
structure Agreed (t : System) : Prop where
  sound : t.cache.Sound t.before
  paced : t.Paced
  tidy : t.cache.Tidy
  gone : t.cache.Gone
  copies : Copies t.cache.names t.cache.words (lineWords t.held)
  filled : ∀ p, t.cache.fsm.state = .fetch p → ∀ o < t.bus.beat,
    t.cache.words t.cache.fsm.missAddr.slot o = lineWords t.held (t.cache.lineOf p) o

theorem sound_step (h : t.cache.Sound t.before) : (t.step a).cache.Sound (t.step a).before :=
  h.next rfl polite_input

theorem tidy_step (h : t.cache.Tidy) (ho : t.Orderly a) : (t.step a).cache.Tidy := by
  cases hen : t.cache.en with
  | true =>
      have hh : (t.step a).cache.cacheHandle = t.cache.handleNext (t.input a) := by
        change (if t.cache.en then t.cache.handleNext (t.input a) else t.cache.cacheHandle) = _
        rw [hen, if_pos rfl]
      refine ⟨fun p => ?_, fun p hv hu => ?_⟩
      · rw [State.req, hh]
        exact ho.lanes p
      · rw [State.req, hh] at hv ⊢
        rw [hh] at hu
        exact ho.silent p hv hu
  | false =>
      have hh := State.next_cacheHandle (i := t.input a) hen
      refine ⟨fun p => ?_, fun p hv hu => ?_⟩
      · change CleanLanes ((t.cache.next (t.input a)).req p)
        rw [State.req, hh]
        exact h.lanes p
      · change ((t.cache.next (t.input a)).req p).strobe = _
        change ((t.cache.next (t.input a)).req p).valid = _ at hv
        change ((t.cache.next (t.input a)).cacheHandle.side p).isUncached = _ at hu
        rw [State.req, hh] at hv ⊢
        rw [hh] at hu
        exact h.silent p hv hu

theorem gone_step (h : t.Agreed) (ho : t.Orderly a) : (t.step a).cache.Gone := by
  intro hf1 hf2 hie
  change (t.cache.next (t.input a)).ends.fetch .one = true at hf1
  change (t.cache.next (t.input a)).ends.fetch .two = true at hf2
  cases hen : t.cache.en with
  | true =>
      rw [((h.sound.phase.accepts hen).untouched .two).fetch] at hf2
      cases hf2
  | false =>
      have hb : t.cache.Busy := h.sound.phase.busy hen
      have hh := State.next_cacheHandle (i := t.input a) hb.en
      have hie' : t.cache.indexEqual = true := by
        rw [← hie]
        exact (State.indexEqual_congr hh).symm
      have hnot : t.cache.fsm.state ≠ .fetch .one := by
        intro hs
        rw [hb.ends_fetch, hs, h.sound.phase.untouched_of_one hs] at hf2
        cases hf2
      rw [hb.ends_fetch, show (t.cache.fsm.state == .fetch .one) = false by simpa using hnot,
        Bool.false_or] at hf1
      have hm1 := h.sound.snapshot.fetched .one hf1
      have hway : (t.cache.next (t.input a)).missWay .one = t.cache.missWay .one :=
        State.missWay_next h.sound.phase hb polite_input hm1 (by simp [hf1])
      change (((t.cache.next (t.input a)).cacheHandle.side .one).metaR
        ((t.cache.next (t.input a)).missWay .one)).valid = false
      rw [hh, hway]
      rw [hb.ends_fetch, Bool.or_eq_true, beq_iff_eq] at hf2
      rcases hf2 with hs | hf2
      · have hreg : t.cache.missWay .one = t.cache.replaceLineReg .one := by
          rw [State.missWay, hf1, hs]
          rfl
        rw [hreg]
        exact ho.kept hs hm1 hie'
      · exact h.gone hf1 hf2 hie'

/-! ### The edge of an access -/

section Access

variable (h : t.Agreed) (hen : t.cache.en = true)
include h hen

theorem names_step_of_access : (t.step a).cache.names = t.cache.names := by
  have ha := h.sound.phase.accepts hen
  have hmeta : (t.cache.next (t.input a)).metaRam = t.cache.metaRam :=
    State.metaRam_same ha.oper (by simp [ha.idle]) (by simp [ha.idle])
  have hidle : (t.step a).cache.fsm.state = .idle := by rw [fsm_of_accept hen, ha.idle]
  funext k
  rw [State.names, State.names, State.filling_of_ne (by rw [hidle]; simp),
    State.filling_of_ne (by rw [ha.idle]; simp)]
  change (if false = true then none
    else if ((t.cache.next (t.input a)).metaRam k.index k.line).valid then _ else _) = _
  rw [show (t.step a).cache.metaRam = t.cache.metaRam from hmeta, hmeta]

theorem heldNext_of_access :
    t.heldNext a = t.cache.storedBy .two (t.cache.storedBy .one t.held) := by
  rw [heldNext, (h.sound.phase.accepts hen).idle]
  dsimp only
  rw [hen, if_pos rfl]

theorem dataRamNext_of_access : t.cache.dataRamNext (t.input a) =
    t.cache.storeRam .two (t.cache.storeRam .one t.cache.dataRam) := by
  rcases h.sound.phase.accesses hen with ha | hd
  · exact State.dataRamNext_of_accesses ha h.tidy (State.accessAddr_of_addrSame h.sound hen)
  · have hp (p : Port) : t.cache.performs p = false := by
      rw [State.performs, State.req, hd]
      rfl
    have hoper : (t.cache.cacheHandle.cacheOper == .req) = false := by
      rw [hd]
      rfl
    have hi := (h.sound.phase.accepts hen).idle
    rw [State.storeRam, hp, State.storeRam, hp, State.dataRamNext, State.port1Wen, State.port2Wen,
      hi]
    dsimp only
    rw [hoper, if_neg Bool.false_ne_true, if_neg Bool.false_ne_true, if_neg Bool.false_ne_true,
      if_neg Bool.false_ne_true, State.ramWrite_zero, State.ramWrite_zero]

theorem Agreed.copies_access :
    Copies (t.step a).cache.names (t.step a).cache.words (lineWords (t.step a).held) := by
  have hd := State.distinct_names h.sound.snapshot
  rw [names_step_of_access h hen]
  change Copies t.cache.names (fun k o => t.cache.dataRamNext (t.input a) ⟨k, o⟩)
    (lineWords (t.heldNext a))
  rw [heldNext_of_access h hen, dataRamNext_of_access h hen]
  have hone := State.copies_storeRam (p := .one) h.copies hd
    fun hp => State.located h.sound h.gone hen hp
  exact State.copies_storeRam (p := .two) hone hd fun hp => State.located h.sound h.gone hen hp

theorem Agreed.step_access (ho : t.Orderly a) : (t.step a).Agreed := by
  have ha := h.sound.phase.accepts hen
  refine ⟨sound_step h.sound, h.paced.step h.sound, tidy_step h.tidy ho, gone_step h ho,
    h.copies_access hen, fun p hs => ?_⟩
  rw [fsm_of_accept hen, ha.idle] at hs
  cases hs

end Access

/-! ### The edge of a service without a refill -/

section Waiting

variable (h : t.Agreed) (hb : t.cache.Busy) (hs : ∀ p, t.cache.fsm.state ≠ .fetch p)
include h hb hs

omit h in
theorem heldNext_of_waiting : t.heldNext a = t.held := by
  rw [heldNext]
  split
  · exact absurd (by assumption) (hs _)
  · rw [hb.en, if_neg Bool.false_ne_true]

theorem words_step_of_waiting : (t.step a).cache.words = t.cache.words := by
  funext k o
  change t.cache.dataRamNext (t.input a) _ = _
  rw [State.dataRamNext_of_busy hb hs h.sound.phase.not_store]
  rfl

/-- A slot loses its name when a refill starts there. -/
theorem names_step_of_waiting {k : Slot} {l : Tag × Index}
    (hk : (t.step a).cache.names k = some l) : t.cache.names k = some l := by
  obtain ⟨-, he, hi⟩ := State.names_eq_some_iff.mp hk
  have hmeta : (t.cache.next (t.input a)).metaRam = t.cache.metaRam :=
    State.metaRam_same (Or.inl hb.oper) hs h.sound.phase.not_store
  refine State.names_eq_some_iff.mpr ⟨State.filling_of_ne hs, ?_, hi⟩
  rw [← hmeta]
  exact he

/-- A refill starts with the first beat. -/
theorem beat_of_refill {p : Port} (hs' : (t.step a).cache.fsm.state = .fetch p) :
    (t.step a).bus.beat = 0#4 := by
  cases h.sound.phase with
  | ready en _ _ _ _ => rw [hb.en] at en; cases en
  | finished en _ _ _ _ _ => rw [hb.en] at en; cases en
  | think _ hi _ _ =>
      rw [bus_step_of_quiet (by simp [State.dcreq, hi])]
      exact h.paced.single hs (by rw [hi]; simp)
  | writeback q _ hw _ _ _ =>
      have hfsm := hb.fsm_writeback (i := t.input a) hw
      change (t.cache.next (t.input a)).fsm.state = _ at hs'
      rw [hfsm, State.fsmWriteback] at hs'
      dsimp only at hs'
      rw [beat_step]
      split at hs'
      · rename_i hr
        split at hs'
        · rename_i hl
          exact (if_pos hr).trans (if_pos hl)
        · cases hs'
      · rw [hw] at hs'
        cases hs'
  | fetch q _ hq _ _ => exact absurd hq (hs q)
  | uncache q _ hu _ _ =>
      have hfsm := hb.fsm_uncache (i := t.input a) hu
      change (t.cache.next (t.input a)).fsm.state = _ at hs'
      rw [hfsm] at hs'
      dsimp only at hs'
      split at hs' <;> cases hs'

theorem Agreed.step_waiting (ho : t.Orderly a) : (t.step a).Agreed := by
  refine ⟨sound_step h.sound, h.paced.step h.sound, tidy_step h.tidy ho, gone_step h ho, ?_,
    fun p hs' o hlt => ?_⟩
  · rw [words_step_of_waiting h hb hs]
    change Copies _ _ (lineWords (t.heldNext a))
    rw [heldNext_of_waiting hb hs]
    exact h.copies.mono fun k l hk => names_step_of_waiting h hb hs hk
  · rw [beat_of_refill h hb hs hs'] at hlt
    exact absurd hlt (by simp)

end Waiting

/-! ### The edge of a refill -/

section Refill

variable {p : Port} (h : t.Agreed) (hs : t.cache.fsm.state = .fetch p)
include h hs

omit h in
theorem heldNext_of_refill : t.heldNext a =
    if (t.resp a).ready then
      Function.update t.held ((t.cache.lineOf p).1 ++ (t.cache.lineOf p).2 ++ t.bus.beat)
        (t.resp a).data
    else t.held := by
  rw [heldNext, hs, word_fetch hs]
  rfl

omit h in
theorem words_step_of_refill (hb : t.cache.Busy) (k : Slot) (o : Offset) :
    (t.step a).cache.words k o =
      if k = t.cache.fsm.missAddr.slot ∧ o = t.cache.fsm.missAddr.offset then (t.resp a).data
      else t.cache.words k o := by
  change t.cache.dataRamNext (t.input a) _ = _
  rw [State.dataRamNext_of_fetch hb hs, Function.update_apply]
  have hiff : (⟨k, o⟩ : DataAddr) = t.cache.fsm.missAddr ↔
      k = t.cache.fsm.missAddr.slot ∧ o = t.cache.fsm.missAddr.offset := by
    cases t.cache.fsm.missAddr
    exact DataAddr.mk.injEq _ _ _ _ ▸ Iff.rfl
  by_cases hk : (⟨k, o⟩ : DataAddr) = t.cache.fsm.missAddr
  · rw [if_pos hk, if_pos (hiff.mp hk)]
    rfl
  · rw [if_neg hk, if_neg fun hn => hk (hiff.mpr hn)]
    rfl

omit h in
theorem lineWords_step_of_refill (l : Tag × Index) (o : Offset) :
    lineWords (t.heldNext a) l o =
      if (t.resp a).ready = true ∧ l = t.cache.lineOf p ∧ o = t.bus.beat then (t.resp a).data
      else lineWords t.held l o := by
  rw [heldNext_of_refill hs]
  cases (t.resp a).ready with
  | false =>
      rw [if_neg Bool.false_ne_true, if_neg fun hn => Bool.false_ne_true hn.1]
  | true =>
      rw [if_pos rfl, lineWords_update]
      simp only [true_and]

/-- What is on the bus reaches the slot of the refill and its line, and nothing else. -/
theorem copies_of_refill (hb : t.cache.Busy) :
    Copies t.cache.names (t.step a).cache.words (lineWords (t.heldNext a)) := by
  refine h.copies.stray (s := t.cache.fsm.missAddr.slot) (l := t.cache.lineOf p) ?_
    (State.names_ne_fetched h.sound hs) (fun k hk o => ?_) fun l hl o => ?_
  · rw [State.names, State.filling_of_fetch hs, beq_self_eq_true, if_pos rfl]
  · rw [words_step_of_refill hs hb, if_neg fun hn => hk hn.1]
  · rw [lineWords_step_of_refill hs, if_neg fun hn => hl hn.2.1]

/-- The words before the next beat have arrived. -/
theorem filled_of_refill (hb : t.cache.Busy) {o : Offset}
    (ho : o < t.bus.beat ∨ ((t.resp a).ready = true ∧ o = t.bus.beat)) :
    (t.step a).cache.words t.cache.fsm.missAddr.slot o =
      lineWords (t.heldNext a) (t.cache.lineOf p) o := by
  have hbeat := h.paced.fetch p hs
  rw [words_step_of_refill hs hb, lineWords_step_of_refill hs, ← hbeat]
  rcases ho with ho | ⟨hr, rfl⟩
  · have hne : o ≠ t.bus.beat := fun hn => BitVec.lt_irrefl _ (hn ▸ ho)
    rw [if_neg fun hn => hne hn.2, if_neg fun hn => hne hn.2.2]
    exact h.filled p hs o ho
  · rw [if_pos ⟨rfl, rfl⟩, if_pos ⟨hr, rfl, rfl⟩]

theorem names_step_of_refill (ho : t.Orderly a) {k : Slot} {l : Tag × Index}
    (hk : k ≠ t.cache.fsm.missAddr.slot) (hn : (t.step a).cache.names k = some l) :
    t.cache.names k = some l := by
  obtain ⟨-, he, hi⟩ := State.names_eq_some_iff.mp hn
  exact State.names_of_fetch_step h.sound hs (fun hp => ho.kept (hp ▸ hs)) hk he hi

theorem Agreed.step_refill (ho : t.Orderly a) : (t.step a).Agreed := by
  obtain ⟨hm, -, hb⟩ := h.sound.phase.misses_of_fetch hs
  have hh := State.next_cacheHandle (i := t.input a) hb.en
  have hline : (t.step a).cache.lineOf p = t.cache.lineOf p := State.lineOf_congr hh p
  have hcopies := copies_of_refill (a := a) h hs hb
  have hslot : (t.step a).cache.fsm.missAddr.slot = t.cache.fsm.missAddr.slot := by
    change (t.cache.next (t.input a)).fsm.missAddr.slot = _
    rw [hb.fsm_fetch hs, State.fsmFetch]
    split <;> rfl
  refine ⟨sound_step h.sound, h.paced.step h.sound, tidy_step h.tidy ho, gone_step h ho, ?_, ?_⟩
  · cases hl : (t.resp a).last with
    | false =>
        have hs' : (t.step a).cache.fsm.state = .fetch p := hb.fetch_more hs hl
        refine hcopies.mono fun k l hk => ?_
        obtain ⟨hfill, -, -⟩ := State.names_eq_some_iff.mp hk
        rw [State.filling_of_fetch hs', hslot, beq_eq_false_iff_ne] at hfill
        exact names_step_of_refill h hs ho hfill hk
    | true =>
        have hs' : (t.step a).cache.fsm.state = .idle := hb.fetch_last hs hl polite_input
        refine hcopies.install (s := t.cache.fsm.missAddr.slot) (l := t.cache.lineOf p)
          (fun k hk l => names_step_of_refill h hs ho hk) ?_ fun o => ?_
        · have hmiss := h.sound.snapshot.missAddr p (Or.inl hs)
          refine State.names_eq_some_iff.mpr ⟨State.filling_of_ne (by rw [hs']; simp), ?_, ?_⟩
          · change (t.cache.next (t.input a)).metaRam _ _ = _
            rw [State.metaRam_fetch hb hs, hmiss]
            exact (congrFun (Function.update_self _ _ _) _).trans (State.fetchedSet_self p)
          · rw [hmiss]
            rfl
        · exact filled_of_refill h hs hb (arrived_of_last (dcreq_fetch hs).2.2.1 hl o)
  · intro q hq o hlt
    have hqp : q = p ∧ (t.resp a).last = false := by
      cases hl : (t.resp a).last with
      | false =>
          have hs' : (t.step a).cache.fsm.state = .fetch p := hb.fetch_more hs hl
          rw [hs'] at hq
          cases hq
          exact ⟨rfl, rfl⟩
      | true =>
          have hs' : (t.step a).cache.fsm.state = .idle := hb.fetch_last hs hl polite_input
          rw [hs'] at hq
          cases hq
    obtain ⟨rfl, hl⟩ := hqp
    rw [hslot, hline]
    exact filled_of_refill h hs hb (arrived_of_lt (dcreq_fetch hs).2.2.1 hl hlt)

end Refill

theorem Agreed.step (h : t.Agreed) (ho : t.Orderly a) : (t.step a).Agreed := by
  cases hen : t.cache.en with
  | true => exact h.step_access hen ho
  | false =>
      have hb := h.sound.phase.busy hen
      by_cases hs : ∃ p, t.cache.fsm.state = .fetch p
      · obtain ⟨p, hs⟩ := hs
        exact h.step_refill hs ho
      · exact h.step_waiting hb (fun p hp => hs ⟨p, hp⟩) ho

theorem agreed_reset (mem : BitVec 30 → Word) : (reset mem).Agreed := by
  refine ⟨State.sound_reset, paced_reset mem, ⟨fun _ => ?_, fun _ _ _ => rfl⟩, fun hf => ?_,
    Copies.of_none fun k => ?_, fun p hs => ?_⟩
  · exact (rfl : getMask 0#4 &&& 0#32 = 0#32)
  · cases hf
  · rfl
  · cases hs

/-- With the access of a pair: every valid way holds the words of the line that its tag names,
and the entries that no miss of the pair has replaced are those of its acceptance. -/
structure Agrees (t : System) (a : Access) : Prop where
  held : ∀ (k : Slot) (o : Offset), ((t.step a).cache.metaRam k.index k.line).valid = true →
    (t.step a).cache.dataRam ⟨k, o⟩ =
      (t.step a).held (((t.step a).cache.metaRam k.index k.line).tag ++ k.index ++ o)
  kept : ∀ k : Slot,
    (∀ p, t.cache.misses p = true → k ≠ ⟨t.cache.replaceLineReg p, t.cache.index p⟩) →
    (t.step a).cache.metaRam k.index k.line = t.before k.index k.line

theorem tags_and_data_agree (mem : BitVec 30 → Word) (as : List Access) (a : Access)
    (h : Along step Orderly (reset mem) as) (hen : (run step (reset mem) as).cache.en = true) :
    (run step (reset mem) as).Agrees a := by
  have hg : (run step (reset mem) as).Agreed :=
    h.invariant (fun _ _ hg ho => hg.step ho) (agreed_reset mem)
  generalize run step (reset mem) as = t at hen hg
  have ha := hg.sound.phase.accepts hen
  refine ⟨fun k o hv => ?_, fun k hk => ?_⟩
  · have hidle : (t.step a).cache.fsm.state = .idle := by rw [fsm_of_accept hen, ha.idle]
    have hnames : (t.step a).cache.names k =
        some (((t.step a).cache.metaRam k.index k.line).tag, k.index) := by
      rw [State.names, State.filling_of_ne (by rw [hidle]; simp), if_neg Bool.false_ne_true,
        if_pos hv]
    exact hg.copies_access hen k _ hnames o
  · have hmeta : (t.step a).cache.metaRam = t.cache.metaRam :=
      State.metaRam_same ha.oper (by simp [ha.idle]) (by simp [ha.idle])
    rw [hmeta]
    refine State.entry_of_kept hg.sound.snapshot fun p hf => ?_
    rw [State.missSlot, State.missWay_of_idle ha.idle hf]
    exact hk p (hg.sound.snapshot.fetched p hf)

instance (t : System) (a : Access) : Decidable (t.Orderly a) :=
  decidable_of_iff
    (((getMask (a.dreq .one).strobe &&& (a.dreq .one).data = (a.dreq .one).data) ∧
        (getMask (a.dreq .two).strobe &&& (a.dreq .two).data = (a.dreq .two).data)) ∧
      (((a.dreq .one).valid = false → a.isUncached .one = false → (a.dreq .one).strobe = 0#4) ∧
        ((a.dreq .two).valid = false → a.isUncached .two = false → (a.dreq .two).strobe = 0#4)) ∧
      (t.cache.fsm.state = .fetch .two → t.cache.misses .one = true →
        t.cache.indexEqual = true →
        ((t.cache.cacheHandle.side .one).metaR (t.cache.replaceLineReg .one)).valid = false))
    ⟨fun ⟨hl, hs, hk⟩ =>
        ⟨fun p => by cases p with
          | one => exact hl.1
          | two => exact hl.2,
        fun p => by cases p with
          | one => exact hs.1
          | two => exact hs.2, hk⟩,
      fun h => ⟨⟨h.lanes .one, h.lanes .two⟩, ⟨h.silent .one, h.silent .two⟩, h.kept⟩⟩

/-! Runs that start with loads of lines of one set, on a bus that is always ready. -/

def loadOf (x : Word) : DBusReq := ⟨true, x, .size4, 0#4, 0#32⟩

def accessOf (one two : DBusReq) : Access where
  dreq
    | .one => one
    | .two => two
  isUncached _ := false
  beat := { ready := true }

/-- A miss, and the cycles of its refill. -/
def missRun (x : Word) : List Access :=
  accessOf (loadOf x) default :: List.replicate 17 (accessOf default default)

theorem tags_and_data_agree_load :
    (run step (reset fun w => w.setWidth 32) (missRun 0x40#32)).Agrees
      (accessOf default default) :=
  tags_and_data_agree (fun w => w.setWidth 32) (missRun 0x40#32) (accessOf default default)
    (by decide +kernel) (by decide +kernel)

/-- Two lines fill a set, and a pair of loads misses in it twice. -/
def conflictRun : List Access :=
  missRun 0#32 ++ missRun 0x1000#32 ++
    accessOf (loadOf 0x2000#32) (loadOf 0x3000#32) ::
      List.replicate 34 (accessOf default default)

/-- The way of the first line has its old tag again, and the words of the third line. -/
theorem not_tags_and_data_agree_conflict :
    ¬ ∀ (mem : BitVec 30 → Word) (as : List Access) (a : Access),
      (∀ x ∈ as, ∀ p, CleanLanes (x.dreq p)) →
      (run step (reset mem) as).cache.en = true → (run step (reset mem) as).Agrees a := by
  intro h
  have hlanes : ∀ x ∈ conflictRun, ∀ p, CleanLanes (x.dreq p) := by
    intro x hx p
    simp only [conflictRun, missRun, List.cons_append, List.mem_cons, List.mem_append,
      List.mem_replicate] at hx
    have hzero (r : DBusReq) (hr : r = default ∨ ∃ y, r = loadOf y) : CleanLanes r := by
      rcases hr with rfl | ⟨y, rfl⟩
      · exact (rfl : getMask 0#4 &&& 0#32 = 0#32)
      · exact (rfl : getMask 0#4 &&& 0#32 = 0#32)
    refine hzero _ ?_
    rcases hx with rfl | (⟨-, rfl⟩ | rfl | ⟨-, rfl⟩) | rfl | ⟨-, rfl⟩ <;>
      cases p <;> first | exact Or.inl rfl | exact Or.inr ⟨_, rfl⟩
  have hagrees := h (fun w => w.setWidth 32) conflictRun (accessOf default default) hlanes
    (by decide +kernel)
  have hheld := hagrees.held ⟨false, 0#6⟩ 1#4
  rw [step_eq_stepEval] at hheld
  exact absurd hheld (by decide +kernel)

end System

end FrailCPU.DCache
