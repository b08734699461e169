import FrailCPU.DCache.Agree

/-!
# Dirty bits

A valid way whose dirty bit is clear holds what is in memory, apart from the words that an
uncached store has written behind the cache since the line was fetched. Dirty bits are set by
the hits of a pair in the cycle of its access, where the younger request comes first, and by a
refill from the request it is made for.
-/

namespace FrailCPU.DCache

open ClockedMachine LineStore

namespace State

/-- The request is a store to a line that the cache has. -/
def storeHits (s : State) (p : Port) : Bool := s.processCacheHit p && (s.req p).strobe != 0#4

/-- Every store of the pair leaves its mark: two stores that hit different lines when the older
one's line is dirty already, and a store to the line that a load of the same pair fetches never. -/
structure Marks (s : State) : Prop where
  hits : s.storeHits .one = true → s.storeHits .two = true → s.hitSlot .one ≠ s.hitSlot .two →
    s.cacheDirty (s.hitSlot .one) = true
  shared : s.performs .two = true → (s.cacheHandle.side .two).hit = false → s.sameLine = true →
    (s.req .two).strobe ≠ 0#4 → (s.req .one).strobe ≠ 0#4

variable {s : State} {i : Input} {before : Index → Meta} {k : Slot}

theorem storeHits_of_performs {p : Port} (hp : s.performs p = true)
    (hh : (s.cacheHandle.side p).hit = true) (hs : (s.req p).strobe ≠ 0#4) :
    s.storeHits p = true := by
  simp only [performs, Bool.and_eq_true] at hp
  rw [storeHits, processCacheHit, hh, hp.1, hp.2]
  exact bne_iff_ne.mpr hs

/-- In an idle state dirty bits are only set. -/
theorem cacheDirtyNew_of_idle (hi : s.fsm.state = .idle) (hk : s.cacheDirty k = true) :
    s.cacheDirtyNew k = true := by
  rw [cacheDirtyNew, hi]
  dsimp only
  rw [hk]
  split
  · exact ite_self _
  · split
    · exact ite_self _
    · rfl

/-- The mark of a store that hits. -/
theorem cacheDirtyNew_of_hit {p : Port} (hi : s.fsm.state = .idle) (hm : s.Marks)
    (hp : s.performs p = true) (hh : (s.cacheHandle.side p).hit = true)
    (hs : (s.req p).strobe ≠ 0#4) : s.cacheDirtyNew (s.hitSlot p) = true := by
  have hstore := storeHits_of_performs hp hh hs
  rw [cacheDirtyNew, hi]
  dsimp only
  change (if s.storeHits .two then _ else if s.storeHits .one then _ else _) = true
  cases p with
  | two => rw [if_pos hstore, beq_self_eq_true, if_pos rfl]
  | one =>
      split
      · rename_i h2
        by_cases heq : s.hitSlot .one = s.hitSlot .two
        · rw [heq, beq_self_eq_true, if_pos rfl]
        · rw [hm.hits hstore h2 heq]
          exact ite_self _
      · rw [beq_self_eq_true, if_pos rfl]

/-- A refill marks the slot it fills, and no other. -/
theorem cacheDirtyNew_of_fetch {p : Port} (hs : s.fsm.state = .fetch p) :
    s.cacheDirtyNew k = if k = s.missSlot p then (s.req p).strobe != 0#4 else s.cacheDirty k := by
  have hvictim : s.victim p = s.missSlot p := by
    rw [victim, missSlot, missWay_eq (Or.inr hs)]
  rw [cacheDirtyNew, hs]
  dsimp only
  rw [hvictim]
  by_cases hk : k = s.missSlot p
  · rw [if_pos hk, hk, beq_self_eq_true, if_pos rfl]
  · rw [if_neg hk, if_neg]
    rw [beq_iff_eq]
    exact fun h => hk h.symm

theorem cacheDirtyNew_of_other (hi : s.fsm.state ≠ .idle) (hs : ∀ p, s.fsm.state ≠ .fetch p) :
    s.cacheDirtyNew k = s.cacheDirty k := by
  rw [cacheDirtyNew]
  split
  · exact absurd (by assumption) hi
  · exact absurd (by assumption) (hs _)
  · rfl

/-- A dirty bit stays set until the slot is filled again. -/
theorem cacheDirty_next_of_kept (hk : s.cacheDirty k = true)
    (hs : ∀ p, s.fsm.state = .fetch p → k ≠ s.missSlot p) : (s.next i).cacheDirty k = true := by
  change (if s.cacheHandle.cacheOper == .req then s.cacheDirtyNew else s.cacheDirty) k = true
  split
  · by_cases hi : s.fsm.state = .idle
    · exact cacheDirtyNew_of_idle hi hk
    · by_cases hf : ∃ p, s.fsm.state = .fetch p
      · obtain ⟨p, hf⟩ := hf
        rw [cacheDirtyNew_of_fetch hf, if_neg (hs p hf), hk]
      · rw [cacheDirtyNew_of_other hi fun p hp => hf ⟨p, hp⟩, hk]
  · exact hk

/-- The slots of two refills of one pair differ. -/
theorem missSlot_ne (h : s.Sound before) (hf : s.ends.fetch .one = true)
    (hs : s.fsm.state ≠ .fetch .one) (hm : s.misses .two = true) :
    s.missSlot .one ≠ s.missSlot .two := by
  intro heq
  have hindex : s.index .one = s.index .two := congrArg Slot.index heq
  have hline : s.missWay .one = s.missWay .two := congrArg Slot.line heq
  rw [h.snapshot.distinct hf hs hm (beq_iff_eq.mpr hindex)] at hline
  exact absurd hline (by simp)

/-- Before its refill the slot of a miss is none that a refill of the pair has filled. -/
theorem missSlot_ne_fetched {p : Port} (h : s.Sound before) (ht : s.Turn p)
    (hm : s.misses p = true) (hs : s.fsm.state ≠ .fetch .one) (hf : s.ends.fetch p = false)
    (q : Port) (hq : s.ends.fetch q = true) : s.missSlot p ≠ s.missSlot q := by
  intro heq
  cases p with
  | one =>
      have hu : s.Untouched .two := ht
      cases q with
      | one => rw [hf] at hq; cases hq
      | two => rw [hu.fetch] at hq; cases hq
  | two =>
      cases q with
      | two => rw [hf] at hq; cases hq
      | one => exact missSlot_ne h hq hs hm heq.symm

/-- The victim of a write-back is in the tag array, with its dirty bit set. -/
theorem names_victim {p : Port} (h : s.Sound before) (hs : s.fsm.state = .writeback p)
    (hv : s.evicts p = true) :
    s.names (s.missSlot p) =
        some (((s.cacheHandle.side p).metaR (s.processReplaceLine p)).tag, s.index p) ∧
      s.cacheDirty (s.missSlot p) = true := by
  obtain ⟨hm, ht, hb, hf⟩ := h.phase.misses_of_writeback hs
  have hway := turnWay_of_turn h ht hm (by rw [hs]; simp) (Or.inl hf)
  have hmiss : s.missWay p = s.processReplaceLine p := missWay_eq (Or.inl hf)
  rw [evicts, hway, Bool.and_eq_true] at hv
  have hslot : s.missSlot p = ⟨s.processReplaceLine p, s.index p⟩ := by rw [missSlot, hmiss]
  refine ⟨names_eq_some_iff.mpr ⟨filling_of_ne (by rw [hs]; simp), ?_, rfl⟩, hslot ▸ hv.1⟩
  rw [entry_of_kept h.snapshot]
  · change before (s.index p) (s.missWay p) = _
    rw [hmiss, ← h.snapshot.metaR, ← hv.2]
  · exact missSlot_ne_fetched h ht hm (by rw [hs]; simp) hf

/-- The slot of a miss is kept from its refill on. -/
theorem missSlot_next {p : Port} (h : s.Sound before) (hb : s.Busy) (hpol : Polite i)
    (hf : s.fsm.state = .fetch p ∨ s.ends.fetch p = true) :
    (s.next i).missSlot p = s.missSlot p := by
  have hm : s.misses p = true := by
    rcases hf with hf | hf
    · exact (h.phase.misses_of_fetch hf).1
    · exact h.snapshot.fetched p hf
  have hway : (s.next i).missWay p = s.missWay p := by
    refine missWay_next h.phase hb hpol hm fun he ho => ?_
    rcases hf with hf | hf
    · rw [hf] at ho
      cases p <;> cases ho
    · rw [hf] at he
      cases he
  rw [missSlot, missSlot, hway, index_congr (next_cacheHandle hb.en)]

end State

namespace System

variable {t : System} {a : Access}

/-- The word is the same in memory, unless an uncached store has written it behind the cache. -/
def Synced (t : System) (l : Tag × Index) (o : Offset) : Prop :=
  t.aliased (l.1 ++ l.2 ++ o) = false → lineWords t.bus.mem l o = lineWords t.held l o

/-- The rules of a step, with those of a pair that has its access. -/
structure Tracked (t : System) (a : Access) : Prop where
  orderly : t.Orderly a
  marks : t.cache.en = true → t.cache.Marks

/-- Every named slot whose dirty bit is clear is in step with memory. -/
structure Clean (t : System) : Prop where
  agreed : t.Agreed
  evicts : ∀ p, t.cache.fsm.state = .writeback p → t.cache.evicts p = true
  marked : ∀ p, t.cache.ends.fetch p = true → t.cache.fsm.state ≠ .fetch p →
    (t.cache.req p).strobe ≠ 0#4 → t.cache.cacheDirty (t.cache.missSlot p) = true
  fresh : ∀ p, t.cache.fsm.state = .fetch p → ∀ o < t.bus.beat,
    lineWords t.bus.mem (t.cache.lineOf p) o = lineWords t.held (t.cache.lineOf p) o
  synced : ∀ k l, t.cache.names k = some l → t.cache.cacheDirty k = false → ∀ o, t.Synced l o

theorem answers_input : t.cache.Answers (t.input a) := by
  refine ⟨polite_input, fun hr => ?_⟩
  change (t.resp a).ready = true at hr
  cases hv : t.cache.dcreq.valid with
  | true => rfl
  | false =>
      rw [(resp_of_quiet hv).1] at hr
      cases hr

/-- A refill leaves the mark of its request. -/
theorem marked_step (h : t.Clean) (p : Port) (hf : (t.step a).cache.ends.fetch p = true)
    (hs' : (t.step a).cache.fsm.state ≠ .fetch p)
    (hst : ((t.step a).cache.req p).strobe ≠ 0#4) :
    (t.step a).cache.cacheDirty ((t.step a).cache.missSlot p) = true := by
  have hsound := h.agreed.sound
  change (t.cache.next (t.input a)).ends.fetch p = true at hf
  cases hen : t.cache.en with
  | true =>
      rw [((hsound.phase.accepts hen).untouched p).fetch] at hf
      cases hf
  | false =>
      have hb := hsound.phase.busy hen
      have hreq : (t.step a).cache.req p = t.cache.req p :=
        State.req_congr (State.next_cacheHandle hen) p
      rw [hb.ends_fetch, Bool.or_eq_true, beq_iff_eq] at hf
      have hslot : (t.step a).cache.missSlot p = t.cache.missSlot p :=
        State.missSlot_next hsound hb polite_input hf
      rw [hreq] at hst
      rw [hslot]
      by_cases hs : t.cache.fsm.state = .fetch p
      · change (if t.cache.cacheHandle.cacheOper == .req then t.cache.cacheDirtyNew
          else t.cache.cacheDirty) _ = true
        rw [hb.oper, beq_self_eq_true, if_pos rfl, State.cacheDirtyNew_of_fetch hs, if_pos rfl,
          bne_iff_ne]
        exact hst
      · have hf1 := hf.resolve_left hs
        refine State.cacheDirty_next_of_kept (h.marked p hf1 hs hst) fun q hq => ?_
        cases p with
        | two =>
            cases q with
            | two => exact absurd hq hs
            | one =>
                rw [hsound.phase.untouched_of_one hq] at hf1
                cases hf1
        | one =>
            cases q with
            | one => exact absurd hq hs
            | two => exact State.missSlot_ne hsound hf1 hs (hsound.phase.misses_of_fetch hq).1

/-! ### The edge of an access -/

section Access

variable (h : t.Clean) (hen : t.cache.en = true) (hm : t.cache.Marks)
include h hen hm

/-- The slot of a store is dirty after its access. -/
theorem cacheDirty_of_store {p : Port} (hp : t.cache.performs p = true)
    (hst : (t.cache.req p).strobe ≠ 0#4) :
    (t.step a).cache.cacheDirty (t.cache.accessAddr p).slot = true := by
  have hsound := h.agreed.sound
  have hi := (hsound.phase.accepts hen).idle
  have hno (k : Slot) (q : Port) (hq : t.cache.fsm.state = .fetch q) :
      k ≠ t.cache.missSlot q := by
    rw [hi] at hq
    cases hq
  have hvalid : (t.cache.req p).valid = true := by
    simp only [State.performs, Bool.and_eq_true] at hp
    exact hp.1
  -- the mark of a refill
  have hrefill (q : Port) (hf : t.cache.ends.fetch q = true)
      (hq : (t.cache.req q).strobe ≠ 0#4) :
      (t.step a).cache.cacheDirty ⟨t.cache.replaceLineReg q, t.cache.index q⟩ = true := by
    have hmark := h.marked q hf (by rw [hi]; simp) hq
    rw [State.missSlot, State.missWay_of_idle hi hf] at hmark
    exact State.cacheDirty_next_of_kept hmark (hno _)
  cases hh : (t.cache.cacheHandle.side p).hit with
  | true =>
      rw [State.accessAddr_of_hit hh]
      rcases hsound.phase.accesses hen with ha | hd
      · change (if t.cache.cacheHandle.cacheOper == .req then t.cache.cacheDirtyNew
          else t.cache.cacheDirty) _ = true
        rw [ha.oper, beq_self_eq_true, if_pos rfl]
        exact State.cacheDirtyNew_of_hit hi hm hp hh hst
      · rw [State.req, hd] at hvalid
        cases hvalid
  | false =>
      rw [State.accessAddr_of_miss hh]
      cases hmiss : t.cache.misses p with
      | true =>
          exact hrefill p (((hsound.phase.served_of_miss hen hvalid hh).2 p).fetch hmiss) hst
      | false =>
          obtain ⟨rfl, hsl⟩ := State.sameLine_of_performs hp hh hmiss
          obtain ⟨hf, htwin⟩ := State.twin_slot hsound hen hp hsl hh
          have hindex : t.cache.index .one = t.cache.index .two :=
            congrArg Prod.snd (State.line_of_sameLine hsl)
          rw [htwin, ← hindex]
          exact hrefill .one hf (hm.shared hp hh hsl hst)

/-- The words of a slot that stays clean are not stored to. -/
theorem lineWords_of_clean {k : Slot} {l : Tag × Index} (hk : t.cache.names k = some l)
    (hd : (t.step a).cache.cacheDirty k = false) (o : Offset) :
    lineWords (t.heldNext a) l o = lineWords t.held l o := by
  have hport (p : Port) (ref : BitVec 30 → Word) :
      lineWords (t.cache.storedBy p ref) l o = lineWords ref l o := by
    cases hp : t.cache.performs p with
    | false =>
        rw [State.storedBy, hp]
        rfl
    | true =>
        rw [State.storedBy, hp, if_pos rfl, State.lineWords_storeWord]
        split
        · rename_i hlo
          by_cases hst : (t.cache.req p).strobe = 0#4
          · rw [hst, State.getMask_zero, Lanes.maskedWrite_zero, hlo.1, hlo.2]
          · rcases State.located h.agreed.sound h.agreed.gone hen hp with hn | ⟨-, hn⟩
            · rw [← hlo.1] at hn
              rw [State.distinct_names h.agreed.sound.snapshot k _ l hk hn,
                cacheDirty_of_store h hen hm hp hst] at hd
              cases hd
            · exact absurd (hlo.1 ▸ hk) (hn k)
        · rfl
  rw [heldNext_of_access h.agreed hen, hport, hport]

theorem Clean.synced_access {k : Slot} {l : Tag × Index}
    (hk : (t.step a).cache.names k = some l) (hd : (t.step a).cache.cacheDirty k = false)
    (o : Offset) : (t.step a).Synced l o := by
  have hi := (h.agreed.sound.phase.accepts hen).idle
  have hbus : (t.step a).bus = t.bus := bus_step_of_quiet (State.dcreq_valid_of_idle hi)
  have haliased : t.aliasedNext a = t.aliased := by
    rw [aliasedNext, hi]
  rw [names_step_of_access h.agreed hen] at hk
  intro hal
  change t.aliasedNext a _ = false at hal
  rw [haliased] at hal
  rw [hbus]
  change _ = lineWords (t.heldNext a) l o
  rw [lineWords_of_clean h hen hm hk hd]
  refine h.synced k l hk ?_ o hal
  rw [Bool.eq_false_iff]
  intro hdirty
  have hkept := State.cacheDirty_next_of_kept (i := t.input a) hdirty fun p hp => by
    rw [hi] at hp
    cases hp
  change (t.cache.next (t.input a)).cacheDirty k = false at hd
  rw [hkept] at hd
  cases hd

theorem Clean.step_access (ho : t.Orderly a) : (t.step a).Clean := by
  have hs' : (t.step a).cache.fsm.state = .idle := by
    rw [fsm_of_accept hen, (h.agreed.sound.phase.accepts hen).idle]
  refine ⟨h.agreed.step ho, State.evicts_of_next h.agreed.sound answers_input h.evicts,
    marked_step h, fun p hs => ?_, fun k l hk hd o => h.synced_access hen hm hk hd o⟩
  rw [hs'] at hs
  cases hs

end Access

/-! ### The edges of a service -/

theorem mem_step : (t.step a).bus.mem =
    if (t.resp a).ready && t.cache.dcreq.isWrite then
      Function.update t.bus.mem (t.bus.word t.cache.dcreq)
        (Lanes.maskedWrite (getMask t.cache.dcreq.strobe)
          (t.bus.mem (t.bus.word t.cache.dcreq)) t.cache.dcreq.data)
    else t.bus.mem := rfl

section Waiting

variable (h : t.Clean) (hb : t.cache.Busy) (hs : ∀ p, t.cache.fsm.state ≠ .fetch p)
include h hb hs

omit hb hs in
/-- A write-back leaves the lines of other slots alone. -/
theorem lineWords_of_writeback {p : Port} (hw : t.cache.fsm.state = .writeback p) {k : Slot}
    {l : Tag × Index} (hk : t.cache.names k = some l) (hd : t.cache.cacheDirty k = false)
    (o : Offset) : lineWords (t.step a).bus.mem l o = lineWords t.bus.mem l o := by
  obtain ⟨hvictim, hdirty⟩ := State.names_victim h.agreed.sound hw (h.evicts p hw)
  rw [mem_step, word_writeback hw]
  split
  · rw [lineWords, Function.update_of_ne]
    · rfl
    · intro hn
      rw [append_inj_iff, append_inj_iff] at hn
      have hl : (((t.cache.cacheHandle.side p).metaR (t.cache.processReplaceLine p)).tag,
          t.cache.index p) = l := Prod.ext hn.1.1.symm hn.1.2.symm
      rw [hl] at hvictim
      rw [State.distinct_names h.agreed.sound.snapshot k _ l hk hvictim, hdirty] at hd
      cases hd
  · rfl

theorem Clean.synced_waiting {k : Slot} {l : Tag × Index}
    (hk : (t.step a).cache.names k = some l) (hd : (t.step a).cache.cacheDirty k = false)
    (o : Offset) : (t.step a).Synced l o := by
  have hnames := names_step_of_waiting h.agreed hb hs hk
  have hclean : t.cache.cacheDirty k = false := by
    rw [Bool.eq_false_iff]
    intro hdirty
    have hkept := State.cacheDirty_next_of_kept (i := t.input a) hdirty
      fun p hp => absurd hp (hs p)
    change (t.cache.next (t.input a)).cacheDirty k = false at hd
    rw [hkept] at hd
    cases hd
  intro hal
  change t.aliasedNext a _ = false at hal
  change _ = lineWords (t.heldNext a) l o
  rw [heldNext_of_waiting hb hs]
  have hsynced := h.synced k l hnames hclean o
  cases h.agreed.sound.phase with
  | ready en _ _ _ _ => rw [hb.en] at en; cases en
  | finished en _ _ _ _ _ => rw [hb.en] at en; cases en
  | fetch p _ hf _ _ => exact absurd hf (hs p)
  | think _ hi _ _ =>
      rw [bus_step_of_quiet (State.dcreq_valid_of_idle hi)]
      rw [aliasedNext, hi] at hal
      exact hsynced hal
  | writeback p _ hw _ _ _ =>
      rw [lineWords_of_writeback h hw hnames hclean]
      rw [aliasedNext, hw] at hal
      exact hsynced hal
  | uncache p _ hu _ _ =>
      rw [aliasedNext, hu] at hal
      dsimp only at hal
      rw [mem_step]
      split at hal
      · rename_i hwrite
        rw [if_pos hwrite]
        -- the word that is stored to is another one
        have hne : l.1 ++ l.2 ++ o ≠ t.bus.word t.cache.dcreq := by
          intro hn
          rw [hn, Function.update_self] at hal
          cases hal
        rw [Function.update_of_ne hne] at hal
        rw [lineWords, Function.update_of_ne hne]
        exact hsynced hal
      · rename_i hwrite
        rw [if_neg hwrite]
        exact hsynced hal

theorem Clean.step_waiting (ho : t.Orderly a) : (t.step a).Clean := by
  refine ⟨h.agreed.step ho, State.evicts_of_next h.agreed.sound answers_input h.evicts,
    marked_step h, fun p hs' o hlt => ?_, fun k l hk hd o => h.synced_waiting hb hs hk hd o⟩
  rw [beat_of_refill h.agreed hb hs hs'] at hlt
  exact absurd hlt (by simp)

end Waiting

section Refill

variable {p : Port} (h : t.Clean) (hs : t.cache.fsm.state = .fetch p)
include h hs

/-- The words that have arrived are those of memory. -/
theorem fresh_of_refill {o : Offset}
    (ho : o < t.bus.beat ∨ ((t.resp a).ready = true ∧ o = t.bus.beat)) :
    lineWords t.bus.mem (t.cache.lineOf p) o = lineWords (t.heldNext a) (t.cache.lineOf p) o := by
  rw [lineWords_step_of_refill hs]
  rcases ho with ho | ⟨hr, rfl⟩
  · rw [if_neg fun hn => BitVec.lt_irrefl _ (hn.2.2 ▸ ho)]
    exact h.fresh p hs o ho
  · have hword := word_fetch hs
    rw [if_pos ⟨hr, rfl, rfl⟩]
    change _ = if (t.resp a).ready then t.bus.mem (t.bus.word t.cache.dcreq) else _
    rw [hr, if_pos rfl, hword]
    rfl

/-- The slot that is filled gets the name of its line with the last beat. -/
theorem name_of_refill {l : Tag × Index}
    (hk : (t.step a).cache.names t.cache.fsm.missAddr.slot = some l) :
    l = t.cache.lineOf p ∧ (t.resp a).last = true := by
  obtain ⟨-, -, hb⟩ := h.agreed.sound.phase.misses_of_fetch hs
  obtain ⟨hfill, he, hi⟩ := State.names_eq_some_iff.mp hk
  have hslot := h.agreed.sound.snapshot.missAddr p (Or.inl hs)
  refine ⟨?_, ?_⟩
  · change (t.cache.next (t.input a)).metaRam _ _ = _ at he
    rw [State.metaRam_fetch hb hs, hslot] at he
    rw [hslot] at hi
    have htag := (congrFun (Function.update_self _ _ _) _).symm.trans he
    rw [State.missSlot, State.fetchedSet_self] at htag
    exact Prod.ext (congrArg Info.tag htag).symm hi.symm
  · cases hl : (t.resp a).last with
    | true => rfl
    | false =>
        have hs' : (t.step a).cache.fsm.state = .fetch p := hb.fetch_more hs hl
        have hslot' : (t.step a).cache.fsm.missAddr.slot = t.cache.fsm.missAddr.slot := by
          change (t.cache.next (t.input a)).fsm.missAddr.slot = _
          rw [hb.fsm_fetch hs, State.fsmFetch]
          split <;> rfl
        rw [State.filling_of_fetch hs', hslot', beq_self_eq_true] at hfill
        cases hfill

theorem Clean.synced_refill (ho : t.Orderly a) {k : Slot} {l : Tag × Index}
    (hk : (t.step a).cache.names k = some l) (hd : (t.step a).cache.cacheDirty k = false)
    (o : Offset) : (t.step a).Synced l o := by
  obtain ⟨-, -, hb⟩ := h.agreed.sound.phase.misses_of_fetch hs
  have hmem : (t.step a).bus.mem = t.bus.mem := mem_step_of_read (dcreq_fetch hs).2.1
  intro hal
  rw [hmem]
  change _ = lineWords (t.heldNext a) l o
  by_cases hslot : k = t.cache.fsm.missAddr.slot
  · subst hslot
    obtain ⟨rfl, hl⟩ := name_of_refill h hs hk
    exact fresh_of_refill h hs (arrived_of_last (dcreq_fetch hs).2.2.1 hl o)
  · have hnames := names_step_of_refill h.agreed hs ho hslot hk
    have hline : l ≠ t.cache.lineOf p := by
      rintro rfl
      exact State.names_ne_fetched h.agreed.sound hs k hnames
    have hclean : t.cache.cacheDirty k = false := by
      have hmiss := h.agreed.sound.snapshot.missAddr p (Or.inl hs)
      change (if t.cache.cacheHandle.cacheOper == .req then t.cache.cacheDirtyNew
        else t.cache.cacheDirty) k = false at hd
      rw [hb.oper, beq_self_eq_true, if_pos rfl, State.cacheDirtyNew_of_fetch hs,
        if_neg (hmiss ▸ hslot)] at hd
      exact hd
    rw [lineWords_step_of_refill hs, if_neg fun hn => hline hn.2.1]
    refine h.synced k l hnames hclean o ?_
    change t.aliasedNext a _ = false at hal
    rw [aliasedNext, hs] at hal
    dsimp only at hal
    split at hal
    · rwa [Function.update_of_ne] at hal
      rw [word_fetch hs]
      intro hn
      rw [append_inj_iff, append_inj_iff] at hn
      exact hline (Prod.ext hn.1.1 hn.1.2)
    · exact hal

theorem Clean.step_refill (ho : t.Orderly a) : (t.step a).Clean := by
  obtain ⟨-, -, hb⟩ := h.agreed.sound.phase.misses_of_fetch hs
  refine ⟨h.agreed.step ho, State.evicts_of_next h.agreed.sound answers_input h.evicts,
    marked_step h, fun q hq o hlt => ?_, fun k l hk hd o => h.synced_refill hs ho hk hd o⟩
  have hline : (t.step a).cache.lineOf q = t.cache.lineOf q :=
    State.lineOf_congr (State.next_cacheHandle hb.en) q
  have hmem : (t.step a).bus.mem = t.bus.mem := mem_step_of_read (dcreq_fetch hs).2.1
  rw [hline, hmem]
  cases hl : (t.resp a).last with
  | true =>
      have hs' : (t.step a).cache.fsm.state = .idle := hb.fetch_last hs hl polite_input
      rw [hs'] at hq
      cases hq
  | false =>
      have hs' : (t.step a).cache.fsm.state = .fetch p := hb.fetch_more hs hl
      rw [hs'] at hq
      cases hq
      exact fresh_of_refill h hs (arrived_of_lt (dcreq_fetch hs).2.2.1 hl hlt)

end Refill

theorem Clean.step (h : t.Clean) (ht : t.Tracked a) : (t.step a).Clean := by
  cases hen : t.cache.en with
  | true => exact h.step_access hen (ht.marks hen) ht.orderly
  | false =>
      have hb := h.agreed.sound.phase.busy hen
      by_cases hs : ∃ p, t.cache.fsm.state = .fetch p
      · obtain ⟨p, hs⟩ := hs
        exact h.step_refill hs ht.orderly
      · exact h.step_waiting hb (fun p hp => hs ⟨p, hp⟩) ht.orderly

/-- A refill that starts without a write-back replaces a way that memory is in step with. -/
theorem Clean.synced_victim (h : t.Clean) {p : Port} (hi : t.cache.fsm.state = .idle)
    (hs' : (t.step a).cache.fsm.state = .fetch p) {l : Tag × Index}
    (hk : t.cache.names (t.cache.missSlot p) = some l) (o : Offset) : t.Synced l o := by
  have hsound := h.agreed.sound
  cases hen : t.cache.en with
  | true =>
      rw [fsm_of_accept hen, hi] at hs'
      cases hs'
  | false =>
      change (t.cache.next (t.input a)).fsm.state = _ at hs'
      cases hsound.phase with
      | ready en _ _ _ _ => rw [hen] at en; cases en
      | finished en _ _ _ _ _ => rw [hen] at en; cases en
      | writeback _ _ hw _ _ _ => rw [hi] at hw; cases hw
      | fetch _ _ hf _ _ => rw [hi] at hf; cases hf
      | uncache _ _ hu _ _ => rw [hi] at hu; cases hu
      | think hb _ hu hd =>
          obtain ⟨q, ht, hq, ⟨-, hfsm⟩ | ⟨hm, hfsm⟩⟩ :=
            State.fsm_of_due (i := t.input a) hb hi hd hu
          · rw [hfsm] at hs'
            cases hs'
          · rw [hfsm, State.startMiss] at hs'
            dsimp only at hs'
            split at hs'
            · cases hs'
            · rename_i hdirty
              cases hs'
              rw [hq.writeback, Bool.not_false, Bool.and_true, Bool.not_eq_true,
                State.cacheDirtyOf] at hdirty
              refine h.synced _ l hk ?_ o
              have hslot : t.cache.missSlot p = t.cache.victim p := by
                rw [State.missSlot, State.missWay_eq (Or.inl hq.fetch)]
                rfl
              -- the way was valid when the pair was accepted
              have hvalid := (State.names_eq_some_iff.mp hk).2.1
              rw [State.entry_of_kept hsound.snapshot
                (State.missSlot_ne_fetched hsound ht hm (by rw [hi]; simp) hq.fetch), hslot] at hvalid
              change t.before (t.cache.index p) (t.cache.processReplaceLine p) = _ at hvalid
              rw [← hsound.snapshot.metaR] at hvalid
              rw [hvalid, Bool.and_true] at hdirty
              rw [hslot, hdirty]

theorem clean_reset (mem : BitVec 30 → Word) : (reset mem).Clean := by
  refine ⟨agreed_reset mem, fun p hs => ?_, fun p hf => ?_, fun p hs => ?_, fun k l hk => ?_⟩
  · cases hs
  · cases hf
  · cases hs
  · cases hk

/-- What clear dirty bits promise. With the access of a pair every valid way without one holds
the words of its line in memory, apart from those that an uncached store has written since the
line was fetched; and a refill that starts without a write-back replaces such a way. -/
structure CleanWays (t : System) (a : Access) : Prop where
  holds : t.cache.en = true → ∀ (k : Slot) (o : Offset),
    ((t.step a).cache.metaRam k.index k.line).valid = true →
    (t.step a).cache.cacheDirty k = false →
    (t.step a).aliased (((t.step a).cache.metaRam k.index k.line).tag ++ k.index ++ o) = false →
      (t.step a).cache.dataRam ⟨k, o⟩ =
        (t.step a).bus.mem (((t.step a).cache.metaRam k.index k.line).tag ++ k.index ++ o)
  lossless : ∀ p, t.cache.fsm.state = .idle → (t.step a).cache.fsm.state = .fetch p →
    ∀ l, t.cache.names (t.cache.missSlot p) = some l → ∀ o, t.Synced l o

theorem clean_ways (mem : BitVec 30 → Word) (as : List Access) (a : Access)
    (h : Along step Tracked (reset mem) (as ++ [a])) :
    (run step (reset mem) as).CleanWays a := by
  obtain ⟨hrun, ht, -⟩ := (along_append ..).mp h
  have hc : (run step (reset mem) as).Clean :=
    hrun.invariant (fun _ _ hc ht => hc.step ht) (clean_reset mem)
  generalize run step (reset mem) as = t at hc ht
  refine ⟨fun hen k o hv hd hal => ?_, fun p hi hs' l hk o => hc.synced_victim hi hs' hk o⟩
  have hidle : (t.step a).cache.fsm.state = .idle := by
    rw [fsm_of_accept hen, (hc.agreed.sound.phase.accepts hen).idle]
  have hnames : (t.step a).cache.names k =
      some (((t.step a).cache.metaRam k.index k.line).tag, k.index) := by
    rw [State.names, State.filling_of_ne (by rw [hidle]; simp), if_neg Bool.false_ne_true,
      if_pos hv]
  have hnext := hc.step ht
  exact (hnext.agreed.copies k _ hnames o).trans (hnext.synced k _ hnames hd o hal).symm

instance (s : State) : Decidable s.Marks :=
  decidable_of_iff
    ((s.storeHits .one = true → s.storeHits .two = true → s.hitSlot .one ≠ s.hitSlot .two →
        s.cacheDirty (s.hitSlot .one) = true) ∧
      (s.performs .two = true → (s.cacheHandle.side .two).hit = false → s.sameLine = true →
        (s.req .two).strobe ≠ 0#4 → (s.req .one).strobe ≠ 0#4))
    ⟨fun h => ⟨h.1, h.2⟩, fun h => ⟨h.hits, h.shared⟩⟩

instance (t : System) (a : Access) : Decidable (t.Tracked a) :=
  decidable_of_iff (t.Orderly a ∧ (t.cache.en = true → t.cache.Marks))
    ⟨fun h => ⟨h.1, h.2⟩, fun h => ⟨h.orderly, h.marks⟩⟩

theorem clean_ways_load :
    (run step (reset fun w => w.setWidth 32) (missRun 0x40#32)).CleanWays
      (accessOf default default) :=
  clean_ways (fun w => w.setWidth 32) (missRun 0x40#32) (accessOf default default)
    (by decide +kernel)

/-- A line is loaded, and a store to its first word goes to memory without the cache. -/
def aliasRun : List Access :=
  missRun 0#32 ++
    { accessOf ⟨true, 0#32, .size4, 15#4, 1#32⟩ default with isUncached := fun p => p == .one } ::
      List.replicate 3 (accessOf default default)

/-- The way of the line is valid and clean, and does not have the word that was stored. -/
theorem not_clean_ways_alias :
    ¬ ∀ (mem : BitVec 30 → Word) (as : List Access) (a : Access),
      Along step Tracked (reset mem) (as ++ [a]) → (run step (reset mem) as).cache.en = true →
      ∀ (k : Slot) (o : Offset),
        let u := (run step (reset mem) as).step a
        (u.cache.metaRam k.index k.line).valid = true → u.cache.cacheDirty k = false →
        u.cache.dataRam ⟨k, o⟩ =
          u.bus.mem ((u.cache.metaRam k.index k.line).tag ++ k.index ++ o) := by
  intro h
  have hway := h (fun w => w.setWidth 32) aliasRun (accessOf default default)
    (by decide +kernel) (by decide +kernel) ⟨false, 0#6⟩ 0#4
  rw [step_eq_stepEval] at hway
  exact absurd hway (by decide +kernel)

end System

end FrailCPU.DCache
