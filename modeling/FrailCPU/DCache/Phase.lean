import FrailCPU.DCache.Cache

/-!
# The service of a pair

Where the cache stands with the pair in `cache_handle`. A pair that hits is ready for its
access in the next cycle. Any other pair is served in turns, the older request first: a miss
writes back and fetches, an uncached request goes to the bus by itself. The phase is kept by
every clock edge, whatever the bus does.
-/

namespace FrailCPU.DCache

section Addresses

theorem append_inj_iff {m n : ℕ} {a b : BitVec m} {c d : BitVec n} :
    a ++ c = b ++ d ↔ a = b ∧ c = d := by
  constructor
  · intro h
    have hl := congrArg (BitVec.extractLsb' n m) h
    have hr := congrArg (BitVec.extractLsb' 0 n) h
    rw [BitVec.extractLsb'_append_eq_left, BitVec.extractLsb'_append_eq_left] at hl
    rw [BitVec.extractLsb'_append_eq_right, BitVec.extractLsb'_append_eq_right] at hr
    exact ⟨hl, hr⟩
  · rintro ⟨rfl, rfl⟩
    rfl

theorem line_eq_append (a : Word) : a.extractLsb' 6 26 = tagOf a ++ indexOf a := by
  have h : tagOf a ++ indexOf a = a.extractLsb' 6 (20 + 6) :=
    BitVec.extractLsb'_append_extractLsb'_eq_extractLsb' rfl
  exact h.symm

theorem word_eq_append (a : Word) : a.extractLsb' 2 30 = tagOf a ++ indexOf a ++ offsetOf a := by
  have h : a.extractLsb' 6 26 ++ offsetOf a = a.extractLsb' 2 (26 + 4) :=
    BitVec.extractLsb'_append_extractLsb'_eq_extractLsb' rfl
  rw [line_eq_append] at h
  exact h.symm

/-- The line part of an address is its tag and its index. -/
theorem line_eq_iff {a b : Word} :
    a.extractLsb' 6 26 = b.extractLsb' 6 26 ↔ tagOf a = tagOf b ∧ indexOf a = indexOf b := by
  rw [line_eq_append, line_eq_append, append_inj_iff]

/-- The word part of an address is its line and its offset. -/
theorem word_eq_iff {a b : Word} :
    a.extractLsb' 2 30 = b.extractLsb' 2 30 ↔
      (tagOf a = tagOf b ∧ indexOf a = indexOf b) ∧ offsetOf a = offsetOf b := by
  rw [word_eq_append, word_eq_append, append_inj_iff, append_inj_iff]

end Addresses

namespace State

variable (s : State) (i : Input)

/-- The line of the request has to be fetched. -/
def misses (p : Port) : Bool :=
  (s.req p).valid && !(s.cacheHandle.side p).hit && !(s.cacheHandle.side p).isUncached &&
    !(p == .two && s.sameLine)

/-- The request goes to the bus without the cache. -/
def bypasses (p : Port) : Bool := (s.req p).valid && (s.cacheHandle.side p).isUncached

/-- The part of `p` on the bus is over. -/
structure Served (p : Port) : Prop where
  fetch : s.misses p = true → s.ends.fetch p = true
  uncache : s.bypasses p = true → s.ends.uncache p = true

/-- The part of `p` on the bus has not begun. -/
structure Untouched (p : Port) : Prop where
  fetch : s.ends.fetch p = false
  writeback : s.ends.writeback p = false
  uncache : s.ends.uncache p = false

/-- It is the turn of `p`. -/
def Turn : Port → Prop
  | .one => s.Untouched .two
  | .two => s.Served .one

/-- The pair in `cache_handle` needs no bus, or there is none since reset. -/
def Direct : Prop :=
  (s.cacheHandle.dreqEn = true ∧ s.cacheHandle.cacheOper = .req ∧
    ∀ p, (s.req p).valid = true →
      (s.cacheHandle.side p).hit = true ∧ (s.cacheHandle.side p).isUncached = false) ∨
  s.cacheHandle = default

/-- The pair in `cache_handle` is being served. -/
structure Busy : Prop where
  en : s.en = false
  oper : s.cacheHandle.cacheOper = .req
  dreqEn : s.cacheHandle.dreqEn = false
  finishReg : s.finishReg = false

inductive Phase : Prop
  /-- A hit. -/
  | ready (en : s.en = true) (idle : s.fsm.state = .idle) (finishReg : s.finishReg = false)
      (untouched : ∀ p, s.Untouched p) (direct : s.Direct)
  /-- The bus has done its part. -/
  | finished (en : s.en = true) (idle : s.fsm.state = .idle) (finishReg : s.finishReg = true)
      (oper : s.cacheHandle.cacheOper = .req) (dreqEn : s.cacheHandle.dreqEn = false)
      (served : ∀ p, s.Served p)
  /-- The next turn begins. -/
  | think (busy : s.Busy) (idle : s.fsm.state = .idle) (untouched : s.Untouched .two)
      (due : (s.Untouched .one ∧ (s.misses .one || s.bypasses .one) = true) ∨
        (s.Served .one ∧ (s.misses .two || s.bypasses .two) = true))
  | writeback (p : Port) (busy : s.Busy) (state : s.fsm.state = .writeback p)
      (misses : s.misses p = true) (fetch : s.ends.fetch p = false) (turn : s.Turn p)
  | fetch (p : Port) (busy : s.Busy) (state : s.fsm.state = .fetch p)
      (misses : s.misses p = true) (turn : s.Turn p)
  | uncache (p : Port) (busy : s.Busy) (state : s.fsm.state = .uncache p)
      (bypasses : s.bypasses p = true) (turn : s.Turn p)

/-- The last beat of a burst is a beat. -/
def Polite (i : Input) : Prop := i.dcresp.last = true → i.dcresp.ready = true

section Wires

variable {s i}

theorem fetchDue_eq (p : Port) : s.fetchDue p = (s.misses p && !s.ends.fetch p) := by
  simp only [fetchDue, misses]
  cases s.ends.fetch p <;> simp

theorem uncacheDue_eq (p : Port) : s.uncacheDue p = (s.bypasses p && !s.ends.uncache p) := rfl

/-- The same pair needs the same. -/
theorem misses_congr {t : State} (h : t.cacheHandle = s.cacheHandle) (p : Port) :
    t.misses p = s.misses p := by
  simp only [misses, req, sameLine, h]

theorem bypasses_congr {t : State} (h : t.cacheHandle = s.cacheHandle) (p : Port) :
    t.bypasses p = s.bypasses p := by
  simp only [bypasses, req, h]

theorem not_bypasses_of_misses {p : Port} (h : s.misses p = true) : s.bypasses p = false := by
  simp only [misses, Bool.and_eq_true, Bool.not_eq_true'] at h
  rw [bypasses, h.1.2, Bool.and_false]

theorem Direct.not_misses (h : s.Direct) (p : Port) : s.misses p = false := by
  rcases h with ⟨-, -, h⟩ | h
  · cases hv : (s.req p).valid with
    | false => simp [misses, hv]
    | true => simp [misses, (h p hv).1]
  · have hr : s.req p = default := by
      rw [req, h]
      rfl
    rw [misses, hr]
    rfl

theorem Direct.not_bypasses (h : s.Direct) (p : Port) : s.bypasses p = false := by
  rcases h with ⟨-, -, h⟩ | h
  · cases hv : (s.req p).valid with
    | false => simp [bypasses, hv]
    | true => simp [bypasses, (h p hv).2]
  · have hr : s.req p = default := by
      rw [req, h]
      rfl
    rw [bypasses, hr]
    rfl

/-- A pair ends with the state of its last turn. -/
theorem finishState_eq : s.finishState =
    if s.bypasses .two then .uncache .two
    else if s.misses .two then .fetch .two
    else if s.bypasses .one then .uncache .one
    else .fetch .one := by
  have h : s.misses .two = ((s.req .two).valid && !(s.cacheHandle.side .two).isUncached &&
      !(s.cacheHandle.side .two).hit && !s.sameLine) := by
    rw [misses]
    cases (s.req .two).valid <;> cases (s.cacheHandle.side .two).hit <;>
      cases (s.cacheHandle.side .two).isUncached <;> rfl
  rw [h]
  rfl

end Wires

/-! ### The clock edge -/

section Next

variable {s i}

@[simp] theorem next_en : (s.next i).en = s.enNext i := rfl

@[simp] theorem next_fsm : (s.next i).fsm = s.fsmNext i := rfl

@[simp] theorem next_ends : (s.next i).ends = s.endsNext := rfl

@[simp] theorem next_finishReg : (s.next i).finishReg = s.finish i := rfl

/-- While a pair is served it stays in the latch. -/
theorem next_cacheHandle (h : s.en = false) : (s.next i).cacheHandle = s.cacheHandle := by
  simp [next, h]

/-- The end of a pair, seen by the request that the bus serves. -/
theorem finish_of_req (ho : s.cacheHandle.cacheOper = .req) :
    s.finish i = (s.fsm.state == s.finishState && i.dcresp.last) := by
  have hw : (CacheOper.req == CacheOper.writebackInvalid) = false := rfl
  have hx : (CacheOper.req == CacheOper.indexStore) = false := rfl
  simp [finish, ho, hw, hx]

theorem Busy.finish_eq (h : s.Busy) :
    s.finish i = (s.fsm.state == s.finishState && i.dcresp.last) := finish_of_req h.oper

theorem Busy.not_finish (h : s.Busy) (hl : i.dcresp.last = false) : s.finish i = false := by
  rw [h.finish_eq, hl, Bool.and_false]

theorem finish_of_idle (hi : s.fsm.state = .idle)
    (ho : s.cacheHandle.cacheOper = .req ∨ s.cacheHandle.cacheOper = .null) :
    s.finish i = false := by
  have hn : (s.fsm.state == s.finishState) = false := by
    rw [hi, finishState_eq]
    split_ifs <;> rfl
  rcases ho with ho | ho <;> simp [finish, hn, ho]

theorem Busy.next (h : s.Busy) (hf : s.finish i = false) : (s.next i).Busy where
  en := by simp [enNext, h.en, hf]
  oper := by rw [next_cacheHandle h.en, h.oper]
  dreqEn := by rw [next_cacheHandle h.en, h.dreqEn]
  finishReg := hf

theorem Busy.fsm_fetch {p : Port} (h : s.Busy) (hs : s.fsm.state = .fetch p) :
    (s.next i).fsm = s.fsmFetch i p := by
  simp [fsmNext, h.en, hs]

theorem Busy.fsm_writeback {p : Port} (h : s.Busy) (hs : s.fsm.state = .writeback p) :
    (s.next i).fsm = s.fsmWriteback i (.writeback p) (.fetch p) := by
  simp [fsmNext, h.en, hs]

theorem Busy.fsm_uncache {p : Port} (h : s.Busy) (hs : s.fsm.state = .uncache p) :
    (s.next i).fsm =
      { s.fsm with state := if i.dcresp.last then .idle else .uncache p } := by
  simp [fsmNext, h.en, hs]

/-- A write-back ends with its last beat. -/
theorem Busy.writeback_next {p : Port} (h : s.Busy) (hs : s.fsm.state = .writeback p)
    (hp : Polite i) :
    (s.next i).fsm.state = if i.dcresp.last then .fetch p else .writeback p := by
  rw [h.fsm_writeback hs, fsmWriteback]
  cases hl : i.dcresp.last with
  | true =>
      rw [hp hl]
      rfl
  | false =>
      rw [hs]
      exact ite_self _

theorem Busy.ends_fetch (h : s.Busy) (p : Port) :
    (s.next i).ends.fetch p = (s.fsm.state == .fetch p || s.ends.fetch p) := by
  simp [endsNext, h.finishReg]

/-- The end of a refill. -/
theorem Busy.fetch_last {p : Port} (h : s.Busy) (hs : s.fsm.state = .fetch p)
    (hl : i.dcresp.last = true) (hp : Polite i) : (s.next i).fsm.state = .idle := by
  rw [h.fsm_fetch hs, fsmFetch, hp hl, hl]
  rfl

theorem Busy.fetch_more {p : Port} (h : s.Busy) (hs : s.fsm.state = .fetch p)
    (hl : i.dcresp.last = false) : (s.next i).fsm.state = .fetch p := by
  rw [h.fsm_fetch hs, fsmFetch, hl]
  split
  · rfl
  · exact hs

/-- A port whose states the machine is not in keeps its marks. -/
theorem Untouched.next {p : Port} (h : s.Untouched p) (hf : s.fsm.state ≠ .fetch p)
    (hw : s.fsm.state ≠ .writeback p) (hu : s.fsm.state ≠ .uncache p) :
    (s.next i).Untouched p := by
  have hn : ∀ t, s.fsm.state ≠ t → (s.fsm.state == t) = false := fun t ht => by simpa using ht
  cases hr : s.finishReg with
  | true => constructor <;> simp [endsNext, hr]
  | false =>
      constructor
      · simp [endsNext, hr, hn _ hf, h.fetch]
      · simp [endsNext, hr, hn _ hw, h.writeback]
      · simp [endsNext, hr, hn _ hu, h.uncache]

/-- A part that is over stays over. -/
theorem Served.next {p : Port} (h : s.Served p) (hb : s.Busy) : (s.next i).Served p where
  fetch hm := by
    rw [misses_congr (next_cacheHandle hb.en)] at hm
    simp [endsNext, hb.finishReg, h.fetch hm]
  uncache hm := by
    rw [bypasses_congr (next_cacheHandle hb.en)] at hm
    simp [endsNext, hb.finishReg, h.uncache hm]

/-- A refill ends the part of its port. -/
theorem served_of_fetch {p : Port} (hb : s.Busy) (hs : s.fsm.state = .fetch p)
    (hm : s.misses p = true) : (s.next i).Served p where
  fetch _ := by simp [endsNext, hb.finishReg, hs]
  uncache hu := by
    rw [bypasses_congr (next_cacheHandle hb.en), not_bypasses_of_misses hm] at hu
    cases hu

theorem served_of_uncache {p : Port} (hb : s.Busy) (hs : s.fsm.state = .uncache p)
    (hm : s.bypasses p = true) : (s.next i).Served p where
  fetch hf := by
    rw [misses_congr (next_cacheHandle hb.en)] at hf
    rw [not_bypasses_of_misses hf] at hm
    cases hm
  uncache _ := by simp [endsNext, hb.finishReg, hs]

/-- The end of a turn: the pair is complete, or the turn of the younger request begins. -/
theorem phase_of_served {p : Port} (hb : s.Busy) (hs : s.fsm.state = .fetch p ∨ s.fsm.state = .uncache p)
    (hsp : s.fsm.state = if s.bypasses p then .uncache p else .fetch p)
    (hm : (s.misses p || s.bypasses p) = true) (ht : s.Turn p) (hl : i.dcresp.last = true)
    (hi : (s.next i).fsm.state = .idle) (hp : (s.next i).Served p) : (s.next i).Phase := by
  have hh := next_cacheHandle (i := i) hb.en
  have hbyp := fun q => bypasses_congr hh q
  have hmis := fun q => misses_congr hh q
  -- the younger request has nothing left to do
  have finished (hf : s.fsm.state = s.finishState) (hq : ∀ q, (s.next i).Served q) :
      (s.next i).Phase := by
    have hfin : s.finish i = true := by simp [hb.finish_eq, hf, hl]
    refine .finished ?_ hi hfin ?_ ?_ hq
    · simp [enNext, hb.en, hfin]
    · rw [hh, hb.oper]
    · rw [hh, hb.dreqEn]
  cases p with
  | two =>
      refine finished ?_ ?_
      · rw [hsp, finishState_eq]
        cases hx : s.bypasses .two with
        | true => rfl
        | false =>
            rw [hx, Bool.or_false] at hm
            rw [hm]
            rfl
      · intro q
        cases q with
        | one => exact Served.next ht hb
        | two => exact hp
  | one =>
      cases hn : s.misses .two || s.bypasses .two with
      | false =>
          rw [Bool.or_eq_false_iff] at hn
          refine finished ?_ ?_
          · rw [hsp, finishState_eq, hn.1, hn.2]
            rfl
          · intro q
            cases q with
            | one => exact hp
            | two =>
                constructor
                · intro h
                  rw [hmis, hn.1] at h
                  cases h
                · intro h
                  rw [hbyp, hn.2] at h
                  cases h
      | true =>
          have hf : s.finish i = false := by
            rw [hb.finish_eq, finishState_eq]
            have hne : (s.fsm.state == if s.bypasses .two then .uncache .two
                else if s.misses .two then .fetch .two
                else if s.bypasses .one then .uncache .one else .fetch .one) = false := by
              rw [beq_eq_false_iff_ne]
              rcases hs with hs | hs <;> rw [hs] <;>
                cases h1 : s.bypasses .two <;> cases h2 : s.misses .two <;> simp_all
            rw [hne, Bool.false_and]
          refine .think (hb.next hf) hi ?_ (Or.inr ⟨hp, ?_⟩)
          · refine Untouched.next ht ?_ ?_ ?_ <;> rcases hs with hs | hs <;> rw [hs] <;> simp
          · rw [hmis, hbyp, hn]

/-- The cache takes the next pair. -/
structure Accepts (s : State) : Prop where
  en : s.en = true
  idle : s.fsm.state = .idle
  oper : s.cacheHandle.cacheOper = .req ∨ s.cacheHandle.cacheOper = .null
  marks : s.finishReg = true ∨ ∀ p, s.Untouched p

theorem Phase.accepts (h : s.Phase) (he : s.en = true) : s.Accepts := by
  cases h with
  | ready _ idle _ untouched direct =>
      refine ⟨he, idle, ?_, Or.inr untouched⟩
      rcases direct with ⟨-, ho, -⟩ | hd
      · exact Or.inl ho
      · exact Or.inr (by rw [hd]; rfl)
  | finished _ idle hf oper _ _ => exact ⟨he, idle, Or.inl oper, Or.inl hf⟩
  | think busy _ _ _ => rw [busy.en] at he; cases he
  | writeback _ busy _ _ _ _ => rw [busy.en] at he; cases he
  | fetch _ busy _ _ _ => rw [busy.en] at he; cases he
  | uncache _ busy _ _ _ => rw [busy.en] at he; cases he

/-- A pair is taken in a cycle that finishes nothing. -/
structure Latches (s : State) (i : Input) : Prop where
  en : s.en = true
  idle : s.fsm.state = .idle
  finish : s.finish i = false
  marks : s.finishReg = true ∨ ∀ p, s.Untouched p

theorem Accepts.latches (h : s.Accepts) : s.Latches i :=
  ⟨h.en, h.idle, finish_of_idle h.idle h.oper, h.marks⟩

/-- The pair is latched. -/
theorem Latches.cacheHandle (h : s.Latches i) : (s.next i).cacheHandle = s.handleNext i := by
  simp [State.next, h.en]

theorem Latches.fsm (h : s.Latches i) : (s.next i).fsm = s.fsm := by
  simp [fsmNext, h.en]

/-- The marks of a finished pair are taken away. -/
theorem untouched_next (hi : s.fsm.state = .idle)
    (hm : s.finishReg = true ∨ ∀ p, s.Untouched p) (p : Port) : (s.next i).Untouched p := by
  rcases hm with hf | hu
  · constructor <;> simp [endsNext, hf]
  · exact (hu p).next (by simp [hi]) (by simp [hi]) (by simp [hi])

theorem Latches.untouched (h : s.Latches i) (p : Port) : (s.next i).Untouched p :=
  untouched_next h.idle h.marks p

theorem Accepts.cacheHandle (h : s.Accepts) : (s.next i).cacheHandle = s.handleNext i :=
  h.latches.cacheHandle

theorem Accepts.fsm (h : s.Accepts) : (s.next i).fsm = s.fsm := h.latches.fsm

theorem Accepts.untouched (h : s.Accepts) (p : Port) : (s.next i).Untouched p :=
  h.latches.untouched p

/-- Without an operation the pair is one of requests. -/
theorem cacheOper_eq (hc : i.cacheInst = .unknown) : s.cacheOper i = .req := by
  have h1 : (DCacheInst.unknown == DCacheInst.hitInvalid) = false := rfl
  have h2 : (DCacheInst.unknown == DCacheInst.hitWritebackInvalid) = false := rfl
  have h3 : (DCacheInst.unknown == DCacheInst.indexWritebackInvalid) = false := rfl
  have h4 : (DCacheInst.unknown == DCacheInst.indexStoreTag) = false := rfl
  simp [State.cacheOper, invalidFlag, wbInvalidFlag, hc, h1, h2, h3, h4]

theorem Latches.cacheOper (h : s.Latches i) (hc : i.cacheInst = .unknown) :
    (s.next i).cacheHandle.cacheOper = .req := by
  rw [h.cacheHandle]
  exact cacheOper_eq hc

theorem dreqEn_eq (hc : i.cacheInst = .unknown) : s.dreqEn i =
    ((!(i.dreq .one).valid || s.cacheHit i .one) && (!(i.dreq .two).valid || s.cacheHit i .two)) := by
  have h1 : (DCacheInst.unknown == DCacheInst.hitInvalid) = false := rfl
  have h2 : (DCacheInst.unknown == DCacheInst.hitWritebackInvalid) = false := rfl
  rw [dreqEn, hc, h1, h2]
  cases (i.dreq .one).valid <;> cases (i.dreq .two).valid <;> simp

/-- Requests for one line hit together. -/
theorem hit_eq_of_sameLine (h : (i.dreq .one).addr.extractLsb' 6 26 =
    (i.dreq .two).addr.extractLsb' 6 26) : s.hit i .one = s.hit i .two := by
  obtain ⟨ht, hk⟩ := line_eq_iff.mp h
  rw [State.hit, State.hit, metaR, metaR, ht, hk]

theorem Latches.phase (h : s.Latches i) (hc : i.cacheInst = .unknown) : (s.next i).Phase := by
  have hfin : (s.next i).finishReg = false := h.finish
  have hen : (s.next i).en = s.dreqEn i := by
    cases hd : s.dreqEn i <;> simp [enNext, h.en, hd]
  have hside (p : Port) : (s.next i).cacheHandle.side p =
      ⟨s.hit i p, s.hitLine i p, i.dreq p, s.metaR i p, i.isUncached p⟩ := by
    rw [h.cacheHandle]
    rfl
  have hidle : (s.next i).fsm.state = .idle := by rw [h.fsm, h.idle]
  have hdreq : (s.next i).cacheHandle.dreqEn = s.dreqEn i := by
    rw [h.cacheHandle]
    rfl
  cases hd : s.dreqEn i with
  | true =>
      refine .ready (by rw [hen, hd]) hidle hfin h.untouched (Or.inl ⟨by rw [hdreq, hd],
        h.cacheOper hc, fun p hv => ?_⟩)
      rw [dreqEn_eq hc, Bool.and_eq_true] at hd
      have hp : (!(i.dreq p).valid || s.cacheHit i p) = true := by
        cases p with
        | one => exact hd.1
        | two => exact hd.2
      rw [req, hside] at hv
      rw [hside]
      simpa [show (i.dreq p).valid = true from hv, cacheHit, and_comm] using hp
  | false =>
      have hb : (s.next i).Busy := ⟨by rw [hen, hd], h.cacheOper hc, by rw [hdreq, hd], hfin⟩
      refine .think hb hidle (h.untouched .two) ?_
      have hreq (p : Port) : (s.next i).req p = i.dreq p := by rw [req, hside]
      -- a valid request that does not hit the cache
      have hneeds (p : Port) (hv : (!(i.dreq p).valid || s.cacheHit i p) = false)
          (hl : p = .two → i.isUncached .two = false → (s.next i).sameLine = false) :
          ((s.next i).misses p || (s.next i).bypasses p) = true := by
        rw [Bool.or_eq_false_iff, Bool.not_eq_false', cacheHit] at hv
        rw [misses, bypasses, hreq, hside, hv.1]
        cases hu : i.isUncached p with
        | true => simp
        | false =>
            have hs : (p == .two && (s.next i).sameLine) = false := by
              cases p with
              | one => rfl
              | two => exact hl rfl hu
            rw [hu] at hv
            simp [hs, show s.hit i p = false from hv.2]
      cases h1 : !(i.dreq .one).valid || s.cacheHit i .one with
      | false => exact Or.inl ⟨h.untouched .one, hneeds .one h1 (by simp)⟩
      | true =>
          right
          rw [dreqEn_eq hc, h1, Bool.true_and] at hd
          have hv1 : (i.dreq .one).valid = true →
              i.isUncached .one = false ∧ s.hit i .one = true := by
            intro hv
            simpa [hv, cacheHit] using h1
          refine ⟨⟨fun hm => ?_, fun hm => ?_⟩, hneeds .two hd fun _ hu => ?_⟩
          · simp only [misses, hreq, hside, Bool.and_eq_true, Bool.not_eq_true'] at hm
            rw [(hv1 hm.1.1.1).2] at hm
            cases hm.1.1.2
          · simp only [bypasses, hreq, hside, Bool.and_eq_true] at hm
            rw [(hv1 hm.1).1] at hm
            cases hm.2
          · rw [Bool.eq_false_iff]
            intro hl
            simp only [sameLine, hreq, hside, Bool.and_eq_true, beq_iff_eq, Bool.not_eq_true'] at hl
            have hh := hit_eq_of_sameLine (s := s) hl.1.1
            rw [(hv1 hl.1.2).2] at hh
            rw [cacheHit, ← hh, hu, Bool.or_eq_false_iff] at hd
            cases hd.2

/-- Where a turn begins. -/
theorem fsm_of_due (hb : s.Busy) (hi : s.fsm.state = .idle)
    (hd : (s.Untouched .one ∧ (s.misses .one || s.bypasses .one) = true) ∨
      (s.Served .one ∧ (s.misses .two || s.bypasses .two) = true))
    (hu : s.Untouched .two) :
    ∃ p, s.Turn p ∧ s.Untouched p ∧
      ((s.bypasses p = true ∧ (s.next i).fsm = { s.fsm with
          state := .uncache p
          delayCounter := false }) ∨
        (s.misses p = true ∧ (s.next i).fsm = s.startMiss p)) := by
  have hf : (s.next i).fsm = s.fsmIdle := by simp [fsmNext, hb.en, hi]
  have huc (p : Port) (h : s.Untouched p) : s.uncacheDue p = s.bypasses p := by
    rw [uncacheDue_eq, h.uncache, Bool.not_false, Bool.and_true]
  have hfe (p : Port) (h : s.Untouched p) : s.fetchDue p = s.misses p := by
    rw [fetchDue_eq, h.fetch, Bool.not_false, Bool.and_true]
  rw [hf, fsmIdle, hb.oper]
  dsimp only
  rcases hd with ⟨h1, hn⟩ | ⟨h1, hn⟩
  · refine ⟨.one, hu, h1, ?_⟩
    rw [huc _ h1, hfe _ h1]
    cases hx : s.bypasses .one with
    | true => exact Or.inl ⟨rfl, if_pos rfl⟩
    | false =>
        rw [hx, Bool.or_false] at hn
        exact Or.inr ⟨hn, by rw [hn]; rfl⟩
  · have hu1 : s.uncacheDue .one = false := by
      rw [uncacheDue_eq]
      cases hx : s.bypasses .one with
      | false => rfl
      | true => rw [h1.uncache hx]; rfl
    have hf1 : s.fetchDue .one = false := by
      rw [fetchDue_eq]
      cases hx : s.misses .one with
      | false => rfl
      | true => rw [h1.fetch hx]; rfl
    refine ⟨.two, h1, hu, ?_⟩
    rw [hu1, hf1, huc _ hu, hfe _ hu]
    cases hx : s.bypasses .two with
    | true => exact Or.inl ⟨rfl, rfl⟩
    | false =>
        rw [hx, Bool.or_false] at hn
        exact Or.inr ⟨hn, by rw [hn]; rfl⟩

/-- In a turn the marks of the other port stay. -/
theorem Turn.next {p : Port} (ht : s.Turn p) (hb : s.Busy)
    (hs : s.fsm.state = .idle ∨ s.fsm.state = .fetch p ∨ s.fsm.state = .writeback p ∨
      s.fsm.state = .uncache p) : (s.next i).Turn p := by
  cases p with
  | two => exact Served.next ht hb
  | one =>
      refine Untouched.next ht ?_ ?_ ?_ <;> rcases hs with hs | hs | hs | hs <;> rw [hs] <;> simp

theorem Phase.step (h : s.Phase) (hc : i.cacheInst = .unknown) (hp : Polite i) :
    (s.next i).Phase := by
  cases hen : s.en with
  | true => exact (h.accepts hen).latches.phase hc
  | false =>
      cases h with
      | ready en _ _ _ _ => rw [en] at hen; cases hen
      | finished en _ _ _ _ _ => rw [en] at hen; cases hen
      | think hb hi hu hd =>
          have hf : s.finish i = false := finish_of_idle hi (Or.inl hb.oper)
          obtain ⟨p, ht, hp, ⟨hm, hfsm⟩ | ⟨hm, hfsm⟩⟩ := fsm_of_due (i := i) hb hi hd hu
          · refine .uncache p (hb.next hf) (by rw [hfsm]) ?_ (ht.next hb (Or.inl hi))
            rw [bypasses_congr (next_cacheHandle hb.en), hm]
          · have hm' : (s.next i).misses p = true := by
              rw [misses_congr (next_cacheHandle hb.en), hm]
            cases hdirty : s.cacheDirtyOf p with
            | true =>
                refine .writeback p (hb.next hf) ?_ hm' ?_ (ht.next hb (Or.inl hi))
                · rw [hfsm, startMiss, hdirty, hp.writeback]
                  rfl
                · simp [endsNext, hb.finishReg, hi, hp.fetch]
            | false =>
                refine .fetch p (hb.next hf) ?_ hm' (ht.next hb (Or.inl hi))
                rw [hfsm, startMiss, hdirty]
                rfl
      | writeback p hb hs hm hfetch ht =>
          have hm' : (s.next i).misses p = true := by
            rw [misses_congr (next_cacheHandle hb.en), hm]
          have hf : s.finish i = false := by
            rw [hb.finish_eq, hs, finishState_eq]
            split_ifs <;> rfl
          have htn := ht.next (i := i) hb (Or.inr (Or.inr (Or.inl hs)))
          have hfe : (s.next i).ends.fetch p = false := by
            simp [endsNext, hb.finishReg, hs, hfetch]
          cases hl : i.dcresp.last with
          | true =>
              refine .fetch p (hb.next hf) ?_ hm' htn
              rw [hb.writeback_next hs hp, hl, if_pos rfl]
          | false =>
              refine .writeback p (hb.next hf) ?_ hm' hfe htn
              rw [hb.writeback_next hs hp, hl, if_neg Bool.false_ne_true]
      | fetch p hb hs hm ht =>
          have hbp := not_bypasses_of_misses hm
          cases hl : i.dcresp.last with
          | true =>
              refine phase_of_served hb (Or.inl hs) (by rw [hbp, hs]; rfl) (by rw [hm]; rfl) ht hl
                (hb.fetch_last hs hl hp) (served_of_fetch hb hs hm)
          | false =>
              refine .fetch p (hb.next (hb.not_finish hl)) (hb.fetch_more hs hl) ?_
                (ht.next hb (Or.inr (Or.inl hs)))
              rw [misses_congr (next_cacheHandle hb.en), hm]
      | uncache p hb hs hm ht =>
          cases hl : i.dcresp.last with
          | true =>
              refine phase_of_served hb (Or.inr hs) (by rw [hm, hs]; rfl)
                (by rw [hm, Bool.or_true]) ht hl ?_ (served_of_uncache hb hs hm)
              rw [hb.fsm_uncache hs, hl]
              rfl
          | false =>
              refine .uncache p (hb.next (hb.not_finish hl)) ?_ ?_
                (ht.next hb (Or.inr (Or.inr (Or.inr hs))))
              · rw [hb.fsm_uncache hs, hl]
                rfl
              · rw [bypasses_congr (next_cacheHandle hb.en), hm]

end Next

theorem phase_reset : ({} : State).Phase :=
  .ready rfl rfl rfl (fun _ => ⟨rfl, rfl, rfl⟩) (Or.inr rfl)

end State

end FrailCPU.DCache
