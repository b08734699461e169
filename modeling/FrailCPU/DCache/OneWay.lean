import FrailCPU.DCache.Tags
import FrailCPU.Library.Machine

/-!
# One way for a tag

The tag array is written a set at a time: with the entry of a victim replaced after a miss, or
with the entry of a CACHE instruction taken out. Either is done to a set that was read from the
array, so a tag never stands in two valid ways, and the way that `hit_line` names is the only
one that hits.
-/

namespace FrailCPU.DCache

open ClockedMachine

section Sets

variable {m : Meta} {t : Tag}

theorem uniqueTags_default : UniqueTags fun _ => default := by
  intro w v hw
  cases hw

/-- The way that hits is the one that `hit_line` names. -/
theorem UniqueTags.hitBits_iff (hu : UniqueTags m) (h : hit m t = true) (w : Way) :
    hitBits m t w = true ↔ w = hitLine m t := by
  have hl := hitLine_spec h
  constructor
  · intro hw
    rw [hitBits, Bool.and_eq_true, beq_iff_eq] at hw
    exact hu w (hitLine m t) hw.1 (by rw [hl]) (by rw [hl]; exact hw.2)
  · rintro rfl
    rw [hitBits, hl, Bool.true_and, beq_iff_eq]

end Sets

namespace State

variable (s : State) (i : Input)

/-- A refill of `p` goes on or is about to begin. -/
def Refills (p : Port) : Prop := s.fsm.state = .fetch p ∨ s.fsm.state = .writeback p

/-- The array and the sets that were read from it have their tags apart. -/
structure TagsApart : Prop where
  tags : ∀ k, UniqueTags (s.metaRam k)
  read : ∀ p, UniqueTags (s.cacheHandle.side p).metaR
  hit : ∀ p, (s.cacheHandle.side p).hit =
    DCache.hit (s.cacheHandle.side p).metaR (tagOf (s.req p).addr)
  hitLine : ∀ p, (s.cacheHandle.side p).hitLine =
    DCache.hitLine (s.cacheHandle.side p).metaR (tagOf (s.req p).addr)
  oper : s.cacheHandle.cacheOper ≠ .indexStore
  refill : ∀ p, s.Refills p → s.en = false ∧ s.cacheHandle.cacheOper = .req ∧
    (s.cacheHandle.side p).hit = false

/-- Any cycle of the cache but for the instruction that writes a tag of its own. -/
structure Admits (i : Input) : Prop where
  inst : i.cacheInst ≠ .indexStoreTag
  polite : Polite i

instance : Decidable (Admits i) :=
  decidable_of_iff (i.cacheInst ≠ .indexStoreTag ∧ (i.dcresp.last = true → i.dcresp.ready = true))
    ⟨fun h => ⟨h.1, h.2⟩, fun h => ⟨h.1, h.2⟩⟩

theorem tagsApart_reset : ({} : State).TagsApart where
  tags _ := uniqueTags_default
  read _ := uniqueTags_default
  hit _ := rfl
  hitLine _ := rfl
  oper h := by cases h
  refill _ h := by rcases h with h | h <;> cases h

variable {s i}

section Step

variable (h : s.TagsApart)

include h

/-- What is written has its tags apart. -/
theorem TagsApart.metaW : UniqueTags (s.metaW i) := by
  rw [State.metaW]
  cases ho : s.cacheHandle.cacheOper with
  | invalid => exact (h.read .one).invalidate _
  | writebackInvalid =>
      dsimp only
      split
      · exact (h.read .one).invalidate _
      · exact h.read .one
  | indexStore => exact absurd ho h.oper
  | null => exact uniqueTags_default
  | req =>
      dsimp only
      split
      · rename_i p hs
        refine (h.read p).update ?_
        rw [← h.hit p]
        exact (h.refill p (Or.inl hs)).2.2
      · exact uniqueTags_default

theorem TagsApart.metaRam (k : Index) : UniqueTags ((s.next i).metaRam k) := by
  change UniqueTags (s.metaRamNext i k)
  rw [metaRamNext]
  split
  · by_cases hk : k = s.metaWAddr
    · rw [hk, Function.update_self]
      exact h.metaW
    · rw [Function.update_of_ne hk]
      exact h.tags k
  · exact h.tags k

omit h in
theorem cacheOper_ne (hi : i.cacheInst ≠ .indexStoreTag) : s.cacheOper i ≠ .indexStore := by
  rw [cacheOper]
  split_ifs with h1 h2 h3 <;> simp_all

omit h in
/-- An idle machine begins the refill that is due. -/
theorem fetchDue_of_fsmIdle {p : Port} (hs : s.fsm.state = .idle)
    (hr : s.fsmIdle.state = .fetch p ∨ s.fsmIdle.state = .writeback p) :
    s.cacheHandle.cacheOper = .req ∧ s.fetchDue p = true := by
  have hstart (q : Port) (hq : s.fetchDue q = true)
      (hx : (s.startMiss q).state = .fetch p ∨ (s.startMiss q).state = .writeback p) :
      s.fetchDue p = true := by
    have hqp : q = p := by
      rw [startMiss] at hx
      dsimp only at hx
      split_ifs at hx <;> rcases hx with hx | hx <;> cases hx <;> rfl
    rw [← hqp]
    exact hq
  rw [fsmIdle] at hr
  cases ho : s.cacheHandle.cacheOper with
  | req =>
      refine ⟨rfl, ?_⟩
      rw [ho] at hr
      dsimp only at hr
      split_ifs at hr with h1 h2 h3 h4
      · rcases hr with hr | hr <;> cases hr
      · exact hstart .one h2 hr
      · rcases hr with hr | hr <;> cases hr
      · exact hstart .two h4 hr
      · rw [hs] at hr
        rcases hr with hr | hr <;> cases hr
  | writebackInvalid =>
      rw [ho] at hr
      dsimp only at hr
      split_ifs at hr
      · rcases hr with hr | hr <;> cases hr
      · rw [hs] at hr
        rcases hr with hr | hr <;> cases hr
  | indexStore =>
      rw [ho] at hr
      dsimp only at hr
      split_ifs at hr
      · rcases hr with hr | hr <;> cases hr
      · rw [hs] at hr
        rcases hr with hr | hr <;> cases hr
  | invalid =>
      rw [ho, hs] at hr
      rcases hr with hr | hr <;> cases hr
  | null =>
      rw [ho, hs] at hr
      rcases hr with hr | hr <;> cases hr

omit h in
/-- What comes before a refill in the next cycle. -/
theorem refills_before {p : Port} (hp : Polite i) (he : s.en = false)
    (hr : (s.next i).Refills p) :
    s.Refills p ∧ ¬ (s.fsm.state = .fetch p ∧ i.dcresp.last = true) ∨
      s.fsm.state = .idle ∧ s.cacheHandle.cacheOper = .req ∧ s.fetchDue p = true := by
  have hfsm : (s.next i).fsm = s.fsmNext i := rfl
  rw [Refills, hfsm, fsmNext, he, if_neg Bool.false_ne_true] at hr
  cases hs : s.fsm.state with
  | idle =>
      rw [hs] at hr
      exact Or.inr ⟨rfl, fetchDue_of_fsmIdle hs hr⟩
  | fetch q =>
      left
      rw [hs] at hr
      dsimp only [fsmFetch] at hr
      have hpq : q = p ∧ i.dcresp.last = false := by
        cases hl : i.dcresp.last with
        | true =>
            rw [hp hl, hl] at hr
            rcases hr with hr | hr <;> cases hr
        | false =>
            rw [hl] at hr
            refine ⟨?_, rfl⟩
            cases hy : i.dcresp.ready with
            | true =>
                rw [hy] at hr
                rcases hr with hr | hr <;> cases hr
                rfl
            | false =>
                rw [hy, if_neg Bool.false_ne_true, hs] at hr
                rcases hr with hr | hr <;> cases hr
                rfl
      rw [Refills, hs, hpq.1]
      exact ⟨Or.inl rfl, fun hx => by rw [hpq.2] at hx; cases hx.2⟩
  | writeback q =>
      left
      rw [hs] at hr
      have hpq : q = p := by
        simp only [fsmWriteback, hs] at hr
        split_ifs at hr <;> rcases hr with hr | hr <;> cases hr <;> rfl
      rw [Refills, hs, hpq]
      exact ⟨Or.inr rfl, fun hx => by cases hx.1⟩
  | uncache q =>
      rw [hs] at hr
      dsimp only at hr
      split_ifs at hr <;> rcases hr with hr | hr <;> cases hr
  | store =>
      rw [hs] at hr
      dsimp only at hr
      split_ifs at hr <;> rcases hr with hr | hr <;> cases hr
  | writebackInst =>
      rw [hs] at hr
      simp only [fsmWriteback, hs] at hr
      split_ifs at hr <;> rcases hr with hr | hr <;> cases hr

omit h in
/-- The pair in the latch is not complete before the end of a refill. -/
theorem not_finish_of_refill {p : Port} (ho : s.cacheHandle.cacheOper = .req)
    (hr : s.Refills p ∧ ¬ (s.fsm.state = .fetch p ∧ i.dcresp.last = true) ∨ s.fsm.state = .idle) :
    s.finish i = false := by
  rcases hr with ⟨hs | hs, hn⟩ | hs
  · have hl : i.dcresp.last = false := Bool.eq_false_iff.mpr fun hl => hn ⟨hs, hl⟩
    rw [finish_of_req ho, hl, Bool.and_false]
  · have hne : (s.fsm.state == s.finishState) = false := by
      rw [hs, finishState_eq]
      split_ifs <;> rfl
    rw [finish_of_req ho, hne, Bool.false_and]
  · exact finish_of_idle hs (Or.inl ho)

theorem TagsApart.next (ha : Admits i) : (s.next i).TagsApart := by
  cases he : s.en with
  | true =>
      -- the pair that is offered is taken
      have hh : (s.next i).cacheHandle = s.handleNext i := if_pos he
      have hreq (p : Port) : (s.next i).req p = i.dreq p := by
        rw [req, hh]
        rfl
      refine ⟨h.metaRam, fun p => ?_, fun p => ?_, fun p => ?_, ?_, fun p hr => ?_⟩
      · rw [hh]
        exact h.tags _
      · rw [hreq, hh]
        rfl
      · rw [hreq, hh]
        rfl
      · rw [hh]
        exact cacheOper_ne ha.inst
      · have hf : (s.next i).fsm = s.fsm := if_pos he
        rw [Refills, hf] at hr
        rw [(h.refill p hr).1] at he
        cases he
  | false =>
      have hh := next_cacheHandle (i := i) he
      have hreq (p : Port) : (s.next i).req p = s.req p := by rw [req, req, hh]
      refine ⟨h.metaRam, fun p => ?_, fun p => ?_, fun p => ?_, ?_, fun p hr => ?_⟩
      · rw [hh]
        exact h.read p
      · rw [hreq, hh]
        exact h.hit p
      · rw [hreq, hh]
        exact h.hitLine p
      · rw [hh]
        exact h.oper
      · have hb := refills_before ha.polite he hr
        have hpair : s.cacheHandle.cacheOper = .req ∧ (s.cacheHandle.side p).hit = false := by
          rcases hb with ⟨hr', -⟩ | ⟨-, ho, hd⟩
          · exact (h.refill p hr').2
          · rw [fetchDue_eq, Bool.and_eq_true] at hd
            exact ⟨ho, hit_of_misses hd.1⟩
        have hfin : s.finish i = false :=
          not_finish_of_refill hpair.1 (hb.imp id fun hx => hx.1)
        refine ⟨?_, ?_⟩
        · change s.enNext i = false
          rw [enNext, he, hfin]
          rfl
        · rw [hh]
          exact hpair

end Step

/-- No set of the data cache ever holds a tag in two valid ways, and `hit_line` names the one way
that hits: for the pair that is offered, and for the pair that was accepted. -/
structure OneWay (s : State) : Prop where
  tags : ∀ k, UniqueTags (s.metaRam k)
  offered : ∀ i p, s.hit i p = true →
    ∀ w, hitBits (s.metaR i p) (tagOf (i.dreq p).addr) w = true ↔ w = s.hitLine i p
  accepted : ∀ p, (s.cacheHandle.side p).hit = true →
    ∀ w, hitBits (s.cacheHandle.side p).metaR (tagOf (s.req p).addr) w = true ↔
      w = (s.cacheHandle.side p).hitLine

theorem TagsApart.oneWay (h : s.TagsApart) : s.OneWay where
  tags := h.tags
  offered i p hh w := (h.tags _).hitBits_iff hh w
  accepted p hh w := by
    rw [h.hit p] at hh
    rw [h.hitLine p]
    exact (h.read p).hitBits_iff hh w

/-- Every state that is reached by pairs of any kind and by the instructions that take a line
out has one way for a tag. -/
theorem one_way (is : List Input) (h : Along next (fun _ => Admits) {} is) :
    (run next {} is).OneWay := by
  have hd : (run next {} is).TagsApart := h.invariant (fun _ _ hd ha => hd.next ha) tagsApart_reset
  exact hd.oneWay

/-- A pair that misses, the refill of its first request under way, and a CACHE instruction. -/
def missRun : List Input :=
  let load : DBusReq := ⟨true, 0x40#32, .size4, 0#4, 0#32⟩
  [⟨fun _ => load, fun _ => false, default, .unknown, 0#32⟩,
    ⟨fun _ => load, fun _ => false, default, .unknown, 0#32⟩,
    ⟨fun _ => load, fun _ => false, ⟨true, true, 7#32⟩, .unknown, 0#32⟩,
    ⟨fun _ => load, fun _ => false, default, .hitInvalid, 0#32⟩]

theorem one_way_missRun :
    missRun.length = 4 ∧ (run next {} missRun).OneWay :=
  ⟨rfl, one_way missRun ⟨by decide, by decide, by decide, by decide, trivial⟩⟩

end State

end FrailCPU.DCache
