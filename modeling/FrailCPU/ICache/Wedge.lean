import FrailCPU.ICache.Cache

/-!
# Where fetch stops

The cache behind the address translation. A pair is accepted when both words hit, but the word
at `pc+4` is only fetched when its request is valid: if the translation or a CACHE operation on
the wires takes the request away while its line is missing, the cache neither accepts the pair
nor starts anything, and a request that is held finds it the same in every later cycle.
-/

namespace FrailCPU.ICache

open ClockedMachine

/-- What the fetch stage and the bus present to the translation and the cache. -/
structure FetchInput where
  mmu : MmuState
  ireq : IBusReq
  cacheInst : ICacheInst := .unknown
  icresp : CBusResp

/-- `v_ireq`. -/
def FetchInput.vIreq (f : FetchInput) : DCache.Port → IBusReq
  | .one => f.ireq
  | .two =>
    { valid := f.cacheInst == .unknown && f.ireq.valid
      addr := f.ireq.addr + 4#32 }

def FetchInput.toInput (f : FetchInput) : Input where
  ireq p := f.mmu.ireq (f.vIreq p)
  icresp := f.icresp
  cacheInst := f.cacheInst

namespace State

variable (s : State) (i : Input)

/-- A burst, a sweep or an answer, now or in the next cycle. -/
def Lively : Prop :=
  s.state ≠ .idle ∨ s.addrOk i = true ∨ (s.next i).state ≠ .idle

/-- The word at `pc+4` is missing and nobody asks for it. -/
structure Wedged : Prop where
  idle : s.state = .idle
  oper : s.validInst i = .unknown
  hit : s.hit i .one = true
  miss : s.hit i .two = false
  refused : (i.ireq .two).valid = false

variable {s i}

theorem cacheOper_of_unknown (h : s.validInst i = .unknown)
    (hv : (i.ireq .one).valid = true) :
    s.cacheOper i = .req := by
  rw [cacheOper, h, hv]
  rfl

theorem cacheOper_of_operation (h : s.validInst i ≠ .unknown)
    (hv : (i.ireq .one).valid = true) :
    s.cacheOper i = .invalid := by
  have hne : (s.validInst i != .unknown) = true := bne_iff_ne.mpr h
  rw [cacheOper, hne, hv]
  rfl

theorem en_of_idle (h : s.state = .idle) :
    s.en i = (s.validInst i == .unknown && s.ireqHit i) := by
  have h1 : (s.state == FsmState.idle) = true := beq_iff_eq.mpr h
  have h2 : (s.state == FsmState.invalidAll) = false := by
    rw [h]
    rfl
  rw [en, h1, h2, Bool.and_true, Bool.false_and, Bool.or_false]

theorem next_state_of_operation (h : s.state = .idle) (ho : s.cacheOper i = .invalid) :
    (s.next i).state = .invalidAll := by
  change (s.fsmNext i).state = _
  rw [fsmNext, h]
  dsimp only
  rw [ho]

theorem next_state_of_req (h : s.state = .idle) (ho : s.cacheOper i = .req) :
    (s.next i).state =
      if (i.ireq .one).valid && !s.hit i .one then .fetch .one
      else if s.hit i .one && (i.ireq .two).valid && !s.hit i .two then .fetch .two
      else .idle := by
  change (s.fsmNext i).state = _
  rw [fsmNext, h]
  dsimp only
  rw [ho]
  dsimp only
  split
  · rfl
  · split
    · rfl
    · exact h

theorem Wedged.not_lively (h : s.Wedged i) (hv : (i.ireq .one).valid = true) :
    ¬ s.Lively i := by
  rintro (hbusy | hok | hnext)
  · exact hbusy h.idle
  · rw [addrOk, en_of_idle h.idle, ireqHit, h.miss, Bool.and_false, Bool.and_false] at hok
    exact Bool.false_ne_true hok
  · rw [next_state_of_req h.idle (cacheOper_of_unknown h.oper hv), h.hit, h.refused] at hnext
    exact hnext (by simp)

/-- An idle cache with a request for `pc` does something unless it is wedged. -/
theorem lively_iff (hv : (i.ireq .one).valid = true) :
    s.Lively i ↔ ¬ s.Wedged i := by
  constructor
  · exact fun hl hw => hw.not_lively hv hl
  · intro hw
    by_cases hidle : s.state = .idle
    swap
    · exact Or.inl hidle
    by_cases ho : s.validInst i = .unknown
    swap
    · have hsweep := next_state_of_operation hidle (cacheOper_of_operation ho hv)
      exact Or.inr (Or.inr (by rw [hsweep]; decide))
    have hreq := next_state_of_req hidle (cacheOper_of_unknown ho hv)
    cases h1 : s.hit i .one with
    | false =>
        rw [hv, h1, Bool.not_false, Bool.and_true, if_pos rfl] at hreq
        exact Or.inr (Or.inr (by rw [hreq]; decide))
    | true =>
        cases h2 : s.hit i .two with
        | true =>
            have hen : s.en i = true := by
              rw [en_of_idle hidle, ho, ireqHit, hv, h1, h2]
              rfl
            exact Or.inr (Or.inl hen)
        | false =>
            have hv2 : (i.ireq .two).valid = true := by
              by_contra hn
              exact hw ⟨hidle, ho, h1, h2, Bool.not_eq_true _ ▸ hn⟩
            rw [hv, h1, hv2, h2] at hreq
            exact Or.inr (Or.inr (by rw [hreq]; decide))

/-- Nothing gets a wedged cache out of it while the requests are held. -/
theorem Wedged.next (h : s.Wedged i) (hv : (i.ireq .one).valid = true) :
    (s.next i).Wedged i := by
  have hoper := cacheOper_of_unknown h.oper hv
  have hidle : (s.next i).state = .idle := by
    by_contra hn
    exact h.not_lively hv (Or.inr (Or.inr hn))
  have hmeta : (s.next i).metaRam = s.metaRam := by
    change s.metaRamNext i = _
    have hen : s.metaEn i = false := by
      rw [metaEn, h.idle, hoper]
      rfl
    rw [metaRamNext, hen, if_neg Bool.false_ne_true]
  have haddr : ∀ p, (s.next i).metaAddr i p = s.metaAddr i p := by
    intro p
    cases p with
    | one => rw [metaAddr, metaAddr, hidle, h.idle]
    | two => rfl
  have hhit : ∀ p, (s.next i).hit i p = s.hit i p := by
    intro p
    rw [State.hit, State.hit, metaR, metaR, hmeta, haddr]
  refine ⟨hidle, ?_, ?_, ?_, h.refused⟩
  · have hen : s.en i = false := by
      rw [en_of_idle h.idle, ireqHit, h.miss, Bool.and_false, Bool.and_false]
    have ho := h.oper
    change (if (if !s.en i && !s.instSaved then true else if s.en i then false else s.instSaved)
      then (if !s.en i && !s.instSaved then i.cacheInst else s.instSave) else i.cacheInst) = _
    rw [validInst] at ho
    rw [hen]
    cases hs : s.instSaved with
    | true =>
        rw [hs] at ho
        exact ho
    | false =>
        rw [hs] at ho
        exact ho
  · rw [hhit, h.hit]
  · rw [hhit, h.miss]

/-- In a run of the translation and the cache, fetch goes on in every cycle with a request for
`pc` if and only if the cache is wedged in none of them. -/
theorem fetch_lively_iff (fs : List FetchInput) :
    Along (fun (s : State) f => s.next f.toInput)
        (fun s f => (f.toInput.ireq .one).valid = true → s.Lively f.toInput) {} fs ↔
      Along (fun (s : State) f => s.next f.toInput)
        (fun s f => (f.toInput.ireq .one).valid = true → ¬ s.Wedged f.toInput) {} fs := by
  constructor
  · exact fun h => h.mono fun s f hl hv => (lively_iff hv).mp (hl hv)
  · exact fun h => h.mono fun s f hw hv => (lively_iff hv).mpr (hw hv)

/-- The last word of the uncached segment is fetched while nothing maps the page behind it. -/
def lastWord (last : Bool) : FetchInput where
  mmu := ⟨fun _ => {}, 0#8, 3#3⟩
  ireq := ⟨true, 0xbffffffc#32⟩
  icresp := ⟨true, last, 0#32⟩

theorem not_fetch_lively_page :
    ¬ Along (fun (s : State) f => s.next f.toInput)
        (fun s f => (f.toInput.ireq .one).valid = true → s.Lively f.toInput) {}
        (List.replicate 16 (lastWord false) ++ [lastWord true, lastWord false]) := by
  intro h
  rw [along_append] at h
  have hlively := h.2.2.1 (by decide)
  exact absurd hlively (Wedged.not_lively ⟨by decide +kernel, by decide +kernel, by decide +kernel,
    by decide +kernel, by decide +kernel⟩ (by decide))

end State

end FrailCPU.ICache
