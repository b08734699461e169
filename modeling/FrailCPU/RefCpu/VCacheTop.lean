import FrailCPU.RefCpu.StupidBuffer
import FrailCPU.Library.Refinement

/-!
# The buffer on the simulated device

`VCacheTop.sv` connects the buffer to the device of the test bench and its client to the test.
Whatever the client asks for, and whenever the device is enabled, reads are answered with what
the writes that were taken before have left, the device finds nothing to object to, and a
request occupies the buffer for at most thirty-five enabled cycles. The last line of the address
space is excepted, where the wrap boundary of the device overflows.
-/

namespace FrailCPU.RefCpu

open ByteMemory Verilate ClockedMachine

/-- The buffer and the device, the monitor of the bus in front and the memory as the client
knows it. -/
structure VCacheTop where
  buffer : StupidBuffer := {}
  device : CBusDevice
  pend : Pending := none
  mem : Memory

structure VCacheInput where
  dreq : DBusReq := default
  enable : Bool := true

instance : Inhabited VCacheInput := ⟨{}⟩

namespace VCacheTop

variable (s : VCacheTop) (i : VCacheInput)

def cresp : CBusResp := s.device.evalResp i.enable

/-- The request that is taken in a cycle. -/
def taken : Option DBusReq := s.pend.accepted i.dreq s.buffer.dresp

def step : VCacheTop where
  buffer := s.buffer.next i.dreq (s.cresp i)
  device := s.device.next i.enable s.buffer.creq
  pend := s.pend.next i.dreq s.buffer.dresp
  mem :=
    match s.taken i with
    | some q => merged s.mem q.addr q
    | none => s.mem

def reset (mem : Memory) : VCacheTop := { device := { mem := mem }, mem := mem }

/-- The line of a request is not the last one. -/
def InRange : Prop := i.dreq.valid = true → i.dreq.addr.toNat / 64 + 1 < 2 ^ 26

instance : Decidable (InRange i) := inferInstanceAs (Decidable (_ → _))

/-- The request that the client has made and got no answer to is that of the buffer. -/
def Port : Prop :=
  match s.buffer.state with
  | .idle | .flush => s.pend = none
  | .fetch | .ready => s.pend = some s.buffer.req

structure Inv (k : ℕ) : Prop where
  port : s.Port
  beat : k ≤ 15
  line : s.buffer.state ≠ .idle → s.buffer.req.addr.toNat / 64 + 1 < 2 ^ 26
  holds : s.buffer.Holds s.buffer.req.addr s.device.mem s.mem k
  under : s.device.Under s.buffer.creq k
  free : s.buffer.creq.valid = false → s.device.tx.busy = false

end VCacheTop

namespace VCacheTop

variable {s : VCacheTop} {i : VCacheInput} {k : ℕ}

theorem inv_reset (mem : Memory) : (reset mem).Inv 0 where
  port := rfl
  beat := Nat.zero_le 15
  line h := absurd rfl h
  holds := rfl
  under := Or.inr ⟨rfl, rfl⟩
  free _ := rfl

theorem isLine (h : s.buffer.req.addr.toNat / 64 + 1 < 2 ^ 26) :
    AxiTransaction.IsLine s.buffer.creq := ⟨rfl, rfl, h⟩

theorem taken_eq_none (hs : s.buffer.state ≠ .idle) : s.taken i = none :=
  StupidBuffer.accepted_of_ne _ _ hs

theorem Inv.pend_idle (h : s.Inv k) (hs : s.buffer.state = .idle) : s.pend = none := by
  have hp := h.port
  simp only [Port, hs] at hp
  exact hp

theorem Inv.pend_ready (h : s.Inv k) (hs : s.buffer.state = .ready) :
    s.pend = some s.buffer.req := by
  have hp := h.port
  simp only [Port, hs] at hp
  exact hp

theorem Inv.mem_eq (h : s.Inv k) (hs : s.buffer.state = .idle) : s.mem = s.device.mem := by
  have hh := h.holds
  simp only [StupidBuffer.Holds, hs] at hh
  exact hh

theorem Inv.taken_idle (h : s.Inv k) (hs : s.buffer.state = .idle) :
    s.taken i = if i.dreq.valid then some i.dreq else none := by
  rw [taken, h.pend_idle hs]
  exact StupidBuffer.accepted_of_idle _ hs

theorem Inv.device_quiet (h : s.Inv k) (hv : s.buffer.creq.valid = false) (i : VCacheInput) :
    (s.step i).device = s.device := CBusDevice.next_of_free (h.free hv) hv

theorem step_mem_of_none (h : s.taken i = none) : (s.step i).mem = s.mem := by
  simp only [step, h]

theorem Inv.step_idle (h : s.Inv k) (hs : s.buffer.state = .idle) (hr : InRange i) :
    (s.step i).Inv 0 := by
  have hv := StupidBuffer.creq_of_idle hs
  have hfree := h.free hv
  have hd := h.device_quiet hv i
  have hm := h.mem_eq hs
  have hpend : (s.step i).pend = if i.dreq.valid then some i.dreq else none := by
    change s.pend.next i.dreq s.buffer.dresp = _
    rw [h.pend_idle hs]
    exact StupidBuffer.pend_of_idle _ hs
  have htaken := h.taken_idle (i := i) hs
  cases hreq : i.dreq.valid with
  | false =>
    rw [hreq] at hpend htaken
    have hb : (s.step i).buffer = s.buffer := by
      change s.buffer.next i.dreq (s.cresp i) = s.buffer
      simp only [StupidBuffer.next, StupidBuffer.ramNext, hs, hreq, Bool.false_eq_true, if_false]
      rw [← hs]
    have hmem := step_mem_of_none htaken
    refine ⟨?_, Nat.zero_le 15, ?_, ?_, ?_, ?_⟩
    · simp only [Port, hb, hs]
      exact hpend
    · rw [hb]
      exact h.line
    · rw [hb, hd, hmem]
      exact StupidBuffer.holds_of_idle hs hm
    · rw [hb, hd]
      exact CBusDevice.under_of_not_busy hfree
    · rw [hd]
      exact fun _ => hfree
  | true =>
    rw [hreq] at hpend htaken
    have hb : (s.step i).buffer = { s.buffer with
        state := .fetch
        req := i.dreq
        offset := lineOffset i.dreq.addr } := StupidBuffer.next_of_request hs hreq
    have hmem : (s.step i).mem = merged s.mem i.dreq.addr i.dreq := by
      simp only [step, htaken]
      rfl
    refine ⟨?_, Nat.zero_le 15, ?_, ?_, ?_, ?_⟩
    · simp only [Port, hb]
      exact hpend
    · rw [hb]
      exact fun _ => hr hreq
    · rw [hd, hmem, hm]
      have hreq' : (s.step i).buffer.req.addr = i.dreq.addr := by rw [hb]
      rw [hreq']
      exact StupidBuffer.holds_of_request hs hreq rfl rfl
    · rw [hd]
      exact CBusDevice.under_of_not_busy hfree
    · rw [hd]
      exact fun _ => hfree

/-- `READY`: the answer. -/
theorem Inv.step_ready (h : s.Inv k) (hs : s.buffer.state = .ready) : (s.step i).Inv 0 := by
  have hv := StupidBuffer.creq_of_ready hs
  have hfree := h.free hv
  have hd := h.device_quiet hv i
  have hne : s.buffer.state ≠ .idle := by simp [hs]
  have hmem := step_mem_of_none (taken_eq_none (i := i) hne)
  have hreq : (s.step i).buffer.req = s.buffer.req := StupidBuffer.next_req _ _ hne
  have hpend : (s.step i).pend = none := StupidBuffer.pend_of_ready _ _ hs
  obtain ⟨hn, hh⟩ := h.holds.ready_next i.dreq (s.cresp i) hs
  have hn' : (s.step i).buffer.state = .flush ∨ (s.step i).buffer.state = .idle := by
    change (s.buffer.next i.dreq (s.cresp i)).state = .flush ∨
      (s.buffer.next i.dreq (s.cresp i)).state = .idle
    rw [hn]
    split <;> simp
  refine ⟨?_, Nat.zero_le 15, ?_, ?_, ?_, ?_⟩
  · unfold Port
    rcases hn' with hn' | hn' <;> rw [hn'] <;> exact hpend
  · rw [hreq]
    exact fun _ => h.line hne
  · rw [hreq, hd, hmem]
    exact hh
  · rw [hd]
    exact CBusDevice.under_of_not_busy hfree
  · rw [hd]
    exact fun _ => hfree

/-- A cycle of a burst. -/
theorem Inv.step_busy (h : s.Inv k) (hv : s.buffer.creq.valid = true) :
    ∃ k, (s.step i).Inv k := by
  have hs := StupidBuffer.valid_iff.1 hv
  have hne := StupidBuffer.ne_idle_of_valid hv
  have hline := isLine (h.line hne)
  have hk : k ≤ s.buffer.creq.len.toNat := h.beat
  have hbeats := h.under.beats i.enable hk
  have hmem := step_mem_of_none (taken_eq_none (i := i) hne)
  have hreq : (s.step i).buffer.req = s.buffer.req := StupidBuffer.next_req _ _ hne
  have ht := h.holds.transfers i.dreq (a := s.buffer.creq.addr) hv h.beat hbeats
    (hline.base_beat k)
  have hpend : (s.step i).pend = s.pend := StupidBuffer.pend_of_busy _ _ hv
  have hport : ∀ st, (s.step i).buffer.state = st → (st = s.buffer.state ∨
      st = if s.buffer.state = .fetch then .ready else .idle) → (s.step i).Port := by
    intro st hst hc
    have hp := h.port
    unfold Port at hp ⊢
    rw [hst, hpend, hreq]
    rcases hs with hs | hs <;> rw [hs] at hp hc <;> rcases hc with rfl | rfl <;> exact hp
  have hattr : (s.step i).buffer.state = s.buffer.state →
      (s.step i).buffer.creq.attributes = s.buffer.creq.attributes := by
    intro hst
    simp only [CBusReq.attributes, StupidBuffer.creq, hst, hreq]
  have hvalid : (s.step i).buffer.state = s.buffer.state →
      (s.step i).buffer.creq.valid = true := by
    intro hst
    rw [← hv]
    simp only [StupidBuffer.creq, hst]
  have hline' : (s.step i).buffer.state ≠ .idle →
      (s.step i).buffer.req.addr.toNat / 64 + 1 < 2 ^ 26 := by
    rw [hreq]
    exact fun _ => h.line hne
  cases hr : (s.device.evalResp i.enable).ready with
  | false =>
    obtain ⟨hst, hh⟩ := ht.silent hr
    refine ⟨k, hport _ hst (Or.inl rfl), h.beat, hline', ?_, ?_, ?_⟩
    · rw [hreq, hmem]
      exact hh
    · exact (h.under.next_silent hv hr).congr (hattr hst)
    · intro hv'
      rw [hvalid hst] at hv'
      cases hv'
  | true =>
    rcases Nat.lt_or_eq_of_le h.beat with hlt | rfl
    · obtain ⟨hst, hh⟩ := ht.beat hr hlt
      refine ⟨k + 1, hport _ hst (Or.inl rfl), hlt, hline', ?_, ?_, ?_⟩
      · rw [hreq, hmem]
        exact hh
      · exact (h.under.next_beat hlt hr).congr (hattr hst)
      · intro hv'
        rw [hvalid hst] at hv'
        cases hv'
    · obtain ⟨hst, hh⟩ := ht.last hr rfl
      have hfree : (s.step i).device.tx.busy = false := h.under.next_last hr
      refine ⟨0, hport _ hst (Or.inr rfl), Nat.zero_le 15, hline', ?_, ?_, ?_⟩
      · rw [hreq, hmem]
        exact hh
      · exact CBusDevice.under_of_not_busy hfree
      · exact fun _ => hfree

theorem Inv.step (h : s.Inv k) (hr : InRange i) : ∃ k, (s.step i).Inv k := by
  cases hs : s.buffer.state with
  | idle => exact ⟨0, h.step_idle hs hr⟩
  | ready => exact ⟨0, h.step_ready hs⟩
  | fetch => exact h.step_busy (StupidBuffer.valid_iff.2 (Or.inl hs))
  | flush => exact h.step_busy (StupidBuffer.valid_iff.2 (Or.inr hs))

/-- What the client and the device see. -/
structure Transparent (s : VCacheTop) : Prop where
  answers : ∀ i : VCacheInput, ∀ q, s.pend.answered i.dreq s.buffer.dresp = some q →
    q.strobe = 0#4 → s.buffer.dresp.data = ByteMemory.word s.mem q.addr
  settled : s.buffer.state = .idle → s.device.mem = s.mem
  sane : s.device.tx.busy = true → s.device.Sane s.buffer.creq

theorem Inv.transparent (h : s.Inv k) : s.Transparent where
  answers i q hq hstr := by
    by_cases hs : s.buffer.state = .ready
    · rw [h.pend_ready hs, StupidBuffer.answered_of_ready _ hs] at hq
      obtain rfl := Option.some.inj hq
      exact h.holds.answer hs hstr
    · rw [StupidBuffer.answered_of_ne _ _ hs] at hq
      cases hq
  settled hs := (h.mem_eq hs).symm
  sane hb := by
    refine h.under.sane ?_ hb
    by_contra hv
    rw [h.free (Bool.eq_false_iff.2 hv)] at hb
    cases hb

/-- The enabled cycles that a request still occupies the buffer. -/
def remaining (s : VCacheTop) : ℕ :=
  match s.buffer.state with
  | .idle => 0
  | .fetch => 18 + s.device.burst
  | .ready => 18
  | .flush => s.device.burst

/-- The enabled cycles in which the buffer is occupied. -/
def occupied (s : VCacheTop) (i : VCacheInput) : List Unit :=
  if i.enable = true ∧ s.buffer.state ≠ .idle then [()] else []

theorem occupied_length (s : VCacheTop) (i : VCacheInput) : (s.occupied i).length ≤ 1 := by
  unfold occupied
  split <;> decide

/-- The two states with a burst. -/
theorem remaining_eq (hv : s.buffer.creq.valid = true) {t : VCacheTop}
    (hst : t.buffer.state = s.buffer.state) :
    t.remaining = t.device.burst + if s.buffer.state = .fetch then 18 else 0 := by
  rcases StupidBuffer.valid_iff.1 hv with hs | hs
  all_goals
    rw [hs] at hst
    simp only [remaining, hst, hs]
  · exact Nat.add_comm _ _
  · rfl

theorem Inv.bounded_busy (h : s.Inv k) (hv : s.buffer.creq.valid = true) :
    (s.occupied i).length + (s.step i).remaining ≤
      35 * (s.taken i).toList.length + s.remaining := by
  have hne := StupidBuffer.ne_idle_of_valid hv
  have ht := h.holds.transfers i.dreq hv h.beat
    (h.under.beats i.enable h.beat) ((isLine (h.line hne)).base_beat k)
  have hle := s.occupied_length i
  have h0 := remaining_eq hv (t := s) rfl
  cases he : i.enable with
  | false =>
    have ho : s.occupied i = [] := if_neg (by simp [he])
    have hd : (s.step i).device = s.device := by
      change s.device.next i.enable s.buffer.creq = _
      rw [he]
      rfl
    have hr : (s.device.evalResp i.enable).ready = false := by
      rw [he]
      rfl
    have h1 := remaining_eq hv (t := s.step i) (ht.silent hr).1
    rw [hd] at h1
    rw [ho, List.length_nil]
    omega
  | true =>
    have hb := h.under.burst_next hv h.beat rfl
    have hd : (s.step i).device = s.device.next true s.buffer.creq := by
      change s.device.next i.enable s.buffer.creq = _
      rw [he]
    rw [he] at ht
    by_cases hl : (s.device.evalResp true).ready = true ∧ k = 15
    · have hst : (s.step i).buffer.state = if s.buffer.state = .fetch then .ready else .idle := by
        have hst := (ht.last hl.1 hl.2).1
        rw [← he] at hst
        exact hst
      rw [if_pos hl] at hb
      have h1 : (s.step i).remaining ≤ if s.buffer.state = .fetch then 18 else 0 := by
        by_cases hf : s.buffer.state = .fetch
        · rw [if_pos hf] at hst ⊢
          simp only [remaining, hst, le_refl]
        · rw [if_neg hf] at hst ⊢
          simp only [remaining, hst, le_refl]
      omega
    · rw [if_neg hl, ← hd] at hb
      have hst : (s.step i).buffer.state = s.buffer.state := by
        change (s.buffer.next i.dreq (s.device.evalResp i.enable)).state = _
        rw [he]
        cases hr : (s.device.evalResp true).ready with
        | false => exact (ht.silent hr).1
        | true =>
          rcases Nat.lt_or_eq_of_le h.beat with hlt | rfl
          · exact (ht.beat hr hlt).1
          · exact absurd ⟨hr, rfl⟩ hl
      have h1 := remaining_eq hv hst
      omega

/-- A request pays for the cycles that it occupies the buffer. -/
theorem Inv.bounded (h : s.Inv k) :
    (s.occupied i).length + (s.step i).remaining ≤
      35 * (s.taken i).toList.length + s.remaining := by
  have hle := s.occupied_length i
  cases hs : s.buffer.state with
  | idle =>
    have ho : s.occupied i = [] := if_neg (by simp [hs])
    have hv := StupidBuffer.creq_of_idle hs
    have hd := h.device_quiet hv i
    rw [ho, h.taken_idle hs]
    cases hreq : i.dreq.valid with
    | false =>
      have hn : (s.step i).buffer.state = .idle := by
        change (s.buffer.next i.dreq (s.cresp i)).state = _
        simp only [StupidBuffer.next, hs, hreq, Bool.false_eq_true, if_false]
      simp only [remaining, hn, hs]
      exact Nat.zero_le _
    | true =>
      have hn : (s.step i).buffer.state = .fetch := by
        change (s.buffer.next i.dreq (s.cresp i)).state = _
        rw [StupidBuffer.next_of_request hs hreq]
      simp only [remaining, hn, hs, hd, CBusDevice.burst_of_free (h.free hv)]
      exact le_rfl
  | ready =>
    have hv := StupidBuffer.creq_of_ready hs
    have hd := h.device_quiet hv i
    have hb := CBusDevice.burst_of_free (h.free hv)
    have hn := (h.holds.ready_next i.dreq (s.cresp i) hs).1
    have hr : (s.step i).remaining ≤ 17 := by
      have hn' : (s.step i).buffer.state =
          if s.buffer.req.strobe ≠ 0#4 then .flush else .idle := hn
      by_cases hz : s.buffer.req.strobe ≠ 0#4
      · rw [if_pos hz] at hn'
        simp only [remaining, hn', hd, hb, le_refl]
      · rw [if_neg hz] at hn'
        simp only [remaining, hn', Nat.zero_le]
    have hrem : s.remaining = 18 := by simp only [remaining, hs]
    omega
  | fetch =>
    exact h.bounded_busy (StupidBuffer.valid_iff.2 (Or.inl hs))
  | flush => exact h.bounded_busy (StupidBuffer.valid_iff.2 (Or.inr hs))

end VCacheTop

open VCacheTop in
/-- Reads are answered with the memory as the client knows it, which the device has whenever the
buffer is idle; and the buffer is occupied for thirty-five enabled cycles a request. -/
theorem vcachetop_transparent (mem : Memory) {is : List VCacheInput}
    (h : Along VCacheTop.step (fun _ i => InRange i) (reset mem) is) :
    (run VCacheTop.step (reset mem) is).Transparent ∧
      (collect VCacheTop.step occupied (reset mem) is).length ≤
        35 * (collect VCacheTop.step (fun s i => (s.taken i).toList) (reset mem) is).length := by
  have hstep : ∀ (s : VCacheTop) (i : VCacheInput), (∃ k, s.Inv k) → InRange i →
      ∃ k, (s.step i).Inv k := fun s i h hr => h.elim fun k hk => hk.step hr
  constructor
  · obtain ⟨k, hk⟩ := Along.invariant hstep h ⟨0, inv_reset mem⟩
    exact hk.transparent
  · have hb := collect_bounded remaining hstep (fun s i h _ => h.elim fun k hk => hk.bounded) h
      ⟨0, inv_reset mem⟩
    exact (Nat.le_add_right _ _).trans hb

/-- A write and a read in the same line, on a device that pauses. -/
def writeThenReadLine : List VCacheInput :=
  { dreq := ⟨true, 0x104#32, .size4, 0b0011#4, 0x1234#32⟩ } ::
    (List.replicate 10 default ++ { enable := false } :: List.replicate 30 default ++
      { dreq := ⟨true, 0x104#32, .size4, 0#4, 0#32⟩ } :: List.replicate 17 default)

theorem vcachetop_transparent_writeThenReadLine :
    (run VCacheTop.step (VCacheTop.reset fun _ => 7#8) writeThenReadLine).Transparent ∧
      (collect VCacheTop.step VCacheTop.occupied (VCacheTop.reset fun _ => 7#8)
        writeThenReadLine).length ≤
        35 * (collect VCacheTop.step (fun s i => (s.taken i).toList)
          (VCacheTop.reset fun _ => 7#8) writeThenReadLine).length :=
  vcachetop_transparent (fun _ => 7#8) (by decide +kernel)

example : (run VCacheTop.step (VCacheTop.reset fun _ => 7#8) writeThenReadLine).buffer.dresp =
    ⟨false, true, 0x07071234#32⟩ := by decide +kernel

end FrailCPU.RefCpu
