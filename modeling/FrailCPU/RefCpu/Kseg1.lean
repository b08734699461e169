import FrailCPU.RefCpu.VTop
import FrailCPU.RefCpu.Progress

/-!
# Accesses that pass the buffer by

The converter behind the multiplexer of `VTop` answers in the cycle behind the acceptance, when
the request is gone from the bus of the core, and with it the address that chooses the converter.
So the answer goes to nobody, and the core waits for it for ever.
-/

namespace FrailCPU.RefCpu

open Verilate ClockedMachine

namespace VTop

variable {s : VTop} {i : VTopInput} {ki kd : ℕ}

/-- The core waits for data that no buffer is about to answer with. -/
structure Hung (s : VTop) : Prop where
  waits : s.ctx.state = .loadAddrSent ∨ s.ctx.state = .storeAddrSent
  idle : s.dcvt0.state = .idle

theorem Hung.dreq (h : s.Hung) : s.ctx.dreq = default :=
  dreq_of_waits (by rcases h.waits with hs | hs <;> rw [hs] <;> rfl)

theorem Hung.step (h : s.Hung) (i : VTopInput) : (s.step i).Hung where
  waits := by
    have hd : (s.dresp i).dataOk = false := by
      rw [dresp_of_cached (uncached_of_default h.dreq), StupidBuffer.dresp, h.idle]
      rfl
    change (s.ctx.next (s.input i)).state = _ ∨ (s.ctx.next (s.input i)).state = _
    rw [Context.next_state, Context.out]
    rcases h.waits with hs | hs
    · left
      rw [hs]
      exact if_neg (Bool.eq_false_iff.1 hd)
    · right
      rw [hs]
      exact if_neg (Bool.eq_false_iff.1 hd)
  idle := dcvt0_of_default h.idle h.dreq

theorem Hung.events (h : s.Hung) (i : VTopInput) : (s.events i).filter Event.isInstr = [] := by
  have ha : s.toMachine.acts (s.input i) = [] := by
    unfold Machine.acts
    rcases h.waits with hs | hs <;> rw [hs]
  rw [VTop.events, Machine.events, ha]
  rfl

/-- A core that hangs does so for ever. -/
theorem Hung.run (h : s.Hung) (is : List VTopInput) :
    (ClockedMachine.run VTop.step s is).Hung ∧
      (collect VTop.step VTop.events s is).countP Event.isInstr = 0 := by
  refine ⟨run_invariant (fun s i h => h.step i) h is, ?_⟩
  rw [List.countP_eq_length_filter, collect_filter, List.length_eq_zero_iff]
  induction is generalizing s with
  | nil => rfl
  | cons i is ih => rw [collect_cons, h.events i, ih (h.step i), List.nil_append]

/-- The enabled cycles up to the acceptance of a request of `kseg1`. -/
def toHang (s : VTop) : ℕ :=
  if s.uncached then
    if s.bus.arbiter.busy then if s.bus.device.tx.busy then 1 else 2 else 3
  else 0

theorem toHang_of_uncached (hu : s.uncached = true) :
    s.toHang = if s.bus.arbiter.busy then if s.bus.device.tx.busy then 1 else 2 else 3 := by
  rw [toHang, hu]
  exact if_pos rfl

/-- An access that is accepted leaves the core behind. -/
theorem Inv.hung_of_okay (h : s.Inv ki kd) (hu : s.uncached = true)
    (hok : DBusToCBus.okay (s.iresps i 0) = true) : (s.step i).Hung where
  waits := Context.next_of_sent (Context.state_of_dreq (dreq_of_uncached hu))
    ((addrOk_of_uncached hu).trans hok) (h.dataOk_of_uncached hu)
  idle := dcvt0_of_uncached (h.phase_of_uncached hu).1 hu

/-- Every enabled cycle brings the access closer to its acceptance. -/
theorem Inv.step_uncached (h : s.Inv ki kd) (hu : s.uncached = true) (i : VTopInput) :
    (s.step i).uncached = true ∧ (s.step i).toHang + (if i.enable then 1 else 0) ≤ s.toHang ∨
      (s.step i).Hung := by
  obtain ⟨hs, hi, ho⟩ := h.phase_of_uncached hu
  have hsv := ho.serves i.enable (ireqs_of_uncached hu) (dreq_of_uncached hu) (Nat.zero_le _)
    fun _ _ hl => ireqs_of_idle hi hl
  cases hr : (s.iresps i 0).ready with
  | true =>
    refine Or.inr (h.hung_of_okay hu ?_)
    rw [DBusToCBus.okay, hr]
    exact hsv.beats.last hr
  | false =>
    left
    obtain ⟨-, hu'⟩ := dreq_of_not_okay (i := i) hu (by rw [DBusToCBus.okay, hr]; rfl)
    have hbusy : (s.step i).bus.arbiter.busy = true := (hsv.silent hr).busy
    refine ⟨hu', ?_⟩
    rw [toHang_of_uncached hu, toHang_of_uncached hu', hbusy, if_pos rfl]
    rcases ho with ho | ⟨ho, -⟩
    · have hresp : s.iresps i 0 = s.bus.device.evalResp i.enable := ho.iresps
      have hdev : (s.step i).bus.device = _ := ho.device_next (ireqs_of_uncached hu)
      rw [hdev, ho.busy, if_pos rfl]
      rw [hresp] at hr
      cases he : i.enable with
      | false => exact le_rfl
      | true =>
        cases hb : s.bus.device.tx.busy with
        | true =>
          rw [CBusDevice.evalResp, he, hb] at hr
          cases hr
        | false =>
          have hv : (translated (DBusToCBus.dcreq s.ctx.dreq)).valid = true := dreq_of_uncached hu
          have ht : (s.bus.device.next true (translated (DBusToCBus.dcreq s.ctx.dreq))).tx.busy =
              true := by
            rw [CBusDevice.next, hb, hv]
            rfl
          rw [ht]
          decide
    · have hdev : (s.step i).bus.device = s.bus.device := ho.device_next
      rw [hdev, ho.device, ho.arbiter]
      cases i.enable <;> decide

/-- Three enabled cycles behind a request of `kseg1` the core hangs. -/
theorem hung_of_uncached {js : List VTopInput} (h : ∃ ki kd, s.Inv ki kd)
    (hu : s.uncached = true) (hr : Along VTop.step (fun s _ => s.ctx.Regular) s js)
    (hn : s.toHang ≤ js.countP fun i => i.enable) :
    (ClockedMachine.run VTop.step s js).Hung := by
  induction js generalizing s with
  | nil =>
    rw [toHang_of_uncached hu] at hn
    split at hn
    · split at hn <;> cases hn
    · cases hn
  | cons i js ih =>
    obtain ⟨ki, kd, hk⟩ := h
    rcases hk.step_uncached hu i with ⟨hu', hle⟩ | hh
    · refine ih (hk.drives hr.1).kept hu' hr.2 ?_
      rw [List.countP_cons] at hn
      omega
    · exact (hh.run js).1

end VTop

/-- `LUI $1, 0xbfc0` and `LW $2, 0($1)` at the reset vector. -/
def loadKseg1 : ByteMemory.Memory :=
  ByteMemory.setWord (ByteMemory.setWord (fun _ => 0#8) 0x1fc00000#32 0x3c01bfc0#32)
    0x1fc00004#32 0x8c220000#32

end FrailCPU.RefCpu
