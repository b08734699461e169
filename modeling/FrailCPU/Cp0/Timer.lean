import FrailCPU.Cp0.Record

/-!
# The timer and the sources of interrupts

`Count` and `Compare` beside a timer that keeps to its description, and the `IP` field of
`Cause` beside the lines that an interrupt can come from. Nothing in `cp0.sv` sets `TI` or an
`IP` bit of a hardware line: the registers agree with the description as long as the counter
does not meet `Compare`, and a handler finds its source when that is a software bit.
-/

namespace FrailCPU

open ClockedMachine

namespace Cp0State

variable (s : Cp0State) (i : Cp0Input)

/-- `MTC0` writes the register `n` in this cycle. -/
def writes (n : BitVec 5) : Bool :=
  !s.takesInterrupt i && i.ctype != .exception && i.valid && i.wa == n ++ 0#3

end Cp0State

/-- The coprocessor with the timer as it is described: armed by the first write of `Compare`,
and with an interrupt of its own that is pending. -/
structure TimedCp0 where
  cp0 : Cp0State := {}
  armed : Bool := false
  ti : Bool := false

namespace TimedCp0

variable (t : TimedCp0) (i : Cp0Input)

/-- A clock edge. -/
def step : TimedCp0 where
  cp0 := t.cp0.step i
  armed := t.armed || t.cp0.writes i 11#5
  ti :=
    if t.cp0.writes i 11#5 then false
    else if t.armed && t.cp0.regs.count == t.cp0.regs.compare then true
    else t.ti

/-- The counter after the clock edge. -/
def countNxt : Word :=
  if t.cp0.writes i 9#5 then i.wd
  else if t.cp0.double then t.cp0.regs.count + 1#32
  else t.cp0.regs.count

/-- The clock edge keeps time, and leaves the interrupt of the timer as it is described; a
timer interrupt that is not masked is requested. -/
def KeepsTime : Prop :=
  (t.step i).cp0.regs.count = t.countNxt i ∧ (t.step i).cp0.regs.cause.ti = (t.step i).ti ∧
    ((t.step i).ti = true → (t.step i).cp0.regs.status.ie = true →
      (t.step i).cp0.regs.status.exl = false → (t.step i).cp0.regs.status.im.getLsbD 7 = true →
      ∀ extInt, (t.step i).cp0.regs.interrupt extInt = true)

/-- No tick falls on an instruction that names `Count` without writing it, and the counter does
not meet `Compare`. -/
def Undisturbed : Prop :=
  (t.cp0.double = true → i.wa.extractLsb' 3 5 = 9#5 → t.cp0.writes i 9#5 = true) ∧
    (t.armed = true → t.cp0.regs.count = t.cp0.regs.compare → t.cp0.writes i 11#5 = true)

end TimedCp0

section Fields

variable {r : Cp0Regs} {s : Cp0State} {i : Cp0Input}

@[simp] theorem recordPc_ti (pc : Word) (isSlot : Bool) :
    (r.recordPc pc isSlot).cause.ti = r.cause.ti := by
  rw [recordPc_eq]

@[simp] theorem recordPc_ip (pc : Word) (isSlot : Bool) :
    (r.recordPc pc isSlot).cause.ip = r.cause.ip := by
  rw [recordPc_eq]

/-- Nothing sets `TI`. -/
theorem write_ti (wa : BitVec 8) (wd : Word) : (r.write wa wd).cause.ti = r.cause.ti := by
  unfold Cp0Regs.write Cp0Regs.writeSel0
  split_ifs
  · split <;> rfl
  · rfl
  · rfl

/-- The bits of `IP` that belong to a hardware line are not written. -/
theorem write_ip (wa : BitVec 8) (wd : Word) {b : ℕ} (hb : 2 ≤ b) :
    (r.write wa wd).cause.ip.getLsbD b = r.cause.ip.getLsbD b := by
  have hmask : (Lanes.maskedWrite 0x03#8 r.cause.ip (wd.extractLsb' 8 8)).getLsbD b =
      r.cause.ip.getLsbD b := by
    by_cases hlt : b < 8
    · rw [Lanes.getLsbD_maskedWrite _ _ _ _ hlt, if_neg]
      interval_cases b <;> decide
    · rw [BitVec.getLsbD_of_ge _ _ (by omega), BitVec.getLsbD_of_ge _ _ (by omega)]
  unfold Cp0Regs.write Cp0Regs.writeSel0
  split_ifs
  · split <;> first | exact hmask | rfl
  · rfl
  · rfl

theorem writeSel0_count (n : BitVec 5) (wd : Word) :
    (r.writeSel0 n wd).count = if n = 9#5 then wd else r.count := by
  by_cases hn : n = 9#5
  · rw [if_pos hn, hn]
    rfl
  · rw [if_neg hn]
    unfold Cp0Regs.writeSel0
    split <;> first | rfl | exact absurd rfl hn

/-- A register address with selection 0 is told from its number. -/
theorem eq_append_zero_iff (wa : BitVec 8) (n : BitVec 5) :
    wa = n ++ 0#3 ↔ wa.extractLsb' 0 3 = 0#3 ∧ wa.extractLsb' 3 5 = n := by
  have hwa : wa.extractLsb' 3 5 ++ wa.extractLsb' 0 3 = wa.extractLsb' 0 (5 + 3) :=
    BitVec.extractLsb'_append_extractLsb'_eq_extractLsb' rfl
  rw [BitVec.extractLsb'_eq_self] at hwa
  constructor
  · rintro rfl
    exact ⟨BitVec.extractLsb'_append_eq_right, BitVec.extractLsb'_append_eq_left⟩
  · rintro ⟨h1, h2⟩
    rw [← hwa, h1, h2]

/-- `MTC0` writes the counter when it names it. -/
theorem write_count (wa : BitVec 8) (wd : Word) :
    (r.write wa wd).count = if wa = 9#5 ++ 0#3 then wd else r.count := by
  rw [Cp0Regs.write]
  by_cases h1 : wa.extractLsb' 0 3 = 0#3
  · rw [if_pos (beq_iff_eq.mpr h1), writeSel0_count]
    congr 1
    rw [eq_append_zero_iff]
    exact propext ⟨fun h2 => ⟨h1, h2⟩, fun h => h.2⟩
  · rw [if_neg (by rwa [beq_iff_eq]), if_neg fun h => h1 ((eq_append_zero_iff _ _).mp h).1]
    split <;> rfl

/-- A field of the registers that no event of the cycle changes but `MTC0`. -/
theorem step_field {α : Type} (field : Cp0Regs → α)
    (hx : ∀ r b, field (Cp0Regs.setExl r b) = field r)
    (hi : ∀ r : Cp0Regs, field (r.takeInterrupt i) = field r)
    (he : ∀ (r : Cp0Regs) code, field (r.takeException code i) = field r)
    (ht : ∀ (r : Cp0Regs) t resp, field (r.tlbResult t resp) = field r) :
    field (s.step i).regs =
      if !s.takesInterrupt i && i.ctype != .exception && i.valid then
        field ((s.counted i).write i.wa i.wd)
      else field (s.counted i) := by
  have hr : field (s.step i).regs = field (s.regsTaken i) := by
    change field (s.regsNxt i) = _
    rw [Cp0State.regsNxt]
    split
    · exact hx _ _
    · rfl
  rw [hr, Cp0State.regsTaken]
  cases s.takesInterrupt i with
  | true => exact hi _
  | false =>
      cases hc : i.ctype == .exception with
      | true =>
          rw [bne, hc]
          exact he _ _
      | false =>
          rw [bne, hc]
          cases i.valid with
          | true => rfl
          | false => exact ht _ _ _

theorem step_ti : (s.step i).regs.cause.ti = s.regs.cause.ti := by
  rw [step_field (fun r => r.cause.ti) (fun _ _ => rfl) (fun r => ?_) (fun r code => ?_)
    (fun r t resp => ?_)]
  · split
    · rw [write_ti, Cp0State.counted_cause]
    · rw [Cp0State.counted_cause]
  · exact recordPc_ti _ _
  · rw [takeException_eq]
  · cases t <;> rfl

theorem step_ip {b : ℕ} (hb : 2 ≤ b) :
    (s.step i).regs.cause.ip.getLsbD b = s.regs.cause.ip.getLsbD b := by
  rw [step_field (fun r => r.cause.ip.getLsbD b) (fun _ _ => rfl) (fun r => ?_)
    (fun r code => ?_) (fun r t resp => ?_)]
  · split
    · rw [write_ip _ _ hb, Cp0State.counted_cause]
    · rw [Cp0State.counted_cause]
  · exact congrArg (fun ip : BitVec 8 => ip.getLsbD b) (recordPc_ip _ _)
  · rw [takeException_eq]
  · cases t <;> rfl

theorem step_count : (s.step i).regs.count =
    if s.writes i 9#5 then i.wd else (s.counted i).count := by
  rw [step_field (fun r => r.count) (fun _ _ => rfl) (fun r => ?_) (fun r code => ?_)
    (fun r t resp => ?_)]
  · rw [write_count, Cp0State.writes]
    cases !s.takesInterrupt i && i.ctype != .exception && i.valid with
    | true => simp
    | false => rfl
  · rw [Cp0Regs.takeInterrupt, recordPc_eq]
    rfl
  · rw [takeException_eq]
  · cases t <;> rfl

end Fields

/-- A timer interrupt that the registers show and do not mask is requested. -/
theorem Cp0Regs.interrupt_of_ti {r : Cp0Regs} (hti : r.cause.ti = true)
    (hie : r.status.ie = true) (hexl : r.status.exl = false)
    (him : r.status.im.getLsbD 7 = true) (extInt : BitVec 6) :
    r.interrupt extInt = true := by
  rw [Cp0Regs.interrupt, hie, hexl, Bool.not_false, Bool.and_true, Bool.true_and, bne_iff_ne]
  intro hzero
  have h := congrArg (fun m : BitVec 8 => m.getLsbD 7) hzero
  rw [BitVec.getLsbD_and, him] at h
  simp [hti, bit] at h

namespace TimedCp0

variable {t : TimedCp0} {i : Cp0Input}

/-- Neither the register nor the description has seen the timer expire. -/
def Silent (t : TimedCp0) : Prop :=
  t.cp0.regs.cause.ti = false ∧ t.ti = false

theorem count_step_iff :
    (t.step i).cp0.regs.count = t.countNxt i ↔
      (t.cp0.double = true → i.wa.extractLsb' 3 5 = 9#5 → t.cp0.writes i 9#5 = true) := by
  have hinc : t.cp0.regs.count ≠ t.cp0.regs.count + 1#32 := by
    intro h
    exact absurd (BitVec.self_eq_add_right.mp h) (by decide)
  change (t.cp0.step i).regs.count = _ ↔ _
  rw [step_count, countNxt]
  cases hw : t.cp0.writes i 9#5 with
  | true => simp
  | false =>
      rw [if_neg Bool.false_ne_true, if_neg Bool.false_ne_true, Cp0State.counted]
      cases hd : t.cp0.double with
      | false => simp
      | true =>
          by_cases hwa : i.wa.extractLsb' 3 5 = 9#5
          · simp [hwa, hinc]
          · simp [hwa]

theorem ti_step_iff (h : t.Silent) :
    (t.step i).cp0.regs.cause.ti = (t.step i).ti ↔
      (t.armed = true → t.cp0.regs.count = t.cp0.regs.compare →
        t.cp0.writes i 11#5 = true) := by
  change (t.cp0.step i).regs.cause.ti = ite _ _ _ ↔ _
  rw [step_ti, h.1, h.2]
  cases t.cp0.writes i 11#5 with
  | true => simp
  | false =>
      rw [if_neg Bool.false_ne_true]
      cases t.armed with
      | false => simp
      | true =>
          by_cases hc : t.cp0.regs.count = t.cp0.regs.compare
          · simp [hc]
          · simp [hc]

theorem keepsTime_iff (h : t.Silent) :
    t.KeepsTime i ↔ t.Undisturbed i := by
  rw [KeepsTime, Undisturbed, count_step_iff, ← and_assoc, ti_step_iff h]
  constructor
  · exact fun hk => hk.1
  · intro hu
    refine ⟨hu, fun hti hie hexl him => ?_⟩
    exact Cp0Regs.interrupt_of_ti (((ti_step_iff h).mpr hu.2).trans hti) hie hexl him

/-- As long as the timer keeps its description it has nothing to show. -/
theorem Silent.step (h : t.Silent) (hu : t.Undisturbed i) :
    (t.step i).Silent := by
  have hreg : (t.step i).cp0.regs.cause.ti = false := step_ti.trans h.1
  exact ⟨hreg, ((ti_step_iff h).mpr hu.2).symm.trans hreg⟩

/-- A run from reset keeps time if and only if no step of it loses a tick or lets the counter
meet `Compare`. -/
theorem keeps_time_iff (is : List Cp0Input) :
    Along step KeepsTime {} is ↔ Along step Undisturbed {} is := by
  have h0 : Silent {} := ⟨rfl, rfl⟩
  constructor
  · intro hk
    exact hk.imp_of_kept (fun t i hs h => hs.step ((keepsTime_iff hs).mp h))
      (fun t i hs h => (keepsTime_iff hs).mp h) h0
  · intro hu
    exact hu.imp_of_kept (fun t i hs h => hs.step h)
      (fun t i hs h => (keepsTime_iff hs).mpr h) h0

/-- Once `Compare` holds 1, the counter reaches it and nothing is raised. -/
theorem not_keeps_time_compare :
    ¬ Along step KeepsTime {}
      [{ valid := true, wa := 11#5 ++ 0#3, wd := 1#32 }, {}, {}] := by
  intro h
  exact absurd h.2.2.1.2.1 (by decide)

end TimedCp0

/-- What an interrupt can come from. -/
inductive InterruptSource
  | line (k : Fin 6)
  | timer
  | soft (k : Fin 2)
  deriving DecidableEq

namespace InterruptSource

/-- The bit of `IP` and of the interrupt mask that belongs to the source. -/
def ipBit : InterruptSource → ℕ
  | line k => k + 2
  | timer => 7
  | soft k => k

def isSoft : InterruptSource → Bool
  | soft _ => true
  | _ => false

/-- A line is up on its pin, the timer while its interrupt is pending, and a software bit in
the register. -/
def asserted (t : TimedCp0) (i : Cp0Input) : InterruptSource → Bool
  | line k => i.extInt.getLsbD k
  | timer => t.ti
  | soft k => t.cp0.regs.cause.ip.getLsbD k

end InterruptSource

namespace TimedCp0

open InterruptSource

/-- `MFC0` of `Cause`. -/
def readCause (t : TimedCp0) : Word :=
  t.cp0.regs.read (13#5 ++ 0#3)

/-- `Cause` shows the source, and no `IP` bit of it stands for a source that is not asserted. -/
def Shows (src : InterruptSource) (t : TimedCp0) (i : Cp0Input) : Prop :=
  t.readCause.getLsbD (8 + src.ipBit) = true ∧
    (src = .timer → t.readCause.getLsbD 30 = true) ∧
    ∀ b < 8, t.readCause.getLsbD (8 + b) = true →
      ∃ other : InterruptSource, other.ipBit = b ∧ other.asserted t i = true

variable {t : TimedCp0} {i : Cp0Input}

theorem readCause_eq : t.readCause = t.cp0.regs.cause.toWord := rfl

theorem readCause_ip {b : ℕ} (hb : b < 8) :
    t.readCause.getLsbD (8 + b) = t.cp0.regs.cause.ip.getLsbD b := by
  rw [readCause_eq, Cp0Cause.toWord, BitVec.getLsbD_append, if_neg (by omega),
    BitVec.getLsbD_append, if_neg (by omega), BitVec.getLsbD_append, if_neg (by omega),
    BitVec.getLsbD_append, if_pos (by omega)]
  congr 1
  omega

theorem ipBit_lt (src : InterruptSource) : src.ipBit < 8 := by
  cases src with
  | line k => exact Nat.add_lt_add_right k.isLt 2
  | timer => exact Nat.lt_succ_self 7
  | soft k => exact k.isLt.trans (by decide)

theorem two_le_ipBit {src : InterruptSource} (h : src.isSoft = false) :
    2 ≤ src.ipBit := by
  cases src with
  | line k => exact Nat.le_add_left 2 k
  | timer => exact Nat.le_add_left 2 5
  | soft k => cases h

/-- The `IP` bits of the hardware lines read zero. -/
def Deaf (t : TimedCp0) : Prop :=
  ∀ b, 2 ≤ b → t.cp0.regs.cause.ip.getLsbD b = false

theorem deaf_reset : Deaf {} :=
  fun _ _ => BitVec.getLsbD_zero

theorem Deaf.step (h : t.Deaf) (i : Cp0Input) :
    (t.step i).Deaf :=
  fun b hb => (step_ip hb).trans (h b hb)

theorem Deaf.shows_soft (h : t.Deaf) {k : Fin 2} (hs : (soft k).asserted t i = true) :
    t.Shows (.soft k) i := by
  refine ⟨?_, fun h => (by cases h), fun b hb hread => ?_⟩
  · rw [readCause_ip (ipBit_lt _)]
    exact hs
  · rw [readCause_ip hb] at hread
    have hlt : b < 2 := by
      by_contra hge
      rw [h b (not_lt.mp hge)] at hread
      exact Bool.false_ne_true hread
    exact ⟨.soft ⟨b, hlt⟩, rfl, hread⟩

theorem Deaf.not_shows (h : t.Deaf) {src : InterruptSource} (hsrc : src.isSoft = false) :
    ¬ t.Shows src i := by
  intro hs
  have hread := hs.1
  rw [readCause_ip (ipBit_lt _), h _ (two_le_ipBit hsrc)] at hread
  exact Bool.false_ne_true hread

/-- A source that is asserted when its interrupt is entered can stay asserted. -/
theorem asserted_after {src : InterruptSource} (hsrc : src.isSoft = false)
    (hint : t.cp0.takesInterrupt i = true) (h : src.asserted t i = true) :
    src.asserted (t.step i) i = true := by
  cases src with
  | line k => exact h
  | timer =>
      have hw : t.cp0.writes i 11#5 = false := by
        rw [Cp0State.writes, hint]
        rfl
      have hti : t.ti = true := h
      change (if t.cp0.writes i 11#5 then false
        else if t.armed && t.cp0.regs.count == t.cp0.regs.compare then true else t.ti) = true
      rw [hw, if_neg Bool.false_ne_true, hti, ite_self]
  | soft k => cases hsrc

/-- After an interrupt is entered because of a source, `Cause` shows the source for as long as
it stays asserted if and only if the source is a software bit. -/
theorem shows_source_iff (is : List Cp0Input) (i : Cp0Input) (src : InterruptSource)
    (hint : (run step {} is).cp0.takesInterrupt i = true)
    (hasserted : src.asserted (run step {} is) i = true)
    (hmask : (run step {} is).cp0.regs.status.im.getLsbD src.ipBit = true) :
    (∀ js, Along step (fun t j => src.asserted t j = true) ((run step {} is).step i) js →
        Along step (Shows src) ((run step {} is).step i) js) ↔
      src.isSoft = true := by
  have hdeaf : (run step {} is).Deaf := run_invariant (fun t j h => h.step j) deaf_reset is
  constructor
  · intro hshows
    by_contra hsrc
    rw [Bool.not_eq_true] at hsrc
    have hone := hshows [i] ⟨asserted_after hsrc hint hasserted, trivial⟩
    exact (hdeaf.step i).not_shows hsrc hone.1
  · intro hsrc js hall
    cases src with
    | line k => cases hsrc
    | timer => cases hsrc
    | soft k =>
        exact hall.imp_of_invariant (fun t j h => h.step j) (fun t j h hs => h.shows_soft hs)
          (hdeaf.step i)

/-- Software raises an interrupt of its own. -/
def softRun : List Cp0Input :=
  [{ valid := true, wa := 12#5 ++ 0#3, wd := 0x101#32 },
    { valid := true, wa := 13#5 ++ 0#3, wd := 0x100#32 }]

theorem shows_source_soft :
    (soft 0).asserted (run step {} softRun) { interValid := true } = true ∧
      ∀ js, Along step (fun t j => (soft 0).asserted t j = true)
          ((run step {} softRun).step { interValid := true }) js →
        Along step (Shows (.soft 0)) ((run step {} softRun).step { interValid := true }) js :=
  ⟨by decide, (shows_source_iff softRun { interValid := true } (.soft 0) (by decide) (by decide)
    (by decide)).mpr rfl⟩

/-- A line that is held up and enabled enters its interrupt, and `Cause` shows nothing. -/
theorem not_shows_source_line :
    ¬ ∀ (is : List Cp0Input) (i : Cp0Input) (src : InterruptSource),
      (run step {} is).cp0.takesInterrupt i = true →
      src.asserted (run step {} is) i = true →
      (run step {} is).cp0.regs.status.im.getLsbD src.ipBit = true →
      ∀ js, Along step (fun t j => src.asserted t j = true) ((run step {} is).step i) js →
        Along step (Shows src) ((run step {} is).step i) js := by
  intro h
  have hshow := h [{ valid := true, wa := 12#5 ++ 0#3, wd := 0x401#32 }]
    { extInt := 1#6, interValid := true } (.line 0) (by decide) (by decide) (by decide)
    [{ extInt := 1#6 }] ⟨by decide, trivial⟩
  exact absurd hshow.1.1 (by decide)

end TimedCp0

end FrailCPU
