import FrailCPU.Bus.View
import FrailCPU.DCache.Cache
import FrailCPU.Library.ByteMemory

/-!
# The device behind the simulated bus

`CBusDevice` of the Verilator test bench, which is to match `CBusToAXI`: it takes a request when
it has none, and from the next cycle on answers a beat of it in every cycle in which it is
enabled. The addresses of the beats are those of the AXI transfer pseudocode, which wrap around
in the block that the burst fills: sixteen words from anywhere in a line are the words of the
line, in the order of a four-bit counter.
-/

namespace FrailCPU.Verilate

open ByteMemory

/-- `AXITransaction`. -/
structure AxiTransaction where
  busy : Bool := false
  isWrite : Bool := false
  aligned : Bool := false
  n : Word := 0#32
  addr : Word := 0#32
  startAddress : Word := 0#32
  numberBytes : Word := 0#32
  burstLength : Word := 0#32
  alignedAddress : Word := 0#32
  lowerWrapBoundry : Word := 0#32
  upperWrapBoundry : Word := 0#32
  deriving DecidableEq, Repr

/-- `AXISize`. -/
def axiSize (size : MSize) : Word :=
  match size with
  | .size1 => 0#32
  | .size2 => 1#32
  | .size4 => 2#32

namespace AxiTransaction

variable (t : AxiTransaction)

/-- `init`, with the two fields that `eval_req` sets. -/
def start (req : CBusReq) : AxiTransaction :=
  let numberBytes := 1#32 <<< axiSize req.size
  let burstLength := req.len.setWidth 32 + 1#32
  let dtsize := numberBytes * burstLength
  let lower := req.addr / dtsize * dtsize
  { busy := true
    isWrite := req.isWrite
    aligned := false
    n := 1#32
    addr := req.addr
    startAddress := req.addr
    numberBytes := numberBytes
    burstLength := burstLength
    alignedAddress := req.addr / numberBytes * numberBytes
    lowerWrapBoundry := lower
    upperWrapBoundry := lower + dtsize }

/-- `sync`. -/
def sync : AxiTransaction :=
  let addr := (if t.aligned then t.addr else t.alignedAddress) + t.numberBytes
  { t with
    n := t.n + 1#32
    aligned := true
    addr := if t.upperWrapBoundry ≤ addr then t.lowerWrapBoundry else addr }

/-- `last`. -/
def last : Bool := t.n == t.burstLength

end AxiTransaction

/-- `CBusDevice`, on a memory that has every address. -/
structure CBusDevice where
  mem : Memory
  tx : AxiTransaction := {}

namespace CBusDevice

variable (d : CBusDevice) (enable : Bool) (req : CBusReq)

/-- `eval_resp`. -/
def evalResp : CBusResp :=
  if enable && d.tx.busy then
    ⟨true, d.tx.last, if d.tx.isWrite then 0#32 else ByteMemory.word d.mem d.tx.addr⟩
  else default

/-- `eval_req` and `sync`. -/
def next : CBusDevice :=
  if !enable then d
  else if d.tx.busy then
    { mem :=
        if d.tx.isWrite then
          setWord d.mem d.tx.addr (Lanes.maskedWrite (DCache.getMask req.strobe)
            (ByteMemory.word d.mem d.tx.addr) req.data)
        else d.mem
      tx := if d.tx.last then {} else d.tx.sync }
  else if req.valid then { d with tx := .start req }
  else d

/-- The sanity checks of `eval_req`. -/
structure Sane : Prop where
  valid : req.valid = true
  isWrite : req.isWrite = d.tx.isWrite
  size : 1#32 <<< axiSize req.size = d.tx.numberBytes
  addr : req.addr = d.tx.startAddress
  len : req.len.setWidth 32 + 1#32 = d.tx.burstLength

end CBusDevice

/-- A word of the line that an address lies in. -/
def lineWord (a : Word) (o : BitVec 4) : Word := (a.extractLsb' 6 26 ++ o ++ 0#2 : BitVec 32)

/-- The position of an address in its line. -/
def lineOffset (a : Word) : BitVec 4 := a.extractLsb' 2 4

section Lines

variable (a : Word) (o : BitVec 4)

theorem toNat_lineWord : (lineWord a o).toNat = a.toNat / 64 * 64 + o.toNat * 4 := by
  have ho := o.isLt
  have ha : (a.extractLsb' 6 26).toNat = a.toNat / 64 := by
    rw [BitVec.extractLsb'_toNat, Nat.shiftRight_eq_div_pow]
    have := a.isLt
    omega
  rw [lineWord, BitVec.toNat_append, BitVec.toNat_append, ha]
  simp only [BitVec.toNat_zero, Nat.or_zero]
  rw [← Nat.shiftLeft_add_eq_or_of_lt (by omega), Nat.shiftLeft_eq, Nat.shiftLeft_eq]
  omega

theorem toNat_lineOffset : (lineOffset a).toNat = a.toNat / 4 % 16 := by
  rw [lineOffset, BitVec.extractLsb'_toNat, Nat.shiftRight_eq_div_pow]

theorem base_lineWord : base (lineWord a o) = lineWord a o := by
  apply BitVec.eq_of_toNat_eq
  rw [toNat_base, toNat_lineWord]
  omega

/-- An address names a word of its line. -/
theorem lineWord_lineOffset : lineWord a (lineOffset a) = base a := by
  apply BitVec.eq_of_toNat_eq
  rw [toNat_base, toNat_lineWord, toNat_lineOffset]
  omega

variable {a o}

theorem lineWord_inj {o' : BitVec 4} (h : lineWord a o = lineWord a o') : o = o' := by
  have ht := congrArg BitVec.toNat h
  rw [toNat_lineWord, toNat_lineWord] at ht
  exact BitVec.eq_of_toNat_eq (by omega)

/-- The next word of a line, or its first one. -/
theorem lineWord_add_one :
    lineWord a (o + 1#4) = if o = 15#4 then lineWord a 0#4 else lineWord a o + 4#32 := by
  have ha := a.isLt
  have ho := o.isLt
  split
  case isTrue h =>
    rw [h]
    rfl
  case isFalse h =>
    have h15 : o.toNat ≠ 15 := fun ht => h (BitVec.eq_of_toNat_eq ht)
    apply BitVec.eq_of_toNat_eq
    rw [BitVec.toNat_add, toNat_lineWord, toNat_lineWord, BitVec.toNat_add]
    simp only [BitVec.toNat_ofNat]
    omega

end Lines

namespace AxiTransaction

variable (req : CBusReq) (k : ℕ)

/-- The transaction at a beat of a request. -/
def beat : AxiTransaction := sync^[k] (start req)

theorem beat_succ : beat req (k + 1) = (beat req k).sync := Function.iterate_succ_apply' sync k _

/-- Only the count and the address go on. -/
theorem beat_eq : ∃ x, beat req k = { start req with
    n := 1#32 + BitVec.ofNat 32 k
    aligned := decide (0 < k)
    addr := x } := by
  induction k with
  | zero => exact ⟨req.addr, rfl⟩
  | succ k ih =>
    obtain ⟨x, hx⟩ := ih
    rw [beat_succ, hx]
    refine ⟨(sync { start req with
      n := 1#32 + BitVec.ofNat 32 k
      aligned := decide (0 < k)
      addr := x }).addr, ?_⟩
    simp only [sync]
    congr 1
    rw [BitVec.add_assoc, BitVec.ofNat_add]

@[simp] theorem beat_busy : (beat req k).busy = true := by
  obtain ⟨x, hx⟩ := beat_eq req k
  rw [hx]
  rfl

@[simp] theorem beat_isWrite : (beat req k).isWrite = req.isWrite := by
  obtain ⟨x, hx⟩ := beat_eq req k
  rw [hx]
  rfl

/-- The last beat is the one that the length names. -/
theorem beat_last (hk : k ≤ req.len.toNat) :
    (beat req k).last = decide (k = req.len.toNat) := by
  obtain ⟨x, hx⟩ := beat_eq req k
  have hl := req.len.isLt
  rw [hx, last]
  apply Bool.eq_iff_iff.2
  rw [beq_iff_eq, decide_eq_true_iff, ← BitVec.toNat_inj]
  simp only [start, BitVec.toNat_add, BitVec.toNat_ofNat, BitVec.toNat_setWidth]
  omega

/-- A burst of a line. -/
structure IsLine (req : CBusReq) : Prop where
  size : req.size = .size4
  len : req.len = 15#4
  inside : req.addr.toNat / 64 + 1 < 2 ^ 26

variable {req}

theorem IsLine.start_eq (h : IsLine req) :
    (start req).numberBytes = 4#32 ∧ (start req).alignedAddress = base req.addr ∧
      (start req).lowerWrapBoundry = lineWord req.addr 0#4 ∧
      (start req).upperWrapBoundry.toNat = req.addr.toNat / 64 * 64 + 64 := by
  have hi := h.inside
  have ha := req.addr.isLt
  have hl : (req.addr / 64#32 * 64#32).toNat = req.addr.toNat / 64 * 64 := by
    simp only [BitVec.toNat_mul, BitVec.toNat_udiv, BitVec.toNat_ofNat, Nat.reducePow,
      Nat.reduceMod]
    omega
  have h4 : (1#32 <<< axiSize .size4 : Word) = 4#32 := by decide
  have h64 : (4#32 * (BitVec.setWidth 32 15#4 + 1#32) : Word) = 64#32 := by decide
  simp only [start, h.size, h.len, h4, h64]
  refine ⟨trivial, ?_, ?_, ?_⟩
  · apply BitVec.eq_of_toNat_eq
    rw [toNat_base]
    simp only [BitVec.toNat_mul, BitVec.toNat_udiv, BitVec.toNat_ofNat, Nat.reducePow,
      Nat.reduceMod]
    omega
  · apply BitVec.eq_of_toNat_eq
    rw [hl, toNat_lineWord]
    simp
  · rw [BitVec.toNat_add, hl]
    simp only [BitVec.toNat_ofNat]
    omega

/-- The word that the address of a transaction lies in, as `sync` counts on from it. -/
def cursor (t : AxiTransaction) : Word := if t.aligned then t.addr else t.alignedAddress

theorem IsLine.cursor_beat (h : IsLine req) :
    (beat req k).cursor = lineWord req.addr (lineOffset req.addr + BitVec.ofNat 4 k) := by
  obtain ⟨h4, ha, hl, hu⟩ := h.start_eq
  induction k with
  | zero =>
    change (start req).alignedAddress = _
    rw [ha, ← lineWord_lineOffset]
    exact congrArg _ (BitVec.add_zero _).symm
  | succ k ih =>
    obtain ⟨x, hx⟩ := beat_eq req k
    rw [beat_succ, BitVec.ofNat_add, ← BitVec.add_assoc, lineWord_add_one, ← ih]
    generalize lineOffset req.addr + BitVec.ofNat 4 k = o at ih
    have hn : (beat req k).sync.cursor =
        if (start req).upperWrapBoundry ≤ (beat req k).cursor + 4#32 then lineWord req.addr 0#4
        else (beat req k).cursor + 4#32 := by
      rw [hx, ← h4, ← hl]
      rfl
    have hi := h.inside
    have ho := o.isLt
    have ht : ((beat req k).cursor + 4#32).toNat = req.addr.toNat / 64 * 64 + o.toNat * 4 + 4 := by
      rw [ih, BitVec.toNat_add, toNat_lineWord]
      simp only [BitVec.toNat_ofNat]
      omega
    have hc : (start req).upperWrapBoundry ≤ (beat req k).cursor + 4#32 ↔ o = 15#4 := by
      rw [BitVec.le_def, hu, ht, ← BitVec.toNat_inj]
      simp only [BitVec.toNat_ofNat]
      omega
    rw [hn]
    simp only [hc]

/-- The beats of a line are its words, from the one that was asked for. -/
theorem IsLine.base_beat (h : IsLine req) :
    base (beat req k).addr = lineWord req.addr (lineOffset req.addr + BitVec.ofNat 4 k) := by
  have hc := h.cursor_beat k
  obtain ⟨x, hx⟩ := beat_eq req k
  cases k with
  | zero =>
    change base req.addr = _
    rw [← lineWord_lineOffset]
    exact congrArg _ (BitVec.add_zero _).symm
  | succ k =>
    have ha : (beat req (k + 1)).cursor = (beat req (k + 1)).addr := by
      rw [hx]
      exact if_pos (decide_eq_true (Nat.succ_pos k))
    rw [← ha, hc, base_lineWord]

end AxiTransaction

namespace CBusDevice

open AxiTransaction

/-- The device is at a beat of a request that is held, or has not taken it yet. -/
def Under (d : CBusDevice) (req : CBusReq) (k : ℕ) : Prop :=
  d.tx = beat req k ∨ k = 0 ∧ d.tx.busy = false

/-- What a cycle of the device does for the request. -/
structure Beats (m : Memory) (p : Word) (req : CBusReq) (k : ℕ) (resp : CBusResp)
    (m' : Memory) : Prop where
  silent : resp.ready = false → resp.last = false ∧ m' = m
  last : resp.ready = true → resp.last = decide (k = req.len.toNat)
  read : resp.ready = true → req.isWrite = false → resp.data = ByteMemory.word m p ∧ m' = m
  write : resp.ready = true → req.isWrite = true → m' = setWord m p
    (Lanes.maskedWrite (DCache.getMask req.strobe) (ByteMemory.word m p) req.data)

section Under

variable {d : CBusDevice} {req req' : CBusReq} {k : ℕ} {enable : Bool}

theorem start_congr (h : req'.attributes = req.attributes) : start req' = start req := by
  simp only [CBusReq.attributes, Attributes.mk.injEq] at h
  simp only [start, h.1, h.2.1, h.2.2.1, h.2.2.2]

/-- Only the data of a request may change. -/
theorem Under.congr (h : d.Under req k) (ha : req'.attributes = req.attributes) :
    d.Under req' k := by
  rw [Under, beat, start_congr ha]
  exact h

theorem under_of_not_busy (h : d.tx.busy = false) : d.Under req 0 := Or.inr ⟨rfl, h⟩

/-- A device that answers is at a beat. -/
theorem Under.tx_eq (h : d.Under req k) (hb : d.tx.busy = true) : d.tx = beat req k := by
  rcases h with h | ⟨-, h⟩
  · exact h
  · rw [hb] at h
    cases h

theorem evalResp_of_ready (h : (d.evalResp enable).ready = true) :
    enable = true ∧ d.tx.busy = true := by
  unfold evalResp at h
  split at h
  case isTrue hc => exact Bool.and_eq_true_iff.1 hc
  case isFalse => cases h

theorem next_of_ready (h : (d.evalResp enable).ready = true) :
    d.next enable req =
      { mem :=
          if d.tx.isWrite then
            setWord d.mem d.tx.addr (Lanes.maskedWrite (DCache.getMask req.strobe)
              (ByteMemory.word d.mem d.tx.addr) req.data)
          else d.mem
        tx := if d.tx.last then {} else d.tx.sync } := by
  obtain ⟨he, hb⟩ := evalResp_of_ready h
  rw [next, he, hb]
  rfl

theorem next_mem_of_not_ready (h : (d.evalResp enable).ready = false) :
    (d.next enable req).mem = d.mem := by
  unfold next
  cases he : enable with
  | false => rfl
  | true =>
    cases hb : d.tx.busy with
    | false => cases req.valid <;> rfl
    | true =>
      rw [evalResp, he, hb] at h
      cases h

variable (enable) in
/-- A request that is held is served beat by beat. -/
theorem Under.beats (h : d.Under req k) (hk : k ≤ req.len.toNat) :
    Beats d.mem (beat req k).addr req k (d.evalResp enable) (d.next enable req).mem where
  silent hr := by
    refine ⟨?_, next_mem_of_not_ready hr⟩
    unfold evalResp at hr ⊢
    split at hr
    · cases hr
    case isFalse hc =>
      rw [if_neg hc]
      rfl
  last hr := by
    obtain ⟨he, hb⟩ := evalResp_of_ready hr
    rw [evalResp, he, hb, ← beat_last req k hk, ← h.tx_eq hb]
    rfl
  read hr hw := by
    obtain ⟨he, hb⟩ := evalResp_of_ready hr
    have ht := h.tx_eq hb
    have hiw : d.tx.isWrite = false := by rw [ht, beat_isWrite, hw]
    rw [next_of_ready hr, evalResp, he, hb, hiw, ← ht]
    exact ⟨rfl, rfl⟩
  write hr hw := by
    obtain ⟨he, hb⟩ := evalResp_of_ready hr
    have ht := h.tx_eq hb
    have hiw : d.tx.isWrite = true := by rw [ht, beat_isWrite, hw]
    rw [next_of_ready hr, hiw, ← ht]
    rfl

/-- The device goes on to the next beat, or is free behind the last one. -/
theorem Under.next_beat (h : d.Under req k) (hk : k < req.len.toNat)
    (hr : (d.evalResp enable).ready = true) : (d.next enable req).Under req (k + 1) := by
  have ht := h.tx_eq (evalResp_of_ready hr).2
  left
  rw [next_of_ready hr, ht, beat_last req k hk.le, decide_eq_false hk.ne, beat_succ]
  rfl

theorem Under.next_last (h : d.Under req req.len.toNat)
    (hr : (d.evalResp enable).ready = true) : (d.next enable req).tx.busy = false := by
  have ht := h.tx_eq (evalResp_of_ready hr).2
  rw [next_of_ready hr, ht, beat_last req _ le_rfl, decide_eq_true rfl]
  rfl

theorem Under.next_silent (h : d.Under req k) (hv : req.valid = true)
    (hr : (d.evalResp enable).ready = false) : (d.next enable req).Under req k := by
  unfold next
  cases he : enable with
  | false => exact h
  | true =>
    cases hb : d.tx.busy with
    | false =>
      rw [hv]
      rcases h with h | ⟨rfl, -⟩
      · rw [h, beat_busy] at hb
        cases hb
      · exact Or.inl rfl
    | true =>
      rw [evalResp, he, hb] at hr
      cases hr

/-- The sanity checks hold for a request that is held. -/
theorem Under.sane (h : d.Under req k) (hv : req.valid = true) (hb : d.tx.busy = true) :
    d.Sane req := by
  have ht := h.tx_eq hb
  obtain ⟨x, hx⟩ := beat_eq req k
  rw [hx] at ht
  exact ⟨hv, by rw [ht]; rfl, by rw [ht]; rfl, by rw [ht]; rfl, by rw [ht]; rfl⟩

/-- A device that is not asked stays as it is. -/
theorem next_of_free (hb : d.tx.busy = false) (hv : req.valid = false) :
    d.next enable req = d := by
  rw [next, hb, hv]
  cases enable <;> rfl

theorem evalResp_of_free (hb : d.tx.busy = false) : d.evalResp enable = default := by
  rw [evalResp, hb, Bool.and_false]
  rfl

/-- The enabled cycles that a burst of a line still takes. -/
def burst (d : CBusDevice) : ℕ := if d.tx.busy then 17 - d.tx.n.toNat else 17

theorem burst_of_free (h : d.tx.busy = false) : d.burst = 17 := by
  rw [burst, h]
  rfl

theorem burst_of_beat (h : d.tx = beat req k)
    (hk : k ≤ 15) : d.burst = 16 - k := by
  obtain ⟨x, hx⟩ := beat_eq req k
  have hn : d.tx.n.toNat = k + 1 := by
    rw [h, hx]
    simp only [BitVec.toNat_add, BitVec.toNat_ofNat]
    omega
  rw [burst, h, beat_busy, if_pos rfl, ← h, hn]
  omega

/-- An enabled cycle of a burst counts. -/
theorem Under.burst_next (h : d.Under req k) (hv : req.valid = true)
    (hk : k ≤ 15) (hl : req.len = 15#4) :
    if (d.evalResp true).ready = true ∧ k = 15 then d.burst = 1
    else (d.next true req).burst + 1 = d.burst := by
  have hlen : req.len.toNat = 15 := by
    rw [hl]
    rfl
  cases hb : d.tx.busy with
  | false =>
    have hr : (d.evalResp true).ready = false := by
      rw [evalResp_of_free hb]
      rfl
    rw [if_neg (by simp [hr]), burst_of_free hb]
    have ht : (d.next true req).tx = beat req 0 := by
      rw [next, hb, hv]
      rfl
    rw [burst_of_beat ht (Nat.zero_le 15)]
  | true =>
    have ht := h.tx_eq hb
    have hr : (d.evalResp true).ready = true := by
      rw [evalResp, hb]
      rfl
    rw [burst_of_beat ht hk]
    rcases Nat.lt_or_eq_of_le hk with hlt | rfl
    · rw [if_neg (by omega)]
      have hnext := h.next_beat (hlen ▸ hlt) hr
      have ht' : (d.next true req).tx = beat req (k + 1) := by
        rcases hnext with hnext | ⟨h0, -⟩
        · exact hnext
        · exact absurd h0 (Nat.succ_ne_zero k)
      rw [burst_of_beat ht' hlt]
      omega
    · rw [if_pos ⟨hr, rfl⟩]

end Under

end CBusDevice

end FrailCPU.Verilate
