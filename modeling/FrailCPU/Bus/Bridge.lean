import FrailCPU.Bus.View
import FrailCPU.Library.Machine

/-!
# The bridge to AXI

`CBusToAXI.sv`: a transaction of the cache bus is handed to the five channels of AXI, which
finish in any order. The bits of `in_issue` tell which of them are still open, and one counter
serves the beats of reads and of writes. The bridge is observed from both sides: `AxiView`
gathers the handshakes of a transaction until all its channels are finished.
-/

namespace FrailCPU

open ClockedMachine

/-- `busy_t`: a bit for each channel. -/
structure Channels where
  ar : Bool := false
  r : Bool := false
  aw : Bool := false
  w : Bool := false
  b : Bool := false
  deriving DecidableEq

def Channels.any (c : Channels) : Bool := c.ar || c.r || c.aw || c.w || c.b

/-- `AXI_BURST_FIXED`, … -/
inductive AxiBurst
  | fixed | incr | wrap | reserved
  deriving DecidableEq, Inhabited

/-- An address channel, less what is tied to zero. -/
structure AxiAddress where
  addr : Word := 0#32
  len : MLen := 0#4
  size : MSize := .size1
  burst : AxiBurst := .fixed
  deriving DecidableEq

/-- What the AXI slave drives. -/
structure AxiIn where
  arready : Bool := false
  rdata : Word := 0#32
  rlast : Bool := false
  rvalid : Bool := false
  awready : Bool := false
  wready : Bool := false
  bvalid : Bool := false

/-- What the bridge drives. -/
structure AxiOut where
  arvalid : Bool := false
  ar : AxiAddress := {}
  rready : Bool := false
  awvalid : Bool := false
  aw : AxiAddress := {}
  wvalid : Bool := false
  wdata : Word := 0#32
  wstrb : Strobe := 0#4
  wlast : Bool := false
  bready : Bool := false

structure Bridge where
  inIssue : Channels := {}
  savedReq : CBusReq := default
  count : MLen := 0#4

structure BridgeInput where
  creq : CBusReq
  axi : AxiIn

namespace Bridge

variable (s : Bridge) (i : BridgeInput)

/-- `next_issue`. -/
def nextIssue : Channels :=
  if i.creq.isWrite then { aw := true, w := true, b := true } else { ar := true, r := true }

def isLast : Bool := s.count == 0#4

def busy : Bool := s.inIssue.any

def handshake : Channels where
  ar := s.inIssue.ar && i.axi.arready
  r := s.inIssue.r && i.axi.rvalid
  aw := s.inIssue.aw && i.axi.awready
  w := s.inIssue.w && i.axi.wready
  b := s.inIssue.b && i.axi.bvalid

/-- The AXI driver. -/
def axi : AxiOut where
  arvalid := s.inIssue.ar
  ar := if s.inIssue.ar then ⟨s.savedReq.addr, s.savedReq.len, s.savedReq.size, .wrap⟩ else {}
  rready := s.inIssue.r
  awvalid := s.inIssue.aw
  aw := if s.inIssue.aw then ⟨s.savedReq.addr, s.savedReq.len, s.savedReq.size, .wrap⟩ else {}
  wvalid := s.inIssue.w
  wdata := if s.inIssue.w then i.creq.data else 0#32
  wstrb := if s.inIssue.w then i.creq.strobe else 0#4
  wlast := s.inIssue.w && s.isLast
  bready := s.inIssue.b

def ended : Channels where
  ar := (s.handshake i).ar
  r := (s.handshake i).r && i.axi.rlast
  aw := (s.handshake i).aw
  w := (s.handshake i).w && (s.axi i).wlast
  b := (s.handshake i).b

def remain : Channels where
  ar := s.inIssue.ar ^^ (s.ended i).ar
  r := s.inIssue.r ^^ (s.ended i).r
  aw := s.inIssue.aw ^^ (s.ended i).aw
  w := s.inIssue.w ^^ (s.ended i).w
  b := s.inIssue.b ^^ (s.ended i).b

def ready : Bool := (s.handshake i).w || (s.handshake i).r

/-- The cache bus driver. -/
def cresp : CBusResp where
  ready := s.ready i
  last := s.ready i && (!s.inIssue.r || i.axi.rlast) && s.isLast
  data := i.axi.rdata

/-- A clock edge with `aresetn` high. -/
def next : Bridge :=
  if s.busy then
    { s with
      count := if (s.cresp i).ready && !(s.cresp i).last then s.count - 1#4 else s.count
      inIssue := s.remain i }
  else
    { inIssue := if i.creq.valid then nextIssue i else s.inIssue
      savedReq := i.creq
      count := i.creq.len }

end Bridge

/-! ### The two sides -/

/-- The handshakes of one transaction, channel by channel: the addresses, the words read with
`rlast`, the words written with `wstrb` and `wlast`, and the number of responses. -/
structure AxiTransaction where
  ar : List AxiAddress := []
  r : List (Word × Bool) := []
  aw : List AxiAddress := []
  w : List (Word × Strobe × Bool) := []
  b : ℕ := 0
  deriving DecidableEq

attribute [ext] AxiTransaction

namespace AxiTransaction

variable (x : AxiTransaction) (o : AxiOut) (i : AxiIn)

/-- The transaction with the handshakes of a cycle. -/
def add : AxiTransaction where
  ar := if o.arvalid && i.arready then x.ar ++ [o.ar] else x.ar
  r := if o.rready && i.rvalid then x.r ++ [(i.rdata, i.rlast)] else x.r
  aw := if o.awvalid && i.awready then x.aw ++ [o.aw] else x.aw
  w := if o.wvalid && i.wready then x.w ++ [(o.wdata, o.wstrb, o.wlast)] else x.w
  b := if o.bready && i.bvalid then x.b + 1 else x.b

/-- A read is finished with its address and its last word, a write with its address, its last
word and the response. -/
def finished : Bool :=
  (!x.ar.isEmpty && x.r.any Prod.snd) || (!x.aw.isEmpty && x.w.any (·.2.2) && x.b != 0)

end AxiTransaction

/-- The AXI transaction that is open, and those that are finished. -/
structure AxiView where
  now : Option AxiTransaction := none
  done : List AxiTransaction := []

namespace AxiView

variable (v : AxiView) (o : AxiOut) (i : AxiIn)

/-- The transaction that is open in a cycle: it begins with its address. -/
def opened : Option AxiTransaction :=
  match v.now with
  | some x => some x
  | none => if o.arvalid || o.awvalid then some {} else none

def next : AxiView :=
  match v.opened o with
  | none => v
  | some x =>
    if (x.add o i).finished then { now := none, done := v.done ++ [x.add o i] }
    else { v with now := some (x.add o i) }

end AxiView

/-- The bridge with what is seen on both sides of it. -/
structure Bridged where
  bridge : Bridge := {}
  client : BusView := {}
  axi : AxiView := {}

namespace Bridged

variable (s : Bridged) (i : BridgeInput)

/-- A clock edge. -/
def step : Bridged where
  bridge := s.bridge.next i
  client := s.client.next i.creq (s.bridge.cresp i)
  axi := s.axi.next (s.bridge.axi i) i.axi

/-- The number of words of the open transaction that have been read. -/
def readBeats : ℕ := (s.axi.now.getD {}).r.length

/-- The request is held, and the slave marks the last word of a read. -/
structure Lawful : Prop where
  holds : s.client.Holds i.creq
  marks : ∀ t ∈ s.client.now, (s.bridge.axi i).rready = true → i.axi.rvalid = true →
    i.axi.rlast = decide (s.readBeats = t.request.len.toNat)

instance : Decidable (s.Lawful i) :=
  decidable_of_iff (s.client.Holds i.creq ∧
      ∀ t ∈ s.client.now, (s.bridge.axi i).rready = true → i.axi.rvalid = true →
        i.axi.rlast = decide (s.readBeats = t.request.len.toNat))
    ⟨fun h => ⟨h.1, h.2⟩, fun h => ⟨h.1, h.2⟩⟩

end Bridged

namespace Transaction

variable (t : Transaction)

def address : AxiAddress := ⟨t.request.addr, t.request.len, t.request.size, .wrap⟩

/-- The beat with this number is the last one. -/
def marksLast (k : ℕ) : Bool := decide (k = t.request.len.toNat)

/-- The handshakes that a transaction has had when the channels `pending` are not finished. -/
def onAxi (pending : Channels) : AxiTransaction :=
  if t.request.isWrite then
    { aw := if pending.aw then [] else [t.address]
      w := t.beats.mapIdx fun k b => (b.wdata, b.strobe, t.marksLast k)
      b := if pending.b then 0 else 1 }
  else
    { ar := if pending.ar then [] else [t.address]
      r := t.beats.mapIdx fun k b => (b.rdata, t.marksLast k) }

/-- All beats have been made. -/
def Whole : Prop := t.beats.length = t.request.len.toNat + 1

end Transaction

/-- A transaction of the cache bus and the one it was on AXI: one address, as many words as
beats, in order and with the last one marked, and one response to a write. -/
def Realizes (t : Transaction) (x : AxiTransaction) : Prop := t.Whole ∧ x = t.onAxi {}

/-- The channels that a transaction uses. -/
def Channels.Fits (c : Channels) (t : Transaction) : Prop :=
  if t.request.isWrite then c.ar = false ∧ c.r = false
  else c.aw = false ∧ c.w = false ∧ c.b = false

section Marks

theorem Channels.eq_of_not_any {c : Channels} (h : c.any = false) : c = {} := by
  cases c
  simp only [Channels.any, Bool.or_eq_false_iff] at h
  simp [h.1.1.1.1, h.1.1.1.2, h.1.1.2, h.1.2, h.2]

theorem any_marks {α β : Type} (g : ℕ → α → β) (p : β → Bool) (n : ℕ)
    (h : ∀ k a, p (g k a) = decide (k = n)) (l : List α) :
    (l.mapIdx g).any p = decide (n < l.length) := by
  induction l using List.reverseRecOn with
  | nil => rfl
  | append_singleton l a ih =>
      rw [List.mapIdx_concat, List.any_append, ih, List.any_cons, List.any_nil, Bool.or_false, h,
        List.length_append, List.length_singleton, ← Bool.decide_or]
      exact decide_eq_decide.mpr (by omega)

/-- A transaction is finished on AXI when no channel is pending. -/
theorem Transaction.finished_onAxi {t : Transaction} {c : Channels} (hf : c.Fits t)
    (hb : (c.r || c.w) = !decide (t.request.len.toNat < t.beats.length)) :
    (t.onAxi c).finished = !c.any := by
  have hany := any_marks (fun k (b : Transfer) => (b.rdata, t.marksLast k)) Prod.snd
    t.request.len.toNat (fun _ _ => rfl) t.beats
  have hany' := any_marks (fun k (b : Transfer) => (b.wdata, b.strobe, t.marksLast k)) (·.2.2)
    t.request.len.toNat (fun _ _ => rfl) t.beats
  rw [Channels.Fits] at hf
  rw [AxiTransaction.finished, Transaction.onAxi, Channels.any]
  cases hw : t.request.isWrite with
  | true =>
      rw [hw] at hf
      obtain ⟨har, hr⟩ := hf
      rw [hr, Bool.false_or] at hb
      simp only [if_true, hany', har, hr, hb]
      cases c.aw <;> cases c.b <;> simp
  | false =>
      rw [hw] at hf
      obtain ⟨haw, hcw, hcb⟩ := hf
      rw [hcw, Bool.or_false] at hb
      simp only [Bool.false_eq_true, if_false, hany, haw, hcw, hcb, hb]
      cases c.ar <;> simp

end Marks

namespace Bridged

variable {s : Bridged} {i : BridgeInput}

/-- Channels are pending for the transaction `t`. -/
structure Under (s : Bridged) (t : Transaction) : Prop where
  request : s.bridge.savedReq.attributes = t.request
  fits : s.bridge.inIssue.Fits t
  axi : s.axi.now.getD {} = t.onAxi s.bridge.inIssue
  begun : s.axi.now = none → (s.bridge.inIssue.ar || s.bridge.inIssue.aw) = true
  busy : s.bridge.busy = true

/-- Where the bridge stands: it has nothing to do, or beats of the client's transaction are still
to come, or the client has been told of the end and channels are pending. -/
inductive Phase (s : Bridged) : Prop
  | idle (free : s.bridge.inIssue = {}) (axi : s.axi.now = none) (waits : s.client.Waits)
      (done : List.Forall₂ Realizes s.client.done s.axi.done)
  | beats (t : Transaction) (under : s.Under t)
      (pending : (s.bridge.inIssue.r || s.bridge.inIssue.w) = true)
      (now : s.client.now = some t)
      (count : t.beats.length + s.bridge.count.toNat = t.request.len.toNat)
      (done : List.Forall₂ Realizes s.client.done s.axi.done)
  | ending (t : Transaction) (served : List Transaction) (under : s.Under t)
      (told : (s.bridge.inIssue.r || s.bridge.inIssue.w) = false) (whole : t.Whole)
      (client : s.client.done = served ++ [t]) (waits : s.client.Waits)
      (done : List.Forall₂ Realizes served s.axi.done)

theorem phase_reset : ({} : Bridged).Phase :=
  .idle rfl rfl (BusView.waits_of_none rfl) .nil

section Step

variable {t : Transaction}

theorem Under.savedReq (h : s.Under t) : s.bridge.savedReq.addr = t.request.addr ∧
    s.bridge.savedReq.len = t.request.len ∧ s.bridge.savedReq.size = t.request.size := by
  rw [← h.request]
  exact ⟨rfl, rfl, rfl⟩

/-- The bits of the channels that a transaction uses, while it is under way. -/
theorem Under.readBeats_eq (h : s.Under t) (hw : t.request.isWrite = false) :
    s.readBeats = t.beats.length := by
  rw [readBeats, h.axi, Transaction.onAxi, hw, if_neg Bool.false_ne_true, List.length_mapIdx]

/-- The handshakes of a cycle are those of the beat and of the channels that end. -/
theorem Under.add_eq (h : s.Under t)
    (hr : s.bridge.inIssue.r = true → i.axi.rvalid = true →
      i.axi.rlast = t.marksLast t.beats.length)
    (hl : s.bridge.inIssue.w = true → s.bridge.isLast = t.marksLast t.beats.length) :
    (t.onAxi s.bridge.inIssue).add (s.bridge.axi i) i.axi =
      (t.add i.creq (s.bridge.cresp i)).onAxi (s.bridge.remain i) := by
  obtain ⟨ha, hn, hz⟩ := h.savedReq
  have hf := h.fits
  rw [Channels.Fits] at hf
  have hreq : (t.add i.creq (s.bridge.cresp i)).request = t.request := by
    rw [Transaction.add]
    split <;> rfl
  have haddr : (t.add i.creq (s.bridge.cresp i)).address = t.address := by
    rw [Transaction.address, hreq]
    rfl
  have hmark : (t.add i.creq (s.bridge.cresp i)).marksLast = t.marksLast := by
    funext k
    rw [Transaction.marksLast, hreq]
    rfl
  -- an address channel is pending until its handshake
  have address (p q : Bool) (x : AxiAddress) (hx : p = true → x = t.address) :
      (if p && q then (if p then [] else [t.address]) ++ [x] else if p then [] else [t.address]) =
        if p ^^ (p && q) then [] else [t.address] := by
    cases p with
    | false => rfl
    | true => rw [hx rfl]; cases q <;> rfl
  have hsaved : (⟨s.bridge.savedReq.addr, s.bridge.savedReq.len, s.bridge.savedReq.size,
      .wrap⟩ : AxiAddress) = t.address := by rw [ha, hn, hz]; rfl
  rw [Transaction.onAxi, Transaction.onAxi, hreq, haddr, hmark]
  cases hw : t.request.isWrite with
  | true =>
      rw [hw] at hf
      obtain ⟨har, hcr⟩ := hf
      have hbeats : (t.add i.creq (s.bridge.cresp i)).beats =
          if s.bridge.inIssue.w && i.axi.wready then
            t.beats ++ [⟨i.creq.strobe, i.creq.data, i.axi.rdata⟩] else t.beats := by
        simp only [Transaction.add, Bridge.cresp, Bridge.ready, Bridge.handshake, hcr,
          Bool.false_and, Bool.or_false]
        split <;> rfl
      apply AxiTransaction.ext
      · simp [AxiTransaction.add, Bridge.axi, har]
      · simp [AxiTransaction.add, Bridge.axi, hcr]
      · exact address _ _ _ fun hp => (if_pos hp).trans hsaved
      · change (if s.bridge.inIssue.w && i.axi.wready then _ else _) = List.mapIdx _ _
        rw [hbeats]
        split
        · rename_i hwr
          rw [Bool.and_eq_true] at hwr
          rw [List.mapIdx_concat, ← hl hwr.1]
          simp [Bridge.axi, hwr.1]
        · rfl
      · change (if s.bridge.inIssue.b && i.axi.bvalid then _ else _) = _
        cases hb : s.bridge.inIssue.b <;> cases hbv : i.axi.bvalid <;>
          simp [Bridge.remain, Bridge.ended, Bridge.handshake, hb, hbv]
  | false =>
      rw [hw] at hf
      obtain ⟨haw, hcw, hcb⟩ := hf
      have hbeats : (t.add i.creq (s.bridge.cresp i)).beats =
          if s.bridge.inIssue.r && i.axi.rvalid then
            t.beats ++ [⟨i.creq.strobe, i.creq.data, i.axi.rdata⟩] else t.beats := by
        simp only [Transaction.add, Bridge.cresp, Bridge.ready, Bridge.handshake, hcw,
          Bool.false_and, Bool.false_or]
        split <;> rfl
      apply AxiTransaction.ext
      · exact address _ _ _ fun hp => (if_pos hp).trans hsaved
      · change (if s.bridge.inIssue.r && i.axi.rvalid then _ else _) = List.mapIdx _ _
        rw [hbeats]
        split
        · rename_i hrv
          rw [Bool.and_eq_true] at hrv
          rw [List.mapIdx_concat, hr hrv.1 hrv.2]
          rfl
        · rfl
      · simp [AxiTransaction.add, Bridge.axi, haw]
      · simp [AxiTransaction.add, Bridge.axi, hcw]
      · simp [AxiTransaction.add, Bridge.axi, hcb]

theorem request_add (req : CBusReq) (resp : CBusResp) : (t.add req resp).request = t.request := by
  rw [Transaction.add]
  split <;> rfl

/-- A channel that is not used stays so. -/
theorem Under.fits_remain (h : s.Under t) :
    (s.bridge.remain i).Fits (t.add i.creq (s.bridge.cresp i)) := by
  have hf := h.fits
  rw [Channels.Fits] at hf ⊢
  rw [request_add]
  split
  · rename_i hw
    rw [if_pos hw] at hf
    simp [Bridge.remain, Bridge.ended, Bridge.handshake, hf.1, hf.2]
  · rename_i hw
    rw [if_neg hw] at hf
    simp [Bridge.remain, Bridge.ended, Bridge.handshake, hf.1, hf.2.1, hf.2.2]

theorem Under.step_bridge (h : s.Under t) :
    (s.step i).bridge.inIssue = s.bridge.remain i ∧
      (s.step i).bridge.savedReq = s.bridge.savedReq ∧
      (s.step i).bridge.count =
        if (s.bridge.cresp i).ready && !(s.bridge.cresp i).last then s.bridge.count - 1#4
        else s.bridge.count := by
  change (s.bridge.next i).inIssue = _ ∧ (s.bridge.next i).savedReq = _ ∧
    (s.bridge.next i).count = _
  rw [Bridge.next, h.busy, if_pos rfl]
  exact ⟨rfl, rfl, rfl⟩

/-- The cycle on the side of AXI. -/
theorem Under.step_axi (h : s.Under t)
    (hr : s.bridge.inIssue.r = true → i.axi.rvalid = true →
      i.axi.rlast = t.marksLast t.beats.length)
    (hl : s.bridge.inIssue.w = true → s.bridge.isLast = t.marksLast t.beats.length)
    (hb : ((s.bridge.remain i).r || (s.bridge.remain i).w) =
      !decide (t.request.len.toNat < (t.add i.creq (s.bridge.cresp i)).beats.length)) :
    (s.step i).axi =
      if (s.bridge.remain i).any then
        { s.axi with now := some ((t.add i.creq (s.bridge.cresp i)).onAxi (s.bridge.remain i)) }
      else
        { now := none
          done := s.axi.done ++
            [(t.add i.creq (s.bridge.cresp i)).onAxi (s.bridge.remain i)] } := by
  have hopen : s.axi.opened (s.bridge.axi i) = some (s.axi.now.getD {}) := by
    rw [AxiView.opened]
    cases hn : s.axi.now with
    | some x => rfl
    | none => exact if_pos (h.begun hn)
  have hfin := Transaction.finished_onAxi (h.fits_remain (i := i)) (by rw [request_add]; exact hb)
  change s.axi.next _ _ = _
  rw [AxiView.next, hopen]
  dsimp only
  rw [h.axi, h.add_eq hr hl, hfin]
  cases (s.bridge.remain i).any <;> rfl

/-- After a cycle that leaves channels pending. -/
theorem Under.next (h : s.Under t) (hany : (s.bridge.remain i).any = true)
    (haxi : (s.step i).axi.now =
      some ((t.add i.creq (s.bridge.cresp i)).onAxi (s.bridge.remain i))) :
    (s.step i).Under (t.add i.creq (s.bridge.cresp i)) := by
  obtain ⟨hi, hs, -⟩ := h.step_bridge (i := i)
  refine ⟨?_, ?_, ?_, fun hn => ?_, ?_⟩
  · rw [hs, h.request, request_add]
  · rw [hi]
    exact h.fits_remain
  · rw [haxi, hi]
    rfl
  · rw [haxi] at hn
    cases hn
  · rw [Bridge.busy, hi, hany]

/-- The end of a transaction on AXI, once the client has been told. -/
theorem Under.phase_of_told (h : s.Under t) {served : List Transaction}
    (haxi : (s.step i).axi =
      if (s.bridge.remain i).any then
        { s.axi with now := some ((t.add i.creq (s.bridge.cresp i)).onAxi (s.bridge.remain i)) }
      else
        { now := none
          done := s.axi.done ++
            [(t.add i.creq (s.bridge.cresp i)).onAxi (s.bridge.remain i)] })
    (htold : ((s.bridge.remain i).r || (s.bridge.remain i).w) = false)
    (hwhole : (t.add i.creq (s.bridge.cresp i)).Whole)
    (hdone : (s.step i).client.done = served ++ [t.add i.creq (s.bridge.cresp i)])
    (hwaits : (s.step i).client.Waits) (hserved : List.Forall₂ Realizes served s.axi.done) :
    (s.step i).Phase := by
  obtain ⟨hi, -, -⟩ := h.step_bridge (i := i)
  cases hany : (s.bridge.remain i).any with
  | true =>
      rw [hany, if_pos rfl] at haxi
      refine .ending _ served (h.next hany (by rw [haxi])) (by rw [hi, htold]) hwhole hdone hwaits
        ?_
      rw [haxi]
      exact hserved
  | false =>
      rw [hany, if_neg Bool.false_ne_true] at haxi
      have hnone := Channels.eq_of_not_any hany
      refine .idle (hi.trans hnone) (by rw [haxi]) hwaits ?_
      rw [hdone, haxi]
      exact List.rel_append hserved (.cons ⟨hwhole, by rw [hnone]⟩ .nil)

/-- The counter is zero in the last beat. -/
theorem isLast_of_count (count : t.beats.length + s.bridge.count.toNat = t.request.len.toNat) :
    s.bridge.isLast = t.marksLast t.beats.length := by
  rw [Bridge.isLast, Transaction.marksLast, Bool.eq_iff_iff, beq_iff_eq, decide_eq_true_iff,
    ← BitVec.toNat_inj, BitVec.toNat_ofNat]
  omega

theorem Under.isWrite_of_r (h : s.Under t) (hr : s.bridge.inIssue.r = true) :
    t.request.isWrite = false := by
  have hf := h.fits
  rw [Channels.Fits] at hf
  split at hf
  · rw [hf.2] at hr
    cases hr
  · rename_i hw
    exact Bool.eq_false_iff.mpr hw

theorem Under.rlast_eq (h : s.Under t) (hl : s.Lawful i) (now : s.client.now = some t)
    (hr : s.bridge.inIssue.r = true) (hv : i.axi.rvalid = true) :
    i.axi.rlast = t.marksLast t.beats.length := by
  rw [hl.marks t now hr hv, h.readBeats_eq (h.isWrite_of_r hr)]
  rfl

/-- The end is told with the beat that is counted last. -/
theorem Under.last_eq (h : s.Under t) (hl : s.Lawful i) (now : s.client.now = some t)
    (count : t.beats.length + s.bridge.count.toNat = t.request.len.toNat) :
    (s.bridge.cresp i).last = ((s.bridge.cresp i).ready && t.marksLast t.beats.length) := by
  change (s.bridge.ready i && (!s.bridge.inIssue.r || i.axi.rlast) && s.bridge.isLast) =
    (s.bridge.ready i && _)
  rw [isLast_of_count count]
  cases hcr : s.bridge.inIssue.r with
  | false => simp
  | true =>
      cases hv : i.axi.rvalid with
      | true => rw [h.rlast_eq hl now hcr hv]; simp
      | false =>
          have hf := h.fits
          rw [Channels.Fits, if_neg (by simp [h.isWrite_of_r hcr])] at hf
          simp [Bridge.ready, Bridge.handshake, hf.2.1, hcr, hv]

/-- A cycle in which beats are still to come. -/
theorem Phase.step_beats (hl : s.Lawful i) (h : s.Under t)
    (pending : (s.bridge.inIssue.r || s.bridge.inIssue.w) = true)
    (now : s.client.now = some t)
    (count : t.beats.length + s.bridge.count.toNat = t.request.len.toNat)
    (done : List.Forall₂ Realizes s.client.done s.axi.done) : (s.step i).Phase := by
  have hlast := isLast_of_count count
  have hresp := h.last_eq hl now count
  have hr := h.rlast_eq hl now
  have hrest : ((s.bridge.remain i).r || (s.bridge.remain i).w) = !(s.bridge.cresp i).last := by
    rw [hresp]
    cases hcr : s.bridge.inIssue.r with
    | true =>
        have hf := h.fits
        rw [Channels.Fits, if_neg (by simp [h.isWrite_of_r hcr])] at hf
        cases hv : i.axi.rvalid with
        | true =>
            simp [Bridge.remain, Bridge.ended, Bridge.handshake, Bridge.cresp, Bridge.ready, hcr,
              hv, hf.2.1, hr hcr hv]
        | false =>
            simp [Bridge.remain, Bridge.ended, Bridge.handshake, Bridge.cresp, Bridge.ready, hcr,
              hv, hf.2.1]
    | false =>
        rw [hcr, Bool.false_or] at pending
        simp [Bridge.remain, Bridge.ended, Bridge.handshake, Bridge.cresp, Bridge.ready, hcr,
          pending, Bridge.axi, hlast]
  have hlen : (t.add i.creq (s.bridge.cresp i)).beats.length =
      t.beats.length + if (s.bridge.cresp i).ready then 1 else 0 := by
    rw [Transaction.add]
    split
    · simp
    · rfl
  have hend : decide (t.request.len.toNat < (t.add i.creq (s.bridge.cresp i)).beats.length) =
      (s.bridge.cresp i).last := by
    rw [hlen, hresp, Transaction.marksLast]
    cases (s.bridge.cresp i).ready with
    | true =>
        rw [if_pos rfl, Bool.true_and]
        exact decide_eq_decide.mpr (by omega)
    | false =>
        rw [if_neg Bool.false_ne_true, Bool.false_and]
        exact decide_eq_false (by omega)
  have haxi := h.step_axi hr (fun _ => hlast) (by rw [hrest, hend])
  have hclient : (s.step i).client = _ :=
    BusView.next_of_opened (BusView.opened_of_now now)
  cases hx : (s.bridge.cresp i).last with
  | true =>
      rw [hx, if_pos rfl] at hclient
      rw [hx] at hrest hend
      have hwhole : (t.add i.creq (s.bridge.cresp i)).Whole := by
        have hgt := of_decide_eq_true hend
        rw [hlen] at hgt
        have hle : t.beats.length ≤ t.request.len.toNat := by omega
        rw [Transaction.Whole, request_add, hlen]
        cases hy : (s.bridge.cresp i).ready with
        | true =>
            rw [hy, if_pos rfl] at hgt
            rw [if_pos rfl]
            omega
        | false =>
            rw [hy, if_neg Bool.false_ne_true] at hgt
            exact absurd hgt (Nat.not_lt.mpr hle)
      exact h.phase_of_told haxi hrest hwhole (by rw [hclient])
        (BusView.waits_of_none (by rw [hclient])) done
  | false =>
      rw [hx, if_neg Bool.false_ne_true] at hclient
      rw [hx] at hrest
      obtain ⟨hi, -, hc⟩ := h.step_bridge (i := i)
      have hany : (s.bridge.remain i).any = true := by
        rw [Channels.any]
        cases hrr : (s.bridge.remain i).r with
        | true => simp
        | false =>
            rw [hrr, Bool.false_or] at hrest
            simp [hrest]
      rw [hany, if_pos rfl] at haxi
      refine .beats _ (h.next hany (by rw [haxi])) (by rw [hi, hrest]; rfl) (by rw [hclient]) ?_
        (by rw [hclient, haxi]; exact done)
      rw [hc, hx, hlen, request_add]
      cases hy : (s.bridge.cresp i).ready with
      | false => simpa using count
      | true =>
          -- the counter is not zero before the last beat
          have hne : t.beats.length ≠ t.request.len.toNat := by
            rw [hresp, hy, Bool.true_and, Transaction.marksLast] at hx
            exact of_decide_eq_false hx
          have hpos : 1#4 ≤ s.bridge.count := by
            rw [BitVec.le_def, BitVec.toNat_ofNat]
            omega
          have hsub : (s.bridge.count - 1#4).toNat = s.bridge.count.toNat - 1 :=
            BitVec.toNat_sub_of_le hpos
          simp only [Bool.not_false, Bool.and_self, if_true, hsub]
          omega

/-- A cycle in which the client has been told of the end. -/
theorem Phase.step_ending (h : s.Under t) {served : List Transaction}
    (told : (s.bridge.inIssue.r || s.bridge.inIssue.w) = false) (whole : t.Whole)
    (client : s.client.done = served ++ [t]) (waits : s.client.Waits)
    (done : List.Forall₂ Realizes served s.axi.done) : (s.step i).Phase := by
  rw [Bool.or_eq_false_iff] at told
  have hready : (s.bridge.cresp i).ready = false := by
    simp [Bridge.cresp, Bridge.ready, Bridge.handshake, told.1, told.2]
  have hlast : (s.bridge.cresp i).last = false := by
    change (s.bridge.ready i && _ && _) = false
    rw [show s.bridge.ready i = false from hready]
    rfl
  have hadd : t.add i.creq (s.bridge.cresp i) = t := by
    rw [Transaction.add, hready]
    rfl
  have hrest : ((s.bridge.remain i).r || (s.bridge.remain i).w) = false := by
    simp [Bridge.remain, Bridge.ended, Bridge.handshake, told.1, told.2]
  have hlen : t.request.len.toNat < t.beats.length := by
    rw [whole]
    exact Nat.lt_succ_self _
  have haxi := h.step_axi (i := i) (fun hr => by rw [told.1] at hr; cases hr)
    (fun hw => by rw [told.2] at hw; cases hw)
    (by rw [hrest, hadd, decide_eq_true hlen]; rfl)
  refine h.phase_of_told haxi hrest (by rw [hadd]; exact whole) ?_ (waits.next_silent hready hlast)
    done
  rw [hadd, ← client]
  exact (BusView.next_silent hready hlast).1

theorem fits_nextIssue :
    (Bridge.nextIssue i).Fits { request := i.creq.attributes, beats := [] } := by
  rw [Channels.Fits, CBusReq.attributes, Bridge.nextIssue]
  cases i.creq.isWrite <;> simp

/-- A transaction that begins has had no handshake. -/
theorem onAxi_nextIssue : ({ request := i.creq.attributes } : Transaction).onAxi
    (Bridge.nextIssue i) = {} := by
  rw [Transaction.onAxi, CBusReq.attributes, Bridge.nextIssue]
  cases i.creq.isWrite <;> rfl

/-- A cycle without a transaction. -/
theorem Phase.step_idle (hl : s.Lawful i) (free : s.bridge.inIssue = {}) (axi : s.axi.now = none)
    (waits : s.client.Waits) (done : List.Forall₂ Realizes s.client.done s.axi.done) :
    (s.step i).Phase := by
  have hready : (s.bridge.cresp i).ready = false := by
    simp [Bridge.cresp, Bridge.ready, Bridge.handshake, free]
  have hlast : (s.bridge.cresp i).last = false := by
    change (s.bridge.ready i && _ && _) = false
    rw [show s.bridge.ready i = false from hready]
    rfl
  have haxi : (s.step i).axi = s.axi := by
    have ho : s.axi.opened (s.bridge.axi i) = none := by
      simp [AxiView.opened, axi, Bridge.axi, free]
    change s.axi.next _ _ = _
    rw [AxiView.next, ho]
  have hbridge : (s.step i).bridge =
      { inIssue := if i.creq.valid then Bridge.nextIssue i else s.bridge.inIssue
        savedReq := i.creq
        count := i.creq.len } := by
    have hb : s.bridge.busy = false := by rw [Bridge.busy, free]; rfl
    change s.bridge.next i = _
    rw [Bridge.next, hb, if_neg Bool.false_ne_true]
  have hclient : (s.step i).client.done = s.client.done ∧
      (s.step i).client.now = s.client.opened i.creq := BusView.next_silent hready hlast
  cases hv : i.creq.valid with
  | false =>
      rw [hv, if_neg Bool.false_ne_true] at hbridge
      refine .idle (by rw [hbridge]; exact free) (by rw [haxi, axi])
        (waits.next_silent hready hlast) ?_
      rw [hclient.1, haxi]
      exact done
  | true =>
      rw [hv, if_pos rfl] at hbridge
      rw [BusView.opened_of_waits hl.holds waits hv] at hclient
      refine .beats _ ⟨?_, ?_, ?_, fun _ => ?_, ?_⟩ ?_ hclient.2 ?_ ?_
      · rw [hbridge]
      · rw [hbridge]
        exact fits_nextIssue
      · rw [haxi, axi, hbridge]
        exact onAxi_nextIssue.symm
      · rw [hbridge, Bridge.nextIssue]
        cases i.creq.isWrite <;> rfl
      · rw [Bridge.busy, hbridge, Bridge.nextIssue]
        cases i.creq.isWrite <;> rfl
      · rw [hbridge, Bridge.nextIssue]
        cases i.creq.isWrite <;> rfl
      · rw [hbridge]
        exact Nat.zero_add _
      · rw [hclient.1, haxi]
        exact done

theorem Phase.step (hp : s.Phase) (hl : s.Lawful i) : (s.step i).Phase := by
  cases hp with
  | idle free axi waits done => exact step_idle hl free axi waits done
  | beats t under pending now count done => exact step_beats hl under pending now count done
  | ending t served under told whole client waits done =>
      exact step_ending under told whole client waits done

end Step

/-! ### What is seen on both sides -/

/-- Nothing is offered on AXI. -/
def Quiet (s : Bridged) : Prop := ∀ i, s.bridge.axi i = {}

/-- The channels of AXI belong to `t`: it has had its handshakes but for the channels in
`pending`, and those are what is offered, at the address of `t` and with its last word marked. -/
structure Carries (s : Bridged) (t : Transaction) (pending : Channels) : Prop where
  axi : s.axi.now.getD {} = t.onAxi pending
  fits : pending.Fits t
  any : pending.any = true
  offers i : (s.bridge.axi i).arvalid = pending.ar ∧ (s.bridge.axi i).rready = pending.r ∧
    (s.bridge.axi i).awvalid = pending.aw ∧ (s.bridge.axi i).wvalid = pending.w ∧
    (s.bridge.axi i).bready = pending.b
  ar i : (s.bridge.axi i).arvalid = true → (s.bridge.axi i).ar = t.address
  aw i : (s.bridge.axi i).awvalid = true → (s.bridge.axi i).aw = t.address
  wlast i : (s.bridge.axi i).wvalid = true →
    (s.bridge.axi i).wlast = t.marksLast t.beats.length

/-- What is on the way: nothing, the transaction that the client waits for, or one whose end the
client knows while channels are pending. All before it are finished. -/
inductive Stage (s : Bridged) : Prop
  | quiet (quiet : s.Quiet) (axi : s.axi.now = none) (waits : s.client.Waits)
      (done : List.Forall₂ Realizes s.client.done s.axi.done)
  | serving (t : Transaction) (pending : Channels) (carries : s.Carries t pending)
      (now : s.client.now = some t) (beats : t.beats.length ≤ t.request.len.toNat)
      (done : List.Forall₂ Realizes s.client.done s.axi.done)
  | closing (t : Transaction) (pending : Channels) (served : List Transaction)
      (carries : s.Carries t pending) (beats : pending.r = false ∧ pending.w = false)
      (whole : t.Whole) (client : s.client.done = served ++ [t]) (waits : s.client.Waits)
      (done : List.Forall₂ Realizes served s.axi.done)

/-- Every transaction of the client is one transaction of AXI. -/
structure Serves (s : Bridged) : Prop where
  stage : s.Stage
  /-- Every transaction that the client has been told the end of had all its beats. -/
  whole : ∀ t ∈ s.client.done, t.Whole
  /-- A beat is for the client's transaction, and `last` comes with its last one. -/
  answers i : s.Lawful i → (s.bridge.cresp i).ready = true →
    ∃ t ∈ s.client.now, t.beats.length ≤ t.request.len.toNat ∧
      (s.bridge.cresp i).last = t.marksLast t.beats.length
  last i : (s.bridge.cresp i).last = true → (s.bridge.cresp i).ready = true
  /-- A request is taken up as soon as nothing is on the way. -/
  prompt i i' : s.Quiet → i.creq.valid = true →
    (((s.step i).bridge.axi i').arvalid || ((s.step i).bridge.axi i').awvalid) = true

section Seen

variable {t : Transaction}

theorem quiet_of_free (h : s.bridge.inIssue = {}) : s.Quiet := by
  intro i
  simp [Bridge.axi, h]

theorem Under.carries (h : s.Under t)
    (hl : s.bridge.inIssue.w = true → s.bridge.isLast = t.marksLast t.beats.length) :
    s.Carries t s.bridge.inIssue where
  axi := h.axi
  fits := h.fits
  any := h.busy
  offers _ := ⟨rfl, rfl, rfl, rfl, rfl⟩
  ar i hv := by
    obtain ⟨ha, hn, hz⟩ := h.savedReq
    change (if s.bridge.inIssue.ar then _ else _) = _
    rw [if_pos (show s.bridge.inIssue.ar = true from hv), ha, hn, hz]
    rfl
  aw i hv := by
    obtain ⟨ha, hn, hz⟩ := h.savedReq
    change (if s.bridge.inIssue.aw then _ else _) = _
    rw [if_pos (show s.bridge.inIssue.aw = true from hv), ha, hn, hz]
    rfl
  wlast i hv := by
    have hw : s.bridge.inIssue.w = true := hv
    change (s.bridge.inIssue.w && s.bridge.isLast) = _
    rw [hw, hl hw, Bool.true_and]

theorem Phase.stage (h : s.Phase) : s.Stage := by
  cases h with
  | idle free axi waits done => exact .quiet (quiet_of_free free) axi waits done
  | beats t under pending now count done =>
      exact .serving t _ (under.carries fun _ => isLast_of_count count) now
        (by omega) done
  | ending t served under told whole client waits done =>
      rw [Bool.or_eq_false_iff] at told
      refine .closing t _ served (under.carries fun hw => ?_) told whole client waits done
      rw [told.2] at hw
      cases hw

theorem wholes {l : List Transaction} {xs : List AxiTransaction} (h : List.Forall₂ Realizes l xs) :
    ∀ t ∈ l, t.Whole := by
  induction h with
  | nil =>
      intro t ht
      cases ht
  | cons hx _ ih =>
      intro t ht
      rcases List.mem_cons.mp ht with rfl | ht
      · exact hx.1
      · exact ih t ht

theorem Phase.serves (h : s.Phase) : s.Serves where
  stage := h.stage
  whole := by
    cases h with
    | idle free axi waits done => exact wholes done
    | beats t under pending now count done => exact wholes done
    | ending t served under told whole client waits done =>
        intro u hu
        rw [client, List.mem_append, List.mem_singleton] at hu
        rcases hu with hu | rfl
        · exact wholes done u hu
        · exact whole
  answers i hl hr := by
    cases h with
    | idle free axi waits done =>
        simp [Bridge.cresp, Bridge.ready, Bridge.handshake, free] at hr
    | beats t under pending now count done =>
        refine ⟨t, now, by omega, ?_⟩
        rw [under.last_eq hl now count, hr, Bool.true_and]
    | ending t served under told whole client waits done =>
        rw [Bool.or_eq_false_iff] at told
        simp [Bridge.cresp, Bridge.ready, Bridge.handshake, told.1, told.2] at hr
  last i hl := by
    simp only [Bridge.cresp, Bool.and_eq_true] at hl
    exact hl.1.1
  prompt i i' hq hv := by
    have hfree := hq i
    have hbusy : s.bridge.busy = false := by
      simp only [Bridge.axi, AxiOut.mk.injEq] at hfree
      simp [Bridge.busy, Channels.any, hfree.1, hfree.2.2.1, hfree.2.2.2.1, hfree.2.2.2.2.2.1,
        hfree.2.2.2.2.2.2.2.2.2]
    change ((s.bridge.next i).inIssue.ar || (s.bridge.next i).inIssue.aw) = true
    rw [Bridge.next, hbusy, if_neg Bool.false_ne_true, if_pos hv, Bridge.nextIssue]
    cases i.creq.isWrite <;> rfl

end Seen

/-- The bridge turns every transaction of the cache bus into one transaction of AXI, however the
channels of the slave are ordered. -/
theorem bridge_serves (is : List BridgeInput) (h : Along step Lawful {} is) :
    (run step {} is : Bridged).Serves := by
  have hp : (run step {} is : Bridged).Phase :=
    h.invariant (fun _ _ hp hl => hp.step hl) phase_reset
  exact hp.serves

/-- A write of two words at `a`. -/
def writeWords (a : Word) (d : Word) : CBusReq := ⟨true, true, .size4, a, 0xf#4, d, 1#4⟩

/-- A write whose response comes before its last word and whose address is accepted last, while a
read waits, and then the read. -/
def writeThenRead : List BridgeInput :=
  let read : CBusReq := ⟨true, false, .size4, 0x80#32, 0#4, 0#32, 0#4⟩
  [⟨writeWords 0x40#32 1#32, {}⟩,
    ⟨writeWords 0x40#32 1#32, { wready := true }⟩,
    ⟨writeWords 0x40#32 2#32, { bvalid := true }⟩,
    ⟨writeWords 0x40#32 2#32, { wready := true }⟩,
    ⟨read, { rvalid := true }⟩,
    ⟨read, { awready := true }⟩,
    ⟨read, {}⟩,
    ⟨read, { arready := true }⟩,
    ⟨read, { rvalid := true, rlast := true, rdata := 7#32 }⟩]

theorem bridge_serves_writeThenRead :
    (run step {} writeThenRead : Bridged).axi.done.length = 2 ∧
      (run step {} writeThenRead : Bridged).Serves :=
  ⟨by decide, bridge_serves writeThenRead (by decide)⟩

end Bridged

end FrailCPU
