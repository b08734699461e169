import FrailCPU.Mmu.Mmu

/-!
# What a translation means

The architecture describes a translation by segments, pages and the entry that maps an
address. `Resolution` is that description: an address of `kseg0` or `kseg1` is resolved
directly, any other by the half of the entry that maps it, or not at all. The search
circuit, the two translators and the exceptions of `mmu.sv` are compared with it, for a
TLB in which at most one entry maps the address.
-/

namespace FrailCPU

open VAddr

/-- One half of an entry: the mapping of a single page. -/
structure PageEntry where
  pfn : BitVec 20
  c : BitVec 3
  d : Bool
  v : Bool
  deriving DecidableEq, Repr

namespace TlbEntry

variable (e : TlbEntry)

/-- The half for an even page, or for an odd one. -/
def half (odd : Bool) : PageEntry :=
  if odd then ⟨e.pfn1, e.c1, e.d1, e.v1⟩ else ⟨e.pfn0, e.c0, e.d0, e.v0⟩

/-- The entry maps the address in the address space `asid`. -/
def Maps (vaddr : Word) (asid : BitVec 8) : Prop :=
  e.vpn2 = VAddr.vpn2 vaddr ∧ (e.asid = asid ∨ e.g = true)

instance (vaddr : Word) (asid : BitVec 8) : Decidable (e.Maps vaddr asid) :=
  inferInstanceAs (Decidable (_ ∧ _))

end TlbEntry

/-- No two entries map the address. -/
def Tlb.AtMostOne (tlbRam : Tlb) (vaddr : Word) (asid : BitVec 8) : Prop :=
  ∀ i j, (tlbRam i).Maps vaddr asid → (tlbRam j).Maps vaddr asid → i = j

section Search

variable {tlbRam : Tlb} {vaddr : Word} {asid : BitVec 8}

theorem mem_tlbIndices (i : TlbIndex) : i ∈ tlbIndices := by
  revert i
  decide

theorem searchMatch_iff (i : TlbIndex) :
    searchMatch tlbRam vaddr asid i = true ↔ (tlbRam i).Maps vaddr asid := by
  simp only [searchMatch, TlbEntry.Maps, Bool.and_eq_true, Bool.or_eq_true, beq_iff_eq]
  rw [eq_comm, eq_comm (a := asid)]

theorem tlbSearch_found :
    (tlbSearch tlbRam vaddr asid).found = true ↔ ∃ i, (tlbRam i).Maps vaddr asid := by
  simp only [tlbSearch, List.any_eq_true, searchMatch_iff]
  constructor
  · rintro ⟨i, -, h⟩
    exact ⟨i, h⟩
  · rintro ⟨i, h⟩
    exact ⟨i, mem_tlbIndices i, h⟩

theorem tlbSearch_not_found (h : ∀ i, ¬ (tlbRam i).Maps vaddr asid) :
    (tlbSearch tlbRam vaddr asid).found = false := by
  rw [Bool.eq_false_iff, Ne, tlbSearch_found]
  rintro ⟨i, hi⟩
  exact h i hi

/-- The disjunction of the matching indices when only `i` matches: what the loop has
gathered so far is zero or `i`, and it is `i` once `i` has been passed. -/
theorem foldl_or_of_unique {p : TlbIndex → Bool} {i : TlbIndex} (hp : p i = true)
    (hu : ∀ j, p j = true → j = i) (l : List TlbIndex) (a : TlbIndex) (ha : a = 0#4 ∨ a = i) :
    l.foldl (fun c j => c ||| if p j then j else 0#4) a = i ∨
      (i ∉ l ∧ l.foldl (fun c j => c ||| if p j then j else 0#4) a = a) := by
  induction l generalizing a with
  | nil => exact Or.inr ⟨List.not_mem_nil, rfl⟩
  | cons j l ih =>
    rw [List.foldl_cons]
    by_cases hj : p j = true
    · have hji := hu j hj
      subst hji
      have hor : (a ||| if p j then j else 0#4) = j := by
        rcases ha with rfl | rfl
        · simp [hj]
        · simp [hj]
      rw [hor]
      rcases ih j (Or.inr rfl) with h | h
      · exact Or.inl h
      · exact Or.inl h.2
    · have hne : i ≠ j := by
        rintro rfl
        exact hj hp
      have hor : (a ||| if p j then j else 0#4) = a := by
        simp [hj]
      rw [hor]
      rcases ih a ha with h | ⟨hm, h⟩
      · exact Or.inl h
      · exact Or.inr ⟨by simp [hne, hm], h⟩

/-- When one entry alone maps the address, the chosen index is its own. -/
theorem chooseIndex_of_maps {i : TlbIndex} (h : (tlbRam i).Maps vaddr asid)
    (hu : ∀ j, (tlbRam j).Maps vaddr asid → j = i) :
    chooseIndex tlbRam vaddr asid = i := by
  have hs : ∀ j, searchMatch tlbRam vaddr asid j = true → j = i := fun j hj =>
    hu j ((searchMatch_iff j).1 hj)
  rcases foldl_or_of_unique ((searchMatch_iff i).2 h) hs tlbIndices 0#4 (Or.inl rfl) with
    hf | ⟨hm, -⟩
  · exact hf
  · exact absurd (mem_tlbIndices i) hm

/-- The answer of the search is the half of the only entry that maps the address. -/
theorem tlbSearch_of_maps {i : TlbIndex} (h : (tlbRam i).Maps vaddr asid)
    (hu : ∀ j, (tlbRam j).Maps vaddr asid → j = i) :
    tlbSearch tlbRam vaddr asid =
      { found := true, index := i
        paddr := ((tlbRam i).half (oddPage vaddr)).pfn ++ pageOffset vaddr
        c := ((tlbRam i).half (oddPage vaddr)).c
        d := ((tlbRam i).half (oddPage vaddr)).d
        v := ((tlbRam i).half (oddPage vaddr)).v } := by
  have hf : (tlbSearch tlbRam vaddr asid).found = true := tlbSearch_found.2 ⟨i, h⟩
  simp only [tlbSearch] at hf
  simp only [tlbSearch, chooseIndex_of_maps h hu, hf, TlbEntry.half]
  cases oddPage vaddr <;> rfl

end Search

/-- The segments that are not mapped. -/
def InKseg0 (vaddr : Word) : Prop := 0x80000000 ≤ vaddr.toNat ∧ vaddr.toNat < 0xa0000000

def InKseg1 (vaddr : Word) : Prop := 0xa0000000 ≤ vaddr.toNat ∧ vaddr.toNat < 0xc0000000

def Mapped (vaddr : Word) : Prop := ¬ InKseg0 vaddr ∧ ¬ InKseg1 vaddr

section Segments

variable {vaddr : Word}

theorem segmentBits (vaddr : Word) :
    (vaddr.extractLsb' 29 3).toNat = vaddr.toNat / 0x20000000 := by
  have := vaddr.isLt
  simp only [BitVec.extractLsb'_toNat, Nat.shiftRight_eq_div_pow]
  omega

theorem kseg0_iff : vaddr.extractLsb' 29 3 = 0b100#3 ↔ InKseg0 vaddr := by
  rw [BitVec.toNat_inj.symm, segmentBits, InKseg0]
  simp only [BitVec.toNat_ofNat]
  omega

theorem kseg1_iff : vaddr.extractLsb' 29 3 = 0b101#3 ↔ InKseg1 vaddr := by
  rw [BitVec.toNat_inj.symm, segmentBits, InKseg1]
  simp only [BitVec.toNat_ofNat]
  omega

theorem isMapped_iff : isMapped vaddr = true ↔ Mapped vaddr := by
  have hlt := vaddr.isLt
  have htop : (vaddr.extractLsb' 30 2 = 0b11#2) ↔ vaddr.toNat / 0x40000000 = 3 := by
    rw [BitVec.toNat_inj.symm]
    simp only [BitVec.extractLsb'_toNat, Nat.shiftRight_eq_div_pow, BitVec.toNat_ofNat]
    omega
  have hmsb : vaddr.getLsbD 31 = false ↔ vaddr.toNat < 0x80000000 := by
    rw [BitVec.getLsbD, Nat.testBit_eq_decide_div_mod_eq, decide_eq_false_iff_not]
    omega
  simp only [isMapped, Bool.or_eq_true, beq_iff_eq, Bool.not_eq_true', htop, hmsb, Mapped,
    InKseg0, InKseg1]
  omega

theorem unmappedIsUncached_iff {k0 : BitVec 3} :
    unmappedIsUncached k0 vaddr = true ↔ InKseg1 vaddr ∨ (InKseg0 vaddr ∧ k0 ≠ 3#3) := by
  simp [unmappedIsUncached, kseg0_iff, kseg1_iff]

end Segments

/-- How an address is resolved: directly, through a page, or not at all. -/
inductive Resolution
  | direct (uncached : Bool)
  | page (p : PageEntry)
  | refill
  deriving DecidableEq, Repr

namespace Resolution

/-- The exceptions of an access that is made, and whether it stores. -/
def exc (stores : Bool) : Resolution → TlbExc
  | direct _ => {}
  | page p => { invalid := !p.v, modified := p.v && !p.d && stores }
  | refill => { refill := true }

/-- The exceptions of a port, which has none when nothing is asked of it. -/
def excOf (r : Resolution) (valid stores : Bool) : TlbExc :=
  if valid then r.exc stores else {}

/-- The physical address, where there is one. -/
def paddr (vaddr : Word) : Resolution → Option Word
  | direct _ => some (0#3 ++ vaddr.extractLsb' 0 29)
  | page p => some (p.pfn ++ pageOffset vaddr)
  | refill => none

/-- The cacheability of the access, where there is one. -/
def uncached : Resolution → Option Bool
  | direct u => some u
  | page p => some (p.c != 3#3)
  | refill => none

end Resolution

namespace MmuState

variable (m : MmuState)

/-- What the architecture says about an address. -/
inductive Resolves (vaddr : Word) : Resolution → Prop
  | kseg0 (h : InKseg0 vaddr) : Resolves vaddr (.direct (m.configK0 != 3#3))
  | kseg1 (h : InKseg1 vaddr) : Resolves vaddr (.direct true)
  | page (i : TlbIndex) (h : Mapped vaddr) (hi : (m.tlbRam i).Maps vaddr m.asid) :
      Resolves vaddr (.page ((m.tlbRam i).half (oddPage vaddr)))
  | refill (h : Mapped vaddr) (hn : ∀ i, ¬ (m.tlbRam i).Maps vaddr m.asid) :
      Resolves vaddr .refill

/-- Every address is resolved in some way. -/
theorem exists_resolves (vaddr : Word) : ∃ r, m.Resolves vaddr r := by
  by_cases h0 : InKseg0 vaddr
  · exact ⟨_, .kseg0 h0⟩
  by_cases h1 : InKseg1 vaddr
  · exact ⟨_, .kseg1 h1⟩
  by_cases hm : ∃ i, (m.tlbRam i).Maps vaddr m.asid
  · obtain ⟨i, hi⟩ := hm
    exact ⟨_, .page i ⟨h0, h1⟩ hi⟩
  · exact ⟨_, .refill ⟨h0, h1⟩ (not_exists.1 hm)⟩

/-- What one port of the unit gives for its request, whatever the kind of the request. -/
structure Agrees (r : Resolution) (vaddr : Word) (valid stores : Bool) (exc : TlbExc)
    (outValid : Bool) (outAddr : Word) : Prop where
  exc_eq : exc = r.excOf valid stores
  valid_iff : outValid = true ↔ valid = true ∧ exc = {}
  addr_eq : ∀ a ∈ r.paddr vaddr, outAddr = a

section Ports

variable {m} {vaddr : Word} {r : Resolution}

theorem unmapped_of_kseg0 (h : InKseg0 vaddr) : isMapped vaddr = false := by
  rw [Bool.eq_false_iff, Ne, isMapped_iff]
  exact fun hm => hm.1 h

theorem unmapped_of_kseg1 (h : InKseg1 vaddr) : isMapped vaddr = false := by
  rw [Bool.eq_false_iff, Ne, isMapped_iff]
  exact fun hm => hm.2 h

/-- The search of a page that one entry maps. -/
theorem search_of_maps (h1 : m.tlbRam.AtMostOne vaddr m.asid) {i : TlbIndex}
    (hi : (m.tlbRam i).Maps vaddr m.asid) :
    m.search vaddr =
      { found := true, index := i
        paddr := ((m.tlbRam i).half (oddPage vaddr)).pfn ++ pageOffset vaddr
        c := ((m.tlbRam i).half (oddPage vaddr)).c
        d := ((m.tlbRam i).half (oddPage vaddr)).d
        v := ((m.tlbRam i).half (oddPage vaddr)).v } :=
  tlbSearch_of_maps hi fun j hj => h1 j i hj hi

theorem paddr_of_resolves (h1 : m.tlbRam.AtMostOne vaddr m.asid) (h : m.Resolves vaddr r) :
    ∀ a ∈ r.paddr vaddr, m.paddr vaddr = a := by
  intro a ha
  cases h with
  | kseg0 h =>
    rw [paddr, unmapped_of_kseg0 h]
    exact Option.some.inj ha
  | kseg1 h =>
    rw [paddr, unmapped_of_kseg1 h]
    exact Option.some.inj ha
  | page i h hi =>
    rw [paddr, isMapped_iff.2 h, if_pos rfl, search_of_maps h1 hi]
    exact Option.some.inj ha
  | refill => simp [Resolution.paddr] at ha

theorem dTlbExc_of_resolves {q : DBusReq} (h1 : m.tlbRam.AtMostOne q.addr m.asid)
    (h : m.Resolves q.addr r) : m.dTlbExc q = r.excOf q.valid (q.strobe != 0#4) := by
  cases h with
  | kseg0 h => simp [dTlbExc, unmapped_of_kseg0 h, Resolution.excOf, Resolution.exc]
  | kseg1 h => simp [dTlbExc, unmapped_of_kseg1 h, Resolution.excOf, Resolution.exc]
  | page i h hi =>
    simp only [dTlbExc, isMapped_iff.2 h, search_of_maps h1 hi, Resolution.excOf,
      Resolution.exc]
    cases q.valid <;> simp
  | refill h hn =>
    have hf : (m.search q.addr).found = false := tlbSearch_not_found hn
    simp only [dTlbExc, isMapped_iff.2 h, hf, Resolution.excOf, Resolution.exc]
    cases q.valid <;> simp

/-- A fetch has the exceptions of an access that does not store. -/
theorem iTlbExc_of_resolves {q : IBusReq} (h1 : m.tlbRam.AtMostOne q.addr m.asid)
    (h : m.Resolves q.addr r) : m.iTlbExc q = r.excOf q.valid false := by
  cases h with
  | kseg0 h => simp [iTlbExc, unmapped_of_kseg0 h, Resolution.excOf, Resolution.exc]
  | kseg1 h => simp [iTlbExc, unmapped_of_kseg1 h, Resolution.excOf, Resolution.exc]
  | page i h hi =>
    simp only [iTlbExc, isMapped_iff.2 h, search_of_maps h1 hi, Resolution.excOf,
      Resolution.exc]
    cases q.valid <;> simp
  | refill h hn =>
    have hf : (m.search q.addr).found = false := tlbSearch_not_found hn
    simp only [iTlbExc, isMapped_iff.2 h, hf, Resolution.excOf, Resolution.exc]
    cases q.valid <;> simp

theorem dUncache_of_resolves {q : DBusReq} (h1 : m.tlbRam.AtMostOne q.addr m.asid)
    (h : m.Resolves q.addr r) : ∀ u ∈ r.uncached, m.dUncache q = u := by
  intro u hu
  cases h with
  | kseg0 h =>
    rw [dUncache, unmapped_of_kseg0 h, Bool.false_and, Bool.or_false, ← Option.some.inj hu,
      Bool.eq_iff_iff, unmappedIsUncached_iff, bne_iff_ne]
    exact ⟨fun hk => hk.elim (fun h1 => absurd h1.1 (by have := h.2; omega)) And.right,
      fun hk => Or.inr ⟨h, hk⟩⟩
  | kseg1 h =>
    rw [dUncache, unmappedIsUncached_iff.2 (Or.inl h), Bool.true_or, ← Option.some.inj hu]
  | page i h hi =>
    have hk : unmappedIsUncached m.configK0 q.addr = false := by
      rw [Bool.eq_false_iff, Ne, unmappedIsUncached_iff]
      exact fun hk => hk.elim h.2 fun hk => h.1 hk.1
    rw [dUncache, hk, isMapped_iff.2 h, search_of_maps h1 hi, Bool.false_or, Bool.true_and,
      ← Option.some.inj hu]
  | refill => simp [Resolution.uncached] at hu

end Ports

/-- The two instruction ports and the two data ports follow the resolution of their
addresses. The cacheability is an output of the data ports alone. -/
structure Follows (i : Pair IBusReq) (d : Pair DBusReq) : Prop where
  fetch : i.Each fun q => ∀ r, m.Resolves q.addr r →
    Agrees r q.addr q.valid false (m.iTlbExc q) (m.ireq q).valid (m.ireq q).addr
  data : d.Each fun q => ∀ r, m.Resolves q.addr r →
    Agrees r q.addr q.valid (q.strobe != 0#4) (m.dTlbExc q) (m.dreq q).valid (m.dreq q).addr ∧
      ∀ u ∈ r.uncached, m.dUncache q = u

theorem fetch_agrees {q : IBusReq} (h1 : m.tlbRam.AtMostOne q.addr m.asid) {r : Resolution}
    (h : m.Resolves q.addr r) :
    Agrees r q.addr q.valid false (m.iTlbExc q) (m.ireq q).valid (m.ireq q).addr where
  exc_eq := iTlbExc_of_resolves h1 h
  valid_iff := by simp [ireq, TlbExc.any_eq_false]
  addr_eq := paddr_of_resolves h1 h

theorem data_agrees {q : DBusReq} (h1 : m.tlbRam.AtMostOne q.addr m.asid) {r : Resolution}
    (h : m.Resolves q.addr r) :
    Agrees r q.addr q.valid (q.strobe != 0#4) (m.dTlbExc q) (m.dreq q).valid
      (m.dreq q).addr where
  exc_eq := dTlbExc_of_resolves h1 h
  valid_iff := by simp [dreq, TlbExc.any_eq_false]
  addr_eq := paddr_of_resolves h1 h

/-- Translation follows the TLB: for every TLB, address space and cacheability of `kseg0`,
and requests whose addresses at most one entry maps. -/
theorem translation_follows (i : Pair IBusReq) (d : Pair DBusReq)
    (hi : i.Each fun q => m.tlbRam.AtMostOne q.addr m.asid)
    (hd : d.Each fun q => m.tlbRam.AtMostOne q.addr m.asid) : m.Follows i d where
  fetch := ⟨fun _ => m.fetch_agrees hi.slot1, fun _ => m.fetch_agrees hi.slot0⟩
  data :=
    ⟨fun _ h => ⟨m.data_agrees hd.slot1 h, dUncache_of_resolves hd.slot1 h⟩,
      fun _ h => ⟨m.data_agrees hd.slot0 h, dUncache_of_resolves hd.slot0 h⟩⟩

/-- Entry 3 maps the pages at 0x2000 and 0x3000 of every address space. -/
def onePair : MmuState where
  tlbRam := Function.update (fun _ => {}) 3#4
    { vpn2 := 1#19, g := true, pfn0 := 0x12345#20, c0 := 3#3, v0 := true
      pfn1 := 0x54321#20, c1 := 2#3, d1 := true, v1 := true }
  asid := 7#8
  configK0 := 3#3

theorem translation_follows_onePair :
    onePair.Follows ⟨⟨true, 0x80001234#32⟩, ⟨true, 0x2010#32⟩⟩
      ⟨⟨true, 0x2010#32, .size4, 0xf#4, 0#32⟩, ⟨true, 0x3010#32, .size4, 0xf#4, 0#32⟩⟩ :=
  translation_follows onePair _ _
    ⟨by unfold Tlb.AtMostOne; decide, by unfold Tlb.AtMostOne; decide⟩
    ⟨by unfold Tlb.AtMostOne; decide, by unfold Tlb.AtMostOne; decide⟩

/-- Where no entry maps the address there is no page, and the cacheability that the data
port reports is that of entry 0: after reset, the one of an uncached page. -/
theorem uncached_without_page :
    ¬ ∀ (m : MmuState) (q : DBusReq), m.tlbRam.AtMostOne q.addr m.asid →
      (m.dUncache q = true ↔ InKseg1 q.addr ∨ (InKseg0 q.addr ∧ m.configK0 ≠ 3#3) ∨
        (Mapped q.addr ∧ ∃ i, (m.tlbRam i).Maps q.addr m.asid ∧
          ((m.tlbRam i).half (oddPage q.addr)).c ≠ 3#3)) := by
  intro h
  have hm : ∀ i, ¬ ((fun _ => {} : Tlb) i).Maps 0x2000#32 0#8 := by decide
  have hu := (h ⟨fun _ => {}, 0#8, 3#3⟩ ⟨true, 0x2000#32, .size4, 0#4, 0#32⟩
    fun i _ hi _ => absurd hi (hm i)).1 (by decide)
  rcases hu with hk | ⟨hk, -⟩ | ⟨-, i, hi, -⟩
  · exact absurd hk.1 (by decide)
  · exact absurd hk.1 (by decide)
  · exact hm i hi

end MmuState

end FrailCPU
