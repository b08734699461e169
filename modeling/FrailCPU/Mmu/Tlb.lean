import FrailCPU.Include.Pipes

/-!
# The TLB

`tlb_search.sv` and the array of `tlb.sv`: sixteen entries, each for a pair of
pages. A search compares all entries at once. Its index is the disjunction of the
matching indices, so it names an entry only when at most one matches.
-/

namespace FrailCPU

/-- `tlb_entry_t`. -/
structure TlbEntry where
  vpn2 : BitVec 19 := 0#19
  asid : BitVec 8 := 0#8
  g : Bool := false
  pfn0 : BitVec 20 := 0#20
  c0 : BitVec 3 := 0#3
  d0 : Bool := false
  v0 : Bool := false
  pfn1 : BitVec 20 := 0#20
  c1 : BitVec 3 := 0#3
  d1 : Bool := false
  v1 : Bool := false
  deriving DecidableEq, Repr

/-- `tlb_index_t`. -/
abbrev TlbIndex := BitVec 4

/-- `tlb_t`. -/
abbrev Tlb := TlbIndex → TlbEntry

/-- The indices of the array, in the order of the loop of `tlb_search.sv`. -/
def tlbIndices : List TlbIndex := (List.range 16).map (BitVec.ofNat 4)

/-- `tlb_search_t`. -/
structure TlbSearch where
  found : Bool
  index : TlbIndex
  paddr : Word
  c : BitVec 3
  d : Bool
  v : Bool

namespace VAddr

variable (vaddr : Word)

def vpn2 : BitVec 19 := vaddr.extractLsb' 13 19

def oddPage : Bool := vaddr.getLsbD 12

def pageOffset : BitVec 12 := vaddr.extractLsb' 0 12

end VAddr

open VAddr

/-- `search_match[i]`. -/
def searchMatch (tlbRam : Tlb) (vaddr : Word) (asid : BitVec 8) (i : TlbIndex) : Bool :=
  vpn2 vaddr == (tlbRam i).vpn2 && (asid == (tlbRam i).asid || (tlbRam i).g)

/-- `choose_index`, the disjunction over the matching entries. -/
def chooseIndex (tlbRam : Tlb) (vaddr : Word) (asid : BitVec 8) : TlbIndex :=
  tlbIndices.foldl
    (fun chosen i => chosen ||| if searchMatch tlbRam vaddr asid i then i else 0#4) 0#4

/-- `tlb_search.sv`. -/
def tlbSearch (tlbRam : Tlb) (vaddr : Word) (asid : BitVec 8) : TlbSearch :=
  let index := chooseIndex tlbRam vaddr asid
  let entry := tlbRam index
  let odd := oddPage vaddr
  { found := tlbIndices.any (searchMatch tlbRam vaddr asid)
    index
    paddr := (if odd then entry.pfn1 else entry.pfn0) ++ pageOffset vaddr
    c := if odd then entry.c1 else entry.c0
    d := if odd then entry.d1 else entry.d0
    v := if odd then entry.v1 else entry.v0 }

end FrailCPU
