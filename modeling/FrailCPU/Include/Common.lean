import Mathlib.Tactic

/-!
# Words and buses

The data types of `common.svh` and `cache_pkg.svh`: words and strobes, the
request and response records of the data bus, and of the cache bus behind it.
Fixed-width fields are bit vectors, one-bit fields are booleans, and an
enumeration is an inductive type whose first constructor is its zero. The value
`default` of a record is the all-zero record that the source writes as `'0`.
-/

namespace FrailCPU

/-- `word_t` and `addr_t`: all addresses and words are 32-bit. -/
abbrev Word := BitVec 32

/-- `strobe_t`: one write enable for each byte of a word. -/
abbrev Strobe := BitVec 4

/-- The low word of a word that was extended. -/
@[simp] theorem extractLsb'_setWidth_word (w : Word) :
    (w.setWidth 64).extractLsb' 0 32 = w := by
  apply BitVec.eq_of_getLsbD_eq
  intro i hi
  simp [hi]
  omega

/-- `msize_t`: number of bytes transferred in one memory access. -/
inductive MSize
  | size1 | size2 | size4
  deriving DecidableEq, Repr, Inhabited

/-- `mlen_t`: the encoding of a burst length is one less than its beats. -/
abbrev MLen := BitVec 4

def mlen1 : MLen := 0#4

def mlen16 : MLen := 15#4

/-- `dbus_req_t`. -/
structure DBusReq where
  valid : Bool
  addr : Word
  size : MSize
  strobe : Strobe
  data : Word
  deriving DecidableEq, Repr, Inhabited

/-- `cbus_req_t`. -/
structure CBusReq where
  valid : Bool
  isWrite : Bool
  size : MSize
  addr : Word
  strobe : Strobe
  data : Word
  len : MLen
  deriving DecidableEq, Repr, Inhabited

/-- `cbus_resp_t`. -/
structure CBusResp where
  ready : Bool
  last : Bool
  data : Word
  deriving DecidableEq, Repr, Inhabited

/-- `dcache_inst_t`. -/
inductive DCacheInst
  | unknown | indexWritebackInvalid | indexStoreTag | hitInvalid | hitWritebackInvalid
  deriving DecidableEq, Repr, Inhabited

/-- `icache_inst_t`. -/
inductive ICacheInst
  | unknown | indexInvalid | indexStoreTag | hitInvalid
  deriving DecidableEq, Repr, Inhabited

/-- `cache_oper_t`. -/
inductive CacheOper
  | null | req | invalid | writebackInvalid | indexStore
  deriving DecidableEq, Repr, Inhabited

end FrailCPU
