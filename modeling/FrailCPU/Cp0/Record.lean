import FrailCPU.Cp0.Cp0
import FrailCPU.Library.Machine

/-!
# The record of an exception

What the registers say after an exception, told from its cause alone: the cause of highest
priority names the code, a faulting address goes to `BadVAddr`, and its page goes to `EntryHi`
and `Context` when the TLB refused it. The registers of `cp0.sv` agree with this record under
a condition on the flags that are raised together, and on what `Context` held before. The
address at which the fetch goes on is compared with the event in the same way.
-/

namespace FrailCPU

/-- What an instruction can be abandoned for. -/
inductive Fault
  | fetchAddress | fetchTlb | reserved | coprocessor | overflow | breakpoint | syscall | trap
  | loadAddress | storeAddress | dataTlb | clean
  deriving DecidableEq, Repr

/-- The causes, the highest priority first. -/
def Fault.order : List Fault :=
  [.fetchAddress, .fetchTlb, .reserved, .coprocessor, .overflow, .breakpoint, .syscall, .trap,
    .loadAddress, .storeAddress, .dataTlb, .clean]

/-- The flags of the instruction. -/
def Cp0Input.raises (i : Cp0Input) : Fault → Bool
  | .fetchAddress => i.etype.badVaddrF
  | .fetchTlb => i.iTlbExc.refill || i.iTlbExc.invalid
  | .reserved => i.etype.reserveInstr
  | .coprocessor => i.etype.cpU
  | .overflow => i.etype.overflow
  | .breakpoint => i.etype.bp
  | .syscall => i.etype.syscall
  | .trap => i.etype.trap
  | .loadAddress => i.etype.adelD
  | .storeAddress => i.etype.adesD
  | .dataTlb => i.dTlbExc.refill || i.dTlbExc.invalid
  | .clean => i.dTlbExc.modified

/-- The cause of highest priority. -/
def Cp0Input.fault (i : Cp0Input) : Option Fault := Fault.order.find? i.raises

/-- `EXCCODE_MOD`. -/
def exccodeMod : BitVec 5 := 0x01#5

/-- `ExcCode` of a cause. -/
def Fault.code (f : Fault) (write : Bool) : BitVec 5 :=
  match f with
  | .fetchAddress | .loadAddress => exccodeAdel
  | .storeAddress => exccodeAdes
  | .fetchTlb => exccodeTlbl
  | .dataTlb => if write then exccodeTlbs else exccodeTlbl
  | .clean => exccodeMod
  | .reserved => exccodeRi
  | .coprocessor => exccodeCpu
  | .overflow => exccodeOv
  | .breakpoint => exccodeBp
  | .syscall => exccodeSys
  | .trap => exccodeTr

/-- The address that faulted, of an address or TLB exception. -/
def Fault.address (f : Fault) (i : Cp0Input) : Option Word :=
  match f with
  | .fetchAddress | .fetchTlb => some i.pc
  | .loadAddress | .storeAddress | .dataTlb | .clean => some i.vaddr
  | _ => none

/-- The address that the TLB refused. -/
def Fault.page (f : Fault) (i : Cp0Input) : Option Word :=
  match f with
  | .fetchTlb => some i.pc
  | .dataTlb | .clean => some i.vaddr
  | _ => none

/-- `Context.BadVPN2` takes the page number of an address. -/
def writeBadVpn2 (context vaddr : Word) : Word :=
  Lanes.maskedWrite 0x007ffff0#32 context (0#9 ++ vaddr.extractLsb' 13 19 ++ 0#4 : BitVec 32)

/-- The registers after an exception with the cause `f`. -/
def Cp0Regs.afterFault (r : Cp0Regs) (f : Fault) (i : Cp0Input) : Cp0Regs :=
  { r with
    badVaddr := (f.address i).getD r.badVaddr
    entryHi := (f.page i).elim r.entryHi (writeVpn2 r.entryHi)
    context := (f.page i).elim r.context (writeBadVpn2 r.context)
    epc := if r.status.exl then r.epc else if i.isSlot then i.pc - 4#32 else i.pc
    cause := { r.cause with
      bd := if r.status.exl then r.cause.bd else i.isSlot
      excCode := f.code i.dWrite }
    status := { r.status with exl := true } }

/-- The registers without the counter. -/
def Cp0Regs.exceptCount (r : Cp0Regs) : Cp0Regs := { r with count := 0#32 }

/-- The clock edge leaves the record of the exception `f`. -/
def Cp0State.Records (s : Cp0State) (i : Cp0Input) (f : Fault) : Prop :=
  (s.regsNxt i).exceptCount = (s.regs.afterFault f i).exceptCount

/-- The address that the raw outcomes of the TLB name. -/
def Cp0Input.refused (i : Cp0Input) : Option Word :=
  if i.iTlbExc.refill || i.iTlbExc.invalid then some i.pc
  else if i.dTlbExc.any then some i.vaddr
  else none

/-- The address that goes to `BadVAddr` with the code `code`. -/
def Cp0Input.blamed (i : Cp0Input) (code : BitVec 5) : Option Word :=
  if (code == exccodeAdel && i.etype.badVaddrF) || (code == exccodeTlbl && i.iTlbExc.any)
  then some i.pc
  else if (code == exccodeAdel && i.etype.adelD) || code == exccodeAdes ||
    code == exccodeTlbs || (code == exccodeTlbl && i.dTlbExc.any) then some i.vaddr
  else none

/-- `EntryHi` keeps its page, though the raw outcomes go to it. -/
def Cp0Regs.KeepsPage (r : Cp0Regs) (i : Cp0Input) : Prop :=
  i.refused.elim r.entryHi (writeVpn2 r.entryHi) = r.entryHi

/-- The flags that `code` looks at before the cause `f`, although they are of lower priority.
The code of a store to a clean page is never chosen. -/
def Fault.Overtaken (f : Fault) (i : Cp0Input) : Prop :=
  match f with
  | .fetchTlb => i.etype.reserveInstr = true
  | .coprocessor =>
    (i.etype.overflow || i.etype.bp || i.etype.syscall || i.etype.adelD || i.etype.adesD ||
      i.dTlbExc.any) = true
  | .trap => (i.etype.adelD || i.etype.adesD || i.dTlbExc.any) = true
  | .loadAddress | .storeAddress => i.dTlbExc.any = true
  | .dataTlb => i.dTlbExc.modified = true ∧ i.dWrite = false
  | .clean => True
  | _ => False

/-- Nothing gets in the way of the cause `f`. The raw outcomes of the TLB go to `EntryHi` and
the fetch side goes to `BadVAddr` whatever the cause is, and nothing is written to
`Context`. -/
structure Fault.Unobstructed (f : Fault) (i : Cp0Input) (r : Cp0Regs) : Prop where
  first : ¬ f.Overtaken i
  badVaddr : f = .dataTlb → i.iTlbExc.modified = true → i.dWrite = true ∨ i.pc = i.vaddr
  vpn2 : f.page i = none → r.KeepsPage i
  badVpn2 : ∀ a, f.page i = some a → writeBadVpn2 r.context a = r.context

section Record

variable {s : Cp0State} {i : Cp0Input} {f : Fault}

theorem Fault.code_ne_int (f : Fault) (w : Bool) : f.code w ≠ exccodeInt := by
  cases f <;> cases w <;> decide

theorem recordPc_eq (r : Cp0Regs) (pc : Word) (isSlot : Bool) : r.recordPc pc isSlot =
    { r with
      epc := if r.status.exl then r.epc else if isSlot then pc - 4#32 else pc
      cause := { r.cause with bd := if r.status.exl then r.cause.bd else isSlot } } := by
  rw [Cp0Regs.recordPc]
  by_cases h : r.status.exl = true
  · simp [h]
  · simp [h]

/-- The registers after an exception, part by part. -/
theorem takeException_eq (r : Cp0Regs) (code : BitVec 5) : r.takeException code i =
    { r with
      badVaddr := (i.blamed code).getD r.badVaddr
      entryHi := i.refused.elim r.entryHi (writeVpn2 r.entryHi)
      epc := if r.status.exl then r.epc else if i.isSlot then i.pc - 4#32 else i.pc
      cause := { r.cause with
        bd := if r.status.exl then r.cause.bd else i.isSlot
        excCode := code }
      status := { r.status with exl := true } } := by
  have he : i.refused.elim r.entryHi (writeVpn2 r.entryHi) =
      if i.iTlbExc.refill || i.iTlbExc.invalid then writeVpn2 r.entryHi i.pc
      else if i.dTlbExc.any then writeVpn2 r.entryHi i.vaddr else r.entryHi := by
    rw [Cp0Input.refused]
    split_ifs <;> rfl
  have hb : (i.blamed code).getD r.badVaddr =
      if (code == exccodeAdel && i.etype.badVaddrF) || (code == exccodeTlbl && i.iTlbExc.any)
      then i.pc
      else if (code == exccodeAdel && i.etype.adelD) || code == exccodeAdes ||
        code == exccodeTlbs || (code == exccodeTlbl && i.dTlbExc.any) then i.vaddr
      else r.badVaddr := by
    rw [Cp0Input.blamed]
    split_ifs <;> rfl
  rw [he, hb, Cp0Regs.takeException, recordPc_eq]
  rfl

theorem exceptCount_counted : (s.counted i).exceptCount = s.regs.exceptCount := by
  rw [Cp0State.counted]
  split <;> rfl

/-- An exception does not read the counter. -/
theorem takeException_exceptCount (r : Cp0Regs) (code : BitVec 5) :
    (r.takeException code i).exceptCount = (r.exceptCount.takeException code i).exceptCount := by
  rw [takeException_eq, takeException_eq]
  rfl

/-- What the record asks of each part of the registers. -/
theorem records_iff (ht : s.takesInterrupt i = false) (hc : i.ctype = .exception) :
    s.Records i f ↔ i.isEret = false ∧ excCode (s.interrupt i) i = f.code i.dWrite ∧
      (i.blamed (excCode (s.interrupt i) i)).getD s.regs.badVaddr =
        (f.address i).getD s.regs.badVaddr ∧
      i.refused.elim s.regs.entryHi (writeVpn2 s.regs.entryHi) =
        (f.page i).elim s.regs.entryHi (writeVpn2 s.regs.entryHi) ∧
      s.regs.context = (f.page i).elim s.regs.context (writeBadVpn2 s.regs.context) := by
  have hx : (i.ctype == Cp0Type.exception) = true := by rw [hc]; rfl
  have hregs : (s.regsNxt i).exceptCount = (if i.isEret then
      (s.regs.takeException (excCode (s.interrupt i) i) i).setExl false
      else s.regs.takeException (excCode (s.interrupt i) i) i).exceptCount := by
    rw [Cp0State.regsNxt, Cp0State.regsTaken, ht, hx, if_neg Bool.false_ne_true, if_pos rfl]
    have he := takeException_exceptCount (i := i) (s.counted i) (excCode (s.interrupt i) i)
    rw [exceptCount_counted, ← takeException_exceptCount] at he
    split
    · exact congrArg (fun r : Cp0Regs => r.setExl false) he
    · exact he
  rw [Cp0State.Records, hregs, takeException_eq]
  cases i.isEret with
  | true => simp [Cp0Regs.exceptCount, Cp0Regs.setExl, Cp0Regs.afterFault]
  | false =>
      simp only [Cp0Regs.exceptCount, Cp0Regs.afterFault, Bool.false_eq_true, if_false,
        Cp0Regs.mk.injEq, Cp0Cause.mk.injEq, true_and, and_true]
      tauto

/-- What a search finds comes before everything else that it could have found. -/
theorem find?_first {α : Type} {l : List α} {r : α → Bool} {a : α} {before : α → α → Prop}
    (hl : l.Pairwise before) (hn : ∀ x, ¬ before x x) (hb : ∀ x y, before x y → ¬ before y x)
    (h : l.find? r = some a) (b : α) (hm : b ∈ l) (hba : before b a) : r b = false := by
  induction l with
  | nil => cases hm
  | cons x l ih =>
      rw [List.pairwise_cons] at hl
      rw [List.find?_cons] at h
      cases hx : r x with
      | true =>
          rw [hx] at h
          cases h
          rcases List.mem_cons.mp hm with rfl | hm
          · exact absurd hba (hn b)
          · exact absurd hba (hb _ _ (hl.1 b hm))
      | false =>
          rw [hx] at h
          rcases List.mem_cons.mp hm with rfl | hm
          · exact hx
          · exact ih hl.2 h hm

theorem fault_spec (h : i.fault = some f) :
    i.raises f = true ∧ ∀ g, g.ctorIdx < f.ctorIdx → i.raises g = false := by
  refine ⟨List.find?_some h, fun g hg => ?_⟩
  have hl : Fault.order.Pairwise (fun x y => x.ctorIdx < y.ctorIdx) := by decide
  refine find?_first hl (fun x => lt_irrefl _) (fun x y => Nat.lt_asymm) h g ?_ hg
  cases g <;> decide

theorem code_eq_iff (h : i.fault = some f) :
    excCode false i = f.code i.dWrite ↔ ¬ f.Overtaken i := by
  obtain ⟨hr, hb⟩ := fault_spec h
  cases f with
  | fetchAddress =>
      have h1 : i.etype.badVaddrF = true := hr
      simp [excCode, h1, Fault.code, Fault.Overtaken]
  | fetchTlb =>
      have h1 : i.etype.badVaddrF = false := hb .fetchAddress (by decide)
      have h2 : (i.iTlbExc.refill || i.iTlbExc.invalid) = true := hr
      simp only [excCode, h1, h2, Bool.false_eq_true, if_false, if_true, Fault.code,
        Fault.Overtaken]
      cases i.etype.reserveInstr <;> decide
  | reserved =>
      have h1 : i.etype.badVaddrF = false := hb .fetchAddress (by decide)
      have h2 : (i.iTlbExc.refill || i.iTlbExc.invalid) = false := hb .fetchTlb (by decide)
      have h3 : i.etype.reserveInstr = true := hr
      simp only [excCode, h1, h2, h3, Bool.false_eq_true, if_false, if_true, Fault.code,
        Fault.Overtaken]
      decide
  | coprocessor =>
      have h1 : i.etype.badVaddrF = false := hb .fetchAddress (by decide)
      have h2 : (i.iTlbExc.refill || i.iTlbExc.invalid) = false := hb .fetchTlb (by decide)
      have h3 : i.etype.reserveInstr = false := hb .reserved (by decide)
      have h4 : i.etype.cpU = true := hr
      simp only [excCode, h1, h2, h3, h4, Bool.false_eq_true, if_false, if_true, Fault.code,
        Fault.Overtaken]
      generalize i.etype.overflow = ov, i.etype.bp = bp, i.etype.syscall = sys, i.etype.adelD = ad,
        i.etype.adesD = as, i.dWrite = w
      cases i.dTlbExc with
      | mk r v m =>
          revert ov bp sys ad as w r v m
          decide +kernel
  | overflow =>
      have h1 : i.etype.badVaddrF = false := hb .fetchAddress (by decide)
      have h2 : (i.iTlbExc.refill || i.iTlbExc.invalid) = false := hb .fetchTlb (by decide)
      have h3 : i.etype.reserveInstr = false := hb .reserved (by decide)
      have h5 : i.etype.overflow = true := hr
      simp only [excCode, h1, h2, h3, h5, Bool.false_eq_true, if_false, if_true, Fault.code,
        Fault.Overtaken]
      decide
  | breakpoint =>
      have h1 : i.etype.badVaddrF = false := hb .fetchAddress (by decide)
      have h2 : (i.iTlbExc.refill || i.iTlbExc.invalid) = false := hb .fetchTlb (by decide)
      have h3 : i.etype.reserveInstr = false := hb .reserved (by decide)
      have h5 : i.etype.overflow = false := hb .overflow (by decide)
      have h6 : i.etype.bp = true := hr
      simp only [excCode, h1, h2, h3, h5, h6, Bool.false_eq_true, if_false, if_true, Fault.code,
        Fault.Overtaken]
      decide
  | syscall =>
      have h1 : i.etype.badVaddrF = false := hb .fetchAddress (by decide)
      have h2 : (i.iTlbExc.refill || i.iTlbExc.invalid) = false := hb .fetchTlb (by decide)
      have h3 : i.etype.reserveInstr = false := hb .reserved (by decide)
      have h5 : i.etype.overflow = false := hb .overflow (by decide)
      have h6 : i.etype.bp = false := hb .breakpoint (by decide)
      have h7 : i.etype.syscall = true := hr
      simp only [excCode, h1, h2, h3, h5, h6, h7, Bool.false_eq_true, if_false, if_true, Fault.code,
        Fault.Overtaken]
      decide
  | trap =>
      have h1 : i.etype.badVaddrF = false := hb .fetchAddress (by decide)
      have h2 : (i.iTlbExc.refill || i.iTlbExc.invalid) = false := hb .fetchTlb (by decide)
      have h3 : i.etype.reserveInstr = false := hb .reserved (by decide)
      have h5 : i.etype.overflow = false := hb .overflow (by decide)
      have h6 : i.etype.bp = false := hb .breakpoint (by decide)
      have h7 : i.etype.syscall = false := hb .syscall (by decide)
      have h4 : i.etype.cpU = false := hb .coprocessor (by decide)
      have h8 : i.etype.trap = true := hr
      simp only [excCode, h1, h2, h3, h5, h6, h7, h4, h8, Bool.false_eq_true, if_false, if_true, Fault.code,
        Fault.Overtaken]
      generalize i.etype.adelD = ad, i.etype.adesD = as, i.dWrite = w
      cases i.dTlbExc with
      | mk r v m =>
          revert ad as w r v m
          decide +kernel
  | loadAddress =>
      have h1 : i.etype.badVaddrF = false := hb .fetchAddress (by decide)
      have h2 : (i.iTlbExc.refill || i.iTlbExc.invalid) = false := hb .fetchTlb (by decide)
      have h3 : i.etype.reserveInstr = false := hb .reserved (by decide)
      have h5 : i.etype.overflow = false := hb .overflow (by decide)
      have h6 : i.etype.bp = false := hb .breakpoint (by decide)
      have h7 : i.etype.syscall = false := hb .syscall (by decide)
      have h9 : i.etype.adelD = true := hr
      simp only [excCode, h1, h2, h3, h5, h6, h7, h9, Bool.false_eq_true, if_false, if_true, Fault.code,
        Fault.Overtaken]
      generalize i.dWrite = w
      cases i.dTlbExc with
      | mk r v m =>
          revert w r v m
          decide +kernel
  | storeAddress =>
      have h1 : i.etype.badVaddrF = false := hb .fetchAddress (by decide)
      have h2 : (i.iTlbExc.refill || i.iTlbExc.invalid) = false := hb .fetchTlb (by decide)
      have h3 : i.etype.reserveInstr = false := hb .reserved (by decide)
      have h5 : i.etype.overflow = false := hb .overflow (by decide)
      have h6 : i.etype.bp = false := hb .breakpoint (by decide)
      have h7 : i.etype.syscall = false := hb .syscall (by decide)
      have h9 : i.etype.adelD = false := hb .loadAddress (by decide)
      have h10 : i.etype.adesD = true := hr
      simp only [excCode, h1, h2, h3, h5, h6, h7, h9, h10, Bool.false_eq_true, if_false, if_true, Fault.code,
        Fault.Overtaken]
      generalize i.dWrite = w
      cases i.dTlbExc with
      | mk r v m =>
          revert w r v m
          decide +kernel
  | dataTlb =>
      have h1 : i.etype.badVaddrF = false := hb .fetchAddress (by decide)
      have h2 : (i.iTlbExc.refill || i.iTlbExc.invalid) = false := hb .fetchTlb (by decide)
      have h3 : i.etype.reserveInstr = false := hb .reserved (by decide)
      have h5 : i.etype.overflow = false := hb .overflow (by decide)
      have h6 : i.etype.bp = false := hb .breakpoint (by decide)
      have h7 : i.etype.syscall = false := hb .syscall (by decide)
      have h4 : i.etype.cpU = false := hb .coprocessor (by decide)
      have h8 : i.etype.trap = false := hb .trap (by decide)
      have h9 : i.etype.adelD = false := hb .loadAddress (by decide)
      have h10 : i.etype.adesD = false := hb .storeAddress (by decide)
      simp only [excCode, h1, h2, h3, h5, h6, h7, h4, h8, h9, h10, Bool.false_eq_true, if_false, Fault.code,
        Fault.Overtaken]
      have h11 : (i.dTlbExc.refill || i.dTlbExc.invalid) = true := hr
      rw [h11]
      cases i.dTlbExc.modified <;> cases i.dWrite <;> decide
  | clean =>
      have h1 : i.etype.badVaddrF = false := hb .fetchAddress (by decide)
      have h2 : (i.iTlbExc.refill || i.iTlbExc.invalid) = false := hb .fetchTlb (by decide)
      have h3 : i.etype.reserveInstr = false := hb .reserved (by decide)
      have h5 : i.etype.overflow = false := hb .overflow (by decide)
      have h6 : i.etype.bp = false := hb .breakpoint (by decide)
      have h7 : i.etype.syscall = false := hb .syscall (by decide)
      have h4 : i.etype.cpU = false := hb .coprocessor (by decide)
      have h8 : i.etype.trap = false := hb .trap (by decide)
      have h9 : i.etype.adelD = false := hb .loadAddress (by decide)
      have h10 : i.etype.adesD = false := hb .storeAddress (by decide)
      simp only [excCode, h1, h2, h3, h5, h6, h7, h4, h8, h9, h10, Bool.false_eq_true, if_false, Fault.code,
        Fault.Overtaken]
      have h12 : i.dTlbExc.modified = true := hr
      rw [h12]
      cases i.dTlbExc.refill <;> cases i.dTlbExc.invalid <;> cases i.dWrite <;> decide

theorem blamed_eq_none {code : BitVec 5} (h1 : code ≠ exccodeAdel) (h2 : code ≠ exccodeAdes)
    (h3 : code ≠ exccodeTlbl) (h4 : code ≠ exccodeTlbs) : i.blamed code = none := by
  simp [Cp0Input.blamed, h1, h2, h3, h4]

/-- The address in `BadVAddr`, once the code is right. -/
theorem blamed_code (h : i.fault = some f) (hf : f ≠ .clean) : i.blamed (f.code i.dWrite) =
    if f = .dataTlb ∧ i.iTlbExc.modified = true ∧ i.dWrite = false then some i.pc
    else f.address i := by
  obtain ⟨hr, hb⟩ := fault_spec h
  cases f with
  | fetchAddress =>
      have h1 : i.etype.badVaddrF = true := hr
      simp [Cp0Input.blamed, Fault.code, Fault.address, h1]
  | fetchTlb =>
      have h2 : i.iTlbExc.any = true := by
        rw [TlbExc.any, show (i.iTlbExc.refill || i.iTlbExc.invalid) = true from hr]
        rfl
      simp [Cp0Input.blamed, Fault.code, Fault.address, h2]
  | loadAddress =>
      have h1 : i.etype.badVaddrF = false := hb .fetchAddress (by decide)
      have h9 : i.etype.adelD = true := hr
      have hn : (exccodeAdel == exccodeTlbl) = false := by decide
      simp [Cp0Input.blamed, Fault.code, Fault.address, h1, h9, hn]
  | storeAddress =>
      have hn : (exccodeAdes == exccodeTlbl) = false ∧ (exccodeAdes == exccodeAdel) = false := by
        decide
      simp [Cp0Input.blamed, Fault.code, Fault.address, hn]
  | dataTlb =>
      have h1 : i.etype.badVaddrF = false := hb .fetchAddress (by decide)
      have h2 : (i.iTlbExc.refill || i.iTlbExc.invalid) = false := hb .fetchTlb (by decide)
      have hi : i.iTlbExc.any = i.iTlbExc.modified := by
        rw [TlbExc.any, h2]
        rfl
      have hd : i.dTlbExc.any = true := by
        rw [TlbExc.any, show (i.dTlbExc.refill || i.dTlbExc.invalid) = true from hr]
        rfl
      have hn : (exccodeTlbs == exccodeTlbl) = false ∧ (exccodeTlbs == exccodeAdel) = false ∧
          (exccodeTlbl == exccodeAdel) = false ∧ (exccodeTlbl == exccodeAdes) = false := by
        decide
      cases hw : i.dWrite <;> cases hm : i.iTlbExc.modified <;>
        simp [Cp0Input.blamed, Fault.code, Fault.address, h1, hi, hd, hn, hm]
  | clean => exact absurd rfl hf
  | reserved | coprocessor | overflow | breakpoint | syscall | trap =>
      refine blamed_eq_none ?_ ?_ ?_ ?_ <;> cases i.dWrite <;> decide

/-- The raw outcomes of the TLB agree with the cause. -/
theorem refused_eq (h : i.fault = some f) (ho : ¬ f.Overtaken i) {a : Word}
    (hp : f.page i = some a) : i.refused = some a := by
  obtain ⟨hr, hb⟩ := fault_spec h
  cases f with
  | fetchTlb =>
      rw [Cp0Input.refused, show (i.iTlbExc.refill || i.iTlbExc.invalid) = true from hr]
      exact hp
  | dataTlb =>
      have h2 : (i.iTlbExc.refill || i.iTlbExc.invalid) = false := hb .fetchTlb (by decide)
      have hd : i.dTlbExc.any = true := by
        rw [TlbExc.any, show (i.dTlbExc.refill || i.dTlbExc.invalid) = true from hr]
        rfl
      rw [Cp0Input.refused, h2, hd]
      exact hp
  | clean => exact absurd trivial ho
  | _ => cases hp

end Record

/-- The record of an exception is right exactly when no interrupt is pending, no `ERET` leaves
with the exception, and nothing gets in the way of the cause. -/
theorem exception_record_iff (s : Cp0State) (i : Cp0Input) (f : Fault)
    (ht : s.takesInterrupt i = false) (hc : i.ctype = .exception) (hf : i.fault = some f) :
    s.Records i f ↔
      s.interrupt i = false ∧ i.isEret = false ∧ f.Unobstructed i s.regs := by
  rw [records_iff ht hc]
  cases hint : s.interrupt i with
  | true =>
      have hcode : excCode true i = exccodeInt := rfl
      rw [hcode]
      constructor
      · rintro ⟨-, he, -⟩
        exact absurd he.symm (f.code_ne_int _)
      · rintro ⟨h, -⟩
        cases h
  | false =>
      rw [code_eq_iff hf]
      constructor
      · rintro ⟨he, ho, hbad, hvpn, hctx⟩
        have hfc : f ≠ .clean := by
          rintro rfl
          exact ho trivial
        rw [(code_eq_iff hf).mpr ho, blamed_code hf hfc] at hbad
        refine ⟨rfl, he, ho, ?_, ?_, ?_⟩
        · rintro rfl hm
          by_contra hn
          push Not at hn
          have hw : i.dWrite = false := by simpa using hn.1
          rw [if_pos ⟨rfl, hm, hw⟩] at hbad
          exact hn.2 hbad
        · intro hp
          rw [hp] at hvpn
          exact hvpn
        · intro a ha
          rw [ha] at hctx
          exact hctx.symm
      · rintro ⟨-, he, h⟩
        have hfc : f ≠ .clean := by
          rintro rfl
          exact h.first trivial
        rw [(code_eq_iff hf).mpr h.first, blamed_code hf hfc]
        refine ⟨he, h.first, ?_, ?_, ?_⟩
        · split
          · rename_i hx
            obtain ⟨rfl, hm, hw⟩ := hx
            rcases h.badVaddr rfl hm with hw' | hpc
            · rw [hw] at hw'
              cases hw'
            · exact hpc
          · rfl
        · cases hp : f.page i with
          | none => exact h.vpn2 hp
          | some a => rw [refused_eq hf h.first hp]
        · cases hp : f.page i with
          | none => rfl
          | some a => exact (h.badVpn2 a hp).symm

/-- A system call. -/
def Cp0Input.system : Cp0Input := { ctype := .exception, etype := { syscall := true } }

theorem exception_record_system :
    ({} : Cp0State).takesInterrupt .system = false ∧ ({} : Cp0State).Records .system .syscall :=
  ⟨rfl, (exception_record_iff {} .system .syscall rfl rfl rfl).mpr
    ⟨rfl, rfl, id, (fun h => by cases h), fun _ => rfl, (fun _ h => by cases h)⟩⟩

/-- A store to a clean page is recorded as a store that missed the TLB. -/
theorem not_exception_record_clean : ¬ ∀ (s : Cp0State) (i : Cp0Input) (f : Fault),
    s.takesInterrupt i = false → i.ctype = .exception → i.fault = some f → s.Records i f := by
  intro h
  have hr := h {} { ctype := .exception, dTlbExc := { modified := true }, dWrite := true } .clean
    rfl rfl rfl
  exact absurd (congrArg (fun r : Cp0Regs => r.cause.excCode) hr) (by decide)

/-! ### Where the fetch goes on -/

/-- The exception that the code names is a TLB refill, of the fetch if the fetch was refused. -/
def Cp0Input.recordsRefill (i : Cp0Input) : Bool :=
  (excCode false i == exccodeTlbl || excCode false i == exccodeTlbs) &&
    if i.iTlbExc.refill || i.iTlbExc.invalid then i.iTlbExc.refill else i.dTlbExc.refill

namespace Cp0State

variable (s : Cp0State) (i : Cp0Input)

/-- The entry address of the event that the cycle records. -/
def entry : Word :=
  0xbfc00200#32 +
    if s.takesInterrupt i then if s.regs.cause.iv then 0x200#32 else 0x180#32
    else if i.recordsRefill && !s.regs.status.exl then 0#32
    else 0x180#32

/-- The inputs of `entrance` tell the events apart: no refused access leaves with an interrupt
that has no vector of its own, no interrupt with a vector of its own is pending beside an
exception, and no refused access hides behind another exception. -/
def Distinguished : Prop :=
  if s.takesInterrupt i then
    s.regs.cause.iv = true ∨ s.regs.status.exl = true ∨
      (i.iTlbExc.refill || i.dTlbExc.refill) = false
  else
    (s.isInt i && s.regs.cause.iv) = false ∧
      (s.regs.status.exl = true ∨
        ((i.iTlbExc.refill || i.dTlbExc.refill) = true → i.recordsRefill = true))

end Cp0State

/-- The entry address belongs to the recorded event exactly when the inputs of `entrance` tell
the events apart. -/
theorem entrance_iff (s : Cp0State) (i : Cp0Input) :
    s.entrance i = s.entry i ↔ s.Distinguished i := by
  have ht : s.takesInterrupt i = true → s.isInt i = true := by
    intro h
    rw [Cp0State.takesInterrupt, Bool.and_eq_true] at h
    exact h.1
  have hr : i.recordsRefill = true → (i.iTlbExc.refill || i.dTlbExc.refill) = true := by
    intro h
    rw [Cp0Input.recordsRefill, Bool.and_eq_true] at h
    rw [Bool.or_eq_true]
    split at h
    · exact Or.inl h.2
    · exact Or.inr h.2
  rw [Cp0State.entrance, Cp0State.entry, Cp0State.Distinguished]
  generalize s.takesInterrupt i = t, s.isInt i = n, s.regs.cause.iv = iv,
    s.regs.status.exl = exl, (i.iTlbExc.refill || i.dTlbExc.refill) = raw,
    i.recordsRefill = rec at ht hr ⊢
  revert t n iv exl raw rec
  decide

/-- `MTC0` with the register number `n`. -/
def Cp0Input.mtc0 (n : BitVec 5) (wd : Word) : Cp0Input :=
  { wa := n ++ 0#3, wd, valid := true }

/-- A system call leaves while a line is up that cannot be taken yet, and interrupts have a
vector of their own. -/
theorem not_entrance_pending : ¬ ∀ (is : List Cp0Input) (i : Cp0Input),
    (ClockedMachine.run Cp0State.step {} is).isIntExc i = true →
      (ClockedMachine.run Cp0State.step {} is).entrance i =
        (ClockedMachine.run Cp0State.step {} is).entry i := by
  intro h
  exact absurd (h [.mtc0 12#5 0x401#32, .mtc0 13#5 0x800000#32]
    { Cp0Input.system with extInt := 1#6 } (by decide)) (by decide)

end FrailCPU
