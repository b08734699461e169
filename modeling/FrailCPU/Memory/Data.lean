import FrailCPU.Include.Pipes

/-!
# Lanes of a store and of a load

`writedata.sv` and `readdata.sv`. A store moves the bytes of the register to the lanes
its address selects and raises a strobe for each of them; a load takes them back and
extends or merges them. A halfword at an odd address moves nothing.
-/

namespace FrailCPU

/-- `writedata.sv`. -/
def writedata (addr : BitVec 2) (wd : Word) (msize : MSize) (memtype : MisalignMem) :
    Word × Strobe :=
  match msize with
  | .size1 =>
    match addr with
    | 0#2 => (wd.extractLsb' 0 8 |>.setWidth 32, 0b0001#4)
    | 1#2 => ((wd.extractLsb' 0 8 ++ 0#8).setWidth 32, 0b0010#4)
    | 2#2 => ((wd.extractLsb' 0 8 ++ 0#16).setWidth 32, 0b0100#4)
    | _ => (wd.extractLsb' 0 8 ++ 0#24, 0b1000#4)
  | .size2 =>
    match addr with
    | 0#2 => ((wd.extractLsb' 0 16).setWidth 32, 0b0011#4)
    | 2#2 => (wd.extractLsb' 0 16 ++ 0#16, 0b1100#4)
    | _ => (0#32, 0#4)
  | .size4 =>
    match memtype with
    | .memL =>
      match addr with
      | 0#2 => (0#24 ++ wd.extractLsb' 24 8, 0b0001#4)
      | 1#2 => (0#16 ++ wd.extractLsb' 16 16, 0b0011#4)
      | 2#2 => (0#8 ++ wd.extractLsb' 8 24, 0b0111#4)
      | _ => (wd, 0b1111#4)
    | .memR =>
      match addr with
      | 0#2 => (wd, 0b1111#4)
      | 1#2 => (wd.extractLsb' 0 24 ++ 0#8, 0b1110#4)
      | 2#2 => (wd.extractLsb' 0 16 ++ 0#16, 0b1100#4)
      | _ => (wd.extractLsb' 0 8 ++ 0#24, 0b1000#4)
    | .noMisalign => (wd, 0b1111#4)

def signBit (memUnsigned : Bool) (b : Bool) : Bool := !memUnsigned && b

/-- `readdata.sv`; the value that the source leaves undefined is zero here. -/
def readdata (rd : Word) (addr : BitVec 2) (msize : MSize) (memUnsigned : Bool)
    (memtype : MisalignMem) (original : Word) : Word :=
  match msize with
  | .size1 =>
    let byte : BitVec 8 := match addr with
      | 0#2 => rd.extractLsb' 0 8
      | 1#2 => rd.extractLsb' 8 8
      | 2#2 => rd.extractLsb' 16 8
      | _ => rd.extractLsb' 24 8
    BitVec.fill 24 (signBit memUnsigned byte.msb) ++ byte
  | .size2 =>
    match addr with
    | 0#2 => BitVec.fill 16 (signBit memUnsigned (rd.getLsbD 15)) ++ rd.extractLsb' 0 16
    | 2#2 => BitVec.fill 16 (signBit memUnsigned (rd.getLsbD 31)) ++ rd.extractLsb' 16 16
    | _ => 0#32
  | .size4 =>
    match memtype with
    | .memL =>
      match addr with
      | 0#2 => rd.extractLsb' 0 8 ++ original.extractLsb' 0 24
      | 1#2 => rd.extractLsb' 0 16 ++ original.extractLsb' 0 16
      | 2#2 => rd.extractLsb' 0 24 ++ original.extractLsb' 0 8
      | _ => rd
    | .memR =>
      match addr with
      | 0#2 => rd
      | 1#2 => original.extractLsb' 24 8 ++ rd.extractLsb' 8 24
      | 2#2 => original.extractLsb' 16 16 ++ rd.extractLsb' 16 16
      | _ => original.extractLsb' 8 24 ++ rd.extractLsb' 24 8
    | .noMisalign => rd

end FrailCPU
