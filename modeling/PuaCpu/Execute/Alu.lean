import PuaCpu.Decode.Decoder

/-! # Arithmetic units

`Alu` and `Mdu`. The widths of the intermediate results are those that FIRRTL
infers: a signed quotient is one bit wider than its dividend, a product as wide
as both factors together, and the result port keeps the low 64 bits.
-/

namespace PuaCpu

namespace Alu

variable (src : SrcInfo)

def addRes : Word := src.src1Data + src.src2Data
def subRes : Word := src.src1Data - src.src2Data
def sllRes : Word := src.src1Data <<< (src.src2Data.extractLsb' 0 6)
def sltRes : Word := (BitVec.ofBool (src.src1Data.slt src.src2Data)).setWidth 64
def sltuRes : Word := (BitVec.ofBool (src.src1Data.ult src.src2Data)).setWidth 64
def xorRes : Word := src.src1Data ^^^ src.src2Data
def srlRes : Word := src.src1Data >>> (src.src2Data.extractLsb' 0 6)
def sraRes : Word := src.src1Data.sshiftRight' (src.src2Data.extractLsb' 0 6)
def orRes : Word := src.src1Data ||| src.src2Data
def andRes : Word := src.src1Data &&& src.src2Data

/-- The low words of the operands. -/
def src1Low : BitVec 32 := src.src1Data.extractLsb' 0 32
def src2Low : BitVec 32 := src.src2Data.extractLsb' 0 32

def addwRes : Word := signedExtend (src1Low src + src2Low src) 64
def subwRes : Word := signedExtend (src1Low src - src2Low src) 64
def sllwRes : Word := signedExtend (src1Low src <<< (src2Low src).extractLsb' 0 5) 64
def srlwRes : Word := signedExtend (src1Low src >>> (src2Low src).extractLsb' 0 5) 64
def srawRes : Word := signedExtend ((src1Low src).sshiftRight' ((src2Low src).extractLsb' 0 5)) 64

def result (op : FuOp) : Word :=
  if op = ALUOpType.add then addRes src
  else if op = ALUOpType.sub then subRes src
  else if op = ALUOpType.sll then sllRes src
  else if op = ALUOpType.slt then sltRes src
  else if op = ALUOpType.sltu then sltuRes src
  else if op = ALUOpType.xor then xorRes src
  else if op = ALUOpType.srl then srlRes src
  else if op = ALUOpType.sra then sraRes src
  else if op = ALUOpType.or then orRes src
  else if op = ALUOpType.and then andRes src
  else if op = ALUOpType.addw then addwRes src
  else if op = ALUOpType.subw then subwRes src
  else if op = ALUOpType.sllw then sllwRes src
  else if op = ALUOpType.srlw then srlwRes src
  else if op = ALUOpType.sraw then srawRes src
  else 0

end Alu

namespace Mdu

variable (src : SrcInfo)

def mulSigned : BitVec 128 := src.src1Data.signExtend 128 * src.src2Data.signExtend 128
def mulSignedU : BitVec 128 := src.src1Data.signExtend 128 * src.src2Data.setWidth 128
def mulUnsigned : BitVec 128 := src.src1Data.setWidth 128 * src.src2Data.setWidth 128

/-- The 65-bit quotient `q` of the signed division. -/
def divSigned : BitVec 65 :=
  if src.src2Data = 0 then -1
  else (src.src1Data.signExtend 65).sdiv (src.src2Data.signExtend 65)

def remSigned : BitVec 129 :=
  src.src1Data.signExtend 129 - (divSigned src).signExtend 129 * src.src2Data.signExtend 129

def divUnsigned : Word := if src.src2Data = 0 then -1 else src.src1Data / src.src2Data

def remUnsigned : BitVec 128 :=
  src.src1Data.setWidth 128 - (divUnsigned src).setWidth 128 * src.src2Data.setWidth 128

/-- The low words of the operands. -/
def rs1Low : BitVec 32 := src.src1Data.extractLsb' 0 32
def rs2Low : BitVec 32 := src.src2Data.extractLsb' 0 32

/-- The 33-bit quotient `q` of the signed word division. -/
def divwSigned : BitVec 33 :=
  if rs2Low src = 0 then -1 else ((rs1Low src).signExtend 33).sdiv ((rs2Low src).signExtend 33)

def remwSigned : BitVec 32 :=
  if rs2Low src = 0 then rs1Low src
  else rs1Low src -
    ((divwSigned src).signExtend 65 * (rs2Low src).signExtend 65).extractLsb' 0 32

def divwUnsigned : BitVec 32 := if rs2Low src = 0 then -1 else rs1Low src / rs2Low src

def remwUnsigned : BitVec 32 :=
  if rs2Low src = 0 then rs1Low src
  else rs1Low src - ((divwUnsigned src).setWidth 64 * (rs2Low src).setWidth 64).extractLsb' 0 32

def result (op : FuOp) : Word :=
  if op = MDUOpType.mul then (mulSigned src).extractLsb' 0 64
  else if op = MDUOpType.mulh then (mulSigned src).extractLsb' 64 64
  else if op = MDUOpType.mulhsu then (mulSignedU src).extractLsb' 64 64
  else if op = MDUOpType.mulhu then (mulUnsigned src).extractLsb' 64 64
  else if op = MDUOpType.div then (divSigned src).extractLsb' 0 64
  else if op = MDUOpType.divu then divUnsigned src
  else if op = MDUOpType.rem then (remSigned src).extractLsb' 0 64
  else if op = MDUOpType.remu then (remUnsigned src).extractLsb' 0 64
  else if op = MDUOpType.mulw then signedExtend ((mulSigned src).extractLsb' 0 32) 64
  else if op = MDUOpType.divw then signedExtend ((divwSigned src).extractLsb' 0 32) 64
  else if op = MDUOpType.divuw then signedExtend (divwUnsigned src) 64
  else if op = MDUOpType.remw then signedExtend (remwSigned src) 64
  else if op = MDUOpType.remuw then signedExtend (remwUnsigned src) 64
  else 0

end Mdu

end PuaCpu
