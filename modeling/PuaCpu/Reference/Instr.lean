import PuaCpu.Defines.Const

/-! # Instruction words of the reference model

`rv_instr` overlays six layouts of bit-fields on the fetched word. An unsigned
field is a bit vector of its width; a signed one is the `int` that it promotes
to. The constants are those of `rv_common.hpp`.
-/

namespace PuaCpu

/-- `cur_instr`. -/
abbrev RvInstr := BitVec 32

namespace RvInstr

variable (inst : RvInstr)

def opcode : BitVec 7 := inst.extractLsb' 0 7
def rd : RegAddr := inst.extractLsb' 7 5
def funct3 : BitVec 3 := inst.extractLsb' 12 3
def rs1 : RegAddr := inst.extractLsb' 15 5
def rs2 : RegAddr := inst.extractLsb' 20 5
def funct7 : BitVec 7 := inst.extractLsb' 25 7

/-- The field `imm12` of the I layout, and its twelve bits without a sign. -/
def imm12 : BitVec 32 := (inst.extractLsb' 20 12).signExtend 32
def csrIndex : BitVec 12 := inst.extractLsb' 20 12

/-- The fields of the S layout put together. -/
def immS : BitVec 32 :=
  (inst.extractLsb' 25 7).signExtend 32 <<< 5 ||| (inst.extractLsb' 7 5).setWidth 32

/-- The fields of the B layout put together. -/
def immB : BitVec 32 :=
  (inst.extractLsb' 31 1).signExtend 32 <<< 12 ||| (inst.extractLsb' 7 1).setWidth 32 <<< 11 |||
    (inst.extractLsb' 25 6).setWidth 32 <<< 5 ||| (inst.extractLsb' 8 4).setWidth 32 <<< 1

/-- The field `imm_31_12` of the U layout as a 64-bit integer, shifted. -/
def immU : Word := (inst.extractLsb' 12 20).signExtend 64 <<< 12

/-- The fields of the J layout put together. -/
def immJ : BitVec 32 :=
  (inst.extractLsb' 31 1).signExtend 32 <<< 20 ||| (inst.extractLsb' 12 8).setWidth 32 <<< 12 |||
    (inst.extractLsb' 20 1).setWidth 32 <<< 11 ||| (inst.extractLsb' 21 10).setWidth 32 <<< 1

end RvInstr

namespace Opcode

def lui : BitVec 7 := 0b0110111
def auipc : BitVec 7 := 0b0010111
def jal : BitVec 7 := 0b1101111
def jalr : BitVec 7 := 0b1100111
def branch : BitVec 7 := 0b1100011
def load : BitVec 7 := 0b0000011
def store : BitVec 7 := 0b0100011
def opimm : BitVec 7 := 0b0010011
def opimm32 : BitVec 7 := 0b0011011
def op : BitVec 7 := 0b0110011
def op32 : BitVec 7 := 0b0111011
def fence : BitVec 7 := 0b0001111
def system : BitVec 7 := 0b1110011
def amo : BitVec 7 := 0b0101111

end Opcode

namespace Funct3

-- funct3_branch
def beq : BitVec 3 := 0b000
def bne : BitVec 3 := 0b001
def blt : BitVec 3 := 0b100
def bge : BitVec 3 := 0b101
def bltu : BitVec 3 := 0b110
def bgeu : BitVec 3 := 0b111
-- funct3_load
def lb : BitVec 3 := 0b000
def lh : BitVec 3 := 0b001
def lw : BitVec 3 := 0b010
def ld : BitVec 3 := 0b011
def lbu : BitVec 3 := 0b100
def lhu : BitVec 3 := 0b101
def lwu : BitVec 3 := 0b110
-- funct3_store
def sb : BitVec 3 := 0b000
def sh : BitVec 3 := 0b001
def sw : BitVec 3 := 0b010
def sd : BitVec 3 := 0b011
-- funct3_op
def addSub : BitVec 3 := 0b000
def sll : BitVec 3 := 0b001
def slt : BitVec 3 := 0b010
def sltu : BitVec 3 := 0b011
def xor : BitVec 3 := 0b100
def srlSra : BitVec 3 := 0b101
def or : BitVec 3 := 0b110
def and : BitVec 3 := 0b111
-- funct3_m
def mul : BitVec 3 := 0b000
def mulh : BitVec 3 := 0b001
def mulhsu : BitVec 3 := 0b010
def mulhu : BitVec 3 := 0b011
def div : BitVec 3 := 0b100
def divu : BitVec 3 := 0b101
def rem : BitVec 3 := 0b110
def remu : BitVec 3 := 0b111
-- funct3_system
def priv : BitVec 3 := 0b000
def csrrw : BitVec 3 := 0b001
def csrrs : BitVec 3 := 0b010
def csrrc : BitVec 3 := 0b011
def csrrwi : BitVec 3 := 0b101
def csrrsi : BitVec 3 := 0b110
def csrrci : BitVec 3 := 0b111

end Funct3

namespace Funct7

def normal : BitVec 7 := 0b0000000
def subSra : BitVec 7 := 0b0100000
def mul : BitVec 7 := 0b0000001
-- funct7_priv
def ecallEbreak : BitVec 7 := 0b0000000
def sretWfi : BitVec 7 := 0b0001000
def mret : BitVec 7 := 0b0011000
def sfenceVma : BitVec 7 := 0b0001001

end Funct7

namespace Funct6

def normal : BitVec 6 := 0b000000
def sra : BitVec 6 := 0b010000

end Funct6

-- `amo_funct`
namespace AmoFunct

def lr : BitVec 5 := 0b00010
def sc : BitVec 5 := 0b00011
def swap : BitVec 5 := 0b00001
def add : BitVec 5 := 0b00000
def xor : BitVec 5 := 0b00100
def and : BitVec 5 := 0b01100
def or : BitVec 5 := 0b01000
def min : BitVec 5 := 0b10000
def max : BitVec 5 := 0b10100
def minu : BitVec 5 := 0b11000
def maxu : BitVec 5 := 0b11100

end AmoFunct

end PuaCpu
