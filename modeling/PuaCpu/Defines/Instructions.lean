import PuaCpu.Defines.Const

/-! # The decode table

A bit pattern is the list of the fields it fixes. The table maps each pattern
to its instruction type, functional unit and operation, for the configuration
that the core is elaborated with: 64 bits, multiply and divide, and CSR
instructions.
-/

namespace PuaCpu

/-- A field of an instruction word with the value that a pattern requires there. -/
structure BitField where
  lo : ℕ
  width : ℕ
  value : BitVec width

/-- `BitPat`: the fields without question marks. -/
abbrev BitPat := List BitField

namespace BitPat

def opcode (v : BitVec 7) : BitField := ⟨0, 7, v⟩
def rd (v : BitVec 5) : BitField := ⟨7, 5, v⟩
def funct3 (v : BitVec 3) : BitField := ⟨12, 3, v⟩
def rs1 (v : BitVec 5) : BitField := ⟨15, 5, v⟩
def funct7 (v : BitVec 7) : BitField := ⟨25, 7, v⟩
def funct6 (v : BitVec 6) : BitField := ⟨26, 6, v⟩
def imm12 (v : BitVec 12) : BitField := ⟨20, 12, v⟩

/-- Whether an instruction word has the fields of a pattern. -/
def hits (p : BitPat) (inst : Word) : Bool :=
  p.all fun f => inst.extractLsb' f.lo f.width == f.value

end BitPat

/-- What the decoder looks up for an instruction. -/
structure DecodeEntry where
  instrType : InstrType
  fuType : FuType
  fuOpType : FuOp
  deriving DecidableEq, Repr

abbrev DecodeTable := List (BitPat × DecodeEntry)

/-- `ListLookup`: the entry of the first pattern that hits, or the default. -/
def listLookup (inst : Word) (default : DecodeEntry) (table : DecodeTable) : DecodeEntry :=
  table.foldr (fun m n => if m.1.hits inst then m.2 else n) default

open BitPat

namespace RV32IALUInstr

def table : DecodeTable := [
  -- ADDI, SLLI, SLTI, SLTIU, XORI, SRLI, ORI, ANDI, SRAI
  ([funct3 0b000, opcode 0b0010011], ⟨.i, .alu, ALUOpType.add⟩),
  ([funct6 0b000000, funct3 0b001, opcode 0b0010011], ⟨.i, .alu, ALUOpType.sll⟩),
  ([funct3 0b010, opcode 0b0010011], ⟨.i, .alu, ALUOpType.slt⟩),
  ([funct3 0b011, opcode 0b0010011], ⟨.i, .alu, ALUOpType.sltu⟩),
  ([funct3 0b100, opcode 0b0010011], ⟨.i, .alu, ALUOpType.xor⟩),
  ([funct6 0b000000, funct3 0b101, opcode 0b0010011], ⟨.i, .alu, ALUOpType.srl⟩),
  ([funct3 0b110, opcode 0b0010011], ⟨.i, .alu, ALUOpType.or⟩),
  ([funct3 0b111, opcode 0b0010011], ⟨.i, .alu, ALUOpType.and⟩),
  ([funct6 0b010000, funct3 0b101, opcode 0b0010011], ⟨.i, .alu, ALUOpType.sra⟩),
  -- ADD, SLL, SLT, SLTU, XOR, SRL, OR, AND, SUB, SRA
  ([funct7 0b0000000, funct3 0b000, opcode 0b0110011], ⟨.r, .alu, ALUOpType.add⟩),
  ([funct7 0b0000000, funct3 0b001, opcode 0b0110011], ⟨.r, .alu, ALUOpType.sll⟩),
  ([funct7 0b0000000, funct3 0b010, opcode 0b0110011], ⟨.r, .alu, ALUOpType.slt⟩),
  ([funct7 0b0000000, funct3 0b011, opcode 0b0110011], ⟨.r, .alu, ALUOpType.sltu⟩),
  ([funct7 0b0000000, funct3 0b100, opcode 0b0110011], ⟨.r, .alu, ALUOpType.xor⟩),
  ([funct7 0b0000000, funct3 0b101, opcode 0b0110011], ⟨.r, .alu, ALUOpType.srl⟩),
  ([funct7 0b0000000, funct3 0b110, opcode 0b0110011], ⟨.r, .alu, ALUOpType.or⟩),
  ([funct7 0b0000000, funct3 0b111, opcode 0b0110011], ⟨.r, .alu, ALUOpType.and⟩),
  ([funct7 0b0100000, funct3 0b000, opcode 0b0110011], ⟨.r, .alu, ALUOpType.sub⟩),
  ([funct7 0b0100000, funct3 0b101, opcode 0b0110011], ⟨.r, .alu, ALUOpType.sra⟩),
  -- AUIPC, LUI
  ([opcode 0b0010111], ⟨.u, .alu, ALUOpType.add⟩),
  ([opcode 0b0110111], ⟨.u, .alu, ALUOpType.add⟩)]

end RV32IALUInstr

namespace RV64IInstr

def table : DecodeTable := [
  -- ADDIW, SLLIW, SRLIW, SRAIW
  ([funct3 0b000, opcode 0b0011011], ⟨.i, .alu, ALUOpType.addw⟩),
  ([funct7 0b0000000, funct3 0b001, opcode 0b0011011], ⟨.i, .alu, ALUOpType.sllw⟩),
  ([funct7 0b0000000, funct3 0b101, opcode 0b0011011], ⟨.i, .alu, ALUOpType.srlw⟩),
  ([funct7 0b0100000, funct3 0b101, opcode 0b0011011], ⟨.i, .alu, ALUOpType.sraw⟩),
  -- SLLW, SRLW, SRAW, ADDW, SUBW
  ([funct7 0b0000000, funct3 0b001, opcode 0b0111011], ⟨.r, .alu, ALUOpType.sllw⟩),
  ([funct7 0b0000000, funct3 0b101, opcode 0b0111011], ⟨.r, .alu, ALUOpType.srlw⟩),
  ([funct7 0b0100000, funct3 0b101, opcode 0b0111011], ⟨.r, .alu, ALUOpType.sraw⟩),
  ([funct7 0b0000000, funct3 0b000, opcode 0b0111011], ⟨.r, .alu, ALUOpType.addw⟩),
  ([funct7 0b0100000, funct3 0b000, opcode 0b0111011], ⟨.r, .alu, ALUOpType.subw⟩),
  -- MULW, DIVW, DIVUW, REMW, REMUW
  ([funct7 0b0000001, funct3 0b000, opcode 0b0111011], ⟨.r, .mdu, MDUOpType.mulw⟩),
  ([funct7 0b0000001, funct3 0b100, opcode 0b0111011], ⟨.r, .mdu, MDUOpType.divw⟩),
  ([funct7 0b0000001, funct3 0b101, opcode 0b0111011], ⟨.r, .mdu, MDUOpType.divuw⟩),
  ([funct7 0b0000001, funct3 0b110, opcode 0b0111011], ⟨.r, .mdu, MDUOpType.remw⟩),
  ([funct7 0b0000001, funct3 0b111, opcode 0b0111011], ⟨.r, .mdu, MDUOpType.remuw⟩)]

end RV64IInstr

namespace RV64MInstr

def table : DecodeTable := [
  -- MUL, MULH, MULHSU, MULHU, DIV, DIVU, REM, REMU
  ([funct7 0b0000001, funct3 0b000, opcode 0b0110011], ⟨.r, .mdu, MDUOpType.mul⟩),
  ([funct7 0b0000001, funct3 0b001, opcode 0b0110011], ⟨.r, .mdu, MDUOpType.mulh⟩),
  ([funct7 0b0000001, funct3 0b010, opcode 0b0110011], ⟨.r, .mdu, MDUOpType.mulhsu⟩),
  ([funct7 0b0000001, funct3 0b011, opcode 0b0110011], ⟨.r, .mdu, MDUOpType.mulhu⟩),
  ([funct7 0b0000001, funct3 0b100, opcode 0b0110011], ⟨.r, .mdu, MDUOpType.div⟩),
  ([funct7 0b0000001, funct3 0b101, opcode 0b0110011], ⟨.r, .mdu, MDUOpType.divu⟩),
  ([funct7 0b0000001, funct3 0b110, opcode 0b0110011], ⟨.r, .mdu, MDUOpType.rem⟩),
  ([funct7 0b0000001, funct3 0b111, opcode 0b0110011], ⟨.r, .mdu, MDUOpType.remu⟩)]

end RV64MInstr

namespace RV64CsrInstr

def table : DecodeTable := [
  -- CSRRW, CSRRS, CSRRC, CSRRWI, CSRRSI, CSRRCI
  ([funct3 0b001, opcode 0b1110011], ⟨.i, .csr, CSROpType.write⟩),
  ([funct3 0b010, opcode 0b1110011], ⟨.i, .csr, CSROpType.set⟩),
  ([funct3 0b011, opcode 0b1110011], ⟨.i, .csr, CSROpType.clear⟩),
  ([funct3 0b101, opcode 0b1110011], ⟨.i, .csr, CSROpType.writei⟩),
  ([funct3 0b110, opcode 0b1110011], ⟨.i, .csr, CSROpType.seti⟩),
  ([funct3 0b111, opcode 0b1110011], ⟨.i, .csr, CSROpType.cleari⟩),
  -- ECALL, EBREAK, FENCE, MRET, WFI
  ([imm12 0b000000000000, rs1 0b00000, funct3 0b000, rd 0b00000, opcode 0b1110011],
    ⟨.s, .csr, CSROpType.ecall⟩),
  ([imm12 0b000000000001, rs1 0b00000, funct3 0b000, rd 0b00000, opcode 0b1110011],
    ⟨.s, .csr, CSROpType.ebreak⟩),
  ([⟨28, 4, 0b0000⟩, rs1 0b00000, funct3 0b000, rd 0b00000, opcode 0b0001111],
    ⟨.s, .alu, ALUOpType.add⟩),
  ([imm12 0b001100000010, rs1 0b00000, funct3 0b000, rd 0b00000, opcode 0b1110011],
    ⟨.s, .csr, CSROpType.mret⟩),
  ([imm12 0b000100000101, rs1 0b00000, funct3 0b000, rd 0b00000, opcode 0b1110011],
    ⟨.s, .alu, ALUOpType.add⟩)]

end RV64CsrInstr

namespace RV64MemInstr

def table : DecodeTable := [
  -- LB, LH, LW, LD, LBU, LHU, LWU
  ([funct3 0b000, opcode 0b0000011], ⟨.i, .lsu, LSUOpType.lb⟩),
  ([funct3 0b001, opcode 0b0000011], ⟨.i, .lsu, LSUOpType.lh⟩),
  ([funct3 0b010, opcode 0b0000011], ⟨.i, .lsu, LSUOpType.lw⟩),
  ([funct3 0b011, opcode 0b0000011], ⟨.i, .lsu, LSUOpType.ld⟩),
  ([funct3 0b100, opcode 0b0000011], ⟨.i, .lsu, LSUOpType.lbu⟩),
  ([funct3 0b101, opcode 0b0000011], ⟨.i, .lsu, LSUOpType.lhu⟩),
  ([funct3 0b110, opcode 0b0000011], ⟨.i, .lsu, LSUOpType.lwu⟩),
  -- SB, SH, SW, SD
  ([funct3 0b000, opcode 0b0100011], ⟨.s, .lsu, LSUOpType.sb⟩),
  ([funct3 0b001, opcode 0b0100011], ⟨.s, .lsu, LSUOpType.sh⟩),
  ([funct3 0b010, opcode 0b0100011], ⟨.s, .lsu, LSUOpType.sw⟩),
  ([funct3 0b011, opcode 0b0100011], ⟨.s, .lsu, LSUOpType.sd⟩)]

end RV64MemInstr

namespace RV64BruInstr

def table : DecodeTable := [
  -- JAL, JALR, BEQ, BNE, BLT, BGE, BLTU, BGEU
  ([opcode 0b1101111], ⟨.j, .bru, BRUOpType.jal⟩),
  ([funct3 0b000, opcode 0b1100111], ⟨.i, .bru, BRUOpType.jalr⟩),
  ([funct3 0b000, opcode 0b1100011], ⟨.b, .bru, BRUOpType.beq⟩),
  ([funct3 0b001, opcode 0b1100011], ⟨.b, .bru, BRUOpType.bne⟩),
  ([funct3 0b100, opcode 0b1100011], ⟨.b, .bru, BRUOpType.blt⟩),
  ([funct3 0b101, opcode 0b1100011], ⟨.b, .bru, BRUOpType.bge⟩),
  ([funct3 0b110, opcode 0b1100011], ⟨.b, .bru, BRUOpType.bltu⟩),
  ([funct3 0b111, opcode 0b1100011], ⟨.b, .bru, BRUOpType.bgeu⟩)]

end RV64BruInstr

namespace RVIInstr

def table : DecodeTable :=
  RV32IALUInstr.table ++ RV64IInstr.table ++ RV64MInstr.table ++ RV64CsrInstr.table ++
    RV64MemInstr.table ++ RV64BruInstr.table

end RVIInstr

namespace Instructions

def decodeDefault : DecodeEntry := ⟨.n, .alu, ALUOpType.add⟩

def decodeTable : DecodeTable := RVIInstr.table

end Instructions

end PuaCpu
