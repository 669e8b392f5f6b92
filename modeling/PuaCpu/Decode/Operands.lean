import PuaCpu.Decode.Decoder

/-! # Source operands

The register file, the forwarding network and the decode unit. Forwarding looks
at the execute, memory and write-back stages in this order and takes the first
one whose destination register matches.
-/

namespace PuaCpu

/-- The thirty-two registers of `ARegFile`. -/
abbrev ARegFile := RegAddr → Word

namespace ARegFile

def init : ARegFile := fun _ => 0

/-- One read port; register 0 reads as zero. -/
def read (regs : ARegFile) (raddr : RegAddr) : Word := if raddr = 0 then 0 else regs raddr

/-- The write port. -/
def write (regs : ARegFile) (w : RegWrite) : ARegFile :=
  if w.wen && w.waddr != 0 then Function.update regs w.waddr w.wdata else regs

end ARegFile

/-- The destination of an older instruction, as the forwarding network sees it. -/
structure FowardSrc where
  regWen : Bool
  regWaddr : RegAddr
  wdata : Word
  deriving DecidableEq, Repr

namespace FowardCtrl

/-- Whether a stage's result is taken for a source register. -/
def hit (raddr : RegAddr) (f : FowardSrc) : Bool := raddr == f.regWaddr && f.regWen

/-- `MuxCase` over the three stages, for one operand. -/
def srcOut (ren : Bool) (raddr : RegAddr) (data : Word) (ex me wb : FowardSrc) : Word :=
  if ren then
    if raddr = 0 then 0
    else if hit raddr ex then ex.wdata
    else if hit raddr me then me.wdata
    else if hit raddr wb then wb.wdata
    else data
  else data

end FowardCtrl

/-- The inputs of `DecodeUnit` beside the fetched slot. -/
structure DecodeIn where
  regfile : ARegFile
  executeUnitInfo : Info
  executeUnitRdInfo : RdInfo
  memoryUnitInfo : Info
  memoryUnitRdInfo : RdInfo
  writeBackUnitInfo : WriteBackUnitInfo
  writeBackUnitRdInfo : RdInfo
  mode : Priv
  interruptInfo : ExtInterrupt

namespace DecodeUnit

def info (d : IfIdData) : Info := { Decoder.info d.inst with valid := d.valid }

/-- The operands before forwarding. -/
def src1Data (regs : ARegFile) (pc : Word) (info : Info) : Word :=
  if info.src1Ren then regs.read info.src1Raddr else if info.isLui then 0 else pc

def src2Data (regs : ARegFile) (info : Info) : Word :=
  if info.src2Ren then regs.read info.src2Raddr else info.imm

/-- The operands that `FowardCtrl` hands to the execute stage. -/
def srcInfo (d : IfIdData) (i : DecodeIn) : SrcInfo :=
  let info := info d
  let ex : FowardSrc := ⟨i.executeUnitInfo.regWen, i.executeUnitInfo.regWaddr,
    i.executeUnitRdInfo.wdata⟩
  let me : FowardSrc := ⟨i.memoryUnitInfo.regWen, i.memoryUnitInfo.regWaddr,
    i.memoryUnitRdInfo.wdata⟩
  let wb : FowardSrc := ⟨i.writeBackUnitInfo.regWen, i.writeBackUnitInfo.regWaddr,
    i.writeBackUnitRdInfo.wdata⟩
  { src1Data := FowardCtrl.srcOut info.src1Ren info.src1Raddr
      (src1Data i.regfile d.pc info) ex me wb
    src2Data := FowardCtrl.srcOut info.src2Ren info.src2Raddr
      (src2Data i.regfile info) ex me wb }

def executeStage (d : IfIdData) (i : DecodeIn) : IdExeData :=
  { pc := d.pc
    info := info d
    srcInfo := srcInfo d i
    ex := ExcCtrl.excInfo d.pc (info d) (Decoder.instIllegal d.inst) i.mode i.interruptInfo }

end DecodeUnit

end PuaCpu
