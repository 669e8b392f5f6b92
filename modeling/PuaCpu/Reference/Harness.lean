import PuaCpu.Reference.Core

/-! # The reference model in the test harness

`riscv_test_run` puts a memory of 128 MiB behind the upper half of the 32-bit
addresses, lets the core start at its beginning and steps it with all lines low.
-/

namespace PuaCpu.RvCore

open RvPriv

namespace Test

/-- The number of bytes of `cemu_mem` and `rtl_mem`. -/
def memBytes : Word := 128 * 1024 * 1024

/-- The range that both memories are mapped to. -/
def base : Word := 0x80000000
def length : Word := 0x80000000

/-- A memory with the content of the test image. -/
def memory (image : Bytes.Memory 64) : MmioMem := ⟨image, memBytes, false⟩

/-- A test image that repeats one word. -/
def filled (word : BitVec 32) : Bytes.Memory 64 := fun a =>
  (word >>> (8 * (a.toNat % 4))).setWidth 8

/-- A test image that starts with some words, and goes on with `nop`. -/
def program (words : List (BitVec 32)) : Bytes.Memory 64 := fun a =>
  (words.getD (a.toNat / 4) 0x00000013 >>> (8 * (a.toNat % 4))).setWidth 8

/-- `cemu_system_bus`, over an uninitialised reservation. -/
def bus (image : Bytes.Memory 64) (b : Systembus MmioMem) : Systembus MmioMem :=
  ({ b with devices := [], dev := fun _ => memory image, lrValid := false }.addDev
    base length 0 false).1

/-- `cemu_rvcore` before its first step, over uninitialised members. -/
def core (cfg : Config) (image : Bytes.Memory 64) (s : State MmioMem) : State MmioMem :=
  ({ s with priv := { s.priv with hartId := 0, bus := bus image s.priv.bus } }.new cfg).jump base

end Test

end PuaCpu.RvCore
