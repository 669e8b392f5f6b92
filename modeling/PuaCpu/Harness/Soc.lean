import PuaCpu.Harness.Beat

/-! # The core on the memory of the harness

`riscv_test_run` samples the two ports before each rising edge, lets the core
take the edge and then drives the words of the beat. During the first cycle the
ports are still those under reset, and no interrupt line is connected.
-/

namespace PuaCpu

open PuaCpu.Core

/-- The core and the slave, with what the slave drives. -/
structure Soc where
  core : Core.State
  input : In
  xbar : SramXbar MmioMem

namespace Soc

/-- `update_input`: the ports as the harness samples them. -/
def pins (h : Soc) (reset : Bool) : Pins :=
  (FetchUnit.instSram h.core.fetch (flush h.core h.input) (target h.core h.input)
    (fetchUnitCtrl h.core h.input) reset, Fu.dataSram h.core.exe reset)

/-- A rising edge with the beat and `update_output`. -/
def step (h : Soc) (reset : Bool) : Soc :=
  let (x, rdata) := h.xbar.beat (h.pins reset) (h.input.instRdata, h.input.dataRdata)
  ⟨Core.step h.core h.input, { instRdata := rdata.1, dataRdata := rdata.2 }, x⟩

/-- The run of a test image. -/
def run (image : Bytes.Memory 64) : ℕ → Soc
  | 0 => ⟨Core.init, {}, .ofImage image⟩
  | t + 1 => (run image t).step (t == 0)

/-- What the core sees. -/
def stimulus (image : Bytes.Memory 64) (t : ℕ) : In := (run image t).input

variable {image : Bytes.Memory 64} {mem : Bytes.Memory 64} {t : ℕ}

theorem run_core (t : ℕ) : machine.run (stimulus image) t = (run image t).core := by
  induction t with
  | zero => rfl
  | succ t ih =>
    rw [Clocked.run_succ, ih]
    rfl

theorem pins_of_pos (ht : 1 ≤ t) : (run image t).pins (t == 0) =
    (instSram (machine.run (stimulus image) t) (stimulus image t),
      dataSram (machine.run (stimulus image) t)) := by
  have hz : (t == 0) = false := beq_eq_false_iff_ne.mpr (by omega)
  rw [hz, run_core]
  rfl

end Soc

namespace SramXbar

variable {x : SramXbar MmioMem} {mem : Bytes.Memory 64} {m : Dmem} {p : DataSram}

/-- A read changes nothing, wherever it goes. -/
theorem Maps.doRead_fst (h : x.Maps mem) (a size buffer : Word) :
    (x.doRead a size buffer).1.Maps mem := by
  have hu (y : MmioMem) (hy : y = x.dev 0) :
      ({ x with dev := Function.update x.dev 0 y } : SramXbar MmioMem).Maps mem := by
    rw [hy, Function.update_eq_self]
    exact h
  rw [SramXbar.doRead, locate_singleton h.devices (by decide)]
  split_ifs
  · exact hu _ rfl
  · exact h

/-- A beat of the data port writes the selected lanes, if there are any, and serves the accesses in
the memory. -/
theorem Maps.dataChannel_beat (h : x.Maps mem) (hm : Holds m mem)
    (hp : p.isWrite = true → PortInMemory p.addr) (rdata : Word) :
    ∃ mem', (x.dataChannel p rdata).1.Maps mem' ∧ Holds (p.write m) mem' ∧
      (p.en = true → PortInMemory p.addr →
        (x.dataChannel p rdata).2 = p.write m (DataSram.index p.addr)) := by
  by_cases hin : p.en = true ∧ PortInMemory p.addr
  · obtain ⟨x', mem', hx, hx', hm'⟩ := beat_data h hm (fun _ => hin.2) rdata
    refine ⟨mem', ?_, hm', fun he _ => ?_⟩
    · rw [hx]
      exact hx'
    · rw [hx]
      exact if_pos he
  · have hw : p.isWrite = false := by
      by_contra hn
      rw [Bool.not_eq_false] at hn
      have he : p.en = true := (Bool.and_eq_true_iff.mp hn).1
      exact hin ⟨he, hp hn⟩
    refine ⟨mem, ?_, ?_, fun he ha => absurd ⟨he, ha⟩ hin⟩
    · rw [SramXbar.dataChannel]
      split_ifs with he hz
      · exact absurd (by simpa [DataSram.isWrite, he] using hw) hz
      · exact h.doRead_fst _ _ _
      · exact h
    · rw [DataSram.write_of_not_isWrite hw]
      exact hm

/-- A beat whose data port may read outside of the memory. -/
theorem Maps.beat (h : x.Maps mem) (hm : Holds m mem) (pin : Pins)
    (hi : pin.1.en = true → PortInMemory pin.1.addr ∧ pin.1.addr.toNat % 4 = 0)
    (hw : pin.2.isWrite = true → PortInMemory pin.2.addr) (rdata : Rdata) :
    (∃ mem', (x.beat pin rdata).1.Maps mem' ∧ Holds (pin.2.write m) mem') ∧
      (pin.1.en = true → (x.beat pin rdata).2.1 = instWord m pin.1.addr) ∧
      (pin.2.en = true → PortInMemory pin.2.addr →
        (x.beat pin rdata).2.2 = pin.2.write m (DataSram.index pin.2.addr)) := by
  obtain ⟨mem', hx, hm', hd⟩ := h.dataChannel_beat hm hw rdata.2
  have hb : x.beat pin rdata = ((x.dataChannel pin.2 rdata.2).1,
      if pin.1.en then instWord m pin.1.addr else rdata.1, (x.dataChannel pin.2 rdata.2).2) := by
    rw [SramXbar.beat, beat_inst h hm hi]
  rw [hb]
  exact ⟨⟨mem', hx, hm'⟩, fun he => if_pos he, hd⟩

end SramXbar

theorem toNat_mod_four_of_en {s : Core.State} {i : In} (h : (instSram s i).en = true) :
    (instSram s i).addr.toNat % 4 = 0 := by
  have ha : FetchUnit.isAlign (FetchUnit.pcNext s.fetch (flush s i) (target s i)
      (fetchUnitCtrl s i)) = true := by
    have he : (!false && FetchUnit.isAlign (FetchUnit.pcNext s.fetch (flush s i) (target s i)
      (fetchUnitCtrl s i))) = true := h
    simpa using he
  have hn : ((FetchUnit.pcNext s.fetch (flush s i) (target s i)
      (fetchUnitCtrl s i)).extractLsb' 0 2).toNat = 0 := by
    rw [eq_of_beq ha]
    rfl
  change ((FetchUnit.pcNext s.fetch (flush s i) (target s i)
    (fetchUnitCtrl s i)).extractLsb' 0 32).toNat % 4 = 0
  rw [Bits.toNat_extract] at hn ⊢
  omega

namespace Soc

variable (image : Bytes.Memory 64) (t : ℕ)

/-- The two ports in a cycle, and the data memory of the core. -/
def fetchPort : InstSram := instSram (machine.run (stimulus image) t) (stimulus image t)

def dataPort : DataSram := dataSram (machine.run (stimulus image) t)

def dmem : Dmem := memory (dmemOf image) (stimulus image) t

/-- The memory behind the slave is the data memory of the core. -/
def Holding (mem : Bytes.Memory 64) : Prop := (run image t).xbar.Maps mem ∧ Holds (dmem image t) mem

/-- The fetch of a cycle asks for a word of the memory that is still the one of the image. -/
def Coded : Prop := (fetchPort image t).en = true → PortInMemory (fetchPort image t).addr ∧
  instWord (dmem image t) (fetchPort image t).addr =
    instWord (dmemOf image) (fetchPort image t).addr

instance : Decidable (Coded image t) := inferInstanceAs (Decidable (_ → _))

variable {image t} {mem : Bytes.Memory 64}

theorem holding_one (image : Bytes.Memory 64) : Holding image 1 image := by
  have hw : (dataPort image 0).isWrite = false := rfl
  have hm : dmem image 1 = dmemOf image := DataSram.write_of_not_isWrite hw _
  refine ⟨SramXbar.maps_ofImage image, ?_⟩
  rw [hm]
  exact holds_dmemOf image

theorem beat_of_pos (ht : 1 ≤ t) (h : Holding image t mem) (hc : Coded image t)
    (hw : (dataPort image t).isWrite = true → PortInMemory (dataPort image t).addr) :
    (∃ mem', Holding image (t + 1) mem') ∧
      ((fetchPort image t).en = true → (stimulus image (t + 1)).instRdata =
        instWord (dmemOf image) (fetchPort image t).addr) ∧
      ((dataPort image t).en = true → PortInMemory (dataPort image t).addr →
        (stimulus image (t + 1)).dataRdata =
          dmem image (t + 1) (DataSram.index (dataPort image t).addr)) := by
  have hp : (run image t).pins (t == 0) = (fetchPort image t, dataPort image t) := pins_of_pos ht
  obtain ⟨⟨mem', hx, hm⟩, hi, hd⟩ := h.1.beat h.2 (fetchPort image t, dataPort image t)
    (fun he => ⟨(hc he).1, toNat_mod_four_of_en he⟩) hw
    ((stimulus image t).instRdata, (stimulus image t).dataRdata)
  have hs : run image (t + 1) = ⟨Core.step (run image t).core (run image t).input,
      { instRdata := _, dataRdata := _ }, _⟩ := congrArg (fun pin => Soc.mk _
        { instRdata := ((run image t).xbar.beat pin _).2.1
          dataRdata := ((run image t).xbar.beat pin _).2.2 } ((run image t).xbar.beat pin _).1) hp
  refine ⟨⟨mem', ?_, hm⟩, fun he => ?_, fun he ha => ?_⟩
  · rw [hs]
    exact hx
  · rw [← (hc he).2, stimulus, hs]
    exact hi he
  · rw [stimulus, hs]
    exact hd he ha

end Soc

end PuaCpu
