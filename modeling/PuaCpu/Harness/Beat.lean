import PuaCpu.Core.Sram
import PuaCpu.Harness.Lanes

/-! # One memory behind both ports

A beat of the slave serves the instruction port and then the data port. Over the
memory of the test harness it is one access to a memory of doublewords, whatever
the strobe: the ranges of `strb_to_range` are the selected lanes.
-/

namespace PuaCpu

section Strobe

theorem strbToRange_le (wen : BitVec 8) : ∀ r ∈ strbToRange wen, r.1 + r.2 ≤ 8 := by
  revert wen
  decide +kernel

theorem mem_strbToRange (wen : BitVec 8) (j : ℕ) :
    (∃ r ∈ strbToRange wen, r.1 ≤ j ∧ j < r.1 + r.2) ↔ wen.getLsbD j = true := by
  have h : ∀ (wen : BitVec 8) (j : Fin 8),
      (∃ r ∈ strbToRange wen, r.1 ≤ j.val ∧ j.val < r.1 + r.2) ↔ wen.getLsbD j.val = true := by
    decide +kernel
  by_cases hj : j < 8
  · exact h wen ⟨j, hj⟩
  · rw [BitVec.getLsbD_of_ge _ _ (Nat.le_of_not_lt hj)]
    constructor
    · rintro ⟨r, hr, -, hlt⟩
      have := strbToRange_le wen r hr
      omega
    · exact fun h => absurd h (by decide)

theorem foldl_strbToRange (mem : Bytes.Memory 64) (base : Word) (wen : BitVec 8) (data : Word) :
    (strbToRange wen).foldl (Bytes.storeRange base data) mem =
      Bytes.storeLanes mem base wen data := by
  funext b
  rw [Bytes.foldl_storeRange, Bytes.storeLanes]
  · exact if_congr (mem_strbToRange wen _) rfl rfl
  · intro r hr
    exact (strbToRange_le wen r hr).trans (by decide)

end Strobe

/-- Where the memory keeps the doubleword around an address of a port. -/
def lanes (a : SramAddr) : Word := place (a.setWidth 64 - (a.setWidth 64 &&& 7))

/-- Whether the memory of the harness holds the byte at an address of a port. -/
def PortInMemory (a : SramAddr) : Prop := InMemory (a.setWidth 64) 1

instance (a : SramAddr) : Decidable (PortInMemory a) :=
  inferInstanceAs (Decidable (InMemory _ _))

section Address

variable {a : SramAddr}

theorem toNat_port (a : SramAddr) : (a.setWidth 64 : Word).toNat = a.toNat := by
  rw [BitVec.toNat_setWidth_of_le (by decide)]

theorem toNat_lanes (h : PortInMemory a) :
    (lanes a).toNat = a.toNat - a.toNat % 8 - 0x80000000 := by
  have ha := aligned_inMemory h
  rw [lanes, toNat_place ha, toNat_align, toNat_port]

theorem toNat_index (a : SramAddr) : (DataSram.index a).toNat = a.toNat / 8 := by
  rw [DataSram.index, Bits.toNat_extract]
  have := a.isLt
  omega

theorem lanes_congr {b : SramAddr} (ha : PortInMemory a) (hb : PortInMemory b)
    (h : DataSram.index a = DataSram.index b) : lanes a = lanes b := by
  have hi := congrArg BitVec.toNat h
  rw [toNat_index, toNat_index] at hi
  apply BitVec.eq_of_toNat_eq
  rw [toNat_lanes ha, toNat_lanes hb]
  omega

end Address

/-- The doublewords are those of the byte memory, where the harness has memory. -/
def Holds (m : Dmem) (mem : Bytes.Memory 64) : Prop :=
  ∀ a, PortInMemory a → m (DataSram.index a) = Bytes.load mem (lanes a) 8

/-- The doublewords of a byte memory. -/
def dmemOf (mem : Bytes.Memory 64) : Dmem := fun i => Bytes.load mem (lanes (i ++ 0#3)) 8

section Holds

variable {m : Dmem} {mem : Bytes.Memory 64} {a : SramAddr}

theorem holds_dmemOf (mem : Bytes.Memory 64) : Holds (dmemOf mem) mem := by
  intro a ha
  have hn : (DataSram.index a ++ 0#3).toNat = a.toNat - a.toNat % 8 := by
    rw [BitVec.toNat_append, toNat_index, ← Nat.shiftLeft_add_eq_or_of_lt (by decide),
      Nat.shiftLeft_eq]
    change a.toNat / 8 * 8 + 0 = _
    omega
  have hp : PortInMemory (DataSram.index a ++ 0#3) := by
    obtain ⟨h1, h2⟩ := ha
    rw [toNat_port] at h1 h2
    refine ⟨?_, ?_⟩ <;> rw [toNat_port, hn] <;> omega
  have hi : DataSram.index (DataSram.index a ++ 0#3) = DataSram.index a := by
    apply BitVec.eq_of_toNat_eq
    rw [toNat_index, toNat_index, hn]
    omega
  rw [dmemOf, lanes_congr hp ha hi]

theorem getLsbD_byteMask (wen : BitVec 8) {i : ℕ} (hi : i < 64) :
    (DataSram.byteMask wen).getLsbD i = wen.getLsbD (i / 8) := by
  have h : ∀ (wen : BitVec 8) (i : Fin 64),
      (DataSram.byteMask wen).getLsbD i.val = wen.getLsbD (i.val / 8) := by decide +kernel
  exact h wen ⟨i, hi⟩

theorem Holds.write (h : Holds m mem) {p : DataSram} (he : p.en = true)
    (ha : PortInMemory p.addr) :
    Holds (p.write m) (Bytes.storeLanes mem (lanes p.addr) p.wen p.wdata) := by
  intro b hb
  rw [DataSram.write, if_pos he]
  by_cases hi : DataSram.index b = DataSram.index p.addr
  · rw [hi, Function.update_self, lanes_congr hb ha hi]
    apply BitVec.eq_of_getLsbD_eq
    intro i hi
    rw [Bits.getLsbD_merge, Bytes.getLsbD_load_storeLanes _ _ _ _ (by decide) hi,
      getLsbD_byteMask _ hi, h _ ha]
  · rw [Function.update_of_ne hi, h b hb, Bytes.load_storeLanes_of_disjoint]
    intro j hj
    have hne : b.toNat / 8 ≠ p.addr.toNat / 8 := by
      rw [← toNat_index, ← toNat_index]
      exact fun he => hi (BitVec.eq_of_toNat_eq he)
    obtain ⟨hb1, hb2⟩ := hb
    obtain ⟨ha1, ha2⟩ := ha
    rw [BitVec.toNat_sub, BitVec.toNat_add, toNat_lanes ⟨hb1, hb2⟩, toNat_lanes ⟨ha1, ha2⟩,
      BitVec.toNat_ofNat]
    rw [toNat_port] at hb1 hb2 ha1 ha2
    omega

theorem Holds.instWord (h : Holds m mem) (ha : PortInMemory a) (h4 : a.toNat % 4 = 0) :
    Core.instWord m a = (Bytes.load mem (place (a.setWidth 64)) 4).setWidth 32 := by
  have h2 : a.getLsbD 2 = decide (a.toNat / 4 % 2 = 1) := by
    rw [BitVec.getLsbD, Nat.testBit_eq_decide_div_mod_eq]
  have hl := toNat_lanes ha
  have hp : (place (a.setWidth 64)).toNat = a.toNat - 0x80000000 := by
    rw [toNat_place ha, toNat_port]
  obtain ⟨ha1, ha2⟩ := ha
  rw [toNat_port] at ha1 ha2
  rw [Core.instWord, h a ⟨by rw [toNat_port]; exact ha1, by rw [toNat_port]; exact ha2⟩]
  apply BitVec.eq_of_getLsbD_eq
  intro i hi
  rw [BitVec.getLsbD_extractLsb', BitVec.getLsbD_setWidth, decide_eq_true hi, Bool.true_and,
    Bool.true_and, Bytes.getLsbD_load _ _ (by split_ifs <;> omega),
    Bytes.getLsbD_load _ _ (by omega), decide_eq_true (by split_ifs <;> omega),
    decide_eq_true (by omega)]
  -- the same byte of the memory
  have hb : lanes a + BitVec.ofNat 64 (((if a.getLsbD 2 = true then 32 else 0) + i) / 8) =
      place (a.setWidth 64) + BitVec.ofNat 64 (i / 8) := by
    apply BitVec.eq_of_toNat_eq
    rw [BitVec.toNat_add, BitVec.toNat_add, hl, hp, BitVec.toNat_ofNat, BitVec.toNat_ofNat, h2]
    split_ifs with hx <;> simp only [decide_eq_true_eq] at hx <;> omega
  rw [hb]
  split_ifs
  · rw [Nat.add_mod, Nat.zero_add, Nat.mod_mod]
  · rw [Nat.zero_add]

end Holds

namespace SramXbar

variable {x : SramXbar MmioMem} {mem : Bytes.Memory 64} {a : SramAddr}

theorem mask_port (h : x.Maps mem) (a : SramAddr) : a &&& x.addressMask = a := by
  rw [h.addressMask, BitVec.and_allOnes]

theorem Maps.doRead_word (h : x.Maps mem) (ha : PortInMemory a) (h4 : a.toNat % 4 = 0)
    (buffer : Word) : x.doRead (a.setWidth 64) 4 buffer =
      (x, Bits.set buffer 0 ((Bytes.load mem (place (a.setWidth 64)) 4).extractLsb' 0 32)) := by
  have he := ha.toNat_add
  have hl : x.locate (a.setWidth 64) (a.setWidth 64 + 1) = _ :=
    h.locate ha.1 (he.trans_le (ha.2.trans (by decide)))
  have hz : a.setWidth 64 - (a.setWidth 64 &&& (4 - 1)) = (a.setWidth 64 : Word) := by
    have hm : ((a.setWidth 64 : Word) &&& 3).toNat = (a.setWidth 64 : Word).toNat % 4 :=
      Nat.and_two_pow_sub_one_eq_mod _ 2
    apply BitVec.eq_of_toNat_eq
    change ((a.setWidth 64 : Word) - (a.setWidth 64 &&& 3)).toNat = _
    rw [BitVec.toNat_sub, hm, toNat_port]
    have := a.isLt
    omega
  have hz4 : (a.setWidth 64 : Word) % 4 = 0 := by
    apply BitVec.eq_of_toNat_eq
    rw [BitVec.toNat_umod, toNat_port]
    exact h4
  have hin : InMemory (a.setWidth 64) 4 := by
    obtain ⟨h1, h2⟩ := ha
    refine ⟨h1, ?_⟩
    rw [toNat_port] at h2 ⊢
    omega
  have hm : MmioDev.doRead (x.dev 0) ((a.setWidth 64 : Word) % (0x100000000 - 0x80000000)) 4 =
      (x.dev 0, some (Bytes.load mem (place (a.setWidth 64)) 4)) := by
    rw [h.dev]
    exact doRead_memory mem hin
  rw [SramXbar.doRead, hl]
  simp only [Bool.false_eq_true, if_false, hz, hm, Function.update_eq_self, hz4]
  rfl

theorem Maps.writeRange (h : x.Maps mem) (ha : PortInMemory a) (data : Word) {r : ℕ × ℕ}
    (hr : r.1 + r.2 ≤ 8) : ∃ x', SramXbar.writeRange a (x, data) r = (x', data) ∧
      x'.Maps (Bytes.storeRange (lanes a) data mem r) := by
  have hs : ((a &&& 0xfffffff8) + BitVec.ofNat 32 r.1).toNat = a.toNat - a.toNat % 8 + r.1 := by
    have := ha.2
    rw [toNat_port] at this
    rw [BitVec.toNat_add, and_lanes, BitVec.toNat_ofNat]
    omega
  have hin : InMemory (((a &&& 0xfffffff8) + BitVec.ofNat 32 r.1).setWidth 64) r.2 := by
    obtain ⟨h1, h2⟩ := ha
    rw [toNat_port] at h1 h2
    rw [InMemory, toNat_port, hs]
    omega
  have hp : place (((a &&& 0xfffffff8) + BitVec.ofNat 32 r.1).setWidth 64) =
      lanes a + BitVec.ofNat 64 r.1 := by
    apply BitVec.eq_of_toNat_eq
    have := ha.1
    rw [toNat_port] at this
    rw [toNat_place hin, toNat_port, hs, BitVec.toNat_add, toNat_lanes ha, BitVec.toNat_ofNat]
    omega
  obtain ⟨x', hx, hx'⟩ := h.doWrite hin (data >>> (8 * r.1))
  refine ⟨x', ?_, ?_⟩
  · rw [SramXbar.writeRange, hx]
    rfl
  · rwa [hp] at hx'

theorem Maps.foldl_writeRange (h : x.Maps mem) (ha : PortInMemory a) (data : Word)
    {ranges : List (ℕ × ℕ)} (hr : ∀ r ∈ ranges, r.1 + r.2 ≤ 8) :
    ∃ x', ranges.foldl (SramXbar.writeRange a) (x, data) = (x', data) ∧
      x'.Maps (ranges.foldl (Bytes.storeRange (lanes a) data) mem) := by
  induction ranges generalizing x mem with
  | nil => exact ⟨x, rfl, h⟩
  | cons r ranges ih =>
    obtain ⟨x', hx, hx'⟩ := h.writeRange ha data (hr r List.mem_cons_self)
    rw [List.foldl_cons, List.foldl_cons, hx]
    exact ih hx' fun r hr' => hr r (List.mem_cons_of_mem _ hr')

/-- An access of the data port stores the selected lanes and then reads the doubleword. -/
theorem Maps.dataChannel (h : x.Maps mem) {p : DataSram} (he : p.en = true)
    (ha : PortInMemory p.addr) (rdata : Word) :
    ∃ x', x.dataChannel p rdata =
        (x', Bytes.load (Bytes.storeLanes mem (lanes p.addr) p.wen p.wdata) (lanes p.addr) 8) ∧
      x'.Maps (Bytes.storeLanes mem (lanes p.addr) p.wen p.wdata) := by
  obtain ⟨x', hx, hx'⟩ := h.foldl_writeRange ha p.wdata (strbToRange_le p.wen)
  rw [foldl_strbToRange] at hx'
  refine ⟨x', ?_, hx'⟩
  rw [SramXbar.dataChannel, if_pos he]
  simp only [mask_port h, ne_eq]
  split_ifs with hw
  · have hz : strbToRange p.wen = [] := by
      rw [hw]
      rfl
    rw [hz] at hx
    obtain rfl := congrArg Prod.fst hx
    exact hx'.doRead ha rdata
  · rw [hx]
    exact hx'.doRead ha rdata

theorem Maps.instChannel (h : x.Maps mem) {p : InstSram} (he : p.en = true)
    (ha : PortInMemory p.addr) (h4 : p.addr.toNat % 4 = 0) (rdata : BitVec 32) :
    x.instChannel p rdata =
      (x, (Bytes.load mem (place (p.addr.setWidth 64)) 4).setWidth 32) := by
  rw [SramXbar.instChannel, if_pos he, mask_port h, h.doRead_word ha h4]
  refine congrArg (Prod.mk x) ?_
  apply BitVec.eq_of_getLsbD_eq
  intro i hi
  rw [BitVec.getLsbD_setWidth, Bits.getLsbD_set _ _ _ (by omega), if_pos ⟨Nat.zero_le _, by omega⟩,
    Nat.sub_zero, Bits.extract_eq_setWidth, decide_eq_true hi, Bool.true_and]

end SramXbar

/-- What the two ports ask for in a cycle. -/
abbrev Pins := InstSram × DataSram

/-- What the slave drives on them. -/
abbrev Rdata := BitVec 32 × Word

/-- `beat`. -/
def SramXbar.beat {δ : Type*} [MmioDev δ] (x : SramXbar δ) (pin : Pins) (rdata : Rdata) :
    SramXbar δ × Rdata :=
  let (x, inst) := x.instChannel pin.1 rdata.1
  let (x, data) := x.dataChannel pin.2 rdata.2
  (x, inst, data)

/-- The slave over the cycles, with what it drives after each of them. -/
def SramXbar.beats {δ : Type*} [MmioDev δ] : SramXbar δ → Rdata → List Pins → List Rdata
  | _, _, [] => []
  | x, rdata, pin :: pins =>
    let (x, rdata) := x.beat pin rdata
    rdata :: x.beats rdata pins

namespace Dmem

/-- A cycle of one memory of doublewords behind both ports. The instruction is read before the
data are written. -/
def beat (m : Dmem) (pin : Pins) (rdata : Rdata) : Dmem × Rdata :=
  (pin.2.write m, if pin.1.en then Core.instWord m pin.1.addr else rdata.1,
    if pin.2.en then pin.2.write m (DataSram.index pin.2.addr) else rdata.2)

def beats : Dmem → Rdata → List Pins → List Rdata
  | _, _, [] => []
  | m, rdata, pin :: pins =>
    let (m, rdata) := beat m pin rdata
    rdata :: beats m rdata pins

end Dmem

/-- Accesses that lie in the memory of the harness. -/
structure Pins.Ok (pin : Pins) : Prop where
  inst : pin.1.en = true → PortInMemory pin.1.addr ∧ pin.1.addr.toNat % 4 = 0
  data : pin.2.en = true → PortInMemory pin.2.addr

section Beat

variable {x : SramXbar MmioMem} {m : Dmem} {mem : Bytes.Memory 64} {pin : Pins}

theorem beat_inst (h : x.Maps mem) (hm : Holds m mem) {p : InstSram}
    (hp : p.en = true → PortInMemory p.addr ∧ p.addr.toNat % 4 = 0) (rdata : BitVec 32) :
    x.instChannel p rdata = (x, if p.en then Core.instWord m p.addr else rdata) := by
  cases he : p.en with
  | false => simp [SramXbar.instChannel, he]
  | true =>
    obtain ⟨ha, h4⟩ := hp he
    rw [if_pos rfl, hm.instWord ha h4, h.instChannel he ha h4]

theorem beat_data (h : x.Maps mem) (hm : Holds m mem) {p : DataSram}
    (hp : p.en = true → PortInMemory p.addr) (rdata : Word) :
    ∃ x' mem', x.dataChannel p rdata =
        (x', if p.en then p.write m (DataSram.index p.addr) else rdata) ∧
      x'.Maps mem' ∧ Holds (p.write m) mem' := by
  cases he : p.en with
  | false => exact ⟨x, mem, by simp [SramXbar.dataChannel, he], h, by simpa [DataSram.write, he]⟩
  | true =>
    obtain ⟨x', hx, hx'⟩ := h.dataChannel he (hp he) rdata
    have hw := hm.write he (hp he)
    refine ⟨x', _, ?_, hx', hw⟩
    rw [hx, if_pos rfl, hw _ (hp he)]

/-- A beat keeps the two memories equal and drives the same words. -/
theorem beat_step (h : x.Maps mem) (hm : Holds m mem) (hp : pin.Ok) (rdata : Rdata) :
    ∃ x' mem', x.beat pin rdata = (x', (m.beat pin rdata).2) ∧ x'.Maps mem' ∧
      Holds (m.beat pin rdata).1 mem' := by
  obtain ⟨x', mem', hx, hx', hm'⟩ := beat_data h hm hp.data rdata.2
  refine ⟨x', mem', ?_, hx', hm'⟩
  rw [SramXbar.beat, beat_inst h hm hp.inst]
  simp only [hx]
  rfl

theorem beats_run (h : x.Maps mem) (hm : Holds m mem) {pins : List Pins}
    (hp : ∀ pin ∈ pins, pin.Ok) (rdata : Rdata) : x.beats rdata pins = m.beats rdata pins := by
  induction pins generalizing x m mem rdata with
  | nil => rfl
  | cons pin pins ih =>
    obtain ⟨x', mem', hx, hx', hm'⟩ := beat_step h hm (hp pin List.mem_cons_self) rdata
    have hi := ih hx' hm' (fun p h => hp p (List.mem_cons_of_mem _ h)) (m.beat pin rdata).2
    rw [SramXbar.beats, Dmem.beats, hx]
    exact congrArg _ hi

end Beat

/-- **The slave over the memory of the harness is a byte-strobed memory**: over any sequence of
cycles with aligned fetches, whatever the strobes, it drives the words of one memory of
doublewords. -/
theorem beats_refine (image : Bytes.Memory 64) (rdata : Rdata) (pins : List Pins)
    (hp : ∀ pin ∈ pins, pin.Ok) :
    (SramXbar.ofImage image).beats rdata pins = (dmemOf image).beats rdata pins :=
  beats_run (SramXbar.maps_ofImage image) (holds_dmemOf image) hp rdata

/-- A store of two runs of lanes with the fetch of one of its words, then a fetch of both. -/
def testPins : List Pins :=
  [(⟨true, 0x80000008, 0, 0⟩, ⟨true, 0x80000008, 0x1122334455667788, 0b11000110⟩),
    (⟨true, 0x8000000c, 0, 0⟩, ⟨true, 0x80000009, 0, 0⟩)]

theorem beats_refine_strobe :
    (SramXbar.ofImage fun _ => 0).beats (0, 0) testPins =
      (dmemOf fun _ => 0).beats (0, 0) testPins := by
  refine beats_refine (fun _ => 0) (0, 0) testPins fun pin hp => ?_
  simp only [testPins, List.mem_cons, List.not_mem_nil, or_false] at hp
  rcases hp with rfl | rfl
  · exact ⟨fun _ => by decide, fun _ => by decide⟩
  · exact ⟨fun _ => by decide, fun _ => by decide⟩

example : (dmemOf fun _ => 0).beats (0, 0) testPins =
    [(0, 0x1122000000667700), (0x11220000, 0x1122000000667700)] := by decide +kernel

end PuaCpu
