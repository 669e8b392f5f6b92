import PuaCpu.Reference.Reservation
import PuaCpu.Reference.Routing

/-! # The memory behind the bus

Memories behind ranges of the bus are one memory of bytes. With the reservation
it is a specification of the bus: over any calls of any harts the bus answers as
this memory does, and refuses what does not lie in a range.
-/

namespace PuaCpu

/-- What `LR` reserves. -/
structure Reservation where
  pa : Word
  size : Word
  hartId : Word
  deriving DecidableEq

/-- A memory with a reservation. -/
structure FlatMem where
  mem : Bytes.Memory 64
  reserved : Option Reservation

namespace Systembus

def Call.pa : Call → Word
  | read pa _ | write pa _ _ | lr pa _ _ | sc pa _ _ _ | amo pa _ _ _ => pa

/-- Whether an access lies in a range. -/
def Mapped (l : List Mapping) (a n : Word) : Prop := ∃ m ∈ l, m.Holds a n

instance (m : Mapping) (a n : Word) : Decidable (m.Holds a n) :=
  inferInstanceAs (Decidable (_ ∧ _))

instance (l : List Mapping) (a n : Word) : Decidable (Mapped l a n) :=
  inferInstanceAs (Decidable (∃ m ∈ l, m.Holds a n))

/-- A call with the data that it returns, and nothing if it returns `false`. The result of `SC` is
`sc_fail`. -/
def answer {δ : Type} [MmioDev δ] (b : Systembus δ) :
    Call → Outcome (Systembus δ × Option Word)
  | .read pa size => .ok (b.paRead pa size)
  | .write pa size buffer =>
    .ok ((b.paWrite pa size buffer).1, if (b.paWrite pa size buffer).2 then some 0 else none)
  | .lr pa size hartId => .ok (b.paLr pa size hartId)
  | .sc pa size src hartId =>
    .ok ((b.paSc pa size src hartId).1,
      (b.paSc pa size src hartId).2.map fun scFail => if scFail then 1 else 0)
  | .amo pa size op src => b.paAmoOp pa size op src

/-- The answers to calls, as long as no assertion fails. -/
def answers {δ : Type} [MmioDev δ] (b : Systembus δ) : List Call → Outcome (List (Option Word))
  | [] => .ok []
  | c :: cs => do
    let (b, r) ← b.answer c
    return r :: (← b.answers cs)

end Systembus

namespace FlatMem

open Systembus

variable (l : List Mapping) (f : FlatMem)

def read (pa size : Word) : Option Word :=
  if Mapped l pa size then some (Bytes.load f.mem pa size.toNat) else none

/-- A write, also a refused one, gives up the reservation that it is found to cover. -/
def write (pa size buffer : Word) : FlatMem where
  mem := if Mapped l pa size then Bytes.store f.mem pa size.toNat buffer else f.mem
  reserved := f.reserved.filter fun r => ¬(pa ≤ r.pa ∧ r.pa + size ≤ pa + size)

/-- The answer to a write. -/
def written (pa size : Word) : Option Word := if Mapped l pa size then some 0 else none

def answer : Call → Outcome (FlatMem × Option Word)
  | .read pa size => .ok (f, f.read l pa size)
  | .write pa size buffer => .ok (f.write l pa size buffer, written l pa size)
  | .lr pa size hartId =>
    .ok ({ f with reserved := some ⟨pa, size, hartId⟩ }, f.read l pa size)
  | .sc pa size src hartId =>
    if f.reserved = some ⟨pa, size, hartId⟩ then
      .ok ({ f with reserved := none }.write l pa size src, written l pa size)
    else .ok ({ f with reserved := f.reserved.filter fun r => r.hartId ≠ hartId }, some 1)
  | .amo pa size op src =>
    match f.read l pa size with
    | none => .ok (f, none)
    | some buffer =>
      let res := if size = 4 then (buffer.setWidth 32).signExtend 64 else buffer
      match amoResult op src res with
      | none => .error (.abort .paAmoOp)
      | some toWrite => .ok (f.write l pa size toWrite, some res)

def answers (f : FlatMem) : List Call → Outcome (List (Option Word))
  | [] => .ok []
  | c :: cs => do
    let (f, r) ← f.answer l c
    return r :: (← f.answers cs)

end FlatMem

namespace Systembus

variable {l : List Mapping} {b b' : Systembus MmioMem} {f f' : FlatMem} {m m' : Mapping}
  {a n : Word}

/-- A table of ranges with a memory of its own behind each. -/
structure Spread (l : List Mapping) : Prop where
  ascending : Ranges.Ascending Mapping.key l
  sound : ∀ m ∈ l, m.Sound
  apart : l.Pairwise (Ranges.Apart Mapping.start Mapping.stop)
  rawAddr : ∀ m ∈ l, m.rawAddr = false
  dev : ∀ m ∈ l, ∀ m' ∈ l, m.dev = m'.dev → m = m'

/-- The bus has the memory and the reservation of the specification. -/
structure Flattens (l : List Mapping) (b : Systembus MmioMem) (f : FlatMem) : Prop where
  devices : b.devices = l
  memSize : ∀ m ∈ l, (b.dev m.dev).memSize = m.hi - m.lo
  mem : ∀ m ∈ l, ∀ x : Word, m.start ≤ x.toNat → x.toNat < m.stop →
    f.mem x = (b.dev m.dev).mem (x - m.lo)
  reserved : f.reserved = if b.lrValid then some ⟨b.lrPa, b.lrSize, b.lrHart⟩ else none

section Access

theorem toNat_add_of_holds (hm : m.Sound) (hh : m.Holds a n) {i : ℕ} (hi : i < n.toNat) :
    (a + BitVec.ofNat 64 i).toNat = a.toNat + i := by
  have hle := hm.le
  have hlt := hh.2
  have hn := n.isLt
  rw [BitVec.toNat_add, BitVec.toNat_ofNat]
  omega

theorem place_of_holds (hh : m.Holds a n) {d : MmioMem} (hd : d.memSize = m.hi - m.lo) :
    d.place (a - m.lo) n = some (a - m.lo) := by
  have hsub : (a - m.lo).toNat = a.toNat - m.lo.toNat := BitVec.toNat_sub_of_le hh.1
  obtain ⟨hlo, hhi⟩ := hh
  have hsize := (m.hi - m.lo).isLt
  have hfit : a - m.lo + n ≤ d.memSize := by
    rw [hd, BitVec.le_def, BitVec.toNat_add, hsub]
    unfold Mapping.stop Mapping.start at hhi
    unfold Mapping.start at hlo
    omega
  rw [MmioMem.place, if_pos hfit]

theorem not_lt_of_apart (hm : m.stop ≤ 2 ^ 64) (hd : Ranges.Apart Mapping.start Mapping.stop m m')
    (hh : m.Holds a n) {x : Word} (h₁ : m'.start ≤ x.toNat) (h₂ : x.toNat < m'.stop) :
    ¬ (x - a).toNat < n.toNat := by
  obtain ⟨hlo, hhi⟩ := hh
  have hx : ¬ (m.start ≤ x.toNat ∧ x.toNat < m.stop) := fun hx =>
    Set.disjoint_left.mp hd hx ⟨h₁, h₂⟩
  have hxl := x.isLt
  have hal := a.isLt
  rw [BitVec.toNat_sub]
  omega

variable (hl : Spread l) (h : Flattens l b f)
include hl h

theorem Flattens.locate (hm : m ∈ l) (hh : m.Holds a n) (hn : 0 < n.toNat) :
    b.locate a n = some m ∧ m.offset a = a - m.lo := by
  have ht := hl
  rw [← h.devices] at hm ht
  have hlt := hh.2
  refine ⟨locate_of_holds ht.ascending ht.sound ht.apart hn hm hh, ?_⟩
  rw [(ht.sound m hm).offset_eq hh.1 (by omega), Mapping.place, ht.rawAddr m hm]
  rfl

omit hl in
theorem Flattens.load (hs : m.Sound) (hm : m ∈ l) (hh : m.Holds a n) :
    Bytes.load (b.dev m.dev).mem (a - m.lo) n.toNat = Bytes.load f.mem a n.toNat := by
  refine Bytes.load_congr fun i hi => ?_
  have hlt := hh.2
  have hx := toNat_add_of_holds hs hh hi
  have hlo := hh.1
  rw [h.mem m hm _ (by omega) (by omega), sub_add_eq_add_sub]

theorem Flattens.not_locate (hw : ¬ Wrapped l a n) (hh : ¬ Mapped l a n) :
    b.locate a n = none := by
  have ht := hl
  rw [← h.devices] at ht hw hh
  exact Systembus.not_locate ht.ascending ht.sound hw fun m hm hm' => hh ⟨m, hm, hm'⟩

theorem Flattens.paRead (hn : 0 < n.toNat) (hw : ¬ Wrapped l a n) :
    b.paRead a n = (b, f.read l a n) := by
  by_cases hh : Mapped l a n
  · rw [FlatMem.read, if_pos hh]
    obtain ⟨m, hm, hh⟩ := hh
    obtain ⟨hloc, hoff⟩ := h.locate hl hm hh hn
    rw [(access_of_locate hloc).1, hoff, readDev]
    have hr : MmioDev.doRead (b.dev m.dev) (a - m.lo) n =
        (b.dev m.dev, some (Bytes.load f.mem a n.toNat)) := by
      change MmioMem.doRead _ _ _ = _
      rw [MmioMem.doRead, place_of_holds hh (h.memSize m hm), ← h.load (hl.sound m hm) hm hh]
      rfl
    rw [hr, Function.update_eq_self]
  · rw [FlatMem.read, if_neg hh]
    exact (access_of_not_locate (h.not_locate hl hw hh)).1

omit hl in
theorem Flattens.breakLr (a n : Word) : Flattens l (b.breakLr a n)
    { f with reserved := f.reserved.filter fun r => ¬(a ≤ r.pa ∧ r.pa + n ≤ a + n) } := by
  unfold Systembus.breakLr
  split_ifs with hc
  · refine ⟨h.devices, h.memSize, h.mem, ?_⟩
    cases hv : b.lrValid <;> simp [h.reserved, hv, hc]
  · refine ⟨h.devices, h.memSize, h.mem, ?_⟩
    cases hv : b.lrValid
    · simp [h.reserved, hv]
    · simp only [h.reserved, hv, if_true, Option.filter_some, hc, not_false_eq_true, decide_true]

/-- A write changes the bytes of its range, and no byte of another range. -/
theorem Flattens.writeDev (hm : m ∈ l) (hh : m.Holds a n) (buffer : Word) :
    (b.writeDev m (a - m.lo) n buffer).2 = true ∧
      Flattens l (b.writeDev m (a - m.lo) n buffer).1
        { f with mem := Bytes.store f.mem a n.toNat buffer } := by
  have hw : MmioDev.doWrite (b.dev m.dev) (a - m.lo) n buffer =
      ({ b.dev m.dev with
        mem := Bytes.store (b.dev m.dev).mem (a - m.lo) n.toNat buffer }, true) := by
    change MmioMem.doWrite _ _ _ _ = _
    rw [MmioMem.doWrite, place_of_holds hh (h.memSize m hm)]
  rw [Systembus.writeDev, hw]
  refine ⟨rfl, h.devices, fun m' hm' => ?_, fun m' hm' x h₁ h₂ => ?_, h.reserved⟩
  · by_cases hd : m'.dev = m.dev
    · obtain rfl := hl.dev m' hm' m hm hd
      simpa using h.memSize m' hm'
    · simpa [hd] using h.memSize m' hm'
  · by_cases hd : m'.dev = m.dev
    · obtain rfl := hl.dev m' hm' m hm hd
      simp only [Function.update_self, Bytes.store, sub_sub_sub_cancel_right]
      rw [h.mem m' hm' x h₁ h₂]
    · have hne : m ≠ m' := fun he => hd (he ▸ rfl)
      have hdis := hl.apart.forall hm hm' hne
      have hout : ¬ (x - a).toNat < n.toNat := not_lt_of_apart (hl.sound m hm).le hdis hh h₁ h₂
      simp only [Function.update_of_ne hd, Bytes.store, if_neg hout]
      exact h.mem m' hm' x h₁ h₂

theorem Flattens.paWrite (hn : 0 < n.toNat) (hw : ¬ Wrapped l a n) (buffer : Word) :
    (b.paWrite a n buffer).2 = decide (Mapped l a n) ∧
      Flattens l (b.paWrite a n buffer).1 (f.write l a n buffer) := by
  have hb := h.breakLr a n
  by_cases hh : Mapped l a n
  · rw [FlatMem.write, if_pos hh, decide_eq_true hh]
    obtain ⟨m, hm, hh⟩ := hh
    obtain ⟨hloc, hoff⟩ := h.locate hl hm hh hn
    rw [(access_of_locate hloc).2, hoff]
    exact hb.writeDev hl hm hh buffer
  · rw [FlatMem.write, if_neg hh, decide_eq_false hh,
      (access_of_not_locate (h.not_locate hl hw hh)).2]
    exact ⟨rfl, hb⟩

end Access

section Calls

/-- The same answer, and again the memory and the reservation of the specification. -/
inductive Agrees (l : List Mapping) :
    Outcome (Systembus MmioMem × Option Word) → Outcome (FlatMem × Option Word) → Prop
  | ok {b : Systembus MmioMem} {f : FlatMem} (h : Flattens l b f) (r : Option Word) :
    Agrees l (.ok (b, r)) (.ok (f, r))
  | error (e : Halt) : Agrees l (.error e) (.error e)

theorem ite_written {ok : Bool} (h : ok = decide (Mapped l a n)) :
    (if ok then some (0 : Word) else none) = FlatMem.written l a n := by
  rw [h, FlatMem.written]
  simp

theorem Flattens.reserved_iff (h : Flattens l b f) (a n hartId : Word) :
    f.reserved = some ⟨a, n, hartId⟩ ↔
      (!b.lrValid || b.lrPa != a || b.lrSize != n || b.lrHart != hartId) = false := by
  rw [h.reserved]
  cases b.lrValid <;> simp [and_assoc]

variable (hl : Spread l) (h : Flattens l b f)
include hl h

theorem Flattens.answer_sc (hn : 0 < n.toNat) (hw : ¬ Wrapped l a n) (src hartId : Word) :
    Agrees l (b.answer (.sc a n src hartId)) (f.answer l (.sc a n src hartId)) := by
  change Agrees l (.ok ((b.paSc a n src hartId).1, _)) (if _ then _ else _)
  have hiff := h.reserved_iff a n hartId
  by_cases hr : f.reserved = some ⟨a, n, hartId⟩
  · have hb : Flattens l { b with lrValid := false } { f with reserved := none } :=
      ⟨h.devices, h.memSize, h.mem, rfl⟩
    obtain ⟨hok, hb⟩ := hb.paWrite hl hn hw src
    rw [if_pos hr, Systembus.paSc, if_neg (by rw [hiff.mp hr]; decide)]
    have hres : (Option.map (fun scFail : Bool => if scFail then (1 : Word) else 0)
        (if (Systembus.paWrite { b with lrValid := false } a n src).2 then some false
          else none)) = FlatMem.written l a n := by
      rw [← ite_written hok]
      split_ifs <;> rfl
    simp only [hres]
    exact .ok hb _
  · rw [if_neg hr, Systembus.paSc, if_pos (by
      by_contra hc
      exact hr (hiff.mpr (Bool.eq_false_of_not_eq_true hc)))]
    refine .ok ?_ _
    by_cases he : hartId = b.lrHart
    · rw [if_pos he]
      refine ⟨h.devices, h.memSize, h.mem, ?_⟩
      simp only [h.reserved]
      cases b.lrValid <;> simp [he]
    · rw [if_neg he]
      refine ⟨h.devices, h.memSize, h.mem, ?_⟩
      simp only [h.reserved]
      cases b.lrValid
      · simp
      · simp [Ne.symm he]

theorem Flattens.answer_amo (hn : 0 < n.toNat) (hw : ¬ Wrapped l a n) (op : BitVec 5)
    (src : Word) : Agrees l (b.answer (.amo a n op src)) (f.answer l (.amo a n op src)) := by
  change Agrees l (b.paAmoOp a n op src) _
  rw [FlatMem.answer, Systembus.paAmoOp, h.paRead hl hn hw]
  by_cases hm : Mapped l a n
  · rw [FlatMem.read, if_pos hm]
    simp only
    generalize (if n = 4 then _ else _ : Word) = res
    cases amoResult op src res with
    | none => exact .error _
    | some toWrite =>
      obtain ⟨hok, hb⟩ := h.paWrite hl hn hw toWrite
      rw [decide_eq_true hm] at hok
      simp only [hok, if_true]
      exact .ok hb _
  · rw [FlatMem.read, if_neg hm]
    exact .ok h _

theorem Flattens.answer {c : Call} (hn : 0 < c.size.toNat) (hw : ¬ Wrapped l c.pa c.size) :
    Agrees l (b.answer c) (f.answer l c) := by
  cases c with
  | read pa size =>
    change Agrees l (.ok (b.paRead pa size)) _
    rw [h.paRead (a := pa) (n := size) hl hn hw]
    exact .ok h _
  | write pa size buffer =>
    obtain ⟨hr, hb⟩ := h.paWrite (a := pa) (n := size) hl hn hw buffer
    change Agrees l (.ok (_, if (b.paWrite pa size buffer).2 then some 0 else none)) _
    rw [ite_written hr]
    exact .ok hb _
  | lr pa size hartId =>
    have hb : Flattens l { b with lrPa := pa, lrSize := size, lrValid := true, lrHart := hartId }
        { f with reserved := some ⟨pa, size, hartId⟩ } := ⟨h.devices, h.memSize, h.mem, rfl⟩
    change Agrees l (.ok (Systembus.paRead _ pa size)) _
    rw [hb.paRead (a := pa) (n := size) hl hn hw]
    exact .ok hb _
  | sc pa size src hartId => exact h.answer_sc hl hn hw src hartId
  | amo pa size op src => exact h.answer_amo hl hn hw op src

theorem Flattens.answers {cs : List Call}
    (hc : ∀ c ∈ cs, 0 < c.size.toNat ∧ ¬ Wrapped l c.pa c.size) :
    b.answers cs = f.answers l cs := by
  induction cs generalizing b f with
  | nil => rfl
  | cons c cs ih =>
    obtain ⟨hn, hw⟩ := hc c List.mem_cons_self
    have ha := h.answer hl hn hw
    rw [Systembus.answers, FlatMem.answers]
    generalize b.answer c = r at ha ⊢
    generalize f.answer l c = r' at ha ⊢
    cases ha with
    | error e => rfl
    | @ok b' f' h' r =>
      change (b'.answers cs).bind (fun rs => .ok (r :: rs)) =
        (f'.answers l cs).bind fun rs => .ok (r :: rs)
      rw [ih h' fun c hc' => hc c (List.mem_cons_of_mem _ hc')]

end Calls

section Table

/-- Memories that `add_dev` gets, each of the size of its range. -/
structure Memories (calls : List AddCall) (b : Systembus MmioMem) : Prop where
  devices : b.devices = []
  fits : ∀ c ∈ calls, c.Fits
  below : ∀ c ∈ calls, ¬ c.Topmost
  rawAddr : ∀ c ∈ calls, c.rawAddr = false
  dev : ∀ c ∈ calls, ∀ c' ∈ calls, c.dev = c'.dev → c = c'
  memSize : ∀ c ∈ calls, (b.dev c.dev).memSize = c.length

/-- The memory and the reservation of a bus. -/
def flatten (b : Systembus MmioMem) : FlatMem where
  mem x :=
    match b.devices.find? fun m => m.start ≤ x.toNat && x.toNat < m.stop with
    | some m => (b.dev m.dev).mem (x - m.lo)
    | none => 0
  reserved := if b.lrValid then some ⟨b.lrPa, b.lrSize, b.lrHart⟩ else none

variable {calls : List AddCall}

theorem dev_addAll (b : Systembus MmioMem) (calls : List AddCall) :
    (b.addAll calls).dev = b.dev := by
  induction calls generalizing b with
  | nil => rfl
  | cons c calls ih =>
    refine (ih (b.add c)).trans ?_
    rcases b.add_cases c with ⟨-, h⟩ | ⟨-, -, -, h⟩ <;> rw [h]

theorem Memories.spread (h : Memories calls b) : Spread (registered calls) := by
  have ht := table_registered calls
  refine ⟨ht.ascending, ht.sound h.fits h.below, pairwise_registered h.fits h.below, ?_, ?_⟩
  · intro m hm
    obtain ⟨c, hc, rfl, -⟩ := ht.call m hm
    exact h.rawAddr c hc
  · intro m hm m' hm' he
    obtain ⟨c, hc, rfl, -⟩ := ht.call m hm
    obtain ⟨c', hc', rfl, -⟩ := ht.call m' hm'
    rw [h.dev c hc c' hc' he]

/-- At most one range has a byte. -/
theorem Memories.flattens (h : Memories calls b) :
    Flattens (registered calls) (b.addAll calls) (flatten (b.addAll calls)) := by
  have hs := h.spread
  have hd := devices_addAll h.devices calls
  refine ⟨hd, fun m hm => ?_, fun m hm x h₁ h₂ => ?_, rfl⟩
  · obtain ⟨c, hc, rfl, -⟩ := (table_registered calls).call m hm
    rw [dev_addAll, AddCall.size_mapping]
    exact h.memSize c hc
  · have hfind : (b.addAll calls).devices.find?
        (fun m => m.start ≤ x.toNat && x.toNat < m.stop) = some m := by
      rw [hd]
      cases hf : (registered calls).find? fun m => m.start ≤ x.toNat && x.toNat < m.stop with
      | none =>
        have hn := List.find?_eq_none.mp hf m hm
        simp [h₁, h₂] at hn
      | some m' =>
        have hx := List.find?_some hf
        simp only [Bool.and_eq_true, decide_eq_true_eq] at hx
        by_contra hne
        have hne' : m' ≠ m := fun he => hne (congrArg some he)
        have hdis := hs.apart.forall (List.mem_of_find?_eq_some hf) hm hne'
        exact Set.disjoint_left.mp hdis hx ⟨h₁, h₂⟩
    change (match (b.addAll calls).devices.find? _ with
      | some m => ((b.addAll calls).dev m.dev).mem (x - m.lo)
      | none => 0) = _
    rw [hfind]

/-- **The bus is one memory**: over any calls of any harts it answers like a single memory of bytes
with one reservation, which refuses what does not lie in a range. -/
theorem answers_flat (h : Memories calls b) (cs : List Call)
    (hc : ∀ c ∈ cs, 0 < c.size.toNat ∧ ¬ Wrapped (registered calls) c.pa c.size) :
    (b.addAll calls).answers cs = (flatten (b.addAll calls)).answers (registered calls) cs :=
  h.flattens.answers h.spread hc

/-- A boot memory and a main memory. -/
def bootCalls : List AddCall := [⟨0x80000000, 0x8000, 0, false⟩, ⟨0x1000, 0x1000, 1, false⟩]

def bootBus : Systembus MmioMem :=
  ⟨[], fun k => ⟨fun _ => 0, if k = 0 then 0x8000 else 0x1000, false⟩, 0, 0, 0, false⟩

theorem memories_boot : Memories bootCalls bootBus where
  devices := rfl
  fits := by
    simp only [bootCalls, List.forall_mem_cons]
    exact ⟨⟨by decide, by decide⟩, ⟨by decide, by decide⟩, fun _ h => absurd h List.not_mem_nil⟩
  below := by
    simp only [bootCalls, List.forall_mem_cons]
    exact ⟨fun h => absurd h.stop (by decide), fun h => absurd h.stop (by decide),
      fun _ h => absurd h List.not_mem_nil⟩
  rawAddr := by simp [bootCalls]
  dev := by simp [bootCalls]
  memSize := by simp [bootCalls, bootBus]

/-- A store to each memory, an `AMOADD` behind an `LR`, the `SC`, and a read between the two. -/
def bootTrace : List Call :=
  [.write 0x1ff8 8 7, .lr 0x80000000 8 0, .amo 0x80000000 8 AmoFunct.add 5,
    .sc 0x80000000 8 9 0, .read 0x1ff8 8, .read 0x2000 8]

theorem answers_flat_boot : (bootBus.addAll bootCalls).answers bootTrace =
      (flatten (bootBus.addAll bootCalls)).answers (registered bootCalls) bootTrace ∧
    (bootBus.addAll bootCalls).answers bootTrace =
      .ok [some 0, some 0, some 0, some 1, some 7, none] := by
  refine ⟨answers_flat memories_boot bootTrace fun c hc => ?_, by rfl⟩
  simp only [bootTrace, List.mem_cons, List.not_mem_nil, or_false] at hc
  rcases hc with rfl | rfl | rfl | rfl | rfl | rfl <;>
    exact ⟨by decide, fun ⟨_, _, _, _, _, hw, _⟩ => absurd hw (by decide)⟩

end Table

end Systembus

end PuaCpu
