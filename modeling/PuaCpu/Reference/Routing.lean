import Mathlib.Data.Prod.Lex
import PuaCpu.Ranges.Table
import PuaCpu.Reference.Bus

/-! # The routing of bus accesses

The keys of the device map are the ranges, with ends modulo `2 ^ 64`. A range
that ends at the top of the address space has the end zero, so that nothing is
found to overlap it and few accesses fit into it. An access that reaches beyond
the top ends below the devices and fits into the last of them.
-/

namespace PuaCpu

namespace Mapping

/-- The key in the order of pairs. -/
def key (m : Mapping) : ℕ ×ₗ ℕ := toLex (m.lo.toNat, m.hi.toNat)

def start (m : Mapping) : ℕ := m.lo.toNat

/-- The end of the range as an integer. -/
def stop (m : Mapping) : ℕ := m.start + (m.hi - m.lo).toNat

/-- Whether an access lies in the range. -/
def Holds (m : Mapping) (a n : Word) : Prop :=
  m.start ≤ a.toNat ∧ a.toNat + n.toNat ≤ m.stop

/-- Where an access that lies in the range goes. -/
def place (m : Mapping) (a : Word) : Word := if m.rawAddr then a else a - m.lo

/-- What `add_dev` is given and checks. -/
structure Placed (m : Mapping) : Prop where
  nonempty : m.start < m.stop
  le : m.stop ≤ 2 ^ 64
  aligned : m.lo % (m.hi - m.lo) = 0

variable {m : Mapping} {a n : Word}

theorem start_le_of_key_le (m m' : Mapping) (h : m.key ≤ m'.key) : m.start ≤ m'.start := by
  rcases Prod.Lex.le_iff.mp h with h | ⟨h, -⟩
  · exact h.le
  · exact h.le

theorem notAfter_eq (key : Word × Word) : (fun m : Mapping => m.notAfter key) =
    fun m => decide (m.key ≤ toLex (key.1.toNat, key.2.toNat)) := by
  funext m
  rw [Bool.eq_iff_iff, decide_eq_true_eq, Prod.Lex.le_iff]
  simp [notAfter, Mapping.key, BitVec.ult, BitVec.ule, ← BitVec.toNat_inj]

theorem key_le_iff : m.key ≤ toLex (a.toNat, (BitVec.allOnes 64).toNat) ↔ m.start ≤ a.toNat := by
  have hh : m.hi.toNat ≤ (BitVec.allOnes 64).toNat := by
    rw [BitVec.toNat_allOnes]
    exact Nat.le_sub_one_of_lt m.hi.isLt
  rw [Prod.Lex.le_iff]
  change m.lo.toNat < a.toNat ∨ m.lo.toNat = a.toNat ∧ _ ↔ m.lo.toNat ≤ a.toNat
  exact (or_congr_right (and_iff_left hh)).trans le_iff_lt_or_eq.symm

theorem key_inj {m' : Mapping} : m.key = m'.key ↔ m.lo = m'.lo ∧ m.hi = m'.hi := by
  rw [← BitVec.toNat_inj, ← BitVec.toNat_inj, ← Prod.mk_inj]
  exact toLex_inj

theorem hi_toNat : m.hi.toNat = m.stop % 2 ^ 64 := by
  have h₁ := m.hi.isLt
  have h₂ := m.lo.isLt
  rw [stop, start, BitVec.toNat_sub]
  omega

theorem Placed.offset_eq (h : m.Placed) (h₁ : m.start ≤ a.toNat) (h₂ : a.toNat < m.stop) :
    m.offset a = m.place a := by
  have ha : m.start % (m.hi - m.lo).toNat = 0 := congrArg BitVec.toNat h.aligned
  have hd : (a - m.lo).toNat = a.toNat - m.start := BitVec.toNat_sub_of_le h₁
  have hlt : a.toNat - m.start < (m.hi - m.lo).toNat := by
    unfold stop at h₂
    omega
  have hmod : a % (m.hi - m.lo) = a - m.lo := by
    refine BitVec.eq_of_toNat_eq ?_
    calc a.toNat % (m.hi - m.lo).toNat
        = (m.start + (a.toNat - m.start)) % (m.hi - m.lo).toNat := by rw [Nat.add_sub_cancel' h₁]
      _ = (a.toNat - m.start) % (m.hi - m.lo).toNat := by
        rw [Nat.add_mod, ha, zero_add, Nat.mod_mod]
      _ = (a - m.lo).toNat := by rw [Nat.mod_eq_of_lt hlt, hd]
  rw [offset, place, hmod]

/-- A range that ends at the top of the address space only if it has one address. -/
structure Sound (m : Mapping) : Prop extends Placed m where
  top : m.stop = 2 ^ 64 → m.start + 1 = 2 ^ 64

/-- The overlap check sees what two ranges of different keys share. -/
theorem Sound.apart {m' : Mapping} (h : m.Sound) (h' : m'.Sound) (hk : m.key ≠ m'.key)
    (ho : m.overlaps m'.lo m'.hi = false) : Ranges.Apart start stop m m' := by
  have hs := m.hi_toNat
  have hs' := m'.hi_toNat
  rcases h.le.lt_or_eq with hlt | heq
  · rcases h'.le.lt_or_eq with hlt' | heq'
    · rw [Nat.mod_eq_of_lt hlt] at hs
      rw [Nat.mod_eq_of_lt hlt'] at hs'
      rw [Ranges.Apart, Set.Ico_disjoint_Ico, ← hs, ← hs', start, start]
      unfold overlaps at ho
      simp only [BitVec.ult, decide_eq_true_eq, decide_eq_false_iff_not, not_lt] at ho
      split_ifs at ho <;> omega
    · have hle := h'.top heq'
      exact Ranges.apart_of_le (by omega)
  · have hle := h.top heq
    rcases h'.le.lt_or_eq with hlt' | heq'
    · exact (Ranges.apart_of_le (by omega)).symm
    · have hle' := h'.top heq'
      rw [heq] at hs
      rw [heq'] at hs'
      have hlo : m.lo.toNat = m'.lo.toNat := Nat.succ_injective (hle.trans hle'.symm)
      exact absurd (key_inj.mpr ⟨BitVec.eq_of_toNat_eq hlo,
        BitVec.eq_of_toNat_eq (hs.trans hs'.symm)⟩) hk

end Mapping

namespace Systembus

/-- A call of `add_dev`. -/
structure AddCall where
  startAddr : Word
  length : Word
  dev : ℕ
  rawAddr : Bool

namespace AddCall

/-- The entry that a call asks for. -/
def mapping (c : AddCall) : Mapping := ⟨c.startAddr, c.startAddr + c.length, c.dev, c.rawAddr⟩

/-- A range of the address space. -/
structure Fits (c : AddCall) : Prop where
  nonempty : 0 < c.length.toNat
  le : c.startAddr.toNat + c.length.toNat ≤ 2 ^ 64

/-- A range of several addresses up to the top of the address space. -/
structure Topmost (c : AddCall) : Prop where
  aligned : c.startAddr % c.length = 0
  stop : c.startAddr.toNat + c.length.toNat = 2 ^ 64
  long : c.length ≠ 1

variable {c : AddCall}

theorem size_mapping : c.mapping.hi - c.mapping.lo = c.length := by
  change c.startAddr + c.length - c.startAddr = c.length
  rw [BitVec.add_comm, BitVec.add_sub_cancel]

theorem stop_mapping : c.mapping.stop = c.startAddr.toNat + c.length.toNat := by
  rw [Mapping.stop, size_mapping]
  rfl

theorem Fits.placed (h : c.Fits) (ha : c.startAddr % c.length = 0) : c.mapping.Placed where
  nonempty := by
    rw [stop_mapping]
    exact Nat.lt_add_of_pos_right h.nonempty
  le := by
    rw [stop_mapping]
    exact h.le
  aligned := by
    rw [size_mapping]
    exact ha

theorem Fits.sound (h : c.Fits) (hn : ¬ c.Topmost) (ha : c.startAddr % c.length = 0) :
    c.mapping.Sound where
  toPlaced := h.placed ha
  top := fun hs => by
    rw [stop_mapping] at hs
    have h1 : c.length = 1 := by_contra fun hl => hn ⟨ha, hs, hl⟩
    rw [h1] at hs
    exact hs

end AddCall

variable {δ : Type} {b : Systembus δ} {c : AddCall} {calls : List AddCall} {m : Mapping}
  {a n : Word}

section Table

open Ranges (Ascending Apart)

/-- `add_dev` on the arguments of a call. -/
def add (b : Systembus δ) (c : AddCall) : Systembus δ :=
  (b.addDev c.startAddr c.length c.dev c.rawAddr).1

def addAll (b : Systembus δ) (calls : List AddCall) : Systembus δ := calls.foldl add b

/-- The devices after some calls on a new bus. -/
def registered (calls : List AddCall) : List Mapping :=
  ((default : Systembus Unit).addAll calls).devices

theorem prev_eq : b.prev (a, BitVec.allOnes 64) =
    Ranges.floor Mapping.key (toLex (a.toNat, (BitVec.allOnes 64).toNat)) b.devices := by
  rw [prev, Mapping.notAfter_eq]
  rfl

theorem add_cases (b : Systembus δ) (c : AddCall) :
    (c.startAddr % c.length ≠ 0 ∨ ∃ m : Mapping, m.overlaps c.mapping.lo c.mapping.hi = true) ∧
      b.add c = b ∨
    c.startAddr % c.length = 0 ∧
    (∀ m, Ranges.next Mapping.key c.mapping.key b.devices = some m →
      m.overlaps c.mapping.lo c.mapping.hi = false) ∧
    (∀ m, Ranges.floor Mapping.key c.mapping.key b.devices = some m →
      m.overlaps c.mapping.lo c.mapping.hi = false) ∧
    b.add c = { b with devices := Ranges.put Mapping.key c.mapping b.devices } := by
  unfold add addDev
  simp only [Mapping.notAfter_eq]
  split_ifs with h₁ h₂ h₃
  · exact .inl ⟨.inl h₁, rfl⟩
  · obtain ⟨m, -, hm⟩ := (Option.any_eq_true _ _).mp h₂
    exact .inl ⟨.inr ⟨m, hm⟩, rfl⟩
  · obtain ⟨m, -, hm⟩ := (Option.any_eq_true _ _).mp h₃
    exact .inl ⟨.inr ⟨m, hm⟩, rfl⟩
  · refine .inr ⟨not_not.mp h₁, fun m hm => ?_, fun m hm => ?_, ?_⟩
    · have hm' : Option.any _ (Ranges.next Mapping.key c.mapping.key b.devices) ≠ true := h₂
      rw [hm] at hm'
      exact Bool.eq_false_iff.mpr hm'
    · have hm' : Option.any _ (Ranges.floor Mapping.key c.mapping.key b.devices) ≠ true := h₃
      rw [hm] at hm'
      exact Bool.eq_false_iff.mpr hm'
    · have hf : (fun m : Mapping => decide ((m.lo, m.hi) ≠ (c.mapping.lo, c.mapping.hi))) =
          fun m => decide (m.key ≠ c.mapping.key) := by
        funext m
        rw [decide_eq_decide, Ne, Ne, Mapping.key_inj, Prod.mk_inj]
      rw [Ranges.put, ← hf]
      rfl

theorem addAll_induction {P : List Mapping → Prop} (calls : List AddCall) (hb : P b.devices)
    (hs : ∀ c ∈ calls, ∀ b : Systembus δ, P b.devices → P (b.add c).devices) :
    P (b.addAll calls).devices := by
  induction calls generalizing b with
  | nil => exact hb
  | cons c calls ih =>
    exact ih (hs c List.mem_cons_self b hb) fun c' hc => hs c' (List.mem_cons_of_mem c hc)

theorem devices_add {δ' : Type} {b' : Systembus δ'} (h : b.devices = b'.devices) (c : AddCall) :
    (b.add c).devices = (b'.add c).devices := by
  simp only [add, addDev, h]
  split_ifs
  · exact h
  · exact h
  · exact h
  · rfl

theorem devices_addAll (h : b.devices = []) (calls : List AddCall) :
    (b.addAll calls).devices = registered calls := by
  have hg {b : Systembus δ} {b' : Systembus Unit} (h : b.devices = b'.devices) :
      (b.addAll calls).devices = (b'.addAll calls).devices := by
    induction calls generalizing b b' with
    | nil => exact h
    | cons c calls ih => exact ih (devices_add h c)
  exact hg h

theorem registered_induction {P : List Mapping → Prop} (hb : P [])
    (hs : ∀ c ∈ calls, ∀ b : Systembus Unit, P b.devices → P (b.add c).devices) :
    P (registered calls) := addAll_induction calls hb hs

/-- The entries stay in order and come from calls. -/
structure Table (calls : List AddCall) (l : List Mapping) : Prop where
  ascending : Ascending Mapping.key l
  call : ∀ m ∈ l, ∃ c ∈ calls, m = c.mapping ∧ c.startAddr % c.length = 0

theorem ascending_add (h : Ascending Mapping.key b.devices) (c : AddCall) :
    Ascending Mapping.key (b.add c).devices := by
  rcases b.add_cases c with ⟨-, he⟩ | ⟨-, -, -, he⟩ <;> rw [he]
  · exact h
  · exact h.put

theorem exists_key_add (h : Ascending Mapping.key b.devices) (hk : ∃ m' ∈ b.devices, m'.key = m.key)
    (c : AddCall) : ∃ m' ∈ (b.add c).devices, m'.key = m.key := by
  rcases b.add_cases c with ⟨-, he⟩ | ⟨-, -, -, he⟩ <;> rw [he]
  · exact hk
  · obtain ⟨m', hm, hk⟩ := hk
    by_cases hc : m'.key = c.mapping.key
    · exact ⟨c.mapping, (Ranges.mem_put h).mpr (.inl rfl), hc.symm.trans hk⟩
    · exact ⟨m', (Ranges.mem_put h).mpr (.inr ⟨hm, hc⟩), hk⟩

theorem Table.add {b : Systembus δ} (ht : Table calls b.devices) (hc : c ∈ calls) :
    Table calls (b.add c).devices := by
  refine ⟨ascending_add ht.ascending c, fun m hm => ?_⟩
  rcases b.add_cases c with ⟨-, h⟩ | ⟨ha, -, -, h⟩ <;> rw [h] at hm
  · exact ht.call m hm
  · rcases (Ranges.mem_put ht.ascending).mp hm with rfl | ⟨hm, -⟩
    · exact ⟨c, hc, rfl, ha⟩
    · exact ht.call m hm

theorem table_registered (calls : List AddCall) : Table calls (registered calls) :=
  registered_induction ⟨.nil, fun _ hm => absurd hm List.not_mem_nil⟩ fun _ hc _ ht => ht.add hc

theorem Table.placed {l : List Mapping} (ht : Table calls l) (hf : ∀ c ∈ calls, c.Fits) :
    ∀ m ∈ l, m.Placed := by
  intro m hm
  obtain ⟨c, hc, rfl, ha⟩ := ht.call m hm
  exact (hf c hc).placed ha

theorem Table.sound {l : List Mapping} (ht : Table calls l) (hf : ∀ c ∈ calls, c.Fits)
    (hn : ∀ c ∈ calls, ¬ c.Topmost) : ∀ m ∈ l, m.Sound := by
  intro m hm
  obtain ⟨c, hc, rfl, ha⟩ := ht.call m hm
  exact (hf c hc).sound (hn c hc) ha

/-- The check of the two neighbours keeps the ranges apart. -/
theorem pairwise_add {b : Systembus δ} (hf : ∀ c ∈ calls, c.Fits) (hn : ∀ c ∈ calls, ¬ c.Topmost)
    (ht : Table calls b.devices) (hp : b.devices.Pairwise (Apart Mapping.start Mapping.stop))
    (hc : c ∈ calls) : (b.add c).devices.Pairwise (Apart Mapping.start Mapping.stop) := by
  rcases b.add_cases c with ⟨-, h⟩ | ⟨ha, hnx, hfl, h⟩ <;> rw [h]
  · exact hp
  have hx := (hf c hc).sound (hn c hc) ha
  have hs := ht.sound hf hn
  have hap {m : Mapping} (hm : m ∈ b.devices) (hne : m.key ≠ c.mapping.key) :
      Apart Mapping.start Mapping.stop m c.mapping := by
    refine Ranges.apart_of_neighbours Mapping.start_le_of_key_le ht.ascending
      (fun a ha => (hs a ha).nonempty) (fun a ha b hb => hp.forall ha hb) ?_ ?_ hm hne
    · intro a hfa hne
      exact (hs a (Ranges.floor_eq_some ht.ascending hfa).1).apart hx hne (hfl a hfa)
    · intro a hna
      obtain ⟨hma, hk, -⟩ := Ranges.next_eq_some ht.ascending hna
      exact (hs a hma).apart hx hk.ne' (hnx a hna)
  apply Ranges.pairwise_put ht.ascending hp
  · intro a ha hk
    exact hap ha hk.ne
  · intro a ha hk
    exact (hap ha hk.ne').symm

theorem pairwise_registered (hf : ∀ c ∈ calls, c.Fits) (hn : ∀ c ∈ calls, ¬ c.Topmost) :
    (registered calls).Pairwise (Apart Mapping.start Mapping.stop) := by
  have hP : Table calls (registered calls) ∧
      (registered calls).Pairwise (Apart Mapping.start Mapping.stop) := by
    apply registered_induction (P := fun l => Table calls l ∧ l.Pairwise (Apart _ _))
    · exact ⟨⟨.nil, fun _ hm => absurd hm List.not_mem_nil⟩, .nil⟩
    · rintro c hc b ⟨ht, hp⟩
      exact ⟨ht.add hc, pairwise_add hf hn ht hp hc⟩
  exact hP.2

end Table

section Route

variable [MmioDev δ]

/-- A read of the device behind an entry, at some offset. -/
def readDev (b : Systembus δ) (m : Mapping) (off n : Word) : Systembus δ × Option Word :=
  let r := MmioDev.doRead (b.dev m.dev) off n
  ({ b with dev := Function.update b.dev m.dev r.1 }, r.2)

/-- A write of the device behind an entry, at some offset. -/
def writeDev (b : Systembus δ) (m : Mapping) (off n buffer : Word) : Systembus δ × Bool :=
  let r := MmioDev.doWrite (b.dev m.dev) off n buffer
  ({ b with dev := Function.update b.dev m.dev r.1 }, r.2)

/-- The routing of an access by the ranges of the devices. -/
structure Routes (b : Systembus δ) (a n : Word) : Prop where
  call : ∀ m ∈ b.devices, m.Holds a n → b.paRead a n = b.readDev m (m.place a) n ∧
    ∀ buffer, b.paWrite a n buffer = (b.breakLr a n).writeDev m (m.place a) n buffer
  refuse : (∀ m ∈ b.devices, ¬ m.Holds a n) → b.paRead a n = (b, none) ∧
    ∀ buffer, b.paWrite a n buffer = (b.breakLr a n, false)

omit [MmioDev δ] in
theorem locate_breakLr (a' n' : Word) : (b.breakLr a' n').locate a n = b.locate a n := by
  unfold breakLr
  split_ifs <;> rfl

theorem access_of_locate (h : b.locate a n = some m) :
    b.paRead a n = b.readDev m (m.offset a) n ∧
      ∀ buffer, b.paWrite a n buffer = (b.breakLr a n).writeDev m (m.offset a) n buffer := by
  constructor
  · rw [paRead, h]
    rfl
  · intro buffer
    simp only [paWrite, locate_breakLr, h]
    rfl

theorem access_of_not_locate (h : b.locate a n = none) : b.paRead a n = (b, none) ∧
    ∀ buffer, b.paWrite a n buffer = (b.breakLr a n, false) := by
  constructor
  · rw [paRead, h]
  · intro buffer
    simp only [paWrite, locate_breakLr, h]

end Route

/-- An access beyond the top of the address space whose end, modulo `2 ^ 64`, is not beyond the last
device that starts up to it. -/
def Wrapped (l : List Mapping) (a n : Word) : Prop :=
  ∃ m ∈ l, m.start ≤ a.toNat ∧ (∀ m' ∈ l, m'.start ≤ a.toNat → m'.start ≤ m.start) ∧
    m.stop < 2 ^ 64 ∧ 2 ^ 64 ≤ a.toNat + n.toNat ∧ a.toNat + n.toNat - 2 ^ 64 ≤ m.stop

section Locate

open Ranges (Ascending Apart)

theorem locate_eq_some : b.locate a n = some m ↔
    Ranges.floor Mapping.key (toLex (a.toNat, (BitVec.allOnes 64).toNat)) b.devices = some m ∧
      m.start ≤ a.toNat ∧ (a.toNat + n.toNat) % 2 ^ 64 ≤ m.hi.toNat := by
  rw [locate, prev_eq, Option.filter_eq_some_iff, Bool.and_eq_true, decide_eq_true_eq,
    decide_eq_true_eq, BitVec.le_def, BitVec.le_def, BitVec.toNat_add]
  rfl

variable (ha : Ascending Mapping.key b.devices) (hs : ∀ m ∈ b.devices, m.Sound)
  (hp : b.devices.Pairwise (Apart Mapping.start Mapping.stop))
include ha hs hp

theorem floor_of_mem {x : Word} (hm : m ∈ b.devices) (h₁ : m.start ≤ x.toNat)
    (h₂ : x.toNat < m.stop) :
    Ranges.floor Mapping.key (toLex (x.toNat, (BitVec.allOnes 64).toNat)) b.devices = some m :=
  Ranges.eq_floor Mapping.start_le_of_key_le (fun _ => Mapping.key_le_iff) ha
    (fun m hm => (hs m hm).nonempty) (fun _ ha _ hb => hp.forall ha hb) hm ⟨h₁, h₂⟩

theorem locate_of_holds (hn : 0 < n.toNat) (hm : m ∈ b.devices) (hh : m.Holds a n) :
    b.locate a n = some m := by
  obtain ⟨h₁, h₂⟩ := hh
  refine locate_eq_some.mpr ⟨floor_of_mem ha hs hp hm h₁ (by omega), h₁, ?_⟩
  rw [m.hi_toNat]
  rcases (hs m hm).le.lt_or_eq with hlt | heq
  · rwa [Nat.mod_eq_of_lt hlt, Nat.mod_eq_of_lt (h₂.trans_lt hlt)]
  · have htop := (hs m hm).top heq
    have hsum : a.toNat + n.toNat = 2 ^ 64 := by omega
    rw [hsum, heq]

omit hp in
theorem not_locate (hw : ¬ Wrapped b.devices a n) (hh : ∀ m ∈ b.devices, ¬ m.Holds a n) :
    b.locate a n = none := by
  refine Option.eq_none_iff_forall_ne_some.mpr fun m h => ?_
  obtain ⟨hfl, h₁, h₂⟩ := locate_eq_some.mp h
  obtain ⟨hm, -, hmax⟩ := Ranges.floor_eq_some ha hfl
  have hlt := a.isLt
  have hnlt := n.isLt
  have hne : ¬ a.toNat + n.toNat ≤ m.stop := fun h => hh m hm ⟨h₁, h⟩
  rw [m.hi_toNat] at h₂
  rcases (hs m hm).le.lt_or_eq with hlt | heq
  · refine hw ⟨m, hm, h₁, fun m' hm' h' => ?_, hlt, by omega, by omega⟩
    exact Mapping.start_le_of_key_le m' m (hmax m' hm' (Mapping.key_le_iff.mpr h'))
  · omega

theorem locate_of_wrapped (hw : Wrapped b.devices a n) :
    (∃ m, b.locate a n = some m) ∧ ∀ m ∈ b.devices, ¬ m.Holds a n := by
  obtain ⟨m, hm, h₁, hmax, hlt, hw, hle⟩ := hw
  have hfl : Ranges.floor Mapping.key (toLex (a.toNat, (BitVec.allOnes 64).toNat)) b.devices =
      some m := by
    rcases hfl : Ranges.floor Mapping.key _ b.devices with _ | m'
    · exact absurd (Mapping.key_le_iff.mpr h₁) (Ranges.floor_eq_none ha hfl hm).not_ge
    obtain ⟨hm', hk, hmax'⟩ := Ranges.floor_eq_some ha hfl
    by_cases hmm : m = m'
    · rw [hmm]
    have hst := Mapping.start_le_of_key_le m m' (hmax' m hm (Mapping.key_le_iff.mpr h₁))
    have hle := (hp.forall hm hm' hmm).le (hs m' hm').nonempty hst
    have hst' := hmax m' hm' (Mapping.key_le_iff.mp hk)
    exact absurd (hs m hm).nonempty (hle.trans hst').not_gt
  have hlt' := a.isLt
  have hnlt := n.isLt
  refine ⟨⟨m, locate_eq_some.mpr ⟨hfl, h₁, ?_⟩⟩, fun m' hm' hh => ?_⟩
  · rw [m.hi_toNat, Nat.mod_eq_of_lt hlt]
    omega
  · have hn : m.stop < m'.stop := hlt.trans_le (hw.trans hh.2)
    have hfl' := floor_of_mem ha hs hp hm' hh.1 (by have := hh.2; omega)
    obtain rfl := Option.some_inj.mp (hfl.symm.trans hfl')
    exact lt_irrefl _ hn

end Locate

section Calls

open Ranges (Ascending Apart)

/-- What the bus does on an access when the calls are the first ones, whatever its devices do. -/
def Routed (calls : List AddCall) (a n : Word) : Prop :=
  ∀ (δ : Type) [MmioDev δ] (b : Systembus δ), b.devices = [] → (b.addAll calls).Routes a n

/-- A device that answers every access. -/
structure Answering
  deriving Inhabited

instance : MmioDev Answering := ⟨fun d _ _ => (d, some 0), fun d _ _ _ => (d, true)⟩

theorem paRead_answering {b : Systembus Answering} (h : b.locate a n = some m) :
    (b.paRead a n).2 = some 0 := by
  rw [(access_of_locate h).1]
  rfl

theorem routed_of_not_wrapped (hf : ∀ c ∈ calls, c.Fits) (hn : ∀ c ∈ calls, ¬ c.Topmost)
    (h0 : 0 < n.toNat) (hw : ¬ Wrapped (registered calls) a n) : Routed calls a n := by
  intro δ _ b hb
  have hd := devices_addAll hb calls
  have ht := table_registered calls
  have hs := ht.sound hf hn
  have hp := pairwise_registered hf hn
  rw [← hd] at ht hs hp hw
  refine ⟨fun m hm hh => ?_, fun hh => access_of_not_locate (not_locate ht.ascending hs hw hh)⟩
  have hl := access_of_locate (locate_of_holds ht.ascending hs hp h0 hm hh)
  rwa [(hs m hm).offset_eq hh.1 (by have := hh.2; omega)] at hl

theorem not_routed_of_wrapped (hf : ∀ c ∈ calls, c.Fits) (hn : ∀ c ∈ calls, ¬ c.Topmost)
    (hw : Wrapped (registered calls) a n) : ¬ Routed calls a n := by
  intro hr
  have hd : ((default : Systembus Answering).addAll calls).devices = registered calls :=
    devices_addAll rfl calls
  have ht := table_registered calls
  have hs := ht.sound hf hn
  have hp := pairwise_registered hf hn
  rw [← hd] at ht hs hp hw
  obtain ⟨⟨m, hl⟩, hh⟩ := locate_of_wrapped ht.ascending hs hp hw
  have h₁ := ((hr Answering default rfl).refuse hh).1
  exact absurd ((paRead_answering hl).symm.trans (congrArg Prod.snd h₁)) (Option.some_ne_none _)

/-- A range that ends at the top overlaps nothing, in the eyes of the source. -/
theorem overlaps_zero (m : Mapping) (lo : Word) : m.overlaps lo 0 = false := by
  have h : (if (0 : Word).ult m.hi then 0 else m.hi) = 0 := by
    split_ifs with h
    · rfl
    · exact BitVec.eq_of_toNat_eq (by simpa [BitVec.ult] using h)
  simp only [Mapping.overlaps, h]
  exact decide_eq_false (Nat.not_lt_zero _)

theorem AddCall.Topmost.next_lt (h : c.Topmost) (hf : c.Fits) : c.startAddr.toNat + 1 < 2 ^ 64 := by
  have h0 := hf.nonempty
  have h1 : c.length.toNat ≠ 1 := fun h1 => h.long (BitVec.eq_of_toNat_eq h1)
  have hs := h.stop
  omega

theorem AddCall.Topmost.hi (h : c.Topmost) : c.mapping.hi = 0 := by
  refine BitVec.eq_of_toNat_eq ?_
  change (c.startAddr + c.length).toNat = 0
  rw [BitVec.toNat_add, h.stop, Nat.mod_self]

theorem exists_topmost (hc : c ∈ calls) (h : c.Topmost) :
    ∃ m ∈ registered calls, m.key = c.mapping.key := by
  obtain ⟨pre, post, rfl⟩ := List.append_of_mem hc
  have ha := (table_registered pre).ascending
  have hadd : ∃ m ∈ (((default : Systembus Unit).addAll pre).add c).devices,
      m.key = c.mapping.key := by
    rcases ((default : Systembus Unit).addAll pre).add_cases c with
      ⟨hno | ⟨m, ho⟩, -⟩ | ⟨-, -, -, he⟩
    · exact absurd h.aligned hno
    · rw [h.hi, overlaps_zero] at ho
      exact absurd ho Bool.false_ne_true
    · rw [he]
      exact ⟨c.mapping, (Ranges.mem_put ha).mpr (.inl rfl), rfl⟩
  have hP := addAll_induction (P := fun l => Ascending _ l ∧ ∃ m ∈ l, m.key = c.mapping.key) post
    ⟨ascending_add ha c, hadd⟩
    fun c' _ b hb => ⟨ascending_add hb.1 c', exists_key_add hb.1 hb.2 c'⟩
  have hs : registered (pre ++ c :: post) =
      ((((default : Systembus Unit).addAll pre).add c).addAll post).devices := by
    rw [registered, addAll, List.foldl_append]
    rfl
  rw [hs]
  exact hP.2

/-- The entry of such a range, as long as the ranges are apart, does not serve its start. -/
theorem not_locate_topmost {b : Systembus δ} (ht : Table calls b.devices)
    (hs : ∀ m ∈ b.devices, m.Placed) (hp : b.devices.Pairwise (Apart Mapping.start Mapping.stop))
    (hm : m ∈ b.devices) (hstart : m.start = a.toNat) (hstop : m.stop = 2 ^ 64)
    (hnext : a.toNat + 1 < 2 ^ 64) : b.locate a 1 = none := by
  refine Option.eq_none_iff_forall_ne_some.mpr fun m' hl => ?_
  obtain ⟨hfl, h₁, h₂⟩ := locate_eq_some.mp hl
  obtain ⟨hm', -, hmax⟩ := Ranges.floor_eq_some ht.ascending hfl
  have hne : m ≠ m' := by
    rintro rfl
    have hend : a.toNat + 1 ≤ m.hi.toNat := (Nat.mod_eq_of_lt hnext).symm.trans_le h₂
    rw [m.hi_toNat, hstop, Nat.mod_self] at hend
    exact absurd hend (Nat.not_succ_le_zero _)
  have hst := Mapping.start_le_of_key_le m m' (hmax m hm (Mapping.key_le_iff.mpr hstart.le))
  have hle := (hp.forall hm hm' hne).le (hs m' hm').nonempty hst
  rw [hstop] at hle
  exact absurd (hle.trans h₁) a.isLt.not_ge

theorem not_routed_of_topmost (hf : ∀ c ∈ calls, c.Fits) (hc : c ∈ calls) (h : c.Topmost)
    (hp : (registered calls).Pairwise (Apart Mapping.start Mapping.stop)) :
    ¬ Wrapped (registered calls) c.startAddr 1 ∧ ¬ Routed calls c.startAddr 1 := by
  have hd : ((default : Systembus Answering).addAll calls).devices = registered calls :=
    devices_addAll rfl calls
  have ht := table_registered calls
  obtain ⟨m, hm, hk⟩ := exists_topmost hc h
  obtain ⟨hlo, hhi⟩ := Mapping.key_inj.mp hk
  have hstart : m.start = c.startAddr.toNat := congrArg BitVec.toNat hlo
  have hstop : m.stop = 2 ^ 64 := by
    rw [Mapping.stop, hstart, hlo, hhi, AddCall.size_mapping, h.stop]
  have hnext := h.next_lt (hf c hc)
  constructor
  · rintro ⟨-, -, -, -, -, hw, -⟩
    exact absurd hw hnext.not_ge
  · intro hr
    rw [← hd] at hm hp ht
    have hh : m.Holds c.startAddr 1 := ⟨hstart.le, hstop.symm ▸ hnext.le⟩
    have hsome := congrArg Prod.snd ((hr Answering default rfl).call m hm hh).1
    rw [(access_of_not_locate (not_locate_topmost ht (ht.placed hf) hp hm hstart hstop hnext)).1]
      at hsome
    exact absurd hsome.symm (Option.some_ne_none _)

/-- **When accesses are routed by the ranges of the devices**: unless a range of several addresses
ends at the top of the address space, and but for accesses that wrap into the last device. -/
theorem routed_iff (hf : ∀ c ∈ calls, c.Fits) :
    ((registered calls).Pairwise (Apart Mapping.start Mapping.stop) ∧
        ∀ a n : Word, n ∈ [(1 : Word), 2, 4, 8] →
          (Routed calls a n ↔ ¬ Wrapped (registered calls) a n)) ↔
      ∀ c ∈ calls, ¬ c.Topmost := by
  have hpos {n : Word} (hn : n ∈ [(1 : Word), 2, 4, 8]) : 0 < n.toNat := by
    simp only [List.mem_cons, List.not_mem_nil, or_false] at hn
    rcases hn with rfl | rfl | rfl | rfl <;> decide
  constructor
  · rintro ⟨hp, hr⟩ c hc h
    obtain ⟨hw, hn⟩ := not_routed_of_topmost hf hc h hp
    exact hn ((hr _ 1 (by decide)).mpr hw)
  · intro hn
    refine ⟨pairwise_registered hf hn, fun a n h => ⟨fun hr hw => ?_, fun hw => ?_⟩⟩
    · exact not_routed_of_wrapped hf hn hw hr
    · exact routed_of_not_wrapped hf hn (hpos h) hw

/-- A memory at `0x80000000`, as the test program registers it. -/
def memoryCall : AddCall := ⟨0x80000000, 0x80000000, 0, false⟩

theorem fits_memoryCall : ∀ c ∈ [memoryCall], c.Fits := by
  rintro c hc
  obtain rfl := List.mem_singleton.mp hc
  exact ⟨by decide, by decide⟩

theorem routed_iff_memory : Routed [memoryCall] 0x80000000 8 := by
  have hn : ∀ c ∈ [memoryCall], ¬ c.Topmost := by
    rintro c hc ⟨-, h, -⟩
    obtain rfl := List.mem_singleton.mp hc
    exact absurd h (by decide)
  refine (((routed_iff fits_memoryCall).mpr hn).2 0x80000000 8 (by decide)).mpr ?_
  rintro ⟨m, -, -, -, -, h, -⟩
  exact absurd h (by decide)

/-- An access across the top of the address space reaches the memory. -/
theorem not_routed : ¬ ∀ calls : List AddCall, (∀ c ∈ calls, c.Fits) →
    (registered calls).Pairwise (Apart Mapping.start Mapping.stop) ∧
      ∀ a n : Word, n ∈ [(1 : Word), 2, 4, 8] → Routed calls a n := by
  intro h
  have hr := (h [memoryCall] fits_memoryCall).2 0xfffffffffffffffc 8 (by decide)
  have hread := ((hr Answering default rfl).refuse fun m hm hh => ?_).1
  · have hsome : (((default : Systembus Answering).addAll [memoryCall]).paRead
        0xfffffffffffffffc 8).2 = some 0 := rfl
    exact absurd (hsome.symm.trans (congrArg Prod.snd hread)) (Option.some_ne_none _)
  · obtain rfl := List.mem_singleton.mp hm
    exact absurd hh.2 (by decide)

end Calls

end Systembus

end PuaCpu
