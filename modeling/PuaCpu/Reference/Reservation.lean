import PuaCpu.Reference.Harness
import PuaCpu.Temporal.Since

/-! # Reservations

The harts share one reservation. A write clears it if it starts at the reserved
address; a write that only reaches into the reserved range goes unnoticed.
-/

namespace PuaCpu.Systembus

/-- A call of the bus. -/
inductive Call
  | read (pa size : Word)
  | write (pa size buffer : Word)
  | lr (pa size hartId : Word)
  | sc (pa size src hartId : Word)
  | amo (pa size : Word) (op : BitVec 5) (src : Word)

namespace Call

def isLr : Call → Bool
  | lr .. => true
  | _ => false

def size : Call → Word
  | read _ size | write _ size _ | lr _ size _ | sc _ size _ _ | amo _ size _ _ => size

/-- The range that a call has written. -/
def writes : Call → Option Bool → Option (Word × Word)
  | write pa size _, some _ => some (pa, size)
  | sc pa size _ _, some false => some (pa, size)
  | amo pa size _ _, some _ => some (pa, size)
  | _, _ => none

end Call

section Range

/-- The bytes of a range. -/
def Covers (pa size x : Word) : Prop := (x - pa).toNat < size.toNat

instance (pa size x : Word) : Decidable (Covers pa size x) := inferInstanceAs (Decidable (_ < _))

/-- Whether two ranges share a byte. -/
def Meets (pa size pa' size' : Word) : Prop := ∃ x, Covers pa size x ∧ Covers pa' size' x

end Range

variable {δ : Type} [MmioDev δ]

/-- A call with its `sc_fail`, and nothing if it returns `false`. -/
def call (b : Systembus δ) : Call → Outcome (Systembus δ × Option Bool)
  | .read pa size => .ok ((b.paRead pa size).1, (b.paRead pa size).2.map fun _ => false)
  | .write pa size buffer =>
    .ok ((b.paWrite pa size buffer).1, if (b.paWrite pa size buffer).2 then some false else none)
  | .lr pa size hartId =>
    .ok ((b.paLr pa size hartId).1, (b.paLr pa size hartId).2.map fun _ => false)
  | .sc pa size src hartId => .ok (b.paSc pa size src hartId)
  | .amo pa size op src =>
    (b.paAmoOp pa size op src).map fun r => (r.1, r.2.map fun _ => false)

/-- The steps of the bus. -/
def Calls (δ : Type) [MmioDev δ] (b : Systembus δ) (c : Call) (r : Option Bool)
    (b' : Systembus δ) : Prop := b.call c = .ok (b', r)

/-- The reservation of a hart. -/
structure Reserved (b : Systembus δ) (pa size hartId : Word) : Prop where
  valid : b.lrValid = true
  pa : b.lrPa = pa
  size : b.lrSize = size
  hartId : b.lrHart = hartId

/-- A write into the reserved range that the comparison of `pa_write` misses. -/
structure Slips (b : Systembus δ) (pa size : Word) : Prop where
  valid : b.lrValid = true
  meets : Meets b.lrPa b.lrSize pa size
  missed : ¬(pa ≤ b.lrPa ∧ b.lrPa + size ≤ pa + size)

variable {b b' : Systembus δ} {c : Call} {r : Option Bool} {pa size hartId src : Word}

section Step

/-- The part of the bus that holds the reservation. -/
structure SameLr (b b' : Systembus δ) : Prop where
  pa : b'.lrPa = b.lrPa
  size : b'.lrSize = b.lrSize
  hartId : b'.lrHart = b.lrHart
  valid : b'.lrValid = b.lrValid

theorem sameLr_paRead (b : Systembus δ) (pa size : Word) : SameLr b (b.paRead pa size).1 := by
  unfold paRead
  cases b.locate pa size <;> exact ⟨rfl, rfl, rfl, rfl⟩

theorem sameLr_paWrite (b : Systembus δ) (pa size buffer : Word) :
    SameLr (b.breakLr pa size) (b.paWrite pa size buffer).1 := by
  unfold paWrite
  simp only
  cases (b.breakLr pa size).locate pa size <;> exact ⟨rfl, rfl, rfl, rfl⟩

omit [MmioDev δ] in
theorem SameLr.reserved (h : SameLr b b') (hr : Reserved b' pa size hartId) :
    Reserved b pa size hartId :=
  ⟨h.valid.symm.trans hr.valid, h.pa.symm.trans hr.pa, h.size.symm.trans hr.size,
    h.hartId.symm.trans hr.hartId⟩

omit [MmioDev δ] in
/-- A reservation outlives the writes that the comparison does not catch. -/
theorem reserved_breakLr {a m : Word} (h : Reserved (b.breakLr a m) pa size hartId) :
    Reserved b pa size hartId ∧ ¬(a ≤ b.lrPa ∧ b.lrPa + m ≤ a + m) := by
  unfold breakLr at h
  split_ifs at h with hc
  · exact absurd h.valid Bool.false_ne_true
  · exact ⟨h, hc⟩

omit [MmioDev δ] in
theorem Reserved.not_meets {a m : Word} (h : Reserved b pa size hartId)
    (hc : ¬(a ≤ b.lrPa ∧ b.lrPa + m ≤ a + m)) (hs : ¬ b.Slips a m) : ¬ Meets pa size a m := by
  intro hm
  exact hs ⟨h.valid, by rw [h.pa, h.size]; exact hm, hc⟩

omit [MmioDev δ] in
theorem eq_of_writes {v a m : Word} (hc : c = .write pa size v ∨ ∃ op, c = .amo pa size op v)
    (hw : c.writes r = some (a, m)) : pa = a ∧ size = m := by
  rcases hc with rfl | ⟨op, rfl⟩ <;> cases r
  · exact absurd hw (Option.some_ne_none _).symm
  · exact Prod.mk.inj (Option.some_inj.mp hw)
  · exact absurd hw (Option.some_ne_none _).symm
  · exact Prod.mk.inj (Option.some_inj.mp hw)

theorem amo_cases {op : BitVec 5} (hc : b.call (.amo pa size op src) = .ok (b', r)) :
    (b' = (b.paRead pa size).1 ∧ r = none) ∨
      ∃ v, b' = ((b.paRead pa size).1.paWrite pa size v).1 := by
  change (b.paAmoOp pa size op src).map _ = _ at hc
  unfold paAmoOp at hc
  rcases hr : b.paRead pa size with ⟨b₁, _ | buffer⟩ <;> rw [hr] at hc
  · obtain ⟨rfl, rfl⟩ := Prod.mk.inj (Except.ok.inj hc)
    exact .inl ⟨rfl, rfl⟩
  · simp only at hc
    generalize (if size = 4 then (buffer.setWidth 32).signExtend 64 else buffer) = res at hc
    rcases hv : amoResult op src res with _ | v <;> rw [hv] at hc
    · cases hc
    · obtain ⟨rfl, -⟩ := Prod.mk.inj (Except.ok.inj hc)
      exact .inr ⟨v, rfl⟩

/-- What a call that leaves a reservation behind has done. -/
theorem reserved_call (hc : b.call c = .ok (b', r))
    (hs : ∀ a m, c.writes r = some (a, m) → ¬ b.Slips a m) (h : Reserved b' pa size hartId) :
    c = .lr pa size hartId ∨ Reserved b pa size hartId ∧ c.isLr = false ∧
      ∀ a m, c.writes r = some (a, m) → ¬ Meets pa size a m := by
  cases c with
  | read pa' size' =>
    obtain ⟨rfl, rfl⟩ := Prod.mk.inj (Except.ok.inj hc)
    refine .inr ⟨(sameLr_paRead b pa' size').reserved h, rfl, fun a m hw => ?_⟩
    exact absurd hw (Option.some_ne_none _).symm
  | write pa' size' buffer =>
    obtain ⟨rfl, rfl⟩ := Prod.mk.inj (Except.ok.inj hc)
    obtain ⟨hr, hn⟩ := reserved_breakLr ((sameLr_paWrite b pa' size' buffer).reserved h)
    refine .inr ⟨hr, rfl, fun a m hw => ?_⟩
    obtain ⟨rfl, rfl⟩ := eq_of_writes (.inl rfl) hw
    exact hr.not_meets hn (hs _ _ hw)
  | lr pa' size' hartId' =>
    obtain ⟨rfl, rfl⟩ := Prod.mk.inj (Except.ok.inj hc)
    have hr := (sameLr_paRead _ pa' size').reserved h
    obtain rfl : pa' = pa := hr.pa
    obtain rfl : size' = size := hr.size
    obtain rfl : hartId' = hartId := hr.hartId
    exact .inl rfl
  | sc pa' size' src hartId' =>
    have hp : b.paSc pa' size' src hartId' = (b', r) := Except.ok.inj hc
    unfold paSc at hp
    split_ifs at hp with hf hid
    · obtain ⟨rfl, rfl⟩ := Prod.mk.inj hp
      exact absurd h.valid Bool.false_ne_true
    · obtain ⟨rfl, rfl⟩ := Prod.mk.inj hp
      exact .inr ⟨h, rfl, fun a m hw => absurd hw (Option.some_ne_none _).symm⟩
    · obtain ⟨rfl, rfl⟩ := Prod.mk.inj hp
      have hr := (reserved_breakLr ((sameLr_paWrite _ pa' size' src).reserved h)).1
      exact absurd hr.valid Bool.false_ne_true
  | amo pa' size' op src =>
    have hb := sameLr_paRead b pa' size'
    rcases amo_cases hc with ⟨rfl, rfl⟩ | ⟨v, rfl⟩
    · exact .inr ⟨hb.reserved h, rfl, fun a m hw => absurd hw (Option.some_ne_none _).symm⟩
    · obtain ⟨hr, hn⟩ := reserved_breakLr ((sameLr_paWrite _ pa' size' v).reserved h)
      rw [hb.pa] at hn
      refine .inr ⟨hb.reserved hr, rfl, fun a m hw => ?_⟩
      obtain ⟨rfl, rfl⟩ := eq_of_writes (.inr ⟨op, rfl⟩) hw
      exact (hb.reserved hr).not_meets hn (hs _ _ hw)

theorem reserved_of_sc (hc : b.call (.sc pa size src hartId) = .ok (b', r)) (hr : r ≠ some true) :
    Reserved b pa size hartId := by
  have hp : b.paSc pa size src hartId = (b', r) := Except.ok.inj hc
  unfold paSc at hp
  by_cases hf : (!b.lrValid || b.lrPa != pa || b.lrSize != size || b.lrHart != hartId) = true
  · rw [if_pos hf] at hp
    exact absurd (Prod.mk.inj hp).2.symm hr
  · simp only [Bool.or_eq_true, Bool.not_eq_true', bne_iff_ne, not_or, not_not,
      Bool.not_eq_false] at hf
    exact ⟨hf.1.1.1, hf.1.1.2, hf.1.2, hf.2⟩

end Step

/-- **When an `SC` succeeds only on an untouched reservation**: while every write into the reserved
range is caught by the comparison. -/
theorem sc_of_reservation {n t : ℕ} (r : Temporal.Trace (Calls δ) n)
    (h0 : (r.st 0).lrValid = false)
    (hs : ∀ u < t, ∀ a m, (r.inp u).writes (r.out u) = some (a, m) → ¬ (r.st u).Slips a m)
    (ht : t < n) (hi : r.inp t = .sc pa size src hartId) (ho : r.out t ≠ some true) :
    Temporal.Since (fun u => r.inp u = .lr pa size hartId)
      (fun u => (r.inp u).isLr = false ∧
        ∀ a m, (r.inp u).writes (r.out u) = some (a, m) → ¬ Meets pa size a m) t := by
  have hinit : ¬ Reserved (r.st 0) pa size hartId := by
    rintro ⟨hv, -⟩
    exact absurd (hv.symm.trans h0) (by decide)
  refine Temporal.since_of_flag (F := fun u => Reserved (r.st u) pa size hartId) hinit
    (fun u hu h => reserved_call (r.step u (by omega)) (hs u hu) h) ?_
  have hstep := r.step t ht
  rw [hi] at hstep
  exact reserved_of_sc hstep ho

section Runs

/-- The bus after a call that returns. -/
def next (b : Systembus δ) (c : Call) : Systembus δ × Option Bool :=
  (b.call c).toOption.getD (b, none)

/-- The states of the test bus under some calls. -/
def states (calls : ℕ → Call) : ℕ → Systembus MmioMem :=
  Temporal.Trace.states next calls (RvCore.Test.bus (fun _ => 0) default)

/-- The trace of calls that all return. -/
def traceOf (calls : ℕ → Call) (n : ℕ) (h : ∀ t < n,
    Calls MmioMem (states calls t) (calls t) (next (states calls t) (calls t)).2
      (states calls (t + 1))) : Temporal.Trace (Calls MmioMem) n :=
  .follow next calls _ n h

/-- A write of a word, its `LR`, a write behind the word, and its `SC`. -/
def lrSc (t : ℕ) : Call :=
  [.write 0x80000000 4 3, .lr 0x80000000 4 0, .write 0x80000004 8 7].getD t (.sc 0x80000000 4 1 0)

def lrScTrace : Temporal.Trace (Calls MmioMem) 4 := traceOf lrSc 4 fun t ht => by
  rcases t with _ | _ | _ | _ | t
  · rfl
  · rfl
  · rfl
  · rfl
  · exact absurd ht (Nat.not_lt.mpr (Nat.le_add_left 4 t))

theorem not_meets {pa size pa' size' : Word} (h : pa.toNat + size.toNat ≤ pa'.toNat)
    (h' : pa'.toNat + size'.toNat ≤ 2 ^ 64) : ¬ Meets pa size pa' size' := by
  rintro ⟨x, hx, hx'⟩
  rw [Covers, BitVec.toNat_sub] at hx hx'
  omega

theorem sc_of_reservation_word : lrScTrace.out 3 = some false ∧
    Temporal.Since (fun u => lrSc u = .lr 0x80000000 4 0)
      (fun u => (lrSc u).isLr = false ∧ ∀ a m, (lrSc u).writes (lrScTrace.out u) = some (a, m) →
        ¬ Meets 0x80000000 4 a m) 3 := by
  refine ⟨rfl, @sc_of_reservation _ _ _ _ _ 1 _ 3 lrScTrace rfl (fun u hu a m hw => ?_) (by omega)
    rfl (by decide)⟩
  rcases u with _ | _ | _ | u
  · exact fun h => absurd h.valid (by decide)
  · have hn : (lrScTrace.inp 1).writes (lrScTrace.out 1) = none := rfl
    exact absurd (hn.symm.trans hw) (Option.some_ne_none _).symm
  · have hr : (lrScTrace.inp 2).writes (lrScTrace.out 2) = some (0x80000004, 8) := rfl
    obtain ⟨rfl, rfl⟩ := Prod.mk.inj (Option.some_inj.mp (hr.symm.trans hw))
    exact fun h => not_meets (by decide) (by decide) h.meets
  · omega

/-- `LR` of a double word, a write of its upper half, and `SC`. -/
def lrWriteSc (t : ℕ) : Call :=
  [.lr 0x80000000 8 0, .write 0x80000004 4 1, .sc 0x80000000 8 2 0].getD t (.read 0x80000000 8)

def lrWriteScTrace : Temporal.Trace (Calls MmioMem) 3 := traceOf lrWriteSc 3 fun t ht => by
  rcases t with _ | _ | _ | t
  · rfl
  · rfl
  · rfl
  · omega

/-- The `SC` succeeds although half of its range has been written. -/
theorem not_sc_of_reservation : ¬ ∀ (n t : ℕ) (r : Temporal.Trace (Calls MmioMem) n)
    (pa size src hartId : Word), (r.st 0).lrValid = false →
    (∀ u, (r.inp u).size ∈ [(1 : Word), 2, 4, 8]) → t < n →
    r.inp t = .sc pa size src hartId → r.out t = some false →
    Temporal.Since (fun u => r.inp u = .lr pa size hartId)
      (fun u => ∀ a m, (r.inp u).writes (r.out u) = some (a, m) → ¬ Meets pa size a m) t := by
  intro h
  have hsize (u : ℕ) : (lrWriteSc u).size ∈ [(1 : Word), 2, 4, 8] := by
    rcases u with _ | _ | _ | u
    · decide
    · decide
    · decide
    · exact (by decide : (8 : Word) ∈ [(1 : Word), 2, 4, 8])
  obtain ⟨u, hu, hlr, hw⟩ :=
    h 3 2 lrWriteScTrace 0x80000000 8 2 0 rfl hsize (by omega) rfl rfl
  have hlr' : lrWriteSc u = .lr 0x80000000 8 0 := hlr
  have hu0 : u = 0 := by
    rcases u with _ | _ | u
    · rfl
    · cases hlr'
    · omega
  have hm : Meets 0x80000000 8 0x80000004 4 := ⟨0x80000004, by decide, by decide⟩
  exact hw 1 (by omega) (by omega) 0x80000004 4 rfl hm

end Runs

end PuaCpu.Systembus
