import PuaCpu.Harness.Lanes
import PuaCpu.Pipeline.Order

/-! # Address aliasing

Both SRAM ports carry the low half of an address, and the port of the fetch unit
feeds the `pc` register. The upper half is visible nowhere, so an address beyond
the 32-bit space is served as the location that it wraps around to.
-/

namespace PuaCpu

open RvCore

/-- The place in the memory that a port address leads to through the crossbar. -/
def SramXbar.reached (x : SramXbar MmioMem) (p : SramAddr) : Option Word :=
  (x.locate (p.setWidth 64) (p.setWidth 64 + 1)).bind fun m =>
    (x.dev m.dev).place (p.setWidth 64 % (m.hi - m.lo)) 1

namespace Core

/-- The number of bytes of a load or store. -/
def accessSize (op : FuOp) : Word := 1#64 <<< op.extractLsb' 0 2

/-- A load or store that is sent to memory, or a redirected fetch, with its full address, its size
and what the port carries. -/
inductive Presents (s : State) (i : In) : (addr size : Word) → SramAddr → Prop
  | data (hv : s.exe.info.valid = true) (hf : s.exe.info.fusel = .lsu)
      (he : (dataSram s).en = true) :
      Presents s i (Lsu.memAddr s.exe.info s.exe.srcInfo) (accessSize s.exe.info.op)
        (dataSram s).addr
  | fetch (hf : flush s i = true) (he : (instSram s i).en = true) :
      Presents s i (target s i) 4 (instSram s i).addr

/-- No address is served as another one, against the system bus that serves full addresses. -/
structure NoAliasing (image : Bytes.Memory 64) (b : Systembus MmioMem) (ins : ℕ → In) :
    Prop where
  mapped : ∀ t a n p, Presents (machine.run ins t) (ins t) a n p →
    ((SramXbar.ofImage image).reached p).isSome = true →
    ((Test.bus image b).locate a n).isSome = true
  distinct : ∀ t u a a' n n' p, Presents (machine.run ins t) (ins t) a n p →
    Presents (machine.run ins u) (ins u) a' n' p →
    ((SramXbar.ofImage image).reached p).isSome = true → a = a'
  next : ∀ t u a, flush (machine.run ins t) (ins t) = true → t < u →
    commit (machine.run ins (u + 2)) (ins (u + 2)) = some a →
    (∀ v, t < v → v < u → commit (machine.run ins (v + 2)) (ins (v + 2)) = none) →
    a.1 = target (machine.run ins t) (ins t)

/-- The addresses of a cycle fit into the port, but for accesses that wrap around to no memory. -/
structure FitsPort (s : State) (i : In) : Prop where
  data : s.exe.info.valid = true → s.exe.info.fusel = .lsu → (dataSram s).en = true →
    (Lsu.memAddr s.exe.info s.exe.srcInfo).toNat < 2 ^ 32 ∨
      ¬ InMemory (low32 (Lsu.memAddr s.exe.info s.exe.srcInfo)) 1
  redirect : flush s i = true → (target s i).toNat < 2 ^ 32

section Port

variable {image : Bytes.Memory 64} {b : Systembus MmioMem} {a : Word}

theorem toNat_low32 (a : Word) : (low32 a).toNat = a.toNat % 2 ^ 32 := by
  rw [low32, BitVec.toNat_setWidth_of_le (by decide), BitVec.extractLsb'_toNat,
    Nat.shiftRight_zero]

theorem low32_eq_iff : low32 a = a ↔ a.toNat < 2 ^ 32 := by
  rw [← BitVec.toNat_inj, toNat_low32]
  omega

theorem reached_iff : ((SramXbar.ofImage image).reached (a.extractLsb' 0 32)).isSome = true ↔
    InMemory (low32 a) 1 := by
  have hm := SramXbar.maps_ofImage image
  have hlt : (low32 a).toNat < 2 ^ 32 := by
    rw [toNat_low32]
    exact Nat.mod_lt _ (by decide)
  constructor
  · intro h
    rw [SramXbar.reached, SramXbar.locate_singleton hm.devices (by decide)] at h
    split_ifs at h with hl
    · refine ⟨hl.1, ?_⟩
      have hp : ((Test.memory image).place (place (low32 a)) 1).isSome = true := by
        rw [← hm.dev]
        exact h
      rw [MmioMem.place] at hp
      split_ifs at hp with hle hw
      · have hn : (place (low32 a)).toNat = (low32 a).toNat % 0x80000000 := BitVec.toNat_umod
        rw [BitVec.le_def, BitVec.toNat_add, hn] at hle
        change _ ≤ 134217728 at hle
        change (_ + 1) % _ ≤ _ at hle
        have h1 : 0x80000000 ≤ (low32 a).toNat := hl.1
        omega
      · exact absurd hw Bool.false_ne_true
      · exact absurd hw Bool.false_ne_true
      · exact absurd hp Bool.false_ne_true
    · exact absurd h Bool.false_ne_true
  · intro h
    have he := h.toNat_add
    have hl : (SramXbar.ofImage image).locate (low32 a) (low32 a + 1) = _ :=
      hm.locate h.1 (he.trans_le (h.2.trans (by decide)))
    have hp : (Test.memory image).place (place (low32 a)) 1 = _ := place_memory image h
    rw [SramXbar.reached]
    change (Option.bind ((SramXbar.ofImage image).locate (low32 a) (low32 a + 1)) _).isSome = true
    rw [hl, Option.bind_some, hm.dev]
    exact congrArg Option.isSome hp

theorem locate_bus_iff {n : ℕ} (ha : a.toNat + n < 2 ^ 64) :
    ((Test.bus image b).locate a (BitVec.ofNat 64 n)).isSome = true ↔
      0x80000000 ≤ a.toNat ∧ a.toNat + n ≤ 0x100000000 := by
  have he : (a + BitVec.ofNat 64 n).toNat = a.toNat + n := by
    rw [BitVec.toNat_add, BitVec.toNat_ofNat]
    omega
  rw [Systembus.locate_singleton (Systembus.maps_bus image).devices (by decide)]
  simp only [BitVec.le_def, he]
  split_ifs with h
  · exact iff_of_true rfl h
  · exact iff_of_false (by decide) h

end Port

section Redirect

variable {ins : ℕ → In} {t : ℕ}

/-- The next instruction after a redirect commits three cycles behind it, at what the port
carried. -/
theorem redirect_commit (hf : flush (machine.run ins t) (ins t) = true) :
    commit (machine.run ins (t + 3)) (ins (t + 3)) = none ∧
    commit (machine.run ins (t + 4)) (ins (t + 4)) = none ∧
    ∃ w, commit (machine.run ins (t + 5)) (ins (t + 5)) =
      some (low32 (target (machine.run ins t) (ins t)), w) := by
  have hv := (filled_run ins t).receive_of_exe (valid_of_flush hf)
  have hx : (machine.run ins (t + 1)).exe = {} := step_exe_of_flush hf
  have hd : (machine.run ins (t + 1)).dec = {} := step_dec_of_flush hf
  have hs : (machine.run ins (t + 1)).fetch.state = .receive := step_fetch_state_of_receive hv
  have hp : (machine.run ins (t + 1)).fetch.pc = low32 (target (machine.run ins t) (ins t)) := by
    rw [run_succ, step_fetch_pc_of_receive hv, fetchNext, if_pos hf]
  have go {u : ℕ} (he : (machine.run ins u).exe.info.valid = false) :
      (machine.run ins (u + 1)).exe = decOut (machine.run ins u) (ins u) ∧
        (machine.run ins (u + 1)).dec = fetched (machine.run ins u) (ins u) :=
    ⟨step_exe_of_go (not_flush_of_not_valid he) (not_stall_of_not_valid he),
      step_dec_of_go (not_flush_of_not_valid he) (not_stall_of_not_valid he)⟩
  have h1 : (machine.run ins (t + 1)).exe.info.valid = false := by rw [hx]
  have h2 : (machine.run ins (t + 2)).exe.info.valid = false := by
    rw [(go h1).1]
    change (machine.run ins (t + 1)).dec.valid = false
    rw [hd]
  have h3 : (machine.run ins (t + 3)).exe.info.valid = true ∧
      (machine.run ins (t + 3)).exe.pc = low32 (target (machine.run ins t) (ins t)) := by
    rw [(go h2).1]
    change (machine.run ins (t + 2)).dec.valid = true ∧ (machine.run ins (t + 2)).dec.pc = _
    rw [(go h1).2, fetched_eq]
    exact ⟨decide_eq_true hs, hp⟩
  refine ⟨?_, ?_, (machine.run ins (t + 3)).exe.info.inst, ?_⟩
  · rw [commit_add_two, issue_eq_none_iff, h1]
  · rw [commit_add_two, issue_eq_none_iff, h2]
  · rw [commit_add_two, issue_eq_some_iff, ← h3.2]
    exact ⟨h3.1, rfl⟩

theorem next_commit {u : ℕ} {a : Word × Word} (hf : flush (machine.run ins t) (ins t) = true)
    (htu : t < u) (ha : commit (machine.run ins (u + 2)) (ins (u + 2)) = some a)
    (hn : ∀ v, t < v → v < u → commit (machine.run ins (v + 2)) (ins (v + 2)) = none) :
    a.1 = low32 (target (machine.run ins t) (ins t)) := by
  obtain ⟨h1, h2, w, h3⟩ := redirect_commit hf
  have hu : u = t + 3 := by
    rcases Nat.lt_trichotomy u (t + 3) with h | h | h
    · obtain rfl | rfl : u = t + 1 ∨ u = t + 2 := by omega
      · exact absurd (ha.symm.trans h1) (Option.some_ne_none _)
      · exact absurd (ha.symm.trans h2) (Option.some_ne_none _)
    · exact h
    · exact absurd (h3.symm.trans (hn (t + 3) (by omega) h)) (Option.some_ne_none _)
  subst hu
  rw [Option.some_inj.mp (ha.symm.trans h3)]

end Redirect

section Iff

variable {image : Bytes.Memory 64} {b : Systembus MmioMem} {ins : ℕ → In} {s : State} {i : In}
  {a n : Word} {p : SramAddr}

theorem Presents.port (h : Presents s i a n p) : p = a.extractLsb' 0 32 := by
  cases h with
  | data => rfl
  | fetch hf => rw [instSram_addr, fetchNext, if_pos hf]

theorem Presents.size (h : Presents s i a n p) :
    ∃ k < 4, n = BitVec.ofNat 64 (2 ^ k) ∧ a.toNat % 2 ^ k = 0 := by
  cases h with
  | data hv hf he =>
    have hw : Lsu.Width s.exe.info.op (s.exe.info.op.extractLsb' 0 2).toNat :=
      ⟨(s.exe.info.op.extractLsb' 0 2).isLt, by rw [BitVec.ofNat_toNat, BitVec.setWidth_eq]⟩
    have hn : ∀ k : BitVec 2, 1#64 <<< k = BitVec.ofNat 64 (2 ^ k.toNat) := by decide
    have he' : Lsu.hasExc s.exe.info s.exe.srcInfo = false := by
      simpa [dataSram, Fu.dataSram, Lsu.dataSram] using he
    refine ⟨_, hw.lt, hn _, ?_⟩
    rw [Lsu.hasExc, hv, hf, Lsu.addrMisaligned_eq hw] at he'
    simpa using he'
  | fetch hf he =>
    refine ⟨2, by decide, rfl, ?_⟩
    rw [instSram_en, fetchNext, if_pos hf, FetchUnit.isAlign, beq_iff_eq] at he
    have ht := congrArg BitVec.toNat he
    rwa [Bits.toNat_extract, pow_zero, Nat.div_one] at ht

theorem Presents.of_fits (h : Presents s i a n p) (hf : FitsPort s i)
    (hr : ((SramXbar.ofImage image).reached p).isSome = true) : low32 a = a ∧ InMemory a 1 := by
  rw [h.port, reached_iff] at hr
  have ha : low32 a = a := by
    rw [low32_eq_iff]
    cases h with
    | data hv hl he => exact (hf.data hv hl he).resolve_right (not_not_intro hr)
    | fetch hl => exact hf.redirect hl
  exact ⟨ha, ha ▸ hr⟩

/-- **Addresses are aliased** unless all of them fit into the port. -/
theorem no_aliasing_iff (image : Bytes.Memory 64) (b : Systembus MmioMem) (ins : ℕ → In) :
    NoAliasing image b ins ↔ ∀ t, FitsPort (machine.run ins t) (ins t) := by
  constructor
  · intro h t
    refine ⟨fun hv hf he => ?_, fun hf => ?_⟩
    · have hp : Presents (machine.run ins t) (ins t) _ _ _ := .data hv hf he
      rw [or_iff_not_imp_right, not_not]
      intro hm
      have hl := h.mapped t _ _ _ hp (hp.port ▸ reached_iff.mpr hm)
      obtain ⟨k, hk, hn, -⟩ := hp.size
      obtain ⟨-, hm⟩ := hm
      rw [toNat_low32] at hm
      have hb : 2 ^ k ≤ 8 := Nat.pow_le_pow_right (by decide) (by omega : k ≤ 3)
      have h0 := Nat.two_pow_pos k
      rw [hn, locate_bus_iff (by omega)] at hl
      omega
    · obtain ⟨h1, h2, w, h3⟩ := redirect_commit hf
      refine low32_eq_iff.mp (h.next t (t + 3) _ hf (by omega) h3 fun v hv hv' => ?_)
      obtain rfl | rfl : v = t + 1 ∨ v = t + 2 := by omega
      · exact h1
      · exact h2
  · intro h
    refine ⟨fun t a n p hp hr => ?_, fun t u a a' n n' p hp hp' hr => ?_,
      fun t u a hf htu ha hn => ?_⟩
    · obtain ⟨-, hm⟩ := hp.of_fits (h t) hr
      obtain ⟨k, hk, rfl, -⟩ := hp.size
      have hb : 2 ^ k ≤ 8 := Nat.pow_le_pow_right (by decide) (by omega : k ≤ 3)
      have hm2 := hm.2
      exact (locate_bus_iff (by omega)).mpr ⟨hm.1, by omega⟩
    · have ha := (hp.of_fits (h t) hr).1
      have ha' := (hp'.of_fits (h u) hr).1
      rw [← ha, ← ha', low32, low32, ← hp.port, ← hp'.port]
    · rw [next_commit hf htu ha hn, low32_eq_iff.mpr ((h t).redirect hf)]

/-- `LUI x1, 0x80000` and `LW x2, 0(x1)`: the address is a negative number. -/
def aliasRun : ℕ → In :=
  stimulus (fun p => if p = 0x80000000 then 0x800000b7 else 0x0000a103) 0 fun _ => {}

/-- The load of the negative address is served from the first word of the memory. -/
theorem aliasing_negative : ¬ NoAliasing (fun _ => 0) default aliasRun := by
  intro h
  have hp : Presents (machine.run aliasRun 5) (aliasRun 5) _ _ _ :=
    .data (by decide +kernel) (by decide +kernel) (by decide +kernel)
  exact absurd (h.mapped 5 _ _ _ hp (by decide +kernel)) (by decide +kernel)

end Iff

end Core

end PuaCpu
