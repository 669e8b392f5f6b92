import PuaCpu.Lockstep.Dispatch

/-! # The pipeline against the reference model

The test harness steps the reference model at every commit of the pipeline and
compares the two. Over a run of covered instructions it finds no difference, and
the two sides end in the same state.
-/

namespace PuaCpu

namespace Cosim

open RvCore RvPriv

variable {δ : Type} [MmioDev δ] {cfg : Config}
  {s s' : RvCore.State δ} {d : MemWbData}

theorem riscvTestRun_concat {ds : List MemWbData} (h : riscvTestRun cfg s ds = .ok (s', true)) :
    riscvTestRun cfg s (ds ++ [d]) = riscvTestRun cfg s' [d] := by
  induction ds generalizing s with
  | nil =>
    obtain ⟨rfl, -⟩ := Prod.mk.inj (Except.ok.inj h)
    rfl
  | cons d' ds ih =>
    rw [List.cons_append, riscvTestRun]
    obtain ⟨hc, h⟩ | ⟨hc, s₂, hs, hm, h⟩ := riscvTestRun_cons h
    · rw [hc, ← ih h]
      rfl
    · rw [hc, ← ih h, hs]
      change (if mismatch (WriteBackUnit.debug d') s₂ then _ else _) = _
      rw [hm]
      rfl

theorem riscvTestRun_idle (hc : (WriteBackUnit.debug d).commit = false) :
    riscvTestRun cfg s [d] = .ok (s, true) := by
  rw [riscvTestRun, hc]
  rfl

theorem riscvTestRun_commit (hc : (WriteBackUnit.debug d).commit = true)
    (hs : s.step cfg {} = .ok s') (hm : mismatch (WriteBackUnit.debug d) s' = false) :
    riscvTestRun cfg s [d] = .ok (s', true) := by
  rw [riscvTestRun, hc, hs]
  change (if mismatch (WriteBackUnit.debug d) s' then _ else _) = _
  rw [hm]
  rfl

end Cosim

namespace Lockstep

open RvCore RvPriv PuaCpu.Core

variable {imem : SramAddr → BitVec 32} {a : Sequential.State} {s s' : RvCore.State MmioMem}
  {mem : Bytes.Memory 64} {ins : ℕ → In} {m : Dmem} {n t : ℕ}

/-- What the harness sees of write-back in the cycles before `n`. -/
def writeBacks (ins : ℕ → In) (n : ℕ) : List MemWbData :=
  (List.range n).map fun t => (machine.run ins t).wb

theorem writeBacks_succ (ins : ℕ → In) (n : ℕ) :
    writeBacks ins (n + 1) = writeBacks ins n ++ [(machine.run ins n).wb] := by
  rw [writeBacks, List.range_succ, List.map_append]
  rfl

/-- An instruction in the memory of the harness that no store has overwritten, and on which the
two sides are not known to differ. It goes on in the 32-bit address space, and if it traps, the
handler does not start with a read of its destination. -/
structure Covered (imem : SramAddr → BitVec 32) (a : Sequential.State) : Prop where
  pc : InMemory a.pc 4
  aligned : a.pc % pcAlign = 0
  unmodified : instWord a.mem (a.pc.extractLsb' 0 32) = imem (a.pc.extractLsb' 0 32)
  shared : Shared imem a (imem (a.pc.extractLsb' 0 32))
  next : (Sequential.step imem a).pc.toNat < 2 ^ 32
  handler : Csr.trap a.csr (csrIn imem a) = true →
    (Sequential.decode imem a).info.regWen = true →
    ¬Reads (Decoder.info (fetchWord imem (Sequential.step imem a).pc))
      (Sequential.decode imem a).info.regWaddr

instance (imem : SramAddr → BitVec 32) (a : Sequential.State) : Decidable (Covered imem a) :=
  decidable_of_iff (InMemory a.pc 4 ∧ a.pc % pcAlign = 0 ∧
    instWord a.mem (a.pc.extractLsb' 0 32) = imem (a.pc.extractLsb' 0 32) ∧
    Shared imem a (imem (a.pc.extractLsb' 0 32)) ∧
    (Sequential.step imem a).pc.toNat < 2 ^ 32 ∧
    (Csr.trap a.csr (csrIn imem a) = true → (Sequential.decode imem a).info.regWen = true →
      ¬Reads (Decoder.info (fetchWord imem (Sequential.step imem a).pc))
        (Sequential.decode imem a).info.regWaddr))
    ⟨fun ⟨h1, h2, h3, h4, h5, h6⟩ => ⟨h1, h2, h3, h4, h5, h6⟩,
      fun ⟨h1, h2, h3, h4, h5, h6⟩ => ⟨h1, h2, h3, h4, h5, h6⟩⟩

theorem Covered.fetched (hk : Covered imem a) (h : Holds a.mem mem) :
    Fetched imem a mem (imem (a.pc.extractLsb' 0 32)) := by
  have hw : fetchWord imem a.pc = (imem (a.pc.extractLsb' 0 32)).setWidth 64 := by
    rw [fetchWord, FetchUnit.isAlign, (Transfer.aligned_iff _).mp hk.aligned]
    rfl
  refine ⟨hk.pc, hk.aligned, hw, ?_⟩
  have hpc : (a.pc.extractLsb' 0 32).setWidth 64 = a.pc := by
    have := hk.pc.2
    exact low32_eq_self (by omega)
  have hp : PortInMemory (a.pc.extractLsb' 0 32) := by
    rw [PortInMemory, hpc]
    obtain ⟨h1, h2⟩ := hk.pc
    exact ⟨h1, by omega⟩
  have h4 : (a.pc.extractLsb' 0 32).toNat % 4 = 0 := by
    have h := congrArg BitVec.toNat hk.aligned
    rw [BitVec.toNat_umod] at h
    rw [← toNat_port, hpc]
    exact h
  rw [← hk.unmodified, h.instWord hp h4, hpc]

/-- A commit of the pipeline and the step of the reference model. -/
theorem commit_step (h : Served imem m ins n) (ht : t < n) (hsim : Sim imem m ins t a)
    (hv : (machine.run ins t).exe.info.valid = true) {mem' : Bytes.Memory 64}
    (hs : Stepped imem a s s' mem') :
    Cosim.mismatch (WriteBackUnit.debug (machine.run ins (t + 2)).wb) s' = false := by
  cases hq : trap (machine.run ins t) (ins t) with
  | false =>
    rw [h.wb_eq_execute ht hsim hv hq]
    exact hs.shown
  | true =>
    -- the value that is offered to the harness is not looked at
    have hr := hs.hidden ((h.trap_eq ht hsim hv).symm.trans hq)
    have hp := (Cosim.shown_of_not_mismatch hs.shown).1
    rw [← h.wb_pc ht hsim hv] at hp
    simp [Cosim.mismatch, WriteBackUnit.debug, hr, hp]

/-- Where the two sides stand: after `t` cycles of the pipeline and two more for the commits, no
difference has been found, and the sequential machine agrees with the reference model. -/
structure Stands (imem : SramAddr → BitVec 32) (m : Dmem) (ins : ℕ → In)
    (s : RvCore.State MmioMem) (t : ℕ) (s' : RvCore.State MmioMem) (mem : Bytes.Memory 64) :
    Prop where
  run : Cosim.riscvTestRun testConfig s (writeBacks ins (t + 2)) = .ok (s', true)
  agrees : Agrees (reached imem m ins t) s' mem
  mcycle : s'.priv.mcycle = BitVec.ofNat 64 (machine.count issued ins t)

theorem stands_zero (image : Bytes.Memory 64) (s : RvCore.State MmioMem) (ins : ℕ → In) :
    Stands imem (dmemOf image) ins (Test.core testConfig image s) 0 (Test.core testConfig image s)
      image where
  run := by
    have h0 : (WriteBackUnit.debug (machine.run ins 0).wb).commit = false := rfl
    have h1 : (WriteBackUnit.debug (machine.run ins 1).wb).commit = false := by
      rw [WriteBackUnit.debug, wb_one]
    have hw : writeBacks ins 1 = [(machine.run ins 0).wb] := rfl
    rw [writeBacks_succ, hw, Cosim.riscvTestRun_concat (Cosim.riscvTestRun_idle h0),
      Cosim.riscvTestRun_idle h1]
  agrees := agrees_init image s
  mcycle := rfl

theorem stands_succ {s₀ : RvCore.State MmioMem} (h : Served imem m ins n) (ht : t < n)
    (hk : (machine.run ins t).exe.info.valid = true → Covered imem (reached imem m ins t))
    (hn : (machine.run ins t).exe.info.valid = true → machine.count issued ins t < 2000000)
    (hs : Stands imem m ins s₀ t s mem) : ∃ s' mem', Stands imem m ins s₀ (t + 1) s' mem' := by
  have hsim := h.sim_run t ht.le
  have hw : writeBacks ins (t + 1 + 2) = writeBacks ins (t + 2) ++ [(machine.run ins (t + 2)).wb] :=
    writeBacks_succ ins (t + 2)
  have hcount : machine.count issued ins (t + 1) =
      machine.count issued ins t + (machine.run ins t).exe.info.valid.toNat := rfl
  cases hv : (machine.run ins t).exe.info.valid with
  | false =>
    have hc : (WriteBackUnit.debug (machine.run ins (t + 2)).wb).commit = false := hv
    rw [hv] at hcount
    refine ⟨s, mem, ⟨?_, ?_, hs.mcycle.trans (by rw [hcount]; rfl)⟩⟩
    · rw [hw, Cosim.riscvTestRun_concat hs.run, Cosim.riscvTestRun_idle hc]
    · rw [reached, hcount]
      exact hs.agrees
  | true =>
    have hc : (WriteBackUnit.debug (machine.run ins (t + 2)).wb).commit = true := hv
    have hlt : s.priv.mcycle < 2000000 := by
      have := hn hv
      rw [hs.mcycle, BitVec.lt_def, BitVec.toNat_ofNat]
      change _ % _ < 2000000
      omega
    obtain ⟨s', mem', hstep, hst⟩ :=
      steps hs.agrees ((hk hv).fetched hs.agrees.mem) hlt (hk hv).shared
    rw [hv] at hcount
    refine ⟨s', mem', ⟨?_, ?_, ?_⟩⟩
    · rw [hw, Cosim.riscvTestRun_concat hs.run,
        Cosim.riscvTestRun_commit hc hstep (commit_step h ht hsim hv hst)]
    · rw [reached, hcount]
      exact hst.agrees
    · rw [hst.mcycle, hs.mcycle, hcount]
      exact (BitVec.ofNat_add _ 1).symm

theorem stands (image : Bytes.Memory 64) (s : RvCore.State MmioMem)
    (h : Served imem (dmemOf image) ins n)
    (hk : ∀ k < machine.count issued ins n,
      Covered imem ((Sequential.machine imem (dmemOf image)).run (fun _ => ()) k))
    (hn : machine.count issued ins n ≤ 2000000) (ht : t ≤ n) :
    ∃ s' mem, Stands imem (dmemOf image) ins (Test.core testConfig image s) t s' mem := by
  induction t with
  | zero => exact ⟨_, _, stands_zero image s ins⟩
  | succ t ih =>
    obtain ⟨s', mem, hs⟩ := ih (by omega)
    have hlt (hv : (machine.run ins t).exe.info.valid = true) :
        machine.count issued ins t < machine.count issued ins n := by
      have hm : machine.count issued ins (t + 1) ≤ machine.count issued ins n :=
        Clocked.count_mono ht
      have hc : machine.count issued ins (t + 1) =
          machine.count issued ins t + (machine.run ins t).exe.info.valid.toNat := rfl
      rw [hc, hv] at hm
      exact hm
    exact stands_succ h (by omega) (fun hv => hk _ (hlt hv)) (fun hv => (hlt hv).trans_le hn) hs

end Lockstep

end PuaCpu
