import PuaCpu.Harness.Soc
import PuaCpu.Lockstep.Program

/-! # The test harness on a covered program

The core runs on the memory of the harness. As long as it fetches the code of
the image, a covered program passes the test: no commit differs from the step of
the reference model, and registers, memory, mode and CSRs are the same at the end.
-/

namespace PuaCpu

open RvCore RvPriv PuaCpu.Core Lockstep

section Bytes

variable {m : Dmem} {mem mem' : Bytes.Memory 64} {a : Word}

theorem Holds.byte_eq (h : Holds m mem) (h' : Holds m mem') (ha : InMemory a 1) :
    mem (place a) = mem' (place a) := by
  have hl : Bytes.load mem (lanes (a.extractLsb' 0 32)) 8 =
      Bytes.load mem' (lanes (a.extractLsb' 0 32)) 8 :=
    (h _ (portInMemory ha)).symm.trans (h' _ (portInMemory ha))
  have hp : lanes (a.extractLsb' 0 32) + BitVec.ofNat 64 (a.toNat % 8) = place a := by
    apply BitVec.eq_of_toNat_eq
    have hz := toNat_place (aligned_inMemory ha)
    rw [toNat_align] at hz
    rw [lanes_port ha, BitVec.toNat_add, hz, toNat_place ha, BitVec.toNat_ofNat]
    obtain ⟨h1, h2⟩ := ha
    omega
  apply BitVec.eq_of_getLsbD_eq
  intro i hi
  have hb := congrArg (fun x => x.getLsbD (8 * (a.toNat % 8) + i)) hl
  rw [Bytes.getLsbD_load _ _ (by omega), Bytes.getLsbD_load _ _ (by omega)] at hb
  have h1 : (8 * (a.toNat % 8) + i) / 8 = a.toNat % 8 := by omega
  have h2 : (8 * (a.toNat % 8) + i) % 8 = i := by omega
  simpa [h1, h2, hp, show 8 * (a.toNat % 8) + i < 64 by omega] using hb

end Bytes

namespace Soc

variable (image : Bytes.Memory 64)

/-- The instruction words of a test image. -/
def code : SramAddr → BitVec 32 := instWord (dmemOf image)

/-- The program of the image, one instruction at a time. -/
def program (k : ℕ) : Sequential.State :=
  (Sequential.machine (code image) (dmemOf image)).run (fun _ => ()) k

/-- The instructions that have reached execute before a cycle. -/
def issuedBefore (n : ℕ) : ℕ := machine.count issued (stimulus image) n

/-- What the harness sees of write-back before a cycle. -/
def writeBacks (n : ℕ) : List MemWbData := (List.range n).map fun t => (run image t).core.wb

/-- The inputs of the core up to a cycle, followed by inputs that serve every fetch. -/
def served (n : ℕ) : ℕ → In := continuation (code image) (stimulus image) n

variable {image} {mem : Bytes.Memory 64} {n t : ℕ}

theorem served_eq (ht : t ≤ n) : served image n t = stimulus image t := continuation_eq ht

theorem run_served (ht : t ≤ n + 1) :
    machine.run (served image n) t = machine.run (stimulus image) t :=
  Clocked.run_congr fun v hv => served_eq (by omega)

theorem memory_served (ht : t ≤ n + 1) : memory (dmemOf image) (served image n) t = dmem image t :=
  memory_congr fun v hv => served_eq (by omega)

theorem count_served (ht : t ≤ n + 1) :
    machine.count issued (served image n) t = issuedBefore image t :=
  Clocked.count_congr fun v hv => served_eq (by omega)

theorem reached_served (ht : t ≤ n + 1) :
    reached (code image) (dmemOf image) (served image n) t =
      program image (issuedBefore image t) := by
  rw [reached, count_served ht]
  rfl

theorem writeBacks_served : Lockstep.writeBacks (served image n) (n + 2) =
    writeBacks image (n + 2) := by
  refine List.map_congr_left fun t ht => ?_
  rw [run_served (Nat.le_of_lt_succ (List.mem_range.mp ht)), run_core]

theorem regs_served : (machine.run (served image n) (n + 2)).regs =
    (run image (n + 2)).core.regs := by
  rw [← run_core, Clocked.run_succ, Clocked.run_succ _ _ (n + 1), run_served le_rfl]
  rfl

theorem quietStart_served (image : Bytes.Memory 64) (hn : 1 ≤ n) :
    QuietStart (served image n) := by
  intro t ht
  have h0 : QuietWord ((0 : BitVec 32).setWidth 64) := fun _ => .inl (by decide)
  rw [served_eq (by omega)]
  obtain rfl | rfl : t = 0 ∨ t = 1 := by omega
  · exact h0
  · exact h0

theorem interrupt_stimulus (image : Bytes.Memory 64) (t : ℕ) :
    (stimulus image t).interrupt = {} := by
  cases t <;> rfl

theorem issuedBefore_lt (ht : t < n)
    (hv : (machine.run (stimulus image) t).exe.info.valid = true) :
    issuedBefore image t < issuedBefore image n := by
  have hs : issuedBefore image (t + 1) =
      issuedBefore image t + (machine.run (stimulus image) t).exe.info.valid.toNat := rfl
  have hm : issuedBefore image (t + 1) ≤ issuedBefore image n := Clocked.count_mono ht
  rw [hs, hv] at hm
  exact hm

/-- The pipeline in the harness up to a cycle: the slave has the memory of the core, and the
sequential machine runs along. -/
def Follows (image : Bytes.Memory 64) (t : ℕ) : Prop :=
  (∃ mem, Holding image t mem) ∧ Served (code image) (dmemOf image) (served image t) t

section Follow

variable (hk : ∀ v ≤ t, (machine.run (stimulus image) v).exe.info.valid = true →
  Covered (code image) (program image (issuedBefore image v)))

include hk

theorem covered_reached {v : ℕ} (hv : v ≤ t)
    (hx : (machine.run (served image n) v).exe.info.valid = true) (hn : v ≤ n + 1) :
    Covered (code image) (reached (code image) (dmemOf image) (served image n) v) := by
  rw [run_served hn] at hx
  rw [reached_served hn]
  exact hk v hv hx

/-- A store in execute stays in the memory. -/
theorem Follows.write (h : Follows image t) (hw : (dataPort image t).isWrite = true) :
    PortInMemory (dataPort image t).addr := by
  obtain ⟨⟨mem, hm⟩, hs⟩ := h
  have hsim := hs.sim_run t le_rfl
  have hr : machine.run (served image t) t = machine.run (stimulus image) t := run_served (by omega)
  have hv : (machine.run (served image t) t).exe.info.valid = true := by
    by_contra hn
    rw [Bool.not_eq_true, hr] at hn
    exact absurd (hw.symm.trans (not_isWrite_of_not_valid hn)) (by decide)
  have hexe := hs.exe_eq_decode le_rfl hsim hv
  have hp : dataPort image t =
      Sequential.dataSram (code image)
        (reached (code image) (dmemOf image) (served image t) t) := by
    rw [dataPort, ← hr, dataSram, hexe]
    rfl
  have hcov := covered_reached (n := t) hk le_rfl hv (by omega)
  have hf : (Sequential.decode (code image)
      (reached (code image) (dmemOf image) (served image t) t)).info.fusel = .lsu := by
    by_contra hn
    rw [hp] at hw
    exact absurd (hw.symm.trans (not_isWrite fun h => hn h.1)) (by decide)
  rw [hp] at hw ⊢
  have hd : Holds (reached (code image) (dmemOf image) (served image t) t).mem mem := by
    rw [hsim.mem, memory_served (by omega)]
    exact hm.2
  exact port_inMemory (hcov.fetched hd) hcov.shared hf (Bool.and_eq_true_iff.mp hw).1

theorem follows_succ (ht : 1 ≤ t) (h : Follows image t) (hc : Coded image t) :
    Follows image (t + 1) := by
  obtain ⟨⟨mem, hm⟩, hs⟩ := h
  obtain ⟨hm', hi, hd⟩ := beat_of_pos ht hm hc (Follows.write hk ⟨⟨mem, hm⟩, hs⟩)
  refine ⟨hm', ?_⟩
  have hstart := quietStart_served image (n := t + 1) (by omega)
  have hinst : InstSync (code image) (served image (t + 1)) := by
    refine instSync_continuation fun v hv h1 he => ?_
    rcases Nat.lt_succ_iff_lt_or_eq.mp hv with hv | rfl
    · -- an earlier fetch
      have hsync := hs.inst v h1
      rw [run_served (by omega), served_eq (by omega), served_eq hv] at hsync
      exact hsync he
    · exact hi he
  have hs' : Served (code image) (dmemOf image) (served image (t + 1)) t :=
    hs.congr hinst hstart fun v hv => by rw [served_eq (by omega), served_eq hv]
  have hd' : Holds (memory (dmemOf image) (served image (t + 1)) t) mem := by
    rw [memory_served (by omega)]
    exact hm.2
  refine served_succ hs' (fun v hv hx => covered_reached hk hv hx (by omega)) hd' ?_ ?_
  · rw [served_eq (by omega)]
    exact interrupt_stimulus image t
  · intro _ he ha
    rw [run_served (by omega)] at he ha ⊢
    rw [served_eq le_rfl, memory_served (by omega)]
    exact hd he ha

end Follow

theorem follows_one (image : Bytes.Memory 64) : Follows image 1 := by
  refine ⟨⟨image, holding_one image⟩, ?_⟩
  have hinst : InstSync (code image) (served image 1) := by
    refine instSync_continuation fun v hv h1 _ => ?_
    omega
  have h0 : Served (code image) (dmemOf image) (served image 1) 0 :=
    .zero hinst (quietStart_served image le_rfl)
  refine served_succ h0 (fun v hv hx => ?_) (holds_dmemOf image) rfl
    fun h => absurd h (by decide)
  obtain rfl := Nat.le_zero.mp hv
  exact absurd hx Bool.false_ne_true

theorem follows (hc : ∀ t < n, 1 ≤ t → Coded image t)
    (hk : ∀ k < issuedBefore image n, Covered (code image) (program image k)) (h1 : 1 ≤ n) :
    Follows image n := by
  induction n, h1 using Nat.le_induction with
  | base => exact follows_one image
  | succ n h1 ih =>
    have hkn : ∀ k < issuedBefore image n, Covered (code image) (program image k) :=
      fun k hk' => hk k (hk'.trans_le (Clocked.count_mono (Nat.le_succ n)))
    refine follows_succ (fun v hv hx => hk _ (issuedBefore_lt (by omega) hx)) h1
      (ih (fun t ht => hc t (by omega)) hkn) (hc n (by omega) h1)

/-- What the harness has found after two more cycles, and where the two sides are. -/
structure Passed (image : Bytes.Memory 64) (s : RvCore.State MmioMem) (n : ℕ)
    (s' : RvCore.State MmioMem) : Prop where
  run : Cosim.riscvTestRun testConfig (Test.core testConfig image s) (writeBacks image (n + 2)) =
    .ok (s', true)
  regs : s'.gpr = (Soc.run image (n + 2)).core.regs.read
  memory : ∃ mem mem', s'.priv.bus.Maps mem ∧ (Soc.run image n).xbar.Maps mem' ∧
    ∀ a, InMemory a 1 → mem (place a) = mem' (place a)
  mode : s'.priv.nextPriv = (Soc.run image n).core.csr.mode
  csr : ∀ r ∉ [CsrName.cycle, .stap, .mip],
    CsrValue.held s'.priv r = (Soc.run image n).core.csr.reg r

theorem passed_of_stands {s s' : RvCore.State MmioMem} {mem mem' : Bytes.Memory 64}
    (hs : Stands (code image) (dmemOf image) (served image n) (Test.core testConfig image s) n s'
      mem)
    (hsim : Sim (code image) (dmemOf image) (served image n) n
      (reached (code image) (dmemOf image) (served image n) n)) (hm : Holding image n mem') :
    Passed image s n s' where
  run := by
    rw [← writeBacks_served]
    exact hs.run
  regs := by
    rw [hs.agrees.gpr, hsim.regs, archRegs_eq, regs_served]
  memory := by
    have hd := hs.agrees.mem
    rw [hsim.mem, memory_served (by omega)] at hd
    exact ⟨mem, mem', hs.agrees.bus, hm.1, fun a ha => hd.byte_eq hm.2 ha⟩
  mode := by
    rw [← run_core, ← run_served (Nat.le_succ n)]
    exact hs.agrees.csr.nextPriv.trans hsim.csr.mode.symm
  csr r hr := by
    rw [← run_core, ← run_served (Nat.le_succ n)]
    refine (hs.agrees.csr.reg r hr).trans (hsim.csr.reg r ?_).symm
    rintro rfl
    exact hr List.mem_cons_self

/-- While the core fetches the code of the image, every
commit is compared with a step of the reference model without a difference, and after it both
sides have the same registers, memory, mode and CSRs. -/
theorem passes (image : Bytes.Memory 64) (s : RvCore.State MmioMem) (n : ℕ)
    (hc : ∀ t < n, 1 ≤ t → Coded image t)
    (hk : ∀ k < issuedBefore image n, Covered (code image) (program image k))
    (hn : issuedBefore image n ≤ 2000000) : ∃ s', Passed image s n s' := by
  rcases Nat.eq_zero_or_pos n with rfl | h1
  · exact ⟨_, passed_of_stands (stands_zero image s _) sim_init
      ⟨SramXbar.maps_ofImage image, holds_dmemOf image⟩⟩
  · obtain ⟨⟨mem', hm⟩, hs⟩ := follows hc hk h1
    rw [← count_served (Nat.le_succ n)] at hk hn
    obtain ⟨s', mem, hst⟩ := stands image s hs hk hn le_rfl
    exact ⟨s', passed_of_stands hst (hs.sim_run n le_rfl) hm⟩

end Soc

end PuaCpu
