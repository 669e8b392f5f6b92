import PuaCpu.Decode.Operands
import PuaCpu.Execute.Fu
import PuaCpu.Reference.Run

/-! # The comparison of the test harness

`riscv_test_run` steps the reference model at each commit and compares the debug
ports. It looks at the register only where the reference model writes one, and
the write enable of the core is not on its port.
-/

namespace PuaCpu.Cosim

open RvCore RvPriv

section Loop

variable {δ : Type}

/-- The condition for an error at a commit. -/
def mismatch (d : Debug) (s : State δ) : Bool :=
  d.pc != s.debugPc ||
    (s.debugRegNum != 0 && (d.rfWnum != s.debugRegNum || d.rfWdata != s.debugRegWdata))

/-- The loop of `riscv_test_run` without delay slots, one write-back register a cycle. The result
tells whether no error was reported. -/
def riscvTestRun [MmioDev δ] (cfg : Config) (s : State δ) :
    List MemWbData → Outcome (State δ × Bool)
  | [] => .ok (s, true)
  | d :: ds =>
    if (WriteBackUnit.debug d).commit then do
      let s ← s.step cfg {}
      if mismatch (WriteBackUnit.debug d) s then return (s, false)
      riscvTestRun cfg s ds
    else riscvTestRun cfg s ds

/-- The register that a cycle of the core writes, and the value. -/
def dutUpdate (d : MemWbData) : Option (RegAddr × Word) :=
  let w := WriteBackUnit.regfile d
  if w.wen && w.waddr != 0 then some (w.waddr, w.wdata) else none

/-- The register that a step of the reference model wrote, and the value. -/
def refUpdate (s : State δ) : Option (RegAddr × Word) :=
  if s.debugRegNum ≠ 0 then some (s.debugRegNum, s.debugRegWdata) else none

/-- Registers after an update. -/
def applyUpdate (regs : RegAddr → Word) : Option (RegAddr × Word) → RegAddr → Word
  | some (r, v) => Function.update regs r v
  | none => regs

/-- The register file of the core after the cycles. -/
def dutRegs (regs : ARegFile) (ds : List MemWbData) : ARegFile :=
  ds.foldl (fun regs d => regs.write (WriteBackUnit.regfile d)) regs

/-- The commits of a run, each between two states of the reference model. -/
inductive CommitOf [MmioDev δ] (cfg : Config) :
    State δ → List MemWbData → MemWbData → State δ → State δ → Prop
  | here {s s₂ : State δ} {d : MemWbData} (ds : List MemWbData)
    (hc : (WriteBackUnit.debug d).commit = true) (hs : s.step cfg {} = .ok s₂) :
    CommitOf cfg s (d :: ds) d s s₂
  | idle {s s₁ s₂ : State δ} {d d₁ : MemWbData} {ds : List MemWbData}
    (hc : (WriteBackUnit.debug d).commit = false) (h : CommitOf cfg s ds d₁ s₁ s₂) :
    CommitOf cfg s (d :: ds) d₁ s₁ s₂
  | later {s s' s₁ s₂ : State δ} {d d₁ : MemWbData} {ds : List MemWbData}
    (hc : (WriteBackUnit.debug d).commit = true) (hs : s.step cfg {} = .ok s')
    (h : CommitOf cfg s' ds d₁ s₁ s₂) : CommitOf cfg s (d :: ds) d₁ s₁ s₂

end Loop

variable {δ : Type} {s s₁ s₂ : State δ} {d : MemWbData}

theorem write_regfile (regs : ARegFile) (d : MemWbData) :
    regs.write (WriteBackUnit.regfile d) = applyUpdate regs (dutUpdate d) := by
  rw [ARegFile.write, dutUpdate]
  split_ifs <;> rfl

/-- What a commit without an error shows. -/
structure CommitOk (d : MemWbData) (s₁ s₂ : State δ) : Prop where
  pc : d.pc = s₂.debugPc
  shown : ∀ r v, refUpdate s₂ = some (r, v) → d.info.regWaddr = r ∧ d.rdInfo.wdata = v
  gpr : s₂.gpr = applyUpdate s₁.gpr (refUpdate s₂)
  update : dutUpdate d = refUpdate s₂ ↔ ((dutUpdate d).isSome ↔ (refUpdate s₂).isSome)

theorem shown_of_not_mismatch (h : mismatch (WriteBackUnit.debug d) s = false) :
    d.pc = s.debugPc ∧
      ∀ r v, refUpdate s = some (r, v) → d.info.regWaddr = r ∧ d.rdInfo.wdata = v := by
  simp only [mismatch, Bool.or_eq_false_iff, bne_eq_false_iff_eq, Bool.and_eq_false_iff] at h
  obtain ⟨hpc, hr⟩ := h
  refine ⟨hpc, fun r v hu => ?_⟩
  rw [refUpdate] at hu
  split_ifs at hu with hn
  obtain ⟨rfl, rfl⟩ := Prod.mk.inj (Option.some.inj hu)
  exact hr.resolve_left hn

theorem update_eq_iff
    (h : ∀ r v, refUpdate s = some (r, v) → d.info.regWaddr = r ∧ d.rdInfo.wdata = v) :
    dutUpdate d = refUpdate s ↔ ((dutUpdate d).isSome ↔ (refUpdate s).isSome) := by
  constructor
  · intro he
    rw [he]
  · intro hs
    rcases hr : refUpdate s with _ | ⟨r, v⟩
    · simpa [hr] using hs
    · obtain ⟨rfl, rfl⟩ := h r v hr
      have hd : (dutUpdate d).isSome := hs.mpr (by rw [hr]; rfl)
      rw [dutUpdate] at hd ⊢
      split_ifs at hd ⊢
      · rfl
      · exact absurd hd (by decide)

variable [MmioDev δ] {cfg : Config}

theorem commitOk (hi : s₁.Inv) (hs : s₁.step cfg {} = .ok s₂)
    (hm : mismatch (WriteBackUnit.debug d) s₂ = false) : CommitOk d s₁ s₂ := by
  obtain ⟨hpc, hshown⟩ := shown_of_not_mismatch hm
  refine ⟨hpc, hshown, ?_, update_eq_iff hshown⟩
  rw [State.step_gpr hi hs, refUpdate]
  split_ifs <;> rfl

theorem riscvTestRun_cons {ds : List MemWbData} {s' : State δ}
    (h : riscvTestRun cfg s (d :: ds) = .ok (s', true)) :
    ((WriteBackUnit.debug d).commit = false ∧ riscvTestRun cfg s ds = .ok (s', true)) ∨
    ((WriteBackUnit.debug d).commit = true ∧ ∃ s₂, s.step cfg {} = .ok s₂ ∧
      mismatch (WriteBackUnit.debug d) s₂ = false ∧ riscvTestRun cfg s₂ ds = .ok (s', true)) := by
  rw [riscvTestRun] at h
  cases hc : (WriteBackUnit.debug d).commit with
  | false => exact .inl ⟨rfl, by simpa [hc] using h⟩
  | true =>
    right
    rw [hc, if_pos rfl] at h
    rcases hs : s.step cfg {} with e | s₂
    · rw [hs] at h
      exact absurd h nofun
    · rw [hs] at h
      change (if mismatch (WriteBackUnit.debug d) s₂ then _ else _) = _ at h
      cases hm : mismatch (WriteBackUnit.debug d) s₂ with
      | true =>
        rw [hm, if_pos rfl] at h
        exact absurd h nofun
      | false =>
        rw [hm] at h
        exact ⟨rfl, s₂, rfl, hm, h⟩

theorem commitOk_of_run {ds : List MemWbData} {s' : State δ} (hi : s.Inv)
    (h : riscvTestRun cfg s ds = .ok (s', true)) (hc : CommitOf cfg s ds d s₁ s₂) :
    CommitOk d s₁ s₂ := by
  induction hc with
  | here ds hc hs =>
    obtain ⟨hn, -⟩ | ⟨-, s₃, hs', hm, -⟩ := riscvTestRun_cons h
    · exact absurd (hc.symm.trans hn) (by decide)
    · obtain rfl := Except.ok.inj (hs.symm.trans hs')
      exact commitOk hi hs hm
  | idle hc _ ih =>
    obtain ⟨-, h⟩ | ⟨hn, -⟩ := riscvTestRun_cons h
    · exact ih hi h
    · exact absurd (hc.symm.trans hn) (by decide)
  | later hc hs _ ih =>
    obtain ⟨hn, -⟩ | ⟨-, s₃, hs', -, h⟩ := riscvTestRun_cons h
    · exact absurd (hc.symm.trans hn) (by decide)
    · obtain rfl := Except.ok.inj (hs.symm.trans hs')
      exact ih (hi.step hs) h

theorem commitOf_of_run {ds : List MemWbData} {s' : State δ}
    (h : riscvTestRun cfg s ds = .ok (s', true)) (hd : d ∈ ds)
    (hc : (WriteBackUnit.debug d).commit = true) : ∃ s₁ s₂, CommitOf cfg s ds d s₁ s₂ := by
  induction ds generalizing s with
  | nil => exact absurd hd List.not_mem_nil
  | cons d₁ ds ih =>
    obtain ⟨hn, h⟩ | ⟨hc₁, s₂, hs, -, h⟩ := riscvTestRun_cons h
    · rcases List.mem_cons.mp hd with rfl | hd
      · exact absurd (hc.symm.trans hn) (by decide)
      · obtain ⟨s₁, s₂, h⟩ := ih h hd
        exact ⟨s₁, s₂, .idle hn h⟩
    · rcases List.mem_cons.mp hd with rfl | hd
      · exact ⟨s, s₂, .here ds hc hs⟩
      · obtain ⟨s₁, s₃, h⟩ := ih h hd
        exact ⟨s₁, s₃, .later hc₁ hs h⟩

theorem dutRegs_of_run {ds : List MemWbData} {s' : State δ} (hi : s.Inv)
    (h : riscvTestRun cfg s ds = .ok (s', true))
    (hw : ∀ d s₁ s₂, CommitOf cfg s ds d s₁ s₂ →
      ((dutUpdate d).isSome ↔ (refUpdate s₂).isSome)) : dutRegs s.gpr ds = s'.gpr := by
  induction ds generalizing s with
  | nil =>
    obtain ⟨rfl, -⟩ := Prod.mk.inj (Except.ok.inj h)
    rfl
  | cons d ds ih =>
    obtain ⟨hc, h⟩ | ⟨hc, s₂, hs, hm, h⟩ := riscvTestRun_cons h
    · have hd : ARegFile.write s.gpr (WriteBackUnit.regfile d) = s.gpr := by
        have hv : d.info.valid = false := hc
        simp [ARegFile.write, WriteBackUnit.regfile, hv]
      have hr := ih hi h fun d₁ s₁ s₂ h₁ => hw d₁ s₁ s₂ (.idle hc h₁)
      rwa [← hd] at hr
    · have hok := commitOk hi hs hm
      have hd : ARegFile.write s.gpr (WriteBackUnit.regfile d) = s₂.gpr := by
        rw [write_regfile, hok.update.mpr (hw d s s₂ (.here ds hc hs)), hok.gpr]
      have hr := ih (hi.step hs) h fun d₁ s₁ s₃ h₁ => hw d₁ s₁ s₃ (.later hc hs h₁)
      rwa [← hd] at hr

/-- A run without an error: every commit is compared and shows no difference, its updates agree
exactly if both sides write or neither does, and where they do the registers stay equal. -/
theorem riscvTestRun_updates {cfg : Config} {image : Bytes.Memory 64} {s s' : State MmioMem}
    {ds : List MemWbData} (h : riscvTestRun cfg (Test.core cfg image s) ds = .ok (s', true)) :
    (∀ d ∈ ds, (WriteBackUnit.debug d).commit = true →
      ∃ s₁ s₂, CommitOf cfg (Test.core cfg image s) ds d s₁ s₂) ∧
    (∀ d s₁ s₂, CommitOf cfg (Test.core cfg image s) ds d s₁ s₂ → CommitOk d s₁ s₂) ∧
    ((∀ d s₁ s₂, CommitOf cfg (Test.core cfg image s) ds d s₁ s₂ →
      ((dutUpdate d).isSome ↔ (refUpdate s₂).isSome)) → dutRegs ARegFile.init ds = s'.gpr) := by
  have hi : (Test.core cfg image s).Inv := (State.Reachable.new _).jump _ |>.inv
  exact ⟨fun d hd hc => commitOf_of_run h hd hc, fun d s₁ s₂ hc => commitOk_of_run hi h hc,
    fun hw => dutRegs_of_run hi h hw⟩

/-- The program is `addi x5, x0, 1`, and the core writes the same. -/
theorem riscvTestRun_updates_addi : ∃ s', riscvTestRun ⟨true, false⟩
      (Test.core ⟨true, false⟩ (Test.filled 0x00100293) default)
      [{ pc := Test.base, info := { valid := true, regWen := true, regWaddr := 5 },
         rdInfo := { wdata := 1 } }] = .ok (s', true) ∧
    ∀ d s₁ s₂, CommitOf ⟨true, false⟩
      (Test.core ⟨true, false⟩ (Test.filled 0x00100293) default)
      [{ pc := Test.base, info := { valid := true, regWen := true, regWaddr := 5 },
         rdInfo := { wdata := 1 } }] d s₁ s₂ → CommitOk d s₁ s₂ :=
  ⟨_, rfl, (riscvTestRun_updates rfl).2.1⟩

/-- The program is `addi x0, x0, 0`, and the core writes 1 to `x5`. -/
theorem not_riscvTestRun_complete : ¬ ∀ (cfg : Config) (image : Bytes.Memory 64)
    (s s' : State MmioMem) (ds : List MemWbData),
    riscvTestRun cfg (Test.core cfg image s) ds = .ok (s', true) →
      (∀ d s₁ s₂, CommitOf cfg (Test.core cfg image s) ds d s₁ s₂ → dutUpdate d = refUpdate s₂) ∧
      dutRegs ARegFile.init ds = s'.gpr := by
  intro h
  have hr := (h ⟨true, false⟩ (Test.filled 0x13) default _
    [{ pc := Test.base, info := { valid := true, regWen := true, regWaddr := 5 },
       rdInfo := { wdata := 1 } }] rfl).2
  exact absurd (congrFun hr 5) (by decide)

end PuaCpu.Cosim
