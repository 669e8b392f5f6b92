import PuaCpu.Pipeline.Response

/-! # The sources of interrupts

A pending bit remembers that a line has been asserted. The external and the
software line set each other's bit, so each of the two is reported as the other.
-/

namespace PuaCpu

open Selection (First)

/-- The lines with the one of `a` low. -/
def ExtInterrupt.mute (l : ExtInterrupt) (a : IntNo) : ExtInterrupt where
  mei := l.mei && a != IntNo.mei
  mti := l.mti && a != IntNo.mti
  msi := l.msi && a != IntNo.msi

theorem Csr.lineOf_mute (l : ExtInterrupt) (a k : IntNo) :
    Csr.lineOf (l.mute a) k = (Csr.lineOf l k && a != k) := by
  obtain ⟨mei, mti, msi⟩ := l
  revert a k mei mti msi
  decide

namespace Core

variable {ins : ℕ → In} {t : ℕ} {a k : IntNo}

/-- The run with one line low in every cycle. -/
def mute (ins : ℕ → In) (a : IntNo) (t : ℕ) : In :=
  { ins t with interrupt := (ins t).interrupt.mute a }

/-- The line of an interrupt has been asserted before a cycle. -/
def Asserted (ins : ℕ → In) (t : ℕ) (k : IntNo) : Prop :=
  ∃ v < t, Csr.lineOf (ins v).interrupt k = true

/-- Every interrupt that is recorded had its line asserted before. -/
def Attributed (ins : ℕ → In) : Prop := ∀ t k, Records ins t k → Asserted ins t k

/-- The line of `a` makes the core report `k`, which would not be pending if the line were low. -/
structure Causes (ins : ℕ → In) (t : ℕ) (a k : IntNo) : Prop where
  records : Records ins t k
  needed : ((machine.run (mute ins a) t).csr.reg .mip).getLsbD k = false

/-- No line makes the core report another interrupt. -/
def Separate (ins : ℕ → In) : Prop := ∀ t a k, Causes ins t a k → a = k

/-- The source whose line sets the pending bit of `k`. -/
def crossed (k : IntNo) : IntNo :=
  if k = IntNo.mei then IntNo.msi else if k = IntNo.msi then IntNo.mei else k

/-- An instruction goes from decode to execute. -/
structure Issues (ins : ℕ → In) (t : ℕ) : Prop where
  valid : (machine.run ins t).dec.valid = true
  flush : flush (machine.run ins t) (ins t) = false
  stall : stall (machine.run ins t) = false

/-- The line that sets the pending bit of `k` has been asserted, and `k` is enabled. -/
structure Offered (ins : ℕ → In) (t : ℕ) (k : IntNo) : Prop where
  line : Asserted ins t (crossed k)
  mie : ((machine.run ins t).csr.reg .mie).getLsbD k = true
  mode : Csr.Open (machine.run ins t).csr

section Pending

theorem wiredTo_eq (l : ExtInterrupt) (k : IntNo) :
    Csr.wiredTo l k = Csr.lineOf l (crossed k) := by
  obtain ⟨mei, mti, msi⟩ := l
  revert k mei mti msi
  decide

/-- `MIP` follows the lines, whatever the program writes to it. -/
theorem pending_iff (ins : ℕ → In) (t : ℕ) (k : IntNo) :
    ((machine.run ins t).csr.reg .mip).getLsbD k = true ↔ Asserted ins t (crossed k) := by
  induction t with
  | zero => simp [machine, init, Csr.init, CsrName.reset, Asserted]
  | succ t ih =>
    have hs : (machine.run ins (t + 1)).csr.reg .mip =
        Csr.mipUpdate ((machine.run ins t).csr.reg .mip) (ins t).interrupt := rfl
    rw [hs, Csr.getLsbD_mipUpdate_eq, Bool.or_eq_true, ih, wiredTo_eq]
    constructor
    · rintro (⟨v, hv, h⟩ | h)
      · exact ⟨v, by omega, h⟩
      · exact ⟨t, by omega, h⟩
    · rintro ⟨v, hv, h⟩
      rcases Nat.lt_succ_iff_lt_or_eq.mp hv with hv | rfl
      · exact .inl ⟨v, hv, h⟩
      · exact .inr h

theorem asserted_mute : Asserted (mute ins a) t k ↔ Asserted ins t k ∧ a ≠ k := by
  have hl (v : ℕ) : Csr.lineOf (mute ins a v).interrupt k = true ↔
      Csr.lineOf (ins v).interrupt k = true ∧ a ≠ k := by
    rw [mute, Csr.lineOf_mute, Bool.and_eq_true, bne_iff_ne]
  simp only [Asserted, hl]
  exact ⟨fun ⟨v, hv, h, hne⟩ => ⟨⟨v, hv, h⟩, hne⟩, fun ⟨⟨v, hv, h⟩, hne⟩ => ⟨v, hv, h, hne⟩⟩

theorem offered_iff_enabled : Offered ins t k ↔ Csr.Enabled (machine.run ins t).csr k :=
  ⟨fun h => ⟨(pending_iff ins t k).mpr h.line, h.mie, h.mode⟩,
    fun h => ⟨(pending_iff ins t k).mp h.mip, h.mie, h.mode⟩⟩

end Pending

section Records

theorem issues_iff : Issues ins t ↔ busy ins (t + 1) = true := by
  constructor
  · rintro ⟨hv, hf, hs⟩
    rw [busy, run_succ, step_exe_of_go hf hs]
    exact hv
  · intro hb
    obtain ⟨hf, hs, hv, -⟩ := exe_eq_of_valid hb
    exact ⟨hv, hf, hs⟩

theorem Records.unique {j : IntNo} (hj : Records ins t j) (hk : Records ins t k) : j = k := by
  have hinj : ∀ j k : IntNo, Csr.intCause j = Csr.intCause k → j = k := by decide
  exact hinj j k (hj.2.symm.trans hk.2)

/-- The core records the first interrupt that is offered to an instruction in decode. -/
theorem records_succ_iff : Records ins (t + 1) k ↔
    Issues ins t ∧ First IntNo.intPriority (Offered ins t) k := by
  have hcongr (j : IntNo) : First IntNo.intPriority (Offered ins t) j ↔
      First IntNo.intPriority (fun j => Csr.Enabled (machine.run ins t).csr j) j :=
    ⟨fun h => h.congr fun _ _ => offered_iff_enabled,
      fun h => h.congr fun _ _ => offered_iff_enabled.symm⟩
  rw [issues_iff, hcongr]
  constructor
  · intro h
    have hb := valid_of_trap h.1
    obtain ⟨hk, he⟩ := (attached_iff hb).mp (attached_of_records h)
    obtain ⟨j, hj, hf⟩ := records_of_enabled hk he hb
    exact ⟨hb, hj.unique h ▸ hf⟩
  · rintro ⟨hb, hf⟩
    obtain ⟨j, hj, hf'⟩ := records_of_enabled hf.mem hf.holds hb
    exact hf'.unique hf ▸ hj

theorem exists_of_records (h : Records ins t k) :
    ∃ v, t = v + 1 ∧ Issues ins v ∧ First IntNo.intPriority (Offered ins v) k := by
  obtain ⟨v, rfl, -⟩ := enabled_of_attached (valid_of_trap h.1) (attached_of_records h)
  exact ⟨v, rfl, records_succ_iff.mp h⟩

theorem Asserted.succ (h : Asserted ins t k) : Asserted ins (t + 1) k := by
  obtain ⟨v, hv, h⟩ := h
  exact ⟨v, by omega, h⟩

/-- What is recorded comes from the line that sets its pending bit. -/
theorem causes_iff : Causes ins t a k ↔ Records ins t k ∧ a = crossed k := by
  constructor
  · rintro ⟨hr, hn⟩
    refine ⟨hr, ?_⟩
    obtain ⟨v, rfl, -, hf⟩ := exists_of_records hr
    by_contra hne
    have hp := (pending_iff (mute ins a) (v + 1) k).mpr
      (asserted_mute.mpr ⟨hf.holds.line.succ, hne⟩)
    rw [hn] at hp
    exact Bool.false_ne_true hp
  · rintro ⟨hr, rfl⟩
    refine ⟨hr, Bool.eq_false_iff.mpr fun hp => ?_⟩
    exact (asserted_mute.mp ((pending_iff _ t k).mp hp)).2 rfl

/-- Without the line the core never reports the interrupt. -/
theorem Causes.not_records (h : Causes ins t a k) (u : ℕ) : ¬ Records (mute ins a) u k := by
  intro hr
  obtain ⟨v, rfl, -, hf⟩ := exists_of_records hr
  exact (asserted_mute.mp hf.holds.line).2 (causes_iff.mp h).2

theorem separate_iff : Separate ins ↔ ∀ t k, Records ins t k → crossed k = k := by
  constructor
  · intro h t k hr
    exact h t (crossed k) k (causes_iff.mpr ⟨hr, rfl⟩)
  · intro h t a k hc
    obtain ⟨hr, rfl⟩ := causes_iff.mp hc
    exact h t k hr

end Records

section Attribution

theorem eq_mti_of_crossed (hk : k ∈ IntNo.intPriority) (hc : crossed k = k) : k = IntNo.mti := by
  revert k
  decide

theorem first_mti (h : First IntNo.intPriority (Offered ins t) IntNo.mti) :
    ¬ Offered ins t IntNo.mei ∧ ¬ Offered ins t IntNo.msi :=
  ⟨h.before _ (by decide), h.before _ (by decide)⟩

theorem exists_records (hi : Issues ins t) (hk : k ∈ IntNo.intPriority) (ho : Offered ins t k) :
    ∃ j, Records ins (t + 1) j ∧ First IntNo.intPriority (Offered ins t) j := by
  obtain ⟨j, hr, -⟩ :=
    records_of_enabled hk (offered_iff_enabled.mp ho) (issues_iff.mp hi)
  exact ⟨j, hr, (records_succ_iff.mp hr).2⟩

theorem Separate.not_offered (h : Separate ins) (hi : Issues ins t) :
    ¬ Offered ins t IntNo.mei ∧ ¬ Offered ins t IntNo.msi := by
  have hno : ∀ k ∈ IntNo.intPriority, Offered ins t k →
      ¬ Offered ins t IntNo.mei ∧ ¬ Offered ins t IntNo.msi := by
    intro k hk ho
    obtain ⟨j, hr, hf⟩ := exists_records hi hk ho
    obtain rfl := eq_mti_of_crossed hf.mem (separate_iff.mp h _ j hr)
    exact first_mti hf
  exact ⟨fun ho => (hno _ (by decide) ho).1 ho, fun ho => (hno _ (by decide) ho).2 ho⟩

theorem eq_mti_of_records
    (h : ∀ t, Issues ins t → ¬ Offered ins t IntNo.mei ∧ ¬ Offered ins t IntNo.msi)
    (hr : Records ins t k) : k = IntNo.mti := by
  obtain ⟨v, rfl, hi, hf⟩ := exists_of_records hr
  have hmem : k = IntNo.mei ∨ k = IntNo.msi ∨ k = IntNo.mti := by
    simpa [IntNo.intPriority] using hf.mem
  rcases hmem with rfl | rfl | rfl
  · exact absurd hf.holds (h v hi).1
  · exact absurd hf.holds (h v hi).2
  · rfl

theorem attributed_and_separate_of_not_offered
    (h : ∀ t, Issues ins t → ¬ Offered ins t IntNo.mei ∧ ¬ Offered ins t IntNo.msi) :
    Attributed ins ∧ Separate ins := by
  refine ⟨fun t k hr => ?_, separate_iff.mpr fun t k hr => ?_⟩
  · obtain rfl := eq_mti_of_records h hr
    obtain ⟨v, rfl, -, hf⟩ := exists_of_records hr
    exact hf.holds.line.succ
  · obtain rfl := eq_mti_of_records h hr
    rfl

/-- **Interrupts are attributed to their lines**, and no line makes the core report another one,
exactly when no instruction leaves decode while the external or the software interrupt is offered
to it through the line of the other. So it is in a run that leaves both lines low. -/
theorem interrupt_attribution (ins : ℕ → In) :
    (Attributed ins ∧ Separate ins ↔
      ∀ t, Issues ins t → ¬ Offered ins t IntNo.mei ∧ ¬ Offered ins t IntNo.msi) ∧
    (Attributed ins ↔ ∀ t k, Issues ins t → First IntNo.intPriority (Offered ins t) k →
      Asserted ins (t + 1) k) ∧
    ((∀ t, (ins t).interrupt.mei = false ∧ (ins t).interrupt.msi = false) →
      Attributed ins ∧ Separate ins) := by
  refine ⟨⟨fun h t hi => h.2.not_offered hi, attributed_and_separate_of_not_offered⟩,
    ⟨fun h t k hi hf => h _ k (records_succ_iff.mpr ⟨hi, hf⟩), fun h t k hr => ?_⟩, fun hl => ?_⟩
  · obtain ⟨v, rfl, hi, hf⟩ := exists_of_records hr
    exact h v k hi hf
  · refine attributed_and_separate_of_not_offered fun t _ => ⟨fun ho => ?_, fun ho => ?_⟩
    · obtain ⟨v, -, hv⟩ := ho.line
      simp [crossed, Csr.lineOf, IntNo.mei, IntNo.msi, hl v] at hv
    · obtain ⟨v, -, hv⟩ := ho.line
      simp [crossed, Csr.lineOf, IntNo.mei, IntNo.msi, hl v] at hv

/-- The program of `interruptRun`, with the software line high and an external line that rises. -/
def riseRun : ℕ → In :=
  stimulus (interruptProgram 0x13) (fun _ => 0) fun t => { mei := decide (6 ≤ t), msi := true }

/-- The external line alone makes the core record a software interrupt, and its rise does so
where the software line has been high all along. -/
theorem interrupt_crossed :
    ((∀ t, (interruptRun 0x13 t).interrupt = { mei := true }) ∧
      Records (interruptRun 0x13) 7 IntNo.msi ∧ ¬ Attributed (interruptRun 0x13) ∧
      ¬ Separate (interruptRun 0x13)) ∧
    (∀ t, (riseRun t).interrupt = { mei := decide (6 ≤ t), msi := true }) ∧
      Records riseRun 8 IntNo.msi ∧ (∀ u, ¬ Records (mute riseRun IntNo.mei) u IntNo.msi) ∧
      ¬ Separate riseRun := by
  have hl : ∀ t, (interruptRun 0x13 t).interrupt = { mei := true } := stimulus_interrupt
  have hr : Records (interruptRun 0x13) 7 IntNo.msi := ⟨by decide +kernel, by decide +kernel⟩
  have hrise : Records riseRun 8 IntNo.msi := ⟨by decide +kernel, by decide +kernel⟩
  have hc : Causes riseRun 8 IntNo.mei IntNo.msi := causes_iff.mpr ⟨hrise, rfl⟩
  refine ⟨⟨hl, hr, fun h => ?_, fun h => ?_⟩, stimulus_interrupt, hrise,
    hc.not_records, fun h => ?_⟩
  · obtain ⟨v, -, hv⟩ := h 7 IntNo.msi hr
    rw [hl] at hv
    exact absurd hv (by decide)
  · exact absurd (separate_iff.mp h 7 _ hr) (by decide)
  · exact absurd (separate_iff.mp h 8 _ hrise) (by decide)

end Attribution

end Core

end PuaCpu
