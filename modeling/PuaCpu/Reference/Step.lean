import PuaCpu.Reference.Invariant

/-! # A step of the reference model

A step fetches an instruction or raises a trap, executes the instruction and
leaves through the label `exception`. It ends with one trap that changed nothing
before it, or with a completed instruction, unless the process ends.
-/

namespace PuaCpu

namespace RvPriv

/-- The members of `rv_priv` when an instruction is fetched: outside the difftest mode `pre_exec`
has sampled the lines. -/
inductive Sampled (l : Lines) (s : State) : State → Prop
  | kept : Sampled l s s
  | sampled : Sampled l s (preExec { s with mcycle := s.mcycle + 1, ip := sampleIp s.ip l })

/-- An interrupt number apart from the code of a page fault. -/
abbrev NotPgfault (i : Word) : Prop := i.setWidth 63 ≠ excInstrPgfault

theorem int2index_notPgfault (m : Word) : NotPgfault (int2index m) := by
  unfold int2index
  repeat' refine iteInduction (motive := NotPgfault) (fun _ => ?_) fun _ => ?_
  all_goals decide

theorem finalIntIndex_notPgfault (s : State) : NotPgfault (finalIntIndex s) := by
  have hi (c : Prop) [Decidable c] (m : Word) :
      NotPgfault (if c then int2index m else excCustomOk) :=
    iteInduction (fun _ => int2index_notPgfault m) fun _ => by decide
  exact iteInduction (fun _ => hi _ _) fun _ => iteInduction (fun _ => hi _ _) fun _ => hi _ _

namespace Hart

variable {δ : Type} {h : Hart δ} {l : Lines}

theorem checkAndRaiseInt_cases (hn : h.curNeedTrap = false) : h.checkAndRaiseInt = .ok h ∨
    ∃ cause, cause.cause ≠ excInstrPgfault ∧ h.checkAndRaiseInt = .ok (h.trapped cause 0) := by
  rw [checkAndRaiseInt]
  split_ifs with hi
  · right
    exact ⟨_, finalIntIndex_notPgfault _, raiseTrap_eq hn (finalIntIndex_notPgfault _)⟩
  · exact .inl rfl

theorem Inv.sampled (hi : h.Inv) {t : RvPriv.State} (ht : Sampled l h.toState t)
    (b : Systembus δ) (r : List (Cause × Word)) :
    Inv { h with toState := t, bus := b, raised := r } := by
  cases ht with
  | kept => exact ⟨hi.satp, hi.medeleg, hi.mideleg, hi.curPriv, hi.nextPriv, hi.status⟩
  | sampled => exact ⟨hi.satp, hi.medeleg, hi.mideleg, hi.nextPriv, hi.nextPriv, hi.status⟩

theorem postExec_eq (hi : StatusInv h.status) : h.postExec = .ok { h with
    toState := { h.toState with curNeedTrap := false }
    minstret := if h.curNeedTrap then h.minstret else h.minstret + 1 } := by
  have hz : blanks.all (fun f => h.status.extractLsb' f.1 f.2 == 0#f.2) = true := by
    rw [List.all_eq_true]
    intro f hf
    simpa using hi.zero f (List.mem_cons_of_mem _ (List.mem_cons_of_mem _ hf))
  rw [postExec]
  cases hn : h.curNeedTrap with
  | false => simp [hz]
  | true => simp [hz]

end Hart

end RvPriv

namespace RvCore.State

open RvPriv

variable {δ : Type}

/-- The core at the label `decode_exec`, except for the members that the instruction assigns. -/
def entered (s : State δ) (t : RvPriv.State) (b : Systembus δ) : State δ :=
  s.start.withPriv { s.priv with toState := t, bus := b, raised := [] }

/-- The core after `post_exec`. -/
def retire (s : State δ) (npc : Word) : State δ :=
  s.withPriv { s.priv with
    toState := { s.priv.toState with curPc := npc, curNeedTrap := false }
    minstret := if s.priv.curNeedTrap then s.priv.minstret else s.priv.minstret + 1 }

/-- A trap at this instruction, up to the end of the step. -/
def trapped (s : State δ) (cause : Cause) (tval : Word) : State δ :=
  (s.withPriv (s.priv.trapped cause tval)).retire (s.priv.trapped cause tval).trapPc

/-- What holds of the core between two steps. -/
structure Inv (s : State δ) : Prop where
  priv : s.priv.Inv
  curNeedTrap : s.priv.curNeedTrap = false

variable [MmioDev δ]

/-- How the fetch ends. -/
inductive Fetch (l : Lines) (s : State δ) : Outcome (State δ × Option RvInstr) → Prop
  | trap {t : RvPriv.State} {b : Systembus δ} (ht : Sampled l s.priv.toState t)
    (hb : s.priv.bus.Idle b) (cause : Cause) (tval : Word) (hc : cause.cause ≠ excInstrPgfault) :
    Fetch l s (.ok (s.withPriv ({ s.priv with toState := t, bus := b }.trapped cause tval), none))
  | inst {t : RvPriv.State} {b : Systembus δ} (ht : Sampled l s.priv.toState t)
    (hb : s.priv.bus.Idle b) (inst : RvInstr) :
    Fetch l s (.ok (s.withPriv { s.priv with toState := t, bus := b }, some inst))

/-- The instruction at `pc` is a permitted write of `mtvec` with a reserved mode. -/
def FetchesReserved (s : State δ) (l : Lines) : Prop :=
  ∃ s' inst, s.start.instrFetch l = .ok (s', some inst) ∧ s'.ReservedMtvec inst

/-- How a step ends. -/
inductive Ends (cfg : Config) (l : Lines) (s : State δ) : Outcome (State δ) → Prop
  | exit (code : ℕ) : Ends cfg l s (.error (.exit code))
  | mtvec (h : s.FetchesReserved l) : Ends cfg l s (.error (.abort .csrWrite))
  | trap {t : RvPriv.State} {b : Systembus δ} (ht : Sampled l s.priv.toState t)
    (hb : s.priv.bus.Idle b) (inst : RvInstr) (isBranch : Bool) (cause : Cause) (tval : Word) :
    Ends cfg l s (.ok ({ s.entered t b with
      debugInst := inst, debugIsBranch := isBranch }.trapped cause tval))
  | complete {t : RvPriv.State} {b : Systembus δ} (ht : Sampled l s.priv.toState t)
    (hb : s.priv.bus.Idle b) {s' : State δ} (hs : (s.entered t b).Sets s')
    (hp : HartStep cfg (s.entered t b).priv s'.priv) (npc : Word) :
    Ends cfg l s (.ok (s'.retire npc))

variable {cfg : Config} {l : Lines} {s s' : State δ} {inst : RvInstr}

theorem vaIf_cases {h : Hart δ} (hm : Satp.mode h.satp = 0) {a : Word} (ha : a % pcAlign = 0) :
    ∃ b, h.bus.Idle b ∧ (h.vaIf a 4 = .ok ({ h with bus := b }, .error (.instAccessFault, a)) ∨
      ∃ v, h.vaIf a 4 = .ok ({ h with bus := b }, .ok v)) := by
  have h2 : ¬ ((4 : Word) = 4 ∧ a % 4 = 2) := by
    rintro ⟨-, h⟩
    exact absurd (ha.symm.trans h) (by decide)
  have hp : h.vaIfPart a 4 = .ok (Hart.orFault .instAccessFault (h.withBus (h.bus.paRead a 4))) :=
    if_pos (.inr hm)
  have hb := Systembus.idle_paRead h.bus a 4
  rw [Hart.vaIf, if_neg h2, hp]
  generalize h.bus.paRead a 4 = r at hb ⊢
  rcases r with ⟨b, _ | v⟩
  · exact ⟨b, hb, .inl rfl⟩
  · exact ⟨b, hb, .inr ⟨v, rfl⟩⟩

theorem vaIf_fetch {t : RvPriv.State} (ht : Sampled l s.priv.toState t) (hn : t.curNeedTrap = false)
    (hm : Satp.mode s.priv.satp = 0) (ha : t.curPc % pcAlign = 0) : Fetch l s (do
      match ← { s.priv with toState := t }.vaIf t.curPc 4 with
      | (h, .ok curInstr) => return (s.withPriv h, some (curInstr.setWidth 32))
      | (h, .error (e, badVa)) => return (← (s.withPriv h).raiseTrap (.exc e) badVa, none)) := by
  obtain ⟨b, hb, h | ⟨v, h⟩⟩ := vaIf_cases (h := { s.priv with toState := t }) hm ha
  · rw [h]
    change Fetch l s (do
      return (← (s.withPriv { s.priv with toState := t, bus := b }).raiseTrap
        (.exc .instAccessFault) t.curPc, none))
    rw [raiseTrap_eq hn (by decide)]
    exact .trap ht hb _ _ (exc_ne_pgfault (by decide))
  · rw [h]
    exact .inst ht hb _

theorem instrFetch_fetch (hn : s.priv.curNeedTrap = false) (hm : Satp.mode s.priv.satp = 0) :
    Fetch l s (s.instrFetch l) := by
  -- the code behind the interrupt check
  have hk {t : RvPriv.State} (ht : Sampled l s.priv.toState t) (hn : t.curNeedTrap = false)
      {r : Outcome (Hart δ)} (hr : r = .ok { s.priv with toState := t } ∨ ∃ cause,
        cause.cause ≠ excInstrPgfault ∧ r = .ok ({ s.priv with toState := t }.trapped cause 0)) :
      Fetch l s (do
        let h ← r
        let s := s.withPriv h
        if h.curNeedTrap then return (s, none)
        else if s.pc % pcAlign ≠ 0 then
          return (← s.raiseTrap (.exc .instAddrMisaligned) s.pc, none)
        else
          match ← h.vaIf s.pc 4 with
          | (h, .ok curInstr) => return (s.withPriv h, some (curInstr.setWidth 32))
          | (h, .error (e, badVa)) =>
            return (← (s.withPriv h).raiseTrap (.exc e) badVa, none)) := by
    rcases hr with rfl | ⟨cause, hc, rfl⟩
    · refine iteInduction (fun h => absurd (hn.symm.trans h) (by decide)) fun _ => ?_
      refine iteInduction (fun _ => ?_) fun ha => vaIf_fetch ht hn hm (not_not.mp ha)
      rw [raiseTrap_eq hn (by decide)]
      exact .trap ht (.refl _) _ _ (exc_ne_pgfault (by decide))
    · refine iteInduction (fun _ => .trap ht (.refl _) cause 0 hc) fun h => ?_
      exact absurd (trapEntry_curNeedTrap t cause 0) h
  rw [instrFetch]
  refine iteInduction (fun _ => hk .sampled rfl (Hart.checkAndRaiseInt_cases rfl)) fun _ => ?_
  refine iteInduction (fun _ => hk .kept hn (Hart.checkAndRaiseInt_cases hn)) fun _ => ?_
  exact hk .kept hn (.inl rfl)

section Exception

omit [MmioDev δ]

theorem exception_eq {newPc : Bool} (hi : StatusInv s.priv.status) :
    exception inst ⟨s, false, newPc⟩ = .ok (s.retire (if s.priv.curNeedTrap then s.priv.trapPc
      else if newPc then s.pc else s.pc + if isRvc inst then 2 else 4)) := by
  have hp (npc : Word) :
      (do return (s.jump npc).withPriv (← (s.jump npc).priv.postExec)) = .ok (s.retire npc) := by
    rw [Hart.postExec_eq (h := (s.jump npc).priv) hi]
    rfl
  change (do
    let s := if s.priv.curNeedTrap then s.jump s.priv.trapPc
      else if newPc then s else s.jump (s.pc + if isRvc inst then 2 else 4)
    return s.withPriv (← s.priv.postExec)) = _
  cases s.priv.curNeedTrap with
  | true => exact hp _
  | false =>
    cases newPc with
    | true => exact hp s.pc
    | false => exact hp _

theorem exception_trapped {cause : Cause} {tval : Word} {newPc : Bool} (hi : s.priv.Inv) :
    exception inst ⟨s.withPriv (s.priv.trapped cause tval), false, newPc⟩ =
      .ok (s.trapped cause tval) := by
  have hn : (s.withPriv (s.priv.trapped cause tval)).priv.curNeedTrap = true :=
    trapEntry_curNeedTrap ..
  rw [exception_eq (hi.trapped cause tval).status, if_pos hn]
  rfl

theorem exception_illegal (hi : s.Inv) :
    exception inst s.illegal = .ok (s.trapped (.exc .illegalInst) (inst.setWidth 64)) := by
  have h : exception inst ⟨_, false, false⟩ =
      .ok (s.trapped (.exc .illegalInst) (inst.setWidth 64)) := exception_trapped hi.priv
  rw [← h, exception, exception]
  change (do let s ← s.raiseTrap _ _; _) = _
  rw [raiseTrap_eq hi.curNeedTrap (by decide)]
  rfl

end Exception

omit [MmioDev δ] in
theorem Inv.entered (hi : s.Inv) {t : RvPriv.State} (ht : Sampled l s.priv.toState t)
    (b : Systembus δ) : (s.entered t b).Inv := by
  refine ⟨hi.priv.sampled ht b [], ?_⟩
  cases ht with
  | kept => exact hi.curNeedTrap
  | sampled => rfl

theorem Ends.of_eq {r r' : Outcome (State δ)} (h : r = r') (he : Ends cfg l s r') :
    Ends cfg l s r := h ▸ he

/-- Every step ends in one of these ways. -/
theorem step_ends (hi : s.Inv) : Ends cfg l s (s.step cfg l) := by
  refine iteInduction (fun _ => .exit 1) fun _ => ?_
  have hf : Fetch l s.start (s.start.instrFetch l) := instrFetch_fetch hi.curNeedTrap hi.priv.mode
  generalize hr : s.start.instrFetch l = r at hf ⊢
  cases hf with
  | @trap t b ht hb cause tval hc =>
    have ht : Sampled l s.priv.toState t := ht
    exact .of_eq (exception_trapped (s := s.entered t b) (hi.priv.sampled ht b []))
      (.trap ht hb s.debugInst false cause tval)
  | @inst t b ht hb inst =>
    have ht : Sampled l s.priv.toState t := ht
    have hp := hi.entered ht b
    have he : Effect cfg inst _ _ := decodeExec_effect hp.curNeedTrap hp.priv.mode
    change Ends cfg l s (do exception inst (← (s.entered t b).decodeExec inst cfg))
    generalize (s.entered t b).decodeExec inst cfg = r at he ⊢
    cases he with
    | exit code => exact .exit code
    | mtvec h => exact .mtvec ⟨_, inst, hr, h⟩
    | @illegal s' h =>
      obtain ⟨b', i, br, hb', rfl⟩ := h
      have hi' : Inv { s.entered t b' with debugInst := i, debugIsBranch := br } :=
        ⟨hi.priv.sampled ht b' [], hp.curNeedTrap⟩
      exact .of_eq (exception_illegal hi') (.trap ht (hb.trans hb') i br _ _)
    | @trap s' h cause tval newPc hc =>
      obtain ⟨b', i, br, hb', rfl⟩ := h
      exact .of_eq (exception_trapped (s := { s.entered t b' with
        debugInst := i, debugIsBranch := br }) (hi.priv.sampled ht b' []))
        (.trap ht (hb.trans hb') i br cause tval)
    | @complete s' newPc hs hh =>
      exact .of_eq (exception_eq (hp.priv.step hh).status) (.complete ht hb hs hh _)

end RvCore.State

end PuaCpu
