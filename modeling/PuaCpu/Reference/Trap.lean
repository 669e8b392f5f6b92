import PuaCpu.Reference.Core

/-! # Raising a trap

`raise_trap` of a hart that has no trap pending, for a cause that is no page
fault of a fetch: its assertions hold, and outside `raised` only the members of
`rv_priv` that trap entry assigns change.
-/

namespace PuaCpu

namespace RvPriv

/-- The members after `raise_trap`. -/
def trapEntry (s : State) (cause : Cause) (tval : Word) : State :=
  let s := { s with curNeedTrap := true }
  if trapToS s cause then raiseTrapS s cause tval else raiseTrapM s cause tval

theorem trapEntry_curNeedTrap (s : State) (cause : Cause) (tval : Word) :
    (trapEntry s cause tval).curNeedTrap = true := by
  rw [trapEntry]
  split_ifs <;> rfl

theorem raiseTrap_eq {s : State} {cause : Cause} {tval : Word} (hn : s.curNeedTrap = false)
    (hc : cause.cause ≠ excInstrPgfault) :
    raiseTrap s cause tval = some (trapEntry s cause tval) := by
  rw [raiseTrap, hn, if_neg (by decide)]
  have h : (cause.cause == excInstrPgfault) = false := by simpa using hc
  simp only [h, Bool.false_and, Bool.false_eq_true, if_false]
  rfl

theorem exc_ne_pgfault {e : ExcNo} (h : e ≠ .instPageFault) :
    (Cause.exc e).cause ≠ excInstrPgfault := by
  revert h
  revert e
  decide

namespace Hart

variable {δ : Type}

/-- The hart after `raise_trap`. -/
def trapped (h : Hart δ) (cause : Cause) (tval : Word) : Hart δ :=
  { h with toState := trapEntry h.toState cause tval, raised := h.raised ++ [(cause, tval)] }

theorem raiseTrap_eq {h : Hart δ} {cause : Cause} {tval : Word} (hn : h.curNeedTrap = false)
    (hc : cause.cause ≠ excInstrPgfault) : h.raiseTrap cause tval = .ok (h.trapped cause tval) := by
  rw [raiseTrap, RvPriv.raiseTrap_eq hn hc]
  rfl

end Hart

end RvPriv

namespace RvCore.State

open RvPriv

variable {δ : Type} {s : State δ} {e : ExcNo} {tval : Word}

theorem raiseTrap_eq (hn : s.priv.curNeedTrap = false) (he : e ≠ .instPageFault) :
    s.raiseTrap (.exc e) tval = .ok (s.withPriv (s.priv.trapped (.exc e) tval)) := by
  rw [raiseTrap, Hart.raiseTrap_eq hn (exc_ne_pgfault he)]
  rfl

end RvCore.State

end PuaCpu
