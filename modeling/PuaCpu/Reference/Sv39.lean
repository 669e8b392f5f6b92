import Mathlib.Data.List.FinRange
import PuaCpu.Reference.Bus

/-! # Address translation of the reference model

`rv_sv39`: a table walk over the bus and a translation buffer that is filled in
turn. Its assertions end the process.
-/

namespace PuaCpu

namespace Satp

variable (satp : Word)

def ppn : BitVec 44 := satp.extractLsb' 0 44
def asid : BitVec 16 := satp.extractLsb' 44 16
def mode : BitVec 4 := satp.extractLsb' 60 4

end Satp

namespace Pte

variable (pte : Word)

def v : Bool := pte.getLsbD 0
def r : Bool := pte.getLsbD 1
def w : Bool := pte.getLsbD 2
def x : Bool := pte.getLsbD 3
def u : Bool := pte.getLsbD 4
def g : Bool := pte.getLsbD 5
def a : Bool := pte.getLsbD 6
def d : Bool := pte.getLsbD 7
def ppn0 : BitVec 9 := pte.extractLsb' 10 9
def ppn1 : BitVec 9 := pte.extractLsb' 19 9
def ppn2 : BitVec 26 := pte.extractLsb' 28 26
def reserved : BitVec 7 := pte.extractLsb' 54 7
def pbmt : BitVec 2 := pte.extractLsb' 61 2

/-- The page or the table that an entry points to. -/
def addr : Word :=
  (((((ppn2 pte).setWidth 64 <<< 9) ||| (ppn1 pte).setWidth 64) <<< 9) |||
    (ppn0 pte).setWidth 64) <<< 12

end Pte

/-- `sv39_tlb_entry`; the page size is 0 for an invalid entry and counts the levels else. -/
structure TlbEntry where
  ppa : Word
  vpa : Word
  asid : BitVec 16
  pagesize : BitVec 8
  r : Bool
  w : Bool
  x : Bool
  u : Bool
  g : Bool
  a : Bool
  d : Bool
  deriving DecidableEq, Repr, Inhabited

namespace TlbEntry

/-- The mask of the page number, for a valid page size. -/
def pageMask (pagesize : BitVec 8) : Option Word :=
  if pagesize = 1 then some (-(1 <<< 12))
  else if pagesize = 2 then some (-(1 <<< 21))
  else if pagesize = 3 then some (-(1 <<< 30))
  else none

/-- Whether an entry translates an address. -/
def hit (e : TlbEntry) (satp va : Word) : Bool :=
  (e.asid == Satp.asid satp || e.g) &&
    (pageMask e.pagesize).any fun mask => (va &&& mask) == e.vpa

/-- The physical address under an entry. -/
def pa (e : TlbEntry) (va : Word) : Word :=
  e.ppa + va % (if e.pagesize = 1 then 1 <<< 12 else if e.pagesize = 2 then 1 <<< 21 else 1 <<< 30)

end TlbEntry

/-- `rv_sv39<n>` without the bus. -/
structure Sv39 (n : ℕ) where
  random : Fin n
  tlb : Fin n → TlbEntry

namespace Sv39

instance (n : ℕ) [NeZero n] : Inhabited (Sv39 n) := ⟨⟨0, fun _ => default⟩⟩

variable {n : ℕ} [NeZero n] {δ : Type} [MmioDev δ]

/-- The constructor, over uninitialised entries. -/
def init (t : Sv39 n) : Sv39 n where
  random := 0
  tlb i := { t.tlb i with pagesize := 0 }

def sfenceVma (t : Sv39 n) (vaddr asid : Word) : Sv39 n :=
  { t with tlb := fun i =>
      let e := t.tlb i
      if e.asid.setWidth 64 = asid ∨ asid = 0 then
        if vaddr = 0 then { e with pagesize := 0 }
        else if (TlbEntry.pageMask e.pagesize).any fun mask => (e.vpa &&& mask) == (vaddr &&& mask)
          then { e with pagesize := 0 }
        else e
      else e }

/-- `local_tlb_get`, which asserts that no second entry hits. -/
def localTlbGet (t : Sv39 n) (satp va : Word) : Outcome (Option (Fin n)) :=
  (List.finRange n).foldlM (fun res i =>
    if (t.tlb i).hit satp va then
      if res.isNone then .ok (some i) else .error (.abort .localTlbGet)
    else .ok res) none

/-- The virtual page number of a level. -/
def vpn (va : Word) (i : ℕ) : Word := (va.extractLsb' (12 + 9 * i) 9).setWidth 64

/-- The levels of `ptw` below `i`, with the leaf and its page size. -/
def ptwLevels (va : Word) : ℕ → Word → Systembus δ → Systembus δ × Option (Word × Word)
  | 0, _, b => (b, none)
  | i + 1, ptAddr, b =>
    match b.paRead (ptAddr + vpn va i * 8) 8 with
    | (b, none) => (b, none)
    | (b, some pte) =>
      if !Pte.v pte || (!Pte.r pte && Pte.w pte) || Pte.reserved pte != 0 || Pte.pbmt pte != 0 then
        (b, none)
      else if Pte.r pte || Pte.x pte then
        if (i = 2 ∧ (Pte.ppn1 pte ≠ 0 ∨ Pte.ppn0 pte ≠ 0)) ∨ (i = 1 ∧ Pte.ppn0 pte ≠ 0) then
          (b, none)
        else (b, some (pte, (1 <<< 12) <<< (9 * i)))
      else ptwLevels va i (Pte.addr pte) b

/-- `ptw`: the walk from the root. -/
def ptw (satp va : Word) (b : Systembus δ) : Systembus δ × Option (Word × Word) :=
  if Satp.mode satp ≠ 8 then (b, none) else ptwLevels va 3 ((Satp.ppn satp).setWidth 64 <<< 12) b

/-- The entry that a successful walk fills. -/
def refill (satp va pte pageSize : Word) : TlbEntry where
  ppa := Pte.addr pte
  vpa :=
    if pageSize = 1 <<< 12 then va - va % (1 <<< 12)
    else if pageSize = 1 <<< 21 then va - va % (1 <<< 21)
    else va - va % (1 <<< 30)
  asid := Satp.asid satp
  pagesize := if pageSize = 1 <<< 12 then 1 else if pageSize = 1 <<< 21 then 2 else 3
  r := Pte.r pte
  w := Pte.w pte
  x := Pte.x pte
  u := Pte.u pte
  g := Pte.g pte
  a := Pte.a pte
  d := Pte.d pte

/-- Whether the bits from 38 on are all equal. -/
def canonical (va : Word) : Bool :=
  (va.extractLsb' 39 25 == BitVec.allOnes 25 && va.getLsbD 38) ||
    (va.extractLsb' 39 25 == 0 && !va.getLsbD 38)

/-- `local_tlbe_get`; no entry is a page fault. -/
def localTlbeGet (t : Sv39 n) (b : Systembus δ) (satp va : Word) :
    Outcome (Sv39 n × Systembus δ × Option TlbEntry) := do
  if !canonical va then throw (Halt.abort .localTlbeGet)
  match ← t.localTlbGet satp va with
  | some i => return (t, b, some (t.tlb i))
  | none =>
    match ptw satp va b with
    | (b, none) => return (t, b, none)
    | (b, some (pte, pageSize)) =>
      let res := t.random
      let t : Sv39 n :=
        { random := t.random + 1, tlb := Function.update t.tlb res (refill satp va pte pageSize) }
      if (← t.localTlbGet satp va) ≠ some res then throw (Halt.abort .localTlbeGet)
      return (t, b, some (t.tlb res))

end Sv39

end PuaCpu
