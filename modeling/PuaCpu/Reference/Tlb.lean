import PuaCpu.Bits.Field
import PuaCpu.Caches.Tagged
import PuaCpu.Reference.Harness
import PuaCpu.Reference.Walk

/-! # The translation buffer

The buffer is a cache of table walks. Its entries are tagged by ASID, hold for
a page of one of three sizes, and are shared by all address spaces if they are
global. Software has to fence after it changes a translation.
-/

namespace PuaCpu

/-- What a walk and an entry of the buffer both say about a page. -/
structure Leaf where
  ppa : Word
  pageSize : Word
  r : Bool
  w : Bool
  x : Bool
  u : Bool
  g : Bool
  a : Bool
  d : Bool
  deriving DecidableEq, Repr

namespace Pte

/-- The leaf that a walk ends at. -/
def leaf (pte pageSize : Word) : Leaf :=
  ⟨addr pte, pageSize, r pte, w pte, x pte, u pte, g pte, a pte, d pte⟩

end Pte

namespace TlbEntry

def leaf (e : TlbEntry) : Leaf :=
  ⟨e.ppa, 8 <<< (9 * e.pagesize.toNat), e.r, e.w, e.x, e.u, e.g, e.a, e.d⟩

end TlbEntry

namespace Sv39

open Caches

variable {n : ℕ} {δ : Type} [MmioDev δ] {t : Sv39 n} {b : Systembus δ}
  {satp va va' pte pageSize ptAddr : Word} {i j : ℕ}

/-- What a fresh walk says about an address. -/
def walk (b : Systembus δ) (satp va : Word) : Option Leaf :=
  (ptw satp va b).2.map fun r => Pte.leaf r.1 r.2

section Page

/-- The size of the pages of a level. -/
def pageBytes (i : ℕ) : Word := 1#64 <<< (12 + 9 * i)

theorem vpn_congr (hj : i ≤ j) (h : va' &&& -pageBytes i = va &&& -pageBytes i) :
    vpn va' j = vpn va j := by
  have hbit (k : ℕ) (hk : 12 + 9 * i ≤ k) : va'.getLsbD k = va.getLsbD k := by
    by_cases h64 : k < 64
    · have hb := congrArg (·.getLsbD k) h
      simp only [pageBytes, BitVec.getLsbD_and, Bits.getLsbD_neg_shiftLeft, decide_eq_true hk,
        decide_eq_true h64, Bool.and_true] at hb
      exact hb
    · rw [BitVec.getLsbD_of_ge _ _ (by omega), BitVec.getLsbD_of_ge _ _ (by omega)]
  unfold vpn
  congr 1
  apply BitVec.eq_of_getLsbD_eq
  intro k hk
  rw [BitVec.getLsbD_extractLsb', BitVec.getLsbD_extractLsb', hbit _ (by omega)]

/-- A walk ends at the same leaf for all addresses of its page. -/
theorem ptwLevels_congr (hi : i ≤ 3) (h : (ptwLevels va i ptAddr b).2 = some (pte, pageSize)) :
    ∃ k < i, pageSize = pageBytes k ∧ ∀ va', va' &&& -pageBytes k = va &&& -pageBytes k →
      (ptwLevels va' i ptAddr b).2 = some (pte, pageSize) := by
  induction i generalizing ptAddr b with
  | zero => cases h
  | succ i ih =>
    have hsize : (((1 <<< 12) <<< (9 * i) : ℕ) : Word) = pageBytes i := by
      have h3 : i = 0 ∨ i = 1 ∨ i = 2 := by omega
      rcases h3 with rfl | rfl | rfl <;> rfl
    rw [ptwLevels] at h
    rcases hr : b.paRead (ptAddr + vpn va i * 8) 8 with ⟨b', _ | e⟩ <;> rw [hr] at h
    · cases h
    · simp only at h
      split_ifs at h with hv hl hs
      · obtain ⟨rfl, rfl⟩ := Prod.mk.inj (Option.some_inj.mp h)
        refine ⟨i, i.lt_succ_self, hsize, fun va' hp => ?_⟩
        rw [ptwLevels, vpn_congr le_rfl hp, hr]
        simp only [if_neg hv, if_pos hl, if_neg hs]
      · obtain ⟨k, hk, hp, hc⟩ := ih (by omega) h
        refine ⟨k, by omega, hp, fun va' hv' => ?_⟩
        rw [ptwLevels, vpn_congr hk.le hv', hr]
        simp only [if_neg hv, if_neg hl]
        exact hc va' hv'

theorem walk_eq_some {l : Leaf} (h : walk b satp va = some l) : ∃ pte, ∃ k < 3,
    (ptw satp va b).2 = some (pte, pageBytes k) ∧ l = Pte.leaf pte (pageBytes k) ∧
      ∀ va', va' &&& -pageBytes k = va &&& -pageBytes k → walk b satp va' = some l := by
  obtain ⟨⟨pte, pageSize⟩, hp, rfl⟩ := Option.map_eq_some_iff.mp h
  have hp' := hp
  unfold ptw at hp
  split_ifs at hp with hm
  obtain ⟨k, hk, rfl, hc⟩ := ptwLevels_congr le_rfl hp
  refine ⟨pte, k, hk, hp', rfl, fun va' hv => ?_⟩
  rw [walk, ptw, if_neg hm, hc va' hv]
  rfl

/-- The look-up as a scheme of a cache. -/
def scheme : Scheme Word (BitVec 16) Word Leaf Word where
  tag := Satp.asid
  page l va := va &&& -l.pageSize
  Shared l := l.g = true

end Page

section View

/-- An entry of the buffer as an entry of the scheme, if it is valid. -/
def entryOf (e : TlbEntry) : Option (Entry (BitVec 16) Leaf Word) :=
  (TlbEntry.pageMask e.pagesize).map fun _ => ⟨e.asid, e.leaf, e.vpa⟩

/-- The buffer as a cache. -/
def entries (t : Sv39 n) (i : Fin n) : Option (Entry (BitVec 16) Leaf Word) := entryOf (t.tlb i)

theorem pageMask_eq {pagesize : BitVec 8} {mask : Word}
    (h : TlbEntry.pageMask pagesize = some mask) : mask = -(8 <<< (9 * pagesize.toNat)) := by
  unfold TlbEntry.pageMask at h
  split_ifs at h with h₁ h₂ h₃
  · cases h
    subst h₁
    rfl
  · cases h
    subst h₂
    rfl
  · cases h
    subst h₃
    rfl

theorem hit_iff {e : TlbEntry} :
    e.hit satp va = true ↔ ∃ x, entryOf e = some x ∧ scheme.Hits x satp va := by
  unfold TlbEntry.hit entryOf
  rcases hm : TlbEntry.pageMask e.pagesize with _ | mask
  · simp
  · obtain rfl := pageMask_eq hm
    simp [Scheme.Hits, scheme, TlbEntry.leaf]

theorem leaf_of_entryOf {e : TlbEntry} {x : Entry (BitVec 16) Leaf Word} (h : entryOf e = some x) :
    e.leaf = x.val := by
  obtain ⟨mask, -, rfl⟩ := Option.map_eq_some_iff.mp h
  rfl

theorem entryOf_refill {k : ℕ} (hk : k < 3) : entryOf (refill satp va pte (pageBytes k)) =
    some (scheme.entry satp va (Pte.leaf pte (pageBytes k))) := by
  have h3 : k = 0 ∨ k = 1 ∨ k = 2 := by omega
  have hv : (refill satp va pte (pageBytes k)).vpa = va &&& -pageBytes k := by
    rcases h3 with rfl | rfl | rfl
    · exact Bits.sub_umod va (by decide)
    · exact Bits.sub_umod va (by decide)
    · exact Bits.sub_umod va (by decide)
  have he : entryOf (refill satp va pte (pageBytes k)) = some ⟨Satp.asid satp,
      Pte.leaf pte (pageBytes k), (refill satp va pte (pageBytes k)).vpa⟩ := by
    rcases h3 with rfl | rfl | rfl <;> rfl
  rw [he, hv]
  rfl

theorem entries_filled [NeZero n] {k : ℕ} (hk : k < 3) :
    (t.filled satp va pte (pageBytes k)).entries = Function.update t.entries t.random
      (some (scheme.entry satp va (Pte.leaf pte (pageBytes k)))) := by
  funext i
  rw [entries, filled, ← entryOf_refill hk]
  exact Function.apply_update (fun _ => entryOf) t.tlb t.random _ i

theorem fewer_sfenceVma (t : Sv39 n) (vaddr asid : Word) :
    Scheme.Fewer (t.sfenceVma vaddr asid).entries t.entries := by
  intro i e h
  unfold entries sfenceVma at h
  simp only at h
  split_ifs at h
  · cases h
  · cases h
  · exact h
  · exact h

theorem entries_sfenceVma (t : Sv39 n) (i : Fin n) : (t.sfenceVma 0 0).entries i = none := by
  unfold entries sfenceVma
  simp only [or_true, if_true]
  rfl

theorem entries_init [NeZero n] (t : Sv39 n) (i : Fin n) : t.init.entries i = none := rfl

end View

section Get

variable {i : Fin n}

/-- The body of the loop of `local_tlb_get`. -/
def scan (t : Sv39 n) (satp va : Word) (res : Option (Fin n)) (i : Fin n) :
    Outcome (Option (Fin n)) :=
  if (t.tlb i).hit satp va then
    if res.isNone then .ok (some i) else .error (.abort .localTlbGet)
  else .ok res

theorem localTlbGet_eq :
    t.localTlbGet satp va = (List.finRange n).foldlM (t.scan satp va) none := rfl

theorem foldlM_miss (l : List (Fin n)) (res : Option (Fin n))
    (h : ∀ j ∈ l, (t.tlb j).hit satp va = false) :
    l.foldlM (t.scan satp va) res = .ok res := by
  induction l with
  | nil => rfl
  | cons j l ih =>
    have hj : t.scan satp va res j = .ok res := by
      rw [scan, h j List.mem_cons_self, if_neg Bool.false_ne_true]
    rw [List.foldlM_cons, hj]
    exact ih fun j hj => h j (List.mem_cons_of_mem _ hj)

theorem localTlbGet_of_miss (h : ∀ i, (t.tlb i).hit satp va = false) :
    t.localTlbGet satp va = .ok none := foldlM_miss _ _ fun j _ => h j

/-- The assertion holds if no second entry hits. -/
theorem localTlbGet_of_hit (hi : (t.tlb i).hit satp va = true)
    (hu : ∀ j, (t.tlb j).hit satp va = true → j = i) : t.localTlbGet satp va = .ok (some i) := by
  obtain ⟨l, l', hl⟩ := List.append_of_mem (List.mem_finRange i)
  have hn : (l ++ i :: l').Nodup := hl ▸ List.nodup_finRange n
  obtain ⟨-, hn', hd⟩ := List.nodup_append.mp hn
  have hmiss (j : Fin n) (hj : j ≠ i) : (t.tlb j).hit satp va = false :=
    Bool.eq_false_iff.mpr fun h => hj (hu j h)
  have hscan : t.scan satp va none i = .ok (some i) := by
    rw [scan, hi, if_pos rfl]
    rfl
  rw [localTlbGet_eq, hl, List.foldlM_append,
    foldlM_miss l none fun j hj => hmiss j (hd j hj i List.mem_cons_self)]
  change (i :: l').foldlM (t.scan satp va) none = _
  rw [List.foldlM_cons, hscan]
  refine foldlM_miss l' (some i) fun j hj => hmiss j ?_
  rintro rfl
  exact (List.nodup_cons.mp hn').1 hj

end Get

section Step

variable {U : Set Word}

/-- The buffer says what fresh walks in the spaces in use say. -/
structure Sync (U : Set Word) (b : Systembus δ) (t : Sv39 n) : Prop where
  unique : scheme.Unique t.entries
  tagged : scheme.Tagged U t.entries
  agrees : scheme.Agrees U (walk b) t.entries

theorem hit_unique (hu : scheme.Unique t.entries) {i j : Fin n} (hi : (t.tlb i).hit satp va = true)
    (hj : (t.tlb j).hit satp va = true) : i = j := by
  obtain ⟨x, hx, hh⟩ := hit_iff.mp hi
  obtain ⟨x', hx', hh'⟩ := hit_iff.mp hj
  exact hu hx hx' hh hh'

variable [NeZero n]

theorem Sync.filled (h : Sync U b t) (hs : scheme.Source U (walk b)) (hU : satp ∈ U) {k : ℕ}
    (hk : k < 3) (hw : walk b satp va = some (Pte.leaf pte (pageBytes k)))
    (hm : ∀ i e, t.entries i = some e → ¬ scheme.Hits e satp va) :
    Sync U b (t.filled satp va pte (pageBytes k)) := by
  have he : (t.filled satp va pte (pageBytes k)).entries = _ := entries_filled hk
  refine ⟨?_, ?_, ?_⟩ <;> rw [he]
  · exact h.unique.fill hs h.tagged h.agrees hU hw hm
  · exact h.tagged.fill hU
  · exact h.agrees.fill hs hU hw

/-- What the buffer holds for an address is what a fresh walk says. -/
structure Coherent (t : Sv39 n) (b : Systembus δ) (satp va : Word) : Prop where
  unique : ∀ i j, (t.tlb i).hit satp va = true → (t.tlb j).hit satp va = true → i = j
  agrees : ∀ i, (t.tlb i).hit satp va = true → walk b satp va = some (t.tlb i).leaf

omit [NeZero n] in
theorem Sync.coherent (h : Sync U b t) (hU : satp ∈ U) : Coherent t b satp va where
  unique _ _ := hit_unique h.unique
  agrees i hi := by
    obtain ⟨x, hx, hh⟩ := hit_iff.mp hi
    rw [h.agrees hx hU hh, leaf_of_entryOf hx]

/-- A miss that a walk fills. -/
structure Fills (t : Sv39 n) (b : Systembus δ) (satp va : Word) (t' : Sv39 n) : Prop where
  miss : ∀ i, (t.tlb i).hit satp va = false
  walk : ∃ pte, ∃ k < 3, walk b satp va = some (Pte.leaf pte (pageBytes k)) ∧
    t' = t.filled satp va pte (pageBytes k)

/-- A look-up in a coherent buffer returns what a fresh walk says. -/
theorem Coherent.lookup (h : Coherent t b satp va) : ∃ t' b' e, Lookup t b satp va t' b' e ∧
    e.map TlbEntry.leaf = walk b satp va ∧ (∀ x ∈ e, x.hit satp va = true) ∧
      (t' = t ∨ Fills t b satp va t') := by
  by_cases hit : ∃ i, (t.tlb i).hit satp va = true
  · obtain ⟨i, hi⟩ := hit
    have hg := localTlbGet_of_hit hi fun j hj => h.unique j i hj hi
    refine ⟨t, b, _, .hit hg, (h.agrees i hi).symm, ?_, .inl rfl⟩
    rintro x ⟨⟩
    exact hi
  have hmiss (i : Fin n) : (t.tlb i).hit satp va = false :=
    Bool.eq_false_iff.mpr fun hi => hit ⟨i, hi⟩
  have hg : t.localTlbGet satp va = .ok none := localTlbGet_of_miss hmiss
  rcases hw : walk b satp va with _ | l
  · exact ⟨t, _, none, .fail hg (Option.map_eq_none_iff.mp hw), rfl, nofun, .inl rfl⟩
  obtain ⟨pte, k, hk, hpt, rfl, -⟩ := walk_eq_some hw
  have hnew : (refill satp va pte (pageBytes k)).hit satp va = true :=
    hit_iff.mpr ⟨_, entryOf_refill hk, Scheme.hits_entry⟩
  have htlb : (t.filled satp va pte (pageBytes k)).tlb =
    Function.update t.tlb t.random (refill satp va pte (pageBytes k)) := rfl
  have hr : (t.filled satp va pte (pageBytes k)).localTlbGet satp va = .ok (some t.random) := by
    refine localTlbGet_of_hit ?_ fun j hj => ?_
    · rwa [htlb, Function.update_self]
    · by_contra hne
      rw [htlb, Function.update_of_ne hne, hmiss j] at hj
      cases hj
  refine ⟨_, _, _, .fill hg hpt hr, ?_, ?_, .inr ⟨hmiss, pte, k, hk, hw, rfl⟩⟩
  · exact congrArg some (leaf_of_entryOf (entryOf_refill hk))
  · rintro x ⟨⟩
    exact hnew

/-- A look-up returns what a fresh walk says, and refills the buffer in step. -/
theorem Sync.localTlbeGet (h : Sync U b t) (hp : PureReads δ) (hs : scheme.Source U (walk b))
    (hU : satp ∈ U) (hc : canonical va = true) : ∃ t' e,
      t.localTlbeGet b satp va = .ok (t', b, e) ∧ e.map TlbEntry.leaf = walk b satp va ∧
        Sync U b t' := by
  obtain ⟨t', b', e, hl, he, -, ht⟩ := (h.coherent hU : Coherent t b satp va).lookup
  have hg := hl.localTlbeGet hc
  obtain rfl : b' = b := localTlbeGet_bus hp hg
  refine ⟨t', e, hg, he, ?_⟩
  rcases ht with rfl | ⟨hmiss, pte, k, hk, hw, rfl⟩
  · exact h
  · refine h.filled hs hU hk hw fun i e he hh => ?_
    have hi : (t.tlb i).hit satp va = true := hit_iff.mpr ⟨e, he, hh⟩
    rw [hmiss i] at hi
    cases hi

end Step

section Run

/-- What happens to the buffer, and to the memory behind it. -/
inductive Event (δ : Type)
  | lookup (satp va : Word)
  | sfence (vaddr asid : Word)
  | memory (b : Systembus δ)

variable {ev : ℕ → Event δ} {k : ℕ}

def step [NeZero n] (s : Sv39 n × Systembus δ) :
    Event δ → Outcome ((Sv39 n × Systembus δ) × Option TlbEntry)
  | .lookup satp va => (s.1.localTlbeGet s.2 satp va).map fun r => ((r.1, r.2.1), r.2.2)
  | .sfence vaddr asid => .ok ((s.1.sfenceVma vaddr asid, s.2), none)
  | .memory b => .ok ((s.1, b), none)

/-- The state after some events, if no assertion has failed. -/
def run [NeZero n] (s : Sv39 n × Systembus δ) (ev : ℕ → Event δ) :
    ℕ → Outcome (Sv39 n × Systembus δ)
  | 0 => .ok s
  | k + 1 => run s ev k >>= fun s => (step s (ev k)).map Prod.fst

/-- The bus that an event leaves, where look-ups leave it alone. -/
def busAfter (b : Systembus δ) : Event δ → Systembus δ
  | .memory b' => b'
  | _ => b

def busAt (b : Systembus δ) (ev : ℕ → Event δ) : ℕ → Systembus δ
  | 0 => b
  | k + 1 => busAfter (busAt b ev k) (ev k)

/-- The values of `satp` that are used. -/
def Used (ev : ℕ → Event δ) : Set Word := {satp | ∃ k va, ev k = .lookup satp va}

/-- An event that changes the translation of an address in use. -/
def Remaps (b : Systembus δ) (ev : ℕ → Event δ) (k : ℕ) : Prop :=
  ∃ satp ∈ Used ev, walk (busAt b ev k) satp ≠ walk (busAt b ev (k + 1)) satp

/-- Every change of a translation has been followed by a full fence. -/
def Settled (b : Systembus δ) (ev : ℕ → Event δ) (k : ℕ) : Prop :=
  ∀ j < k, Remaps b ev j → ∃ w, j < w ∧ w < k ∧ ev w = .sfence 0 0

/-- The use of the buffer that software has to keep to. -/
structure Disciplined (b : Systembus δ) (ev : ℕ → Event δ) : Prop where
  canonical : ∀ k satp va, ev k = .lookup satp va → canonical va = true
  root : ∀ satp ∈ Used ev, ∀ satp' ∈ Used ev, Satp.asid satp = Satp.asid satp' →
    Satp.mode satp = Satp.mode satp' ∧ Satp.ppn satp = Satp.ppn satp'
  global : ∀ k satp va, ev k = .lookup satp va → ∀ satp₁ ∈ Used ev, ∀ satp₂ ∈ Used ev, ∀ va l,
    walk (busAt b ev k) satp₁ va = some l → l.g = true → walk (busAt b ev k) satp₂ va = some l
  fence : ∀ k satp va, ev k = .lookup satp va → Settled b ev k

theorem Disciplined.source (hd : Disciplined b ev) (hk : ev k = .lookup satp va) :
    scheme.Source (Used ev) (walk (busAt b ev k)) where
  uniform := fun s a a' v h hv => by
    obtain ⟨pte, j, -, -, rfl, hc⟩ := walk_eq_some h
    exact hc a' hv
  tag := fun s s' hs hs' ht => by
    obtain ⟨hm, hp⟩ := hd.root s hs s' hs' ht
    funext a
    rw [walk, walk, ptw, ptw, hm, hp]
  shared := fun s s' a v hs hs' hg h => hd.global k satp va hk s hs s' hs' a v h hg

/-- What every run keeps of the buffer. -/
structure Kept (b : Systembus δ) (ev : ℕ → Event δ) (k : ℕ) (t : Sv39 n) : Prop where
  unique : scheme.Unique t.entries
  tagged : scheme.Tagged (Used ev) t.entries
  agrees : Settled b ev k → scheme.Agrees (Used ev) (walk (busAt b ev k)) t.entries

/-- Until the full fence, nothing has been changed that has not been fenced. -/
theorem Kept.agrees_succ (h : Kept b ev k t) (hk : ev k ≠ .sfence 0 0)
    (hs : Settled b ev (k + 1)) :
    scheme.Agrees (Used ev) (walk (busAt b ev (k + 1))) t.entries := by
  have hset : Settled b ev k := by
    intro j hj hr
    obtain ⟨w, hjw, hw, he⟩ := hs j (by omega) hr
    have hne : w ≠ k := by
      rintro rfl
      exact hk he
    exact ⟨w, hjw, by omega, he⟩
  refine (h.agrees hset).congr fun satp hU => ?_
  by_contra hne
  obtain ⟨w, hkw, hw, -⟩ := hs k (by omega) ⟨satp, hU, hne⟩
  omega

theorem Kept.sync (h : Kept b ev k t) (hd : Disciplined b ev) (hk : ev k = .lookup satp va) :
    Sync (Used ev) (busAt b ev k) t := ⟨h.unique, h.tagged, h.agrees (hd.fence k satp va hk)⟩

theorem Kept.step [NeZero n] (h : Kept b ev k t) (hp : PureReads δ) (hd : Disciplined b ev) :
    ∃ t' e, step (t, busAt b ev k) (ev k) = .ok ((t', busAt b ev (k + 1)), e) ∧
      Kept b ev (k + 1) t' := by
  have hb : busAt b ev (k + 1) = busAfter (busAt b ev k) (ev k) := rfl
  rcases hk : ev k with ⟨satp, va⟩ | ⟨vaddr, asid⟩ | b'
  · obtain ⟨t', e, hl, -, hs⟩ :=
      (h.sync hd hk).localTlbeGet hp (hd.source hk) ⟨k, va, hk⟩ (hd.canonical k satp va hk)
    rw [hk] at hb
    refine ⟨t', e, ?_, hs.unique, hs.tagged, fun _ => ?_⟩
    · rw [Sv39.step, hl, hb]
      rfl
    · rw [hb]
      exact hs.agrees
  · have hf := fewer_sfenceVma t vaddr asid
    refine ⟨t.sfenceVma vaddr asid, none, ?_, h.unique.fewer hf, h.tagged.fewer hf, fun hs => ?_⟩
    · rw [hb, hk]
      rfl
    by_cases hz : ev k = .sfence 0 0
    · obtain ⟨rfl, rfl⟩ := Event.sfence.inj (hk.symm.trans hz)
      intro i e s a he
      rw [entries_sfenceVma] at he
      cases he
    · exact (h.agrees_succ hz hs).fewer hf
  · refine ⟨t, none, ?_, h.unique, h.tagged, h.agrees_succ fun hz => ?_⟩
    · rw [hb, hk]
      rfl
    · cases hk.symm.trans hz

theorem kept_init [NeZero n] (t : Sv39 n) : Kept b ev 0 t.init := by
  have hno {i : Fin n} {e : Entry (BitVec 16) Leaf Word} (h : t.init.entries i = some e) :
      False := by
    rw [entries_init] at h
    cases h
  exact ⟨fun _ _ _ _ _ _ h => (hno h).elim, fun _ _ h => (hno h).elim,
    fun _ _ _ _ _ h => (hno h).elim⟩

theorem run_kept [NeZero n] (hp : PureReads δ) (hd : Disciplined b ev) (t : Sv39 n) (k : ℕ) :
    ∃ t', run (t.init, b) ev k = .ok (t', busAt b ev k) ∧ Kept b ev k t' := by
  induction k with
  | zero => exact ⟨t.init, rfl, kept_init t⟩
  | succ k ih =>
    obtain ⟨t₁, hr, hk⟩ := ih
    obtain ⟨t₂, e, hs, hk'⟩ := hk.step hp hd
    refine ⟨t₂, ?_, hk'⟩
    rw [run, hr]
    change (Sv39.step (t₁, busAt b ev k) (ev k)).map Prod.fst = _
    rw [hs]
    rfl

theorem run_coherent [NeZero n] (hp : PureReads δ) (hd : Disciplined b ev) (t : Sv39 n)
    (he : ev k = .lookup satp va) : ∃ t', run (t.init, b) ev k = .ok (t', busAt b ev k) ∧
      Coherent t' (busAt b ev k) satp va := by
  obtain ⟨t', hr, hk⟩ := run_kept hp hd t k
  exact ⟨t', hr, (hk.sync hd he).coherent ⟨k, va, he⟩⟩

/-- A memory whose first entry maps the first gigabyte to the memory itself. -/
def tableBus : Systembus MmioMem :=
  RvCore.Test.bus (fun a => if a = 0 then 0xcf else if a = 3 then 0x20 else 0) default

/-- The memory with its table cleared. -/
def clearedBus : Systembus MmioMem := RvCore.Test.bus (fun _ => 0) default

def tableSatp : Word := 0x8000000000080000

/-- The table is cleared between look-ups, and fenced. -/
def remapEvents (k : ℕ) : Event MmioMem :=
  [.lookup tableSatp 0x1000, .memory clearedBus, .sfence 0 0].getD k (.lookup tableSatp 0x1000)

theorem lookup_remapEvents (h : remapEvents k = .lookup satp va) :
    satp = tableSatp ∧ va = 0x1000 ∧ k ≠ 1 ∧ k ≠ 2 := by
  rcases k with _ | _ | _ | k
  · cases h
    exact ⟨rfl, rfl, by decide, by decide⟩
  · cases h
  · cases h
  · cases h
    exact ⟨rfl, rfl, by omega, by omega⟩

theorem remaps_remapEvents (h : Remaps tableBus remapEvents k) : k = 1 := by
  obtain ⟨satp, -, hne⟩ := h
  rcases k with _ | _ | _ | k
  · exact absurd rfl hne
  · rfl
  · exact absurd rfl hne
  · exact absurd rfl hne

theorem disciplined_remapEvents : Disciplined tableBus remapEvents where
  canonical k satp va h := by
    obtain ⟨-, rfl, -⟩ := lookup_remapEvents h
    decide
  root satp h satp' h' _ := by
    obtain ⟨k, va, h⟩ := h
    obtain ⟨k', va', h'⟩ := h'
    rw [(lookup_remapEvents h).1, (lookup_remapEvents h').1]
    exact ⟨rfl, rfl⟩
  global k satp va _ satp₁ h₁ satp₂ h₂ va' l hl _ := by
    obtain ⟨k₁, va₁, h₁⟩ := h₁
    obtain ⟨k₂, va₂, h₂⟩ := h₂
    rwa [(lookup_remapEvents h₂).1, ← (lookup_remapEvents h₁).1]
  fence k satp va h j hj hr := by
    obtain rfl := remaps_remapEvents hr
    obtain ⟨-, -, -, h2⟩ := lookup_remapEvents h
    exact ⟨2, by omega, by omega, rfl⟩

end Run

end Sv39

end PuaCpu
