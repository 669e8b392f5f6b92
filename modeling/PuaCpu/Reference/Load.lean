import PuaCpu.Reference.Aligned
import PuaCpu.Reference.Tlb

/-! # The permission of translated loads

`va_read` and `va_lr` check the leaf of an address by hand. The check turns the
bit that makes executable pages readable around, and reports a user page that
supervisor mode may not touch as an access fault.
-/

namespace PuaCpu

namespace Sv39

variable {n : ℕ} {δ : Type} [MmioDev δ] {b : Systembus δ} {satp va : Word} {l : Leaf}

theorem walk_leaf (h : walk b satp va = some l) : l.r = true ∨ l.x = true := by
  have hlevels (i : ℕ) (ptAddr : Word) (b : Systembus δ) {r : Word × Word}
      (h : (ptwLevels va i ptAddr b).2 = some r) : Pte.r r.1 = true ∨ Pte.x r.1 = true := by
    induction i generalizing ptAddr b with
    | zero => cases h
    | succ i ih =>
      rw [ptwLevels] at h
      rcases hr : b.paRead (ptAddr + vpn va i * 8) 8 with ⟨b', _ | pte⟩ <;> rw [hr] at h
      · cases h
      · simp only at h
        split_ifs at h with _ hl
        · cases h
          simpa using hl
        · exact ih _ _ h
  obtain ⟨⟨pte, pageSize⟩, hp, rfl⟩ := Option.map_eq_some_iff.mp h
  unfold ptw at hp
  split_ifs at hp
  exact hlevels _ _ _ hp

theorem pa_eq {e : TlbEntry} (h : e.hit satp va = true) :
    e.pa va = e.leaf.ppa + va % e.leaf.pageSize := by
  have hs : e.pagesize = 1 ∨ e.pagesize = 2 ∨ e.pagesize = 3 := by
    simp only [TlbEntry.hit, TlbEntry.pageMask, Bool.and_eq_true] at h
    have hm := h.2
    split_ifs at hm with h1 h2 h3
    · exact .inl h1
    · exact .inr (.inl h2)
    · exact .inr (.inr h3)
    · cases hm
  unfold TlbEntry.pa TlbEntry.leaf
  rcases hs with hs | hs | hs <;> rw [hs] <;> rfl

theorem coherent_init [NeZero n] (t : Sv39 n) : Coherent t.init b satp va := by
  have hno (i : Fin n) : (t.init.tlb i).hit satp va ≠ true := by
    intro h
    obtain ⟨x, hx, -⟩ := hit_iff.mp h
    cases hx
  exact ⟨fun i _ h => absurd h (hno i), fun i h => absurd h (hno i)⟩

end Sv39

namespace RvPriv.Hart

open Sv39

variable {δ : Type} [MmioDev δ] {h h' : Hart δ} {a n : Word}

section Rule

/-- The effective privilege may load through a leaf. -/
structure Loadable (h : Hart δ) (l : Leaf) : Prop where
  accessed : l.a = true
  readable : l.r = true ∨ h.status.getLsbD 19 = true ∧ l.x = true
  user : h.dataPriv = Priv.u → l.u = true
  supervisor : h.dataPriv = Priv.s → l.u = false ∨ h.status.getLsbD 18 = true

/-- The hart after a look-up, which has walked the table at most. -/
def Looked (h : Hart δ) (va : Word) (h' : Hart δ) : Prop :=
  ∃ t b, h' = { h with sv39 := t, bus := b } ∧ (b = h.bus ∨ b = (ptw h.satp va h.bus).1)

def pageFaults : List ExcNo := [.instPageFault, .loadPageFault, .storePageFault]

/-- How a translated load should end: with one access to the bus, or with a page fault and none. -/
inductive LoadsAt (h : Hart δ) (va : Word) (access : Hart δ → Word → Systembus δ × Option Word) :
    Outcome (Hart δ × Except ExcNo Word) → Prop
  | translated {h' : Hart δ} {l : Leaf} {fault : ExcNo} (hl : h.Looked va h')
    (hw : walk h.bus h.satp va = some l) (hp : h.Loadable l) (hf : fault ∉ pageFaults) :
    LoadsAt h va access
      (.ok (orFault fault (h'.withBus (access h' (l.ppa + va % l.pageSize)))))
  | fault {h' : Hart δ} {e : ExcNo} (hl : h.Looked va h')
    (hw : ∀ l, walk h.bus h.satp va = some l → ¬ h.Loadable l) (he : e ∈ pageFaults) :
    LoadsAt h va access (.ok (h', .error e))

/-- When the check of a load is right: no page is readable for `MXR` only, and supervisor mode
touches no user page without `SUM`. -/
structure LoadOk (h : Hart δ) (va : Word) : Prop where
  mxr : ∀ l, walk h.bus h.satp va = some l → h.Loadable l → l.r = true
  sum : ∀ l, walk h.bus h.satp va = some l → l.a = true → l.r = true → h.dataPriv = Priv.s →
    l.u = true → h.status.getLsbD 18 = true

/-- What `va_read` and `va_lr` have in common. -/
structure IsLoad (k : AccessKind) : Prop where
  permitted : k.permitted = readKind.permitted
  pageFault : k.pageFault ∈ pageFaults
  sumFault : k.sumFault ∉ pageFaults
  translatedFault : k.translatedFault ∉ pageFaults

end Rule

section Check

variable {k : AccessKind} {access : Hart δ → Word → Systembus δ × Option Word}

theorem LoadsAt.error {e : ExcNo} (hl : LoadsAt h a access (.ok (h', .error e))) :
    e ∈ pageFaults ↔ ∀ l, walk h.bus h.satp a = some l → ¬ h.Loadable l := by
  generalize hr : (.ok (h', .error e) : Outcome (Hart δ × Except ExcNo Word)) = r at hl
  cases hl with
  | @translated h₁ l fault _ hw hp hf =>
    have hfe : fault = e := by
      generalize h₁.withBus (access h₁ (l.ppa + a % l.pageSize)) = r at hr
      rcases r with ⟨h₂, _ | v⟩
      · cases hr
        rfl
      · cases hr
    exact iff_of_false (hfe ▸ hf) fun hn => hn l hw hp
  | fault _ hw he =>
    cases hr
    exact iff_of_true he hw

/-- The look-up of a translated access. -/
theorem tlbe_of_coherent (hc : canonical a = true) (ht : h.sv39.Coherent h.bus h.satp a) :
    ∃ h' e, h.tlbe a = .ok (h', e) ∧ h.Looked a h' ∧
      e.map TlbEntry.leaf = walk h.bus h.satp a ∧ ∀ x ∈ e, x.hit h.satp a = true := by
  obtain ⟨t', b', e, hl, he, hh, -⟩ := ht.lookup
  refine ⟨{ h with sv39 := t', bus := b' }, e, ?_, ⟨t', b', rfl, ?_⟩, he, hh⟩
  · rw [tlbe, hl.localTlbeGet hc]
    rfl
  · cases hl with
    | hit => exact .inl rfl
    | fail => exact .inr rfl
    | fill => exact .inr rfl

theorem loadOk_iff {l : Leaf} (hw : walk h.bus h.satp a = some l) : LoadOk h a ↔
    (h.Loadable l → l.r = true) ∧ (l.a = true → l.r = true → h.dataPriv = Priv.s → l.u = true →
      h.status.getLsbD 18 = true) := by
  constructor
  · rintro ⟨hm, hs⟩
    exact ⟨hm l hw, hs l hw⟩
  · rintro ⟨hm, hs⟩
    constructor
    · rintro l' hw'
      obtain rfl := Option.some_inj.mp (hw.symm.trans hw')
      exact hm
    · rintro l' hw'
      obtain rfl := Option.some_inj.mp (hw.symm.trans hw')
      exact hs

theorem translate_of_tlbe {e : TlbEntry} (hx : crosses a n = false)
    (hl : h.tlbe a = .ok (h', some e)) (hlook : h.Looked a h') : h.translate k a n = .ok (h',
      if !k.permitted (h.status.getLsbD 19) e then .error k.pageFault
      else if h.dataPriv = Priv.u ∧ !e.u then .error k.pageFault
      else if !h.status.getLsbD 18 ∧ h.dataPriv = Priv.s ∧ e.u then .error k.sumFault
      else .ok (e.pa a)) := by
  obtain ⟨t, b, rfl, -⟩ := hlook
  have hdp : ({ h with sv39 := t, bus := b } : Hart δ).dataPriv = h.dataPriv := rfl
  rw [translate, hx, if_neg Bool.false_ne_true, hl]
  simp only [bind, Except.bind, hdp]
  split_ifs <;> rfl

theorem vaAccess_of_pa (hu : h.untranslated = false) {pa : Word}
    (ht : h.translate k a n = .ok (h', .ok pa)) :
    h.vaAccess k a n (fun h pa => .ok (h.withBus (access h pa))) =
      .ok (orFault k.translatedFault (h'.withBus (access h' pa))) := by
  rw [vaAccess, hu, if_neg Bool.false_ne_true, ht]
  rfl

theorem translate_of_no_leaf (hx : crosses a n = false) (hl : h.tlbe a = .ok (h', none)) :
    h.translate k a n = .ok (h', .error k.pageFault) := by
  rw [translate, hx, if_neg Bool.false_ne_true, hl]
  rfl

section Leaf

variable {e : TlbEntry} (hu : h.untranslated = false) (hlook : h.Looked a h')
  (hw : walk h.bus h.satp a = some e.leaf)

include hu hlook hw

theorem loadsAt_of_not_loadable {f : ExcNo} (ht : h.translate k a n = .ok (h', .error f))
    (hn : ¬ h.Loadable e.leaf) :
    LoadsAt h a access (h.vaAccess k a n fun h pa => .ok (h.withBus (access h pa))) ↔
      f ∈ pageFaults := by
  have hn' (l : Leaf) (hl : walk h.bus h.satp a = some l) : ¬ h.Loadable l := by
    rwa [← Option.some_inj.mp (hw.symm.trans hl)]
  rw [vaAccess_of_translate hu ht]
  exact ⟨fun hf => hf.error.mpr hn', fun hf => .fault hlook hn' hf⟩

theorem load_refused (hk : IsLoad k) (ht : h.translate k a n = .ok (h', .error k.pageFault))
    (hn : ¬ (e.a = true ∧ e.r = true)) :
    LoadsAt h a access (h.vaAccess k a n fun h pa => .ok (h.withBus (access h pa))) ↔
      LoadOk h a := by
  rw [loadOk_iff hw]
  by_cases hl : h.Loadable e.leaf
  · refine iff_of_false (fun hf => ?_) fun hok => hn ⟨hl.accessed, hok.1 hl⟩
    rw [vaAccess_of_translate hu ht] at hf
    exact hf.error.mp hk.pageFault _ hw hl
  · rw [loadsAt_of_not_loadable hu hlook hw ht hl]
    exact iff_of_true hk.pageFault ⟨fun h => absurd h hl, fun ha hr => absurd ⟨ha, hr⟩ hn⟩

theorem load_permitted (hk : IsLoad k) (hpa : e.pa a = e.leaf.ppa + a % e.leaf.pageSize)
    (ha : e.a = true) (hr : e.r = true) (ht : h.translate k a n = .ok (h',
      if h.dataPriv = Priv.u ∧ !e.u then .error k.pageFault
      else if !h.status.getLsbD 18 ∧ h.dataPriv = Priv.s ∧ e.u then .error k.sumFault
      else .ok (e.pa a))) :
    LoadsAt h a access (h.vaAccess k a n fun h pa => .ok (h.withBus (access h pa))) ↔
      LoadOk h a := by
  have hus : Priv.s ≠ Priv.u := by decide
  rw [loadOk_iff hw]
  split_ifs at ht with huser hsum
  · have hn : ¬ h.Loadable e.leaf := fun hl => by
      have hu : e.u = true := hl.user huser.1
      simp [hu] at huser
    rw [loadsAt_of_not_loadable hu hlook hw ht hn]
    exact iff_of_true hk.pageFault
      ⟨fun h => absurd h hn, fun _ _ hs => absurd (hs.symm.trans huser.1) hus⟩
  · obtain ⟨hs, hp, hue⟩ := hsum
    have hs : h.status.getLsbD 18 = false := by simpa using hs
    have hn : ¬ h.Loadable e.leaf := fun hl => by
      rcases hl.supervisor hp with h0 | h1
      · exact absurd (hue.symm.trans h0) (by decide)
      · exact absurd (h1.symm.trans hs) (by decide)
    rw [loadsAt_of_not_loadable hu hlook hw ht hn]
    refine iff_of_false hk.sumFault fun hok => ?_
    exact absurd ((hok.2 ha hr hp hue).symm.trans hs) (by decide)
  · have hsup : h.dataPriv = Priv.s → e.u = true → h.status.getLsbD 18 = true := by
      intro hp hue
      by_contra hs
      exact hsum ⟨by simpa using hs, hp, hue⟩
    have hl : h.Loadable e.leaf := by
      refine ⟨ha, .inl hr, fun hp => ?_, fun hp => ?_⟩
      · by_contra hue
        have hue : e.u = false := Bool.eq_false_iff.mpr hue
        exact huser ⟨hp, by rw [hue]; rfl⟩
      · by_cases hue : e.u = true
        · exact .inr (hsup hp hue)
        · exact .inl (Bool.eq_false_iff.mpr hue)
    rw [vaAccess_of_pa hu ht, hpa]
    exact iff_of_true (.translated hlook hw hl hk.translatedFault)
      ⟨fun _ => hr, fun _ _ hp hue => hsup hp hue⟩

end Leaf

/-- The loads obey the rule exactly where the check is right. -/
theorem vaAccess_load (hk : IsLoad k) (hu : h.untranslated = false) (hc : canonical a = true)
    (hx : crosses a n = false) (hb : h.sv39.Coherent h.bus h.satp a) :
    LoadsAt h a access (h.vaAccess k a n fun h pa => .ok (h.withBus (access h pa))) ↔
      LoadOk h a := by
  obtain ⟨h', e, hl, hlook, he, hhit⟩ := tlbe_of_coherent hc hb
  rcases e with _ | e
  · have hw : walk h.bus h.satp a = none := he.symm
    rw [vaAccess_of_translate hu (translate_of_no_leaf hx hl)]
    refine iff_of_true (.fault hlook (fun l h => ?_) hk.pageFault) ⟨fun l h => ?_, fun l h => ?_⟩
    all_goals
      rw [hw] at h
      cases h
  have hw : walk h.bus h.satp a = some e.leaf := he.symm
  have ht := translate_of_tlbe (k := k) hx hl hlook
  rw [hk.permitted] at ht
  by_cases hp : e.a = true ∧ e.r = true
  · refine load_permitted hu hlook hw hk (pa_eq (hhit e rfl)) hp.1 hp.2 ?_
    rw [ht, if_neg (by simp [readKind, hp])]
  · refine load_refused hu hlook hw hk ?_ hp
    have hperm : readKind.permitted (h.status.getLsbD 19) e = false := by
      -- a leaf that cannot be read can be executed
      have hrx : e.r = true ∨ e.x = true := walk_leaf hw
      rcases ha : e.a with _ | _
      · simp [readKind, ha]
      · have hr : e.r = false := Bool.eq_false_iff.mpr fun hr => hp ⟨ha, hr⟩
        have hx : e.x = true := hrx.resolve_left (by simp [hr])
        simp [readKind, hr, hx]
    rw [ht, hperm]
    rfl

end Check

section Loads

theorem readKind_isLoad : IsLoad readKind := ⟨rfl, by decide, by decide, by decide⟩

theorem lrKind_isLoad : IsLoad lrKind := ⟨rfl, by decide, by decide, by decide⟩

theorem vaLr_eq (hs : n = 4 ∨ n = 8) : h.vaLr a n = h.vaAccess lrKind a n fun h pa =>
    .ok (h.withBus (h.bus.paLr pa n h.hartId)) := if_neg (not_not_intro hs)

/-- **Translated loads**: with a coherent buffer `va_read` and `va_lr` access the memory under the
leaf of the walk if the leaf permits it, and end with a page fault otherwise, exactly where no page
is readable for `MXR` only and supervisor mode touches no user page without `SUM`. -/
theorem load_permission_iff (hu : h.untranslated = false) (hc : canonical a = true)
    (hx : crosses a n = false) (hb : h.sv39.Coherent h.bus h.satp a) :
    (LoadsAt h a (fun h pa => h.bus.paRead pa n) (h.vaRead a n) ↔ LoadOk h a) ∧
      (n = 4 ∨ n = 8 →
        (LoadsAt h a (fun h pa => h.bus.paLr pa n h.hartId) (h.vaLr a n) ↔ LoadOk h a)) := by
  constructor
  · exact vaAccess_load readKind_isLoad hu hc hx hb
  · intro hs
    rw [vaLr_eq hs]
    exact vaAccess_load lrKind_isLoad hu hc hx hb

/-- Supervisor mode after a reset, over a table in `bus`. -/
def tableHart (bus : Systembus MmioMem) (status : Word) : Hart MmioMem :=
  let h := (default : Hart MmioMem).new ⟨false, false⟩
  { h with
    toState := { h.toState with curPriv := Priv.s, status := status }
    satp := tableSatp
    bus := bus }

/-- A read of a page that is readable by itself. -/
theorem load_permission_iff_read : LoadsAt (tableHart tableBus 0) 0x1000
    (fun h pa => h.bus.paRead pa 8) ((tableHart tableBus 0).vaRead 0x1000 8) := by
  let t := (default : Hart MmioMem).sv39
  obtain ⟨t', hr, hb⟩ := run_coherent pureReads_mmioMem disciplined_remapEvents t (k := 0) rfl
  obtain rfl : t.init = t' := (Prod.mk.inj (Except.ok.inj hr)).1
  refine (load_permission_iff rfl (by decide) (by decide) hb).1.mpr ?_
  have hw : walk (tableHart tableBus 0).bus (tableHart tableBus 0).satp 0x1000 =
    some ⟨0x80000000, 0x40000000, true, true, true, false, false, true, true⟩ := rfl
  exact (loadOk_iff hw).mpr ⟨fun _ => rfl, fun _ _ _ hu => absurd hu (by decide)⟩

/-- A memory whose first entry maps the first gigabyte to the memory itself, to be executed. -/
def executeBus : Systembus MmioMem :=
  RvCore.Test.bus (fun a => if a = 0 then 0x49 else if a = 3 then 0x20 else 0) default

/-- `MXR` does not make the page readable. -/
theorem not_load_permission : ¬ ∀ (h : Hart MmioMem) (a n : Word), h.untranslated = false →
    canonical a = true → crosses a n = false → h.sv39.Coherent h.bus h.satp a →
      LoadsAt h a (fun h pa => h.bus.paRead pa n) (h.vaRead a n) ∧ (n = 4 ∨ n = 8 →
        LoadsAt h a (fun h pa => h.bus.paLr pa n h.hartId) (h.vaLr a n)) := by
  intro h
  have hl := (h (tableHart executeBus (1 <<< 19)) 0x1000 8 rfl (by decide) (by decide)
    (coherent_init _)).1
  have hok := (vaAccess_load readKind_isLoad rfl (by decide) (by decide) (coherent_init _)).mp hl
  have hw : walk (tableHart executeBus (1 <<< 19)).bus (tableHart executeBus (1 <<< 19)).satp
    0x1000 = some ⟨0x80000000, 0x40000000, false, false, true, false, false, true, false⟩ := rfl
  have hr := hok.mxr _ hw ⟨rfl, .inr ⟨rfl, rfl⟩, fun hp => absurd hp (by decide), fun _ => .inl rfl⟩
  exact absurd hr (by decide)

end Loads

end RvPriv.Hart

end PuaCpu
