import PuaCpu.Reference.Hart

/-! # Accesses without translation

While `satp` is zero an access of the hart goes straight to the bus. It ends
with a value or with a fault, and an access that faults has written nothing.
-/

namespace PuaCpu

/-- Devices that a read and a failed write leave alone. -/
def Passive (δ : Type) [MmioDev δ] : Prop :=
  (∀ (d : δ) (a n : Word), (MmioDev.doRead d a n).1 = d) ∧
    ∀ (d : δ) (a n v : Word), (MmioDev.doWrite d a n v).2 = false → (MmioDev.doWrite d a n v).1 = d

theorem passive_mmioMem : Passive MmioMem := by
  refine ⟨fun _ _ _ => rfl, fun d a n v h => ?_⟩
  change (MmioMem.doWrite d a n v).2 = false at h
  change (MmioMem.doWrite d a n v).1 = d
  unfold MmioMem.doWrite at h ⊢
  cases hp : d.place a n with
  | none => rfl
  | some start => simp [hp] at h

namespace Systembus

variable {δ : Type} [MmioDev δ]

/-- The bus after accesses that wrote nothing: only the reservation may differ. -/
structure Idle (b b' : Systembus δ) : Prop where
  devices : b'.devices = b.devices
  dev : Passive δ → b'.dev = b.dev

/-- What a bus operation keeps. -/
structure Keeps {α : Type} (b : Systembus δ) (r : Systembus δ × Option α) : Prop where
  devices : r.1.devices = b.devices
  idle : r.2 = none → Idle b r.1

variable {b b' b'' : Systembus δ} {a n v : Word}

theorem Idle.refl (b : Systembus δ) : Idle b b := ⟨rfl, fun _ => rfl⟩

theorem Idle.trans (h : Idle b b') (h' : Idle b' b'') : Idle b b'' :=
  ⟨h'.devices.trans h.devices, fun hp => (h'.dev hp).trans (h.dev hp)⟩

theorem idle_paRead (b : Systembus δ) (a n : Word) : Idle b (b.paRead a n).1 := by
  unfold paRead
  cases b.locate a n with
  | none => exact .refl b
  | some m =>
    refine ⟨rfl, fun hp => ?_⟩
    change Function.update b.dev m.dev _ = b.dev
    rw [hp.1, Function.update_eq_self]

theorem idle_breakLr (b : Systembus δ) (a n : Word) : Idle b (b.breakLr a n) := by
  unfold breakLr
  split_ifs
  · exact ⟨rfl, fun _ => rfl⟩
  · exact .refl b

theorem devices_paWrite (b : Systembus δ) (a n v : Word) :
    (b.paWrite a n v).1.devices = b.devices := by
  have h := idle_breakLr b a n
  unfold paWrite
  generalize b.breakLr a n = b' at h
  cases hl : b'.locate a n with
  | none => simpa [hl] using h.devices
  | some m => simpa [hl] using h.devices

theorem idle_paWrite (h : (b.paWrite a n v).2 = false) : Idle b (b.paWrite a n v).1 := by
  have hb := idle_breakLr b a n
  unfold paWrite at h ⊢
  generalize b.breakLr a n = b' at hb h
  cases hl : b'.locate a n with
  | none => simpa [hl] using hb
  | some m =>
    simp only [hl] at h ⊢
    refine hb.trans ⟨rfl, fun hp => ?_⟩
    change Function.update b'.dev m.dev _ = b'.dev
    rw [hp.2 _ _ _ _ h, Function.update_eq_self]

theorem keeps_paRead (b : Systembus δ) (a n : Word) : Keeps b (b.paRead a n) :=
  ⟨(idle_paRead b a n).devices, fun _ => idle_paRead b a n⟩

theorem keeps_paLr (b : Systembus δ) (a n id : Word) : Keeps b (b.paLr a n id) := by
  have h0 : Idle b { b with lrPa := a, lrSize := n, lrValid := true, lrHart := id } :=
    ⟨rfl, fun _ => rfl⟩
  have h : Idle b (b.paLr a n id).1 := h0.trans (idle_paRead _ a n)
  exact ⟨h.devices, fun _ => h⟩

theorem keeps_paWrite (b : Systembus δ) (a n v : Word) :
    Keeps b ((b.paWrite a n v).1, if (b.paWrite a n v).2 then some () else none) := by
  refine ⟨devices_paWrite b a n v, fun h => idle_paWrite ?_⟩
  by_contra hw
  rw [Bool.not_eq_false] at hw
  simp [hw] at h

theorem keeps_paSc (b : Systembus δ) (a n v id : Word) : Keeps b (b.paSc a n v id) := by
  unfold paSc
  split_ifs with hc hi
  · exact ⟨rfl, fun h => absurd h (Option.some_ne_none _)⟩
  · exact ⟨rfl, fun h => absurd h (Option.some_ne_none _)⟩
  · have h0 : Idle b { b with lrValid := false } := ⟨rfl, fun _ => rfl⟩
    refine ⟨devices_paWrite _ a n v, fun h => h0.trans (idle_paWrite ?_)⟩
    by_contra hw
    rw [Bool.not_eq_false] at hw
    simp [hw] at h

theorem amoResult_isSome {op : BitVec 5} (hop : op ∈ [AmoFunct.swap, AmoFunct.add, AmoFunct.xor,
    AmoFunct.and, AmoFunct.or, AmoFunct.min, AmoFunct.max, AmoFunct.minu, AmoFunct.maxu])
    (src res : Word) : ∃ v, amoResult op src res = some v := by
  simp only [List.mem_cons, List.not_mem_nil, or_false] at hop
  rcases hop with rfl | rfl | rfl | rfl | rfl | rfl | rfl | rfl | rfl <;> exact ⟨_, rfl⟩

theorem keeps_paAmoOp {op : BitVec 5} (hop : ∀ src res, ∃ v, amoResult op src res = some v)
    (b : Systembus δ) (a n v : Word) : ∃ r, b.paAmoOp a n op v = .ok r ∧ Keeps b r := by
  have hr := idle_paRead b a n
  unfold paAmoOp
  generalize b.paRead a n = r at hr
  rcases r with ⟨b', _ | buffer⟩
  · exact ⟨_, rfl, hr.devices, fun _ => hr⟩
  · obtain ⟨w, hw⟩ := hop v (if n = 4 then (buffer.setWidth 32).signExtend 64 else buffer)
    simp only [hw]
    refine ⟨_, rfl, (devices_paWrite b' a n w).trans hr.devices, fun h => ?_⟩
    have hk : (b'.paWrite a n w).2 = false := by
      by_contra hk
      rw [Bool.not_eq_false] at hk
      simp [hk] at h
    exact hr.trans (idle_paWrite hk)

end Systembus

namespace RvPriv.Hart

variable {δ : Type} [MmioDev δ] {α : Type} {h : Hart δ} {a n v : Word}

/-- How an access of the core ends: with a value, with a fault, or with the process. -/
inductive Served (h : Hart δ) : Outcome (Hart δ × Except ExcNo α) → Prop
  | exit (code : ℕ) : Served h (.error (.exit code))
  | value (b : Systembus δ) (x : α) (hb : b.devices = h.bus.devices) :
      Served h (.ok ({ h with bus := b }, .ok x))
  | fault (b : Systembus δ) (e : ExcNo) (hb : h.bus.Idle b) (he : e ≠ .instPageFault) :
      Served h (.ok ({ h with bus := b }, .error e))

omit [MmioDev δ] in
theorem untranslated_of_mode (hm : Satp.mode h.satp = 0) : h.untranslated = true := by
  rw [untranslated, hm]
  exact Bool.or_true _

theorem served_of_keeps {r : Systembus δ × Option α} (hr : h.bus.Keeps r) {e : ExcNo}
    (he : e ≠ .instPageFault) : Served h (.ok (orFault e (h.withBus r))) := by
  rcases r with ⟨b, _ | x⟩
  · exact .fault b e (hr.idle rfl) he
  · exact .value b x hr.devices

theorem vaRead_served (hm : Satp.mode h.satp = 0) : Served h (h.vaRead a n) := by
  rw [vaRead, vaAccess, if_pos (untranslated_of_mode hm)]
  exact served_of_keeps (Systembus.keeps_paRead _ _ _) (by decide)

theorem vaWrite_served (cfg : Config) (hm : Satp.mode h.satp = 0) :
    Served h (h.vaWrite cfg a n v) := by
  rw [vaWrite, vaAccess, if_pos (untranslated_of_mode hm)]
  split_ifs
  · exact .exit 0
  · exact served_of_keeps (Systembus.keeps_paWrite _ _ _ _) (by decide)

theorem vaLr_served (hm : Satp.mode h.satp = 0) (hn : n = 4 ∨ n = 8) : Served h (h.vaLr a n) := by
  rw [vaLr, if_neg (not_not_intro hn), vaAccess, if_pos (untranslated_of_mode hm)]
  exact served_of_keeps (Systembus.keeps_paLr _ _ _ _) (by decide)

theorem vaSc_served (hm : Satp.mode h.satp = 0) (hn : n = 4 ∨ n = 8) :
    Served h (h.vaSc a n v) := by
  rw [vaSc, if_neg (not_not_intro hn), vaAccess, if_pos (untranslated_of_mode hm)]
  exact served_of_keeps (Systembus.keeps_paSc _ _ _ _ _) (by decide)

theorem vaAmo_served {op : BitVec 5} (hm : Satp.mode h.satp = 0) (hn : n = 4 ∨ n = 8)
    (hop : ∀ src res, ∃ w, Systembus.amoResult op src res = some w) :
    Served h (h.vaAmo a n op v) := by
  obtain ⟨r, hr, hk⟩ := Systembus.keeps_paAmoOp hop h.bus a n v
  rw [vaAmo, if_neg (not_not_intro hn), vaAccess, if_pos (untranslated_of_mode hm), hr]
  exact served_of_keeps hk (by decide)

end RvPriv.Hart

end PuaCpu
