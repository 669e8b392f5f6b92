import PuaCpu.Decode.Decoder

/-! # The decode table is unambiguous

Two patterns of the table always ask for different values of one field, so a
word has the entry of any pattern that it hits. A word that hits none gets the
default entry.
-/

namespace PuaCpu

namespace BitPat

/-- Whether two patterns ask for different values of the same field. -/
def excludes (p q : BitPat) : Bool :=
  p.any fun f => q.any fun g => f.lo == g.lo && f.width == g.width && f.value.toNat != g.value.toNat

theorem not_hits_of_excludes {p q : BitPat} {inst : Word} (h : excludes p q = true)
    (hp : p.hits inst = true) : q.hits inst = false := by
  rw [excludes, List.any_eq_true] at h
  obtain ⟨⟨lo, w, v⟩, hf, h⟩ := h
  rw [List.any_eq_true] at h
  obtain ⟨⟨lo', w', v'⟩, hg, h⟩ := h
  simp only [Bool.and_eq_true, beq_iff_eq, bne_iff_ne, ne_eq] at h
  obtain ⟨⟨rfl, rfl⟩, hne⟩ := h
  by_contra hq
  rw [Bool.not_eq_false] at hq
  have hv := List.all_eq_true.mp hp _ hf
  have hv' := List.all_eq_true.mp hq _ hg
  simp only [beq_iff_eq] at hv hv'
  exact hne (by rw [← hv, ← hv'])

end BitPat

theorem listLookup_of_hits {inst : Word} {d : DecodeEntry} {table : DecodeTable}
    (hp : table.Pairwise fun m n => m.1.excludes n.1 = true) {m : BitPat × DecodeEntry}
    (hm : m ∈ table) (h : m.1.hits inst = true) : listLookup inst d table = m.2 := by
  induction table with
  | nil => exact absurd hm List.not_mem_nil
  | cons n table ih =>
    rw [List.pairwise_cons] at hp
    rw [listLookup, List.foldr_cons]
    rcases List.mem_cons.mp hm with rfl | hm
    · exact if_pos h
    · split_ifs with hn
      · rw [BitPat.not_hits_of_excludes (hp.1 m hm) hn] at h
        exact absurd h (by decide)
      · exact ih hp.2 hm

theorem listLookup_of_not_hits {inst : Word} {d : DecodeEntry} {table : DecodeTable}
    (h : ∀ m ∈ table, m.1.hits inst = false) : listLookup inst d table = d := by
  induction table with
  | nil => rfl
  | cons n table ih =>
    rw [listLookup, List.foldr_cons, if_neg (by simp [h n List.mem_cons_self])]
    exact ih fun m hm => h m (List.mem_cons_of_mem n hm)

namespace Decoder

theorem pairwise_decodeTable :
    Instructions.decodeTable.Pairwise fun m n => m.1.excludes n.1 = true := by decide +kernel

theorem lookup_of_hits {inst : Word} {m : BitPat × DecodeEntry}
    (hm : m ∈ Instructions.decodeTable) (h : m.1.hits inst = true) : lookup inst = m.2 :=
  listLookup_of_hits pairwise_decodeTable hm h

theorem lookup_of_not_hits {inst : Word}
    (h : ∀ m ∈ Instructions.decodeTable, m.1.hits inst = false) :
    lookup inst = Instructions.decodeDefault :=
  listLookup_of_not_hits h

theorem hits_or (inst : Word) :
    (∃ m ∈ Instructions.decodeTable, m.1.hits inst = true ∧ lookup inst = m.2) ∨
      (∀ m ∈ Instructions.decodeTable, m.1.hits inst = false) ∧
        lookup inst = Instructions.decodeDefault := by
  by_cases h : ∃ m ∈ Instructions.decodeTable, m.1.hits inst = true
  · obtain ⟨m, hm, hh⟩ := h
    exact .inl ⟨m, hm, hh, lookup_of_hits hm hh⟩
  · have hn : ∀ m ∈ Instructions.decodeTable, m.1.hits inst = false := fun m hm => by
      by_contra hh
      exact h ⟨m, hm, by simpa using hh⟩
    exact .inr ⟨hn, lookup_of_not_hits hn⟩

/-- No pattern belongs to the type of the default entry, so a word is illegal if and only if it
hits no pattern. -/
theorem instIllegal_iff (inst : Word) :
    instIllegal inst = true ↔ ∀ m ∈ Instructions.decodeTable, m.1.hits inst = false := by
  have ht : ∀ m ∈ Instructions.decodeTable, m.2.instrType ≠ .n := by decide
  rcases hits_or inst with ⟨m, hm, hh, hl⟩ | ⟨hn, hl⟩
  · refine iff_of_false ?_ fun h => ?_
    · simpa [instIllegal, hl] using ht m hm
    · rw [h m hm] at hh
      exact absurd hh (by decide)
  · exact iff_of_true (by rw [instIllegal, hl]; rfl) hn

end Decoder

end PuaCpu
