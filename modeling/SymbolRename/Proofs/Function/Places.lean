import SymbolRename.Proofs.Function.First

/-!
# Symbols in their places

Putting a symbol into a place changes what is found there and nothing else. So it does not matter
in which order two places are written, a symbol that is put back leaves the function as it was, and
a search for some other name than the one that goes and the one that comes finds what it found.
-/

set_option autoImplicit false

namespace SymbolRename.Function
variable {f : Function} {h k : Handle} {s t u : Symbol} {m : Text}

theorem symbol_place_other (hk : k ≠ h) (t : Symbol) : (f.place h t).symbol? k = f.symbol? k := by
  rw [symbol?, symbols_place]
  split
  · next hkind =>
    have hi : h.index ≠ k.index := by
      intro hi
      cases h
      cases k
      simp_all
    exact List.getElem?_set_ne hi
  · rfl

theorem place_place (h : Handle) (t u : Symbol) : (f.place h t).place h u = f.place h u := by
  obtain ⟨_ | _, i⟩ := h
  all_goals simp [place, withSymbols, symbols]

theorem place_self (hs : f.symbol? h = some s) : f.place h s = f := by
  obtain ⟨_ | _, i⟩ := h
  all_goals
    obtain ⟨hi, rfl⟩ := List.getElem?_eq_some_iff.mp hs
    simp [place, withSymbols, symbols]

theorem place_comm (hk : h ≠ k) (t u : Symbol) :
    (f.place h t).place k u = (f.place k u).place h t := by
  obtain ⟨kind, i⟩ := h
  obtain ⟨kind', j⟩ := k
  by_cases hkind : kind = kind'
  · subst hkind
    have hi : i ≠ j := fun hi => hk (by rw [hi])
    cases kind <;> simp [place, withSymbols, symbols, List.set_comm _ _ hi]
  · cases kind <;> cases kind' <;> simp_all [place, withSymbols, symbols]

theorem named_iff : f.Named m ↔ ∃ k t, f.symbol? k = some t ∧ t.name = m := by
  constructor
  · rintro ⟨kind, hm⟩
    obtain ⟨t, ht, rfl⟩ := List.mem_map.mp hm
    obtain ⟨i, hi⟩ := List.mem_iff_getElem?.mp ht
    exact ⟨⟨kind, i⟩, t, hi, rfl⟩
  · rintro ⟨k, t, hk, rfl⟩
    exact named_of_symbol hk

/-- A place that has the name has it still, and no other place has it now. -/
theorem names_place_iff (hs : f.symbol? h = some s) (ho : m ≠ s.name) (hn : m ≠ t.name)
    (kind : SymbolKind) (i : ℕ) :
    ((f.place h t).names kind)[i]? = some m ↔ (f.names kind)[i]? = some m := by
  rw [names_place]
  split
  · next hkind =>
    subst hkind
    have hold := names_getElem? hs
    by_cases hi : h.index = i
    · subst hi
      have hlt := (List.getElem?_eq_some_iff.mp hold).1
      rw [List.getElem?_set_self hlt, hold]
      simp [ho.symm, hn.symm]
    · rw [List.getElem?_set_ne hi]
  · rfl

theorem mem_names_place_iff (hs : f.symbol? h = some s) (ho : m ≠ s.name) (hn : m ≠ t.name)
    (kind : SymbolKind) : m ∈ (f.place h t).names kind ↔ m ∈ f.names kind := by
  simp only [List.mem_iff_getElem?, names_place_iff hs ho hn]

theorem named_place_iff (hs : f.symbol? h = some s) (ho : m ≠ s.name) (hn : m ≠ t.name) :
    (f.place h t).Named m ↔ f.Named m := by
  simp only [Named, mem_names_place_iff hs ho hn]

/-- Which symbol a name leads to depends on the places that have the name. -/
theorem Leads.of_names_iff {g : Function} (hl : f.Leads m k)
    (hat : ∀ kind (i : ℕ), (f.names kind)[i]? = some m ↔ (g.names kind)[i]? = some m) :
    g.Leads m k where
  named := (hat _ _).mp hl.named
  first i hi := (hat _ _).not.mp (hl.first i hi)
  before hp hm := by
    obtain ⟨i, hi⟩ := List.mem_iff_getElem?.mp hm
    exact hl.before hp (List.mem_of_getElem? ((hat _ _).mpr hi))

theorem find?_place (hs : f.symbol? h = some s) (ho : m ≠ s.name) (hn : m ≠ t.name) :
    (f.place h t).find? m = f.find? m := by
  have hat := names_place_iff hs ho hn
  apply Option.ext
  intro k
  rw [find?_eq_some_iff, find?_eq_some_iff]
  exact ⟨fun hl => hl.of_names_iff hat, fun hl => hl.of_names_iff fun kind i => (hat kind i).symm⟩

end SymbolRename.Function
