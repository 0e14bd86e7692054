import SymbolRename.Proofs.Function.Names

/-!
# The first symbol of a name

A name may stand for a local variable and for a parameter at once. The symbol that a search comes
to is the first one of its collection, and a parameter only if no local variable has the name.
-/

set_option autoImplicit false

namespace SymbolRename.Function

structure Leads (f : Function) (name : Text) (h : Handle) : Prop where
  named : (f.names h.kind)[h.index]? = some name
  first : ∀ i < h.index, (f.names h.kind)[i]? ≠ some name
  before : h.kind = .parameter → name ∉ f.names .localVariable

theorem indexIn_eq_some_iff {name : Text} {ss : List Symbol} {i : Nat} :
    indexIn name ss = some i ↔
      (ss.map (·.name))[i]? = some name ∧ ∀ j < i, (ss.map (·.name))[j]? ≠ some name := by
  rw [indexIn, List.findIdx?_eq_some_iff_getElem]
  constructor
  · rintro ⟨hi, hn, hb⟩
    constructor
    · simpa [List.getElem?_eq_getElem hi] using hn
    · intro j hj
      have hl : j < ss.length := by omega
      simpa [List.getElem?_eq_getElem hl] using hb j hj
  · rintro ⟨hn, hb⟩
    have hi : i < ss.length := by
      simpa using (List.getElem?_eq_some_iff.mp hn).1
    have hs : (ss[i].name = name : Bool) = true := by
      simpa [List.getElem?_eq_getElem hi] using hn
    have hf : ∀ j (hj : j < i), ¬ (ss[j].name = name : Bool) = true := by
      intro j hj
      have hl : j < ss.length := by omega
      simpa [List.getElem?_eq_getElem hl] using hb j hj
    exact ⟨hi, hs, hf⟩

theorem indexIn_eq_none_iff {name : Text} {ss : List Symbol} :
    indexIn name ss = none ↔ name ∉ ss.map (·.name) := by
  simp [indexIn]

theorem find?_of_local {f : Function} {name : Text} {i : ℕ}
    (hl : indexIn name (f.symbols .localVariable) = some i) :
    f.find? name = some ⟨.localVariable, i⟩ := by
  rw [find?, show indexIn name f.locals = some i from hl]

theorem find?_of_parameters {f : Function} {name : Text} (hl : name ∉ f.names .localVariable) :
    f.find? name = (indexIn name (f.symbols .parameter)).map (⟨.parameter, ·⟩) := by
  rw [find?, show indexIn name f.locals = none from indexIn_eq_none_iff.mpr hl]
  rfl

theorem find?_eq_some_iff {f : Function} {name : Text} {h : Handle} :
    f.find? name = some h ↔ f.Leads name h := by
  by_cases hm : name ∈ f.names .localVariable
  · obtain ⟨j, hj⟩ := Option.ne_none_iff_exists'.mp fun hl => indexIn_eq_none_iff.mp hl hm
    rw [find?_of_local hj]
    constructor
    · intro he
      cases he
      obtain ⟨hn, hb⟩ := indexIn_eq_some_iff.mp hj
      exact ⟨hn, hb, (nomatch ·)⟩
    · obtain ⟨_ | _, i⟩ := h
      · rintro ⟨hn, hb, -⟩
        have hi : indexIn name (f.symbols .localVariable) = some i :=
          indexIn_eq_some_iff.mpr ⟨hn, hb⟩
        rw [Option.some.inj (hj.symm.trans hi)]
      · exact fun hl => absurd hm (hl.before rfl)
  · rw [find?_of_parameters hm]
    constructor
    · intro he
      obtain ⟨j, hj, rfl⟩ := Option.map_eq_some_iff.mp he
      obtain ⟨hn, hb⟩ := indexIn_eq_some_iff.mp hj
      exact ⟨hn, hb, fun _ => hm⟩
    · obtain ⟨_ | _, i⟩ := h
      · exact fun hl => absurd (List.mem_of_getElem? hl.named) hm
      · rintro ⟨hn, hb, -⟩
        exact Option.map_eq_some_iff.mpr ⟨i, indexIn_eq_some_iff.mpr ⟨hn, hb⟩, rfl⟩

theorem find?_eq_none_iff {f : Function} {name : Text} :
    f.find? name = none ↔ ¬ f.Named name := by
  by_cases hm : name ∈ f.names .localVariable
  · obtain ⟨j, hj⟩ := Option.ne_none_iff_exists'.mp fun hl => indexIn_eq_none_iff.mp hl hm
    simp only [find?_of_local hj, reduceCtorEq, false_iff, not_not]
    exact ⟨.localVariable, hm⟩
  · rw [find?_of_parameters hm, Option.map_eq_none_iff, indexIn_eq_none_iff]
    constructor
    · rintro hp ⟨_ | _, hn⟩
      · exact hm hn
      · exact hp hn
    · exact fun hn hp => hn ⟨.parameter, hp⟩

theorem named_of_find {f : Function} {name : Text} {h : Handle} (hf : f.find? name = some h) :
    f.Named name :=
  ⟨h.kind, List.mem_of_getElem? (find?_eq_some_iff.mp hf).named⟩

theorem symbol_of_find {f : Function} {name : Text} {h : Handle} (hf : f.find? name = some h) :
    ∃ s, f.symbol? h = some s ∧ s.name = name := by
  have hn := (find?_eq_some_iff.mp hf).named
  rw [names, List.getElem?_map] at hn
  exact Option.map_eq_some_iff.mp hn

/-- A search over the handles of a collection comes to the first symbol of the name. -/
theorem find?_handlesOf (f : Function) (kind : SymbolKind) (name : Text) :
    (f.handlesOf kind).find? (fun h => ((f.symbol? h).map (·.name)).getD [] = name) =
      (indexIn name (f.symbols kind)).map (⟨kind, ·⟩) := by
  rw [handlesOf, List.find?_map]
  congr 1
  ext i
  rw [List.find?_range_eq_some, indexIn, List.findIdx?_eq_some_iff_getElem]
  constructor
  · rintro ⟨hn, hi, hb⟩
    have hi : i < (f.symbols kind).length := List.mem_range.mp hi
    have hs : ((f.symbols kind)[i].name = name : Bool) = true := by
      simpa [symbol?, hi] using hn
    have hf : ∀ j (hj : j < i), ¬ ((f.symbols kind)[j].name = name : Bool) = true := by
      intro j hj
      have hl : j < (f.symbols kind).length := by omega
      simpa [symbol?, hl] using hb j hj
    exact ⟨hi, hs, hf⟩
  · rintro ⟨hi, hn, hb⟩
    constructor
    · simpa [symbol?, hi] using hn
    · constructor
      · exact List.mem_range.mpr hi
      · intro j hj
        have hl : j < (f.symbols kind).length := by omega
        simpa [symbol?, hl] using hb j hj

end SymbolRename.Function
