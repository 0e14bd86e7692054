import SymbolRename.Function
import Mathlib.Data.List.Nodup

/-!
# The names of a function

Everything that is said here about a function goes through the names of its two collections. Giving
a name to a symbol writes that name in one place and leaves all others, and it succeeds only if the
name is the symbol's own or no symbol has it.
-/

set_option autoImplicit false

namespace SymbolRename.Function

def names (f : Function) (kind : SymbolKind) : List Text := (f.symbols kind).map (·.name)

def Named (f : Function) (name : Text) : Prop := ∃ kind, name ∈ f.names kind

def Distinct (f : Function) : Prop := ∀ kind, (f.names kind).Nodup

def Shared (f : Function) (name : Text) : Prop := ∀ kind, name ∈ f.names kind

theorem symbols_withSymbols (f : Function) (kind other : SymbolKind) (ss : List Symbol) :
    (f.withSymbols kind ss).symbols other = if other = kind then ss else f.symbols other := by
  cases kind <;> cases other <;> rfl

@[simp] theorem name_withSymbols (f : Function) (kind : SymbolKind) (ss : List Symbol) :
    (f.withSymbols kind ss).name = f.name := by
  cases kind <;> rfl

theorem hasName_iff (name : Text) (ss : List Symbol) :
    hasName name ss = true ↔ name ∈ ss.map (·.name) := by
  simp [hasName]

theorem isTaken_iff (f : Function) (name : Text) : f.isTaken name = true ↔ f.Named name := by
  rw [isTaken, Bool.or_eq_true, hasName_iff, hasName_iff]
  constructor
  · rintro (h | h)
    · exact ⟨.localVariable, h⟩
    · exact ⟨.parameter, h⟩
  · rintro ⟨_ | _, h⟩
    · exact .inl h
    · exact .inr h

theorem named_of_symbol {f : Function} {h : Handle} {s : Symbol} (hs : f.symbol? h = some s) :
    f.Named s.name :=
  ⟨h.kind, List.mem_map_of_mem (List.mem_of_getElem? hs)⟩

def place (f : Function) (h : Handle) (s : Symbol) : Function :=
  f.withSymbols h.kind ((f.symbols h.kind).set h.index s)

@[simp] theorem name_place (f : Function) (h : Handle) (s : Symbol) :
    (f.place h s).name = f.name :=
  name_withSymbols f _ _

theorem symbols_place (f : Function) (h : Handle) (s : Symbol) (kind : SymbolKind) :
    (f.place h s).symbols kind =
      if kind = h.kind then (f.symbols kind).set h.index s else f.symbols kind := by
  rw [place, symbols_withSymbols]
  split
  · next hk => rw [hk]
  · rfl

theorem names_place (f : Function) (h : Handle) (s : Symbol) (kind : SymbolKind) :
    (f.place h s).names kind =
      if kind = h.kind then (f.names kind).set h.index s.name else f.names kind := by
  rw [names, symbols_place]
  split
  · exact List.map_set
  · rfl

theorem length_place (f : Function) (h : Handle) (s : Symbol) (kind : SymbolKind) :
    ((f.place h s).symbols kind).length = (f.symbols kind).length := by
  rw [symbols_place]
  split <;> simp

theorem names_getElem? {f : Function} {h : Handle} {s : Symbol} (hs : f.symbol? h = some s) :
    (f.names h.kind)[h.index]? = some s.name := by
  rw [names, List.getElem?_map, show (f.symbols h.kind)[h.index]? = some s from hs]
  rfl

theorem symbol_place {f : Function} {h : Handle} {s : Symbol} (hs : f.symbol? h = some s)
    (t : Symbol) : (f.place h t).symbol? h = some t := by
  have hi : h.index < (f.symbols h.kind).length := (List.getElem?_eq_some_iff.mp hs).1
  rw [symbol?, symbols_place, if_pos rfl, List.getElem?_set_self hi]

/-- A symbol that keeps its name leaves all names as they are. -/
theorem names_place_same {f : Function} {h : Handle} {s : Symbol} (hs : f.symbol? h = some s)
    (source : Text) (kind : SymbolKind) :
    (f.place h ⟨s.name, source⟩).names kind = f.names kind := by
  rw [names_place]
  split
  · next hk =>
    subst hk
    obtain ⟨hi, he⟩ := List.getElem?_eq_some_iff.mp (names_getElem? hs)
    rw [show (⟨s.name, source⟩ : Symbol).name = (f.names h.kind)[h.index] from he.symm]
    exact List.set_getElem_self hi
  · rfl

theorem rename_eq (owner : Text) (isTaken : Text → Bool) (s : Symbol) (name source : Text) :
    s.rename owner isTaken name source =
      if isGivable name = false then .error (.invalid name)
      else if name ≠ s.name ∧ isTaken name = true then .error (.taken name owner)
      else .ok ⟨name, source⟩ := by
  rw [Symbol.rename]
  by_cases hg : isGivable name = false
  · simp [hg]
  by_cases ho : name = s.name
  · subst ho
    simp [hg]
  · simp [hg, ho]

/-- What giving a name to a symbol comes to. -/
theorem setName_eq {f : Function} {h : Handle} {s : Symbol} (hs : f.symbol? h = some s)
    (name source : Text) :
    f.setName h name source =
      if isGivable name = false then .error (.invalid name)
      else if name ≠ s.name ∧ f.isTaken name = true then .error (.taken name f.name)
      else .ok (f.place h ⟨name, source⟩) := by
  simp only [setName, hs, rename_eq]
  split
  · rfl
  split <;> rfl

theorem setName_givable {name : Text} (hn : isGivable name = true) (f : Function) (h : Handle)
    (source other : Text) : f.setName h name source ≠ .error (.invalid other) := by
  cases hs : f.symbol? h with
  | none =>
    rw [setName, hs]
    exact fun he => nomatch he
  | some s =>
    rw [setName_eq hs, if_neg (by simp [hn])]
    split <;> exact fun he => nomatch he

/-- The ways in which giving a name can succeed. -/
theorem setName_ok {f g : Function} {h : Handle} {name source : Text}
    (hk : f.setName h name source = .ok g) :
    (f.symbol? h = none ∧ g = f) ∨
      ∃ s, f.symbol? h = some s ∧ isGivable name = true ∧ (name = s.name ∨ ¬ f.Named name) ∧
        g = f.place h ⟨name, source⟩ := by
  cases hs : f.symbol? h with
  | none =>
    left
    simp only [setName, hs] at hk
    cases hk
    exact ⟨rfl, rfl⟩
  | some s =>
    right
    rw [setName_eq hs] at hk
    split_ifs at hk with hg ht
    cases hk
    have hn : name = s.name ∨ ¬ f.Named name := by
      rw [← isTaken_iff]
      by_cases ho : name = s.name
      · exact .inl ho
      · exact .inr fun hm => ht ⟨ho, hm⟩
    exact ⟨s, rfl, by simpa using hg, hn, rfl⟩

theorem mem_names_place {f : Function} {h : Handle} {t : Symbol} {kind : SymbolKind} {m : Text}
    (hm : m ∈ (f.place h t).names kind) : m ∈ f.names kind ∨ kind = h.kind ∧ m = t.name := by
  rw [names_place] at hm
  split_ifs at hm with hk
  · exact (List.mem_or_eq_of_mem_set hm).imp_right fun he => ⟨hk, he⟩
  · exact .inl hm

theorem place_distinct {f : Function} {h : Handle} {s : Symbol} {name : Text}
    (hs : f.symbol? h = some s) (hn : name = s.name ∨ ¬ f.Named name) (source : Text)
    (hd : f.Distinct) : (f.place h ⟨name, source⟩).Distinct := by
  intro kind
  rcases hn with rfl | hn
  · rw [names_place_same hs]
    exact hd kind
  · rw [names_place]
    split
    · exact (hd kind).set fun hm => hn ⟨kind, hm⟩
    · exact hd kind

/-- A new name comes to one collection only, so the other one keeps it from being shared. -/
theorem place_shared {f : Function} {h : Handle} {s : Symbol} {name : Text}
    (hs : f.symbol? h = some s) (hn : name = s.name ∨ ¬ f.Named name) {source m : Text}
    (hm : (f.place h ⟨name, source⟩).Shared m) : f.Shared m := by
  intro kind
  rcases hn with rfl | hn
  · rw [← names_place_same hs source]
    exact hm kind
  rcases mem_names_place (hm kind) with hk | ⟨rfl, rfl⟩
  · exact hk
  obtain ⟨other, ho⟩ : ∃ other, other ≠ h.kind := by
    cases h.kind
    · exact ⟨.parameter, by decide⟩
    · exact ⟨.localVariable, by decide⟩
  rcases mem_names_place (hm other) with hk | ⟨he, -⟩
  · exact absurd ⟨other, hk⟩ hn
  · exact absurd he ho

theorem setName_distinct {f g : Function} {h : Handle} {name source : Text}
    (hk : f.setName h name source = .ok g) (hd : f.Distinct) : g.Distinct := by
  obtain ⟨-, rfl⟩ | ⟨s, hs, -, hn, rfl⟩ := setName_ok hk
  · exact hd
  · exact place_distinct hs hn source hd

theorem setName_shared {f g : Function} {h : Handle} {name source m : Text}
    (hk : f.setName h name source = .ok g) (hm : g.Shared m) : f.Shared m := by
  obtain ⟨-, rfl⟩ | ⟨s, hs, -, hn, rfl⟩ := setName_ok hk
  · exact hm
  · exact place_shared hs hn hm

theorem setName_length {f g : Function} {h : Handle} {name source : Text}
    (hk : f.setName h name source = .ok g) (kind : SymbolKind) :
    (g.symbols kind).length = (f.symbols kind).length := by
  obtain ⟨-, rfl⟩ | ⟨s, -, -, -, rfl⟩ := setName_ok hk
  · rfl
  · exact length_place f h _ kind

theorem add_ok {f g : Function} {kind : SymbolKind} {name source : Text}
    (hk : f.add kind name source = .ok g) :
    name ∉ f.names kind ∧ g = f.withSymbols kind (f.symbols kind ++ [⟨name, source⟩]) := by
  rw [add] at hk
  split_ifs at hk with ht
  cases hk
  exact ⟨fun hm => ht ((hasName_iff _ _).mpr hm), rfl⟩

theorem add_distinct {f g : Function} {kind : SymbolKind} {name source : Text}
    (hk : f.add kind name source = .ok g) (hd : f.Distinct) : g.Distinct := by
  obtain ⟨hn, rfl⟩ := add_ok hk
  intro other
  rw [names, symbols_withSymbols]
  split
  · have ha : ∀ a ∈ f.names kind, ∀ b ∈ [name], a ≠ b := by
      intro a ha b hb he
      have hb : b = name := List.mem_singleton.mp hb
      exact hn (hb ▸ he ▸ ha)
    rw [List.map_append]
    exact List.nodup_append.mpr ⟨hd kind, List.nodup_singleton _, ha⟩
  · exact hd other

theorem add_length {f g : Function} {kind : SymbolKind} {name source : Text}
    (hk : f.add kind name source = .ok g) (other : SymbolKind) :
    (f.symbols other).length ≤ (g.symbols other).length := by
  obtain ⟨-, rfl⟩ := add_ok hk
  rw [symbols_withSymbols]
  by_cases ho : other = kind
  · subst ho
    simp
  · exact Nat.le_of_eq (by rw [if_neg ho])

theorem empty_distinct (name : Text) : (empty name).Distinct := by
  rintro (_ | _) <;> exact List.nodup_nil

end SymbolRename.Function
