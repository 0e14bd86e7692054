import SymbolRename.Document
import SymbolRename.Proofs.Batch.Carry
import SymbolRename.Proofs.Value.Shown

/-!
# Functions that a document can keep

A document gives back a function if its name and the names of its symbols are not empty, no
collection has a name twice, and a source is empty only where the default source is. What a mapping
describes is such a function, since whatever counts as something has a text. Renaming leaves it one.
-/

set_option autoImplicit false

namespace SymbolRename

/-- A document can keep the symbol, if sources that are left out are the default. -/
structure Symbol.Storable (defaultSource : Text) (s : Symbol) : Prop where
  name : s.name ≠ []
  source : s.source = [] → defaultSource = []

namespace Function

structure Storable (defaultSource : Text) (f : Function) : Prop where
  name : f.name ≠ []
  distinct : f.Distinct
  symbols : ∀ kind, ∀ s ∈ f.symbols kind, s.Storable defaultSource

theorem empty_storable (defaultSource : Text) {name : Text} (hn : name ≠ []) :
    (empty name).Storable defaultSource := by
  refine ⟨hn, empty_distinct name, ?_⟩
  rintro (_ | _) s hs <;> cases hs

theorem add_storable {defaultSource : Text} {f g : Function} {kind : SymbolKind} {s : Symbol}
    (hf : f.Storable defaultSource) (hs : s.Storable defaultSource)
    (ha : f.add kind s.name s.source = .ok g) : g.Storable defaultSource := by
  have hd : g.Distinct := add_distinct ha hf.distinct
  obtain ⟨-, rfl⟩ := add_ok ha
  refine ⟨by rw [name_withSymbols]; exact hf.name, hd, fun other t ht => ?_⟩
  rw [symbols_withSymbols] at ht
  split at ht
  · rcases List.mem_append.mp ht with hm | hm
    · exact hf.symbols kind t hm
    · rw [List.mem_singleton.mp hm]
      exact hs
  · exact hf.symbols other t ht

theorem givable_ne_nil {name : Text} (h : isGivable name = true) : name ≠ [] := by
  rintro rfl
  cases h

theorem carry_storable {defaultSource : Text} (f : Function) (d : Directive)
    (hf : f.Storable defaultSource) : (f.carry d).2.Storable defaultSource := by
  have hd : (f.carry d).2.Distinct := carry_distinct f d hf.distinct
  refine ⟨by rw [name_carry]; exact hf.name, hd, ?_⟩
  have hc := f.carry_carries d
  generalize f.carry d = c at hc
  cases hc with
  | @applied h s target symbol name good free =>
    intro kind t ht
    rw [symbols_place] at ht
    split at ht
    · rcases List.mem_or_eq_of_mem_set ht with hm | rfl
      · exact hf.symbols kind t hm
      · have hs : s.Storable defaultSource := hf.symbols h.kind s (List.mem_of_getElem? symbol)
        exact ⟨givable_ne_nil good, hs.source⟩
    · exact hf.symbols kind t ht
  | _ => exact hf.symbols

end Function

namespace Document

def Field.Telling (f : Field) : Prop := f.counts = true → f.text? ≠ some []

def Entry.Telling : Entry → Prop
  | .fields name source => (∀ f ∈ name, f.Telling) ∧ ∀ f ∈ source, f.Telling
  | _ => True

def Section.Telling : Section → Prop
  | .entries es => ∀ e ∈ es, e.Telling
  | _ => True

def Outline.Telling (o : Outline) : Prop := ∀ kind, (o.collection kind).Telling

theorem ofValue_telling (v : Value) : (Field.ofValue v).Telling :=
  fun hv he => Value.shown_ne_nil hv (Option.some.inj he)

theorem entry_telling (v : Value) : (Entry.ofValue v).Telling := by
  cases v with
  | dict es =>
    constructor
    · intro f hf
      obtain ⟨v, -, rfl⟩ := Option.map_eq_some_iff.mp hf
      exact ofValue_telling v
    · intro f hf
      obtain ⟨v, -, rfl⟩ := Option.map_eq_some_iff.mp hf
      exact ofValue_telling v
  | _ => trivial

theorem section_telling (v : Option Value) : (Section.ofValue? v).Telling := by
  rw [Section.ofValue?.eq_def]
  split
  · trivial
  · intro e he
    obtain ⟨v, -, rfl⟩ := List.mem_map.mp he
    exact entry_telling v
  · trivial

theorem ofEntries_telling (es : List (Value × Value)) : (Outline.ofEntries es).Telling := by
  rintro (_ | _) <;> exact section_telling _

theorem textOr_counts {default s : Text} {f : Field} (hf : f.counts = true)
    (h : Field.textOr default (some f) = .ok s) : f.text? = some s := by
  rw [Field.textOr, hf, Bool.not_true, if_neg Bool.false_ne_true] at h
  split at h
  · next t ht =>
    cases h
    exact ht
  · cases h

theorem textOr_nil {default : Text} {f : Option Field} (hf : ∀ g ∈ f, g.Telling)
    (h : Field.textOr default f = .ok []) : default = [] := by
  cases f with
  | none =>
    cases h
    rfl
  | some g =>
    by_cases hc : g.counts = true
    · exact absurd (textOr_counts hc h) (hf g rfl hc)
    · rw [Field.textOr, if_pos (by simpa using hc)] at h
      cases h
      rfl

theorem symbol_storable {defaultSource : Text} {e : Entry} {s : Symbol} (he : e.Telling)
    (h : e.symbol? defaultSource = .ok (some s)) : s.Storable defaultSource := by
  cases e with
  | text t =>
    rw [Entry.symbol?] at h
    split at h
    · cases h
    · next hn =>
      cases h
      exact ⟨by simpa using hn, id⟩
  | other => cases h
  | fields name source =>
    rw [Entry.symbol?] at h
    split at h
    · cases h
    · next hn =>
      obtain ⟨g, rfl, hg⟩ : ∃ g, name = some g ∧ g.counts = true := by
        simpa [Option.any_eq_true] using hn
      obtain ⟨t, hs, h⟩ := bind_eq_ok h
      obtain ⟨m, hm, h⟩ := bind_eq_ok h
      cases h
      constructor
      · rintro rfl
        exact he.1 g rfl hg (textOr_counts hg hm)
      · rintro rfl
        exact textOr_nil he.2 hs

theorem foldlM_keeps {ε α β : Type} {P : β → Prop} {add : β → α → Except ε β} {as : List α}
    (ha : ∀ a ∈ as, ∀ b c, P b → add b a = .ok c → P c) {b c : β} (hb : P b)
    (h : as.foldlM add b = .ok c) : P c := by
  induction as generalizing b with
  | nil =>
    cases h
    exact hb
  | cons a as ih =>
    rw [List.foldlM_cons] at h
    obtain ⟨m, hm, h⟩ := bind_eq_ok h
    exact ih (fun x hx => ha x (by simp [hx])) (ha a (by simp) b m hb hm) h

theorem addEntry_storable {defaultSource : Text} {kind : SymbolKind} {f g : Function}
    {e : Entry × ℕ} (he : e.1.Telling) (hf : f.Storable defaultSource)
    (h : addEntry defaultSource kind f e = .ok g) : g.Storable defaultSource := by
  rw [addEntry] at h
  obtain ⟨r, hs, h⟩ := bind_eq_ok h
  cases r with
  | none => cases h
  | some s =>
    dsimp only at h
    split at h
    · next ha =>
      cases h
      exact f.add_storable hf (symbol_storable he hs) ha
    · cases h

theorem addSection_storable {o : Outline} {defaultSource : Text} {f g : Function}
    {kind : SymbolKind} (ho : o.Telling) (hf : f.Storable defaultSource)
    (h : addSection o defaultSource f kind = .ok g) : g.Storable defaultSource := by
  have ht := ho kind
  rw [addSection] at h
  cases hc : o.collection kind with
  | absent =>
    rw [hc] at h
    cases h
    exact hf
  | notList =>
    rw [hc] at h
    cases h
  | entries es =>
    rw [hc] at h ht
    refine foldlM_keeps (fun e he b c hb hbc => ?_) hf h
    exact addEntry_storable (ht e.1 (List.fst_mem_of_mem_zipIdx he)) hb hbc

theorem toFunction_storable {o : Outline} {defaultSource : Text} {f : Function} (ho : o.Telling)
    (h : o.toFunction defaultSource = .ok f) : f.Storable defaultSource := by
  rw [Outline.toFunction] at h
  split at h
  · next name _ =>
    split at h
    · cases h
    · next hn =>
      refine foldlM_keeps (fun kind _ b c hb hbc => addSection_storable ho hb hbc) ?_ h
      exact Function.empty_storable defaultSource (by simpa using hn)
  · cases h

end Document
end SymbolRename
