import SymbolRename.Proofs.Document.Stored
import SymbolRename.Proofs.Function.History

/-!
# Documents are read back
-/

set_option autoImplicit false

namespace SymbolRename.Document

def fieldOf (s : Text) : Field := ⟨!s.isEmpty, some s⟩

def entryOf (s : Symbol) : Entry := .fields (some (fieldOf s.name)) (some (fieldOf s.source))

def outlineOf (f : Function) : Outline :=
  ⟨some f.name, .entries (f.parameters.map entryOf), .entries (f.locals.map entryOf)⟩

theorem ofValue_ofSymbol (s : Symbol) : Entry.ofValue (ofSymbol s) = entryOf s := rfl

theorem ofValue_ofSymbols (ss : List Symbol) :
    Section.entries ((ss.map ofSymbol).map Entry.ofValue) = .entries (ss.map entryOf) := by
  rw [List.map_map]
  exact congrArg Section.entries (List.map_congr_left fun s _ => ofValue_ofSymbol s)

theorem ofEntries_ofFunction (f : Function) : Outline.ofEntries (ofFunction f) = outlineOf f := by
  have hp : Section.ofValue? (Value.field? (sectionName .parameter) (ofFunction f)) =
      .entries (f.parameters.map entryOf) := ofValue_ofSymbols f.parameters
  have hl : Section.ofValue? (Value.field? (sectionName .localVariable) (ofFunction f)) =
      .entries (f.locals.map entryOf) := ofValue_ofSymbols f.locals
  rw [Outline.ofEntries, hp, hl]
  rfl

theorem textOr_fieldOf {default s : Text} (hs : s = [] → default = []) :
    Field.textOr default (some (fieldOf s)) = .ok s := by
  cases s with
  | nil => rw [hs rfl]; rfl
  | cons c s => rfl

theorem symbol_entryOf {defaultSource : Text} {s : Symbol} (hs : s.Storable defaultSource) :
    (entryOf s).symbol? defaultSource = .ok (some s) := by
  have hc : (fieldOf s.name).counts = true := by simpa [fieldOf] using hs.name
  rw [entryOf, Entry.symbol?, Option.any_some, hc, textOr_fieldOf hs.source,
    textOr_fieldOf fun h => absurd h hs.name]
  rfl

theorem add_fresh {f : Function} {kind : SymbolKind} {s : Symbol} (hs : s.name ∉ f.names kind) :
    f.add kind s.name s.source = .ok (f.withSymbols kind (f.symbols kind ++ [s])) := by
  rw [Function.add, if_neg (mt (Function.hasName_iff _ _).mp hs)]

theorem addEntry_entryOf {defaultSource : Text} {f : Function} {kind : SymbolKind} {s : Symbol}
    (hs : s.Storable defaultSource) (hf : s.name ∉ f.names kind) (n : ℕ) :
    addEntry defaultSource kind f (entryOf s, n) =
      .ok (f.withSymbols kind (f.symbols kind ++ [s])) := by
  rw [addEntry, symbol_entryOf hs]
  dsimp only [bind, Except.bind]
  rw [add_fresh hf]
  rfl

theorem addEntries_entryOf {defaultSource : Text} {kind : SymbolKind} {ss : List Symbol}
    (hs : ∀ s ∈ ss, s.Storable defaultSource) {f : Function}
    (hd : (f.names kind ++ ss.map (·.name)).Nodup) (n : ℕ) :
    ((ss.map entryOf).zipIdx n).foldlM (addEntry defaultSource kind) f =
      .ok (f.withSymbols kind (f.symbols kind ++ ss)) := by
  induction ss generalizing f n with
  | nil =>
    rw [List.append_nil]
    cases kind <;> rfl
  | cons s ss ih =>
    have hn : s.name ∉ f.names kind := by
      intro hm
      exact (List.nodup_append.mp hd).2.2 _ hm _ (by simp) rfl
    have hd' : ((f.withSymbols kind (f.symbols kind ++ [s])).names kind ++
        ss.map (·.name)).Nodup := by
      rw [Function.names, Function.symbols_withSymbols, if_pos rfl, List.map_append,
        List.append_assoc]
      exact hd
    rw [List.map_cons, List.zipIdx_cons, List.foldlM_cons, addEntry_entryOf (hs s (by simp)) hn]
    refine (ih (fun t ht => hs t (by simp [ht])) hd' (n + 1)).trans ?_
    rw [Function.symbols_withSymbols, if_pos rfl, List.append_assoc]
    cases kind <;> rfl

/-- A function that can be kept is what the document about it describes. -/
theorem toFunction_outlineOf {defaultSource : Text} {f : Function}
    (hf : f.Storable defaultSource) : (outlineOf f).toFunction defaultSource = .ok f := by
  obtain ⟨name, ps, ls⟩ := f
  have hps : (((List.map entryOf ps).zipIdx 0).foldlM (addEntry defaultSource .parameter)
      (.empty name)) = .ok ⟨name, ps, []⟩ := by
    have hd : ((Function.empty name).names .parameter ++ ps.map (·.name)).Nodup :=
      hf.distinct .parameter
    exact addEntries_entryOf (hf.symbols .parameter) hd 0
  have hls : (((List.map entryOf ls).zipIdx 0).foldlM (addEntry defaultSource .localVariable)
      ⟨name, ps, []⟩) = .ok ⟨name, ps, ls⟩ := by
    have hd : ((⟨name, ps, []⟩ : Function).names .localVariable ++ ls.map (·.name)).Nodup :=
      hf.distinct .localVariable
    exact addEntries_entryOf (hf.symbols .localVariable) hd 0
  have hn : ¬ name.isEmpty = true := by simpa using hf.name
  rw [Outline.toFunction, outlineOf]
  dsimp only
  rw [if_neg hn, List.foldlM_cons, addSection]
  change ((((List.map entryOf ps).zipIdx 0).foldlM (addEntry defaultSource .parameter)
      (.empty name)) >>= fun f => [SymbolKind.localVariable].foldlM _ f) = _
  rw [hps]
  change ((((List.map entryOf ls).zipIdx 0).foldlM (addEntry defaultSource .localVariable)
      ⟨name, ps, []⟩) >>= fun f => pure f) = _
  rw [hls]
  rfl

theorem batches_storable {defaultSource : Text} (dss : List (List Directive)) (d : Desk)
    (hd : d.function.Storable defaultSource) :
    (history (dss.map .apply) d).function.Storable defaultSource := by
  induction dss generalizing d with
  | nil => exact hd
  | cons ds dss ih =>
    apply ih
    apply Operation.leaves_keeps (P := Function.Storable defaultSource) _ _ _ hd
    · exact fun _ _ _ _ he => nomatch he
    · exact fun _ _ _ _ he => nomatch he
    · exact Function.carry_storable

end SymbolRename.Document
