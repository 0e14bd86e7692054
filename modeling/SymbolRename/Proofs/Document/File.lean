import SymbolRename.Document.File
import SymbolRename.Proofs.Document.RoundTrip
import SymbolRename.Proofs.Files.Tree
import SymbolRename.Proofs.Yaml.Object
import SymbolRename.Proofs.Yaml.Supply
import SymbolRename.Proofs.Yaml.Written

/-!
# Saving a function and loading it
-/

set_option autoImplicit false

namespace SymbolRename.Document
open Files World
open Yaml (Objects)
open Text (unifyBreaks)

namespace Contents

theorem field_text {c : Objects} {n : ℕ} {s : Text} (h : c.object n = .scalar (.text s)) :
    field c n = fieldOf s := by
  rw [field, Objects.isTruthy, Objects.shown?, h]
  rfl

theorem field_telling (c : Objects) (n : ℕ) : (field c n).Telling :=
  fun hn he => Objects.shown?_ne_nil he hn rfl

theorem entryOf_telling (c : Objects) (n : ℕ) : (entryOf c n).Telling := by
  rw [entryOf]
  split
  · trivial
  · constructor
    · intro f hf
      obtain ⟨m, -, rfl⟩ := Option.map_eq_some_iff.mp hf
      exact field_telling c m
    · intro f hf
      obtain ⟨m, -, rfl⟩ := Option.map_eq_some_iff.mp hf
      exact field_telling c m
  · trivial

theorem sectionOf_telling (c : Contents) (kind : SymbolKind) : (c.sectionOf kind).Telling := by
  rw [sectionOf]
  split
  · trivial
  · split
    · intro e he
      obtain ⟨n, -, rfl⟩ := List.mem_map.mp he
      exact entryOf_telling _ n
    · intro e he
      obtain ⟨n, -, rfl⟩ := List.mem_map.mp he
      trivial
    · trivial

theorem outline_telling (c : Contents) : c.outline.Telling := by
  rintro (_ | _) <;> exact sectionOf_telling c _

theorem fieldOf?_cons {c : Objects} {e : ℕ × ℕ} {k : Text} (he : c.object e.1 = .scalar (.text k))
    (key : Text) (es : List (ℕ × ℕ)) :
    fieldOf? c key (e :: es) = if k = key then some e.2 else fieldOf? c key es := by
  rw [fieldOf?, List.find?_cons, he]
  change (match k == key with | true => some e | false => _).map _ = _
  by_cases hk : k = key
  · rw [if_pos hk, show (k == key) = true from beq_iff_eq.mpr hk]
    rfl
  · rw [if_neg hk, show (k == key) = false from beq_eq_false_iff_ne.mpr hk]
    rfl

/-- Two entries of texts. -/
theorem objects_of_entry {c : Objects} {fuel : ℕ} {e : ℕ × ℕ} {k t : Text}
    (h : (c.holdsWith fuel e.1 (.text k) && c.holdsWith fuel e.2 (.text t)) = true) :
    c.object e.1 = .scalar (.text k) ∧ c.object e.2 = .scalar (.text t) := by
  rw [Bool.and_eq_true] at h
  exact ⟨Objects.object_of_text h.1, Objects.object_of_text h.2⟩

theorem entryOf_symbol {c : Objects} {fuel n : ℕ} {s : Symbol}
    (h : c.holdsWith fuel n (ofSymbol s) = true) : entryOf c n = Document.entryOf s := by
  obtain ⟨_, es, ho, hes⟩ := Objects.object_of_dict h
  cases hes with
  | @cons name _ _ _ hname hes =>
  cases hes with
  | @cons source _ _ _ hsource hes =>
  cases hes
  obtain ⟨hk, hv⟩ := objects_of_entry hname
  obtain ⟨hk', hv'⟩ := objects_of_entry hsource
  have hne : (Text.ofString "name") ≠ "source" := by decide
  rw [entryOf, ho]
  dsimp only
  rw [fieldOf?_cons hk, if_pos rfl, fieldOf?_cons hk, if_neg hne, fieldOf?_cons hk', if_pos rfl,
    Option.map_some, Option.map_some, field_text hv, field_text hv']
  rfl

theorem entries_of_list {c : Objects} {fuel n : ℕ} {ss : List Symbol}
    (h : c.holdsWith fuel n (.list (ss.map ofSymbol)) = true) :
    ∃ ns, c.object n = .list ns ∧ ns.map (entryOf c) = ss.map Document.entryOf := by
  obtain ⟨_, ns, ho, hns⟩ := Objects.object_of_list h
  refine ⟨ns, ho, ?_⟩
  rw [List.forall₂_map_right_iff] at hns
  clear ho h
  induction hns with
  | nil => rfl
  | cons hn _ ih => rw [List.map_cons, List.map_cons, entryOf_symbol hn, ih]

theorem kept_text {c : Objects} {e : ℕ × ℕ} {k : Text} (hk : c.object e.1 = .scalar (.text k))
    (hn : isNull (c.object e.2) = false) : kept? c e = .ok (some (k, e.2)) := by
  rw [kept?, if_neg (by simp [hn]), Objects.shown?, hk]
  rfl

theorem name?_text {contents : Contents} {n : ℕ} {s : Text} (hg : contents.get? "name" = some n)
    (ho : contents.objects.object n = .scalar (.text s)) : contents.name? = some s := by
  rw [name?, hg, Option.map_some, ho]

theorem sectionOf_list {contents : Contents} {kind : SymbolKind} {n : ℕ} {ns : List ℕ}
    (hg : contents.get? (sectionName kind) = some n) (ho : contents.objects.object n = .list ns) :
    contents.sectionOf kind = .entries (ns.map (entryOf contents.objects)) := by
  rw [sectionOf, hg]
  dsimp only
  rw [ho]

/-- Objects that stand for the document of a function are looked at as this document is. -/
theorem outline_of_holds {c : Objects} {fuel : ℕ} {f : Function}
    (h : c.holdsWith fuel c.root (.dict (ofFunction f)) = true) :
    ∃ contents, ofObjects c = .ok contents ∧ contents.outline = outlineOf f := by
  obtain ⟨_, es, ho, hes⟩ := Objects.object_of_dict h
  cases hes with
  | @cons name _ _ _ hname hes =>
  cases hes with
  | @cons parameters _ _ _ hparameters hes =>
  cases hes with
  | @cons locals _ _ _ hlocals hes =>
  cases hes
  obtain ⟨hk, hv⟩ := objects_of_entry hname
  rw [Bool.and_eq_true] at hparameters hlocals
  have hkp := Objects.object_of_text hparameters.1
  have hkl := Objects.object_of_text hlocals.1
  obtain ⟨ps, hp, hpe⟩ := entries_of_list hparameters.2
  obtain ⟨ls, hl, hle⟩ := entries_of_list hlocals.2
  have hmap : [name, parameters, locals].mapM (kept? c) =
      .ok [some ("name", name.2), some ("parameters", parameters.2), some ("locals", locals.2)] := by
    rw [List.mapM_cons, List.mapM_cons, List.mapM_cons, List.mapM_nil,
      kept_text hk (by rw [hv]; rfl), kept_text hkp (by rw [hp]; rfl),
      kept_text hkl (by rw [hl]; rfl)]
    rfl
  refine ⟨⟨c, [("name", name.2), ("parameters", parameters.2), ("locals", locals.2)]⟩, ?_, ?_⟩
  · rw [ofObjects, ho]
    dsimp only
    rw [hmap]
    rfl
  · have hn : name? ⟨c, [("name", name.2), ("parameters", parameters.2), ("locals", locals.2)]⟩ =
        some f.name := name?_text rfl hv
    rw [outline, hn, sectionOf_list rfl hp, sectionOf_list rfl hl, hpe, hle, outlineOf]

end Contents

def readsAs (text : List Char) (v : Value) : Bool :=
  match Objects.read ⟨text, none⟩ with
  | .ok (some c) => c.holdsWith (c.objects.size + 1) c.root v
  | _ => false

theorem orFault_ok {δ α : Type} (wrap : δ → SymbolRename.Fault) (a : α) (w : World) :
    (orFault wrap (.ok a)).run w = (.ok a, w) := rfl

theorem loadContents_run {w : World} {p : Path} {place : Place} {bytes : List UInt8} {c : Objects}
    {contents : Contents} (hf : w.files.find w.here p = .ok (.file place bytes))
    (hr : Objects.read (.ofBytes bytes) = .ok (some c))
    (hc : Contents.ofObjects c = .ok contents) :
    (loadContents p).run w = (.ok contents, w) := by
  rw [loadContents, Task.run_bind_ok (Task.run_get w), Tree.present_of_find hf,
    Tree.read_of_find hf, Task.run_bind_ok (orFault_ok .file true w), if_neg (by simp),
    Task.run_bind_ok (orFault_ok .file bytes w), hr]
  dsimp only
  rw [hc]
  rfl

theorem load_run {w : World} {p : Path} {place : Place} {bytes : List UInt8} {c : Objects}
    {contents : Contents} {defaultSource : Text} {f : Function}
    (hf : w.files.find w.here p = .ok (.file place bytes))
    (hr : Objects.read (.ofBytes bytes) = .ok (some c))
    (hc : Contents.ofObjects c = .ok contents)
    (ho : contents.outline.toFunction defaultSource = .ok f) :
    (load p defaultSource).run w =
      (.ok f, { w with journal := w.journal ++
        [.log ⟨.debug, .document, "Loaded " ++ f.literal ++ " from " ++ p.text⟩] }) := by
  rw [load, Task.run_bind_ok (Task.run_get w), Tree.isFile_of_find hf,
    Task.run_bind_ok (orFault_ok .file true w), if_neg (by simp),
    Task.run_bind_ok (loadContents_run hf hr hc), ho,
    Task.run_bind_ok (orFault_ok _ f w)]
  rfl

theorem currentText_of_find {t : Tree} {here place : Place} {p : Path} {bytes : List UInt8}
    {r : List Char} (hf : t.find here p = .ok (.file place bytes))
    (hd : Text.Utf8.Decodes bytes r) : currentText? t here p = some (unifyBreaks r) := by
  rw [currentText?, Tree.read_of_find hf]
  dsimp only
  rw [Text.Utf8.decodes_decode hd]

theorem currentText_some {t : Tree} {here : Place} {p : Path} {s : List Char}
    (h : currentText? t here p = some s) :
    ∃ bytes r, t.read here p = .ok bytes ∧ Text.Utf8.Decodes bytes r ∧ unifyBreaks r = s := by
  rw [currentText?] at h
  split at h
  · next bytes hb =>
    split at h
    · next r hr =>
      cases h
      exact ⟨bytes, r, hb, Text.Utf8.decode_eq_ok_iff.mp hr, rfl⟩
    · cases h
  · cases h

/-- Whether the file was written or held the text already, it holds the text now. -/
theorem writeIfNew_ok {t u : Tree} {here : Place} {p : Path} {s : List Char} {b : Bool}
    (hs : t.Standing here) (hr : '\r' ∉ s) (h : writeIfNew t here p s = .ok (b, u)) :
    ∃ place bytes r, u.find here p = .ok (.file place bytes) ∧ Text.Utf8.Decodes bytes r ∧
      unifyBreaks r = s := by
  rw [writeIfNew] at h
  obtain ⟨found, hp, h⟩ := bind_eq_ok h
  split at h
  · next hc =>
    cases h
    rw [Bool.and_eq_true, decide_eq_true_eq] at hc
    obtain ⟨bytes, r, hread, hd, hu⟩ := currentText_some hc.2
    obtain ⟨place, hf⟩ := Tree.find_of_read hread
    exact ⟨place, bytes, r, hf, hd, hu⟩
  · obtain ⟨v, hw, h⟩ := bind_eq_ok h
    cases h
    obtain ⟨place, hf⟩ := Tree.find_writeDeep hs (Tree.fitsLength_of_present hp) hw
    exact ⟨place, _, s, hf, Text.Utf8.encode_decodes s, Text.unifyBreaks_self hr⟩

theorem store_eq {entries : List (Value × Value)} {s : List Char}
    (h : Yaml.Writer.write? true (.dict entries) = some s) (p : Path) : store p entries = (do
      let w ← get
      let (written, files) ← orFault .file (writeIfNew w.files w.here p s)
      set { w with files := files }
      return written) := by
  rw [store, h]

theorem store_run {p : Path} {entries : List (Value × Value)} {s : List Char} {w : World}
    {b : Bool} {u : Tree} (h : Yaml.Writer.write? true (.dict entries) = some s)
    (hw : writeIfNew w.files w.here p s = .ok (b, u)) :
    (store p entries).run w = (.ok b, { w with files := u }) := by
  rw [store_eq h, Task.run_bind_ok (Task.run_get w), hw,
    Task.run_bind_ok (orFault_ok .file (b, u) w)]
  rfl

theorem store_ok {p : Path} {entries : List (Value × Value)} {s : List Char} {v v' : World}
    {b : Bool} (hd : Yaml.Writer.write? true (.dict entries) = some s)
    (h : (store p entries).run v = (.ok b, v')) :
    ∃ files, writeIfNew v.files v.here p s = .ok (b, files) ∧ v' = { v with files := files } := by
  rw [store_eq hd, Task.run_bind_ok (Task.run_get v)] at h
  cases hw : writeIfNew v.files v.here p s with
  | error e =>
    rw [hw] at h
    cases h
  | ok r =>
    rw [hw, Task.run_bind_ok (orFault_ok _ r v)] at h
    cases h
    exact ⟨_, rfl, rfl⟩

/-- The document of a function is never nested too deep. -/
theorem write_ofFunction (f : Function) :
    Yaml.Writer.write? true (.dict (ofFunction f)) = some (text (ofFunction f)) := by
  have hs (ss : List Symbol) : Yaml.Writer.depths (ss.map ofSymbol) ≤ 1 := by
    induction ss with
    | nil => exact Nat.zero_le 1
    | cons s ss ih => exact max_le le_rfl ih
  refine if_pos ?_
  have hp := hs f.parameters
  have hl := hs f.locals
  simp only [ofFunction, Yaml.Writer.depth, Yaml.Writer.entryDepths, Yaml.Writer.depthLimit]
  omega

theorem save_ok {p : Path} {f : Function} {v v' : World} {b : Bool}
    (h : (save p f).run v = (.ok b, v')) :
    ∃ files, writeIfNew v.files v.here p (text (ofFunction f)) = .ok (b, files) ∧
      v' = { v with files := files } := store_ok (write_ofFunction f) h

theorem ofSymbol_lasting (s : Symbol) : Yaml.Writer.ValueLasting (ofSymbol s) := by
  apply Yaml.Writer.valueLasting_dict [("name", .text s.name), ("source", .text s.source)]
  intro e he
  rcases List.mem_pair.mp he with rfl | rfl
  · exact Yaml.Writer.valueLasting_text s.name
  · exact Yaml.Writer.valueLasting_text s.source

theorem symbols_lasting (ss : List Symbol) :
    Yaml.Writer.ValueLasting (.list (ss.map ofSymbol)) := by
  apply Yaml.Writer.valueLasting_list
  intro v hv
  obtain ⟨s, -, rfl⟩ := List.mem_map.mp hv
  exact ofSymbol_lasting s

theorem text_lasting (f : Function) : Yaml.AllLasting (text (ofFunction f)) := by
  apply Yaml.Writer.document_lasting [("name", .text f.name),
    ("parameters", .list (f.parameters.map ofSymbol)), ("locals", .list (f.locals.map ofSymbol))]
  intro e he
  simp only [List.mem_cons, List.not_mem_nil, or_false] at he
  rcases he with rfl | rfl | rfl
  · exact Yaml.Writer.valueLasting_text f.name
  · exact symbols_lasting f.parameters
  · exact symbols_lasting f.locals

/-- If YAML gives back the document of a function that can be kept, loading what was saved gives
back the function. -/
theorem load_saved {defaultSource : Text} {f : Function} (hf : f.Storable defaultSource)
    (hy : readsAs (text (ofFunction f)) (.dict (ofFunction f)) = true) {p : Path} {v v' : World}
    {b : Bool} (hs : v.files.Standing v.here) (h : (save p f).run v = (.ok b, v')) :
    ∃ v'', (load p defaultSource).run v' = (.ok f, v'') := by
  have hlasting := text_lasting f
  obtain ⟨files, hw, rfl⟩ := save_ok h
  obtain ⟨place, bytes, r, hfind, hd, hu⟩ := writeIfNew_ok hs (fun hm => (hlasting _ hm).2 rfl) hw
  have hsupply : Yaml.Supply.ofBytes bytes = ⟨text (ofFunction f), none⟩ := by
    rw [Yaml.Supply.ofBytes_decodes hd, hu]
    exact Yaml.Supply.upToForbidden_allowed fun c hc => (hlasting c hc).1
  unfold readsAs at hy
  split at hy
  · next c hc =>
    obtain ⟨contents, ho, hout⟩ := Contents.outline_of_holds hy
    rw [← hsupply] at hc
    refine ⟨_, load_run hfind hc ho ?_⟩
    rw [hout]
    exact toFunction_outlineOf hf
  · cases hy

/-- A mapping that may describe a function: the entries of a dictionary, or what a file holds, where
a collection may stand in itself. -/
inductive Mapping where
  | entries (es : List (Value × Value))
  | contents (c : Contents)

def Mapping.outline : Mapping → Outline
  | .entries es => .ofEntries es
  | .contents c => c.outline

theorem outline_telling (m : Mapping) : m.outline.Telling := by
  cases m with
  | entries es => exact ofEntries_telling es
  | contents c => exact Contents.outline_telling c

/-- Whatever mapping describes a function, and whatever batches the function goes through, the
document about it describes just this function, with the same default source. So, if YAML gives back
this document, the function is loaded again from any file that it is saved to. -/
theorem document_keeps_function {m : Mapping} {defaultSource : Text} {f : Function}
    (accepted : m.outline.toFunction defaultSource = .ok f) (dss : List (List Directive))
    (w : World) :
    let g := (history (dss.map .apply) ⟨w, f⟩).function
    toFunction (ofFunction g) defaultSource = .ok g ∧
    (readsAs (text (ofFunction g)) (.dict (ofFunction g)) = true →
      ∀ (p : Path) (v v' : World) (b : Bool), v.files.Standing v.here →
        (save p g).run v = (.ok b, v') →
          ∃ v'', (load p defaultSource).run v' = (.ok g, v'')) := by
  intro g
  have hf : f.Storable defaultSource := toFunction_storable (outline_telling m) accepted
  have hg : g.Storable defaultSource := batches_storable dss ⟨w, f⟩ hf
  constructor
  · rw [toFunction, ofEntries_ofFunction]
    exact toFunction_outlineOf hg
  · exact fun hy p v v' b hs h => load_saved hg hy hs h

/-- A document in which a name is a number, sources are left out or empty, and the default source is
empty as well. -/
def sparse : List (Value × Value) :=
  [(.text "name", .text "f"),
    (.text "parameters", .list [.text "a", .dict [(.text "name", .int 7)]]),
    (.text "locals", .list [.dict [(.text "name", .text "a"), (.text "source", .text "")]])]

def sparseFunction : Function := ⟨"f", [⟨"a", []⟩, ⟨"7", []⟩], [⟨"a", []⟩]⟩

theorem document_keeps_function_sparse :
    (Mapping.entries sparse).outline.toFunction [] = .ok sparseFunction ∧
    ∃ v v' : World,
      (save (.ofText "f.yaml") ⟨"f", [⟨"a", []⟩, ⟨"7", []⟩], [⟨"c", []⟩]⟩).run .silent =
        (.ok true, v) ∧
      (load (.ofText "f.yaml") []).run v =
        (.ok ⟨"f", [⟨"a", []⟩, ⟨"7", []⟩], [⟨"c", []⟩]⟩, v') := by
  have accepted : (Mapping.entries sparse).outline.toFunction [] = .ok sparseFunction := rfl
  have hk := (document_keeps_function accepted
    [[⟨"a", "b", ""⟩, ⟨"7", "a", ""⟩], [⟨"b", "c", ""⟩]] .silent).2
  have hg : (history ([[⟨"a", "b", ""⟩, ⟨"7", "a", ""⟩], [⟨"b", "c", ""⟩]].map .apply)
      ⟨.silent, sparseFunction⟩).function = ⟨"f", [⟨"a", []⟩, ⟨"7", []⟩], [⟨"c", []⟩]⟩ := rfl
  rw [hg] at hk
  refine ⟨accepted, ?_⟩
  obtain ⟨v, hv⟩ : ∃ v, (save (.ofText "f.yaml")
      ⟨"f", [⟨"a", []⟩, ⟨"7", []⟩], [⟨"c", []⟩]⟩).run .silent = (.ok true, v) := ⟨_, rfl⟩
  obtain ⟨v', hl⟩ := hk (by decide +kernel) _ _ _ _ (Tree.standing_root _) hv
  exact ⟨v, v', hv, hl⟩

end SymbolRename.Document
