import SymbolRename.Proofs.Message.History
import SymbolRename.Proofs.Message.Layers
import SymbolRename.Proofs.Text.Lines
import Mathlib.Data.Prod.Lex
import Mathlib.Data.List.Range

/-!
# The definitions of a key

Every leaf of a message file defines a key. Definitions are ordered by the root they come from, the
directory of the language in this root, the file and the place in the file, and a key has the text
of the last one. If the language has none of a key, the last one in English counts, and a key
without any definition stands for itself.
-/

set_option autoImplicit false

namespace SymbolRename.Message
open Files
open Entries (last?)

/-- A text of a message file: the numbers of its root and of the directory in that root, the file
with its names from there, the place among the leaves of the file and the keys that lead to it. -/
structure Definition where
  root : ℕ
  layer : ℕ
  file : Place
  position : ℕ
  path : List Text
  text : Text
deriving DecidableEq

namespace Definition

def rank (d : Definition) : ℕ ×ₗ ℕ ×ₗ List (List ℕ) ×ₗ ℕ :=
  toLex (d.root, toLex (d.layer, toLex (spelled d.file, d.position)))

def Precedes (d e : Definition) : Prop := d.rank < e.rank

theorem precedes_iff (d e : Definition) : d.Precedes e ↔ d.root < e.root ∨ d.root = e.root ∧
    (d.layer < e.layer ∨ d.layer = e.layer ∧
      (spelled d.file < spelled e.file ∨ spelled d.file = spelled e.file ∧
        d.position < e.position)) := by
  simp only [Precedes, rank, Prod.Lex.toLex_lt_toLex]

def entry (d : Definition) : Text × Text := (address d.path, d.text)

end Definition

def Root.tree (v : Sight) (r : Root) : Tree := (r.seen v.files v.here).1

def Root.origin (v : Sight) (r : Root) : Place := (r.seen v.files v.here).2.1

def Root.top (v : Sight) (r : Root) : Path := (r.seen v.files v.here).2.2

def Root.directories (v : Sight) (lang : Text) (r : Root) : List Path :=
  [⟨(r.top v).rooted, (r.top v).parts ++ [("needle" : Text), lang]⟩,
    ⟨(r.top v).rooted, (r.top v).parts ++ [(".namesmith" : Text), "needle", lang]⟩]

structure IsName (lang : Text) : Prop where
  nonempty : lang ≠ []
  single : .char '/' ∉ lang
  proper : lang ≠ "."

instance (lang : Text) : Decidable (IsName lang) :=
  decidable_of_iff (lang ≠ [] ∧ .char '/' ∉ lang ∧ lang ≠ ".")
    ⟨fun ⟨h, hs, hp⟩ => ⟨h, hs, hp⟩, fun h => ⟨h.nonempty, h.single, h.proper⟩⟩

def Defines (v : Sight) (roots : List Root) (lang : Text) (d : Definition) : Prop :=
  ∃ root top place bytes es, roots[d.root]? = some root ∧
    (root.directories v lang)[d.layer]? = some top ∧
    (root.tree v).find (root.origin v) top = .ok (.directory place) ∧
    d.file ≠ [] ∧ (root.tree v).node? (place ++ d.file) = some (.file bytes) ∧
    IsMessageName d.file ∧ object? bytes = some es ∧
    (leaves [] es)[d.position]? = some (d.path, d.text)

/-- A definition of a key that all others of it stand before. -/
structure IsLast (v : Sight) (roots : List Root) (lang key : Text) (d : Definition) : Prop where
  defines : Defines v roots lang d
  names : address d.path = key
  last : ∀ e, Defines v roots lang e → address e.path = key → e = d ∨ e.Precedes d

def Lacks (v : Sight) (roots : List Root) (lang key : Text) : Prop :=
  ∀ d, Defines v roots lang d → address d.path ≠ key

inductive Answers (v : Sight) (roots : List Root) (lang key : Text) : Text → Prop where
  | own {d : Definition} (h : IsLast v roots lang key d) : Answers v roots lang key d.text
  | english {d : Definition} (hl : Lacks v roots lang key) (h : IsLast v roots "en" key d) :
    Answers v roots lang key d.text
  | none (hl : Lacks v roots lang key) (h : Lacks v roots "en" key) : Answers v roots lang key key

/-- All message files of a language can be reached and are not nested too deep. -/
def Readable (v : Sight) (roots : List Root) (lang : Text) : Prop :=
  ∀ root ∈ roots, ∀ top ∈ root.directories v lang, Legible (root.tree v) (root.origin v) top

/-! ## Definitions in order -/

def definitionsIn (n layer : ℕ) (file : Place × List UInt8) : List Definition :=
  (leavesIn file).zipIdx.map fun l => ⟨n, layer, file.1, l.2, l.1.1, l.1.2⟩

def definitionsBelow (t : Tree) (here : Place) (n layer : ℕ) (top : Path) : List Definition :=
  (filesOf t here top).flatMap (definitionsIn n layer)

def definitionsOf (v : Sight) (lang : Text) (n : ℕ) (root : Root) : List Definition :=
  (root.directories v lang).zipIdx.flatMap fun top =>
    definitionsBelow (root.tree v) (root.origin v) n top.2 top.1

def definitions (v : Sight) (roots : List Root) (lang : Text) : List Definition :=
  roots.zipIdx.flatMap fun root => definitionsOf v lang root.2 root.1

theorem packaged_proper : Packaged.tree.Proper := by
  unfold Tree.Proper
  decide

theorem tree_proper {v : Sight} (h : v.files.Proper) (r : Root) : (r.tree v).Proper := by
  cases r with
  | packaged => exact packaged_proper
  | project p => exact h

section Members
variable {v : Sight} {roots : List Root} {lang : Text} {d : Definition}

theorem mem_definitionsIn {n layer : ℕ} {file : Place × List UInt8} :
    d ∈ definitionsIn n layer file ↔ d.root = n ∧ d.layer = layer ∧ d.file = file.1 ∧
      (leavesIn file)[d.position]? = some (d.path, d.text) := by
  rw [definitionsIn, List.mem_map]
  constructor
  · rintro ⟨⟨l, i⟩, hm, rfl⟩
    exact ⟨rfl, rfl, rfl, List.mk_mem_zipIdx_iff_getElem?.mp hm⟩
  · rintro ⟨rfl, rfl, hf, hm⟩
    refine ⟨((d.path, d.text), d.position), List.mk_mem_zipIdx_iff_getElem?.mpr hm, ?_⟩
    rw [← hf]

theorem getElem?_leavesIn {file : Place × List UInt8} (hf : file.1 ≠ []) {i : ℕ}
    {l : List Text × Text} : (leavesIn file)[i]? = some l ↔
      IsMessageName file.1 ∧ ∃ es, object? file.2 = some es ∧ (leaves [] es)[i]? = some l := by
  have ha := isMessageFile_name hf
  rw [leavesIn]
  by_cases hn : IsMessageName file.1
  · rw [if_pos (ha.mpr hn)]
    cases object? file.2 <;> simp [hn]
  · rw [if_neg (mt ha.mp hn)]
    simp [hn]

theorem mem_definitionsBelow {t : Tree} (ht : t.Proper) {here : Place} {n layer : ℕ} {top : Path} :
    d ∈ definitionsBelow t here n layer top ↔ d.root = n ∧ d.layer = layer ∧
      ∃ place bytes es, t.find here top = .ok (.directory place) ∧ d.file ≠ [] ∧
        t.node? (place ++ d.file) = some (.file bytes) ∧ IsMessageName d.file ∧
        object? bytes = some es ∧ (leaves [] es)[d.position]? = some (d.path, d.text) := by
  rw [definitionsBelow, List.mem_flatMap]
  constructor
  · rintro ⟨⟨file, bytes⟩, hm, hd⟩
    obtain ⟨hr, hl, hf, hg⟩ := mem_definitionsIn.mp hd
    obtain ⟨place, hp, hne, hb⟩ := (mem_filesOf ht).mp hm
    obtain ⟨hn, es, ho, he⟩ := (getElem?_leavesIn hne).mp hg
    rw [hf]
    exact ⟨hr, hl, place, bytes, es, hp, hne, hb, hn, ho, he⟩
  · rintro ⟨hr, hl, place, bytes, es, hp, hne, hb, hn, ho, he⟩
    exact ⟨(d.file, bytes), (mem_filesOf ht).mpr ⟨place, hp, hne, hb⟩,
      mem_definitionsIn.mpr ⟨hr, hl, rfl, (getElem?_leavesIn hne).mpr ⟨hn, es, ho, he⟩⟩⟩

theorem mem_definitionsOf (h : v.files.Proper) {n : ℕ} {root : Root} :
    d ∈ definitionsOf v lang n root ↔ d.root = n ∧ ∃ top,
      (root.directories v lang)[d.layer]? = some top ∧
      d ∈ definitionsBelow (root.tree v) (root.origin v) n d.layer top := by
  rw [definitionsOf, List.mem_flatMap]
  constructor
  · rintro ⟨⟨top, layer⟩, hm, hd⟩
    obtain ⟨hr, rfl, -⟩ := (mem_definitionsBelow (tree_proper h root)).mp hd
    exact ⟨hr, top, List.mk_mem_zipIdx_iff_getElem?.mp hm, hd⟩
  · rintro ⟨-, top, hm, hd⟩
    exact ⟨(top, d.layer), List.mk_mem_zipIdx_iff_getElem?.mpr hm, hd⟩

theorem mem_definitions (h : v.files.Proper) :
    d ∈ definitions v roots lang ↔ Defines v roots lang d := by
  rw [definitions, List.mem_flatMap]
  constructor
  · rintro ⟨⟨root, n⟩, hm, hd⟩
    obtain ⟨rfl, top, ht, hd⟩ := (mem_definitionsOf h).mp hd
    obtain ⟨-, -, place, bytes, es, hb⟩ := (mem_definitionsBelow (tree_proper h root)).mp hd
    exact ⟨root, top, place, bytes, es, List.mk_mem_zipIdx_iff_getElem?.mp hm, ht, hb⟩
  · rintro ⟨root, top, place, bytes, es, hm, ht, hb⟩
    have hd := (mem_definitionsBelow (tree_proper h root)).mpr
      ⟨rfl, rfl, place, bytes, es, hb⟩
    exact ⟨(root, d.root), List.mk_mem_zipIdx_iff_getElem?.mpr hm,
      (mem_definitionsOf h).mpr ⟨rfl, top, ht, hd⟩⟩

end Members

section Order
variable {α β γ : Type}

theorem zipIdx_ascending (as : List α) : as.zipIdx.Pairwise fun a b => a.2 < b.2 := by
  rw [← List.pairwise_map (f := Prod.snd) (R := (· < ·)), List.zipIdx_map_snd]
  exact List.pairwise_lt_range'

theorem definitionsIn_ordered (n layer : ℕ) (file : Place × List UInt8) :
    (definitionsIn n layer file).Pairwise Definition.Precedes := by
  rw [definitionsIn, List.pairwise_map]
  refine (zipIdx_ascending _).imp fun h => ?_
  rw [Definition.precedes_iff]
  exact .inr ⟨rfl, .inr ⟨rfl, .inr ⟨rfl, h⟩⟩⟩

theorem definitionsBelow_ordered {t : Tree} (ht : t.Proper) (here : Place) (n layer : ℕ)
    (top : Path) : (definitionsBelow t here n layer top).Pairwise Definition.Precedes := by
  rw [definitionsBelow, List.pairwise_flatMap]
  refine ⟨fun file _ => definitionsIn_ordered n layer file,
    (filesOf_ascending ht here top).imp fun h d hd e he => ?_⟩
  obtain ⟨hr, hl, hf, -⟩ := mem_definitionsIn.mp hd
  obtain ⟨hr', hl', hf', -⟩ := mem_definitionsIn.mp he
  rw [Definition.precedes_iff, hr, hr', hl, hl', hf, hf']
  exact .inr ⟨rfl, .inr ⟨rfl, .inl h⟩⟩

theorem definitionsOf_ordered {v : Sight} (h : v.files.Proper) (lang : Text) (n : ℕ)
    (root : Root) : (definitionsOf v lang n root).Pairwise Definition.Precedes := by
  have ht := tree_proper h root
  rw [definitionsOf, List.pairwise_flatMap]
  refine ⟨fun top _ => definitionsBelow_ordered ht _ n _ _,
    (zipIdx_ascending _).imp fun hl d hd e he => ?_⟩
  obtain ⟨hr, hd, -⟩ := (mem_definitionsBelow ht).mp hd
  obtain ⟨hr', he, -⟩ := (mem_definitionsBelow ht).mp he
  rw [Definition.precedes_iff, hr, hr', hd, he]
  exact .inr ⟨rfl, .inl hl⟩

theorem definitions_ordered {v : Sight} (h : v.files.Proper) (roots : List Root) (lang : Text) :
    (definitions v roots lang).Pairwise Definition.Precedes := by
  rw [definitions, List.pairwise_flatMap]
  refine ⟨fun root _ => definitionsOf_ordered h lang _ _,
    (zipIdx_ascending _).imp fun hl d hd e he => ?_⟩
  rw [Definition.precedes_iff, ((mem_definitionsOf h).mp hd).1, ((mem_definitionsOf h).mp he).1]
  exact .inl hl

theorem map_flatMap_zipIdx {g : β → γ} {f : α × ℕ → List β} {es : α → List γ}
    (h : ∀ a, (f a).map g = es a.1) (as : List α) :
    (as.zipIdx.flatMap f).map g = as.flatMap es := by
  calc (as.zipIdx.flatMap f).map g = as.zipIdx.flatMap fun a => es a.1 := by
        rw [List.map_flatMap, funext h]
    _ = (as.zipIdx.map Prod.fst).flatMap es := by rw [List.flatMap_map]
    _ = as.flatMap es := by rw [List.zipIdx_map_fst]

theorem entries_definitionsIn (n layer : ℕ) (file : Place × List UInt8) :
    (definitionsIn n layer file).map Definition.entry = addressed (leavesIn file) := by
  rw [definitionsIn, List.map_map, addressed]
  calc (leavesIn file).zipIdx.map _
      = ((leavesIn file).zipIdx.map Prod.fst).map fun l => (address l.1, l.2) := by
        rw [List.map_map]
        rfl
    _ = _ := by rw [List.zipIdx_map_fst]

theorem entries_definitions (v : Sight) (roots : List Root) (lang : Text) :
    (definitions v roots lang).map Definition.entry =
      roots.flatMap fun root => (root.directories v lang).flatMap fun top =>
        (filesOf (root.tree v) (root.origin v) top).flatMap fun f => addressed (leavesIn f) := by
  refine map_flatMap_zipIdx (fun root => ?_) roots
  refine map_flatMap_zipIdx (fun top => ?_) (root.1.directories v lang)
  rw [definitionsBelow, List.map_flatMap]
  simp only [entries_definitionsIn]

end Order

/-! ## The last definition -/

theorem last?_none {key : Text} {ds : List Definition}
    (h : last? key (ds.map Definition.entry) = none) : ∀ d ∈ ds, address d.path ≠ key := by
  induction ds with
  | nil => exact fun _ hd => nomatch hd
  | cons d ds ih =>
    rw [List.map_cons, last?, Option.or_eq_none_iff] at h
    intro e he
    rcases List.mem_cons.mp he with rfl | he
    · intro hk
      rw [if_pos (by simpa [Definition.entry] using hk)] at h
      cases h.2
    · exact ih h.1 e he

theorem last?_some {key s : Text} {ds : List Definition} (ho : ds.Pairwise Definition.Precedes)
    (h : last? key (ds.map Definition.entry) = some s) :
    ∃ d ∈ ds, address d.path = key ∧ d.text = s ∧
      ∀ e ∈ ds, address e.path = key → e = d ∨ e.Precedes d := by
  induction ds with
  | nil => cases h
  | cons d ds ih =>
    obtain ⟨hd, ho⟩ := List.pairwise_cons.mp ho
    rw [List.map_cons, last?] at h
    cases hl : last? key (ds.map Definition.entry) with
    | some r =>
      rw [hl] at h
      obtain ⟨c, hc, hk, hr, hlast⟩ := ih ho (hl.trans h)
      refine ⟨c, List.mem_cons_of_mem d hc, hk, hr, fun e he hek => ?_⟩
      rcases List.mem_cons.mp he with rfl | he
      · exact .inr (hd c hc)
      · exact hlast e he hek
    | none =>
      rw [hl, Option.none_or] at h
      split at h
      · next hk =>
        refine ⟨d, List.mem_cons_self, beq_iff_eq.mp hk, Option.some.inj h, fun e he hek => ?_⟩
        rcases List.mem_cons.mp he with rfl | he
        · exact .inl rfl
        · exact absurd hek (last?_none hl e he)
      · cases h

section Tables
variable {v : Sight} {roots : List Root} {lang key : Text}

theorem ofText_name (h : IsName lang) : Path.ofText lang = ⟨false, [lang]⟩ := by
  have hr : lang.head? ≠ some (.char '/') := fun he =>
    h.single (List.mem_of_mem_head? he)
  rw [Path.ofText, Text.splitAt_single _ h.single, decide_eq_false hr, List.filter_cons_of_pos]
  · rfl
  · simp [h.nonempty, h.proper]

theorem layers_eq (h : IsName lang) (r : Root) :
    Root.layers (r.top v) lang = r.directories v lang := by
  have hs : Path.ofText "needle" = ⟨false, ["needle"]⟩ := ofText_name (by decide)
  have hd : Path.ofText ".namesmith" = ⟨false, [".namesmith"]⟩ := ofText_name (by decide)
  simp [Root.layers, Root.directories, Path.child, Path.join, ofText_name h, hs, hd]

theorem merged_table (hn : IsName lang) (hp : v.files.Proper) (hr : Readable v roots lang) :
    ∃ table, merged roots v lang = .ok table ∧ ∀ key, Entries.get? key table =
      last? key ((definitions v roots lang).map Definition.entry) := by
  have ha : ∀ root ∈ roots, Adds (addRoot v.files v.here lang · root)
      ((root.directories v lang).flatMap fun top =>
        (filesOf (root.tree v) (root.origin v) top).flatMap fun f => addressed (leavesIn f)) := by
    intro root hm
    rw [← layers_eq hn]
    refine adds_foldlM fun top ht => addLayer_adds (tree_proper hp root) (hr root hm top ?_)
    rwa [← layers_eq hn]
  obtain ⟨table, logs, hl, -, hg⟩ := adds_foldlM ha [] []
  refine ⟨table, congrArg Prod.fst hl, fun key => ?_⟩
  rw [hg, entries_definitions, Entries.get?, Option.or_none]

theorem IsLast.unique {d e : Definition} (hd : IsLast v roots lang key d)
    (he : IsLast v roots lang key e) : d = e := by
  rcases hd.last e he.defines he.names with h | h
  · exact h.symm
  · rcases he.last d hd.defines hd.names with h' | h'
    · exact h'
    · exact absurd h' (lt_asymm (show e.rank < d.rank from h))

theorem IsLast.not_lacks {d : Definition} (hd : IsLast v roots lang key d) :
    ¬ Lacks v roots lang key := fun hl => hl d hd.defines hd.names

theorem Answers.unique {r s : Text} (hr : Answers v roots lang key r)
    (hs : Answers v roots lang key s) : r = s := by
  cases hr with
  | own h =>
    cases hs with
    | own h' => rw [h.unique h']
    | english hl _ => exact absurd hl h.not_lacks
    | none hl _ => exact absurd hl h.not_lacks
  | english hl h =>
    cases hs with
    | own h' => exact absurd hl h'.not_lacks
    | english _ h' => rw [h.unique h']
    | none _ h' => exact absurd h' h.not_lacks
  | none hl h =>
    cases hs with
    | own h' => exact absurd hl h'.not_lacks
    | english _ h' => exact absurd h h'.not_lacks
    | none _ _ => rfl

/-- A table that can be read has the last definition of each key. -/
theorem merged_last (hn : IsName lang) (hp : v.files.Proper) (hr : Readable v roots lang) :
    ∃ table, merged roots v lang = .ok table ∧
      (∀ key s, Entries.get? key table = some s →
        ∃ d, IsLast v roots lang key d ∧ d.text = s) ∧
      ∀ key, Entries.get? key table = none → Lacks v roots lang key := by
  obtain ⟨table, hm, hg⟩ := merged_table hn hp hr
  refine ⟨table, hm, fun key s hs => ?_, fun key hs d hd => ?_⟩
  · rw [hg] at hs
    obtain ⟨d, hd, hk, ht, hlast⟩ := last?_some (definitions_ordered hp roots lang) hs
    exact ⟨d, ⟨(mem_definitions hp).mp hd, hk,
      fun e he hek => hlast e ((mem_definitions hp).mpr he) hek⟩, ht⟩
  · rw [hg] at hs
    exact last?_none hs d ((mem_definitions hp).mpr hd)

theorem lookUp_answers (hn : IsName lang) (hp : v.files.Proper) (hr : Readable v roots lang)
    (he : Readable v roots "en" ∨ ¬ Lacks v roots lang key) :
    ∃ s, lookUp (merged roots v) lang key = .ok s ∧ Answers v roots lang key s := by
  obtain ⟨table, hm, hsome, hnone⟩ := merged_last hn hp hr
  cases hk : Entries.get? key table with
  | some s =>
    obtain ⟨d, hd, rfl⟩ := hsome key s hk
    exact ⟨d.text, lookUp_found hm hk, .own hd⟩
  | none =>
    have hl := hnone key hk
    by_cases hen : lang = "en"
    · exact ⟨key, lookUp_nowhere hm hk hen, .none hl (hen ▸ hl)⟩
    · have hname : IsName "en" := by decide
      obtain ⟨english, hm', hsome', hnone'⟩ :=
        merged_last hname hp (he.resolve_right (not_not_intro hl))
      rw [lookUp_english hm hk hen, hm']
      cases hk' : Entries.get? key english with
      | some s =>
        obtain ⟨d, hd, rfl⟩ := hsome' key s hk'
        exact ⟨d.text, by rw [Except.map, hk', Option.getD_some], .english hl hd⟩
      | none =>
        exact ⟨key, by rw [Except.map, hk', Option.getD_none], .none hl (hnone' key hk')⟩

end Tables

/-! ## What can be read -/

theorem readable_of_objects {v : Sight} {roots : List Root} {lang : Text} (hp : v.files.Proper)
    (h : ∀ root ∈ roots, ∀ top ∈ root.directories v lang,
      ((root.tree v).filesUnder (root.origin v) top).isOk = true ∧
      ∀ file ∈ filesOf (root.tree v) (root.origin v) top, (object? file.2).isSome = true) :
    Readable v roots lang := by
  intro root hr top ht
  obtain ⟨hf, hs⟩ := h root hr top ht
  cases hu : (root.tree v).filesUnder (root.origin v) top with
  | error f =>
    rw [hu] at hf
    cases hf
  | ok files =>
    obtain ⟨hfound, hw, -⟩ := filesUnder_eq_ok.mp hu
    refine ⟨hfound, hw, fun place file bytes hl hne hn _ => ?_⟩
    exact not_tooDeep (hs (file, bytes) ((mem_filesOf (tree_proper hp root)).mpr
      ⟨place, hl, hne, hn⟩))

/-- Whoever has read a language could read all of its files. -/
theorem readable_of_merged {v : Sight} {roots : List Root} {lang : Text} {table : Table}
    (hn : IsName lang) (hp : v.files.Proper) (h : merged roots v lang = .ok table) :
    Readable v roots lang := by
  intro root hr top ht
  rcases hm : (loadLanguage v.files v.here roots lang).run [] with ⟨e | table', more⟩
  · rw [merged, hm] at h
    cases h
  · obtain ⟨b, logs, c, logs', ha⟩ := foldlM_ok hm hr
    rw [← layers_eq hn] at ht
    obtain ⟨b, logs, c, logs', hl⟩ := foldlM_ok ha ht
    exact addLayer_ok (tree_proper hp root) hl

theorem languageOf_some {lang : Text} (hn : IsName lang) (surroundings : Option Text) :
    languageOf (some lang) surroundings = lang := by
  cases lang with
  | nil => exact absurd rfl hn.nonempty
  | cons c cs => rfl

theorem fresh_run (roots : List Root) (w : World) {lang : Text} (hn : IsName lang) (key : Text) :
    ((World.catalogTemplate key (some lang)).run { w with catalog := .ofRoots roots }).1 =
      (lookUp (merged roots ⟨w.files, w.here⟩) lang key).mapError .messages := by
  have hf : (Ledger.start roots w).Follows { w with catalog := .ofRoots roots } :=
    ⟨⟨rfl, fun _ => rfl⟩, rfl, rfl⟩
  rw [(Ledger.catalogTemplate_run hf key (some lang)).1, languageOf_some hn]
  rfl

/-- A fresh catalog answers with the last definition of a key in the language asked for, else with
the last one in English, else with the key. -/
theorem get_last_definition {roots : List Root} {w : World} {lang : Text} (key : Text)
    (hn : IsName lang) (hp : w.files.Proper) (hr : Readable ⟨w.files, w.here⟩ roots lang)
    (he : Readable ⟨w.files, w.here⟩ roots "en" ∨ ¬ Lacks ⟨w.files, w.here⟩ roots lang key) :
    ∃ s, ((World.catalogTemplate key (some lang)).run
        { w with catalog := .ofRoots roots }).1 = .ok s ∧
      ∀ r, Answers ⟨w.files, w.here⟩ roots lang key r ↔ r = s := by
  obtain ⟨s, hs, ha⟩ := lookUp_answers hn hp hr he
  refine ⟨s, ?_, fun r => ⟨fun h => h.unique ha, fun h => h ▸ ha⟩⟩
  rw [fresh_run roots w hn, hs]
  rfl

/-- What a ledger answers from holds the last definitions in the files as they stood when the
language was first consulted. -/
theorem Ledger.table_last {m : Ledger} {lang : Text} (hn : IsName lang)
    (hp : ((m.first lang).getD m.now).files.Proper)
    (hr : Readable ((m.first lang).getD m.now) m.roots lang) :
    ∃ table, m.table lang = .ok table ∧
      (∀ key s, Entries.get? key table = some s →
        ∃ d, IsLast ((m.first lang).getD m.now) m.roots lang key d ∧ d.text = s) ∧
      ∀ key, Entries.get? key table = none →
        Lacks ((m.first lang).getD m.now) m.roots lang key := merged_last hn hp hr

/-- While the files stay as they are, a look-up after any run finds the last definition of its key
over the roots that there are then. -/
theorem run_answers {roots : List Root} {w v : World} {ops : List Op} {key lang : Text}
    (ho : ∀ op ∈ ops, op.Still ⟨w.files, w.here⟩)
    (hv : performAll ops { w with catalog := .ofRoots roots } = v) (hn : IsName lang)
    (hp : v.files.Proper) (hr : Readable ⟨v.files, v.here⟩ v.catalog.roots lang)
    (he : Readable ⟨v.files, v.here⟩ v.catalog.roots "en" ∨
      ¬ Lacks ⟨v.files, v.here⟩ v.catalog.roots lang key) :
    ∃ s, ((World.catalogTemplate key (some lang)).run v).1 = .ok s ∧
      Answers ⟨v.files, v.here⟩ v.catalog.roots lang key s := by
  have hs : (Ledger.start roots w).Follows { w with catalog := .ofRoots roots } :=
    ⟨⟨rfl, fun _ => rfl⟩, rfl, rfl⟩
  have hf := Ledger.run_follows hs ops
  rw [hv] at hf
  have hm : (Ledger.run ops (.start roots w)).Current :=
    Ledger.run_current (Ledger.withRoots_current (.start roots w) roots) ho
  have ht : (Ledger.run ops (.start roots w)).table =
      merged v.catalog.roots ⟨v.files, v.here⟩ := by
    funext l
    rw [Ledger.table_current hm, hf.catalog.roots, hf.now]
  obtain ⟨s, ha, hd⟩ := lookUp_answers hn hp hr he
  refine ⟨s, ?_, hd⟩
  rw [(Ledger.catalogTemplate_run hf key (some lang)).1, ht, languageOf_some hn, ha]
  rfl

theorem readable_of_get {roots : List Root} {w : World} {lang key s : Text} (hn : IsName lang)
    (hp : w.files.Proper)
    (h : ((World.catalogTemplate key (some lang)).run { w with catalog := .ofRoots roots }).1 =
      .ok s) : Readable ⟨w.files, w.here⟩ roots lang := by
  rw [fresh_run roots w hn] at h
  cases hl : lookUp (merged roots ⟨w.files, w.here⟩) lang key with
  | error e =>
    rw [hl] at h
    cases h
  | ok r =>
    obtain ⟨table, ht, -⟩ := bind_eq_ok hl
    exact readable_of_merged hn hp ht

def world (directories : List Place) (files : List (Place × List Char)) : World where
  files := ⟨directories.map (·, .directory) ++
    files.map fun f => (f.1, .file (Text.Utf8.encode f.2))⟩
  here := []
  language := none
  catalog := .ofRoots []
  templates := none
  audience := .nobody
  journal := []

def overridden : World :=
  world [["needle"], ["needle", "de"], [".namesmith"], [".namesmith", "needle"],
      [".namesmith", "needle", "de"]]
    [(["needle", "de", "a.json"], Json.write (.dict [(.text "k", .dict [(.text "l", .text "x")])])),
      ([".namesmith", "needle", "de", "b.JSON"], Json.write (.dict [(.text "k.l", .text "")]))]

theorem get_last_definition_empty :
    ((World.catalogTemplate "k.l" (some "de")).run
      { overridden with catalog := .ofRoots [.project ⟨false, []⟩] }).1 = .ok "" := by
  have hp : overridden.files.Proper := by
    unfold Tree.Proper
    decide
  have hr (lang : Text) (hl : lang = "de" ∨ lang = "en") :
      Readable ⟨overridden.files, []⟩ [.project ⟨false, []⟩] lang := by
    refine readable_of_objects hp ?_
    rcases hl with rfl | rfl <;> decide +kernel
  have hd : definitions ⟨overridden.files, []⟩ [.project ⟨false, []⟩] "de" =
      [⟨0, 0, ["a.json"], 0, ["k", "l"], "x"⟩, ⟨0, 1, ["b.JSON"], 0, ["k.l"], ""⟩] := by
    decide +kernel
  obtain ⟨s, hs, ha⟩ := get_last_definition "k.l" (by decide) hp (hr "de" (.inl rfl))
    (.inl (hr "en" (.inr rfl)))
  have hl : IsLast ⟨overridden.files, []⟩ [.project ⟨false, []⟩] "de" "k.l"
      ⟨0, 1, ["b.JSON"], 0, ["k.l"], ""⟩ := by
    refine ⟨(mem_definitions hp).mp (by rw [hd]; simp), by decide, fun e he _ => ?_⟩
    have he := (mem_definitions hp).mpr he
    rw [hd, List.mem_pair] at he
    rcases he with rfl | rfl
    · exact .inr ((Definition.precedes_iff _ _).mpr (.inr ⟨rfl, .inl Nat.zero_lt_one⟩))
    · exact .inl rfl
  rw [hs, ← (ha []).mp (.own hl)]
  rfl

def deep : World :=
  world [["needle"], ["needle", "en"]] [(["needle", "en", "deep.json"], List.replicate 3000 '[')]

def far : Path := ⟨false, List.replicate 30 (List.replicate 200 'a')⟩

/-- No text comes of a file that is nested too deep, nor of a root with too long a path. -/
theorem get_stopped :
    (∀ s, ((World.catalogTemplate "k" (some "en")).run
      { deep with catalog := .ofRoots [.project ⟨false, []⟩] }).1 ≠ .ok s) ∧
    ∀ s, ((World.catalogTemplate "k" (some "en")).run
      { world [] [] with catalog := .ofRoots [.project far] }).1 ≠ .ok s := by
  constructor
  · intro s hs
    have hp : deep.files.Proper := by
      unfold Tree.Proper
      decide
    have hr := readable_of_get (by decide) hp hs _ List.mem_cons_self _ List.mem_cons_self
    have hf : deep.files.find [] ⟨false, ["needle", "en"]⟩ = .ok (.directory ["needle", "en"]) := by
      rfl
    exact hr.shallow _ ["deep.json"] _ hf (by decide) rfl ⟨"deep", "json", by decide⟩
      (tooDeep_brackets (by decide))
  · intro s hs
    have hp : (world [] []).files.Proper := by
      unfold Tree.Proper
      decide
    have hr := readable_of_get (by decide) hp hs _ List.mem_cons_self _ List.mem_cons_self
    refine hr.found ⟨false, far.parts ++ [("needle" : Text), "en"]⟩ ?_
    rw [Tree.find, if_neg (by decide +kernel), if_pos (by decide +kernel)]
    rfl

end SymbolRename.Message
