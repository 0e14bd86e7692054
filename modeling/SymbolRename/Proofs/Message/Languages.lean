import SymbolRename.Proofs.Files.Agreement
import SymbolRename.Proofs.Message.Definitions

/-!
# The languages that an answer depends on

A template is looked up in one language and in English. What the directories of other languages hold
makes no difference, as long as the language is called like a directory of its own: an empty name or
a dot stands for the directory that all languages are in, and two dots for the one above it.
-/

set_option autoImplicit false

namespace SymbolRename.Message
open Files

def folders (p : Path) : List Path := [p.child "needle", (p.child ".namesmith").child "needle"]

theorem layers_folders (p : Path) (lang : Text) :
    Root.layers p lang = (folders p).map (·.child lang) := rfl

/-- A place that the messages of a language depend on: it is passed on the way to one of their
directories, or it is in one. -/
def Concerns (here : Place) (roots : List Root) (lang : Text) (q : Place) : Prop :=
  ∃ p, .project p ∈ roots ∧ ∃ top ∈ Root.layers p lang,
    q ∈ top.stages here ∨ top.resolve here <+: q

def Agree (t u : Tree) (here : Place) (roots : List Root) (lang : Text) : Prop :=
  ∀ q, Concerns here roots lang q → t.node? q = u.node? q

section Agreement
variable {t u : Tree} {here : Place} {roots : List Root} {lang : Text}

theorem loadDirectory_agree (ht : t.Proper) (hu : u.Proper) {top : Path}
    (h : ∀ q, q ∈ top.stages here ∨ top.resolve here <+: q → t.node? q = u.node? q) :
    loadDirectory t here top = loadDirectory u here top := by
  rw [loadDirectory, loadDirectory, Tree.filesUnder_agree ht hu h]

theorem addRoot_agree (ht : t.Proper) (hu : u.Proper) (h : Agree t u here roots lang) {root : Root}
    (hr : root ∈ roots) (table : Table) :
    addRoot t here lang table root = addRoot u here lang table root := by
  cases root with
  | packaged => rfl
  | project p =>
    refine foldlM_agree (fun top hm table => ?_) table
    rw [addLayer, addLayer, loadDirectory_agree ht hu fun q hq => h q ⟨p, hr, top, hm, hq⟩]

theorem loadLanguage_agree (ht : t.Proper) (hu : u.Proper) (h : Agree t u here roots lang) :
    loadLanguage t here roots lang = loadLanguage u here roots lang :=
  foldlM_agree (fun _ hr => addRoot_agree ht hu h hr) []

theorem table_roots (t : Tree) (here : Place) (lang : Text) (d : Catalog.Desk) :
    ((Catalog.table t here lang).run d).2.catalog.roots = d.catalog.roots := by
  rw [Catalog.table, Task.run_bind_ok (Task.run_get d)]
  dsimp only
  cases Entries.get? lang d.catalog.loaded with
  | some table => rfl
  | none =>
    dsimp only
    rw [Task.run_bind, Task.run_onPart]
    cases ((loadLanguage t here d.catalog.roots lang).run d.logs).1 <;> rfl

theorem table_agree {d : Catalog.Desk}
    (h : loadLanguage t here d.catalog.roots lang = loadLanguage u here d.catalog.roots lang) :
    (Catalog.table t here lang).run d = (Catalog.table u here lang).run d := by
  rw [Catalog.table, Catalog.table, Task.run_bind_ok (Task.run_get d),
    Task.run_bind_ok (Task.run_get d)]
  dsimp only
  rw [h]

/-- A look-up reads its language and English, and nothing else. -/
theorem get_agree {d : Catalog.Desk} (key : Text)
    (hl : loadLanguage t here d.catalog.roots lang = loadLanguage u here d.catalog.roots lang)
    (he : loadLanguage t here d.catalog.roots "en" = loadLanguage u here d.catalog.roots "en") :
    (Catalog.get t here lang key).run d = (Catalog.get u here lang key).run d := by
  have hr := table_roots u here lang d
  rw [Catalog.get, Catalog.get, Task.run_bind, Task.run_bind, table_agree hl]
  rcases ht : (Catalog.table u here lang).run d with ⟨e | table, d'⟩
  · rfl
  · rw [ht] at hr
    dsimp only at hr ⊢
    cases Entries.get? key table with
    | some s => rfl
    | none =>
      dsimp only
      split
      · rfl
      · rw [Task.run_bind, Task.run_bind]
        have hen : (Catalog.table t here Catalog.defaultLanguage).run d' =
            (Catalog.table u here Catalog.defaultLanguage).run d' :=
          table_agree (by rw [hr]; exact he)
        rw [hen]

/-- Something that has the same outcome when the files are others. -/
def SameOver {α : Type} (w : World) (u : Tree) (act : World.Act α) : Prop :=
  act.run { w with files := u } = ((act.run w).1, { (act.run w).2 with files := u })

theorem catalogTemplate_agree {w : World} (hw : w.files.Proper) (hu : u.Proper) (key : Text)
    (asked : Option Text)
    (hl : Agree w.files u w.here w.catalog.roots (languageOf asked w.language))
    (he : Agree w.files u w.here w.catalog.roots "en") :
    SameOver w u (World.catalogTemplate key asked) := by
  have hg := get_agree (d := ⟨w.catalog, []⟩) key (loadLanguage_agree hw hu hl)
    (loadLanguage_agree hw hu he)
  rw [SameOver, World.catalogTemplate, Task.run_bind_ok (Task.run_get _),
    Task.run_bind_ok (Task.run_get _),
    Task.run_onPart, Task.run_onPart]
  dsimp only
  rw [chosen_eq, hg]

end Agreement

/-! ## Languages with directories of their own -/

structure IsDirectoryName (lang : Text) : Prop extends IsName lang where
  inward : lang ≠ ".."

instance (lang : Text) : Decidable (IsDirectoryName lang) :=
  decidable_of_iff (IsName lang ∧ lang ≠ "..") ⟨fun ⟨h, hi⟩ => ⟨h, hi⟩, fun h => ⟨h.1, h.2⟩⟩

/-- A place in the directory of a language that is neither the one asked for nor English. -/
def Foreign (here : Place) (roots : List Root) (lang : Text) (q : Place) : Prop :=
  ∃ p, .project p ∈ roots ∧ ∃ folder ∈ folders p, ∃ other, IsDirectoryName other ∧
    other ≠ lang ∧ other ≠ "en" ∧ (folder.child other).resolve here <+: q

/-- No way to the directories of languages leads through the directory of a language. -/
def Separate (here : Place) (roots : List Root) : Prop :=
  ∀ p, .project p ∈ roots → ∀ inner ∈ folders p, ∀ p', .project p' ∈ roots →
    ∀ outer ∈ folders p', ∀ q ∈ inner.stages here, outer.resolve here <+: q →
      q = outer.resolve here

section Directories
variable {here : Place} {roots : List Root} {lang : Text} {q : Place}

theorem child_name {p : Path} (h : IsName lang) :
    p.child lang = ⟨p.rooted, p.parts ++ [lang]⟩ := by
  rw [Path.child, ofText_name h, Path.join, if_neg (by simp)]

theorem resolve_child {p : Path} (h : IsDirectoryName lang) :
    (p.child lang).resolve here = p.resolve here ++ [lang] := by
  rw [child_name h.toIsName, Path.resolve_eq, Path.resolve_eq, Path.resolveParts_append]
  simp only [Path.resolveParts, if_neg h.inward]
  rfl

theorem mem_stages_child {p : Path} (h : IsDirectoryName lang) :
    q ∈ (p.child lang).stages here ↔ q ∈ p.stages here ∨ q = p.resolve here ++ [lang] := by
  rw [← resolve_child h, child_name h.toIsName, Path.stages, Path.stages, Path.resolve_eq]
  simp only [List.mem_map, List.mem_inits, List.prefix_concat_iff, or_and_right, exists_or,
    exists_eq_left]
  rw [or_comm]
  exact or_congr Iff.rfl eq_comm

theorem not_concat_prefix_self (q : Place) (n : Text) : ¬ q ++ [n] <+: q := fun h =>
  absurd h.length_le (by simp)

/-- Where a language with its own directory can be found is apart from the other languages. -/
theorem not_foreign (hs : Separate here roots) (hl : IsDirectoryName lang)
    (hc : Concerns here roots lang q) {other : Text} (ho : IsDirectoryName other)
    (hne : other ≠ lang) {p : Path} (hp : .project p ∈ roots) {folder : Path}
    (hf : folder ∈ folders p) : ¬ (folder.child other).resolve here <+: q := by
  rw [resolve_child ho]
  intro hq
  obtain ⟨p', hp', top, ht, hc⟩ := hc
  rw [layers_folders] at ht
  obtain ⟨inner, hi, rfl⟩ := List.mem_map.mp ht
  have hway {r : Place} (hr : r ∈ inner.stages here) : ¬ folder.resolve here ++ [other] <+: r := by
    intro ha
    rw [hs p' hp' inner hi p hp folder hf r hr ((List.prefix_append _ _).trans ha)] at ha
    exact not_concat_prefix_self _ _ ha
  have htop : ¬ folder.resolve here ++ [other] <+: inner.resolve here ++ [lang] := by
    intro ha
    rcases List.prefix_concat_iff.mp ha with he | ha
    · exact hne (List.append_inj_right' he rfl |> List.singleton_inj.mp)
    · exact hway (Path.resolve_mem_stages here inner) ha
  rcases hc with hc | hc
  · rcases (mem_stages_child hl).mp hc with hc | rfl
    · exact hway hc hq
    · exact htop hq
  · rw [resolve_child hl] at hc
    rcases List.prefix_or_prefix_of_prefix hq hc with ha | ha
    · exact htop ha
    · rcases List.prefix_concat_iff.mp ha with he | ha
      · exact htop (he ▸ List.prefix_rfl)
      · have he := hs p hp folder hf p' hp' inner hi _ (Path.resolve_mem_stages here folder)
          ((List.prefix_append _ _).trans ha)
        rw [he] at ha
        exact not_concat_prefix_self _ _ ha

theorem agree_of_foreign {t u : Tree} (hs : Separate here roots)
    (h : ∀ q, t.node? q ≠ u.node? q → Foreign here roots lang q) {l : Text}
    (hl : IsDirectoryName l) (hlang : l = lang ∨ l = "en") : Agree t u here roots l := by
  intro q hc
  by_contra hn
  obtain ⟨p, hp, folder, hf, other, ho, hne, hen, hq⟩ := h q hn
  refine not_foreign hs hl hc ho ?_ hp hf hq
  rcases hlang with rfl | rfl
  · exact hne
  · exact hen

theorem mem_folders_ofPlace {place : Place} {folder : Path} :
    folder ∈ folders (.ofPlace place) ↔
      folder = ⟨true, place ++ [("needle" : Text)]⟩ ∨
        folder = ⟨true, place ++ [(".namesmith" : Text), "needle"]⟩ := by
  have hn : IsName "needle" := by decide
  have hd : IsName ".namesmith" := by decide
  simp [folders, child_name hn, child_name hd, Path.ofPlace]

theorem eq_of_prefix_concat {outer place : Place} {n : Text} (hno : ¬ outer <+: place)
    (hq : q <+: place ++ [n]) (ho : outer <+: q) : q = outer ∧ outer = place ++ [n] := by
  have he : outer = place ++ [n] :=
    (List.prefix_concat_iff.mp (ho.trans hq)).resolve_right hno
  rcases List.prefix_concat_iff.mp hq with hq | hq
  · exact ⟨hq.trans he.symm, he⟩
  · exact absurd (ho.trans hq) hno

/-- Projects that are not inside the directories of languages of one another. -/
theorem separate_places
    (h : ∀ p, .project p ∈ roots → ∃ place, p = .ofPlace place ∧ (".." : Text) ∉ place)
    (ha : ∀ p, .project p ∈ roots → ∀ p', .project p' ∈ roots → ∀ outer ∈ folders p',
      ¬ outer.resolve here <+: p.resolve here) : Separate here roots := by
  intro p hp inner hi p' hp' outer ho q hq hout
  have hno := ha p hp p' hp' outer ho
  obtain ⟨place, rfl, hplace⟩ := h p hp
  obtain ⟨place', rfl, hplace'⟩ := h p' hp'
  rw [Path.ofPlace, Path.resolve_plain hplace] at hno
  obtain ⟨above, habove⟩ : ∃ above, outer.resolve here = above ++ [("needle" : Text)] := by
    rcases mem_folders_ofPlace.mp ho with rfl | rfl
    · exact ⟨place', Path.resolve_plain (by simp [hplace']; decide) here⟩
    · refine ⟨place' ++ [(".namesmith" : Text)], ?_⟩
      rw [Path.resolve_plain (by simp [hplace']; decide), List.append_assoc]
      rfl
  rcases mem_folders_ofPlace.mp hi with rfl | rfl
  · rw [Path.mem_stages_plain (by simp [hplace]; decide)] at hq
    exact (eq_of_prefix_concat hno hq hout).1
  · rw [Path.mem_stages_plain (by simp [hplace]; decide)] at hq
    have hmid : ¬ outer.resolve here <+: place ++ [(".namesmith" : Text)] := by
      intro hm
      have he := (eq_of_prefix_concat hno hm List.prefix_rfl).2
      rw [habove] at he
      exact absurd (List.append_inj_right' he rfl) (by decide)
    have hq : q <+: (place ++ [(".namesmith" : Text)]) ++ [("needle" : Text)] := by
      rwa [List.append_assoc]
    exact (eq_of_prefix_concat hmid hq hout).1

end Directories

/-- An answer and what is kept and noted down for it depend on nothing but the messages of its
language and those in English. A language that is called like a directory is not touched by what
stands in the directories of others. -/
theorem get_isolated {w : World} {u : Tree} (key : Text) (asked : Option Text)
    (hw : w.files.Proper) (hu : u.Proper) :
    let lang := languageOf asked w.language
    (Agree w.files u w.here w.catalog.roots lang → Agree w.files u w.here w.catalog.roots "en" →
      SameOver w u (World.catalogTemplate key asked)) ∧
    (IsDirectoryName lang → Separate w.here w.catalog.roots →
      (∀ q, w.files.node? q ≠ u.node? q → Foreign w.here w.catalog.roots lang q) →
      SameOver w u (World.catalogTemplate key asked)) := by
  intro lang
  have hagree := catalogTemplate_agree hw hu key asked
  refine ⟨hagree, fun hl hs hf => ?_⟩
  exact hagree (agree_of_foreign hs hf hl (.inl rfl)) (agree_of_foreign hs hf (by decide) (.inr rfl))

def french : World :=
  { world [["needle"], ["needle", "fr"], ["needle", "de"]]
      [(["needle", "fr", "m.json"], Json.write (.dict [(.text "k", .text "x")]))] with
    language := some "fr"
    catalog := .ofRoots [.project (.ofPlace [])] }

def german : Place := ["needle", "de", "m.json"]

def inGerman : Tree :=
  french.files.put german (.file (Text.Utf8.encode (Json.write (.dict [(.text "l", .text "leak")]))))

theorem german_foreign {lang : Text} (hl : lang ≠ "de") {q : Place}
    (hq : french.files.node? q ≠ inGerman.node? q) :
    Foreign french.here french.catalog.roots lang q := by
  have hg : q = german := by
    by_contra hne
    rw [inGerman, Tree.node?_put french.files (by decide), if_neg hne] at hq
    exact hq rfl
  refine ⟨_, List.mem_cons_self, _, List.mem_cons_self, "de", by decide, hl.symm, by decide, ?_⟩
  rw [hg]
  decide

theorem get_isolated_french : SameOver french inGerman (World.catalogTemplate "l" none) := by
  have hs : Separate french.here french.catalog.roots := by
    refine separate_places (fun p hp => ?_) fun p hp p' hp' => ?_
    · exact ⟨[], Root.project.inj (List.mem_singleton.mp hp), by decide⟩
    · cases List.mem_singleton.mp hp
      cases List.mem_singleton.mp hp'
      decide
  have hp : french.files.Proper := by
    unfold Tree.Proper
    decide
  have hp' : inGerman.Proper := by
    unfold Tree.Proper
    decide
  exact (get_isolated "l" none hp hp').2 (by decide) hs fun q hq => german_foreign (by decide) hq

/-- The template of a key over some files, if there is one, in a language of the surroundings. -/
def templateIn (lang : Text) (files : Tree) (key : Text) : Option Text :=
  ((World.catalogTemplate key none).run
    { french with files := files, language := some lang }).1.toOption

/-- In an empty language, a dot and two dots a German message is found. -/
theorem get_leaks :
    (∀ q, french.files.node? q ≠ inGerman.node? q →
      ∀ lang ∈ [("" : Text), ".", ".."],
        Foreign french.here french.catalog.roots (languageOf none (some lang)) q) ∧
    ∀ lang ∈ [("" : Text), ".", ".."],
      templateIn lang french.files "l" = some "l" ∧ templateIn lang inGerman "l" = some "leak" := by
  refine ⟨fun q hq lang hl => german_foreign ?_ hq, by decide +kernel⟩
  revert lang
  decide

end SymbolRename.Message
