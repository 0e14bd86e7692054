import SymbolRename.Proofs.Message.Packaged
import SymbolRename.Proofs.Message.Rendering
import SymbolRename.Proofs.Text.Encodable
import SymbolRename.Proofs.World.Frame

/-!
# Telling notices with the packaged templates

If a project has no templates of its own, every notice about applying a response can be told at a
terminal, provided that what goes to standard output can be encoded. The tables are read for the
first notice and stay as they are from then on, whatever becomes of the files.
-/

set_option autoImplicit false

namespace SymbolRename.World
open Message SymbolRename.Task
open Text (IsEncodable)

/-- A notice about applying a response whose arguments can be shown where it goes. -/
structure Sayable (n : Notice) : Prop where
  form : n.form ∈ Packaged.forms
  shown : n.level.isOutput = true → ∀ a ∈ n.arguments, IsEncodable a.2.shown

def currentLanguage (w : World) : Text := languageOf none w.language

/-- A terminal listens, and the project has no templates: the English ones are those of the program,
and another language has none. -/
structure Fresh (table : Table) (w : World) : Prop where
  listening : w.audience = .terminal
  catalogued : w.templates = none
  unread : w.catalog.loaded = []
  english : merged w.catalog.roots ⟨w.files, w.here⟩ "en" = .ok table
  native : w.currentLanguage = "en" ∨
    merged w.catalog.roots ⟨w.files, w.here⟩ w.currentLanguage = .ok []

/-- The same, after the tables were read. -/
structure Settled (table : Table) (w : World) : Prop where
  listening : w.audience = .terminal
  catalogued : w.templates = none
  english : Entries.get? ("en" : Text) w.catalog.loaded = some table
  native : w.currentLanguage = "en" ∨ Entries.get? w.currentLanguage w.catalog.loaded = some []

def Ready (table : Table) (w : World) : Prop := Fresh table w ∨ Settled table w

section Lookup
variable {table : Table} {w : World} {key template : Text}

theorem table_loaded {c : Catalog} {lang : Text} (h : Entries.get? lang c.loaded = some table)
    (t : Files.Tree) (here : Files.Place) (logs : List Log) :
    (Catalog.table t here lang).run ⟨c, logs⟩ = (.ok table, ⟨c, logs⟩) := by
  rw [Catalog.table, run_bind_ok (run_get _)]
  dsimp only
  rw [h]
  rfl

theorem get_loaded (h : Settled table w) (hk : Entries.get? key table = some template) :
    (Catalog.get w.files w.here w.currentLanguage key).run ⟨w.catalog, []⟩ =
      (.ok template, ⟨w.catalog, []⟩) := by
  rw [Catalog.get]
  by_cases hl : w.currentLanguage = "en"
  · rw [hl, run_bind_ok (table_loaded h.english _ _ _), hk]
    rfl
  · rw [run_bind_ok (table_loaded (h.native.resolve_left hl) _ _ _)]
    change (if w.currentLanguage = Catalog.defaultLanguage then _ else _ :
      Catalog.Lookup Text).run _ = _
    have he : (Catalog.table w.files w.here Catalog.defaultLanguage).run ⟨w.catalog, []⟩ =
        (.ok table, ⟨w.catalog, []⟩) := table_loaded h.english _ _ _
    rw [if_neg (show ¬ w.currentLanguage = Catalog.defaultLanguage from hl), run_bind_ok he, hk]
    rfl

theorem catalogTemplate_settled (h : Settled table w)
    (hk : Entries.get? key table = some template) :
    (catalogTemplate key none).run w = (.ok template, w) := by
  rw [catalogTemplate, run_bind_ok (run_get w), run_onPart, chosen_eq]
  rw [show languageOf none w.language = w.currentLanguage from rfl, get_loaded h hk]
  change (_, { w with catalog := w.catalog, journal := w.journal ++ [] }) = _
  rw [List.append_nil]
  rfl

/-- The ledger of a catalog that has read nothing. -/
theorem start_follows (h : w.catalog.loaded = []) : (Ledger.start w.catalog.roots w).Follows w := by
  refine ⟨⟨rfl, fun l => ?_⟩, rfl, rfl⟩
  rw [h]
  rfl

theorem loaded_of_first {m : Ledger} {c : Catalog} (hc : m.Keeps c) {lang : Text} {v : Sight}
    {t : Table} (hf : m.first lang = some v) (hm : merged m.roots v lang = .ok t) :
    Entries.get? lang c.loaded = some t := by
  have ht := hc.tables lang
  rw [hf, Option.map_some, hm] at ht
  obtain ⟨u, hu, he⟩ := Option.map_eq_some_iff.mp ht
  cases he
  exact hu

theorem consult_first {m : Ledger} {lang : Text} {t : Table} (h : m.table lang = .ok t) (l : Text) :
    (m.consult lang).first l =
      if l = lang then some ((m.first lang).getD m.now) else m.first l := by
  rw [Ledger.consult, h]

theorem consult_roots (m : Ledger) (lang : Text) : (m.consult lang).roots = m.roots := by
  rw [Ledger.consult]
  split <;> rfl

theorem loaded_consulted {m : Ledger} {c : Catalog} {lang : Text} {t : Table}
    (hc : (m.consult lang).Keeps c) (h : m.table lang = .ok t) :
    Entries.get? lang c.loaded = some t := by
  refine loaded_of_first hc ((consult_first h lang).trans (if_pos rfl)) ?_
  rw [consult_roots]
  exact h

/-- A first look-up for a packaged notice finds its template, and all that can be asked for later is
read then. -/
theorem look_fresh (h : Fresh table w) (hk : Entries.get? key table = some template) :
    lookUp (Ledger.start w.catalog.roots w).table w.currentLanguage key = .ok template ∧
    ∀ c, ((Ledger.start w.catalog.roots w).look w.currentLanguage key).Keeps c →
      Entries.get? ("en" : Text) c.loaded = some table ∧
        (w.currentLanguage = "en" ∨ Entries.get? w.currentLanguage c.loaded = some []) := by
  have he : (Ledger.start w.catalog.roots w).table "en" = .ok table := h.english
  by_cases hl : w.currentLanguage = "en"
  · rw [hl]
    refine ⟨lookUp_found he hk, fun c hc => ⟨?_, .inl rfl⟩⟩
    rw [Ledger.look_known he (by simp)] at hc
    exact loaded_consulted hc he
  · have hn : (Ledger.start w.catalog.roots w).table w.currentLanguage = .ok [] :=
      h.native.resolve_left hl
    constructor
    · rw [lookUp_english hn rfl hl, he, Except.map, hk, Option.getD_some]
    · intro c hc
      rw [Ledger.look_english hn rfl hl] at hc
      have he' : ((Ledger.start w.catalog.roots w).consult w.currentLanguage).table "en" =
          .ok table := Ledger.consult_table.trans he
      refine ⟨loaded_consulted hc he', .inr (loaded_of_first hc
        ((consult_first he' _).trans ((if_neg hl).trans ((consult_first hn _).trans (if_pos rfl))))
        ?_)⟩
      rw [consult_roots, consult_roots]
      exact hn

theorem catalogTemplate_fresh (h : Fresh table w) (hk : Entries.get? key table = some template) :
    ((catalogTemplate key none).run w).1 = .ok template ∧
      Settled table ((catalogTemplate key none).run w).2 := by
  obtain ⟨hr, hf⟩ := Ledger.catalogTemplate_run (start_follows h.unread) key none
  obtain ⟨c, j, hv⟩ := catalogTemplate_keeps key none w
  obtain ⟨hl, ht⟩ := look_fresh h hk
  have hc := ht _ hf.catalog
  constructor
  · rw [hr, show lookUp _ (languageOf none w.language) key = _ from hl]
    rfl
  · rw [hv] at hc ⊢
    exact ⟨h.listening, h.catalogued, hc.1, hc.2⟩

end Lookup

section Telling
variable {table : Table} {w : World} {n : Notice}

def Covers (table : Table) : Prop := ∀ form ∈ Packaged.forms, ∃ t,
  Entries.get? form.key table = some t ∧ Packaged.suits form.names t = true

theorem template_ready (h : Ready table w) {key template : Text}
    (hk : Entries.get? key table = some template) :
    ∃ v, (World.template key none).run w = (.ok (.text template), v) ∧ Settled table v := by
  rcases h with h | h
  · obtain ⟨hr, hs⟩ := catalogTemplate_fresh h hk
    exact ⟨_, template_run h.catalogued (Prod.ext hr rfl), hs⟩
  · exact ⟨w, template_run h.catalogued (catalogTemplate_settled h hk), h⟩

theorem encodable_piece {arguments : List (Text × Template.Argument)} {p : Template.Piece}
    (hp : Packaged.encodes p = true) (ha : ∀ a ∈ arguments, IsEncodable a.2.shown) :
    IsEncodable (p.shown arguments) := by
  cases p with
  | text s => exact hp
  | malformed => exact Text.encodable_ofChars []
  | field f =>
    rw [Template.Piece.shown]
    cases hf : Entries.get? f.name arguments with
    | none => exact Text.encodable_ofChars []
    | some a =>
      exact ha _ (Entries.mem_of_get? hf)

theorem shown_subset {arguments : List (Text × Template.Argument)} {ps : List Template.Piece}
    {name : Text} {a : Template.Argument} (h : Packaged.shows ps name = true)
    (ha : Entries.get? name arguments = some a) :
    a.shown ⊆ ps.flatMap (Template.Piece.shown arguments) := by
  obtain ⟨p, hp, hs⟩ := List.any_eq_true.mp h
  cases p with
  | text s => cases hs
  | malformed => cases hs
  | field f =>
    have hf : f.name = name := beq_iff_eq.mp hs
    intro c hc
    refine List.mem_flatMap.mpr ⟨_, hp, ?_⟩
    rw [Template.Piece.shown, hf, ha]
    exact hc

/-- What a template that suits a notice says can be encoded just if all its arguments can. -/
theorem encodable_suited {template : Text} (hs : Packaged.suits n.form.names template = true) :
    ((∀ a ∈ n.arguments, IsEncodable a.2.shown) → IsEncodable
      ((Template.pieces template.length template).flatMap (Template.Piece.shown n.arguments))) ∧
    ∀ name a, Entries.get? name n.arguments = some a → IsEncodable
      ((Template.pieces template.length template).flatMap (Template.Piece.shown n.arguments)) →
        IsEncodable a.shown := by
  rw [Packaged.suits, Bool.and_eq_true, Bool.and_eq_true] at hs
  obtain ⟨⟨-, hpieces⟩, hshows⟩ := hs
  refine ⟨fun ha => Text.encodable_flatMap fun p hp =>
    encodable_piece (List.all_eq_true.mp hpieces p hp) ha, fun name a hg he => ?_⟩
  have hname : name ∈ n.form.names := List.mem_map_of_mem (Entries.mem_of_get? hg)
  exact Text.encodable_subset he (shown_subset (List.all_eq_true.mp hshows name hname) hg)

/-- The text of a notice can be encoded just if all its arguments can. -/
theorem render_ready (ht : Covers table) (h : Ready table w) (hn : n.form ∈ Packaged.forms) :
    ∃ text v, (render n.key n.arguments).run w = (.ok text, v) ∧ Settled table v ∧
      ((∀ a ∈ n.arguments, IsEncodable a.2.shown) → IsEncodable text) ∧
      ∀ name a, Entries.get? name n.arguments = some a →
        IsEncodable text → IsEncodable a.shown := by
  obtain ⟨template, hk, hsuits⟩ := ht n.form hn
  obtain ⟨v, hr, hs⟩ := template_ready h (show Entries.get? n.key table = some template from hk)
  refine ⟨(Template.pieces template.length template).flatMap (Template.Piece.shown n.arguments), v,
    ?_, hs, encodable_suited hsuits⟩
  rw [Packaged.suits, Bool.and_eq_true, Bool.and_eq_true] at hsuits
  rw [render, run_bind_ok hr]
  dsimp only
  rw [filled_outcome, Template.fill_for (Packaged.showable_of_form hn) hsuits.1.1]
  rfl

theorem Ready.listening (h : Ready table w) : w.audience = .terminal := by
  rcases h with h | h <;> exact h.listening

theorem settled_said (h : Settled table w) (journal : List Event) :
    Settled table { w with journal := journal } := ⟨h.listening, h.catalogued, h.english, h.native⟩

theorem say_settled (h : Settled table w) (events : List Event) :
    ((say events).run w).1 = .ok ⟨⟩ ∧ Settled table ((say events).run w).2 :=
  ⟨rfl, settled_said h _⟩

theorem onOutput_settled (h : Settled table w) (event : Event) {text : Text}
    (ht : IsEncodable text) :
    ((onOutput event text).run w).1 = .ok ⟨⟩ ∧ Settled table ((onOutput event text).run w).2 := by
  rw [onOutput, if_pos (show text.chars?.isSome = true from ht)]
  exact say_settled h _

/-- At a terminal a notice is shown after it was rendered. -/
theorem tell_terminal {text : Text} {v : World} (ha : w.audience = .terminal)
    (hr : (render n.key n.arguments).run w = (.ok text, v)) :
    (tell n).run w = (if n.level.isOutput then onOutput (.message n.level text) text
      else say [.message n.level text]).run v := by
  rw [tell, run_bind_ok (run_get w), ha]
  dsimp only
  rw [run_bind_ok hr]

theorem tell_ready (ht : Covers table) (h : Ready table w) (hn : Sayable n) :
    ((tell n).run w).1 = .ok ⟨⟩ ∧ Settled table ((tell n).run w).2 := by
  obtain ⟨text, v, hr, hs, he, -⟩ := render_ready ht h hn.form
  rw [tell_terminal h.listening hr]
  split
  · next ho => exact onOutput_settled hs _ (he (hn.shown ho))
  · exact say_settled hs _

/-- An argument that cannot be encoded stops the program where it is to be shown. -/
theorem tell_unencodable (ht : Covers table) (h : Ready table w) (hn : n.form ∈ Packaged.forms)
    (ho : n.level.isOutput = true) {name : Text} {a : Template.Argument}
    (ha : Entries.get? name n.arguments = some a) (hu : ¬ IsEncodable a.shown) :
    ((tell n).run w).1 = .error .unencodable := by
  obtain ⟨text, v, hr, -, -, he⟩ := render_ready ht h hn
  have ht : ¬ text.chars?.isSome = true := fun hs => hu (he name a ha hs)
  rw [tell_terminal h.listening hr, if_pos ho, onOutput, if_neg ht]
  rfl

/-- The first of some notices settles the templates for the others. -/
theorem tell_all_ready {ns : List Notice} (ht : Covers table) (h : Ready table w)
    (hs : Settled table w ∨ ns ≠ []) (hn : ∀ n ∈ ns, Sayable n) :
    ∃ v, (ns.forM tell).run w = (.ok ⟨⟩, v) ∧ Settled table v := by
  induction ns generalizing w with
  | nil => exact ⟨w, rfl, hs.resolve_right fun hne => hne rfl⟩
  | cons n ns ih =>
    obtain ⟨ho, hs⟩ := tell_ready ht h (hn n List.mem_cons_self)
    rcases hv : (tell n).run w with ⟨r, v⟩
    rw [hv] at ho hs
    obtain rfl : r = .ok ⟨⟩ := ho
    rw [run_forM_cons, hv]
    exact ih (.inr hs) (.inl hs) fun m hm => hn m (List.mem_cons_of_mem n hm)

end Telling
end SymbolRename.World
