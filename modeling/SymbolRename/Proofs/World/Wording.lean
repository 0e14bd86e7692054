import SymbolRename.Proofs.World.Telling

/-!
# The wording of notices

With the packaged templates each notice has a wording of its own, which shows its arguments as they
are. Whoever reads along hears just these wordings, in the order in which the notices are told; what
is read or noted down for them on the way is no message.
-/

set_option autoImplicit false

namespace SymbolRename
open Message SymbolRename.Task
open Text (IsEncodable)

def Notice.wording (n : Notice) : Text :=
  (Packaged.phrase n.key).flatMap (Template.Piece.shown n.arguments)

/-! ## Tables that are read when they are needed -/

namespace Message.Catalog
variable (c : Catalog) (v : Sight)

/-- The table of a language: the one that was read, or what its files hold as they stand. -/
def known (lang : Text) : Except Fault Table :=
  ((Entries.get? lang c.loaded).map .ok).getD (merged c.roots v lang)

theorem known_put {lang : Text} {t : Table} (h : c.known v lang = .ok t) :
    known { c with loaded := Entries.put lang t c.loaded } v = c.known v := by
  funext l
  by_cases hl : l = lang
  · rw [known, hl, Entries.get?_put_self, h]
    rfl
  · rw [known, Entries.get?_put_of_ne lang l t c.loaded (Ne.symm hl), known]

theorem table_known (lang : Text) (logs : List Log) :
    ∃ c' more, (Catalog.table v.files v.here lang).run ⟨c, logs⟩ =
        (c.known v lang, ⟨c', logs ++ more⟩) ∧ c'.known v = c.known v := by
  rw [Catalog.table, run_bind_ok (run_get _)]
  dsimp only
  cases hg : Entries.get? lang c.loaded with
  | some t =>
    have hk : c.known v lang = .ok t := by
      rw [known, hg]
      rfl
    refine ⟨c, [], ?_, rfl⟩
    rw [hk, List.append_nil]
    rfl
  | none =>
    have hk : c.known v lang = merged c.roots v lang := by
      rw [known, hg]
      rfl
    have hs := loadLanguage_steady v.files v.here c.roots lang logs
    have hp := run_onPart Desk.logs (fun logs d => { d with logs := logs }) id
      (loadLanguage v.files v.here c.roots lang) ⟨c, logs⟩
    dsimp only at hp
    rw [hs] at hp
    generalize ((loadLanguage v.files v.here c.roots lang).run []).2 = more at hp
    change _ = ((merged c.roots v lang).mapError id, _) at hp
    rw [← hk] at hp
    cases ht : c.known v lang with
    | ok t =>
      rw [ht] at hp
      refine ⟨_, more, ?_, known_put c v ht⟩
      rw [run_bind_ok hp]
      rfl
    | error e =>
      rw [ht] at hp
      refine ⟨c, more, ?_, rfl⟩
      rw [run_bind_error hp]
      rfl

/-- A look-up goes by the tables, and leaves them as they are. -/
theorem get_known (lang key : Text) (logs : List Log) :
    ∃ c' more, (Catalog.get v.files v.here lang key).run ⟨c, logs⟩ =
        (lookUp (c.known v) lang key, ⟨c', logs ++ more⟩) ∧ c'.known v = c.known v := by
  obtain ⟨c', more, hr, hc⟩ := table_known c v lang logs
  rw [Catalog.get]
  cases ht : c.known v lang with
  | error e =>
    rw [ht] at hr
    refine ⟨c', more, ?_, hc⟩
    rw [run_bind_error hr, lookUp, ht]
    rfl
  | ok t =>
    rw [ht] at hr
    rw [run_bind_ok hr]
    cases hk : Entries.get? key t with
    | some s =>
      refine ⟨c', more, ?_, hc⟩
      rw [lookUp_found ht hk]
      rfl
    | none =>
      by_cases hl : lang = "en"
      · refine ⟨c', more, ?_, hc⟩
        rw [lookUp_nowhere ht hk hl]
        dsimp only
        rw [if_pos (show lang = defaultLanguage from hl)]
        rfl
      · obtain ⟨d, rest, hr', hd⟩ := table_known c' v "en" (logs ++ more)
        rw [hc] at hr' hd
        refine ⟨d, more ++ rest, ?_, hd⟩
        rw [lookUp_english ht hk hl, ← List.append_assoc]
        dsimp only
        rw [if_neg (show lang ≠ defaultLanguage from hl)]
        cases hm : c.known v "en" with
        | ok u =>
          rw [hm] at hr'
          exact run_bind_ok hr' _
        | error e =>
          rw [hm] at hr'
          exact run_bind_error hr' _

end Message.Catalog

/-! ## Telling -/

namespace World

/-- The templates are those of the program: nothing stands in for the catalog, its English table is
the packaged one, and another language has no templates. -/
structure Plain (w : World) : Prop where
  catalogued : w.templates = none
  english : w.catalog.known ⟨w.files, w.here⟩ "en" = merged [.packaged] ⟨w.files, w.here⟩ "en"
  native : w.currentLanguage = "en" ∨
    w.catalog.known ⟨w.files, w.here⟩ w.currentLanguage = .ok []

def messages (journal : List Event) : List (Level × Text) :=
  journal.filterMap fun
    | .message level text => some (level, text)
    | _ => none

theorem messages_append (j k : List Event) : messages (j ++ k) = messages j ++ messages k :=
  List.filterMap_append

theorem messages_logs (logs : List Log) : messages (logs.map .log) = [] := by
  rw [messages, List.filterMap_map, List.filterMap_eq_nil_iff]
  exact fun _ _ => rfl

/-- A world after some notices: nothing but the catalog and the journal is another, the templates
are still those of the program, and of the notices their wordings were heard. -/
structure Heard (ns : List Notice) (w v : World) : Prop where
  consults : Consults w v
  plain : Plain v
  messages : messages v.journal = messages w.journal ++ ns.map fun n => (n.level, n.wording)

theorem Heard.trans {ns ms : List Notice} {u v w : World} (h : Heard ns u v) (h' : Heard ms v w) :
    Heard (ns ++ ms) u w where
  consults := trans_of Consults h.consults h'.consults
  plain := h'.plain
  messages := by rw [h'.messages, h.messages, List.map_append, List.append_assoc]

section Telling
variable {w v : World} {n : Notice} {key template : Text}

theorem Heard.refl (h : Plain w) : Heard [] w w :=
  ⟨refl_of Consults w, h, by rw [List.map_nil, List.append_nil]⟩

theorem lookUp_plain (h : Plain w) (hn : n.form ∈ Packaged.forms) :
    ∃ t, lookUp (w.catalog.known ⟨w.files, w.here⟩) w.currentLanguage n.key = .ok t ∧
      Packaged.suits n.form.names t = true ∧
      Template.pieces t.length t = Packaged.phrase n.key := by
  obtain ⟨table, hm, ht⟩ := Packaged.merged_forms ⟨w.files, w.here⟩
  obtain ⟨t, hk, hs, hp⟩ := ht n.form hn
  have he := h.english.trans hm
  refine ⟨t, ?_, hs, hp⟩
  by_cases hl : w.currentLanguage = "en"
  · rw [hl]
    exact lookUp_found he hk
  · rw [lookUp_english (h.native.resolve_left hl) rfl hl, he, Except.map]
    exact congrArg (fun o => Except.ok (Option.getD o _)) hk

/-- A catalog that has read nothing has the packaged templates if its roots have no others. -/
theorem plain_unread (hc : w.templates = none) (hl : w.catalog.loaded = [])
    (he : merged w.catalog.roots ⟨w.files, w.here⟩ "en" = merged [.packaged] ⟨w.files, w.here⟩ "en")
    (hn : w.currentLanguage = "en" ∨
      merged w.catalog.roots ⟨w.files, w.here⟩ w.currentLanguage = .ok []) : Plain w := by
  have hknown (lang : Text) : w.catalog.known ⟨w.files, w.here⟩ lang =
      merged w.catalog.roots ⟨w.files, w.here⟩ lang := by
    rw [Catalog.known, hl]
    rfl
  exact ⟨hc, (hknown _).trans he, hn.imp_right (hknown _).trans⟩

def listening : World where
  files := ⟨[]⟩
  here := []
  language := none
  catalog := .ofRoots [.packaged]
  templates := none
  audience := .reader
  journal := []

theorem listening_plain : Plain listening := plain_unread rfl rfl rfl (.inl rfl)

theorem catalogTemplate_known (w : World) (key : Text) :
    ∃ (c : Catalog) (logs : List Log), (catalogTemplate key none).run w =
        ((lookUp (w.catalog.known ⟨w.files, w.here⟩) w.currentLanguage key).mapError .messages,
          { w with catalog := c, journal := w.journal ++ logs.map .log }) ∧
      c.known ⟨w.files, w.here⟩ = w.catalog.known ⟨w.files, w.here⟩ := by
  obtain ⟨c, logs, hr, hc⟩ :=
    Catalog.get_known w.catalog ⟨w.files, w.here⟩ w.currentLanguage key []
  refine ⟨c, logs, ?_, hc⟩
  rw [catalogTemplate, run_bind_ok (run_get w), run_onPart, chosen_eq]
  rw [show languageOf none w.language = w.currentLanguage from rfl, hr]
  rfl

/-- A notice whose template is that of its phrase has its wording. -/
theorem render_phrase (hn : n.form ∈ Packaged.forms)
    (ht : (World.template n.key none).run w = (.ok (.text template), v))
    (hs : Packaged.suits n.form.names template = true)
    (hp : Template.pieces template.length template = Packaged.phrase n.key) :
    (render n.key n.arguments).run w = (.ok n.wording, v) := by
  rw [Packaged.suits, Bool.and_eq_true, Bool.and_eq_true] at hs
  rw [render, run_bind_ok ht]
  dsimp only
  rw [filled_outcome, Template.fill_for (Packaged.showable_of_form hn) hs.1.1, hp]
  rfl

/-- A wording can be encoded just if all that it shows can. -/
theorem encodable_wording (hn : n.form ∈ Packaged.forms) :
    ((∀ a ∈ n.arguments, IsEncodable a.2.shown) → IsEncodable n.wording) ∧
    ∀ name a, Entries.get? name n.arguments = some a →
      IsEncodable n.wording → IsEncodable a.shown := by
  obtain ⟨table, -, ht⟩ := Packaged.merged_forms ⟨⟨[]⟩, []⟩
  obtain ⟨t, -, hs, hp⟩ := ht n.form hn
  have he := encodable_suited hs
  rw [hp] at he
  exact he

/-- What is read for a notice adds nothing that is heard. -/
theorem render_plain (h : Plain w) (hn : n.form ∈ Packaged.forms) :
    ∃ v, (render n.key n.arguments).run w = (.ok n.wording, v) ∧ Heard [] w v := by
  obtain ⟨t, ht, hs, hp⟩ := lookUp_plain h hn
  obtain ⟨c, logs, hr, hc⟩ := catalogTemplate_known w n.key
  rw [ht] at hr
  refine ⟨_, render_phrase hn (template_run h.catalogued hr) hs hp, ⟨c, _, rfl⟩,
    ⟨h.catalogued, ?_, ?_⟩, ?_⟩
  · exact (congrFun hc _).trans h.english
  · exact h.native.imp_right (congrFun hc _).trans
  · rw [messages_append, messages_logs]
    rfl

def Reaches (a : Audience) (n : Notice) : Prop :=
  a = .reader ∨ (a = .terminal ∧ (n.level.isOutput = true → IsEncodable n.wording))

theorem say_heard (h : Heard [] w v) (n : Notice) :
    Heard [n] w { v with journal := v.journal ++ [.message n.level n.wording] } where
  consults := trans_of Consults h.consults ⟨v.catalog, _, rfl⟩
  plain := ⟨h.plain.catalogued, h.plain.english, h.plain.native⟩
  messages := by
    rw [messages_append, h.messages, List.map_nil, List.append_nil]
    rfl

theorem tell_plain (h : Plain w) (hn : n.form ∈ Packaged.forms) (ha : Reaches w.audience n) :
    ∃ v, (tell n).run w = (.ok ⟨⟩, v) ∧ Heard [n] w v := by
  obtain ⟨v, hr, hv⟩ := render_plain h hn
  refine ⟨_, ?_, say_heard hv n⟩
  rcases ha with ha | ⟨ha, he⟩
  · rw [tell, run_bind_ok (run_get w), ha]
    dsimp only
    rw [run_bind_ok hr]
    rfl
  · rw [tell_terminal ha hr]
    split
    · next ho =>
      rw [onOutput, if_pos (show n.wording.chars?.isSome = true from he ho)]
      rfl
    · rfl

theorem tell_all_plain {ns : List Notice} (h : Plain w) (hn : ∀ n ∈ ns, n.form ∈ Packaged.forms)
    (ha : ∀ n ∈ ns, Reaches w.audience n) :
    ∃ v, (ns.forM tell).run w = (.ok ⟨⟩, v) ∧ Heard ns w v := by
  induction ns generalizing w with
  | nil => exact ⟨w, rfl, .refl h⟩
  | cons n ns ih =>
    obtain ⟨u, hr, hu⟩ := tell_plain h (hn n List.mem_cons_self) (ha n List.mem_cons_self)
    have hsame : u.audience = w.audience := by
      obtain ⟨c, j, rfl⟩ := hu.consults
      rfl
    obtain ⟨v, hr', hv⟩ := ih hu.plain (fun m hm => hn m (List.mem_cons_of_mem n hm))
      (fun m hm => hsame ▸ ha m (List.mem_cons_of_mem n hm))
    refine ⟨v, ?_, hu.trans hv⟩
    rw [run_forM_cons, hr]
    exact hr'

end Telling

/-! ## Telling at a terminal after the first notice -/

/-- The notice cannot be encoded where it would have to be. -/
def Lost (n : Notice) : Prop := n.level.isOutput = true ∧ ¬ IsEncodable n.wording

instance (n : Notice) : Decidable (Lost n) :=
  inferInstanceAs (Decidable (n.level.isOutput = true ∧ ¬ IsEncodable n.wording))

def uttered (n : Notice) : List Event := if Lost n then [] else [.message n.level n.wording]

def utterance (n : Notice) : Except Fault Unit := if Lost n then .error .unencodable else .ok ⟨⟩

/-- When the packaged table was read, nothing but the notice itself is said. -/
theorem tell_settled {table : Table} {v : Sight} {w : World} {n : Notice}
    (hm : merged [.packaged] v "en" = .ok table) (h : Settled table w)
    (hn : n.form ∈ Packaged.forms) :
    (tell n).run w = (utterance n, { w with journal := w.journal ++ uttered n }) := by
  obtain ⟨packaged, hp, ht⟩ := Packaged.merged_forms v
  obtain rfl : packaged = table := Except.ok.inj (hp.symm.trans hm)
  obtain ⟨t, hk, hs, hphrase⟩ := ht n.form hn
  have hr : (render n.key n.arguments).run w = (.ok n.wording, w) :=
    render_phrase hn (template_run h.catalogued (catalogTemplate_settled h hk)) hs hphrase
  rw [tell_terminal h.listening hr, utterance, uttered]
  by_cases ho : n.level.isOutput = true
  · rw [if_pos ho, onOutput]
    by_cases he : IsEncodable n.wording
    · have hl : ¬ Lost n := fun hl => hl.2 he
      rw [if_pos (show n.wording.chars?.isSome = true from he), if_neg hl, if_neg hl]
      rfl
    · have hl : Lost n := ⟨ho, he⟩
      rw [if_neg (show ¬ n.wording.chars?.isSome = true from he), if_pos hl, if_pos hl,
        List.append_nil]
      rfl
  · have hl : ¬ Lost n := fun hl => ho hl.1
    rw [if_neg ho, if_neg hl, if_neg hl]
    rfl

end World
end SymbolRename
