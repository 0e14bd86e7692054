import SymbolRename.Proofs.Message.Reading
import SymbolRename.World

/-!
# Looking templates up in the course of time

A catalog keeps the tables that it has read. Instead of them one may keep how the files stood when
each language was first consulted, and merge these files anew for every look-up: the answers are the
same, whatever happens to the roots, the files and the language of the surroundings in between. What
is kept is given up when the catalog is reset and when the roots come to be others.
-/

set_option autoImplicit false

namespace SymbolRename.Message
open Files

/-- The language of a look-up: the one asked for unless it is empty, else that of the surroundings,
else English. -/
def languageOf (asked surroundings : Option Text) : Text :=
  match asked with
  | some (c :: cs) => c :: cs
  | _ => surroundings.getD "en"

theorem chosen_eq (asked surroundings : Option Text) :
    Catalog.chosen asked surroundings = languageOf asked surroundings := by
  cases asked with
  | none => rfl
  | some lang => cases lang <;> rfl

def lookUp (table : Text → Except Fault Table) (lang key : Text) : Except Fault Text := do
  match Entries.get? key (← table lang) with
  | some s => return s
  | none =>
    if lang = "en" then return key
    else return (Entries.get? key (← table "en")).getD key

theorem lookUp_found {table : Text → Except Fault Table} {lang key s : Text} {t : Table}
    (ht : table lang = .ok t) (hk : Entries.get? key t = some s) :
    lookUp table lang key = .ok s := by
  simp only [lookUp, ht, bind, Except.bind, hk]
  rfl

theorem lookUp_nowhere {table : Text → Except Fault Table} {lang key : Text} {t : Table}
    (ht : table lang = .ok t) (hk : Entries.get? key t = none) (hl : lang = "en") :
    lookUp table lang key = .ok key := by
  simp only [lookUp, ht, bind, Except.bind, hk, if_pos hl]
  rfl

theorem lookUp_english {table : Text → Except Fault Table} {lang key : Text} {t : Table}
    (ht : table lang = .ok t) (hk : Entries.get? key t = none) (hl : lang ≠ "en") :
    lookUp table lang key = (table "en").map fun t => (Entries.get? key t).getD key := by
  simp only [lookUp, ht, bind, Except.bind, hk, if_neg hl]
  cases table "en" <;> rfl

inductive Op where
  | get (key : Text) (asked : Option Text)
  | addRoot (r : Root)
  | setProjectRoot (p : Path)
  | reset
  | surround (files : Tree) (here : Place) (language : Option Text)

def Op.Still (v : Sight) : Op → Prop
  | .surround files here _ => Sight.mk files here = v
  | _ => True

def perform : Op → World → World
  | .get key asked, w => ((World.catalogTemplate key asked).run w).2
  | .addRoot r, w => { w with catalog := w.catalog.addRoot r }
  | .setProjectRoot p, w =>
    { w with catalog := w.catalog.setLastRoot (.project (.ofPlace (p.resolve w.here))) }
  | .reset, w => { w with catalog := w.catalog.reset }
  | .surround files here language, w =>
    { w with files := files, here := here, language := language }

def performAll : List Op → World → World
  | [], w => w
  | op :: ops, w => performAll ops (perform op w)

/-- A catalog without tables: the roots, and how the files stood when each language was first
consulted since the roots are these. -/
structure Ledger where
  roots : List Root
  first : Text → Option Sight
  now : Sight
  language : Option Text

namespace Ledger

def start (roots : List Root) (w : World) : Ledger :=
  ⟨roots, fun _ => none, ⟨w.files, w.here⟩, w.language⟩

def table (m : Ledger) (lang : Text) : Except Fault Table :=
  merged m.roots ((m.first lang).getD m.now) lang

/-- A language that cannot be read is not consulted. -/
def consult (m : Ledger) (lang : Text) : Ledger :=
  match m.table lang with
  | .ok _ =>
    { m with first := fun l => if l = lang then some ((m.first lang).getD m.now) else m.first l }
  | .error _ => m

/-- A look-up consults its language, and English for a key that its language lacks. -/
def look (m : Ledger) (lang key : Text) : Ledger :=
  match m.table lang with
  | .ok t =>
    if Entries.has key t || lang = "en" then m.consult lang else (m.consult lang).consult "en"
  | .error _ => m

theorem look_known {m : Ledger} {lang key : Text} {t : Table} (ht : m.table lang = .ok t)
    (hk : (Entries.has key t || lang = "en") = true) : m.look lang key = m.consult lang := by
  simp only [look, ht]
  exact if_pos hk

theorem look_english {m : Ledger} {lang key : Text} {t : Table} (ht : m.table lang = .ok t)
    (hk : Entries.has key t = false) (hl : lang ≠ "en") :
    m.look lang key = (m.consult lang).consult "en" := by
  simp only [look, ht]
  exact if_neg (by simp [hk, hl])

def withRoots (m : Ledger) (roots : List Root) : Ledger :=
  { m with roots := roots, first := fun _ => none }

def step : Op → Ledger → Ledger
  | .get key asked, m => m.look (languageOf asked m.language) key
  | .addRoot r, m => if r ∈ m.roots then m else m.withRoots (r :: m.roots)
  | .setProjectRoot p, m =>
    let r := Root.project (.ofPlace (p.resolve m.now.here))
    if m.roots.getLast? = some r then m else m.withRoots (m.roots.dropLast ++ [r])
  | .reset, m => m.withRoots m.roots
  | .surround files here language, m => { m with now := ⟨files, here⟩, language := language }

def run : List Op → Ledger → Ledger
  | [], m => m
  | op :: ops, m => run ops (step op m)

structure Keeps (m : Ledger) (c : Catalog) : Prop where
  roots : c.roots = m.roots
  tables : ∀ l, (Entries.get? l c.loaded).map .ok = (m.first l).map (merged m.roots · l)

structure Follows (m : Ledger) (w : World) : Prop where
  catalog : m.Keeps w.catalog
  now : m.now = ⟨w.files, w.here⟩
  language : m.language = w.language

theorem keeps_ofRoots (m : Ledger) (roots : List Root) :
    (m.withRoots roots).Keeps (.ofRoots roots) := ⟨rfl, fun _ => rfl⟩

theorem keeps_put {m : Ledger} {c : Catalog} (hc : m.Keeps c) {lang : Text} {t : Table}
    (hm : m.table lang = .ok t) :
    (m.consult lang).Keeps { c with loaded := Entries.put lang t c.loaded } := by
  rw [consult, hm]
  refine ⟨hc.roots, fun l => ?_⟩
  dsimp only
  split
  · next hl =>
    rw [hl, Entries.get?_put_self, Option.map_some, Option.map_some, ← hm]
    rfl
  · next hl =>
    rw [Entries.get?_put_of_ne lang l t c.loaded (Ne.symm hl)]
    exact hc.tables l

theorem keeps_known {m : Ledger} {c : Catalog} (hc : m.Keeps c) {lang : Text} {t : Table}
    (hg : Entries.get? lang c.loaded = some t) :
    m.table lang = .ok t ∧ (m.consult lang).Keeps c := by
  have ht := hc.tables lang
  rw [hg] at ht
  obtain ⟨v, hf, hv⟩ := Option.map_eq_some_iff.mp ht.symm
  have hm : m.table lang = .ok t := by
    rw [table, hf]
    exact hv
  refine ⟨hm, ?_⟩
  rw [consult, hm]
  refine ⟨hc.roots, fun l => ?_⟩
  dsimp only
  split
  · next hl =>
    rw [hl, hc.tables lang, hf, Option.getD_some]
  · exact hc.tables l

theorem table_run {m : Ledger} {c : Catalog} (hc : m.Keeps c) (lang : Text) (logs : List Log) :
    ∃ c' logs', (Catalog.table m.now.files m.now.here lang).run ⟨c, logs⟩ =
        (m.table lang, ⟨c', logs'⟩) ∧ (m.consult lang).Keeps c' := by
  rw [Catalog.table, Task.run_bind_ok (Task.run_get _)]
  dsimp only
  cases hg : Entries.get? lang c.loaded with
  | some t =>
    obtain ⟨hm, hk⟩ := keeps_known hc hg
    exact ⟨c, logs, by rw [hm]; rfl, hk⟩
  | none =>
    have hf : m.first lang = none := by
      have ht := hc.tables lang
      rw [hg] at ht
      exact Option.map_eq_none_iff.mp ht.symm
    have hm : merged m.roots m.now lang = m.table lang := by rw [table, hf, Option.getD_none]
    rcases hr : (loadLanguage m.now.files m.now.here c.roots lang).run logs with ⟨r, more⟩
    have hl : r = m.table lang := by
      rw [← hm, ← hc.roots, ← loadLanguage_run m.now c.roots lang logs, hr]
    have hp := Task.run_onPart Catalog.Desk.logs (fun logs d => { d with logs := logs }) id
      (loadLanguage m.now.files m.now.here c.roots lang) ⟨c, logs⟩
    dsimp only at hp
    rw [hr, hl] at hp
    cases ht : m.table lang with
    | ok t =>
      rw [ht] at hp
      refine ⟨_, more, ?_, keeps_put hc ht⟩
      rw [Task.run_bind_ok hp]
      rfl
    | error e =>
      rw [ht] at hp
      refine ⟨c, more, ?_, ?_⟩
      · rw [Task.run_bind_error hp]
        rfl
      · rw [consult, ht]
        exact hc

@[simp] theorem consult_now (m : Ledger) (lang : Text) : (m.consult lang).now = m.now := by
  rw [consult]
  split <;> rfl

@[simp] theorem consult_language (m : Ledger) (lang : Text) :
    (m.consult lang).language = m.language := by
  rw [consult]
  split <;> rfl

@[simp] theorem look_now (m : Ledger) (lang key : Text) : (m.look lang key).now = m.now := by
  rw [look]
  split
  · split <;> simp
  · rfl

@[simp] theorem look_language (m : Ledger) (lang key : Text) :
    (m.look lang key).language = m.language := by
  rw [look]
  split
  · split <;> simp
  · rfl

theorem consult_table {m : Ledger} {lang l : Text} : (m.consult lang).table l = m.table l := by
  rw [consult]
  cases hm : m.table lang with
  | error e => rfl
  | ok t =>
    dsimp only
    rw [table]
    dsimp only
    split
    · next hl => rw [hl, Option.getD_some, table]
    · rfl

theorem get_run {m : Ledger} {c : Catalog} (hc : m.Keeps c) (lang key : Text) (logs : List Log) :
    ∃ c' logs', (Catalog.get m.now.files m.now.here lang key).run ⟨c, logs⟩ =
        (lookUp m.table lang key, ⟨c', logs'⟩) ∧ (m.look lang key).Keeps c' := by
  obtain ⟨c', logs', hr, hc'⟩ := table_run hc lang logs
  rw [Catalog.get]
  cases ht : m.table lang with
  | error e =>
    rw [ht] at hr
    rw [consult, ht] at hc'
    refine ⟨c', logs', ?_, ?_⟩
    · rw [Task.run_bind_error hr, lookUp, ht]
      rfl
    · rw [look, ht]
      exact hc'
  | ok t =>
    rw [ht] at hr
    rw [Task.run_bind_ok hr]
    cases hk : Entries.get? key t with
    | some s =>
      refine ⟨c', logs', ?_, ?_⟩
      · rw [lookUp_found ht hk]
        rfl
      · rw [look_known ht (by simp [Entries.has, hk])]
        exact hc'
    | none =>
      by_cases hl : lang = "en"
      · refine ⟨c', logs', ?_, ?_⟩
        · rw [lookUp_nowhere ht hk hl]
          dsimp only
          rw [if_pos (show lang = Catalog.defaultLanguage from hl)]
          rfl
        · rw [look_known ht (by simp [hl])]
          exact hc'
      · obtain ⟨d, logs'', hr', hd⟩ := table_run hc' "en" logs'
        rw [consult_now, consult_table] at hr'
        refine ⟨d, logs'', ?_, ?_⟩
        · rw [lookUp_english ht hk hl]
          dsimp only
          rw [if_neg (show lang ≠ Catalog.defaultLanguage from hl)]
          cases hm : m.table "en" with
          | ok u =>
            rw [hm] at hr'
            exact Task.run_bind_ok hr' _
          | error e =>
            rw [hm] at hr'
            exact Task.run_bind_error hr' _
        · rw [look_english ht (by simp [Entries.has, hk]) hl]
          exact hd

theorem catalogTemplate_run {m : Ledger} {w : World} (hw : m.Follows w) (key : Text)
    (asked : Option Text) :
    ((World.catalogTemplate key asked).run w).1 =
      (lookUp m.table (languageOf asked w.language) key).mapError .messages ∧
    (m.look (languageOf asked w.language) key).Follows
      ((World.catalogTemplate key asked).run w).2 := by
  obtain ⟨c, logs, hr, hc⟩ := get_run hw.catalog (languageOf asked w.language) key []
  rw [hw.now] at hr
  rw [World.catalogTemplate, Task.run_bind_ok (Task.run_get w), Task.run_onPart, chosen_eq, hr]
  refine ⟨rfl, hc, ?_, ?_⟩
  · rw [look_now, hw.now]
  · rw [look_language, hw.language]

theorem step_follows {m : Ledger} {w : World} (hw : m.Follows w) (op : Op) :
    (step op m).Follows (perform op w) := by
  cases op with
  | get key asked =>
    rw [step, hw.language]
    exact (catalogTemplate_run hw key asked).2
  | addRoot r =>
    rw [step, perform, Catalog.addRoot, hw.catalog.roots]
    by_cases hr : r ∈ m.roots
    · rw [if_pos hr, if_pos (List.contains_iff_mem.mpr hr)]
      exact hw
    · rw [if_neg hr, if_neg (mt List.contains_iff_mem.mp hr)]
      exact ⟨keeps_ofRoots m _, hw.now, hw.language⟩
  | setProjectRoot p =>
    rw [step, perform, Catalog.setLastRoot, hw.catalog.roots, hw.now]
    dsimp only
    split
    · exact hw
    · exact ⟨keeps_ofRoots m _, hw.now, hw.language⟩
  | reset =>
    rw [step, perform, Catalog.reset, hw.catalog.roots]
    exact ⟨keeps_ofRoots m _, hw.now, hw.language⟩
  | surround files here language =>
    exact ⟨⟨hw.catalog.roots, hw.catalog.tables⟩, rfl, rfl⟩

theorem run_follows {m : Ledger} {w : World} (hw : m.Follows w) (ops : List Op) :
    (run ops m).Follows (performAll ops w) := by
  induction ops generalizing m w with
  | nil => exact hw
  | cons op ops ih => exact ih (step_follows hw op)

def Current (m : Ledger) : Prop := ∀ l v, m.first l = some v → v = m.now

theorem table_current {m : Ledger} (hm : m.Current) (lang : Text) :
    m.table lang = merged m.roots m.now lang := by
  rw [table]
  cases hf : m.first lang with
  | none => rfl
  | some v => rw [hm lang v hf, Option.getD_some]

theorem consult_current {m : Ledger} (hm : m.Current) (lang : Text) : (m.consult lang).Current := by
  intro l v hv
  rw [consult_now]
  rw [consult] at hv
  split at hv
  · dsimp only at hv
    split at hv
    · cases hf : m.first lang with
      | none =>
        rw [hf] at hv
        exact (Option.some.inj hv).symm
      | some u =>
        rw [hf] at hv
        rw [← Option.some.inj hv]
        exact hm lang u hf
    · exact hm l v hv
  · exact hm l v hv

theorem look_current {m : Ledger} (hm : m.Current) (lang key : Text) : (m.look lang key).Current := by
  rw [look]
  split
  · split
    · exact consult_current hm lang
    · exact consult_current (consult_current hm lang) "en"
  · exact hm

theorem withRoots_current (m : Ledger) (roots : List Root) : (m.withRoots roots).Current :=
  fun _ _ hv => nomatch hv

theorem step_current {m : Ledger} (hm : m.Current) {op : Op} (ho : op.Still m.now) :
    (step op m).Current ∧ (step op m).now = m.now := by
  cases op with
  | get key asked => exact ⟨look_current hm _ key, look_now m _ key⟩
  | addRoot r =>
    rw [step]
    split
    · exact ⟨hm, rfl⟩
    · exact ⟨withRoots_current m _, rfl⟩
  | setProjectRoot p =>
    rw [step]
    split
    · exact ⟨hm, rfl⟩
    · exact ⟨withRoots_current m _, rfl⟩
  | reset => exact ⟨withRoots_current m _, rfl⟩
  | surround files here language =>
    have hn : Sight.mk files here = m.now := ho
    exact ⟨fun l v hv => (hm l v hv).trans hn.symm, hn⟩

theorem run_current {m : Ledger} (hm : m.Current) {ops : List Op}
    (ho : ∀ op ∈ ops, op.Still m.now) : (run ops m).Current := by
  induction ops generalizing m with
  | nil => exact hm
  | cons op ops ih =>
    obtain ⟨hs, hn⟩ := step_current hm (ho op (by simp))
    exact ih hs fun o hm => hn ▸ ho o (by simp [hm])

end Ledger

/-- After any run, a look-up picks its language by what is asked for now, and answers from the
message files as they stood when a language was first consulted over the roots as they are now. If
the files stay as they are all the time, it answers like a look-up that never kept anything. -/
theorem get_answers (roots : List Root) (w : World) (ops : List Op) (key : Text)
    (asked : Option Text) :
    let m := Ledger.run ops (.start roots w)
    let v := performAll ops { w with catalog := .ofRoots roots }
    v.catalog.roots = m.roots ∧
    ((World.catalogTemplate key asked).run v).1 =
      (lookUp m.table (languageOf asked v.language) key).mapError .messages ∧
    ((∀ op ∈ ops, op.Still ⟨w.files, w.here⟩) →
      ((World.catalogTemplate key asked).run v).1 =
        (lookUp (merged v.catalog.roots ⟨v.files, v.here⟩) (languageOf asked v.language)
          key).mapError .messages) := by
  intro m v
  have hs : (Ledger.start roots w).Follows { w with catalog := .ofRoots roots } :=
    ⟨⟨rfl, fun _ => rfl⟩, rfl, rfl⟩
  have hf : m.Follows v := Ledger.run_follows hs ops
  have hr := (Ledger.catalogTemplate_run hf key asked).1
  refine ⟨hf.catalog.roots, hr, fun ho => ?_⟩
  have hm : m.Current := Ledger.run_current (Ledger.withRoots_current (.start roots w) roots) ho
  have ht : m.table = merged v.catalog.roots ⟨v.files, v.here⟩ := by
    funext lang
    rw [Ledger.table_current hm, hf.catalog.roots, hf.now]
  rw [hr, ht]

end SymbolRename.Message
