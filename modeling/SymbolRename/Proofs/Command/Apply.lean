import SymbolRename.Proofs.Command.Keeping
import SymbolRename.Proofs.Command.Loading
import SymbolRename.Proofs.Message.Packaged
import SymbolRename.Proofs.Pass.Told

/-!
# Applying a response

A run reads its configuration, the response and the document, goes over the function, and keeps it.
The only file that it touches is that of the document, and it does so only to keep what a pass has
renamed. How it ends depends on what could be read and on what was refused, as long as all that it
shows can be shown.
-/

set_option autoImplicit false

namespace SymbolRename.Command
open Files World Message SymbolRename.Task
open Document (Kept Opens currentText?)
open Text (IsEncodable)

/-! ## From the pass on -/

theorem atDesk_run {α : Type} (f : Function) (task : Task Desk Fault α) (w : World) :
    (atDesk f task).run w =
      ((task.run ⟨w, f⟩).1.map (·, (task.run ⟨w, f⟩).2.function), (task.run ⟨w, f⟩).2.world) := by
  rw [atDesk, run_bind_ok (run_get w)]
  rcases task.run ⟨w, f⟩ with ⟨e | a, d⟩ <;> rfl

def proceed (p : Path) (noReport mayWrite : Bool) (width : ℤ) (text : Text) (f : Function) :
    Act Nat := do
  let (pass, g) ← atDesk f (Pass.run Desk.host Desk.tell .report text width)
  finish p noReport mayWrite pass g

theorem runApply_eq (input : List UInt8) (response : Text) (p : Path) (dryRun noReport : Bool) :
    runApply input response p dryRun noReport = loadConfig >>= fun config =>
      loaded? p (loading input response p config.defaultSource) >>= fun loaded =>
        match loaded with
        | none => pure 1
        | some (text, f) =>
          proceed p noReport (!dryRun && config.writeBack) config.reportWidth text f := by
  rfl

section Proceeding
variable {table : Table} {w : World} {place : Place} {p : Path}
variable {noReport mayWrite : Bool} {width : ℤ} {text : Text} {f : Function}

theorem proceed_run (p : Path) (noReport mayWrite : Bool) (width : ℤ) (text : Text) (f : Function)
    (w : World) : (proceed p noReport mayWrite width text f).run w =
      match (Pass.run Desk.host Desk.tell Fault.report text width).run ⟨w, f⟩ with
      | (.error e, d) => (.error e, d.world)
      | (.ok pass, d) => (finish p noReport mayWrite pass d.function).run d.world := by
  rw [proceed, run_bind, atDesk_run]
  rcases (Pass.run Desk.host Desk.tell Fault.report text width).run ⟨w, f⟩
    with ⟨e | pass, d⟩ <;> rfl

/-- Only a function that was renamed is kept, as it is after the pass. -/
theorem proceed_kept (noReport mayWrite : Bool) (width : ℤ) (text : Text) (f : Function)
    (h : Opens p place w) :
    Consults w ((proceed p noReport mayWrite width text f).run w).2 ∨
      ((f.record (Directive.parse text)).applied ≠ [] ∧ mayWrite = true ∧
        Kept p (f.after (Directive.parse text)) place w
          ((proceed p noReport mayWrite width text f).run w).2) := by
  rw [proceed_run]
  have hc := Pass.run_consults Fault.report text width w f
  rcases hr : (Pass.run Desk.host Desk.tell Fault.report text width).run ⟨w, f⟩ with ⟨e | pass, d⟩
  · rw [hr] at hc
    exact .inl hc
  · obtain ⟨hf, -, -, hrecord, -⟩ := Pass.run_ok hr
    rw [hr] at hc
    rw [← hf, ← hrecord]
    rcases finish_kept noReport mayWrite pass d.function (h.consults hc) with hd | ⟨ha, hm, hk⟩
    · exact .inl (trans_of Consults hc hd)
    · exact .inr ⟨ha, hm, .before hc hk⟩

theorem proceed_dry (p : Path) (noReport : Bool) (width : ℤ) (text : Text) (f : Function) :
    Keeps Consults (proceed p noReport false width text f) := by
  intro w
  rw [proceed_run]
  have hc := Pass.run_consults Fault.report text width w f
  rcases hr : (Pass.run Desk.host Desk.tell Fault.report text width).run ⟨w, f⟩ with ⟨e | pass, d⟩
  · rw [hr] at hc
    exact hc
  · rw [hr] at hc
    exact trans_of Consults hc (finish_dry p noReport pass d.function d.world)

/-- What a run shows on the way can be shown: the rule of the report can be drawn, and the names of
the function and its document can be encoded if they are shown. -/
structure Shown (p : Path) (noReport : Bool) (width : ℤ) (f : Function) (ds : List Directive) :
    Prop where
  drawable : width ≤ 0x100000000
  name : IsEncodable f.name ∨ (ds = [] ∧ noReport = true)
  path : IsEncodable p.text ∨ (f.record ds).applied = []

theorem proceed_ok (ht : Covers table) (hw : Ready table w) (h : Opens p place w)
    (ha : IsEncodable text) (hp : 0 < width)
    (hshown : Shown p noReport width f (Directive.parse text)) :
    ((proceed p noReport mayWrite width text f).run w).1 =
        .ok (exitCode (f.record (Directive.parse text)).success) ∧
      ((f.record (Directive.parse text)).applied ≠ [] → mayWrite = true →
        Kept p (f.after (Directive.parse text)) place w
          ((proceed p noReport mayWrite width text f).run w).2) := by
  obtain ⟨report, hr⟩ := Report.render_drawable (by omega) hshown.drawable f.name
    (Directive.parse text) (f.record (Directive.parse text)).applied.length
  have hreport : IsEncodable report ∨ noReport = true := hshown.name.imp
    (Report.render_encodable · (fun d hd => Directive.parse_encodable ha hd) hr) And.right
  obtain ⟨v, hv, hrun⟩ := Pass.run_told Fault.report text width ht hw
    (hshown.name.imp_right And.left)
  have hc := Pass.run_consults Fault.report text width w f
  rw [hr] at hrun
  rw [hrun] at hc
  rw [proceed_run, hrun]
  obtain ⟨hcode, hkept⟩ := finish_ok
    ⟨f.name, Directive.parse text, f.record (Directive.parse text), report⟩
    (f.after (Directive.parse text)) ht hv (h.consults hc) hreport hshown.path
  exact ⟨hcode, fun ha hm => .before hc (hkept ha hm)⟩

/-- A pass that fails ends the run, and nothing is kept. -/
theorem proceed_stopped {e : Fault} (p : Path) (noReport mayWrite : Bool)
    (h : ((Pass.run Desk.host Desk.tell Fault.report text width).run ⟨w, f⟩).1 = .error e) :
    ((proceed p noReport mayWrite width text f).run w).1 = .error e ∧
      Consults w ((proceed p noReport mayWrite width text f).run w).2 := by
  rw [proceed_run]
  have hc := Pass.run_consults Fault.report text width w f
  rcases hr : (Pass.run Desk.host Desk.tell Fault.report text width).run ⟨w, f⟩ with ⟨r, d⟩
  rw [hr] at h hc
  obtain rfl : r = .error e := h
  exact ⟨rfl, hc⟩

theorem proceed_unencodable (noReport : Bool) (ht : Covers table) (hw : Ready table w)
    (hp : ¬ IsEncodable p.text) (ha : IsEncodable text) (hf : IsEncodable f.name) (hl : 0 < width)
    (hd : width ≤ 0x100000000) (happlied : (f.record (Directive.parse text)).applied ≠ []) :
    ((proceed p noReport false width text f).run w).1 = .error .unencodable := by
  obtain ⟨report, hr⟩ := Report.render_drawable (by omega) hd f.name
    (Directive.parse text) (f.record (Directive.parse text)).applied.length
  obtain ⟨v, hv, hrun⟩ := Pass.run_told (f := f) Fault.report text width ht hw (.inl hf)
  rw [hr] at hrun
  rw [proceed_run, hrun]
  exact finish_unencodable _ ht hv
    (Report.render_encodable hf (fun d hd => Directive.parse_encodable ha hd) hr) happlied hp

end Proceeding

/-! ## The whole run -/

/-- What a run starts from. The project has no messages of its own, so English ones are those of the
program and another language has none; the configuration is read; the path of the document leads to
a file; and whatever keeps a document from being loaded is one of the faults that are told. -/
structure Setup (w : World) (p : Path) (place : Place) (config : Config) (logs : List Log) :
    Prop where
  started : ∃ files here language, surroundings files here language = .ok w
  standing : w.files.Standing w.here
  configuration : Config.load w.files w.here = .ok (config, logs)
  document : ∃ bytes, w.files.find w.here p = .ok (.file place bytes)
  english : merged w.catalog.roots ⟨w.files, w.here⟩ "en" =
    merged [.packaged] ⟨w.files, w.here⟩ "en"
  native : w.currentLanguage = "en" ∨
    merged w.catalog.roots ⟨w.files, w.here⟩ w.currentLanguage = .ok []
  caught : ∀ e, ((Document.load p config.defaultSource).run (configured w logs)).1 = .error e →
    (loadNotice? p e).isSome = true

theorem fresh_speaks {table : Table} {w v : World} (h : Fresh table w) (hv : Speaks w v) :
    Fresh table v := by
  obtain ⟨j, rfl⟩ := hv
  exact ⟨h.listening, h.catalogued, h.unread, h.english, h.native⟩

section Run
variable {w : World} {p : Path} {place : Place} {config : Config} {logs : List Log}

theorem Setup.fresh (h : Setup w p place config logs) :
    ∃ table, Covers table ∧ Fresh table w := by
  obtain ⟨files, here, language, hw⟩ := h.started
  obtain ⟨root, -, hw⟩ := bind_eq_ok hw
  cases hw
  obtain ⟨table, hm, ht⟩ := Packaged.merged_fits ⟨files, here⟩
  exact ⟨table, ht, rfl, rfl, rfl, h.english.trans hm, h.native⟩

theorem runApply_run (h : Setup w p place config logs) (input : List UInt8) (response : Text)
    (dryRun noReport : Bool) :
    (runApply input response p dryRun noReport).run w =
      match (loaded? p (loading input response p config.defaultSource)).run
          (configured w logs) with
      | (.error e, v) => (.error e, v)
      | (.ok none, v) => (.ok 1, v)
      | (.ok (some (text, f)), v) =>
        (proceed p noReport (!dryRun && config.writeBack) config.reportWidth text f).run v := by
  rw [runApply_eq, run_bind_ok (loadConfig_run h.configuration), run_bind]
  rcases (loaded? p (loading input response p config.defaultSource)).run (configured w logs) with
    ⟨e | _ | ⟨text, f⟩, v⟩ <;> rfl

theorem Setup.opens (h : Setup w p place config logs) : Opens p place w := ⟨h.standing, h.document⟩

theorem configured_speaks (w : World) (logs : List Log) : Speaks w (configured w logs) := ⟨_, rfl⟩

/-- Only what was read, renamed and not held back is kept. -/
theorem apply_kept (h : Setup w p place config logs) (input : List UInt8) (response : Text)
    (dryRun noReport : Bool) :
    Consults w ((runApply input response p dryRun noReport).run w).2 ∨
      ∃ text f, ((loading input response p config.defaultSource).run (configured w logs)).1 =
          .ok (text, f) ∧
        (f.record (Directive.parse text)).applied ≠ [] ∧ (!dryRun && config.writeBack) = true ∧
        Kept p (f.after (Directive.parse text)) place w
          ((runApply input response p dryRun noReport).run w).2 := by
  have hkeeps := (loading_speaks input response p config.defaultSource).mono
    fun _ _ => Speaks.consults
  have hc := trans_of Consults (configured_speaks w logs).consults
    (loaded_keeps p hkeeps (configured w logs))
  rw [runApply_run h]
  rcases hl : (loading input response p config.defaultSource).run (configured w logs) with
    ⟨e | ⟨text, f⟩, v⟩
  · have hn := loaded_nothing (p := p) hl
    rcases hr : (loaded? p (loading input response p config.defaultSource)).run
      (configured w logs) with ⟨e' | _ | a, u⟩
    · rw [hr] at hc
      exact .inl hc
    · rw [hr] at hc
      exact .inl hc
    · rw [hr] at hn
      exact absurd rfl (hn a)
  · rw [loaded_ok hl] at hc ⊢
    rcases proceed_kept noReport (!dryRun && config.writeBack) config.reportWidth text f
      (h.opens.consults hc) with hp | ⟨ha, hm, hk⟩
    · exact .inl (trans_of Consults hc hp)
    · exact .inr ⟨text, f, rfl, ha, hm, .before hc hk⟩

theorem apply_unread (h : Setup w p place config logs) {input : List UInt8} {response : Text}
    {e : Fault} (dryRun noReport : Bool)
    (hl : ((loading input response p config.defaultSource).run (configured w logs)).1 = .error e) :
    ((runApply input response p dryRun noReport).run w).1 = .ok 1 := by
  have hs := trans_of Speaks (configured_speaks w logs)
    (loading_speaks input response p config.defaultSource (configured w logs))
  rcases hrun : (loading input response p config.defaultSource).run (configured w logs) with ⟨r, v⟩
  rw [hrun] at hl hs
  obtain rfl : r = .error e := hl
  obtain ⟨n, hn⟩ := Option.isSome_iff_exists.mp (loading_error h.caught hrun)
  obtain ⟨table, ht, hw⟩ := h.fresh
  have hok := (tell_ready ht (.inl (fresh_speaks hw hs)) (loadNotice_sayable hn)).1
  rw [runApply_run h, loaded_caught hrun hn, hok]
  rfl

/-- After reading, all that is told can be told with the packaged templates. -/
theorem apply_started (h : Setup w p place config logs) {input : List UInt8}
    {response text : Text} {f : Function} (dryRun noReport : Bool)
    (hl : ((loading input response p config.defaultSource).run (configured w logs)).1 =
      .ok (text, f)) :
    ∃ v table, Covers table ∧ Ready table v ∧ Consults w v ∧
      (runApply input response p dryRun noReport).run w =
        (proceed p noReport (!dryRun && config.writeBack) config.reportWidth text f).run v := by
  have hs := trans_of Speaks (configured_speaks w logs)
    (loading_speaks input response p config.defaultSource (configured w logs))
  obtain ⟨table, ht, hw⟩ := h.fresh
  refine ⟨_, table, ht, .inl (fresh_speaks hw hs), hs.consults, ?_⟩
  rw [runApply_run h, loaded_ok (Prod.ext hl rfl)]

theorem apply_read (h : Setup w p place config logs) {input : List UInt8} {response text : Text}
    {f : Function} (dryRun noReport : Bool)
    (hl : ((loading input response p config.defaultSource).run (configured w logs)).1 =
      .ok (text, f))
    (hshown : Shown p noReport config.reportWidth f (Directive.parse text)) :
    ((runApply input response p dryRun noReport).run w).1 =
        .ok (exitCode (f.record (Directive.parse text)).success) ∧
      ((f.record (Directive.parse text)).applied ≠ [] → (!dryRun && config.writeBack) = true →
        Kept p (f.after (Directive.parse text)) place w
          ((runApply input response p dryRun noReport).run w).2) := by
  obtain ⟨v, table, ht, hv, hc, hrun⟩ := apply_started h dryRun noReport hl
  obtain ⟨hcode, hkept⟩ := proceed_ok ht hv (h.opens.consults hc)
    (loading_encodable (Prod.ext hl rfl)) (Config.load_width h.configuration) hshown
  rw [hrun]
  exact ⟨hcode, fun ha hm => .before hc (hkept ha hm)⟩

/-- No file but the document changes, and that one only if response and document were read, a
directive was applied, and neither the user nor the configuration holds the document back. Then it
describes the function as it is after the pass, even if other directives were refused. A run whose
reading failed has the exit code one. Any other run that can show what it has to show has the exit
code one if a directive was refused and zero if none was, and it keeps what it may keep. -/
theorem apply_outcome (h : Setup w p place config logs) (input : List UInt8) (response : Text)
    (dryRun noReport : Bool) :
    let loaded := ((loading input response p config.defaultSource).run (configured w logs)).1
    let ended := (runApply input response p dryRun noReport).run w
    (∀ q, q ≠ place → ended.2.files.node? q = w.files.node? q) ∧
    (ended.2.files ≠ w.files → ∃ text f, loaded = .ok (text, f) ∧
      (f.record (Directive.parse text)).applied ≠ [] ∧ dryRun = false ∧ config.writeBack = true ∧
      currentText? ended.2.files w.here p =
        some (Document.text (Document.ofFunction (f.after (Directive.parse text))))) ∧
    (∀ e, loaded = .error e → ended.1 = .ok 1) ∧
    ∀ text f, loaded = .ok (text, f) →
      Shown p noReport config.reportWidth f (Directive.parse text) →
      ended.1 = .ok (if (f.record (Directive.parse text)).diagnostics = [] then 0 else 1) ∧
      ((f.record (Directive.parse text)).applied ≠ [] → dryRun = false → config.writeBack = true →
        currentText? ended.2.files w.here p =
          some (Document.text (Document.ofFunction (f.after (Directive.parse text))))) := by
  intro loaded ended
  have hsplit : (!dryRun && config.writeBack) = true ↔
      dryRun = false ∧ config.writeBack = true := by
    simp
  refine ⟨fun q hq => ?_, fun hne => ?_, fun e he => ?_, fun text f hl hshown => ?_⟩
  · rcases apply_kept h input response dryRun noReport with hc | ⟨_, _, -, -, -, hk⟩
    · exact congrArg (Tree.node? · q) hc.files
    · exact hk.apart q hq
  · obtain ⟨text, f, hl, ha, hm, hk⟩ :=
      (apply_kept h input response dryRun noReport).resolve_left fun hc => hne hc.files
    exact ⟨text, f, hl, ha, (hsplit.mp hm).1, (hsplit.mp hm).2, hk.current⟩
  · exact apply_unread h dryRun noReport he
  · obtain ⟨hcode, hkept⟩ := apply_read h dryRun noReport hl hshown
    refine ⟨hcode.trans ?_, fun ha hd hb => (hkept ha (hsplit.mpr ⟨hd, hb⟩)).current⟩
    simp only [exitCode, Batch.Record.success, List.isEmpty_iff]

end Run

/-! ## Projects at hand -/

def project (nodes : List (Place × Node)) : World where
  files := ⟨nodes⟩
  here := []
  language := none
  catalog := .ofRoots [.packaged, .project ⟨true, []⟩]
  templates := none
  audience := .terminal
  journal := []

def settles (t : Tree) (here : Place) (config : Config) : Bool :=
  match Config.load t here with
  | .ok (c, []) => c = config
  | _ => false

theorem load_settled {t : Tree} {here : Place} {config : Config}
    (h : settles t here config = true) : Config.load t here = .ok (config, []) := by
  rw [settles.eq_def] at h
  split at h
  · next hc => rw [hc, of_decide_eq_true h]
  · cases h

structure Given (nodes : List (Place × Node)) (p : Path) (place : Place) (config : Config)
    (f : Function) (response : List Char) : Prop where
  settled : settles ⟨nodes⟩ [] config = true
  document : ∃ bytes, Tree.find ⟨nodes⟩ [] p = .ok (.file place bytes) ∧
    Document.describes bytes config.defaultSource f = true
  messages : ∀ top ∈ Root.layers ⟨true, []⟩ "en", Tree.probe ⟨nodes⟩ [] top = .ok none
  response : '\r' ∉ response

section Given
variable {nodes : List (Place × Node)} {p : Path} {place : Place} {config : Config} {f : Function}
variable {response : List Char}

theorem Given.load (h : Given nodes p place config f response) :
    ((Document.load p config.defaultSource).run (configured (project nodes) [])).1 = .ok f := by
  obtain ⟨bytes, hf, hd⟩ := h.document
  exact Document.load_described (w := configured (project nodes) []) hf hd

theorem Given.setup (h : Given nodes p place config f response) :
    Setup (project nodes) p place config [] where
  started := ⟨⟨nodes⟩, [], none, rfl⟩
  standing := Tree.standing_root _
  configuration := load_settled h.settled
  document := h.document.imp fun _ hd => hd.1
  english := merged_absent [.packaged] h.messages
  native := .inl rfl
  caught e he := by
    rw [h.load] at he
    cases he

theorem Given.loading (h : Given nodes p place config f response) :
    ((loading (Text.Utf8.encode response) "-" p config.defaultSource).run
      (configured (project nodes) [])).1 = .ok (Text.ofChars response, f) :=
  loading_input h.response h.load

end Given

def sample (document : String) : Place × Node :=
  (["f.yaml"], .file (Text.Utf8.encode document.toList))

def samplePath : Path := .ofText "f.yaml"

theorem given_plain : Given [sample "name: f\nlocals: [a, c]\n"] samplePath ["f.yaml"] .standard
    ⟨"f", [], [⟨"a", "DEFAULT"⟩, ⟨"c", "DEFAULT"⟩]⟩ "a -> b\nc -> b\n".toList where
  settled := by decide +kernel
  document := ⟨_, rfl, by decide +kernel⟩
  messages := forall_layers.mpr ⟨rfl, rfl⟩
  response := by decide +kernel

/-- One of two directives is refused, so the exit code is one, yet the other one is kept. -/
theorem apply_outcome_refused :
    let ended := (runApply (Text.Utf8.encode "a -> b\nc -> b\n".toList) "-" samplePath false
      false).run (project [sample "name: f\nlocals: [a, c]\n"])
    ended.1 = .ok 1 ∧ currentText? ended.2.files [] samplePath = some
      ("name: f\nparameters: []\nlocals:\n- name: b\n  source: DEFAULT\n" ++
        "- name: c\n  source: DEFAULT\n").toList := by
  obtain ⟨-, -, -, h⟩ := apply_outcome given_plain.setup
    (Text.Utf8.encode "a -> b\nc -> b\n".toList) "-" false false
  have hp : Directive.parse (Text.ofChars "a -> b\nc -> b\n".toList) =
      [⟨"a", "b", []⟩, ⟨"c", "b", []⟩] := by decide +kernel
  have hpath : IsEncodable samplePath.text := by decide +kernel
  obtain ⟨hcode, hkept⟩ := h _ _ given_plain.loading
    ⟨by decide, .inl (Text.encodable_ofString "f"), .inl hpath⟩
  rw [hp] at hcode hkept
  have hkept := hkept (by decide +kernel) rfl rfl
  exact ⟨hcode.trans (congrArg Except.ok (if_neg (by decide +kernel))),
    hkept.trans (by decide +kernel)⟩

/-- Response and document are read, a directive is applied and none is refused; but the run stops,
and nothing is kept. -/
def Stops (w : World) (p : Path) (response : List Char) (dryRun : Bool) (e : Fault) : Prop :=
  ∃ place config f, Setup w p place config [] ∧ config.writeBack = true ∧
    ((loading (Text.Utf8.encode response) "-" p config.defaultSource).run (configured w [])).1 =
      .ok (Text.ofChars response, f) ∧
    (f.record (Directive.parse (Text.ofChars response))).applied ≠ [] ∧
    (f.record (Directive.parse (Text.ofChars response))).diagnostics = [] ∧
    ∀ noReport, ((runApply (Text.Utf8.encode response) "-" p dryRun noReport).run w).1 = .error e ∧
      ((runApply (Text.Utf8.encode response) "-" p dryRun noReport).run w).2.files = w.files

theorem Given.stops {nodes : List (Place × Node)} {p : Path} {place : Place} {config : Config}
    {f : Function} {response : List Char} {ds : List Directive} {dryRun : Bool} {e : Fault}
    (h : Given nodes p place config f response) (hw : config.writeBack = true)
    (hp : Directive.parse (Text.ofChars response) = ds) (ha : (f.record ds).applied ≠ [])
    (hd : (f.record ds).diagnostics = [])
    (hend : ∀ table v noReport, Covers table → Ready table v →
      let ended := (proceed p noReport (!dryRun) config.reportWidth (Text.ofChars response) f).run v
      ended.1 = .error e ∧ Consults v ended.2) :
    Stops (project nodes) p response dryRun e := by
  subst hp
  refine ⟨place, config, f, h.setup, hw, h.loading, ha, hd, fun noReport => ?_⟩
  obtain ⟨v, table, ht, hv, hc, hrun⟩ := apply_started h.setup dryRun noReport h.loading
  rw [hw, Bool.and_true] at hrun
  obtain ⟨herror, hkept⟩ := hend table v noReport ht hv
  rw [hrun]
  exact ⟨herror, (trans_of Consults hc hkept).files⟩

def wide : List (Place × Node) :=
  [sample "name: f\nlocals: [a]\n", (["pyproject.toml"], .file (Text.Utf8.encode
    "[tool.namesmith]\nreport_width = 99999999999999999999\n".toList))]

def unnamed : List (Place × Node) := [sample "name: \"\\ud83d\"\nlocals: [a]\n"]

def strange : List (Place × Node) :=
  [([[.ofNat 0xDC80]], .file (Text.Utf8.encode "name: f\nlocals: [a]\n".toList))]

def wideConfig : Config := { Config.standard with reportWidth := 99999999999999999999 }

theorem given_wide : Given wide samplePath ["f.yaml"] wideConfig ⟨"f", [], [⟨"a", "DEFAULT"⟩]⟩
    "a -> b\n".toList where
  settled := by decide +kernel
  document := ⟨_, rfl, by decide +kernel⟩
  messages := forall_layers.mpr ⟨rfl, rfl⟩
  response := by decide +kernel

theorem given_unnamed : Given unnamed samplePath ["f.yaml"] .standard
    ⟨[.half 0x3D], [], [⟨"a", "DEFAULT"⟩]⟩ "a -> b\n".toList where
  settled := by decide +kernel
  document := ⟨_, rfl, by decide +kernel⟩
  messages := forall_layers.mpr ⟨rfl, rfl⟩
  response := by decide +kernel

theorem given_strange : Given strange ⟨false, [[.half 0x480]]⟩ [[.half 0x480]] .standard
    ⟨"f", [], [⟨"a", "DEFAULT"⟩]⟩ "a -> b\n".toList where
  settled := by decide +kernel
  document := ⟨_, rfl, by decide +kernel⟩
  messages := forall_layers.mpr ⟨rfl, rfl⟩
  response := by decide +kernel

theorem apply_stopped :
    Stops (project wide) samplePath "a -> b\n".toList false (.report .beyondWord) ∧
    Stops (project unnamed) samplePath "a -> b\n".toList false .unencodable ∧
    Stops (project strange) ⟨false, [[.half 0x480]]⟩ "a -> b\n".toList true .unencodable := by
  have hp : Directive.parse (Text.ofChars "a -> b\n".toList) = [⟨"a", "b", []⟩] := by
    decide +kernel
  have hf : IsEncodable "f" := Text.encodable_ofString "f"
  refine ⟨?_, ?_, ?_⟩
  · refine given_wide.stops rfl hp (by decide +kernel) (by decide +kernel)
      fun table v noReport ht hv => ?_
    exact proceed_stopped samplePath noReport true
      (Pass.run_undrawn Fault.report _ wideConfig.reportWidth ht hv hf rfl)
  · have hn : ¬ IsEncodable [.half 0x3D] := by decide
    refine given_unnamed.stops rfl hp (by decide +kernel) (by decide +kernel)
      fun table v noReport ht hv => ?_
    exact proceed_stopped samplePath noReport true
      (Pass.run_unencodable Fault.report _ _ ht hv hn (by rw [hp]; simp))
  · have hn : ¬ IsEncodable (Path.text ⟨false, [[.half 0x480]]⟩) := by decide
    refine given_strange.stops rfl hp (by decide +kernel) (by decide +kernel)
      fun table v noReport ht hv => ⟨?_, proceed_dry _ noReport _ _ _ v⟩
    refine proceed_unencodable noReport ht hv hn (Text.encodable_ofChars _) hf (by decide)
      (by decide) ?_
    rw [hp]
    decide +kernel

end SymbolRename.Command
