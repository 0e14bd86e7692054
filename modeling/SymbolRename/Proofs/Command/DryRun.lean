import SymbolRename.Proofs.Command.Apply
import SymbolRename.Proofs.World.Wording

/-!
# Dry runs

A dry run and a run that may write are one and the same until they come to keep the function: they
read the same, tell the same notices and print the same report, and none of it is information. After
that a dry run just informs about the document that it leaves alone. A run that may write saves it,
and informs about a document that was not yet as it should be.
-/

set_option autoImplicit false

namespace SymbolRename.Command
open Files World Message SymbolRename.Task
open Document (Holds Opens)
open Text (IsEncodable)

/-! ## Up to keeping the function -/

def Aside : Event → Prop
  | .message level _ => level ≠ .info
  | _ => True

theorem tell_aside {n : Notice} (h : n.level ≠ .info) : Keeps (Adds Aside) (tell n) :=
  tell_adds (fun _ => trivial) (fun _ => h) trivial

theorem opening_aside {function : Text} {ds : List Directive} :
    ∀ n ∈ Pass.opening function ds, Keeps (Adds Aside) (tell n) := by
  intro n hn
  rcases Pass.mem_opening hn with rfl | rfl <;> exact tell_aside nofun

theorem notices_aside {f : Function} {ds : List Directive} :
    ∀ n ∈ f.notices ds, Keeps (Adds Aside) (tell n) := by
  intro n hn
  rcases Function.mem_notices hn with ⟨old, rfl⟩ | ⟨old, new, reason, rfl⟩ <;>
    exact tell_aside nofun

theorem closing_aside {function : Text} {ds : List Directive} (r : Batch.Record) :
    ∀ n ∈ Pass.closing function ds r, Keeps (Adds Aside) (tell n) := by
  intro n hn
  rcases Pass.mem_closing hn with rfl | ⟨-, rfl⟩ <;> exact tell_aside nofun

theorem loadNotice_aside {p : Path} {f : Fault} {n : Notice} (h : loadNotice? p f = some n) :
    Keeps (Adds Aside) (tell n) := by
  rcases loadNotice_cases h with ⟨error, rfl⟩ | ⟨error, rfl⟩ <;> exact tell_aside nofun

/-- What a run does before it keeps a function. Nothing comes of it if something could not be
read. -/
def prepare (input : List UInt8) (response : Text) (p : Path) (noReport : Bool) (config : Config) :
    Act (Option (Pass × Function)) := do
  match ← loaded? p (loading input response p config.defaultSource) with
  | none => return none
  | some (text, f) =>
    let (pass, g) ← atDesk f (Pass.run Desk.host Desk.tell .report text config.reportWidth)
    showReport noReport pass
    return some (pass, g)

section Preparing
variable (input : List UInt8) (response : Text) (p : Path) (noReport : Bool) (config : Config)

theorem pass_adds (text : Text) (width : ℤ) (f : Function) :
    Keeps (Adds Aside) (atDesk f (Pass.run Desk.host Desk.tell .report text width)) := by
  intro w
  rw [atDesk_run]
  exact Pass.run_keeps Fault.report text width f opening_aside notices_aside closing_aside w

theorem prepare_adds : Keeps (Adds Aside) (prepare input response p noReport config) := by
  have hs (e : Event) (h : Aside e) : Keeps (Adds Aside) (say [e]) :=
    say_adds (List.forall_mem_singleton.mpr h)
  rw [prepare]
  refine keeps_bind (keeps_loaded p (keeps_loading (fun l => hs (.log l) trivial) _ _ _ _)
    fun f n hn => loadNotice_aside hn) fun loaded => ?_
  split
  · exact keeps_pure _
  · refine keeps_bind (pass_adds _ _ _) fun kept => keeps_bind ?_ fun _ => keeps_pure _
    rw [showReport]
    split
    · exact keeps_pure _
    · exact keeps_onOutput (hs (.print _) trivial) _

theorem prepare_run (w : World) : (prepare input response p noReport config).run w =
    match (loaded? p (loading input response p config.defaultSource)).run w with
    | (.error e, v) => (.error e, v)
    | (.ok none, v) => (.ok none, v)
    | (.ok (some (text, f)), v) =>
      match (Pass.run Desk.host Desk.tell Fault.report text config.reportWidth).run ⟨v, f⟩ with
      | (.error e, d) => (.error e, d.world)
      | (.ok pass, d) => (((showReport noReport pass).run d.world).1.map fun _ =>
          some (pass, d.function), ((showReport noReport pass).run d.world).2) := by
  rw [prepare, run_bind]
  rcases (loaded? p (loading input response p config.defaultSource)).run w with
    ⟨e | _ | ⟨text, f⟩, v⟩
  · rfl
  · rfl
  · dsimp only
    rw [run_bind, atDesk_run]
    rcases (Pass.run Desk.host Desk.tell Fault.report text config.reportWidth).run ⟨v, f⟩ with
      ⟨e | pass, d⟩
    · rfl
    · exact run_bind_pure _ _ d.world

end Preparing

section Run
variable {table : Table} {w v : World} {place : Place} {p : Path} {config : Config}
variable {logs : List Log} {input : List UInt8} {response : Text} {noReport : Bool}
variable {pass : Pass} {g : Function}

/-- A run prepares the function and then keeps it if it was renamed. -/
theorem runApply_prepared (h : Setup w p place config logs) (input : List UInt8)
    (response : Text) (dryRun noReport : Bool) :
    (runApply input response p dryRun noReport).run w =
      match (prepare input response p noReport config).run (configured w logs) with
      | (.error e, v) => (.error e, v)
      | (.ok none, v) => (.ok 1, v)
      | (.ok (some (pass, g)), v) =>
        (((keepApplied p (!dryRun && config.writeBack) pass g).run v).1.map fun _ =>
          exitCode pass.record.success,
          ((keepApplied p (!dryRun && config.writeBack) pass g).run v).2) := by
  rw [runApply_run h, prepare_run]
  rcases (loaded? p (loading input response p config.defaultSource)).run (configured w logs) with
    ⟨e | _ | ⟨text, f⟩, v⟩
  · rfl
  · rfl
  · dsimp only
    rw [proceed_run]
    rcases (Pass.run Desk.host Desk.tell Fault.report text config.reportWidth).run ⟨v, f⟩ with
      ⟨e | pass, d⟩
    · rfl
    · dsimp only
      rw [finish_run]
      rcases (showReport noReport pass).run d.world with ⟨e | u, x⟩ <;> rfl

theorem showReport_settled (h : Settled table w) (noReport : Bool) (pass : Pass) :
    Settled table ((showReport noReport pass).run w).2 := by
  rw [showReport]
  split
  · exact h
  · obtain ⟨j, hj⟩ := print_keeps pass.report w
    rw [hj]
    exact settled_said h j

theorem pass_settled {text : Text} {width : ℤ} {f : Function} {d : Desk} (ht : Covers table)
    (hw : Ready table w)
    (h : (Pass.run Desk.host Desk.tell Fault.report text width).run ⟨w, f⟩ = (.ok pass, d)) :
    Settled table d.world := by
  -- A name that cannot be shown would have stopped the pass at its summary.
  by_cases hf : IsEncodable f.name ∨ Directive.parse text = []
  · obtain ⟨v, hv, hrun⟩ := Pass.run_told Fault.report text width ht hw hf
    rw [hrun] at h
    split at h
    · cases h
    · cases h
      exact hv
  · obtain ⟨hn, hd⟩ := not_or.mp hf
    have he := Pass.run_unencodable Fault.report text width ht hw hn hd
    rw [h] at he
    cases he

/-- When a run comes to keep a function, the templates are known. -/
theorem prepare_settled (ht : Covers table) (hw : Fresh table w)
    (h : (prepare input response p noReport config).run w = (.ok (some (pass, g)), v)) :
    Settled table v := by
  rw [prepare_run] at h
  rcases hl : (loading input response p config.defaultSource).run w with ⟨e | ⟨text, f⟩, u⟩
  · have hn := loaded_nothing (p := p) hl
    split at h
    · cases h
    · cases h
    · next hr =>
      rw [hr] at hn
      exact absurd rfl (hn _)
  · have hs := loading_speaks input response p config.defaultSource w
    rw [hl] at hs
    rw [loaded_ok hl] at h
    dsimp only at h
    split at h
    · cases h
    · next hr =>
      obtain ⟨-, rfl⟩ := Prod.mk.inj h
      exact showReport_settled (pass_settled ht (.inl (fresh_speaks hw hs)) hr) noReport _

/-- What was read is prepared if its name and the rule of the report can be shown. -/
theorem prepare_shown {text : Text} {f : Function} (ht : Covers table) (hw : Fresh table w)
    (hl : ((loading input response p config.defaultSource).run w).1 = .ok (text, f))
    (hf : IsEncodable f.name) (hlower : 0 < config.reportWidth)
    (hupper : config.reportWidth ≤ 0x100000000) (noReport : Bool) :
    ∃ pass v, (prepare input response p noReport config).run w =
        (.ok (some (pass, f.after (Directive.parse text))), v) ∧
      pass.record = f.record (Directive.parse text) := by
  have hload : (loading input response p config.defaultSource).run w = (.ok (text, f), _) :=
    Prod.ext hl rfl
  have hs := loading_speaks input response p config.defaultSource w
  obtain ⟨report, hr⟩ := Report.render_drawable (by omega) hupper f.name (Directive.parse text)
    (f.record (Directive.parse text)).applied.length
  have hreport : IsEncodable report := Report.render_encodable hf
    (fun d hd => Directive.parse_encodable (loading_encodable hload) hd) hr
  obtain ⟨v, hv, hrun⟩ := Pass.run_told Fault.report text config.reportWidth ht
    (.inl (fresh_speaks hw hs)) (.inl hf)
  rw [hr] at hrun
  let pass : Pass := ⟨f.name, Directive.parse text, f.record (Directive.parse text), report⟩
  obtain ⟨u, hu, -⟩ : ∃ u, (showReport noReport pass).run v = (.ok ⟨⟩, u) ∧ Settled table u :=
    showReport_ok hv (.inl hreport)
  refine ⟨pass, u, ?_, rfl⟩
  rw [prepare_run, loaded_ok hload]
  dsimp only
  rw [hrun]
  dsimp only
  rw [hu]
  rfl

end Run

/-! ## Keeping the function -/

def savingNotice (w : World) (p : Path) (g : Function) : Notice :=
  if Holds w p g then .unchanged p else .saved p

section Keeping
variable {table : Table} {sight : Sight} {w : World} {place : Place} {p : Path}
variable {pass : Pass} {g : Function}

theorem savingNotice_form (w : World) (p : Path) (g : Function) :
    (savingNotice w p g).form ∈ Packaged.forms := by
  rw [savingNotice]
  split
  · exact (unchanged_sayable p).form
  · exact form_mem (m := .saved ⟨false, []⟩) (by simp [Packaged.samples]) rfl

theorem keepApplied_dry (hm : merged [.packaged] sight "en" = .ok table) (h : Settled table w)
    (ha : pass.record.applied ≠ []) (p : Path) (g : Function) :
    (keepApplied p false pass g).run w =
      (utterance (.dryRun p), { w with journal := w.journal ++ uttered (.dryRun p) }) := by
  rw [keepApplied, if_neg ha]
  exact tell_settled hm h (dryRun_form p)

theorem keepApplied_saved (hm : merged [.packaged] sight "en" = .ok table) (h : Settled table w)
    (ho : Opens p place w) (ha : pass.record.applied ≠ []) (g : Function) :
    ∃ u, (keepApplied p true pass g).run w = (utterance (savingNotice w p g),
        { w with files := u, journal := w.journal ++ uttered (savingNotice w p g) }) ∧
      Document.Kept p g place w { w with files := u } := by
  obtain ⟨u, hr, hk⟩ := Document.save_over ho g
  have hn : (if decide (¬ Holds w p g) then Notice.saved p else .unchanged p) =
      savingNotice w p g := by
    rw [savingNotice]
    by_cases hh : Holds w p g <;> simp [hh]
  refine ⟨u, ?_, hk⟩
  rw [keepApplied, if_neg ha, keep_run hr, hn]
  exact tell_settled hm (settled_files h u) (savingNotice_form w p g)

theorem lost_path {n : Notice} (hn : n.form ∈ Packaged.forms) (ho : n.level.isOutput = true)
    (ha : n.arguments = [(Text.ofString "path", Template.Argument.path p)]) :
    Lost n ↔ ¬ IsEncodable p.text := by
  obtain ⟨hw, hshown⟩ := encodable_wording hn
  rw [ha] at hw hshown
  have hpath : IsEncodable n.wording ↔ IsEncodable p.text :=
    ⟨hshown "path" _ rfl, fun h => hw fun a hm => List.mem_singleton.mp hm ▸ h⟩
  exact ⟨fun h => mt hpath.mpr h.2, fun h => ⟨ho, mt hpath.mp h⟩⟩

/-- Both kinds of run say the path of the document, unless there is nothing to be saved. -/
theorem utterance_saving (h : ¬ Holds w p g ∨ IsEncodable p.text) :
    utterance (savingNotice w p g) = utterance (.dryRun p) := by
  have hdry : Lost (.dryRun p) ↔ ¬ IsEncodable p.text := lost_path (dryRun_form p) rfl rfl
  have hform := savingNotice_form w p g
  rw [savingNotice] at hform ⊢
  by_cases hh : Holds w p g
  · have hp : IsEncodable p.text := h.resolve_left (not_not_intro hh)
    have hu : ¬ Lost (.unchanged p) := fun hl => nomatch hl.1
    rw [if_pos hh, utterance, utterance, if_neg hu, if_neg fun hl => hdry.mp hl hp]
  · rw [if_neg hh] at hform ⊢
    have hsaved : Lost (.saved p) ↔ ¬ IsEncodable p.text := lost_path hform rfl rfl
    rw [utterance, utterance]
    by_cases hp : IsEncodable p.text
    · rw [if_neg fun hl => hsaved.mp hl hp, if_neg fun hl => hdry.mp hl hp]
    · rw [if_pos (hsaved.mpr hp), if_pos (hdry.mpr hp)]

end Keeping

/-! ## The two runs -/

/-- What was prepared is a function that some directive renamed. -/
def ComesToKeep (prepared : Except Fault (Option (Pass × Function))) (pass : Pass) (g : Function) :
    Prop := prepared = .ok (some (pass, g)) ∧ pass.record.applied ≠ []

/-- How a dry run stands to a run that may write, given what they both prepare. -/
structure Rehearsal (w : World) (p : Path) (config : Config)
    (prepared : Except Fault (Option (Pass × Function)) × World)
    (dry real : Except Fault Nat × World) : Prop where
  untouched : dry.2.files = w.files
  aside : ∃ said, prepared.2.journal = w.journal ++ said ∧ ∀ e ∈ said, Aside e
  /-- Nothing is said of the document if nothing is to be kept. -/
  idle : (∀ pass g, ¬ ComesToKeep prepared.1 pass g) →
    real = dry ∧ dry.2.journal = prepared.2.journal
  noted : ∀ pass g, ComesToKeep prepared.1 pass g →
    dry.1 = (utterance (.dryRun p)).map (fun _ => exitCode pass.record.success) ∧
      dry.2.journal = prepared.2.journal ++ uttered (.dryRun p)
  /-- A configuration that holds documents back makes any run a dry one. -/
  held : config.writeBack = false → real = dry
  saved : ∀ pass g, ComesToKeep prepared.1 pass g → config.writeBack = true →
    Holds real.2 p g ∧
      real.1 = (utterance (savingNotice w p g)).map (fun _ => exitCode pass.record.success) ∧
      real.2.journal = prepared.2.journal ++ uttered (savingNotice w p g)
  /-- Only the path of a document that is as it should be may tell the results apart. -/
  result : real.1 = dry.1 ∨ (config.writeBack = true ∧ ¬ IsEncodable p.text ∧
    dry.1 = .error .unencodable ∧ ∃ pass g, ComesToKeep prepared.1 pass g ∧ Holds w p g)

section Rehearsing
variable {table : Table} {sight : Sight} {w v : World} {place : Place} {p : Path}
variable {config : Config} {logs : List Log} {pass : Pass} {g : Function}

theorem Rehearsal.of_idle {prepared : Except Fault (Option (Pass × Function)) × World}
    (ha : Adds Aside w prepared.2) (r : Except Fault Nat)
    (hn : ∀ pass g, ¬ ComesToKeep prepared.1 pass g) :
    Rehearsal w p config prepared (r, prepared.2) (r, prepared.2) where
  untouched := ha.consults.files
  aside := by
    obtain ⟨_, said, hv, hs⟩ := ha
    exact ⟨said, by rw [hv], hs⟩
  idle _ := ⟨rfl, rfl⟩
  noted pass g hc := absurd hc (hn pass g)
  held _ := rfl
  saved pass g hc := absurd hc (hn pass g)
  result := .inl rfl

theorem Rehearsal.of_kept (hm : merged [.packaged] sight "en" = .ok table)
    (ha : Adds Aside w v) (hv : Settled table v) (ho : Opens p place v)
    (happlied : pass.record.applied ≠ []) :
    let keeping (mayWrite : Bool) := (keepApplied p mayWrite pass g).run v
    let ended (mayWrite : Bool) :=
      ((keeping mayWrite).1.map fun _ => exitCode pass.record.success, (keeping mayWrite).2)
    Rehearsal w p config (.ok (some (pass, g)), v) (ended false) (ended config.writeBack) := by
  intro keeping ended
  obtain ⟨c, said, rfl, hs⟩ := ha
  have hcomes : ComesToKeep (.ok (some (pass, g))) pass g := ⟨rfl, happlied⟩
  have hdry : keeping false = _ := keepApplied_dry hm hv happlied p g
  obtain ⟨u, hreal, hk⟩ := keepApplied_saved hm hv ho happlied g
  have hreal : keeping true = _ := hreal
  have hsame : config.writeBack = false → ended config.writeBack = ended false := fun h => by rw [h]
  refine ⟨?_, ⟨said, rfl, hs⟩, fun hn => absurd hcomes (hn pass g), ?_, hsame, ?_, ?_⟩
  · change (keeping false).2.files = _
    rw [hdry]
  · rintro _ _ ⟨hp, -⟩
    cases hp
    change (keeping false).1.map _ = _ ∧ (keeping false).2.journal = _
    rw [hdry]
    dsimp only
    exact ⟨rfl, rfl⟩
  · rintro _ _ ⟨hp, -⟩ hb
    cases hp
    rw [hb]
    change Holds (keeping true).2 p g ∧ (keeping true).1.map _ = _ ∧ (keeping true).2.journal = _
    rw [hreal]
    exact ⟨hk.current, rfl, rfl⟩
  · cases hb : config.writeBack with
    | false => exact .inl rfl
    | true =>
      change (keeping true).1.map _ = (keeping false).1.map _ ∨
        true = true ∧ _ ∧ (keeping false).1.map _ = _ ∧ _
      rw [hreal, hdry]
      dsimp only
      -- A dry run shows the path in any case, a run that may write only if it has changed the file.
      by_cases he : ¬ Holds w p g ∨ IsEncodable p.text
      · exact .inl (congrArg (Except.map _) (utterance_saving he))
      · obtain ⟨hh, hp⟩ := not_or.mp he
        refine .inr ⟨rfl, hp, ?_, pass, g, hcomes, not_not.mp hh⟩
        rw [utterance, if_pos ((lost_path (dryRun_form p) rfl rfl).mpr hp)]
        rfl

/-- Whatever a response and a document are, a dry run rehearses the run that may write. -/
theorem apply_rehearsed (h : Setup w p place config logs) (input : List UInt8) (response : Text)
    (noReport : Bool) :
    Rehearsal w p config ((prepare input response p noReport config).run (configured w logs))
      ((runApply input response p true noReport).run w)
      ((runApply input response p false noReport).run w) := by
  have hlogs : Adds Aside w (configured w logs) := by
    refine ⟨w.catalog, logs.map .log, rfl, fun e he => ?_⟩
    obtain ⟨l, -, rfl⟩ := List.mem_map.mp he
    trivial
  have ha := trans_of (Adds Aside) hlogs
    (prepare_adds input response p noReport config (configured w logs))
  obtain ⟨table, ht, hw⟩ := h.fresh
  have hm := h.english.symm.trans hw.english
  rw [runApply_prepared h, runApply_prepared h]
  rcases hp : (prepare input response p noReport config).run (configured w logs) with
    ⟨e | _ | ⟨pass, g⟩, v⟩
  · rw [hp] at ha
    exact .of_idle ha (.error e) fun _ _ hc => nomatch hc.1
  · rw [hp] at ha
    exact .of_idle ha (.ok 1) fun _ _ hc => nomatch hc.1
  · rw [hp] at ha
    have hv := prepare_settled ht (fresh_speaks hw (configured_speaks w logs)) hp
    by_cases happlied : pass.record.applied = []
    · have hnothing (mayWrite : Bool) : keepApplied p mayWrite pass g = pure ⟨⟩ := if_pos happlied
      dsimp only
      rw [hnothing, hnothing]
      refine .of_idle ha (.ok (exitCode pass.record.success)) fun _ _ hc => ?_
      cases hc.1
      exact hc.2 happlied
    · exact .of_kept hm ha hv (h.opens.consults ha.consults) happlied

theorem Given.comesToKeep {nodes : List (Place × Node)} {f : Function} {response : List Char}
    (h : Given nodes p place config f response) (hf : IsEncodable f.name)
    (hwidth : config.reportWidth ≤ 0x100000000)
    (happlied : (f.record (Directive.parse (Text.ofChars response))).applied ≠ [])
    (noReport : Bool) :
    ∃ pass, pass.record = f.record (Directive.parse (Text.ofChars response)) ∧
      ComesToKeep ((prepare (Text.Utf8.encode response) "-" p noReport config).run
        (configured (project nodes) [])).1 pass
        (f.after (Directive.parse (Text.ofChars response))) := by
  obtain ⟨table, ht, hw⟩ := h.setup.fresh
  obtain ⟨pass, v, hrun, hrecord⟩ := prepare_shown ht
    (fresh_speaks hw (configured_speaks _ [])) h.loading hf
    (Config.load_width h.setup.configuration) hwidth noReport
  refine ⟨pass, hrecord, ?_, hrecord ▸ happlied⟩
  rw [hrun]

end Rehearsing

end SymbolRename.Command
