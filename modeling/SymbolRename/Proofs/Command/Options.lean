import SymbolRename.Command.Ended
import SymbolRename.Proofs.Command.DryRun

/-!
# What options change

Asking for all that is noted down changes standard error and nothing else. Asking for a dry run
changes nothing until the function is kept.
-/

set_option autoImplicit false

namespace SymbolRename

/-! ## Asking for all that is noted down -/

namespace CommandLine

def verboseFlags : List Text := ["-v", "--verbose"]

theorem read_flag {flags : List Flag} {arg : Text} {options : List (Text × Text)}
    (hne : arg ≠ "--") (ho : isOption arg = true)
    (hr : readOption flags arg = some ⟨options, none⟩) (mixed : Bool) (args : List Text) :
    read flags mixed (arg :: args) =
      (read flags mixed args).map fun w => ⟨options ++ w.options, w.words⟩ := by
  rw [read, if_neg hne, if_pos ho, hr]
  cases read flags mixed args <;> rfl

theorem read_verbose {flag : Text} (h : flag ∈ verboseFlags) (args : List Text) :
    read programFlags false (flag :: args) =
      (read programFlags false args).map fun w => ⟨("verbose", []) :: w.options, w.words⟩ := by
  simp only [verboseFlags, List.mem_cons, List.not_mem_nil, or_false] at h
  have hshort : readOption programFlags "-v" = some ⟨[("verbose", [])], none⟩ := rfl
  have hlong : readOption programFlags "--verbose" = some ⟨[("verbose", [])], none⟩ := rfl
  rcases h with rfl | rfl
  · exact read_flag (by decide) rfl hshort false args
  · exact read_flag (by decide) rfl hlong false args

theorem read_words (flags : List Flag) {words : List Text} (h : ∀ w ∈ words, isOption w = false) :
    read flags true words = some ⟨[], words⟩ := by
  induction words with
  | nil => rfl
  | cons w words ih =>
    have hw : isOption w = false := h w List.mem_cons_self
    have hne : w ≠ "--" := by
      rintro rfl
      cases hw
    rw [read, if_neg hne, hw, ih fun x hx => h x (List.mem_cons_of_mem w hx)]
    rfl

end CommandLine

theorem Invocation.ofArguments_check (files : Files.Tree) (here : Files.Place) {name : Text}
    {names : List Text} (h : ∀ w ∈ name :: names, CommandLine.isOption w = false) :
    ofArguments files here ("check" :: name :: names) = .ok ⟨false, .check (name :: names)⟩ := by
  have hread : CommandLine.read CommandLine.programFlags false ("check" :: name :: names) =
      some ⟨[], "check" :: name :: names⟩ := by
    rw [CommandLine.read]
    rfl
  have hcommand : CommandLine.command files here "check" (name :: names) =
      .ok (.check (name :: names)) := by
    rw [CommandLine.command, if_neg (by decide), CommandLine.read_words [] h]
    rfl
  rw [ofArguments, hread]
  dsimp only [CommandLine.orMalformed]
  change (CommandLine.command files here "check" (name :: names) >>= _) = _
  rw [hcommand]
  rfl

theorem Invocation.ofArguments_verbose {flag : Text} (h : flag ∈ CommandLine.verboseFlags)
    (files : Files.Tree) (here : Files.Place) (args : List Text) :
    ofArguments files here (flag :: args) =
      (ofArguments files here args).map fun i => { i with verbose := true } := by
  rw [ofArguments, ofArguments, CommandLine.read_verbose h]
  rcases CommandLine.read CommandLine.programFlags false args with _ | ⟨options, words⟩
  · rfl
  · cases words with
    | nil => rfl
    | cons name words =>
      change (CommandLine.command files here name words >>= _) = Except.map _
        (CommandLine.command files here name words >>= _)
      cases CommandLine.command files here name words <;> rfl

namespace Program
open Command Files World Message
open Document (Holds)

theorem perform_verbose (w : World) (input : List UInt8) (i : Invocation) (verbose : Bool) :
    (perform w input { i with verbose := verbose }).output = (perform w input i).output ∧
      (perform w input { i with verbose := verbose }).code = (perform w input i).code ∧
      (perform w input { i with verbose := verbose }).files = (perform w input i).files := by
  rw [perform, perform]
  rcases (Command.run input i.command).run w with ⟨e | code, after⟩ <;> exact ⟨rfl, rfl, rfl⟩

/-- In front of any command line, the option leaves all but standard error as it is. -/
theorem run_verbose {flag : Text} (h : flag ∈ CommandLine.verboseFlags) (files : Tree)
    (here : Place) (language : Option Text) (args : List Text) (input : List UInt8) :
    let loud := run files here language (flag :: args) input
    let quiet := run files here language args input
    loud.output = quiet.output ∧ loud.code = quiet.code ∧ loud.files = quiet.files := by
  intro loud quiet
  have hl : loud = run files here language (flag :: args) input := rfl
  have hq : quiet = run files here language args input := rfl
  rw [run, Invocation.ofArguments_verbose h] at hl
  rw [run] at hq
  rw [hl, hq]
  cases surroundings files here language with
  | error e => cases Invocation.ofArguments files here args with
    | error f => cases f <;> exact ⟨rfl, rfl, rfl⟩
    | ok i => exact ⟨rfl, rfl, rfl⟩
  | ok w => cases Invocation.ofArguments files here args with
    | error f => cases f <;> exact ⟨rfl, rfl, rfl⟩
    | ok i => exact perform_verbose w input i true

/-! ## Both options -/

theorem perform_ok {w : World} {input : List UInt8} {i : Invocation} {code : ℕ}
    (h : ((Command.run input i.command).run w).1 = .ok code) : (perform w input i).code = code := by
  rw [perform]
  rcases hr : (Command.run input i.command).run w with ⟨r, after⟩
  rw [hr] at h
  obtain rfl : r = .ok code := h
  rfl

theorem perform_error {w : World} {input : List UInt8} {i : Invocation} {e : SymbolRename.Fault}
    (h : ((Command.run input i.command).run w).1 = .error e) : (perform w input i).code = 1 := by
  rw [perform]
  rcases hr : (Command.run input i.command).run w with ⟨r, after⟩
  rw [hr] at h
  obtain rfl : r = .error e := h
  rfl

/-- Each option changes what it is for. A dry run rehearses the run that may write: both read and
say the same until they keep the function, and only what is said of the document then differs. In
front of any command line, the option to see all that is noted down leaves all but standard error
as it is. -/
theorem options_confined {w : World} {p : Path} {place : Place} {config : Config}
    {logs : List Log} (h : Setup w p place config logs) (input : List UInt8) (response : Text)
    (noReport : Bool) :
    Rehearsal w p config ((prepare input response p noReport config).run (configured w logs))
      ((runApply input response p true noReport).run w)
      ((runApply input response p false noReport).run w) ∧
    ∀ flag ∈ CommandLine.verboseFlags, ∀ (files : Tree) (here : Place) (language : Option Text)
      (args : List Text) (bytes : List UInt8),
      let loud := run files here language (flag :: args) bytes
      let quiet := run files here language args bytes
      loud.output = quiet.output ∧ loud.code = quiet.code ∧ loud.files = quiet.files :=
  ⟨apply_rehearsed h input response noReport,
    fun _ hf files here language args bytes => run_verbose hf files here language args bytes⟩

/-- One of two directives is refused in both runs, and each says what becomes of the document. -/
theorem options_confined_refused :
    let w := project [sample "name: f\nlocals: [a, c]\n"]
    let input := Text.Utf8.encode "a -> b\nc -> b\n".toList
    let dry := (runApply input "-" samplePath true false).run w
    let real := (runApply input "-" samplePath false false).run w
    dry.1 = .ok 1 ∧ real.1 = .ok 1 ∧ ∃ journal : List Event,
      dry.2.journal = journal ++ [.message .info "Dry run: f.yaml was not modified."] ∧
      real.2.journal = journal ++ [.message .info "Saved renamed function to f.yaml."] := by
  intro w input dry real
  have hr : Rehearsal w samplePath .standard _ dry real :=
    (options_confined given_plain.setup input "-" false).1
  have hp : Directive.parse (Text.ofChars "a -> b\nc -> b\n".toList) =
      [⟨"a", "b", []⟩, ⟨"c", "b", []⟩] := by decide +kernel
  obtain ⟨pass, hrecord, hcomes⟩ := given_plain.comesToKeep (Text.encodable_ofString "f")
    (by decide) (by rw [hp]; decide +kernel) false
  rw [hp] at hrecord hcomes
  have hdry : ¬ Lost (.dryRun samplePath) := by decide +kernel
  have hsaved : ¬ Lost (.saved samplePath) := by decide +kernel
  have hdryUttered : uttered (.dryRun samplePath) =
      [.message .info "Dry run: f.yaml was not modified."] := by
    rw [uttered, if_neg hdry, show (Notice.dryRun samplePath).wording =
      "Dry run: f.yaml was not modified." by decide +kernel]
    rfl
  have hsavedUttered : uttered (.saved samplePath) =
      [.message .info "Saved renamed function to f.yaml."] := by
    rw [uttered, if_neg hsaved, show (Notice.saved samplePath).wording =
      "Saved renamed function to f.yaml." by decide +kernel]
    rfl
  have hchanges : ¬ Holds (project [sample "name: f\nlocals: [a, c]\n"]) samplePath
      (Function.after ⟨"f", [], [⟨"a", "DEFAULT"⟩, ⟨"c", "DEFAULT"⟩]⟩
        [⟨"a", "b", []⟩, ⟨"c", "b", []⟩]) := by decide +kernel
  obtain ⟨hdryCode, hdryJournal⟩ := hr.noted _ _ hcomes
  obtain ⟨-, hrealCode, hrealJournal⟩ := hr.saved _ _ hcomes rfl
  have hcode : exitCode pass.record.success = 1 := by
    rw [hrecord]
    decide +kernel
  rw [hcode, utterance, if_neg hdry] at hdryCode
  rw [hdryUttered] at hdryJournal
  rw [savingNotice, if_neg hchanges, hcode, utterance, if_neg hsaved] at hrealCode
  rw [savingNotice, if_neg hchanges, hsavedUttered] at hrealJournal
  exact ⟨hdryCode, hrealCode, _, hdryJournal, hrealJournal⟩

/-! ## Where the two runs differ -/

/-- A document that is just as it would be saved, beside a directory whose name is a byte that is no
character. -/
def firm : List (Place × Node) :=
  [([[.ofNat 0xDCFF]], .directory),
    sample "name: f\nparameters: []\nlocals:\n- name: a\n  source: DEFAULT\n"]

def firmPath : Path := ⟨false, [[.ofNat 0xDCFF], "..", "f.yaml"]⟩

theorem given_firm : Given firm firmPath ["f.yaml"] .standard
    ⟨"f", [], [⟨"a", "DEFAULT"⟩]⟩ "a -> a\n".toList where
  settled := by decide +kernel
  document := ⟨_, rfl, by decide +kernel⟩
  messages := forall_layers.mpr ⟨rfl, rfl⟩
  response := by decide +kernel

/-- Nothing has to be saved, so a run that may write does not show the path. -/
theorem firm_codes (noReport : Bool) :
    (perform (project firm) (Text.Utf8.encode "a -> a\n".toList)
      ⟨false, .apply "-" firmPath true noReport⟩).code = 1 ∧
    (perform (project firm) (Text.Utf8.encode "a -> a\n".toList)
      ⟨false, .apply "-" firmPath false noReport⟩).code = 0 := by
  have hr := apply_rehearsed given_firm.setup (Text.Utf8.encode "a -> a\n".toList) "-" noReport
  have hp : Directive.parse (Text.ofChars "a -> a\n".toList) = [⟨"a", "a", []⟩] := by
    decide +kernel
  obtain ⟨pass, hrecord, hcomes⟩ := given_firm.comesToKeep (Text.encodable_ofString "f")
    (by decide) (by rw [hp]; decide +kernel) noReport
  rw [hp] at hrecord hcomes
  have hholds : Holds (project firm) firmPath
      (Function.after ⟨"f", [], [⟨"a", "DEFAULT"⟩]⟩ [⟨"a", "a", []⟩]) := by decide +kernel
  have hdry : Lost (.dryRun firmPath) := by decide +kernel
  have hunchanged : ¬ Lost (.unchanged firmPath) := by decide +kernel
  have hcode : exitCode pass.record.success = 0 := by
    rw [hrecord]
    decide +kernel
  obtain ⟨hdryCode, -⟩ := hr.noted _ _ hcomes
  obtain ⟨-, hrealCode, -⟩ := hr.saved _ _ hcomes rfl
  rw [utterance, if_pos hdry] at hdryCode
  rw [savingNotice, if_pos hholds, utterance, if_neg hunchanged, hcode] at hrealCode
  exact ⟨perform_error hdryCode, perform_ok hrealCode⟩

theorem runCheck_plain {w : World} (h : Plain w) (ha : w.audience = .terminal)
    {names : List Text} (hn : ∀ name ∈ names, Text.IsEncodable name) (input : List UInt8) :
    ((Command.run input (.check names)).run w).1 =
      .ok (exitCode (names.all Identifier.isValid)) := by
  have hform : ∀ n ∈ names.map nameNotice, n.form ∈ Packaged.forms := by
    intro n hn
    obtain ⟨name, -, rfl⟩ := List.mem_map.mp hn
    rw [nameNotice]
    split
    · exact form_mem (m := .validName []) (by simp [Packaged.samples]) rfl
    · exact form_mem (m := .invalidName []) (by simp [Packaged.samples]) rfl
  have hreach : ∀ n ∈ names.map nameNotice, Reaches w.audience n := by
    intro n hm
    refine .inr ⟨ha, fun _ => (encodable_wording (hform n hm)).1 fun a hargument => ?_⟩
    obtain ⟨name, hname, rfl⟩ := List.mem_map.mp hm
    have hargument : a = (Text.ofString "name", Template.Argument.text name) := by
      rw [nameNotice] at hargument
      split at hargument <;> exact List.mem_singleton.mp hargument
    rw [hargument]
    exact hn name hname
  obtain ⟨v, hr, -⟩ := tell_all_plain h hform hreach
  rw [Command.run, runCheck, Task.run_bind_ok hr]
  rfl

/-- A dry run always shows the path of a document that it has a function for, so it fails where a
run that may write does not have to show it. The option to see all that is noted down belongs in
front of the command. -/
theorem options_misplaced :
    (∃ place config, Setup (project firm) firmPath place config [] ∧ ∀ noReport,
      (perform (project firm) (Text.Utf8.encode "a -> a\n".toList)
        ⟨false, .apply "-" firmPath true noReport⟩).code = 1 ∧
      (perform (project firm) (Text.Utf8.encode "a -> a\n".toList)
        ⟨false, .apply "-" firmPath false noReport⟩).code = 0) ∧
    (run ⟨[]⟩ [] none ["check", "a"] []).code = 0 ∧
    (run ⟨[]⟩ [] none ["check", "a", "--verbose"] []).code = 2 := by
  refine ⟨⟨_, _, given_firm.setup, firm_codes⟩, ?_, ?_⟩
  · have hmessages : ∀ top ∈ Root.layers ⟨true, []⟩ "en", Tree.probe ⟨[]⟩ [] top = .ok none :=
      forall_layers.mpr ⟨rfl, rfl⟩
    have hplain : Plain (project []) :=
      plain_unread rfl rfl (merged_absent [.packaged] hmessages) (.inl rfl)
    have hstart : surroundings ⟨[]⟩ [] none = .ok (project []) := rfl
    rw [run, Invocation.ofArguments_check ⟨[]⟩ [] (List.forall_mem_singleton.mpr rfl), hstart]
    exact perform_ok (runCheck_plain hplain rfl
      (List.forall_mem_singleton.mpr (Text.encodable_ofString "a")) [])
  · decide +kernel

end Program
end SymbolRename
