import SymbolRename.Command.Run
import SymbolRename.Proofs.Command.Output
import SymbolRename.Proofs.Config
import SymbolRename.Proofs.Document.File

/-!
# What a run that applies a response reads

The configuration gives a rule for the report that has a width. A response is a text of characters,
and whatever keeps it from being read is told as a notice. Reading leaves every file as it is.
-/

set_option autoImplicit false

namespace SymbolRename

namespace Config

theorem ofTable_width (place : Text) (table : List (Value × Value)) :
    0 < (ofTable place table).1.reportWidth := by
  change 0 < (positive place (setting place table "report_width" "int" asInteger).1).1.getD
    standard.reportWidth
  rcases h : (positive place (setting place table "report_width" "int" asInteger).1).1 with _ | i
  · decide
  · exact (positive_eq_some.mp h).2

theorem ofDocument_width {place : Text} {document : List (Value × Value)} {config : Config}
    {logs : List Log} (h : ofDocument place document = .ok (config, logs)) :
    0 < config.reportWidth := by
  rw [ofDocument] at h
  split at h
  · split at h
    · cases h
      exact ofTable_width place _
    · cases h
      decide
  · cases h

/-- However the settings come about, the rule of a report has a positive width. -/
theorem load_width {t : Files.Tree} {start : Files.Place} {config : Config} {logs : List Log}
    (h : load t start = .ok (config, logs)) : 0 < config.reportWidth := by
  rw [load] at h
  split at h
  · cases h
  · cases h
    decide
  · dsimp only at h
    split at h
    · rw [ofBytes] at h
      split at h
      · cases h
      · split at h
        · exact ofDocument_width h
        · cases h
          decide
        · cases h
        · cases h
    · cases h
      decide

end Config

namespace Document
open Files World
open Yaml (Objects)

def describes (bytes : List UInt8) (defaultSource : Text) (f : Function) : Bool :=
  match Objects.read (.ofBytes bytes) with
  | .ok (some c) =>
    match Contents.ofObjects c with
    | .ok contents =>
      match contents.outline.toFunction defaultSource with
      | .ok g => g = f
      | .error _ => false
    | .error _ => false
  | _ => false

theorem load_described {w : World} {p : Path} {place : Place} {bytes : List UInt8}
    {defaultSource : Text} {f : Function} (hf : w.files.find w.here p = .ok (.file place bytes))
    (hd : describes bytes defaultSource f = true) :
    ((load p defaultSource).run w).1 = .ok f := by
  unfold describes at hd
  split at hd
  · next c hr =>
    split at hd
    · next contents hc =>
      split at hd
      · next g hg =>
        obtain rfl : g = f := of_decide_eq_true hd
        exact congrArg Prod.fst (load_run hf hr hc hg)
      · cases hd
    · cases hd
  · cases hd

end Document

namespace Command
open Files World SymbolRename.Task
open Text (IsEncodable)

def configured (w : World) (logs : List Log) : World :=
  { w with journal := w.journal ++ logs.map .log }

theorem loadConfig_run {w : World} {config : Config} {logs : List Log}
    (h : Config.load w.files w.here = .ok (config, logs)) :
    loadConfig.run w = (.ok config, configured w logs) := by
  rw [loadConfig, run_bind_ok (run_get w), h,
    run_bind_ok (Document.orFault_ok .config (config, logs) w)]
  rfl

/-! ## The response -/

section Response
variable {input : List UInt8} {source : Text} {w v : World}

theorem responseBytes_error {e : Fault} (h : (responseBytes input source).run w = (.error e, v))
    (p : Path) : (loadNotice? p e).isSome = true := by
  rw [responseBytes] at h
  split at h
  · cases h
  · rw [run_bind_ok (run_get w)] at h
    dsimp only at h
    cases hi : w.files.isFile w.here (Path.ofText source) with
    | error f =>
      rw [hi] at h
      obtain ⟨q, rfl⟩ := Tree.isFile_error hi
      cases h
      rfl
    | ok b =>
      rw [hi, run_bind_ok (Document.orFault_ok .file b w)] at h
      cases b with
      | false =>
        cases h
        rfl
      | true =>
        obtain ⟨bytes, hr⟩ := Tree.read_of_isFile hi
        rw [hr] at h
        cases h

theorem readResponse_error {e : Fault} (h : (readResponse input source).run w = (.error e, v))
    (p : Path) : (loadNotice? p e).isSome = true := by
  rw [readResponse, run_bind] at h
  rcases hb : (responseBytes input source).run w with ⟨f | bytes, u⟩
  · rw [hb] at h
    cases h
    exact responseBytes_error hb p
  · rw [hb] at h
    dsimp only at h
    cases hd : Text.Utf8.decode bytes with
    | error f =>
      rw [hd] at h
      cases h
      rfl
    | ok s =>
      rw [hd] at h
      cases h

theorem readResponse_input (w : World) {s : List Char} (hs : '\r' ∉ s) :
    ((readResponse (Text.Utf8.encode s) "-").run w).1 = .ok (Text.ofChars s) := by
  have hb : (responseBytes (Text.Utf8.encode s) "-").run w = (.ok (Text.Utf8.encode s), w) := rfl
  rw [readResponse, run_bind_ok hb, Text.Utf8.decode_encode]
  exact congrArg (fun t => Except.ok (Text.ofChars t)) (Text.unifyBreaks_self hs)

/-- A response is read from its bytes, with its line breaks as line feeds. -/
theorem readResponse_decoded {text : Text}
    (h : (readResponse input source).run w = (.ok text, v)) :
    ∃ bytes s, ((responseBytes input source).run w).1 = .ok bytes ∧
      Text.Utf8.Decodes bytes s ∧ text = Text.ofChars (Text.unifyBreaks s) := by
  rw [readResponse, run_bind] at h
  rcases hb : (responseBytes input source).run w with ⟨f | bytes, u⟩
  · rw [hb] at h
    cases h
  · rw [hb] at h
    dsimp only at h
    cases hd : Text.Utf8.decode bytes with
    | error f =>
      rw [hd] at h
      cases h
    | ok s =>
      rw [hd] at h
      cases h
      exact ⟨bytes, s, rfl, Text.Utf8.decode_eq_ok_iff.mp hd, rfl⟩

theorem readResponse_encodable {text : Text}
    (h : (readResponse input source).run w = (.ok text, v)) :
    IsEncodable text := by
  obtain ⟨bytes, s, -, -, rfl⟩ := readResponse_decoded h
  exact Text.encodable_ofChars _

theorem readResponse_keeps (input : List UInt8) (source : Text) :
    Keeps (· = ·) (readResponse input source) := by
  have hb : Keeps (· = ·) (responseBytes input source) := by
    rw [responseBytes]
    split
    · exact keeps_pure _
    · refine keeps_bind keeps_get fun w => keeps_bind (keeps_orFault _ _) fun b => ?_
      split
      · exact keeps_bind (keeps_throw _) fun _ => keeps_orFault _ _
      · exact keeps_orFault _ _
  exact keeps_bind hb fun _ => keeps_bind (keeps_orFault _ _) fun _ => keeps_pure _

end Response

/-! ## The response and the document -/

def loading (input : List UInt8) (response : Text) (p : Path) (defaultSource : Text) :
    Act (Text × Function) := do
  let text ← readResponse input response
  return (text, ← Document.load p defaultSource)

section Loading
variable {input : List UInt8} {response text defaultSource : Text} {p : Path} {w v : World}

theorem keeps_loading {R : World → World → Prop} [IsPreorder World R]
    (hs : ∀ l : Log, Keeps R (say [.log l])) (input : List UInt8) (response : Text) (p : Path)
    (defaultSource : Text) : Keeps R (loading input response p defaultSource) := by
  have hr : Keeps R (readResponse input response) :=
    (readResponse_keeps input response).mono fun w _ h => h ▸ refl_of R w
  exact keeps_bind hr fun _ => keeps_bind (keeps_load hs p defaultSource) fun _ => keeps_pure _

theorem loading_speaks (input : List UInt8) (response : Text) (p : Path) (defaultSource : Text) :
    Keeps Speaks (loading input response p defaultSource) :=
  keeps_loading (fun _ => say_keeps _) input response p defaultSource

theorem loading_run (input : List UInt8) (response : Text) (p : Path) (defaultSource : Text)
    (w : World) : (loading input response p defaultSource).run w =
      match ((readResponse input response).run w).1 with
      | .error e => (.error e, w)
      | .ok text => (((Document.load p defaultSource).run w).1.map (text, ·),
          ((Document.load p defaultSource).run w).2) := by
  have hw := readResponse_keeps input response w
  rw [loading, run_bind]
  rcases hr : (readResponse input response).run w with ⟨e | text, v⟩
  · rw [hr] at hw
    rw [show v = w from hw.symm]
  · rw [hr] at hw
    rw [show v = w from hw.symm]
    exact run_bind_pure _ _ w

/-- Whatever keeps a response from being read is told, so all is told if the faults of documents
are. -/
theorem loading_error {e : Fault}
    (hl : ∀ f, ((Document.load p defaultSource).run w).1 = .error f →
      (loadNotice? p f).isSome = true)
    (h : (loading input response p defaultSource).run w = (.error e, v)) :
    (loadNotice? p e).isSome = true := by
  rw [loading_run] at h
  rcases hr : (readResponse input response).run w with ⟨f | text, u⟩
  · rw [hr] at h
    cases h
    exact readResponse_error hr p
  · rw [hr] at h
    dsimp only at h
    cases hd : ((Document.load p defaultSource).run w).1 with
    | error f =>
      rw [hd] at h
      cases h
      exact hl e hd
    | ok f =>
      rw [hd] at h
      cases h

theorem loading_input {s : List Char} {f : Function} (hs : '\r' ∉ s)
    (h : ((Document.load p defaultSource).run w).1 = .ok f) :
    ((loading (Text.Utf8.encode s) "-" p defaultSource).run w).1 = .ok (Text.ofChars s, f) := by
  rw [loading_run, readResponse_input w hs]
  dsimp only
  rw [h]
  rfl

theorem loading_encodable {f : Function}
    (h : (loading input response p defaultSource).run w = (.ok (text, f), v)) :
    IsEncodable text := by
  rw [loading_run] at h
  rcases hr : (readResponse input response).run w with ⟨e | s, u⟩
  · rw [hr] at h
    cases h
  · rw [hr] at h
    dsimp only at h
    cases hd : ((Document.load p defaultSource).run w).1 with
    | error f =>
      rw [hd] at h
      cases h
    | ok f =>
      rw [hd] at h
      cases h
      exact readResponse_encodable hr

end Loading

/-! ## After reading -/

section Loaded
variable {α : Type} {act : Act α} {p : Path} {w v : World}

theorem loaded_ok {a : α} (h : act.run w = (.ok a, v)) (p : Path) :
    (loaded? p act).run w = (.ok (some a), v) := by
  rw [loaded?, run_bind_ok (run_get w), h]
  rfl

theorem loaded_caught {e : Fault} {n : Notice} (h : act.run w = (.error e, v))
    (hn : loadNotice? p e = some n) :
    (loaded? p act).run w = (((tell n).run v).1.map fun _ => none, ((tell n).run v).2) := by
  rw [loaded?, run_bind_ok (run_get w), h]
  dsimp only
  rw [run_bind_ok (run_set v w), hn]
  exact run_bind_pure _ _ v

theorem loaded_uncaught {e : Fault} (h : act.run w = (.error e, v)) (hn : loadNotice? p e = none) :
    (loaded? p act).run w = (.error e, v) := by
  rw [loaded?, run_bind_ok (run_get w), h]
  dsimp only
  rw [run_bind_ok (run_set v w), hn]
  rfl

/-- What could not be read does not count as read. -/
theorem loaded_nothing {e : Fault} (h : act.run w = (.error e, v)) (a : α) :
    ((loaded? p act).run w).1 ≠ .ok (some a) := by
  intro ha
  cases hn : loadNotice? p e with
  | none =>
    rw [loaded_uncaught h hn] at ha
    cases ha
  | some n =>
    rw [loaded_caught h hn] at ha
    dsimp only at ha
    cases ht : ((tell n).run v).1 with
    | error f =>
      rw [ht] at ha
      cases ha
    | ok u =>
      rw [ht] at ha
      cases ha

theorem keeps_loaded {R : World → World → Prop} [IsPreorder World R] (p : Path) (ha : Keeps R act)
    (hn : ∀ f n, loadNotice? p f = some n → Keeps R (tell n)) : Keeps R (loaded? p act) := by
  intro w
  have hc := ha w
  rcases hr : act.run w with ⟨e | a, v⟩
  · rw [hr] at hc
    cases hnotice : loadNotice? p e with
    | none =>
      rw [loaded_uncaught hr hnotice]
      exact hc
    | some n =>
      rw [loaded_caught hr hnotice]
      exact trans_of R hc (hn e n hnotice v)
  · rw [hr] at hc
    rw [loaded_ok hr]
    exact hc

theorem loaded_keeps (p : Path) (ha : Keeps Consults act) : Keeps Consults (loaded? p act) :=
  keeps_loaded p ha fun _ n _ => tell_keeps n

end Loaded
end Command
end SymbolRename
