import SymbolRename.Proofs.Document.File
import SymbolRename.Proofs.Entries
import SymbolRename.Proofs.Yaml.Making
import SymbolRename.Proofs.Yaml.Node

/-!
# What becomes of a document file

A file that is a text holds a mapping, or it counts as empty; one that breaks the rules of the
language counts as empty with a warning. What stops the reading all the same is told here in full:
codes that are no characters, collections that are nested too deep, scalars that do not say a value
of their tag, and numbers that are too long to be keys.
-/

set_option autoImplicit false

namespace SymbolRename

namespace Yaml

theorem CutFault.mono {s t : List Char} {f : Fault} (h : CutFault s f) (hs : s.Sublist t) :
    CutFault t f := by
  cases h with
  | unreadable => exact .unreadable
  | beyondCharacters hb hu => exact .beyondCharacters (hs.subset hb) (hs.subset hu)
  | beyondWord hb hu => exact .beyondWord (hs.subset hb) (hs.subset hu)
  | noNumber hd => exact .noNumber (hd.trans_le hs.countP_le)

/-- Characters are supplied to their end, or up to one that no document may hold. -/
theorem Supply.upToForbidden_ending (s : List Char) :
    (upToForbidden s).chars.Sublist s ∧ ∀ f ∈ (upToForbidden s).ending, f = .unreadable := by
  rw [upToForbidden]
  split
  · refine ⟨List.Sublist.refl s, ?_⟩
    rintro _ ⟨⟩
  · refine ⟨List.take_sublist _ s, ?_⟩
    rintro _ ⟨⟩
    rfl

end Yaml

namespace Document
open Files World
open Yaml (Objects Graph Raises Saying CutFault Supply)
open Text (unifyBreaks)

namespace Contents

def row? (c : Objects) (e : ℕ × ℕ) : Option (Text × ℕ) :=
  if isNull (c.object e.2) then none else (c.shown? e.1).map (·, e.2)

/-- The contents are what a mapping holds: under each key the last value, unless there is none. -/
structure Collects (c : Objects) (es : List (ℕ × ℕ)) (contents : Contents) : Prop where
  objects : contents.objects = c
  distinct : Entries.Distinct contents.entries
  get : ∀ key, contents.get? key = Entries.last? key (es.filterMap (row? c))
  shown : ∀ e ∈ es, isNull (c.object e.2) = false → ∃ key, c.shown? e.1 = some key

def LongKey (c : Objects) (x : Document.Fault) : Prop := x = .tooLong ∧ ∃ n, c.shown? n = none

theorem kept_yields (c : Objects) (e : ℕ × ℕ) :
    Yields (LongKey c) (fun r => r = row? c e ∧
      (isNull (c.object e.2) = false → ∃ key, c.shown? e.1 = some key)) (kept? c e) := by
  rw [kept?, row?]
  split
  · next hn => exact ⟨rfl, fun h => by rw [hn] at h; cases h⟩
  · split
    · next key hk =>
      rw [hk]
      exact ⟨rfl, fun _ => ⟨key, rfl⟩⟩
    · next hk => exact ⟨rfl, e.1, hk⟩

theorem rows_yields (c : Objects) (es : List (ℕ × ℕ)) :
    Yields (LongKey c) (fun rs => rs.filterMap id = es.filterMap (row? c) ∧
      ∀ e ∈ es, isNull (c.object e.2) = false → ∃ key, c.shown? e.1 = some key)
      (es.mapM (kept? c)) := by
  induction es with
  | nil => exact ⟨rfl, nofun⟩
  | cons e es ih =>
    rw [List.mapM_cons]
    refine (kept_yields c e).bind fun r hr => ih.bind fun rs hrs => ⟨?_, ?_⟩
    · rw [List.filterMap_cons, List.filterMap_cons, hrs.1, hr.1]
      rfl
    · exact List.forall_mem_cons.mpr ⟨hr.2, hrs.2⟩

theorem ofObjects_yields {c : Objects} {es : List (ℕ × ℕ)} (h : c.object c.root = .dict es) :
    Yields (LongKey c) (Collects c es) (ofObjects c) := by
  rw [ofObjects, h]
  refine (rows_yields c es).bind fun rs hrs => ?_
  rw [hrs.1]
  exact ⟨rfl, Entries.putAll_distinct Entries.nil_distinct _, fun key => Entries.get?_ofList key _,
    hrs.2⟩

theorem ofObjects_empty {c : Objects} (h : ∀ es, c.object c.root ≠ .dict es) :
    ofObjects c = .ok empty := by
  rw [ofObjects]
  split
  · next es he => exact absurd he (h es)
  · rfl

end Contents

/-- Why the objects of a text cannot be made, if not for breaking the rules of the language. -/
inductive Reason (text : List Char) : Yaml.Fault → Prop
  /-- A code in double quotes, or the number of a version, is too large. -/
  | cut {f : Yaml.Fault} : Graph.read (.upToForbidden text) = .error f → CutFault text f →
      Reason text f
  | nested : Graph.read (.upToForbidden text) = .error .tooDeep → Reason text .tooDeep
  /-- A node is taken for a value that its text does not say. -/
  | unsaid {g : Graph} {f : Yaml.Fault} : Graph.read (.upToForbidden text) = .ok (some g) →
      Raises g.nodes f → Reason text f

/-- Why a text is not even read as an empty document. -/
inductive Halts (text : List Char) : SymbolRename.Fault → Prop
  | content {f : Yaml.Fault} : Objects.read (.upToForbidden text) = .error f → f ≠ .unreadable →
      Reason text f → Halts text (.content f)
  | longKey {c : Objects} {n : ℕ} : Objects.read (.upToForbidden text) = .ok (some c) →
      c.shown? n = none → Halts text (.document none .tooLong)

theorem read_reason {text : List Char} {f : Yaml.Fault}
    (h : Objects.read (.upToForbidden text) = .error f) : Reason text f := by
  obtain ⟨hc, he⟩ := Supply.upToForbidden_ending text
  rcases bind_eq_error h with hg | ⟨g, hg, ho⟩
  · rcases Graph.read_fault he hg with hcut | rfl
    · exact .cut hg (hcut.mono hc)
    · exact .nested hg
  · cases g with
    | none => cases ho
    | some g =>
      rcases bind_eq_error ho with ho | ⟨c, -, ho⟩
      · exact .unsaid hg (Objects.ofGraph_fault ho)
      · cases ho

/-- The bytes of the file are a text, so no fault is one of decoding. -/
theorem Reason.decoded {text : List Char} {f : Yaml.Fault} (h : Reason text f)
    (e : Text.Utf8.Fault) : f ≠ .undecodable e := by
  rintro rfl
  cases h with
  | cut _ hc => cases hc
  | unsaid _ hr =>
    cases hr with
    | @refused n m s f _ _ hr =>
      have hm := hr.mem_faults
      generalize (Yaml.Graph.node _ n).tag = tag at hm
      cases tag <;> simp [Yaml.Tag.faults] at hm

theorem Reason.saying {text : List Char} {f : Yaml.Fault} {g : Graph} (h : Reason text f)
    (hg : Graph.read (.upToForbidden text) = .ok (some g)) (hs : Saying g.nodes) :
    f = .unreadable := by
  cases h with
  | cut he =>
    rw [hg] at he
    cases he
  | nested he =>
    rw [hg] at he
    cases he
  | unsaid he hr =>
    rw [hg] at he
    cases he
    exact hs.raises hr

inductive Ending (p : Path) (text : List Char) (w : World) :
    Except SymbolRename.Fault Contents × World → Prop
  | mapping {c : Objects} {es : List (ℕ × ℕ)} {contents : Contents} :
      Objects.read (.upToForbidden text) = .ok (some c) → c.object c.root = .dict es →
      contents.Collects c es → Ending p text w (.ok contents, w)
  | noMapping {c : Option Objects} : Objects.read (.upToForbidden text) = .ok c →
      (∀ d ∈ c, ∀ es, d.object d.root ≠ .dict es) → Ending p text w (.ok .empty, w)
  | unreadable : Objects.read (.upToForbidden text) = .error .unreadable →
      Ending p text w (.ok .empty,
        { w with journal := w.journal ++ [.log (unreadableWarning p)] })
  | stopped {f : SymbolRename.Fault} : Halts text f → Ending p text w (.error f, w)

section Load
variable {w : World} {p : Path} {place : Place} {bytes : List UInt8} {s : List Char}

theorem loadContents_ends (hf : w.files.find w.here p = .ok (.file place bytes))
    (hd : Text.Utf8.Decodes bytes s) :
    Ending p (unifyBreaks s) w ((loadContents p).run w) := by
  rw [loadContents, Task.run_bind_ok (Task.run_get w), Tree.present_of_find hf,
    Tree.read_of_find hf, Task.run_bind_ok (orFault_ok .file true w), if_neg (by simp),
    Task.run_bind_ok (orFault_ok .file bytes w), Supply.ofBytes_decodes hd]
  cases hr : Objects.read (.upToForbidden (unifyBreaks s)) with
  | ok c =>
    cases c with
    | none => exact .noMapping hr (by rintro _ ⟨⟩)
    | some c =>
      dsimp only
      by_cases hes : ∃ es, c.object c.root = .dict es
      · obtain ⟨es, hes⟩ := hes
        have hy := Contents.ofObjects_yields hes
        cases ho : Contents.ofObjects c with
        | ok contents =>
          rw [ho] at hy
          exact .mapping hr hes hy
        | error x =>
          rw [ho] at hy
          obtain ⟨rfl, n, hn⟩ := hy
          exact .stopped (.longKey hr hn)
      · have hes (es : List (ℕ × ℕ)) : c.object c.root ≠ .dict es := fun he => hes ⟨es, he⟩
        rw [Contents.ofObjects_empty hes]
        refine .noMapping hr ?_
        rintro _ ⟨⟩
        exact hes
  | error f =>
    have reason := read_reason hr
    cases f with
    | unreadable => exact .unreadable hr
    | undecodable e => exact absurd rfl (reason.decoded e)
    | _ => exact .stopped (.content hr (by rintro ⟨⟩) reason)

theorem loadContents_fails (hf : w.files.find w.here p = .ok (.file place bytes))
    (hd : Text.Utf8.Decodes bytes s) {f : Yaml.Fault}
    (hr : Objects.read (.upToForbidden (unifyBreaks s)) = .error f) (hn : f ≠ .unreadable) :
    (loadContents p).run w = (.error (.content f), w) := by
  have he := loadContents_ends hf hd
  generalize (loadContents p).run w = r at he
  cases he with
  | mapping h =>
    rw [hr] at h
    cases h
  | noMapping h =>
    rw [hr] at h
    cases h
  | unreadable h =>
    rw [hr] at h
    cases h
    exact absurd rfl hn
  | stopped h =>
    cases h with
    | content h =>
      rw [hr] at h
      cases h
      rfl
    | longKey h =>
      rw [hr] at h
      cases h

theorem load_error (hf : w.files.find w.here p = .ok (.file place bytes))
    (hd : Text.Utf8.Decodes bytes s) {defaultSource : Text} {f : SymbolRename.Fault}
    (h : ((load p defaultSource).run w).1 = .error f) :
    (∃ x, f = .document (some p) x) ∨ Halts (unifyBreaks s) f := by
  have hc := loadContents_ends hf hd
  rw [load, Task.run_bind_ok (Task.run_get w), Tree.isFile_of_find hf,
    Task.run_bind_ok (orFault_ok .file true w), if_neg (by simp)] at h
  rcases hr : (loadContents p).run w with ⟨e | contents, v⟩
  · rw [hr] at hc
    rw [Task.run_bind_error hr] at h
    cases h
    cases hc with
    | stopped hs => exact .inr hs
  · rw [Task.run_bind_ok hr] at h
    cases ho : contents.outline.toFunction defaultSource with
    | error x =>
      rw [ho] at h
      cases h
      exact .inl ⟨x, rfl⟩
    | ok g =>
      rw [ho, Task.run_bind_ok (orFault_ok _ g v)] at h
      cases h

/-- A file whose bytes are a text ends in one of four ways: it holds a mapping, or it holds none, or
it breaks the rules of the language and counts as empty with one warning, or the reading stops.
Where no function is loaded from it, the fault names the file, or the reading has stopped. And if
every scalar says a value of its tag, only a key that is too long stops the reading. -/
theorem document_endings (found : w.files.find w.here p = .ok (.file place bytes))
    (decodes : Text.Utf8.Decodes bytes s) :
    Ending p (unifyBreaks s) w ((loadContents p).run w) ∧
    (∀ defaultSource f, ((load p defaultSource).run w).1 = .error f →
      (∃ x, f = .document (some p) x) ∨ Halts (unifyBreaks s) f) ∧
    (∀ g, Graph.read (.upToForbidden (unifyBreaks s)) = .ok (some g) → Saying g.nodes →
      ∀ f, ((loadContents p).run w).1 = .error f → f = .document none .tooLong) := by
  have hc := loadContents_ends found decodes
  refine ⟨hc, fun _ _ h => load_error found decodes h, fun g hg hs f h => ?_⟩
  rcases hr : (loadContents p).run w with ⟨e | contents, v⟩
  · rw [hr] at hc h
    cases h
    cases hc with
    | stopped ht =>
      cases ht with
      | content _ hn reason => exact absurd (reason.saying hg hs) hn
      | longKey => rfl
  · rw [hr] at h
    cases h

end Load

/-! ## Files that end so -/

def failsWith (text : List Char) (f : Yaml.Fault) : Bool :=
  match Objects.read (.upToForbidden text) with
  | .error e => e = f
  | .ok _ => false

theorem read_failsWith {text : List Char} {f : Yaml.Fault} (h : failsWith text f = true) :
    Objects.read (.upToForbidden text) = .error f := by
  unfold failsWith at h
  split at h
  · next e he =>
    have hf : e = f := of_decide_eq_true h
    exact hf ▸ he
  · cases h

def holding (text : String) : World :=
  { World.silent with files := ⟨[(["f.yaml"], .file (Text.Utf8.encode text.toList))]⟩ }

theorem holding_found (text : String) : (holding text).files.find (holding text).here
    (.ofText "f.yaml") = .ok (.file ["f.yaml"] (Text.Utf8.encode text.toList)) := rfl

/-- A bracket that is not closed makes a file count as empty. -/
theorem document_endings_bracket : (loadContents (.ofText "f.yaml")).run (holding "[") =
    (.ok .empty,
      { holding "[" with journal := [.log (unreadableWarning (.ofText "f.yaml"))] }) := by
  have hu : Objects.read (.upToForbidden (unifyBreaks "[".toList)) = .error .unreadable :=
    read_failsWith (by decide +kernel)
  have he := (document_endings (holding_found "[") (Text.Utf8.encode_decodes _)).1
  generalize (loadContents (.ofText "f.yaml")).run (holding "[") = r at he
  cases he with
  | mapping hr =>
    rw [hu] at hr
    cases hr
  | noMapping hr =>
    rw [hu] at hr
    cases hr
  | unreadable => rfl
  | stopped hs =>
    cases hs with
    | content hr hn =>
      rw [hu] at hr
      cases hr
      exact absurd rfl hn
    | longKey hr =>
      rw [hu] at hr
      cases hr

/-- A word that looks like a date, but is none, stops the reading. -/
theorem loadContents_stopped :
    ((loadContents (.ofText "f.yaml")).run (holding "a: 2001-13-45\n")).1 =
      .error (.content .impossibleMoment) := by
  have hr : Objects.read (.upToForbidden (unifyBreaks "a: 2001-13-45\n".toList)) =
      .error .impossibleMoment := read_failsWith (by decide +kernel)
  have he := loadContents_fails (holding_found _) (Text.Utf8.encode_decodes _) hr nofun
  exact congrArg Prod.fst he

end Document
end SymbolRename
