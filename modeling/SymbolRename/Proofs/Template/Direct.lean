import SymbolRename.Proofs.Entries
import SymbolRename.Proofs.Task
import SymbolRename.Template
import SymbolRename.Template.Argument
import Mathlib.Data.List.TakeWhile

/-!
# Templates that show arguments as they are

A field is direct if it names an argument and neither looks into it nor asks for a layout. Filling
direct fields goes wrong only where an argument is missing, the template is not well formed, or an
argument refuses to be shown. It does not go wrong at all if every argument is there and can be
shown.
-/

set_option autoImplicit false

namespace SymbolRename.Template

def Field.isDirect (f : Field) : Bool := f.name.all isNameCode && f.layout.isEmpty

/-- A direct field without a form, for one of the arguments. -/
def Field.isFor (names : List Text) (f : Field) : Bool :=
  f.isDirect && f.form.isNone && !f.name.all Text.isDecimalDigit && names.contains f.name

def Piece.isDirect : Piece → Bool
  | .field f => f.isDirect
  | _ => true

def Piece.isFor (names : List Text) : Piece → Bool
  | .text _ => true
  | .field f => f.isFor names
  | .malformed => false

def isDirect (template : Text) : Bool := (pieces template.length template).all Piece.isDirect

def isFor (names : List Text) (template : Text) : Bool :=
  (pieces template.length template).all (Piece.isFor names)

def Fault.isFormatting : Fault → Bool
  | .missing | .malformed => true
  | _ => false

theorem takeWhile_all {α : Type} {p : α → Bool} {s : List α} (h : s.all p = true) :
    s.takeWhile p = s ∧ s.dropWhile p = [] := by
  rw [List.all_eq_true] at h
  exact ⟨List.takeWhile_eq_self_iff.mpr h, List.dropWhile_eq_nil_iff.mpr h⟩

section Objects
variable {α : Type} [Objects α] {arguments : List (Text × α)} {inner : Text → Except Fault Text}

/-- An object gives this fault where it is to be shown as it is. -/
inductive Refuses (a : α) (e : Fault) : Prop where
  | plainly : Objects.present a [] = .error e → Refuses a e
  | shown : Objects.shown a = .error e → Refuses a e
  | literal : Objects.literal a = .error e → Refuses a e

theorem argument_direct {name : Text} (h : name.all isNameCode = true) :
    argument arguments name =
      if name.all Text.isDecimalDigit then .error .missing
      else match Entries.get? name arguments with
        | some a => .ok a
        | none => .error .missing := by
  obtain ⟨ht, hd⟩ := takeWhile_all h
  rw [argument, ht, hd]
  cases name.all Text.isDecimalDigit with
  | true => rfl
  | false =>
    dsimp only [Bool.false_eq_true, if_false]
    cases Entries.get? name arguments with
    | none => rfl
    | some a => cases name <;> rfl

theorem argument_fault {name : Text} {e : Fault} (h : name.all isNameCode = true)
    (he : argument arguments name = .error e) : e = .missing := by
  rw [argument_direct h] at he
  split at he
  · exact (Except.error.inj he).symm
  · split at he <;> cases he
    rfl

theorem argument_mem {name : Text} {a : α} (h : name.all isNameCode = true)
    (ha : argument arguments name = .ok a) : (name, a) ∈ arguments := by
  rw [argument_direct h] at ha
  split at ha
  · cases ha
  · split at ha
    · next hg => exact Except.ok.inj ha ▸ Entries.mem_of_get? hg
    · cases ha

def exhibit (a : α) (form : Option Code) : Except Fault Text := do
  Objects.present (← Objects.convert a form) []

theorem map_ofText_fault {r : Except Fault Text} {f : Text → Text} {e : Fault}
    (he : (r.map fun s => (Objects.ofText (f s) : α)) >>= (Objects.present · []) = .error e) :
    r = .error e := by
  cases r with
  | error x => exact congrArg Except.error (Except.error.inj he)
  | ok s => exact nomatch (@Objects.present_ofText α _ (f s)).symm.trans he

theorem exhibit_fault {a : α} {form : Option Code} {e : Fault}
    (he : exhibit a form = .error e) : e.isFormatting = true ∨ Refuses a e := by
  rw [exhibit, Objects.convert.eq_def] at he
  split at he
  · exact .inr (.plainly he)
  · exact .inr (.plainly he)
  · exact .inr (.shown (map_ofText_fault (f := id) he))
  · exact .inr (.literal (map_ofText_fault (f := id) he))
  · exact .inr (.literal (map_ofText_fault he))
  · cases he
    exact .inl rfl

/-- What a direct field shows. -/
theorem fillPieces_field {f : Field} (h : f.isDirect = true) (ps : List Piece) :
    fillPieces arguments inner (.field f :: ps) = (do
      let s ← exhibit (← argument arguments f.name) f.form
      return s ++ (← fillPieces arguments inner ps)) := by
  rw [Field.isDirect, Bool.and_eq_true, List.isEmpty_iff] at h
  rw [fillPieces, h.2]
  cases argument arguments f.name with
  | error e => rfl
  | ok a =>
    change (Objects.convert a f.form >>= _) = ((Objects.convert a f.form >>= _) >>= _)
    cases Objects.convert a f.form <;> rfl

/-- What a direct template says: what stands between its fields, and the arguments in their
places. -/
inductive Says (arguments : List (Text × α)) : List Piece → Text → Prop where
  | nil : Says arguments [] []
  | text {ps : List Piece} {t : Text} (s : Text) (rest : Says arguments ps t) :
    Says arguments (.text s :: ps) (s ++ t)
  | field {f : Field} {a : α} {ps : List Piece} {s t : Text} (direct : f.isDirect = true)
    (named : f.name.all Text.isDecimalDigit = false)
    (found : Entries.get? f.name arguments = some a) (shown : exhibit a f.form = .ok s)
    (rest : Says arguments ps t) : Says arguments (.field f :: ps) (s ++ t)

theorem fillPieces_says {ps : List Piece} {t : Text} (h : Says arguments ps t) :
    fillPieces arguments inner ps = .ok t := by
  induction h with
  | nil => rfl
  | text s rest ih =>
    rw [fillPieces, ih]
    rfl
  | field direct named found shown rest ih =>
    have hn := direct
    rw [Field.isDirect, Bool.and_eq_true] at hn
    rw [fillPieces_field direct, argument_direct hn.1, named, found, ih]
    change (exhibit _ _ >>= _) = _
    rw [shown]
    rfl

/-- A direct template has no other faults than those that a message is shown by its key for, and
those of the arguments themselves. -/
theorem fillPieces_fault {ps : List Piece} {e : Fault} (h : ps.all Piece.isDirect = true)
    (he : fillPieces arguments inner ps = .error e) :
    e.isFormatting = true ∨ ∃ a ∈ arguments, Refuses a.2 e := by
  induction ps with
  | nil => cases he
  | cons p ps ih =>
    rw [List.all_cons, Bool.and_eq_true] at h
    cases p with
    | malformed =>
      cases he
      exact .inl rfl
    | text s =>
      rw [fillPieces] at he
      rcases bind_eq_error he with hr | ⟨t, -, hr⟩
      · exact ih h.2 hr
      · cases hr
    | field f =>
      have hf : f.isDirect = true := h.1
      rw [fillPieces_field hf] at he
      rw [Field.isDirect, Bool.and_eq_true] at hf
      rcases bind_eq_error he with ha | ⟨a, ha, he⟩
      · rw [argument_fault hf.1 ha]
        exact .inl rfl
      rcases bind_eq_error he with hx | ⟨s, -, he⟩
      · exact (exhibit_fault hx).imp_right fun hx => ⟨_, argument_mem hf.1 ha, hx⟩
      rcases bind_eq_error he with hr | ⟨t, -, hr⟩
      · exact ih h.2 hr
      · cases hr

theorem fill_says {template t : Text}
    (h : Says arguments (pieces template.length template) t) : fill template arguments = .ok t :=
  fillPieces_says h

theorem fill_fault {template : Text} {e : Fault} (h : isDirect template = true)
    (he : fill template arguments = .error e) :
    e.isFormatting = true ∨ ∃ a ∈ arguments, Refuses a.2 e :=
  fillPieces_fault h he

end Objects

/-! ## The arguments of messages -/

def Fault.IsWriting (e : Fault) : Prop := e = .malformed ∨ e = .tooDeep

theorem orElse_fault {P : Fault → Prop} {x y : Option Fault} {e : Fault}
    (hx : ∀ e, x = some e → P e) (hy : ∀ e, y = some e → P e) (h : (x <|> y) = some e) : P e := by
  cases x with
  | none => exact hy e h
  | some d => exact hx e h

mutual

theorem unwritable?_fault (room : ℕ) (v : Value) (e : Fault) (h : unwritable? room v = some e) :
    e.IsWriting := by
  cases room with
  | zero =>
    rw [unwritable?] at h
    cases h
    exact .inr rfl
  | succ room =>
    cases v with
    | int i =>
      rw [unwritable?] at h
      split at h <;> cases h
      exact .inl rfl
    | list items =>
      rw [unwritable?] at h
      exact unwritableItems?_fault room items e h
    | tuple items =>
      rw [unwritable?] at h
      exact unwritableItems?_fault room items e h
    | set items =>
      rw [unwritable?] at h
      exact unwritableItems?_fault (room - 1) items e h
    | dict entries =>
      rw [unwritable?] at h
      exact unwritableEntries?_fault room entries e h
    | _ => cases h

theorem unwritableItems?_fault (room : ℕ) (vs : List Value) (e : Fault)
    (h : unwritableItems? room vs = some e) : e.IsWriting := by
  cases vs with
  | nil => cases h
  | cons v vs =>
    rw [unwritableItems?] at h
    exact orElse_fault (unwritable?_fault room v) (unwritableItems?_fault room vs) h

theorem unwritableEntries?_fault (room : ℕ) (es : List (Value × Value)) (e : Fault)
    (h : unwritableEntries? room es = some e) : e.IsWriting := by
  match es with
  | [] => cases h
  | (k, v) :: es =>
    rw [unwritableEntries?] at h
    exact orElse_fault (unwritable?_fault room k)
      (fun d => orElse_fault (unwritable?_fault room v) (unwritableEntries?_fault room es)) h

end

theorem unshowable?_fault {a : Argument} {e : Fault} (h : a.unshowable? = some e) :
    e.IsWriting := by
  cases a with
  | value v => exact unwritable?_fault _ v e h
  | applied k item => exact unwritable?_fault _ item e h
  | _ => cases h

/-- An argument refuses to be shown just if something in it cannot be written. -/
theorem refuses_iff {a : Argument} {e : Fault} : Refuses a e ↔ a.unshowable? = some e := by
  have showing_error (s : Text) (h : a.showing s = .error e) : a.unshowable? = some e := by
    rw [Argument.showing] at h
    cases hu : a.unshowable? with
    | none =>
      rw [hu] at h
      cases h
    | some d =>
      rw [hu] at h
      exact congrArg some (Except.error.inj h)
  constructor
  · rintro (h | h | h)
    · exact showing_error _ h
    · exact showing_error _ h
    · exact showing_error _ h
  · intro h
    refine .shown ?_
    change a.showing a.shown = _
    rw [Argument.showing, h]

example : Refuses (Argument.value (.list [.int (Nat.pow 10 4300)])) .malformed :=
  refuses_iff.mpr (by decide +kernel)

def Piece.shown (arguments : List (Text × Argument)) : Piece → Text
  | .text s => s
  | .field f => ((Entries.get? f.name arguments).map Argument.shown).getD []
  | .malformed => []

theorem says_for {arguments : List (Text × Argument)} {ps : List Piece}
    (hs : ∀ a ∈ arguments, a.2.unshowable? = none)
    (h : ps.all (Piece.isFor (arguments.map (·.1))) = true) :
    Says arguments ps (ps.flatMap (Piece.shown arguments)) := by
  induction ps with
  | nil => exact .nil
  | cons p ps ih =>
    rw [List.all_cons, Bool.and_eq_true] at h
    cases p with
    | malformed => cases h.1
    | text s => exact .text s (ih h.2)
    | field f =>
      have hf : f.isFor (arguments.map (·.1)) = true := h.1
      rw [Field.isFor, Bool.and_eq_true, Bool.and_eq_true, Bool.and_eq_true, Bool.not_eq_true',
        Option.isNone_iff_eq_none, List.contains_iff_mem] at hf
      obtain ⟨⟨⟨hd, hform⟩, hdigit⟩, hname⟩ := hf
      obtain ⟨a, ha⟩ := Entries.get?_of_mem_keys hname
      have hx : exhibit a f.form = .ok a.shown := by
        rw [hform]
        change a.showing a.shown = _
        rw [Argument.showing, hs _ (Entries.mem_of_get? ha)]
      rw [List.flatMap_cons, Piece.shown, ha]
      exact .field hd hdigit ha hx (ih h.2)

theorem fill_for {arguments : List (Text × Argument)} {template : Text}
    (hs : ∀ a ∈ arguments, a.2.unshowable? = none)
    (h : isFor (arguments.map (·.1)) template = true) :
    fill template arguments =
      .ok ((pieces template.length template).flatMap (Piece.shown arguments)) :=
  fill_says (says_for hs h)

end SymbolRename.Template
