import SymbolRename.Proofs.Document.RoundTrip

/-!
# What a mapping must hold to describe a function

A mapping describes a function if it has a name, what stands under the parameters and under the
local variables is a list or missing, every entry of these has a name, and no list has a name twice.
Otherwise the first place where it breaks one of these rules is told: the name comes first, then the
parameters with their entries in order, then the local variables with theirs.
-/

set_option autoImplicit false

namespace SymbolRename.Document

/-! ## Entries -/

section Entries
variable {defaultSource : Text} {kind : SymbolKind}

def Gives (defaultSource : Text) (e : Entry) (s : Symbol) : Prop :=
  e.symbol? defaultSource = .ok (some s)

/-- Why an entry ends the reading of its collection, by the names that were read before it. -/
inductive Stops (defaultSource : Text) (kind : SymbolKind) (owner : Text) (names : List Text)
    (index : ℕ) (e : Entry) : Fault → Prop
  | unreadable {x : Fault} : e.symbol? defaultSource = .error x →
      Stops defaultSource kind owner names index e x
  | nameless : e.symbol? defaultSource = .ok none →
      Stops defaultSource kind owner names index e (.namelessEntry index kind)
  | repeated {s : Symbol} : Gives defaultSource e s → s.name ∈ names →
      Stops defaultSource kind owner names index e (.refused (.taken s.name owner))

theorem addEntry_cases (f : Function) (e : Entry) (n : ℕ) :
    (∃ s, Gives defaultSource e s ∧ s.name ∉ f.names kind ∧
      addEntry defaultSource kind f (e, n) = .ok (f.withSymbols kind (f.symbols kind ++ [s]))) ∨
    ∃ x, Stops defaultSource kind f.name (f.names kind) n e x ∧
      addEntry defaultSource kind f (e, n) = .error x := by
  rw [addEntry]
  cases he : e.symbol? defaultSource with
  | error x => exact .inr ⟨x, .unreadable he, rfl⟩
  | ok r =>
    cases r with
    | none => exact .inr ⟨_, .nameless he, rfl⟩
    | some s =>
      dsimp only [bind, Except.bind]
      by_cases hs : s.name ∈ f.names kind
      · rw [Function.add, if_pos ((Function.hasName_iff _ _).mpr hs)]
        exact .inr ⟨_, .repeated he hs, rfl⟩
      · rw [add_fresh hs]
        exact .inl ⟨s, he, hs, rfl⟩

/-- The entries of a collection give its symbols one after another, up to an entry that stops it. -/
theorem addEntries_cases (defaultSource : Text) (es : List Entry) {f : Function}
    (hf : (f.names kind).Nodup) (n : ℕ) :
    (∃ ss, List.Forall₂ (Gives defaultSource) es ss ∧
      (f.names kind ++ ss.map (·.name)).Nodup ∧
      (es.zipIdx n).foldlM (addEntry defaultSource kind) f =
        .ok (f.withSymbols kind (f.symbols kind ++ ss))) ∨
    ∃ before e behind ss x, es = before ++ e :: behind ∧
      List.Forall₂ (Gives defaultSource) before ss ∧ (f.names kind ++ ss.map (·.name)).Nodup ∧
      Stops defaultSource kind f.name (f.names kind ++ ss.map (·.name)) (n + before.length) e x ∧
      (es.zipIdx n).foldlM (addEntry defaultSource kind) f = .error x := by
  induction es generalizing f n with
  | nil =>
    refine .inl ⟨[], .nil, by simpa using hf, ?_⟩
    rw [List.append_nil]
    cases kind <;> rfl
  | cons e es ih =>
    rw [List.zipIdx_cons, List.foldlM_cons]
    rcases addEntry_cases f e n with ⟨s, hs, hn, ha⟩ | ⟨x, hx, ha⟩
    · let g := f.withSymbols kind (f.symbols kind ++ [s])
      have hsymbols : g.symbols kind = f.symbols kind ++ [s] := by
        rw [Function.symbols_withSymbols, if_pos rfl]
      have hnames (ss : List Symbol) : g.names kind ++ ss.map (·.name) =
          f.names kind ++ (s :: ss).map (·.name) := by
        rw [Function.names, hsymbols, List.map_append, List.append_assoc]
        rfl
      have hg : (g.names kind).Nodup := by
        have hm := hnames []
        rw [List.map_nil, List.append_nil] at hm
        rw [hm]
        exact hf.append (List.nodup_singleton _) (by simpa using hn)
      rw [ha]
      rcases ih hg (n + 1) with ⟨ss, hss, hd, hr⟩ | ⟨before, d, behind, ss, x, rfl, hss, hd, hx, hr⟩
      · refine .inl ⟨s :: ss, .cons hs hss, by rw [← hnames]; exact hd, hr.trans ?_⟩
        rw [hsymbols, List.append_assoc]
        cases kind <;> rfl
      · refine .inr ⟨e :: before, d, behind, s :: ss, x, rfl, .cons hs hss, ?_, ?_, hr⟩
        · rw [← hnames]
          exact hd
        · rw [← hnames, List.length_cons, Nat.add_comm before.length, ← Nat.add_assoc]
          rw [show f.name = g.name from (Function.name_withSymbols f _ _).symm]
          exact hx
    · refine .inr ⟨[], e, es, [], x, rfl, .nil, by simpa using hf, by simpa using hx, ?_⟩
      rw [ha]
      rfl

end Entries

/-! ## Values -/

inductive Names : Value → Text → Prop
  | text {s : Text} : s ≠ [] → Names (.text s) s
  | field {es : List (Value × Value)} {v : Value} : Value.field? "name" es = some v →
      v.isTruthy = true → Names (.dict es) v.shown

inductive Sources (defaultSource : Text) : Value → Text → Prop
  | text (s : Text) : Sources defaultSource (.text s) defaultSource
  | field {es : List (Value × Value)} {v : Value} : Value.field? "source" es = some v →
      v.isTruthy = true → Sources defaultSource (.dict es) v.shown
  | default {es : List (Value × Value)} :
      (∀ v ∈ Value.field? "source" es, v.isTruthy = false) →
      Sources defaultSource (.dict es) defaultSource

def StandsFor (defaultSource : Text) (v : Value) (s : Symbol) : Prop :=
  Names v s.name ∧ Sources defaultSource v s.source

theorem names_unique {v : Value} {s t : Text} (hs : Names v s) (ht : Names v t) : s = t := by
  cases hs with
  | text => cases ht; rfl
  | field hs =>
    cases ht with
    | field ht =>
      rw [hs] at ht
      cases ht
      rfl

theorem textOr_truthy (default : Text) {v : Value} (h : v.isTruthy = true) :
    Field.textOr default (some (.ofValue v)) = .ok v.shown := by
  rw [Field.textOr, Field.ofValue, h]
  rfl

theorem textOr_falsy (default : Text) {v : Option Value} (h : ∀ a ∈ v, a.isTruthy = false) :
    Field.textOr default (v.map .ofValue) = .ok default := by
  cases v with
  | none => rfl
  | some v =>
    rw [Option.map_some, Field.textOr, Field.ofValue, h v rfl]
    rfl

theorem sources_ofValue (defaultSource : Text) (es : List (Value × Value)) :
    ∃ source, Field.textOr defaultSource ((Value.field? "source" es).map .ofValue) = .ok source ∧
      Sources defaultSource (.dict es) source := by
  by_cases hs : ∀ v ∈ Value.field? "source" es, v.isTruthy = false
  · exact ⟨_, textOr_falsy defaultSource hs, .default hs⟩
  · obtain ⟨v, hv, ht⟩ : ∃ v, Value.field? "source" es = some v ∧ v.isTruthy = true := by
      simpa using hs
    rw [hv]
    exact ⟨_, textOr_truthy defaultSource ht, .field hv ht⟩

theorem symbol_named {defaultSource source : Text} {es : List (Value × Value)} {v : Value}
    (hv : Value.field? "name" es = some v) (ht : v.isTruthy = true)
    (hs : Field.textOr defaultSource ((Value.field? "source" es).map .ofValue) = .ok source) :
    Gives defaultSource (.ofValue (.dict es)) ⟨v.shown, source⟩ := by
  have hc : ((Value.field? "name" es).map Field.ofValue).any Field.counts = true := by
    rw [hv]
    exact ht
  rw [Gives, Entry.ofValue, Entry.symbol?, hc, hs, hv, Option.map_some, textOr_truthy [] ht]
  rfl

theorem symbol_unnamed (defaultSource : Text) {es : List (Value × Value)}
    (hn : ∀ v ∈ Value.field? "name" es, v.isTruthy = false) :
    (Entry.ofValue (.dict es)).symbol? defaultSource = .ok none := by
  have hc : ((Value.field? "name" es).map Field.ofValue).any Field.counts = false := by
    cases hv : Value.field? "name" es with
    | none => rfl
    | some v => exact hn v hv
  rw [Entry.ofValue, Entry.symbol?, hc]
  rfl

/-- An entry of a list gives a symbol just if it has a name. -/
theorem ofValue_symbol (defaultSource : Text) (v : Value) :
    (∃ s, Gives defaultSource (.ofValue v) s ∧ StandsFor defaultSource v s) ∨
    ((Entry.ofValue v).symbol? defaultSource = .ok none ∧ ∀ s, ¬ Names v s) := by
  cases v with
  | text s =>
    by_cases hs : s = []
    · exact .inr ⟨by rw [hs]; rfl, fun t ht => by cases ht; contradiction⟩
    · refine .inl ⟨⟨s, defaultSource⟩, ?_, .text hs, .text s⟩
      rw [Gives, Entry.ofValue, Entry.symbol?, if_neg (by simpa using hs)]
  | dict es =>
    by_cases hn : ∀ v ∈ Value.field? "name" es, v.isTruthy = false
    · refine .inr ⟨symbol_unnamed defaultSource hn, fun s hs => ?_⟩
      cases hs with
      | field hv ht =>
        rw [hn _ hv] at ht
        cases ht
    · obtain ⟨v, hv, ht⟩ : ∃ v, Value.field? "name" es = some v ∧ v.isTruthy = true := by
        simpa using hn
      obtain ⟨source, hs, hsource⟩ := sources_ofValue defaultSource es
      exact .inl ⟨⟨v.shown, source⟩, symbol_named hv ht hs, .field hv ht, hsource⟩
  | _ => exact .inr ⟨rfl, fun s hs => by cases hs⟩

theorem gives_ofValue {defaultSource : Text} {v : Value} {s : Symbol}
    (h : Gives defaultSource (.ofValue v) s) : StandsFor defaultSource v s := by
  rcases ofValue_symbol defaultSource v with ⟨t, ht, hn⟩ | ⟨hn, -⟩
  · rw [Gives, ht] at h
    cases h
    exact hn
  · rw [Gives, hn] at h
    cases h

/-! ## Places -/

/-- What is looked at in a mapping, in the order in which it is looked at. -/
inductive Spot where
  | name
  | collection (kind : SymbolKind)
  | entry (kind : SymbolKind) (index : ℕ)

namespace Spot

def part : SymbolKind → ℕ
  | .parameter => 1
  | .localVariable => 2

def address : Spot → ℕ × ℕ
  | name => (0, 0)
  | collection kind => (part kind, 0)
  | entry kind index => (part kind, index + 1)

def Before (a b : Spot) : Prop :=
  a.address.1 < b.address.1 ∨ a.address.1 = b.address.1 ∧ a.address.2 < b.address.2

end Spot

def items (kind : SymbolKind) (es : List (Value × Value)) : List Value :=
  match Value.field? (sectionName kind) es with
  | some (.list vs) => vs
  | _ => []

/-- A place where a mapping breaks a rule, with what is told about it. -/
inductive Violation (es : List (Value × Value)) : Spot → Text → Prop
  | noName : (∀ s, Value.field? "name" es = some (.text s) → s = []) →
      Violation es .name "missing function \x27name\x27"
  | notList {kind : SymbolKind} {v : Value} : Value.field? (sectionName kind) es = some v →
      (∀ vs, v ≠ .list vs) →
      Violation es (.collection kind) (quoted (sectionName kind) ++ " must be a list")
  | nameless {kind : SymbolKind} {index : ℕ} {v : Value} : (items kind es)[index]? = some v →
      (∀ s, ¬ Names v s) →
      Violation es (.entry kind index) ("entry " ++ Text.ofChars (Text.decimal index) ++ " of " ++
        quoted (sectionName kind) ++ " has no name")
  | repeated {kind : SymbolKind} {index earlier : ℕ} {v w : Value} {name owner : Text} :
      (items kind es)[index]? = some v → Names v name → earlier < index →
      (items kind es)[earlier]? = some w → Names w name →
      Value.field? "name" es = some (.text owner) →
      Violation es (.entry kind index) ("\x27" ++ name ++ "\x27 is already defined in " ++ owner)

structure Acceptable (es : List (Value × Value)) : Prop where
  name : ∃ s, s ≠ [] ∧ Value.field? "name" es = some (.text s)
  collections : ∀ kind, ∀ v ∈ Value.field? (sectionName kind) es, ∃ vs, v = .list vs
  entries : ∀ kind, ∃ names, List.Forall₂ Names (items kind es) names ∧ names.Nodup

structure Describes (es : List (Value × Value)) (defaultSource : Text) (f : Function) : Prop where
  name : Value.field? "name" es = some (.text f.name)
  symbols : ∀ kind, List.Forall₂ (StandsFor defaultSource) (items kind es) (f.symbols kind)

/-! ## Collections -/

section Collections
variable {es : List (Value × Value)} {kind : SymbolKind} {defaultSource text : Text}

theorem forall₂_at {α β : Type} {R : α → β → Prop} {as : List α} {bs : List β}
    (h : List.Forall₂ R as bs) {i : ℕ} {a : α} (ha : as[i]? = some a) :
    ∃ b, bs[i]? = some b ∧ R a b := by
  induction h generalizing i with
  | nil => cases ha
  | cons hr _ ih =>
    cases i with
    | zero =>
      cases ha
      exact ⟨_, rfl, hr⟩
    | succ i => exact ih ha

theorem Violation.lt_length {i : ℕ} (h : Violation es (.entry kind i) text) :
    i < (items kind es).length := by
  cases h with
  | nameless hv => exact (List.getElem?_eq_some_iff.mp hv).1
  | repeated hv => exact (List.getElem?_eq_some_iff.mp hv).1

/-- Entries under different names break no rule. -/
theorem entry_unviolated {before behind : List Value} {names : List Text}
    (hi : items kind es = before ++ behind) (hn : List.Forall₂ Names before names)
    (hd : names.Nodup) {i : ℕ} (hb : i < before.length) :
    ¬ Violation es (.entry kind i) text := by
  have hread {j : ℕ} {v : Value} (hj : j < before.length) (hv : (items kind es)[j]? = some v) :
      ∃ name, names[j]? = some name ∧ Names v name := by
    rw [hi, List.getElem?_append_left hj] at hv
    exact forall₂_at hn hv
  intro h
  cases h with
  | nameless hv hno =>
    obtain ⟨name, -, hname⟩ := hread hb hv
    exact hno name hname
  | @repeated _ _ j v w name owner hv hname hj hw hname' _ =>
    obtain ⟨s, hs, hsn⟩ := hread hb hv
    obtain ⟨t, ht, htn⟩ := hread (by omega) hw
    have hl : i < names.length := (List.getElem?_eq_some_iff.mp hs).1
    have he : names[i]? = names[j]? := by
      rw [hs, ht, names_unique hsn hname, names_unique hname' htn]
    have hij := (List.getElem?_inj hl hd).mp he
    omega

theorem part_injective {other : SymbolKind} (h : Spot.part other = Spot.part kind) :
    other = kind := by
  cases other <;> cases kind <;> first | rfl | cases h

/-- What the entries of a collection give, if it breaks no rule. -/
structure Reads (es : List (Value × Value)) (kind : SymbolKind) (defaultSource : Text)
    (ss : List Symbol) : Prop where
  collection : ∀ v ∈ Value.field? (sectionName kind) es, ∃ vs, v = .list vs
  symbols : List.Forall₂ (StandsFor defaultSource) (items kind es) ss
  distinct : (ss.map (·.name)).Nodup

theorem names_of_symbols {vs : List Value} {ss : List Symbol}
    (h : List.Forall₂ (StandsFor defaultSource) vs ss) :
    List.Forall₂ Names vs (ss.map (·.name)) :=
  List.forall₂_map_right_iff.mpr (h.imp fun _ _ hs => hs.1)

theorem collection_unviolated {names : List Text}
    (hc : ∀ v ∈ Value.field? (sectionName kind) es, ∃ vs, v = .list vs)
    (hn : List.Forall₂ Names (items kind es) names) (hd : names.Nodup) {spot : Spot}
    (hs : spot.address.1 = Spot.part kind) : ¬ Violation es spot text := by
  intro hv
  cases spot with
  | name => cases kind <;> cases hs
  | collection other =>
    obtain rfl := part_injective hs
    cases hv with
    | notList hv hno =>
      obtain ⟨vs, rfl⟩ := hc _ hv
      exact hno vs rfl
  | entry other i =>
    obtain rfl := part_injective hs
    exact entry_unviolated (List.append_nil _).symm hn hd hv.lt_length hv

/-- The first rule that a collection breaks, with what is told about it. -/
def Breaks (es : List (Value × Value)) (kind : SymbolKind) (x : Fault) : Prop :=
  ∃ spot text, x.message? = some text ∧ Violation es spot text ∧ spot.address.1 = Spot.part kind ∧
    ∀ earlier : Spot, earlier.address.1 = Spot.part kind → earlier.address.2 < spot.address.2 →
      ∀ other, ¬ Violation es earlier other

theorem items_of_list {vs : List Value}
    (h : Value.field? (sectionName kind) es = some (.list vs)) : items kind es = vs := by
  rw [items, h]

theorem breaks_notList {v : Value} (hv : Value.field? (sectionName kind) es = some v)
    (hn : ∀ vs, v ≠ .list vs) : Breaks es kind (.notList kind) := by
  refine ⟨.collection kind, _, rfl, .notList hv hn, rfl, ?_⟩
  intro earlier _ hlt
  cases hlt

/-- Behind entries that give symbols, an entry that stops the reading breaks a rule. -/
theorem breaks_entry {owner : Text} (ho : Value.field? "name" es = some (.text owner))
    {before behind : List Value} {v : Value} {ss : List Symbol} {x : Fault}
    (hl : Value.field? (sectionName kind) es = some (.list (before ++ v :: behind)))
    (hs : List.Forall₂ (StandsFor defaultSource) before ss)
    (hd : (ss.map (·.name)).Nodup)
    (hx : Stops defaultSource kind owner (ss.map (·.name)) before.length (.ofValue v) x) :
    Breaks es kind x := by
  have hi : items kind es = before ++ v :: behind := items_of_list hl
  have hv : (items kind es)[before.length]? = some v := by
    rw [hi, List.getElem?_append_right (Nat.le_refl _), Nat.sub_self]
    rfl
  have hfirst : ∀ earlier : Spot, earlier.address.1 = Spot.part kind →
      earlier.address.2 < before.length + 1 → ∀ other, ¬ Violation es earlier other := by
    intro earlier he hlt other h
    cases earlier with
    | name => cases kind <;> cases he
    | collection k =>
      obtain rfl := part_injective he
      cases h with
      | notList hv hn =>
        rw [hl] at hv
        cases hv
        exact hn _ rfl
    | entry k i =>
      obtain rfl := part_injective he
      exact entry_unviolated hi (names_of_symbols hs) hd (Nat.lt_of_succ_lt_succ hlt) h
  cases hx with
  | unreadable hx =>
    rcases ofValue_symbol defaultSource v with ⟨s, hg, -⟩ | ⟨hn, -⟩
    · rw [Gives, hx] at hg
      cases hg
    · rw [hx] at hn
      cases hn
  | nameless hn =>
    rcases ofValue_symbol defaultSource v with ⟨s, hg, -⟩ | ⟨-, hno⟩
    · rw [Gives, hn] at hg
      cases hg
    · exact ⟨.entry kind before.length, _, rfl, .nameless hv hno, rfl, hfirst⟩
  | @repeated s hg hm =>
    obtain ⟨j, hj⟩ := List.getElem?_of_mem hm
    rw [List.getElem?_map] at hj
    obtain ⟨t, ht, hts⟩ := Option.map_eq_some_iff.mp hj
    obtain ⟨w, hw, hn, -⟩ := forall₂_at hs.flip ht
    have hb : j < before.length := (List.getElem?_eq_some_iff.mp hw).1
    have hw : (items kind es)[j]? = some w := by rw [hi, List.getElem?_append_left hb, hw]
    rw [hts] at hn
    have hr : Violation es (.entry kind before.length) _ :=
      .repeated hv (gives_ofValue hg).1 hb hw hn ho
    exact ⟨.entry kind before.length, _, rfl, hr, rfl, hfirst⟩

theorem collection_ofEntries (es : List (Value × Value)) (kind : SymbolKind) :
    (Outline.ofEntries es).collection kind =
      .ofValue? (Value.field? (sectionName kind) es) := by
  cases kind <;> rfl

theorem ofValue?_notList {v : Value} (h : ∀ vs, v ≠ .list vs) :
    Section.ofValue? (some v) = .notList := by
  cases v with
  | list vs => exact absurd rfl (h vs)
  | _ => rfl

theorem withSymbols_self (f : Function) (kind : SymbolKind) :
    f.withSymbols kind (f.symbols kind) = f := by
  cases kind <;> rfl

theorem gives_map {vs : List Value} {ss : List Symbol}
    (h : List.Forall₂ (Gives defaultSource) (vs.map .ofValue) ss) :
    List.Forall₂ (StandsFor defaultSource) vs ss :=
  (List.forall₂_map_left_iff.mp h).imp fun _ _ => gives_ofValue

/-- A collection gives its symbols, or the first rule that it breaks is told. -/
theorem addSection_cases (kind : SymbolKind) (defaultSource : Text) {f : Function}
    (hf : f.symbols kind = []) (ho : Value.field? "name" es = some (.text f.name)) :
    (∃ ss, Reads es kind defaultSource ss ∧
      addSection (.ofEntries es) defaultSource f kind = .ok (f.withSymbols kind ss)) ∨
    ∃ x, Breaks es kind x ∧ addSection (.ofEntries es) defaultSource f kind = .error x := by
  rw [addSection, collection_ofEntries]
  cases hc : Value.field? (sectionName kind) es with
  | none =>
    refine .inl ⟨[], ⟨by simp [hc], ?_, List.nodup_nil⟩, ?_⟩
    · rw [items, hc]
      exact .nil
    · rw [← hf, withSymbols_self]
      rfl
  | some v =>
    by_cases hl : ∃ vs, v = .list vs
    · obtain ⟨vs, rfl⟩ := hl
      have hnames : f.names kind = [] := by rw [Function.names, hf]; rfl
      have hd : (f.names kind).Nodup := by rw [hnames]; exact List.nodup_nil
      rcases addEntries_cases defaultSource (vs.map .ofValue) hd 0 with
        ⟨ss, hss, hd, hr⟩ | ⟨before, e, behind, ss, x, he, hss, hd, hx, hr⟩
      · rw [hnames] at hd
        rw [hf] at hr
        refine .inl ⟨ss, ⟨by simp [hc], ?_, hd⟩, hr⟩
        rw [items_of_list hc]
        exact gives_map hss
      · obtain ⟨vs, ws, rfl, rfl, hws⟩ := List.map_eq_append_iff.mp he
        obtain ⟨v, ws, rfl, rfl, rfl⟩ := List.map_eq_cons_iff.mp hws
        rw [hnames, List.length_map, Nat.zero_add] at hx
        rw [hnames] at hd
        exact .inr ⟨x, breaks_entry ho hc (gives_map hss) hd hx, hr⟩
    · have hn : ∀ vs, v ≠ .list vs := fun vs he => hl ⟨vs, he⟩
      refine .inr ⟨_, breaks_notList hc hn, ?_⟩
      rw [ofValue?_notList hn]

end Collections

/-! ## Mappings -/

section Mappings
variable {es : List (Value × Value)} {defaultSource : Text}

theorem name_cases (es : List (Value × Value)) :
    (∃ s, s ≠ [] ∧ Value.field? "name" es = some (.text s)) ∨
      ∀ s, Value.field? "name" es = some (.text s) → s = [] := by
  by_cases h : ∃ s, s ≠ [] ∧ Value.field? "name" es = some (.text s)
  · exact .inl h
  · exact .inr fun s hs => by_contra fun hn => h ⟨s, hn, hs⟩

theorem toFunction_unnamed (h : ∀ s, Value.field? "name" es = some (.text s) → s = []) :
    toFunction es defaultSource = .error .noName := by
  have hn : (Outline.ofEntries es).name? = none ∨ (Outline.ofEntries es).name? = some [] := by
    change nameOf? _ = none ∨ nameOf? _ = some []
    rw [nameOf?.eq_def]
    split
    · next s hs => exact .inr (congrArg some (h s hs))
    · exact .inl rfl
  rw [toFunction, Outline.toFunction]
  rcases hn with hn | hn
  · rw [hn]
  · rw [hn]
    rfl

theorem toFunction_named {name : Text} (hn : name ≠ [])
    (h : Value.field? "name" es = some (.text name)) :
    toFunction es defaultSource =
      addSection (.ofEntries es) defaultSource (.empty name) .parameter >>= fun f =>
        addSection (.ofEntries es) defaultSource f .localVariable := by
  have ho : (Outline.ofEntries es).name? = some name := by
    change nameOf? _ = _
    rw [h]
    rfl
  rw [toFunction, Outline.toFunction, ho]
  dsimp only
  rw [if_neg (by simpa using hn), List.foldlM_cons]
  congr 1
  funext f
  rw [List.foldlM_cons]
  exact bind_pure _

theorem named_unviolated {name text : Text} (hn : name ≠ [])
    (h : Value.field? "name" es = some (.text name)) : ¬ Violation es .name text := by
  intro hv
  cases hv with
  | noName hv => exact hn (hv name h)

def FirstViolation (es : List (Value × Value)) (spot : Spot) (text : Text) : Prop :=
  Violation es spot text ∧
    ∀ earlier : Spot, earlier.Before spot → ∀ other, ¬ Violation es earlier other

theorem Breaks.first {kind : SymbolKind} {x : Fault} (h : Breaks es kind x)
    (hb : ∀ earlier : Spot, earlier.address.1 < Spot.part kind →
      ∀ other, ¬ Violation es earlier other) :
    ∃ spot text, x.message? = some text ∧ FirstViolation es spot text := by
  obtain ⟨spot, text, hm, hv, hs, hf⟩ := h
  refine ⟨spot, text, hm, hv, fun earlier he => ?_⟩
  rcases he with hlt | ⟨heq, hlt⟩
  · exact hb earlier (hs ▸ hlt)
  · exact hf earlier (heq.trans hs) hlt

theorem Acceptable.unviolated (h : Acceptable es) (spot : Spot) (text : Text) :
    ¬ Violation es spot text := by
  have hpart (kind : SymbolKind) (hs : spot.address.1 = Spot.part kind) :
      ¬ Violation es spot text := by
    obtain ⟨names, hn, hd⟩ := h.entries kind
    exact collection_unviolated (h.collections kind) hn hd hs
  cases spot with
  | name =>
    obtain ⟨name, hn, hname⟩ := h.name
    exact named_unviolated hn hname
  | collection kind => exact hpart kind rfl
  | entry kind index => exact hpart kind rfl

/-- A mapping describes a function, or the first rule that it breaks is told. -/
theorem toFunction_cases (es : List (Value × Value)) (defaultSource : Text) :
    (∃ f, toFunction es defaultSource = .ok f ∧ Acceptable es ∧ Describes es defaultSource f) ∨
    ∃ x spot text, toFunction es defaultSource = .error x ∧ x.message? = some text ∧
      FirstViolation es spot text := by
  rcases name_cases es with ⟨name, hn, h⟩ | h
  · have hname : ∀ earlier : Spot, earlier.address.1 = 0 →
        ∀ other, ¬ Violation es earlier other := by
      intro earlier he other
      cases earlier with
      | name => exact named_unviolated hn h
      | collection kind => cases kind <;> cases he
      | entry kind i => cases kind <;> cases he
    rw [toFunction_named hn h]
    rcases addSection_cases .parameter defaultSource (f := .empty name) rfl h with
      ⟨ps, hps, hp⟩ | ⟨x, hx, hp⟩
    · rw [hp]
      rcases addSection_cases .localVariable defaultSource
        (f := (Function.empty name).withSymbols .parameter ps) rfl h with
        ⟨ls, hls, hl⟩ | ⟨x, hx, hl⟩
      · refine .inl ⟨_, hl, ⟨⟨name, hn, h⟩, ?_, ?_⟩, ⟨h, ?_⟩⟩
        · rintro (_ | _)
          · exact hls.collection
          · exact hps.collection
        · rintro (_ | _)
          · exact ⟨_, names_of_symbols hls.symbols, hls.distinct⟩
          · exact ⟨_, names_of_symbols hps.symbols, hps.distinct⟩
        · rintro (_ | _)
          · exact hls.symbols
          · exact hps.symbols
      · have hearlier : ∀ earlier : Spot, earlier.address.1 < Spot.part .localVariable →
            ∀ other, ¬ Violation es earlier other := by
          intro earlier he other
          rcases Nat.lt_succ_iff_lt_or_eq.mp he with hz | hp
          · exact hname earlier (Nat.lt_one_iff.mp hz) other
          · exact collection_unviolated hps.collection (names_of_symbols hps.symbols)
              hps.distinct hp
        obtain ⟨spot, text, hm, hf⟩ := hx.first hearlier
        exact .inr ⟨x, spot, text, hl, hm, hf⟩
    · obtain ⟨spot, text, hm, hf⟩ :=
        hx.first fun earlier he => hname earlier (Nat.lt_one_iff.mp he)
      exact .inr ⟨x, spot, text, by rw [hp]; rfl, hm, hf⟩
  · refine .inr ⟨.noName, .name, _, toFunction_unnamed h, rfl, .noName h, fun earlier he => ?_⟩
    rcases he with he | ⟨-, he⟩ <;> cases he

/-- Which mappings describe a function, which function that is, and what is told of any other: the
first rule that it breaks, in a fault of the document that always has a wording. -/
theorem toFunction_judges (es : List (Value × Value)) (defaultSource : Text) :
    ((∃ f, toFunction es defaultSource = .ok f) ↔ Acceptable es) ∧
    match toFunction es defaultSource with
    | .ok f => Describes es defaultSource f
    | .error x => ∃ spot text, x.message? = some text ∧ FirstViolation es spot text := by
  rcases toFunction_cases es defaultSource with ⟨f, hf, ha, hd⟩ | ⟨x, spot, text, hx, hm, hv⟩
  · rw [hf]
    exact ⟨iff_of_true ⟨f, rfl⟩ ha, hd⟩
  · rw [hx]
    refine ⟨iff_of_false ?_ fun ha => ha.unviolated spot text hv.1, spot, text, hm, hv⟩
    rintro ⟨f, hf⟩
    cases hf

/-- A number and a text under one name: the name is told, not the list that is none behind it. -/
example :
    toFunction [(.text "name", .text "f"),
      (.text "parameters", .list [.text "7", .dict [(.text "name", .int 7)]]),
      (.text "locals", .null)] [] = .error (.refused (.taken "7" "f")) := rfl

end Mappings
end SymbolRename.Document
