import SymbolRename.Message.Key
import SymbolRename.Proofs.Message.Leaves
import SymbolRename.Proofs.Task
import SymbolRename.Proofs.Text.Lines

/-!
# Keys and texts as addresses

A key is equal to a text if it is written that way and to another key if both have the same parts.
This comes to the same as long as no part has a dot in it. Keys whose dots stand within parts here
and between them there are written alike and hashed alike, and each is equal to that text, but they
are not equal: what is equal to both does not make them so, and a table has room for both. Nothing
else keeps addresses from being told apart by their texts alone.
-/

set_option autoImplicit false

namespace SymbolRename.Message

namespace Key

/-- A key made of some parts, and of names that were taken one after another. -/
def Reached (k : Key) : Prop :=
  ∃ parts names, follow (.key (ofParts parts)) names = .ok (.key k)

theorem ofParts_nonempty {parts : List Text} (h : [] ∉ parts) : (ofParts parts).parts = parts := by
  rw [ofParts, List.filter_eq_self]
  intro part hp
  cases part with
  | nil => exact absurd hp h
  | cons => rfl

theorem nonempty_ofParts (parts : List Text) : [] ∉ (ofParts parts).parts := by
  simp [ofParts]

/-- A name that leads to a key leads to one without empty parts. -/
theorem member_nonempty {k k' : Key} {name : Text} (h : k.member name = .ok (.key k')) :
    [] ∉ k'.parts := by
  rw [member] at h
  split at h
  · cases h
  · split at h
    · cases h
    · cases h
      exact nonempty_ofParts _

theorem follow_nonempty {names : List Text} {k k' : Key} (hk : [] ∉ k.parts)
    (h : follow (.key k) names = .ok (.key k')) : [] ∉ k'.parts := by
  induction names generalizing k with
  | nil =>
    cases h
    exact hk
  | cons name names ih =>
    rw [follow] at h
    obtain ⟨step, hm, h⟩ := bind_eq_ok h
    cases step with
    | key next => exact ih (member_nonempty hm) h
    | parts ps => cases names <;> cases h

theorem reached_iff {k : Key} : k.Reached ↔ [] ∉ k.parts := by
  constructor
  · rintro ⟨parts, names, h⟩
    exact follow_nonempty (nonempty_ofParts parts) h
  · intro h
    refine ⟨k.parts, [], ?_⟩
    rw [follow, show ofParts k.parts = k from congrArg Key.mk (ofParts_nonempty h)]

/-- What stands between the dots of a key, wherever its parts end. -/
def names (k : Key) : List Text := k.parts.flatMap (Text.splitAt '.')

theorem splitAt_text {k : Key} (h : k.parts ≠ []) : Text.splitAt '.' k.text = k.names :=
  Text.splitAt_joined _ h

theorem text_eq_nil {k : Key} (hk : k.Reached) : k.text = [] ↔ k.parts = [] := by
  rw [reached_iff] at hk
  rw [text]
  cases hp : k.parts with
  | nil => simp [Text.joined]
  | cons p ps =>
    have hn : p ≠ [] := by
      rintro rfl
      exact hk (hp ▸ List.mem_cons_self)
    simp [joined_ne_nil hn]

theorem names_eq_nil {k : Key} : k.names = [] ↔ k.parts = [] := by
  have hs (s : Text) : Text.splitAt '.' s ≠ [] :=
    Text.splitAt_eq '.' s ▸ List.splitOn_ne_nil _ s
  cases hp : k.parts <;> simp [names, hp, hs]

/-- Keys are written alike if the same names stand between their dots. -/
theorem text_eq_iff {a b : Key} (ha : a.Reached) (hb : b.Reached) :
    a.text = b.text ↔ a.names = b.names := by
  -- The empty text has one piece, but a key without parts has no names.
  by_cases hna : a.parts = []
  · rw [(text_eq_nil ha).mpr hna, names_eq_nil.mpr hna, eq_comm, text_eq_nil hb, ← names_eq_nil,
      eq_comm]
  · by_cases hnb : b.parts = []
    · rw [(text_eq_nil hb).mpr hnb, names_eq_nil.mpr hnb, text_eq_nil ha, names_eq_nil]
    · rw [← splitAt_text hna, ← splitAt_text hnb]
      exact ⟨congrArg _, Text.splitAt_injective _⟩

def Undotted (k : Key) : Prop := ∀ part ∈ k.parts, Code.char '.' ∉ part

theorem Undotted.names_eq {k : Key} (h : k.Undotted) : k.names = k.parts := by
  rw [names, List.flatMap_congr fun part hp => Text.splitAt_single _ (h part hp)]
  simp

end Key

namespace Address

/-- What messages are addressed by: keys that can be reached, and texts. -/
inductive Spoken : Address → Prop where
  | key {k : Key} (h : k.Reached) : Spoken (key k)
  | text (s : Text) : Spoken (value (.text s))

/-- Two keys with the same names between their dots, but not the same parts. -/
def Clash : Address → Address → Prop
  | key a, key b => a.names = b.names ∧ a.parts ≠ b.parts
  | _, _ => False

def Undotted : Address → Prop
  | key k => k.Undotted
  | value _ => True

theorem Undotted.not_clash {p q : Address} (hp : p.Undotted) (hq : q.Undotted) : ¬ Clash p q := by
  cases p <;> cases q
  case key.key a b =>
    rintro ⟨hn, hd⟩
    exact hd (by rw [← hp.names_eq, ← hq.names_eq, hn])
  all_goals exact id

variable {p q r : Address}

theorem not_clash_self (p : Address) : ¬ Clash p p := by
  cases p with
  | key k => exact fun h => h.2 rfl
  | value v => exact id

theorem same_iff (hp : Spoken p) (hq : Spoken q) :
    p.same q ↔ p.text = q.text ∧ ¬ Clash p q := by
  -- Only two keys are not compared by their texts.
  cases hp with
  | key ha =>
    cases hq with
    | key hb =>
      rw [same, decide_eq_true_iff, text, text, Key.text_eq_iff ha hb, Clash]
      constructor
      · intro h
        exact ⟨by rw [Key.names, Key.names, h], fun hc => hc.2 h⟩
      · rintro ⟨hn, hc⟩
        exact not_not.mp fun hd => hc ⟨hn, hd⟩
    | text s => simp [same, Clash]
  | text s => cases hq <;> simp [same, Clash]

theorem hashText?_eq (hp : Spoken p) : p.hashText? = some p.text := by
  cases hp <;> rfl

theorem same_comm (p q : Address) : p.same q = q.same p := by
  cases p <;> cases q <;> simp [same, eq_comm]

instance : BEq Address := ⟨same⟩

theorem text_beq (hp : Spoken p) (hq : Spoken q) (hc : ¬ Clash p q) :
    (p.text == q.text) = (p == q) := by
  rw [Bool.eq_iff_iff, beq_iff_eq]
  exact ⟨fun h => (same_iff hp hq).mpr ⟨h, hc⟩, fun h => ((same_iff hp hq).mp h).1⟩

section Tables
variable {ν : Type} {new : List (Address × ν)} (hnew : ∀ e ∈ new, Spoken e.1)
include hnew

theorem map_ofList (hclash : ∀ d ∈ new, ∀ e ∈ new, ¬ Clash d.1 e.1) :
    (Entries.ofList new).map (Prod.map text id) =
      Entries.ofList (new.map (Prod.map text id)) := by
  refine Entries.putAll_renamed (P := fun a => a ∈ new.map (·.1)) (fun a b ha hb => ?_)
    (fun _ he => nomatch he) fun e he => List.mem_map_of_mem he
  obtain ⟨d, hd, rfl⟩ := List.mem_map.mp ha
  obtain ⟨e, he, rfl⟩ := List.mem_map.mp hb
  exact text_beq (hnew d hd) (hnew e he) (hclash d hd e he)

theorem get?_ofList (hclash : ∀ d ∈ new, ∀ e ∈ new, ¬ Clash d.1 e.1) (hp : Spoken p)
    (hfree : ∀ e ∈ new, ¬ Clash e.1 p) :
    Entries.get? p (Entries.ofList new) =
      Entries.last? p.text (new.map (Prod.map text id)) := by
  have htold : ∀ e ∈ Entries.ofList new, (e.1.text == p.text) = (e.1 == p) := by
    intro e he
    obtain ⟨d, hd, hde⟩ := List.mem_map.mp (Entries.mem_ofList (List.mem_map_of_mem he))
    rw [← hde]
    exact text_beq (hnew d hd) hp (hfree d hd)
  rw [← Entries.get?_renamed htold, map_ofList hnew hclash, Entries.get?_ofList]

end Tables

/-- Addresses are equal if they have the same text, unless they are keys with the same names between
their dots and different parts, which takes a dot within a part. So equality is reflexive and
symmetric, equal addresses have equal hashes, and what is equal to the same address is equal if it
does not clash. A table of addresses of which no two clash is the table of their texts, and finds
what is looked up under any spelling that does not clash with them. -/
theorem same_unless_clash {ν : Type} (hp : Spoken p) (hq : Spoken q) (hr : Spoken r)
    {new : List (Address × ν)} (hnew : ∀ e ∈ new, Spoken e.1) :
    (p.same q ↔ p.text = q.text ∧ ¬ Clash p q) ∧
    (p.Undotted → q.Undotted → ¬ Clash p q) ∧
    p.same p ∧ p.same q = q.same p ∧
    (p.same q → q.same r → (p.same r ↔ ¬ Clash p r)) ∧
    (p.same q → p.hashText? = q.hashText?) ∧
    ((∀ d ∈ new, ∀ e ∈ new, ¬ Clash d.1 e.1) →
      (Entries.ofList new).map (Prod.map text id) =
        Entries.ofList (new.map (Prod.map text id)) ∧
      ((∀ e ∈ new, ¬ Clash e.1 p) → Entries.get? p (Entries.ofList new) =
        Entries.last? p.text (new.map (Prod.map text id)))) := by
  refine ⟨same_iff hp hq, Undotted.not_clash, ?_, same_comm p q, fun hpq hqr => ?_, fun h => ?_,
    fun hclash => ⟨map_ofList hnew hclash, get?_ofList hnew hclash hp⟩⟩
  · exact (same_iff hp hp).mpr ⟨rfl, not_clash_self p⟩
  · have ht : p.text = r.text :=
      ((same_iff hp hq).mp hpq).1.trans ((same_iff hq hr).mp hqr).1
    rw [same_iff hp hr]
    exact and_iff_right ht
  · rw [hashText?_eq hp, hashText?_eq hq, ((same_iff hp hq).mp h).1]

def dottedName : Key := .ofParts ["a.b"]

def twoNames : Key := .ofParts ["a", "b"]

def spellings : List (Address × Nat) := [(key twoNames, 1), (value (.text "a.b"), 2)]

theorem dottedName_reached : dottedName.Reached := Key.reached_iff.mpr (by decide)

theorem twoNames_reached : twoNames.Reached := Key.reached_iff.mpr (by decide)

theorem same_unless_clash_spellings :
    Spoken (key dottedName) ∧ Spoken (value (.text "a.b")) ∧ Spoken (key twoNames) ∧
    (key dottedName).same (value (.text "a.b")) ∧ (value (.text "a.b")).same (key twoNames) ∧
    Clash (key dottedName) (key twoNames) ∧ ¬ (key dottedName).same (key twoNames) ∧
    (Entries.ofList spellings).map (Prod.map text id) = [(("a.b" : Text), 2)] ∧
    Entries.get? (key twoNames) (Entries.ofList spellings) = some 2 := by
  have hd := Spoken.key dottedName_reached
  have ht := Spoken.text "a.b"
  have hn := Spoken.key twoNames_reached
  have hspoken : ∀ e ∈ spellings, Spoken e.1 := by simpa [spellings] using ⟨hn, ht⟩
  have hclash : Clash (key dottedName) (key twoNames) := ⟨by decide, by decide⟩
  obtain ⟨-, -, -, -, htrans, -, -⟩ := same_unless_clash hd ht hn hspoken
  obtain ⟨-, -, -, -, -, -, htable⟩ := same_unless_clash hn hn hn hspoken
  have hfree : ∀ e ∈ spellings, ∀ d ∈ spellings, ¬ Clash e.1 d.1 := by
    simp [spellings, Clash]
  obtain ⟨htold, hget⟩ := htable hfree
  refine ⟨hd, ht, hn, by decide, by decide, hclash, ?_, ?_, ?_⟩
  · exact fun h => (htrans (by decide) (by decide)).mp h hclash
  · rw [htold]
    decide
  · rw [hget (by simp [spellings, Clash])]
    decide

/-- The same text and the same hash, and equal to the same text, but not equal; so a table keeps
both. -/
theorem same_not_transitive :
    dottedName.Reached ∧ twoNames.Reached ∧
    (key dottedName).text = (key twoNames).text ∧
    (key dottedName).hashText? = (key twoNames).hashText? ∧
    (key dottedName).same (value (.text "a.b")) ∧ (value (.text "a.b")).same (key twoNames) ∧
    ¬ (key dottedName).same (key twoNames) ∧
    (Entries.ofList [(key dottedName, 1), (key twoNames, 2)]).map (Prod.map text id) =
      [(("a.b" : Text), 1), (("a.b" : Text), 2)] :=
  ⟨dottedName_reached, twoNames_reached, by decide, by decide, by decide, by decide, by decide,
    by decide⟩

end Address
end SymbolRename.Message
