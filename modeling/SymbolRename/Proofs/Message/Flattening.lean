import SymbolRename.Proofs.Message.Leaves
import Mathlib.Logic.Relation

/-!
# Nested and dotted spellings

A nested object says the same as its entries with its key and a dot in front of theirs, at any
depth: the table of a mapping is made of its leaves, put in one after another under the keys that
lead to them. So objects can be taken apart, once or throughout, as long as the new keys are not
there yet, and a table is its own table.
-/

set_option autoImplicit false

namespace SymbolRename.Message
open Entries (Distinct last? putAll_ofList putAll_renamed)

/-- Nested entries under texts. None of these is empty, and no two on one level are the same. -/
inductive Mapping : List (Value × Value) → Prop where
  | of {es : List (Value × Value)} (distinct : Distinct es)
      (named : ∀ e ∈ es, ∃ key : Text, key ≠ [] ∧ e.1 = .text key)
      (nested : ∀ e ∈ es, ∀ inner, e.2 = .dict inner → Mapping inner) : Mapping es

namespace Mapping
variable {es : List (Value × Value)}

theorem distinct (h : Mapping es) : Distinct es := by
  cases h
  assumption

theorem named (h : Mapping es) : ∀ e ∈ es, ∃ key : Text, key ≠ [] ∧ e.1 = .text key := by
  cases h
  assumption

theorem nested (h : Mapping es) : ∀ e ∈ es, ∀ inner, e.2 = .dict inner → Mapping inner := by
  cases h
  assumption

theorem of_keys (keys : List Text) (he : es.map (·.1) = keys.map Value.text) (hd : keys.Nodup)
    (hn : [] ∉ keys) (hv : ∀ e ∈ es, ∀ inner, e.2 = .dict inner → Mapping inner) :
    Mapping es := by
  refine .of ?_ (fun e hm => ?_) hv
  · rw [Distinct, he]
    exact hd.map fun _ _ => Value.text.inj
  · have hk : e.1 ∈ keys.map Value.text := he ▸ List.mem_map_of_mem hm
    obtain ⟨key, hk, hkey⟩ := List.mem_map.mp hk
    exact ⟨key, fun h => hn (h ▸ hk), hkey.symm⟩

theorem tail {e : Value × Value} (h : Mapping (e :: es)) : Mapping es :=
  .of (List.nodup_cons.mp h.distinct).2 (List.forall_mem_cons.mp h.named).2
    (List.forall_mem_cons.mp h.nested).2

theorem perm {other : List (Value × Value)} (h : Mapping es) (hp : es.Perm other) :
    Mapping other :=
  .of ((hp.map _).nodup_iff.mp h.distinct) (fun e he => h.named e (hp.mem_iff.mpr he))
    fun e he => h.nested e (hp.mem_iff.mpr he)

theorem append {more : List (Value × Value)} (h : Mapping es) (hm : Mapping more)
    (hd : ∀ e ∈ es, e.1 ∉ more.map (·.1)) : Mapping (es ++ more) := by
  refine .of ?_ (List.forall_mem_append.mpr ⟨h.named, hm.named⟩)
    (List.forall_mem_append.mpr ⟨h.nested, hm.nested⟩)
  rw [Distinct, List.map_append]
  refine h.distinct.append hm.distinct fun key hk => ?_
  obtain ⟨e, he, rfl⟩ := List.mem_map.mp hk
  exact hd e he

/-- Another object in the place of one of its objects. -/
theorem exchange {key : Value} {inner other : List (Value × Value)}
    (h : Mapping ((key, .dict inner) :: es)) (ho : Mapping other) :
    Mapping ((key, .dict other) :: es) := by
  have hnamed := List.forall_mem_cons.mp h.named
  refine .of h.distinct (List.forall_mem_cons.mpr hnamed) ?_
  refine List.forall_mem_cons.mpr ⟨fun deeper he => ?_, h.tail.nested⟩
  cases he
  exact ho

end Mapping

/-! ## Leaves of a mapping -/

def Leading (path : List Text) : Prop := path ≠ [] ∧ [] ∉ path

mutual

theorem leaves_leading {path : List Text} (hp : [] ∉ path) : (es : List (Value × Value)) →
    Mapping es → ∀ l ∈ leaves path es, Leading l.1
  | [], _ => by
    rw [leaves]
    exact fun l hl => nomatch hl
  | (k, v) :: es, h => by
    obtain ⟨key, hk, he⟩ := h.named (k, v) List.mem_cons_self
    have hlead : Leading (path ++ [k.shown]) := by
      have hs : k.shown = key := congrArg Value.shown he
      rw [hs]
      exact ⟨by simp, by simp [hp, Ne.symm hk]⟩
    have hv := h.nested (k, v) List.mem_cons_self
    rw [leaves]
    exact List.forall_mem_append.mpr ⟨leavesOf_leading hlead v hv, leaves_leading hp es h.tail⟩

theorem leavesOf_leading {path : List Text} (hp : Leading path) : (v : Value) →
    (∀ inner, v = .dict inner → Mapping inner) → ∀ l ∈ leavesOf path v, Leading l.1
  | .dict es, h => by
    rw [leavesOf]
    exact leaves_leading hp.2 es (h es rfl)
  | .null, _ | .bool _, _ | .int _, _ | .float _, _ | .text _, _ | .bytes _, _ | .list _, _
  | .tuple _, _ | .set _, _ | .date _, _ | .time _, _ | .dateTime _, _ => by
    rw [leavesOf]
    · exact List.forall_mem_singleton.mpr hp
    · exact fun _ he => nomatch he

end

theorem address_leading {path : List Text} (h : Leading path) :
    address path = Text.joined "." path ∧ address path ≠ [] := by
  obtain ⟨hn, hp⟩ := h
  rw [address_eq hp]
  obtain ⟨k, ks, rfl⟩ := List.exists_cons_of_ne_nil hn
  exact ⟨rfl, joined_ne_nil (fun hk => hp (hk ▸ List.mem_cons_self)) _ _⟩

/-! ## Dotted keys -/

theorem dotted_injective (lead : Text) {a b : Text}
    (h : dotted lead (.text a) = dotted lead (.text b)) : a = b := by
  rw [dotted, dotted] at h
  split at h
  · exact h
  · exact List.append_cancel_left h

theorem dotted_ne_nil {lead : Text} (h : lead ≠ []) (key : Value) : dotted lead key ≠ [] := by
  rw [dotted, if_neg (by simpa using h)]
  simp [h]

/-- It makes no difference which of two dots is put first. -/
theorem dotted_dotted {key : Text} (h : key ≠ []) (lead : Text) (k : Value) :
    dotted (dotted lead (.text key)) k = dotted lead (.text (dotted key k)) := by
  have hk : key.isEmpty = false := by simpa using h
  cases lead with
  | nil => rfl
  | cons c lead =>
    have hl : dotted (c :: lead) (.text key) = c :: lead ++ "." ++ key := rfl
    rw [hl, dotted, dotted, dotted, hk]
    simp [Value.shown]

/-! ## Tables of parts -/

theorem flattenInto_append (table : Table) (lead : Text) (es more : List (Value × Value)) :
    flattenInto table lead (es ++ more) = flattenInto (flattenInto table lead es) lead more := by
  induction es generalizing table with
  | nil =>
    rw [flattenInto]
    rfl
  | cons e es ih => rw [List.cons_append, flattenInto, ih, flattenInto]

/-- The table of a dictionary need not be made before its entries are added. -/
theorem addFlat_dict (table : Table) (key : Text) (inner : List (Value × Value)) :
    addFlat table key (.dict inner) = flattenInto table key inner := by
  rw [addFlat, ← address_singleton key, flattenInto_eq, flattenInto_eq]
  exact putAll_ofList _ _

def spread (key : Text) (inner : List (Value × Value)) : List (Value × Value) :=
  inner.map fun e => (.text (dotted key e.1), e.2)

theorem flattenInto_spread {key : Text} (h : key ≠ []) (table : Table) (lead : Text)
    (inner : List (Value × Value)) :
    flattenInto table lead (spread key inner) =
      flattenInto table (dotted lead (.text key)) inner := by
  induction inner generalizing table with
  | nil => rw [spread, List.map_nil, flattenInto, flattenInto]
  | cons e inner ih => rw [spread, List.map_cons, flattenInto, ← spread, ih, ← dotted_dotted h,
      flattenInto]

def asEntries (table : Table) : List (Value × Value) :=
  table.map fun e => (.text e.1, .text e.2)

theorem flattenInto_asEntries (table : Table) (lead : Text) (new : Table) :
    flattenInto table lead (asEntries new) =
      Entries.putAll table (new.map (Prod.map (fun key => dotted lead (.text key)) id)) := by
  induction new generalizing table with
  | nil =>
    rw [asEntries, List.map_nil, flattenInto]
    rfl
  | cons e new ih =>
    rw [asEntries, List.map_cons, flattenInto, ← asEntries, ih, addFlat]
    · rfl
    · exact fun _ he => nomatch he

section Moved
variable {lead : Text}

/-- Keys that lead to a place, and what they become behind a lead. -/
def Moves (lead : Text) (path moved : List Text) : Prop :=
  address path ≠ [] ∧ address moved = dotted lead (.text (address path))

theorem Moves.step {path moved : List Text} (h : Moves lead path moved) (key : Value) :
    Moves lead (path ++ [key.shown]) (moved ++ [key.shown]) := by
  obtain ⟨hn, hm⟩ := h
  refine ⟨?_, ?_⟩
  · rw [← dotted_address]
    exact dotted_ne_nil hn key
  · rw [← dotted_address, ← dotted_address, hm, dotted_dotted hn]

mutual

theorem leaves_moved {path moved : List Text} (h : Moves lead path moved) :
    (es : List (Value × Value)) → addressed (leaves moved es) =
      (addressed (leaves path es)).map (Prod.map (fun key => dotted lead (.text key)) id)
  | [] => by
    rw [leaves, leaves]
    rfl
  | (k, v) :: es => by
    rw [leaves, leaves, addressed, addressed, List.map_append, List.map_append, List.map_append]
    exact congrArg₂ (· ++ ·) (leavesOf_moved (h.step k) v) (leaves_moved h es)

theorem leavesOf_moved {path moved : List Text} (h : Moves lead path moved) :
    (v : Value) → addressed (leavesOf moved v) =
      (addressed (leavesOf path v)).map (Prod.map (fun key => dotted lead (.text key)) id)
  | .dict es => by
    rw [leavesOf, leavesOf]
    exact leaves_moved h es
  | .null | .bool _ | .int _ | .float _ | .text _ | .bytes _ | .list _ | .tuple _ | .set _
  | .date _ | .time _ | .dateTime _ => by
    rw [leavesOf, leavesOf]
    · exact congrArg (fun key => [(key, _)]) h.2
    · exact fun _ he => nomatch he
    · exact fun _ he => nomatch he

end

end Moved

theorem flattenInto_throughout {key : Text} (h : key ≠ []) (table : Table) (lead : Text)
    (inner : List (Value × Value)) :
    flattenInto table lead (asEntries (flatten key inner)) =
      flattenInto table (dotted lead (.text key)) inner := by
  have hmoves : Moves lead [key] [dotted lead (.text key)] := by
    rw [Moves, address_singleton, address_singleton]
    exact ⟨h, rfl⟩
  have htold (a b : Text) :
      (dotted lead (.text a) == dotted lead (.text b)) = (a == b) := by
    rw [Bool.eq_iff_iff, beq_iff_eq, beq_iff_eq]
    exact ⟨dotted_injective lead, fun he => he ▸ rfl⟩
  have hkey : flatten key inner = Entries.putAll [] (addressed (leaves [key] inner)) := by
    rw [flatten, ← flattenInto_eq, address_singleton]
  have hrenamed :
      (Entries.putAll [] (addressed (leaves [key] inner))).map _ = Entries.putAll [] _ :=
    putAll_renamed (P := fun _ => True) (fun a b _ _ => htold a b) (fun _ _ => trivial)
      fun _ _ => trivial
  rw [flattenInto_asEntries, hkey, hrenamed, ← leaves_moved hmoves]
  calc Entries.putAll table (Entries.ofList (addressed (leaves [dotted lead (.text key)] inner)))
      = Entries.putAll table (addressed (leaves [dotted lead (.text key)] inner)) :=
        putAll_ofList _ _
    _ = flattenInto table (dotted lead (.text key)) inner := by
        rw [← flattenInto_eq, address_singleton]

/-! ## Other spellings -/

/-- The dotted entries of a nested object: with one dot, where its own objects stay as they are, or
down to its leaves. -/
inductive Dots (key : Text) (inner : List (Value × Value)) : List (Value × Value) → Prop where
  | once : Dots key inner (spread key inner)
  | throughout : Dots key inner (asEntries (flatten key inner))

/-- Somewhere a nested object has given place to its dotted entries, whose keys were not there. -/
inductive Respelled : List (Value × Value) → List (Value × Value) → Prop where
  | here {before behind new inner : List (Value × Value)} {key : Text} (dots : Dots key inner new)
      (fresh : ∀ e ∈ new, e.1 ∉ (before ++ behind).map (·.1)) :
      Respelled (before ++ (.text key, .dict inner) :: behind) (before ++ (new ++ behind))
  | inside {before behind inner other : List (Value × Value)} {key : Value}
      (h : Respelled inner other) :
      Respelled (before ++ (key, .dict inner) :: behind) (before ++ (key, .dict other) :: behind)

theorem Dots.flattenInto_eq {key : Text} {inner new : List (Value × Value)}
    (hd : Dots key inner new) (h : key ≠ []) (table : Table) (lead : Text) :
    flattenInto table lead new = flattenInto table (dotted lead (.text key)) inner := by
  cases hd with
  | once => exact flattenInto_spread h table lead inner
  | throughout => exact flattenInto_throughout h table lead inner

theorem flattenInto_object (table : Table) (lead : Text) (key : Value)
    (before inner behind : List (Value × Value)) :
    flattenInto table lead (before ++ (key, .dict inner) :: behind) =
      flattenInto (flattenInto (flattenInto table lead before) (dotted lead key) inner) lead
        behind := by
  rw [flattenInto_append, flattenInto, addFlat_dict]

theorem Mapping.object {before inner behind : List (Value × Value)} {key : Value}
    (h : Mapping (before ++ (key, .dict inner) :: behind)) :
    (∃ k : Text, k ≠ [] ∧ key = .text k) ∧ Mapping inner :=
  have hm : (key, .dict inner) ∈ before ++ (key, .dict inner) :: behind := by simp
  ⟨h.named _ hm, h.nested _ hm inner rfl⟩

/-- Another spelling of a mapping has the same table, whatever it is added to. -/
theorem Respelled.flattenInto_eq {es other : List (Value × Value)} (h : Respelled es other)
    (hm : Mapping es) (table : Table) (lead : Text) :
    flattenInto table lead other = flattenInto table lead es := by
  induction h generalizing table lead with
  | here dots fresh =>
    obtain ⟨⟨k, hk, he⟩, -⟩ := hm.object
    cases he
    rw [flattenInto_append, flattenInto_append, dots.flattenInto_eq hk, flattenInto_object]
  | inside h ih => rw [flattenInto_object, flattenInto_object, ih hm.object.2]

/-! ## Mappings among the spellings -/

theorem spread_mapping {key : Text} (hk : key ≠ []) {inner : List (Value × Value)}
    (h : Mapping inner) : Mapping (spread key inner) := by
  have hkeys : (spread key inner).map (·.1) =
      ((inner.map (·.1)).map (dotted key)).map Value.text := by
    simp only [spread, List.map_map, Function.comp_def]
  have htold : ∀ k ∈ inner.map (·.1), ∀ k' ∈ inner.map (·.1), dotted key k = dotted key k' →
      k = k' := by
    intro k hm k' hm' he
    obtain ⟨d, hd, rfl⟩ := List.mem_map.mp hm
    obtain ⟨e, hm, rfl⟩ := List.mem_map.mp hm'
    obtain ⟨a, -, ha⟩ := h.named d hd
    obtain ⟨b, -, hb⟩ := h.named e hm
    rw [ha, hb] at he ⊢
    rw [dotted_injective key he]
  refine .of_keys _ hkeys (List.Nodup.map_on htold h.distinct) (fun hm => ?_) fun e he => ?_
  · obtain ⟨k, -, hn⟩ := List.mem_map.mp hm
    exact dotted_ne_nil hk k hn
  · obtain ⟨d, hd, rfl⟩ := List.mem_map.mp he
    exact h.nested d hd

theorem asEntries_mapping {table : Table} (hd : Distinct table) (hn : ∀ e ∈ table, e.1 ≠ []) :
    Mapping (asEntries table) := by
  have hkeys : (asEntries table).map (·.1) = (table.map (·.1)).map Value.text := by
    simp only [asEntries, List.map_map, Function.comp_def]
  refine .of_keys _ hkeys hd (fun hm => ?_) fun e he inner hi => ?_
  · obtain ⟨d, hm, he⟩ := List.mem_map.mp hm
    exact hn d hm he
  · obtain ⟨d, -, rfl⟩ := List.mem_map.mp he
    cases hi

theorem flatten_named {lead : Text} {es : List (Value × Value)} (h : Mapping es) :
    ∀ e ∈ flatten lead es, e.1 ≠ [] := by
  obtain ⟨path, hp, hl⟩ : ∃ path : List Text, [] ∉ path ∧ address path = lead := by
    by_cases hn : lead = []
    · exact ⟨[], by simp, hn ▸ rfl⟩
    · exact ⟨[lead], by simpa using Ne.symm hn, address_singleton lead⟩
  intro e he
  rw [flatten, ← hl, flattenInto_eq] at he
  have hk := Entries.mem_ofList (List.mem_map_of_mem he)
  rw [addressed, List.map_map] at hk
  obtain ⟨l, hm, hk⟩ := List.mem_map.mp hk
  have ha := (address_leading (leaves_leading hp es h l hm)).2
  exact hk ▸ ha

theorem Dots.mapping {key : Text} {inner new : List (Value × Value)} (hd : Dots key inner new)
    (hk : key ≠ []) (h : Mapping inner) : Mapping new := by
  cases hd with
  | once => exact spread_mapping hk h
  | throughout => exact asEntries_mapping (flatten_distinct key inner) (flatten_named h)

/-- Another spelling of a mapping is a mapping. -/
theorem Respelled.mapping {es other : List (Value × Value)} (h : Respelled es other)
    (hm : Mapping es) : Mapping other := by
  induction h with
  | here dots fresh =>
    obtain ⟨⟨k, hk, he⟩, hi⟩ := hm.object
    cases he
    have hrest := (hm.perm List.perm_middle).tail
    exact ((dots.mapping hk hi).append hrest fresh).perm (List.perm_append_comm_assoc _ _ _)
  | inside h ih =>
    exact ((hm.perm List.perm_middle).exchange (ih hm.object.2)).perm List.perm_middle.symm

theorem respelled_flatten {es other : List (Value × Value)}
    (h : Relation.ReflTransGen Respelled es other) (hm : Mapping es) :
    Mapping other ∧ flatten [] other = flatten [] es := by
  induction h with
  | refl => exact ⟨hm, rfl⟩
  | tail _ step ih =>
    obtain ⟨hi, hf⟩ := ih
    exact ⟨step.mapping hi, (step.flattenInto_eq hi [] []).trans hf⟩

/-- A table is its own table. -/
theorem flatten_asEntries {table : Table} (h : Distinct table) :
    flatten [] (asEntries table) = table := by
  rw [flatten, flattenInto_asEntries]
  have hid : table.map (Prod.map (fun key => dotted [] (.text key)) id) = table :=
    List.map_id table
  rw [hid]
  exact Entries.ofList_distinct h

/-- The table of a mapping is that of its leaves, put in one after another in depth-first order
under the keys that lead to them with dots between: each key stands where it came first, with the
text of the last leaf that has it. It stays the same if nested objects give place to their dotted
entries, one after another and at any depth, as long as these have keys that are not there yet. And
the table of a table is this table. -/
theorem flatten_inserts_leaves {es : List (Value × Value)} (mapping : Mapping es) :
    let inserted := (leaves [] es).map fun l => (Text.joined "." l.1, l.2)
    flatten [] es = Entries.ofList inserted ∧
    (flatten [] es).map (·.1) = (inserted.map (·.1)).eraseDups ∧
    (∀ key, Entries.get? key (flatten [] es) = last? key inserted) ∧
    (∀ other, Relation.ReflTransGen Respelled es other →
      Mapping other ∧ flatten [] other = flatten [] es) ∧
    Mapping (asEntries (flatten [] es)) ∧
    flatten [] (asEntries (flatten [] es)) = flatten [] es := by
  intro inserted
  have haddressed : addressed (leaves [] es) = inserted := by
    refine List.map_congr_left fun l hl => ?_
    rw [(address_leading (leaves_leading (by simp) es mapping l hl)).1]
  have hflat : flatten [] es = Entries.ofList inserted := by rw [flatten_eq, haddressed]
  refine ⟨hflat, ?_, fun key => ?_, fun other h => respelled_flatten h mapping, ?_, ?_⟩
  · rw [hflat, Entries.keys_ofList]
  · rw [hflat, Entries.get?_ofList]
  · exact asEntries_mapping (flatten_distinct [] es) (flatten_named mapping)
  · exact flatten_asEntries (flatten_distinct [] es)

def clashing : List (Value × Value) :=
  [(.text "a.b", .int 5), (.text "a", .dict [(.text "c", .null), (.text "b", .text "x")]),
    (.text "d", .dict [(.text "e", .dict []), (.text "f", .bool true)])]

def clashingDotted : List (Value × Value) :=
  [(.text "a.b", .int 5), (.text "a", .dict [(.text "c", .null), (.text "b", .text "x")]),
    (.text "d.e", .dict []), (.text "d.f", .bool true)]

theorem clashing_mapping : Mapping clashing := by
  have hempty : Mapping [] := .of Entries.nil_distinct (by simp) (by simp)
  have ha : Mapping [(.text "c", .null), (.text "b", .text "x")] :=
    .of_keys ["c", "b"] rfl (by decide) (by decide) (by simp)
  have hd : Mapping [(.text "e", .dict []), (.text "f", .bool true)] :=
    .of_keys ["e", "f"] rfl (by decide) (by decide) (by simpa using hempty)
  exact .of_keys ["a.b", "a", "d"] rfl (by decide) (by decide)
    (by simpa [clashing] using ⟨ha, hd⟩)

theorem flatten_inserts_leaves_clashing :
    Mapping clashing ∧ Relation.ReflTransGen Respelled clashing clashingDotted ∧
    flatten [] clashingDotted = flatten [] clashing ∧
    flatten [] clashing = ([("a.b", "x"), ("a.c", "None"), ("d.f", "True")] : Table) := by
  have hdots : Dots "d" [(.text "e", .dict []), (.text "f", .bool true)]
      [(.text "d.e", .dict []), (.text "d.f", .bool true)] := .once
  have hstep : Respelled clashing clashingDotted :=
    @Respelled.here (clashing.take 2) [] _ _ _ hdots (by simp [clashing]; decide)
  exact ⟨clashing_mapping, .single hstep,
    ((flatten_inserts_leaves clashing_mapping).2.2.2.1 _ (.single hstep)).2, by decide⟩

end SymbolRename.Message
