import SymbolRename.Message.Catalog
import SymbolRename.Proofs.Entries
import Mathlib.Data.List.TakeWhile

/-!
# The leaves of a message file

Flattening nested entries comes to putting their leaves one after another, depth first, each under
the keys that lead to it with dots between them.
-/

set_option autoImplicit false

namespace SymbolRename.Message
open Entries (last? get?_ofList putAll_distinct last?_distinct Distinct)

mutual

/-- The leaves of nested entries in depth-first order, with the keys that lead to each. -/
def leaves (path : List Text) : List (Value × Value) → List (List Text × Text)
  | [] => []
  | (k, v) :: es => leavesOf (path ++ [k.shown]) v ++ leaves path es

def leavesOf (path : List Text) : Value → List (List Text × Text)
  | .dict es => leaves path es
  | v => [(path, v.shown)]

end

/-- The key of a leaf: the keys that lead to it with dots between them. Empty keys in front do not
count. -/
def address (path : List Text) : Text := Text.joined "." (path.dropWhile (·.isEmpty))

def addressed (ls : List (List Text × Text)) : Table := ls.map fun l => (address l.1, l.2)

theorem address_eq {path : List Text} (h : [] ∉ path) : address path = Text.joined "." path := by
  cases path with
  | nil => rfl
  | cons k ks =>
    rw [address, List.dropWhile_cons_of_neg]
    rw [List.isEmpty_iff]
    rintro rfl
    exact h List.mem_cons_self

theorem address_singleton (key : Text) : address [key] = key := by
  cases key <;> simp [address, Text.joined]

theorem joined_concat {parts : List Text} (h : parts ≠ []) (separator part : Text) :
    Text.joined separator (parts ++ [part]) = Text.joined separator parts ++ separator ++ part := by
  induction parts with
  | nil => exact absurd rfl h
  | cons p ps ih =>
    by_cases hp : ps = []
    · rw [hp]
      simp [Text.joined, List.intercalate_cons_cons]
    · obtain ⟨q, qs, rfl⟩ := List.exists_cons_of_ne_nil hp
      simp only [Text.joined, List.cons_append, List.intercalate_cons_cons] at ih ⊢
      rw [ih hp]
      simp only [List.append_assoc]

theorem joined_ne_nil {p : Text} (hp : p ≠ []) (separator : Text) (ps : List Text) :
    Text.joined separator (p :: ps) ≠ [] := by
  cases ps with
  | nil => simpa [Text.joined] using hp
  | cons q qs =>
    rw [Text.joined, List.intercalate_cons_cons]
    simp [hp]

theorem dotted_address (path : List Text) (key : Value) :
    dotted (address path) key = address (path ++ [key.shown]) := by
  rw [dotted, address, address]
  cases hd : path.dropWhile (·.isEmpty) with
  | nil =>
    rw [List.dropWhile_append, hd]
    cases key.shown <;> simp [Text.joined]
  | cons p ps =>
    have hp : p ≠ [] := by
      have hn := List.head_dropWhile_not (fun p : Text => p.isEmpty) (l := path) (by simp [hd])
      simpa [hd] using hn
    have hj := joined_ne_nil hp "." ps
    rw [List.dropWhile_append, hd, if_neg (by simpa using hj), if_neg (by simp),
      joined_concat (List.cons_ne_nil p ps)]

mutual

theorem flattenInto_eq (table : Table) (path : List Text) : (es : List (Value × Value)) →
    flattenInto table (address path) es = Entries.putAll table (addressed (leaves path es))
  | [] => by
    rw [flattenInto, leaves]
    rfl
  | (k, v) :: es => by
    rw [flattenInto, dotted_address, addFlat_eq, flattenInto_eq, leaves, addressed, addressed,
      addressed, List.map_append, Entries.putAll_append]

-- The entries of a dictionary make a table of their own first, which does not matter.
theorem addFlat_eq (table : Table) (path : List Text) : (v : Value) →
    addFlat table (address path) v = Entries.putAll table (addressed (leavesOf path v))
  | .dict es => by
    rw [addFlat, flattenInto_eq, leavesOf]
    exact Entries.putAll_ofList _ _
  | .null | .bool _ | .int _ | .float _ | .text _ | .bytes _ | .list _ | .tuple _ | .set _
  | .date _ | .time _ | .dateTime _ => by
    rw [addFlat, leavesOf]
    · rfl
    · exact fun _ he => nomatch he
    · exact fun _ he => nomatch he

end

theorem flatten_eq (es : List (Value × Value)) :
    flatten [] es = Entries.ofList (addressed (leaves [] es)) := flattenInto_eq [] [] es

theorem flatten_distinct (lead : Text) (es : List (Value × Value)) :
    Distinct (flatten lead es) := by
  rw [flatten, ← address_singleton lead, flattenInto_eq]
  exact putAll_distinct Entries.nil_distinct _

/-- A key of a message file has the text of its last leaf. -/
theorem get?_flatten (key : Text) (es : List (Value × Value)) :
    last? key (flatten [] es) = last? key (addressed (leaves [] es)) := by
  rw [last?_distinct (flatten_distinct [] es), flatten_eq, get?_ofList]

end SymbolRename.Message
