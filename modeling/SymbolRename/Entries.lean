/-!
# Entries in order of arrival

A table as the list of its entries. A new key goes to the end; a key that is there keeps its place
and takes the new value.
-/

set_option autoImplicit false

namespace SymbolRename.Entries

def put {κ ν : Type} [BEq κ] (k : κ) (v : ν) : List (κ × ν) → List (κ × ν)
  | [] => [(k, v)]
  | (k', v') :: es => if k' == k then (k', v) :: es else (k', v') :: put k v es

def get? {κ ν : Type} [BEq κ] (k : κ) : List (κ × ν) → Option ν
  | [] => none
  | (k', v) :: es => if k' == k then some v else get? k es

def has {κ ν : Type} [BEq κ] (k : κ) (es : List (κ × ν)) : Bool := (get? k es).isSome

def putAll {κ ν : Type} [BEq κ] (es new : List (κ × ν)) : List (κ × ν) :=
  new.foldl (fun es e => put e.1 e.2 es) es

def ofList {κ ν : Type} [BEq κ] (es : List (κ × ν)) : List (κ × ν) := putAll [] es

theorem get?_put_self {κ ν : Type} [BEq κ] [LawfulBEq κ] (k : κ) (v : ν) (es : List (κ × ν)) :
    get? k (put k v es) = some v := by
  induction es with
  | nil => simp [put, get?]
  | cons e es ih =>
    by_cases h : e.1 == k <;> simp [put, get?, h, ih]

theorem get?_put_of_ne {κ ν : Type} [BEq κ] [LawfulBEq κ] (k k' : κ) (v : ν) (es : List (κ × ν))
    (h : k ≠ k') : get? k' (put k v es) = get? k' es := by
  induction es with
  | nil => simp [put, get?, h]
  | cons e es ih =>
    by_cases he : e.1 == k
    · have : e.1 = k := by simpa using he
      simp [put, get?, this, h]
    · by_cases hk : e.1 == k' <;> simp [put, get?, he, hk, ih]

end SymbolRename.Entries
