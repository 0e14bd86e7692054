import SymbolRename.Value

/-!
# The order of a set

The members of a set stand in a table of slots, of which there are more than twice as many. A number
has its slot by its residue modulo a prime; if that is taken, the nine slots behind it are tried,
and then slots further on. A set of numbers shows its members in the order of the slots; one that
has other members shows them as they came.
-/

set_option autoImplicit false

namespace SymbolRename.Value.Slots

def modulus : Nat := 0x1FFFFFFFFFFFFFFF

/-- The residue of `mantissa * 2 ^ exponent` with its sign; minus one counts as minus two. -/
def residueOf (negative : Bool) (mantissa : Nat) (exponent : Int) : Int :=
  let r := mantissa * Nat.pow 2 (exponent % 61).toNat % modulus
  let i : Int := if negative then -(r : Int) else r
  if i = -1 then -2 else i

def infinite : Int := 314159

def residue? : Value → Option Int
  | bool b => some (if b then 1 else 0)
  | int i => some (residueOf (i < 0) i.natAbs 0)
  | float x =>
    if x.isNaN then none
    else if x.isInf then some (if x < 0 then -infinite else infinite)
    else
      let b := Decimal.Binary.ofFloat x
      some (residueOf b.negative b.mantissa b.exponent)
  | _ => none

def count (members : Nat) : Nat :=
  if members < 5 then 8 else Nat.pow 2 (Nat.log2 (2 * members) + 1)

/-- The slots that are tried together from one on. -/
def tried (slots slot : Nat) : List Nat :=
  if slot + 9 < slots then (List.range 10).map (slot + ·) else [slot]

/-- A slot that is not taken. The first argument bounds the trials. -/
def free (slots : Nat) (taken : List Nat) : Nat → Nat → Nat → Nat
  | 0, slot, _ => slot
  | fuel + 1, slot, shift =>
    match (tried slots slot).find? (!taken.contains ·) with
    | some s => s
    | none => free slots taken fuel ((slot * 5 + 1 + shift / 32) % slots) (shift / 32)

def slotFor (slots : Nat) (taken : List Nat) (residue : Int) : Nat :=
  let start := (residue % 0x10000000000000000).toNat
  free slots taken (slots + 16) (start % slots) start

/-- Members with their slots, in order of arrival. -/
def placed {α : Type} (slots : Nat) : List Nat → List (α × Int) → List (α × Nat)
  | _, [] => []
  | taken, (a, r) :: rest =>
    let slot := slotFor slots taken r
    (a, slot) :: placed slots (slot :: taken) rest

def insertSorted {α : Type} (e : α × Nat) : List (α × Nat) → List (α × Nat)
  | [] => [e]
  | f :: fs => if e.2 < f.2 then e :: f :: fs else f :: insertSorted e fs

/-- The members of a set in order, where `value` tells which of them are scalars. -/
def order {α : Type} (value : α → Option Value) (members : List α) : List α :=
  match members.mapM fun a => (value a >>= residue?).map (a, ·) with
  | some numbers =>
    ((placed (count members.length) [] numbers).foldr insertSorted []).map (·.1)
  | none => members

end SymbolRename.Value.Slots
