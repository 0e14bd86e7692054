/-!
# Texts

A text is a row of code points. Most code points are characters. Those of surrogates are not: two of
them together are how some encodings write one character, but a text may hold them one by one, and a
text that holds one cannot be encoded.
-/

set_option autoImplicit false

namespace SymbolRename

inductive Code where
  | char (c : Char)
  /-- The surrogate with this number among all surrogates. -/
  | half (n : Fin 0x800)
deriving DecidableEq

instance : Inhabited Code := ⟨.char ' '⟩

instance : Coe Char Code := ⟨.char⟩

namespace Code

def toNat : Code → Nat
  | char c => c.toNat
  | half n => 0xD800 + n

def isSurrogate (n : Nat) : Bool := 0xD800 ≤ n && n < 0xE000

def ofNat (n : Nat) : Code :=
  if isSurrogate n then half (Fin.ofNat 0x800 (n - 0xD800)) else char (Char.ofNat n)

def passes (test : Char → Bool) : Code → Bool
  | char c => test c
  | half _ => false

end Code

abbrev Text := List Code

namespace Text

def ofChars (cs : List Char) : Text := cs.map .char

def ofString (s : String) : Text := ofChars s.toList

instance : Coe String Text := ⟨ofString⟩

instance : Coe (List Char) Text := ⟨ofChars⟩

instance : HAppend String Text Text := ⟨fun s t => ofString s ++ t⟩

instance : HAppend Text String Text := ⟨fun s t => s ++ ofString t⟩

/-- The characters of a text, if it has nothing else in it. -/
def chars? : Text → Option (List Char)
  | [] => some []
  | .char c :: s => (chars? s).map (c :: ·)
  | .half _ :: _ => none

theorem chars?_ofChars (cs : List Char) : chars? (ofChars cs) = some cs := by
  induction cs with
  | nil => rfl
  | cons c cs ih => simp [ofChars] at ih ⊢; simp [chars?, ih]

def joined (separator : Text) (parts : List Text) : Text := separator.intercalate parts

def comesBefore : Text → Text → Bool
  | _, [] => false
  | [], _ :: _ => true
  | a :: s, b :: t => if a = b then comesBefore s t else a.toNat < b.toNat

end Text
end SymbolRename
