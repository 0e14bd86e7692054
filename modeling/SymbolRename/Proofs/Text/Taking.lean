import SymbolRename.Decimal.Reading
import Mathlib.Data.List.Infix

/-!
# Taking something off a text

What reads takes something off the front of a text, if it finds it there, and leaves an end of it.
-/

set_option autoImplicit false

namespace SymbolRename.Text

/-- What is left after something was taken off a text is an end of it. -/
def Leaves {α : Type} (s : List Char) (taken : α × List Char) : Prop := taken.2 <:+ s

/-- Whatever is taken off a text, if anything is. -/
def Offers {α : Type} (P : α → Prop) (r : Option α) : Prop := ∀ a ∈ r, P a

section Offers
variable {α β : Type} {P : α → Prop} {R : β → Prop} {r : Option α}

theorem Offers.bind (h : Offers P r) {next : α → Option β} (hn : ∀ a, P a → Offers R (next a)) :
    Offers R (r >>= next) := by
  intro b hb
  obtain ⟨a, ha, hb⟩ := Option.mem_bind_iff.mp hb
  exact hn a (h a ha) b hb

theorem Offers.map (h : Offers P r) {f : α → β} (hf : ∀ a, P a → R (f a)) : Offers R (r.map f) := by
  intro b hb
  obtain ⟨a, ha, rfl⟩ := Option.map_eq_some_iff.mp hb
  exact hf a (h a ha)

theorem offers_none : Offers P none := fun _ h => nomatch h

theorem offers_some {a : α} (h : P a) : Offers P (some a) := fun _ hb => by
  cases hb
  exact h

end Offers

theorem takeSign_suffix (s : List Char) : (Decimal.takeSign s).2 <:+ s := by
  rw [Decimal.takeSign.eq_def]
  split
  · exact List.suffix_cons _ _
  · exact List.suffix_cons _ _
  · exact List.suffix_refl _

theorem isPrefixOf?_suffix {word s rest : List Char} (h : word.isPrefixOf? s = some rest) :
    rest <:+ s := ⟨word, List.isPrefixOf?_eq_some_iff_append_eq.mp h⟩

end SymbolRename.Text
