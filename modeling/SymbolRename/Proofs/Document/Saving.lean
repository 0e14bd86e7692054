import SymbolRename.Proofs.Document.File

/-!
# Saving a document again and again

Whether a file is written is decided by its text after its line breaks are unified, while what is
written has line feeds only. Both ways the file holds the document in the end, so saving it once
more has nothing left to do.
-/

set_option autoImplicit false

namespace SymbolRename.Document
open Files World

section Writing
variable {t u : Tree} {here : Place} {p : Path} {s : List Char} {b : Bool}

/-- A file with another text, or with none, is written; one that has the text is left as it is. -/
theorem writeIfNew_cases (h : writeIfNew t here p s = .ok (b, u)) :
    (b = false ∧ u = t ∧ currentText? t here p = some s) ∨
      (b = true ∧ currentText? t here p ≠ some s ∧ Tree.FitsLength p ∧
        t.writeDeep here p (Text.Utf8.encode s) = .ok u) := by
  rw [writeIfNew] at h
  obtain ⟨found, hp, h⟩ := bind_eq_ok h
  split at h
  · next hc =>
    cases h
    rw [Bool.and_eq_true, decide_eq_true_eq] at hc
    exact .inl ⟨rfl, rfl, hc.2⟩
  · next hc =>
    obtain ⟨v, hw, h⟩ := bind_eq_ok h
    cases h
    refine .inr ⟨rfl, fun ht => hc ?_, Tree.fitsLength_of_present hp, hw⟩
    -- a file whose text is known is there
    obtain ⟨bytes, r, hr, -, -⟩ := currentText_some ht
    obtain ⟨place, hf⟩ := Tree.find_of_read hr
    rw [Tree.present_of_find hf, Except.ok.injEq] at hp
    rw [← hp, ht]
    exact decide_eq_true rfl

theorem writeIfNew_again (h : currentText? u here p = some s) :
    writeIfNew u here p s = .ok (false, u) := by
  obtain ⟨bytes, r, hr, -, -⟩ := currentText_some h
  obtain ⟨place, hf⟩ := Tree.find_of_read hr
  rw [writeIfNew, Tree.present_of_find hf, h]
  exact if_pos (by simp)

theorem writeIfNew_current (hs : t.Standing here) (hr : '\r' ∉ s)
    (h : writeIfNew t here p s = .ok (b, u)) : currentText? u here p = some s := by
  obtain ⟨place, bytes, r, hf, hd, rfl⟩ := writeIfNew_ok hs hr h
  exact currentText_of_find hf hd

theorem read_writeDeep (hs : t.Standing here) (hl : Tree.FitsLength p) {bytes : List UInt8}
    (hw : t.writeDeep here p bytes = .ok u) : u.read here p = .ok bytes := by
  obtain ⟨place, hf⟩ := Tree.find_writeDeep hs hl hw
  exact Tree.read_of_find hf

end Writing

/-- Whatever a file holds before, its text is the document once it is saved. Nothing is written just
if that was its text already, and then nothing changes; else the file holds the bytes of the
document. Either way saving the document again writes nothing. -/
theorem store_settles {p : Path} {entries : List (Value × Value)} {s : List Char} {b : Bool}
    {v w : World} (standing : v.files.Standing v.here)
    (document : Yaml.Writer.write? true (.dict entries) = some s) (unbroken : '\r' ∉ s)
    (stored : (store p entries).run v = (.ok b, w)) :
    currentText? w.files w.here p = some s ∧
    (b = false ↔ currentText? v.files v.here p = some s) ∧
    (b = false → w = v) ∧
    (b = true → w.files.read w.here p = .ok (Text.Utf8.encode s)) ∧
    (store p entries).run w = (.ok false, w) := by
  obtain ⟨files, hw, rfl⟩ := store_ok document stored
  have current : currentText? files v.here p = some s := writeIfNew_current standing unbroken hw
  have again := store_run (w := { v with files := files }) document (writeIfNew_again current)
  rcases writeIfNew_cases hw with ⟨rfl, rfl, held⟩ | ⟨rfl, other, hl, written⟩
  · exact ⟨current, iff_of_true rfl held, fun _ => rfl, nofun, again⟩
  · exact ⟨current, iff_of_false nofun other, nofun, fun _ => read_writeDeep standing hl written,
      again⟩

def holdingBytes (bytes : List UInt8) : World :=
  { World.silent with files := ⟨[(["f.yaml"], .file bytes)]⟩ }

/-- A document with other line breaks is left as it is, and bytes that are no text are replaced. -/
theorem store_settles_bytes :
    let save := store ⟨false, ["f.yaml"]⟩ [(.text "name", .text "f")]
    let broken := holdingBytes (Text.Utf8.encode "name: f\r\n".toList)
    save.run broken = (.ok false, broken) ∧
    ∃ w : World, save.run (holdingBytes [0xFF]) = (.ok true, w) ∧
      w.files.read w.here ⟨false, ["f.yaml"]⟩ = .ok (Text.Utf8.encode "name: f\n".toList) ∧
      save.run w = (.ok false, w) := by
  intro save broken
  have document : Yaml.Writer.write? true (.dict [(.text "name", .text "f")]) =
      some "name: f\n".toList := by decide +kernel
  have unbroken : '\r' ∉ "name: f\n".toList := by decide
  have standing (bytes : List UInt8) :
      (holdingBytes bytes).files.Standing (holdingBytes bytes).here := Tree.standing_root _
  constructor
  · obtain ⟨b, w, stored⟩ : ∃ b w, save.run broken = (.ok b, w) := ⟨_, _, rfl⟩
    obtain ⟨-, hb, hw, -⟩ := store_settles (standing _) document unbroken stored
    have same : b = false := hb.mpr (by decide +kernel)
    rw [stored, same, hw same]
  · obtain ⟨w, stored⟩ : ∃ w, save.run (holdingBytes [0xFF]) = (.ok true, w) := ⟨_, rfl⟩
    obtain ⟨-, -, -, hr, again⟩ := store_settles (standing _) document unbroken stored
    exact ⟨w, stored, hr rfl, again⟩

end SymbolRename.Document
