import SymbolRename.Document.File
import SymbolRename.Proofs.Task
import SymbolRename.World
import Mathlib.Order.Defs.Unbundled

/-!
# What acts leave as it is

Reading a document and printing only add to what was said. Telling a notice may also read templates.
Neither touches a file, whatever goes wrong.
-/

set_option autoImplicit false

namespace SymbolRename.World
open SymbolRename.Task
variable {α β ε : Type}

def Speaks (w v : World) : Prop := ∃ journal, v = { w with journal := journal }

/-- The second world may differ from the first in what was said and in what its catalog is. -/
def Consults (w v : World) : Prop :=
  ∃ catalog journal, v = { w with catalog := catalog, journal := journal }

instance : IsPreorder World Speaks where
  refl w := ⟨w.journal, rfl⟩
  trans := by
    rintro w _ _ ⟨j, rfl⟩ ⟨k, rfl⟩
    exact ⟨k, rfl⟩

instance : IsPreorder World Consults where
  refl w := ⟨w.catalog, w.journal, rfl⟩
  trans := by
    rintro w _ _ ⟨c, j, rfl⟩ ⟨d, k, rfl⟩
    exact ⟨d, k, rfl⟩

theorem Speaks.consults {w v : World} (h : Speaks w v) : Consults w v := by
  obtain ⟨j, rfl⟩ := h
  exact ⟨w.catalog, j, rfl⟩

theorem Consults.files {w v : World} (h : Consults w v) : v.files = w.files := by
  obtain ⟨c, j, rfl⟩ := h
  rfl

def Keeps (R : World → World → Prop) (act : Act α) : Prop := ∀ w, R w (act.run w).2

theorem Keeps.mono {R S : World → World → Prop} (hs : ∀ w v, R w v → S w v) {act : Act α}
    (h : Keeps R act) : Keeps S act := fun w => hs _ _ (h w)

section Closure
variable {R : World → World → Prop} [IsPreorder World R]

theorem keeps_pure (a : α) : Keeps R (pure a : Act α) := fun w => refl_of R w

theorem keeps_throw (e : Fault) : Keeps R (throw e : Act α) := fun w => refl_of R w

theorem keeps_get : Keeps R (get : Act World) := fun w => refl_of R w

theorem keeps_orFault (wrap : ε → Fault) (r : Except ε α) : Keeps R (orFault wrap r) := by
  cases r with
  | ok a => exact keeps_pure a
  | error e => exact keeps_throw (wrap e)

theorem keeps_bind {act : Act α} {next : α → Act β} (ha : Keeps R act)
    (hn : ∀ a, Keeps R (next a)) : Keeps R (act >>= next) := by
  intro w
  have h := ha w
  rw [run_bind]
  rcases hr : act.run w with ⟨e | a, v⟩
  · rw [hr] at h
    exact h
  · rw [hr] at h
    exact trans_of R h (hn a v)

theorem keeps_forM {act : α → Act PUnit} {as : List α} (h : ∀ a ∈ as, Keeps R (act a)) :
    Keeps R (as.forM act) := by
  induction as with
  | nil => exact keeps_pure _
  | cons a as ih =>
    exact keeps_bind (h a List.mem_cons_self) fun _ => ih fun b hb => h b (List.mem_cons_of_mem a hb)

theorem keeps_onOutput {event : Event} (h : Keeps R (say [event])) (text : Text) :
    Keeps R (onOutput event text) := by
  rw [onOutput]
  split
  · exact h
  · exact keeps_throw _

theorem keeps_template (hc : ∀ key asked, Keeps R (catalogTemplate key asked)) (key : Text)
    (asked : Option Text) : Keeps R (World.template key asked) := by
  rw [World.template]
  refine keeps_bind keeps_get fun w => ?_
  split
  · exact keeps_pure _
  · exact keeps_bind (hc key asked) fun _ => keeps_pure _

theorem keeps_render (hc : ∀ key asked, Keeps R (catalogTemplate key asked)) (key : Text)
    (arguments : List (Text × Template.Argument)) : Keeps R (render key arguments) := by
  rw [render]
  refine keeps_bind (keeps_template hc key none) fun v => ?_
  split
  · exact keeps_orFault _ _
  · exact keeps_throw _

/-- Telling a notice looks a template up and says one thing. -/
theorem keeps_tell (hc : ∀ key asked, Keeps R (catalogTemplate key asked)) {n : Notice}
    (hm : ∀ text, Keeps R (say [.message n.level text])) (hr : Keeps R (say [.recorded n])) :
    Keeps R (tell n) := by
  rw [tell]
  refine keeps_bind keeps_get fun w => ?_
  split
  · exact keeps_pure _
  · exact keeps_bind (keeps_render hc _ _) fun text => hm text
  · refine keeps_bind (keeps_render hc _ _) fun text => ?_
    split
    · exact keeps_onOutput (hm text) text
    · exact hm text
  · exact hr

theorem keeps_loadContents (hs : ∀ l : Log, Keeps R (say [.log l])) (p : Files.Path) :
    Keeps R (Document.loadContents p) := by
  rw [Document.loadContents]
  refine keeps_bind keeps_get fun w => keeps_bind (keeps_orFault _ _) fun present => ?_
  split
  · exact keeps_pure _
  · refine keeps_bind (keeps_orFault _ _) fun bytes => ?_
    split
    · exact keeps_orFault _ _
    · exact keeps_pure _
    · exact keeps_bind (hs _) fun _ => keeps_pure _
    · exact keeps_throw _
    · exact keeps_throw _

/-- Loading a document only notes things down. -/
theorem keeps_load (hs : ∀ l : Log, Keeps R (say [.log l])) (p : Files.Path)
    (defaultSource : Text) : Keeps R (Document.load p defaultSource) := by
  rw [Document.load]
  refine keeps_bind keeps_get fun w => keeps_bind (keeps_orFault _ _) fun isFile => ?_
  split
  · exact keeps_throw _
  · exact keeps_bind (keeps_loadContents hs p) fun _ => keeps_bind (keeps_orFault _ _) fun _ =>
      keeps_bind (hs _) fun _ => keeps_pure _

end Closure

theorem say_keeps (events : List Event) : Keeps Speaks (say events) := fun _ => ⟨_, rfl⟩

theorem say_consults (events : List Event) : Keeps Consults (say events) :=
  (say_keeps events).mono fun _ _ => Speaks.consults

theorem print_keeps (text : Text) : Keeps Speaks (print text) := keeps_onOutput (say_keeps _) text

theorem catalogTemplate_keeps (key : Text) (asked : Option Text) :
    Keeps Consults (catalogTemplate key asked) := by
  intro w
  rw [catalogTemplate, run_bind_ok (run_get w), run_onPart]
  exact ⟨_, _, rfl⟩

theorem tell_keeps (n : Notice) : Keeps Consults (tell n) :=
  keeps_tell catalogTemplate_keeps (fun _ => say_consults _) (say_consults _)

/-- The second world differs from the first in what its catalog is, and in that some things of a
kind were said. -/
def Adds (P : Event → Prop) (w v : World) : Prop :=
  ∃ catalog said, v = { w with catalog := catalog, journal := w.journal ++ said } ∧ ∀ e ∈ said, P e

section Adding
variable {P : Event → Prop}

instance : IsPreorder World (Adds P) where
  refl w := ⟨w.catalog, [], by rw [List.append_nil], fun _ he => nomatch he⟩
  trans := by
    rintro w _ _ ⟨c, said, rfl, hs⟩ ⟨d, more, rfl, hm⟩
    exact ⟨d, said ++ more, by rw [List.append_assoc], List.forall_mem_append.mpr ⟨hs, hm⟩⟩

theorem Adds.consults {w v : World} (h : Adds P w v) : Consults w v := by
  obtain ⟨c, said, rfl, -⟩ := h
  exact ⟨c, _, rfl⟩

theorem say_adds {events : List Event} (h : ∀ e ∈ events, P e) : Keeps (Adds P) (say events) :=
  fun w => ⟨w.catalog, events, rfl, h⟩

theorem catalogTemplate_adds (hl : ∀ l, P (.log l)) (key : Text) (asked : Option Text) :
    Keeps (Adds P) (catalogTemplate key asked) := by
  intro w
  rw [catalogTemplate, run_bind_ok (run_get w), run_onPart]
  refine ⟨_, _, rfl, fun e he => ?_⟩
  obtain ⟨l, -, rfl⟩ := List.mem_map.mp he
  exact hl l

theorem tell_adds (hl : ∀ l, P (.log l)) {n : Notice} (hm : ∀ text, P (.message n.level text))
    (hr : P (.recorded n)) : Keeps (Adds P) (tell n) :=
  keeps_tell (catalogTemplate_adds hl)
    (fun text => say_adds (List.forall_mem_singleton.mpr (hm text)))
    (say_adds (List.forall_mem_singleton.mpr hr))

end Adding

end SymbolRename.World
