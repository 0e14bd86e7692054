import SymbolRename.Message.Catalog
import SymbolRename.Proofs.Task

/-!
# Reading message files

What is read of message files does not depend on what was noted down before, and nothing that was
noted down is lost.
-/

set_option autoImplicit false

namespace SymbolRename.Message
open Files
variable {ε α β : Type}

/-- A task that only adds to the log, and does the same whatever is in it. -/
def Steady (task : Task (List Log) ε α) : Prop :=
  ∀ logs, task.run logs = ((task.run []).1, logs ++ (task.run []).2)

theorem steady_pure (a : α) : Steady (pure a : Task (List Log) ε α) := by
  intro logs
  rw [Task.run_pure, Task.run_pure, List.append_nil]

theorem steady_orFault {δ : Type} (wrap : δ → ε) (r : Except δ α) :
    Steady (Task.orFault wrap r : Task (List Log) ε α) := by
  intro logs
  cases r <;> simp [Task.orFault]

theorem steady_note (more : List Log) :
    Steady (modify (· ++ more) : Task (List Log) ε PUnit) := by
  intro logs
  simp

theorem steady_bind {task : Task (List Log) ε α} {next : α → Task (List Log) ε β}
    (ht : Steady task) (hn : ∀ a, Steady (next a)) : Steady (task >>= next) := by
  intro logs
  rw [Task.run_bind, Task.run_bind, ht logs]
  rcases task.run [] with ⟨e | a, more⟩
  · rfl
  · dsimp only
    rw [hn a (logs ++ more), hn a more, List.append_assoc]

theorem steady_foldlM {add : β → α → Task (List Log) ε β} (ha : ∀ b a, Steady (add b a))
    (as : List α) (b : β) : Steady (as.foldlM add b) := by
  induction as generalizing b with
  | nil => exact steady_pure b
  | cons a as ih =>
    rw [List.foldlM_cons]
    exact steady_bind (ha b a) ih

theorem foldlM_agree {add more : β → α → Reading β} {as : List α}
    (h : ∀ a ∈ as, ∀ b, add b a = more b a) (b : β) : as.foldlM add b = as.foldlM more b := by
  induction as generalizing b with
  | nil => rfl
  | cons a as ih =>
    rw [List.foldlM_cons, List.foldlM_cons, h a List.mem_cons_self]
    exact bind_congr fun c => ih (fun a' hm => h a' (List.mem_cons_of_mem a hm)) c

theorem addFile_steady (top : Path) (table : Table) (file : Place × List UInt8) :
    Steady (addFile top table file) := by
  rw [addFile]
  split
  · apply steady_bind (steady_orFault _ _)
    rintro (_ | t)
    · exact steady_bind (steady_note _) fun _ => steady_pure _
    · exact steady_pure _
  · exact steady_pure _

theorem loadDirectory_steady (t : Tree) (here : Place) (top : Path) :
    Steady (loadDirectory t here top) := by
  rw [loadDirectory]
  exact steady_bind (steady_orFault _ _) fun files => steady_foldlM (addFile_steady top) files []

theorem addRoot_steady (t : Tree) (here : Place) (lang : Text) (table : Table) (root : Root) :
    Steady (addRoot t here lang table root) := by
  apply steady_foldlM
  intro table top
  exact steady_bind (loadDirectory_steady _ _ _) fun _ => steady_pure _

theorem loadLanguage_steady (t : Tree) (here : Place) (roots : List Root) (lang : Text) :
    Steady (loadLanguage t here roots lang) :=
  steady_foldlM (addRoot_steady t here lang) roots []

structure Sight where
  files : Tree
  here : Place

def merged (roots : List Root) (v : Sight) (lang : Text) : Except Fault Table :=
  ((loadLanguage v.files v.here roots lang).run []).1

theorem loadLanguage_run (v : Sight) (roots : List Root) (lang : Text) (logs : List Log) :
    ((loadLanguage v.files v.here roots lang).run logs).1 = merged roots v lang := by
  rw [loadLanguage_steady v.files v.here roots lang logs]
  rfl

end SymbolRename.Message
