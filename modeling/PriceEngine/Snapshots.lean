import Mathlib.Order.Basic
import Mathlib.Data.Nat.Basic

/-!
# Commits on snapshots

A table is a sequence of snapshots, of which the last is current. A process works
on the snapshot it has loaded, its handle, and commits a new content prepared on
it; the commit is taken only while the handle is still current. A handle that is
current shows what the table holds (`Handle`), so whatever was prepared on it is
about the current content, and every commit leaves the other handles behind.
-/

namespace PriceEngine

structure Snapshot (α : Type*) where
  version : ℕ
  content : α

variable {α : Type*}

/-- A commit prepared on another snapshot than the current one is rejected. -/
def Snapshot.commit (current base : Snapshot α) (content : α) : Option (Snapshot α) :=
  if base.version = current.version then some ⟨current.version + 1, content⟩ else none

/-- A snapshot of the table's past, or the current one. -/
structure Handle (base current : Snapshot α) : Prop where
  le : base.version ≤ current.version
  eq : base.version = current.version → base.content = current.content

variable {base current next other : Snapshot α} {content : α}

theorem Handle.refl (current : Snapshot α) : Handle current current := ⟨le_rfl, fun _ => rfl⟩

theorem commit_eq_some : current.commit base content = some next ↔
    base.version = current.version ∧ next = ⟨current.version + 1, content⟩ := by
  rw [Snapshot.commit]
  split_ifs with h
  · rw [Option.some.injEq, eq_comm, and_iff_right h]
  · exact iff_of_false (fun hc => by cases hc) fun hc => h hc.1

theorem Handle.base_eq (hb : Handle base current) (h : current.commit base content = some next) :
    base.content = current.content :=
  hb.eq (commit_eq_some.mp h).1

theorem commit_content (h : current.commit base content = some next) : next.content = content := by
  rw [(commit_eq_some.mp h).2]

theorem Handle.commit (ho : Handle other current) (h : current.commit base content = some next) :
    Handle other next := by
  obtain ⟨-, rfl⟩ := commit_eq_some.mp h
  have hle := ho.le
  exact ⟨Nat.le_succ_of_le hle, fun heq => absurd heq (by show other.version ≠ current.version + 1; omega)⟩

end PriceEngine
