import LintBridge.Proofs.FileTree.Walk
import LintBridge.Proofs.Path.Components

/-! Trees whose entries are kept in another order.  What stands at a place and where a path leads
does not depend on that order: `Like.locate`, `Like.read`. -/

namespace LintBridge.FileTree

open LintBridge.Path

variable {t s : FileTree} {followLast : Bool} {p : Path} {q : Place}

/-- Each place has one entry, and its names are such as files can have. -/
structure IsSound (t : FileTree) : Prop where
  distinct : (t.entries.map (·.1)).Nodup
  named : ∀ place e, (place, e) ∈ t.entries → ∀ n ∈ place, (Component.normal n).IsProper

/-- A tree has the entries of another one, perhaps in another order. -/
structure Reorders (t s : FileTree) : Prop where
  workingDir : s.workingDir = t.workingDir
  entries : s.entries.Perm t.entries

/-- Two trees cannot be told apart by looking at places. -/
structure Like (t s : FileTree) : Prop where
  workingDir : s.workingDir = t.workingDir
  entry : ∀ place, s.entry? place = t.entry? place

theorem IsSound.reorder (sound : t.IsSound) (h : t.Reorders s) : s.IsSound where
  distinct := (h.entries.map _).nodup_iff.mpr sound.distinct
  named place e member := sound.named place e (h.entries.mem_iff.mp member)

theorem Reorders.like (h : t.Reorders s) (sound : t.IsSound) : t.Like s := by
  refine ⟨h.workingDir, fun place => ?_⟩
  unfold entry?
  split
  · rfl
  · refine Option.ext fun e => ?_
    rw [lookup_eq_some_iff_mem sound.distinct, lookup_eq_some_iff_mem (sound.reorder h).distinct]
    exact h.entries.mem_iff

theorem find_eq_ok {e : Entry} :
    t.find p = .ok e ↔ ∃ q, t.locate p true = .ok q ∧ t.entry? q = some e := by
  rw [find, bind_eq_ok]
  refine exists_congr fun q => and_congr_right fun _ => ?_
  cases t.entry? q <;> simp

theorem read_eq_ok {bytes : List UInt8} :
    t.read p = .ok bytes ↔ ∃ executable, t.find p = .ok (.file bytes executable) := by
  rw [read, bind_eq_ok]
  constructor
  · rintro ⟨e, found, read⟩
    cases e with
    | file content executable =>
      cases read
      exact ⟨executable, found⟩
    | dir => cases read
    | link target => cases read
  · rintro ⟨executable, found⟩
    exact ⟨_, found, rfl⟩

namespace Like

variable (like : t.Like s)
include like

theorem symm : s.Like t := ⟨like.workingDir.symm, fun place => (like.entry place).symm⟩

theorem keepsWays : t.KeepsWays s := ⟨like.workingDir, fun place => .inl (like.entry place)⟩

theorem locate : s.locate p followLast = .ok q ↔ t.locate p followLast = .ok q := by
  have goes : ∀ {t s : FileTree}, t.Like s →
      t.locate p followLast = .ok q → s.locate p followLast = .ok q := by
    intro t s like h
    obtain ⟨-, -, leaf⟩ := locate_eq_ok.mp h
    refine like.keepsWays.locate h fun asks bytes executable => ?_
    rw [like.entry]
    exact leaf asks bytes executable
  exact ⟨goes like.symm, goes like⟩

theorem find {e : Entry} : s.find p = .ok e ↔ t.find p = .ok e := by
  simp only [find_eq_ok, like.locate, like.entry]

theorem read : (s.read p).toOption = (t.read p).toOption := by
  have ok : ∀ {x : Except Fault (List UInt8)} {bytes}, x.toOption = some bytes ↔ x = .ok bytes := by
    intro x bytes
    cases x <;> simp [Except.toOption]
  refine Option.ext fun bytes => ?_
  simp only [ok, read_eq_ok, like.find]

theorem has : s.has p = t.has p := by
  have there : ∀ {t : FileTree}, t.has p = true ↔ ∃ e, t.find p = .ok e := by
    intro t
    rw [FileTree.has]
    cases t.find p <;> simp [Except.isOk, Except.toBool]
  rw [Bool.eq_iff_iff, there, there]
  simp only [like.find]

theorem isDirAt (place : Place) : s.isDirAt place = t.isDirAt place := by
  rw [FileTree.isDirAt, FileTree.isDirAt, like.entry]

end Like

end LintBridge.FileTree
