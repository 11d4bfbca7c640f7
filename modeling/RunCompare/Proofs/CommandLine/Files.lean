/-
Files as a state.

A file system says where paths lead, what the files hold, and what becomes of them
when one is written; a write that fails leaves nothing behind (`FileSystem`).  The
disk is one (`Disk.fileSystem`), because writing to it moves no directory, so that
paths lead where they led before (`Disk.resolve_write`).
-/
import RunCompare.Disk

namespace RunCompare

namespace CommandLine

/-- Files that paths lead to, in each of its states. -/
structure FileSystem (σ φ : Type) [DecidableEq φ] where
  /-- The file to which a path leads; there need not be one yet. -/
  locate : σ → (path : String) → Option φ
  /-- The content of a file, if there is one that can be read. -/
  content : σ → φ → Option ByteArray
  /-- The state with another content of a file, if it can be written. -/
  write : σ → (path : String) → ByteArray → Option σ
  /-- The file that is written is the one to which the path leads, and no other changes. -/
  content_write : ∀ {s s' : σ} {path : String} {bytes : ByteArray}, write s path bytes = some s' →
    ∃ file, locate s path = some file ∧
      ∀ other, content s' other = if other = file then some bytes else content s other
  /-- Paths lead where they led before. -/
  locate_write : ∀ {s s' : σ} {path : String} {bytes : ByteArray}, write s path bytes = some s' →
    locate s' = locate s

namespace FileSystem

variable {σ φ : Type} [DecidableEq φ] (fs : FileSystem σ φ)

/-- The content of the file to which a path leads. -/
def read (s : σ) (path : String) : Option ByteArray := (fs.locate s path).bind (fs.content s)

/-- The text of a file that can be read and is valid UTF-8. -/
def text? (s : σ) (path : String) : Option String := (fs.read s path).bind String.fromUTF8?

/-- Reaching the files at a given time. -/
def access (time : String) : Access (StateM σ) where
  read path := do return fs.read (← get) path
  write path content := do
    match fs.write (← get) path content.toUTF8 with
    | some s => set s; return true
    | none => return false
  now := pure time

end FileSystem

end CommandLine

/-! ### The disk -/

namespace Disk

variable {disk disk' : Disk} {path : String} {bytes : ByteArray}

/-- What a write makes of a disk. -/
theorem write_eq_some_iff : disk.write path bytes = some disk' ↔
    ∃ names, disk.resolve path = some names ∧ disk.isDirectory names = false ∧
      { disk with files := (names, bytes) :: disk.files.filter (·.1 != names) } = disk' := by
  simp [write, Option.bind_eq_some_iff]

/-- Where parts lead depends on the directories alone. -/
theorem follow_congr (h : disk'.directories = disk.directories) (here parts : List String) :
    disk'.follow here parts = disk.follow here parts := by
  induction parts generalizing here with
  | nil => rfl
  | cons part rest ih => rw [follow, follow, isDirectory, isDirectory, h, ih]

theorem resolve_write (h : disk.write path bytes = some disk') : disk'.resolve = disk.resolve := by
  have hdirectories : disk'.directories = disk.directories := by
    obtain ⟨names, -, -, rfl⟩ := write_eq_some_iff.mp h
    rfl
  funext other
  exact Option.bind_congr fun parts _ => follow_congr hdirectories [] parts

theorem lookup_filter_ne {names other : List String} (hne : other ≠ names)
    (files : List (List String × ByteArray)) :
    (files.filter (·.1 != names)).lookup other = files.lookup other := by
  induction files with
  | nil => rfl
  | cons file rest ih =>
      obtain ⟨name, content⟩ := file
      by_cases hname : name = names
      · simp [hname, List.lookup_cons, beq_false_of_ne hne, ih]
      · simp [hname, List.lookup_cons, ih]

/-- A write changes the file to which the path leads, and no other. -/
theorem lookup_write (h : disk.write path bytes = some disk') :
    ∃ names, disk.resolve path = some names ∧
      ∀ other, disk'.files.lookup other =
        if other = names then some bytes else disk.files.lookup other := by
  obtain ⟨names, hnames, -, rfl⟩ := write_eq_some_iff.mp h
  refine ⟨names, hnames, ?_⟩
  intro other
  by_cases hother : other = names
  · simp [hother]
  · rw [if_neg hother, ← lookup_filter_ne hother disk.files]
    simp [List.lookup_cons, beq_false_of_ne hother]

/-- The disk as a file system, its files told apart by their names. -/
def fileSystem : CommandLine.FileSystem Disk (List String) where
  locate := resolve
  content disk names := disk.files.lookup names
  write := write
  content_write := lookup_write
  locate_write := resolve_write

theorem access_eq (time : String) : Disk.access time = fileSystem.access time := by
  unfold Disk.access CommandLine.FileSystem.access
  congr 1
  funext path content
  refine bind_congr fun disk => ?_
  rw [show fileSystem.write = Disk.write from rfl]
  cases disk.write path content.toUTF8 with
  | none => rfl
  | some disk' => rfl

end Disk

end RunCompare
