import Mathlib.Logic.Function.Basic
/-!
# Files behind names

A name leads to a file, and the file stays what it is when the name is given away: a
program that has a file open writes to it whatever became of the name under which it was
opened.
-/

/-- Names, the bytes of each file, and which files there are yet to be. -/
structure FileSystem (Path β : Type) where
  names : Path → Option Nat
  files : Nat → List β
  next : Nat
  fresh : ∀ p n, names p = some n → n < next

namespace FileSystem

variable {Path β : Type}

/-- What is read under a name. -/
def content (fs : FileSystem Path β) (p : Path) : Option (List β) := (fs.names p).map fs.files

/-- Overwrite the beginning of an open file. -/
def write (fs : FileSystem Path β) (n : Nat) (bytes : List β) : FileSystem Path β :=
  { fs with files := Function.update fs.files n (bytes ++ (fs.files n).drop bytes.length) }

@[simp] theorem write_names (fs : FileSystem Path β) (n : Nat) (bytes : List β) :
    (fs.write n bytes).names = fs.names := rfl

@[simp] theorem write_files (fs : FileSystem Path β) (n : Nat) (bytes : List β) :
    (fs.write n bytes).files n = bytes ++ (fs.files n).drop bytes.length :=
  Function.update_self ..

/-- Writing to a file is not seen under the names of others. -/
theorem write_content {fs : FileSystem Path β} {q : Path} {n : Nat} (bytes : List β)
    (h : fs.names q ≠ some n) :
    (fs.write n bytes).content q = fs.content q := by
  unfold content
  rw [write_names]
  cases hq : fs.names q with
  | none => rfl
  | some m =>
      have hne : m ≠ n := fun heq => h (by rw [hq, heq])
      simp [write, Function.update_of_ne hne]

variable [DecidableEq Path]

/-- A name that is set to a known file names a known file. -/
theorem update_fresh {names : Path → Option Nat} {bound : Nat}
    (h : ∀ p n, names p = some n → n < bound) {p : Path} {o : Option Nat}
    (ho : ∀ n, o = some n → n < bound) :
    ∀ q n, Function.update names p o q = some n → n < bound := by
  intro q n hq
  by_cases hqp : q = p
  · subst hqp
    rw [Function.update_self] at hq
    exact ho n hq
  · rw [Function.update_of_ne hqp] at hq
    exact h q n hq

/-- Open a file for writing, empty; it is created when the name leads nowhere. -/
def openTrunc (fs : FileSystem Path β) (p : Path) : FileSystem Path β × Nat :=
  match fs.names p with
  | some n => ({ fs with files := Function.update fs.files n [] }, n)
  | none =>
      ({ names := Function.update fs.names p (some fs.next)
         files := Function.update fs.files fs.next []
         next := fs.next + 1
         fresh := update_fresh (fun q n hq => Nat.lt_succ_of_lt (fs.fresh q n hq)) (by simp) },
        fs.next)

def remove (fs : FileSystem Path β) (p : Path) : FileSystem Path β :=
  { fs with
    names := Function.update fs.names p none
    fresh := update_fresh fs.fresh fun n h => by cases h }

/-- Give the file under `p` the name `q` instead; the file that had it is left alone. -/
def rename (fs : FileSystem Path β) (p q : Path) : Option (FileSystem Path β) :=
  match h : fs.names p with
  | some n => some
      { fs with
        names := Function.update (Function.update fs.names p none) q (some n)
        fresh := update_fresh (update_fresh fs.fresh fun m hm => by cases hm)
          fun m hm => fs.fresh p m (h.trans hm) }
  | none => none

/-! ## Laws -/

variable {fs : FileSystem Path β} {p q : Path} {n : Nat}

/-- Two names lead to different files. -/
def Apart (fs : FileSystem Path β) (p q : Path) : Prop :=
  ∀ n, fs.names p = some n → fs.names q ≠ some n

/-- A file that was opened has its name. -/
theorem openTrunc_names_self : (fs.openTrunc p).1.names p = some (fs.openTrunc p).2 := by
  unfold openTrunc
  split
  · next h => exact h
  · simp

theorem openTrunc_files_self : (fs.openTrunc p).1.files (fs.openTrunc p).2 = [] := by
  unfold openTrunc
  split <;> simp

/-- Other names are as they were. -/
theorem openTrunc_names_of_ne (h : q ≠ p) : (fs.openTrunc p).1.names q = fs.names q := by
  unfold openTrunc
  split
  · rfl
  · simp [Function.update_of_ne h]

/-- Two names stay apart. -/
theorem Apart.openTrunc (h : fs.Apart p q) (hne : q ≠ p) : (fs.openTrunc p).1.Apart p q := by
  intro n hn
  rw [openTrunc_names_self] at hn
  rw [openTrunc_names_of_ne hne, ← hn]
  unfold FileSystem.openTrunc
  split
  · next m hm => exact h m hm
  · intro hq
    exact absurd (fs.fresh q _ hq) (Nat.lt_irrefl _)

/-- Opening one file truncated leaves the content of the other. -/
theorem openTrunc_content (h : fs.Apart p q) (hne : q ≠ p) :
    (fs.openTrunc p).1.content q = fs.content q := by
  unfold content
  rw [openTrunc_names_of_ne hne]
  cases hq : fs.names q with
  | none => rfl
  | some m =>
      unfold openTrunc
      split
      · next n hn =>
          have hmn : m ≠ n := fun heq => h n hn (by rw [hq, heq])
          simp [Function.update_of_ne hmn]
      · have hmn : m ≠ fs.next := Nat.ne_of_lt (fs.fresh q m hq)
        simp [Function.update_of_ne hmn]

@[simp] theorem remove_names_self : (fs.remove p).names p = none := Function.update_self ..

theorem remove_content (h : q ≠ p) : (fs.remove p).content q = fs.content q := by
  simp [content, remove, Function.update_of_ne h]

/-- A renamed file has its content under the new name only. -/
theorem rename_eq_some {fs' : FileSystem Path β} (hne : q ≠ p) :
    fs.rename p q = some fs' →
      fs'.content q = fs.content p ∧ fs'.names p = none := by
  intro h
  unfold rename at h
  split at h
  · next n hn =>
      obtain rfl := Option.some.inj h
      simp [content, hn, Function.update_of_ne hne.symm]
  · cases h

end FileSystem
