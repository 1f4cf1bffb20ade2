import Mathlib.Logic.Function.Basic

/-!
# Names, files and what is still being written

A name leads to a file (an inode), and the file holds the bytes. A writer keeps the file it opened, so a file that
is renamed or unlinked meanwhile goes on being written, and a name that is opened again for writing truncates the
file it leads to. No two names lead to one file.
-/

namespace OpampFleet.Lib

open Function

abbrev Bytes := List UInt8

structure Files (N : Type) where
  inode : N → Option Nat
  bytes : Nat → Bytes
  fresh : Nat
  inode_lt : ∀ {n i}, inode n = some i → i < fresh
  inode_inj : ∀ {m n i}, inode m = some i → inode n = some i → m = n

namespace Files

variable {N : Type} (fs : Files N)

def empty : Files N where
  inode _ := none
  bytes _ := []
  fresh := 0
  inode_lt := by simp
  inode_inj := by simp

def opened (n : N) : Nat := (fs.inode n).getD fs.fresh

def append (i : Nat) (chunk : Bytes) : Files N :=
  { fs with bytes := update fs.bytes i (fs.bytes i ++ chunk) }

variable {fs : Files N} {n m : N} {i : Nat}

lemma inode_of_opened_eq (h : i < fs.fresh) (he : i = fs.opened n) : fs.inode n = some i := by
  cases hn : fs.inode n with
  | none => simp [opened, hn] at he; omega
  | some j => simp [opened, hn] at he; simp [he]

lemma bytes_append_self (i : Nat) (chunk : Bytes) : (fs.append i chunk).bytes i = fs.bytes i ++ chunk := by
  simp [append]

lemma bytes_append_of_ne {j : Nat} (chunk : Bytes) (h : j ≠ i) : (fs.append i chunk).bytes j = fs.bytes j := by
  simp [append, h]

variable [DecidableEq N]

def create (fs : Files N) (n : N) : Files N where
  inode := update fs.inode n (some (fs.opened n))
  bytes := update fs.bytes (fs.opened n) []
  fresh := if fs.inode n = none then fs.fresh + 1 else fs.fresh
  inode_lt := by
    intro m i h
    have hlt := @fs.inode_lt
    by_cases hm : m = n
    · subst hm
      simp only [update_self, opened, Option.some.injEq] at h
      cases hn : fs.inode m with
      | none => simp [hn] at h ⊢; omega
      | some j => have := hlt hn; simp [hn] at h ⊢; omega
    · rw [update_of_ne hm] at h
      have := hlt h
      split <;> omega
  inode_inj := by
    intro m k i hm hk
    have hopen : ∀ {j : N}, j ≠ n → fs.inode j ≠ some (fs.opened n) := by
      intro j hj h
      cases hn : fs.inode n with
      | none => have := fs.inode_lt h; simp [opened, hn] at this
      | some i => exact hj (fs.inode_inj (by simpa [opened, hn] using h) hn)
    by_cases h1 : m = n <;> by_cases h2 : k = n
    · rw [h1, h2]
    · subst h1
      rw [update_self] at hm
      rw [update_of_ne h2, ← hm] at hk
      exact absurd hk (hopen h2)
    · subst h2
      rw [update_self] at hk
      rw [update_of_ne h1, ← hk] at hm
      exact absurd hm (hopen h1)
    · rw [update_of_ne h1] at hm
      rw [update_of_ne h2] at hk
      exact fs.inode_inj hm hk

def unlink (fs : Files N) (n : N) : Files N where
  inode := update fs.inode n none
  bytes := fs.bytes
  fresh := fs.fresh
  inode_lt := by
    intro m i h
    by_cases hm : m = n
    · simp [hm] at h
    · exact fs.inode_lt (by rwa [update_of_ne hm] at h)
  inode_inj := by
    intro m k i hm hk
    by_cases h1 : m = n
    · simp [h1] at hm
    · by_cases h2 : k = n
      · simp [h2] at hk
      · exact fs.inode_inj (by rwa [update_of_ne h1] at hm) (by rwa [update_of_ne h2] at hk)

section

variable (fs : Files N)

lemma inode_create_self (n : N) : (fs.create n).inode n = some (fs.opened n) := by
  simp [create]

lemma inode_create_of_ne (h : m ≠ n) : (fs.create n).inode m = fs.inode m := by
  simp [create, h]

lemma bytes_create_of_ne (h : i ≠ fs.opened n) : (fs.create n).bytes i = fs.bytes i := by
  simp [create, h]

lemma fresh_le_create (n : N) : fs.fresh ≤ (fs.create n).fresh := by
  simp only [create]
  split <;> omega

lemma opened_lt_create (n : N) : fs.opened n < (fs.create n).fresh :=
  (fs.create n).inode_lt (fs.inode_create_self n)

end

/-- Creating a name gives no other name a known inode. -/
lemma inode_of_create (hlt : i < fs.fresh) (h : (fs.create n).inode m = some i) : fs.inode m = some i := by
  by_cases hm : m = n
  · subst hm
    rw [fs.inode_create_self] at h
    exact inode_of_opened_eq hlt (Option.some.inj h).symm
  · rwa [fs.inode_create_of_ne hm] at h

private lemma inode_unlink_self (fs : Files N) (n : N) : (fs.unlink n).inode n = none := by
  simp [unlink]

/-- Unlinking a name gives no other an inode. -/
lemma inode_of_unlink (h : (fs.unlink n).inode m = some i) : fs.inode m = some i ∧ m ≠ n := by
  by_cases hm : m = n
  · simp [hm, inode_unlink_self] at h
  · exact ⟨by simpa [unlink, hm] using h, hm⟩

end Files

end OpampFleet.Lib
