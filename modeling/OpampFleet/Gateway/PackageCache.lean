import OpampFleet.Lib.Files
import OpampFleet.Lib.Map
import OpampFleet.Lib.Transition

/-!
# The package cache

The part of the Gateway's `cache.rs` that fetches artifacts, makes room for them and serves them, as a system that takes
one step at a time. A step is what one task does under one lock, or one access to the disk; between two of them the
other fetches run. What the environment decides comes with the action.

The artifacts' files are named by their hash and the number of their stored copy, and so are the staging files; the
directory is emptied before the cache is opened.
-/

namespace OpampFleet.Gateway

open Lib

abbrev Hash := Bytes

abbrev Copy := Hash × Nat

structure Held where
  len : Nat
  used : Nat
  copy : Nat
  deriving DecidableEq

inductive FetchFailure where
  | tooLarge (limit : Nat)
  | other (error : String)
  deriving DecidableEq

inductive Purpose where
  | retry
  | evict
  deriving DecidableEq

inductive Stage where
  | requested
  /-- `delete`, off the lock: what is still to be deleted, and whether each file before is gone. -/
  | deleting (purpose : Purpose) (need : Nat) (todo : List (Copy × Nat)) (done : List (Copy × Nat × Bool))
  | retried (need : Nat)
  | reserving (need : Nat)
  | granted (need : Nat)
  | writing (need : Nat) (received : Bytes)
  | whole (need : Nat) (received : Bytes)
  | renamed (need len : Nat)
  /-- `reserved` bytes may be staged still. -/
  | failed (reserved : Nat) (failure : FetchFailure)
  | unstaged (failure : FetchFailure)
  deriving DecidableEq

inductive Fetch where
  | spawned
  | running (copy : Nat) (stage : Stage)
  deriving DecidableEq

structure PackageCache where
  held : Map Hash Held
  deleting : Map Copy Nat
  doomed : Map Copy Nat
  reserved : Map Hash Nat
  fetching : Map Hash Fetch
  failed : Finset Hash
  armed : Finset Hash
  refused : Finset Hash
  tick : Nat
  copies : Nat
  files : Map Copy Bytes
  staged : Map Copy Bytes

namespace PackageCache

def empty : PackageCache := ⟨∅, ∅, ∅, ∅, ∅, ∅, ∅, ∅, 0, 0, ∅, ∅⟩

variable (s : PackageCache)

def otherCounted : Nat := s.deleting.sum id + s.doomed.sum id + s.reserved.sum id

def bytesCounted : Nat := s.held.sum Held.len + s.otherCounted

def mayFetch (hash : Hash) : Bool :=
  (s.held.lookup hash).isNone && (s.fetching.lookup hash).isNone && hash ∉ s.refused && hash ∉ s.failed

def offerArtifact (hash : Hash) (before : Bool) : PackageCache :=
  let s := { s with failed := if before then s.failed else s.failed.erase hash, armed := insert hash s.armed }
  if s.mayFetch hash then { s with fetching := s.fetching.insert hash .spawned } else s

def decideRequest (hash : Hash) : PackageCache :=
  match s.held.lookup hash with
  | some held => { s with tick := s.tick + 1, held := s.held.insert hash { held with used := s.tick + 1 } }
  | none =>
    if (s.fetching.lookup hash).isSome then s
    else if hash ∈ s.refused || hash ∈ s.failed then s
    else if hash ∈ s.armed then
      { s with armed := s.armed.erase hash, fetching := s.fetching.insert hash .spawned }
    else s

def notFound (hash : Hash) (copy : Nat) : PackageCache :=
  let s :=
    if (s.held.lookup hash).any (fun held => held.copy = copy) then { s with held := s.held.erase hash } else s
  s.decideRequest hash

/-- The victims' order: those no current offer names first, each least recently used first. -/
def evictedBefore (offered : Hash → Bool) (x y : Sigma fun _ : Hash => Held) : Prop :=
  (offered x.1 = false ∧ offered y.1 = true) ∨ (offered x.1 = offered y.1 ∧ x.2.used ≤ y.2.used)

instance (offered : Hash → Bool) (x y : Sigma fun _ : Hash => Held) : Decidable (evictedBefore offered x y) :=
  inferInstanceAs (Decidable (_ ∨ _))

def untilFits (need capacity : Nat) : Nat → List (Sigma fun _ : Hash => Held) → List Hash × Nat
  | total, [] => ([], total)
  | total, x :: order =>
    if total + need ≤ capacity then ([], total)
    else
      let (out, total) := untilFits need capacity (total - x.2.len) order
      (x.1 :: out, total)

/-- The artifacts to delete so that `need` more bytes fit; `none` when deleting every held one is not enough. -/
def victims (held : Map Hash Held) (offered : Hash → Bool) (other need capacity : Nat) : Option (List Hash) :=
  let (out, total) :=
    untilFits need capacity (other + held.sum Held.len) (held.entries.insertionSort (evictedBefore offered))
  if total + need ≤ capacity then some out else none

def enter (hash : Hash) (copy : Nat) (stage : Stage) : PackageCache :=
  { s with fetching := s.fetching.insert hash (.running copy stage) }

def retryOne (file : Copy × Nat) : PackageCache :=
  { s with doomed := s.doomed.erase file.1, deleting := s.deleting.insert file.1 file.2 }

def evictOne (victim : Hash) (held : Held) : PackageCache :=
  { s with held := s.held.erase victim, deleting := s.deleting.insert (victim, held.copy) held.len }

def evictAll : PackageCache → List Hash → PackageCache × List (Copy × Nat)
  | s, [] => (s, [])
  | s, victim :: victims =>
    match s.held.lookup victim with
    | none => s.evictAll victims
    | some held =>
      let (t, files) := (s.evictOne victim held).evictAll victims
      (t, ((victim, held.copy), held.len) :: files)

/-- `reserve` begins: files whose deletion failed before are deleted again first. -/
def beginReserve (hash : Hash) (copy need : Nat) : PackageCache :=
  let retry := s.doomed.entries.map fun e => (e.1, e.2)
  (retry.foldl retryOne s).enter hash copy (.deleting .retry need retry [])

def makeRoom (capacity : Nat) (hash : Hash) (copy need : Nat) (offered : Hash → Bool) : PackageCache :=
  match victims s.held offered s.otherCounted need capacity with
  | none => s.enter hash copy (.failed 0 (.other "the package cache has no room while other fetches run"))
  | some out =>
    let (t, files) := s.evictAll out
    { t with reserved := t.reserved.insert hash need }.enter hash copy (.deleting .evict need files [])

def settleOne (result : Copy × Nat × Bool) : PackageCache :=
  let s := { s with deleting := s.deleting.erase result.1 }
  if result.2.2 then s else { s with doomed := s.doomed.insert result.1 result.2.1 }

def afterDeleting (purpose : Purpose) (need : Nat) : Stage :=
  match purpose with
  | .retry => .retried need
  | .evict => .reserving need

def grant (capacity : Nat) (hash : Hash) (copy need : Nat) : PackageCache :=
  if capacity < s.bytesCounted then
    { s with reserved := s.reserved.erase hash }.enter hash copy
      (.failed 0 (.other "the package cache cannot delete what it must to make room"))
  else s.enter hash copy (.granted need)

def chunk (limit : Nat) (hash : Hash) (copy need : Nat) (received more : Bytes) : PackageCache :=
  if need < received.length + more.length then
    s.enter hash copy (.failed need
      (if limit < received.length + more.length then .tooLarge limit
      else .other "the body is longer than its Content-Length"))
  else
    { s with staged := s.staged.insert (hash, copy) (received ++ more) }.enter hash copy
      (.writing need (received ++ more))

def finish (sha256 : Bytes → Hash) (s : PackageCache) (hash : Hash) (copy need : Nat) (received : Bytes) :
    PackageCache :=
  if sha256 received = hash then s.enter hash copy (.whole need received)
  else s.enter hash copy (.failed need (.other "the fetched artifact does not match the offered content hash"))

def rename (hash : Hash) (copy need : Nat) (received : Bytes) : PackageCache :=
  { s with
    staged := s.staged.erase (hash, copy)
    files := s.files.insert (hash, copy) received }.enter hash copy (.renamed need received.length)

def settle (hash : Hash) (copy : Nat) (outcome : Except FetchFailure Nat) : PackageCache :=
  let s := { s with reserved := s.reserved.erase hash, fetching := s.fetching.erase hash }
  match outcome with
  | .ok len => { s with tick := s.tick + 1, held := s.held.insert hash ⟨len, s.tick + 1, copy⟩ }
  | .error (.tooLarge _) => { s with refused := insert hash s.refused }
  | .error (.other _) => { s with failed := insert hash s.failed }

def cannotStore (error : String) : FetchFailure := .other ("cannot store the fetched artifact: " ++ error)

structure Limits where
  capacity : Nat
  limit : Nat

inductive Act where
  | offer (hash : Hash) (before : Bool)
  | request (hash : Hash)
  | notFound (hash : Hash) (copy : Nat)
  | vanish (file : Copy)
  | spawn (hash : Hash)
  | answered (hash : Hash) (contentLength : Option Nat)
  | unlink (hash : Hash) (gone : Bool)
  | lost (hash : Hash) (error : String)
  | deleted (hash : Hash)
  | choose (hash : Hash) (offered : Hash → Bool)
  | check (hash : Hash)
  | create (hash : Hash)
  | chunk (hash : Hash) (more : Bytes)
  | fail (hash : Hash) (part : Bytes) (error : String)
  | finish (hash : Hash)
  | rename (hash : Hash) (result : Except String Unit)
  | unstage (hash : Hash)
  | settle (hash : Hash)

def fetchStep (limits : Limits) (sha256 : Bytes → Hash) (s : PackageCache) (hash : Hash) (copy : Nat) :
    Stage → Act → Option PackageCache
  | .requested, .answered _ contentLength =>
    let need := contentLength.getD limits.limit
    if limits.limit < need then some (s.enter hash copy (.failed 0 (.tooLarge limits.limit)))
    else some (s.beginReserve hash copy need)
  | .requested, .fail _ _ error => some (s.enter hash copy (.failed 0 (.other error)))
  | .deleting purpose need (file :: todo) done, .unlink _ gone =>
    let s := if gone then { s with files := s.files.erase file.1 } else s
    some (s.enter hash copy (.deleting purpose need todo (done ++ [(file.1, file.2, gone)])))
  | .deleting _ _ _ _, .lost _ error => some (s.enter hash copy (.failed 0 (.other error)))
  | .deleting purpose need [] done, .deleted _ =>
    some ((done.foldl settleOne s).enter hash copy (afterDeleting purpose need))
  | .retried need, .choose _ offered => some (s.makeRoom limits.capacity hash copy need offered)
  | .reserving need, .check _ => some (s.grant limits.capacity hash copy need)
  | .granted need, .create _ =>
    some ({ s with staged := s.staged.insert (hash, copy) [] }.enter hash copy (.writing need []))
  | .granted need, .fail _ _ error => some (s.enter hash copy (.failed need (.other error)))
  | .writing need received, .chunk _ more => some (s.chunk limits.limit hash copy need received more)
  | .writing need received, .fail _ part error =>
    if received.length + part.length ≤ need then
      some ({ s with staged := s.staged.insert (hash, copy) (received ++ part) }.enter hash copy
        (.failed need (.other error)))
    else none
  | .writing need received, .finish _ => some (s.finish sha256 hash copy need received)
  | .whole need received, .rename _ result =>
    match result with
    | .ok () => some (s.rename hash copy need received)
    | .error e => some (s.enter hash copy (.failed need (cannotStore e)))
  | .failed _ failure, .unstage _ =>
    some ({ s with staged := s.staged.erase (hash, copy) }.enter hash copy (.unstaged failure))
  | .renamed _ len, .settle _ => some (s.settle hash copy (.ok len))
  | .unstaged failure, .settle _ => some (s.settle hash copy (.error failure))
  | _, _ => none

def Act.hash : Act → Hash
  | .offer hash _ | .request hash | .notFound hash _ | .vanish (hash, _) | .spawn hash | .answered hash _
  | .unlink hash _ | .lost hash _ | .deleted hash | .choose hash _ | .check hash | .create hash | .chunk hash _
  | .fail hash _ _ | .finish hash | .rename hash _ | .unstage hash | .settle hash => hash

def step (limits : Limits) (sha256 : Bytes → Hash) (s : PackageCache) (a : Act) : Option PackageCache :=
  match a with
  | .offer hash before => some (s.offerArtifact hash before)
  | .request hash => some (s.decideRequest hash)
  | .notFound hash copy => if (s.files.lookup (hash, copy)).isNone then some (s.notFound hash copy) else none
  | .vanish file => some { s with files := s.files.erase file }
  | a =>
    match s.fetching.lookup a.hash, a with
    | some .spawned, .spawn hash =>
      some ({ s with copies := s.copies + 1 }.enter hash (s.copies + 1) .requested)
    | some (.running copy stage), a => s.fetchStep limits sha256 a.hash copy stage a
    | _, _ => none

/-! ### What `victims` chooses -/

section Victims

open List

variable {held : Map Hash Held} {chosen kept : List (Sigma fun _ : Hash => Held)}

def lens (order : List (Sigma fun _ : Hash => Held)) : Nat := (order.map fun e => e.2.len).sum

private lemma untilFits_spec (need capacity other : Nat) (order : List (Sigma fun _ : Hash => Held)) :
    ∃ chosen kept, order = chosen ++ kept ∧
      untilFits need capacity (other + lens order) order = (chosen.map Sigma.fst, other + lens kept) ∧
      (kept = [] ∨ other + lens kept + need ≤ capacity) ∧
      ∀ l x, chosen = l ++ [x] → capacity < other + lens (x :: kept) + need := by
  induction order with
  | nil => exact ⟨[], [], rfl, rfl, .inl rfl, fun l x h => by simp at h⟩
  | cons x order ih =>
    by_cases hfits : other + lens (x :: order) + need ≤ capacity
    · refine ⟨[], x :: order, rfl, ?_, .inr hfits, fun l x h => by simp at h⟩
      rw [untilFits, if_pos hfits]
      rfl
    obtain ⟨chosen, kept, horder, hrest, hfit, hlast⟩ := ih
    have hless : other + lens (x :: order) - x.2.len = other + lens order := by
      simp only [lens, map_cons, sum_cons]
      omega
    refine ⟨x :: chosen, kept, congrArg (x :: ·) horder, ?_, hfit, ?_⟩
    · rw [untilFits, if_neg hfits, hless, hrest]
      rfl
    intro l y hl
    cases l with
    | nil =>
      obtain ⟨rfl, rfl⟩ := List.cons.inj hl
      rw [← show order = kept from horder]
      omega
    | cons z l => exact hlast l y (List.cons.inj hl).2

private lemma chosen_apart (h : (chosen ++ kept).Perm held.entries) :
    (chosen.map Sigma.fst).Nodup ∧ ∀ e ∈ kept, e.1 ∉ chosen.map Sigma.fst := by
  have hkeys : ((chosen ++ kept).map Sigma.fst).Nodup := (h.map Sigma.fst).nodup_iff.mpr held.nodupKeys
  rw [map_append, nodup_append] at hkeys
  exact ⟨hkeys.1, fun e he hchosen => hkeys.2.2 _ hchosen _ (mem_map_of_mem he) rfl⟩

private lemma sum_kept (h : (chosen ++ kept).Perm held.entries) :
    (held.filter fun hash _ => hash ∉ chosen.map Sigma.fst).sum Held.len = lens kept := by
  have hkept : (chosen ++ kept).filter (fun e => e.1 ∉ chosen.map Sigma.fst) = kept := by
    rw [filter_append, filter_eq_nil_iff.mpr, nil_append, filter_eq_self.mpr]
    · exact fun e he => decide_eq_true ((chosen_apart h).2 e he)
    · exact fun e he => by simpa using ⟨e.2, he⟩
  rw [← congrArg lens hkept]
  exact ((h.filter _).map _).sum_nat.symm

instance (offered : Hash → Bool) : Std.Total (evictedBefore offered) where
  total x y := by
    unfold evictedBefore
    cases offered x.1 <;> cases offered y.1 <;> simp [Nat.le_total]

instance (offered : Hash → Bool) : IsTrans _ (evictedBefore offered) where
  trans x y z := by
    unfold evictedBefore
    cases offered x.1 <;> cases offered y.1 <;> cases offered z.1 <;> simp <;> omega

/-- `victims` answers `none` exactly when deleting every held artifact makes no room. Else its answer is held artifacts,
each once; one that is kept comes after them in the order; and their deletion makes room, but not that of all but the
last. -/
theorem victims_least (held : Map Hash Held) (offered : Hash → Bool) (other need capacity : Nat) :
    (victims held offered other need capacity = none ↔ capacity < other + need) ∧
    ∀ out, victims held offered other need capacity = some out →
      out.Nodup ∧ (∀ hash ∈ out, (held.lookup hash).isSome = true) ∧
      (∀ x ∈ held.entries, ∀ y ∈ held.entries, x.1 ∉ out → y.1 ∈ out → evictedBefore offered y x) ∧
      other + (held.filter fun hash _ => hash ∉ out).sum Held.len + need ≤ capacity ∧
      ∀ l last, out = l ++ [last] →
        capacity < other + (held.filter fun hash _ => hash ∉ l).sum Held.len + need := by
  have hperm := perm_insertionSort (evictedBefore offered) held.entries
  have hsorted := pairwise_insertionSort (evictedBefore offered) held.entries
  obtain ⟨chosen, kept, horder, hfits, hroom, hlast⟩ :=
    untilFits_spec need capacity other (held.entries.insertionSort (evictedBefore offered))
  have hvictims : victims held offered other need capacity =
      if other + lens kept + need ≤ capacity then some (chosen.map Sigma.fst) else none := by
    have hsum : held.sum Held.len = lens (held.entries.insertionSort (evictedBefore offered)) :=
      (hperm.map _).sum_nat.symm
    rw [victims, hsum, hfits]
  rw [horder] at hperm hsorted
  constructor
  · rw [hvictims, ite_eq_right_iff]
    constructor
    · intro hnone
      rcases hroom with rfl | hle
      · exact Nat.lt_of_not_le fun hle => nomatch hnone hle
      · cases hnone hle
    · intro hlt hle
      omega
  intro out hout
  obtain ⟨hle, ⟨⟩⟩ := Option.ite_none_right_eq_some.mp (hvictims.symm.trans hout)
  obtain ⟨honce, hapart⟩ := chosen_apart hperm
  refine ⟨honce, ?_, ?_, ?_, ?_⟩
  · intro hash hhash
    obtain ⟨e, he, rfl⟩ := mem_map.mp hhash
    rw [Option.isSome_iff_exists]
    exact ⟨e.2, AList.mem_lookup_iff.mpr (hperm.subset (mem_append_left kept he))⟩
  · intro x hx y hy hkeeps hchosen
    have hx' := (mem_append.mp (hperm.mem_iff.mpr hx)).resolve_left fun h => hkeeps (mem_map_of_mem h)
    have hy' := (mem_append.mp (hperm.mem_iff.mpr hy)).resolve_right fun h => hapart y h hchosen
    exact (pairwise_append.mp hsorted).2.2 y hy' x hx'
  · rwa [sum_kept hperm]
  · intro l last hl
    obtain ⟨first, rest, rfl, rfl, hrest⟩ := map_eq_append_iff.mp hl
    obtain ⟨e, rfl, -⟩ := map_eq_singleton_iff.mp hrest
    have hperm' : (first ++ e :: kept).Perm held.entries := by simpa using hperm
    rw [sum_kept hperm']
    exact hlast first e rfl

end Victims

end PackageCache

end OpampFleet.Gateway
