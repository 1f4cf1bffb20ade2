import OpampFleet.Lib.Fallible
import OpampFleet.Lib.Transition
import OpampFleet.Server.Packages

/-!
# Uploads and the ceiling of the package store

The upload route of `api.rs` with the `UploadReservation` of `fleet.rs`. The bytes of an upload are counted in
`uploading_bytes` from their arrival until the handler drops its reservation, and in the store from its commit on; in
between they are counted twice. The check before the commit reads the stored bytes and then the uploading ones. An
upload that commits after the first read and drops its reservation before the second is in neither
(`commit_check_misses_a_commit`).
-/

namespace OpampFleet.Server

open Lib List Map

/-! ### What the store holds -/

namespace PackageStore

def allEntries (store : PackageStore) : List Entry := store.sets.values.flatMap Map.values

def blobs (store : PackageStore) : Map Bytes Nat :=
  store.allEntries.foldl (fun blobs entry => blobs.insert entry.contentHash entry.size) ∅

def totalBytes (store : PackageStore) : Nat := store.blobs.sum id

variable {entry : Entry} {store other : PackageStore} {id : PackageId} {disk : Disk} {len : Bytes → Nat}
  {platform : Platform}

private lemma mem_allEntries : entry ∈ store.allEntries ↔
      ∃ id entries platform, store.sets.lookup id = some entries ∧ entries.lookup platform = some entry := by
  unfold allEntries
  simp only [mem_flatMap, mem_values]
  constructor
  · rintro ⟨entries, ⟨id, hid⟩, platform, hplatform⟩
    exact ⟨id, entries, platform, hid, hplatform⟩
  · rintro ⟨id, entries, platform, hid, hplatform⟩
    exact ⟨entries, ⟨id, hid⟩, platform, hplatform⟩

def Sized (len : Bytes → Nat) (store : PackageStore) : Prop :=
  ∀ entry ∈ store.allEntries, entry.size = len entry.contentHash

private lemma totalBytes_le_add (hstore : Sized len store) (hother : Sized len other) (hash : Bytes)
    (h : ∀ entry ∈ other.allEntries, entry ∈ store.allEntries ∨ entry.contentHash = hash) :
    other.totalBytes ≤ store.totalBytes + len hash := by
  have hle : other.totalBytes ≤ Map.sum (store.blobs.insert hash (len hash)) id := by
    refine sum_le_of_lookup (fun k v hk => ?_) id
    unfold blobs at hk ⊢
    rw [lookup_foldl_insert_eq _ _ len _ hother] at hk
    rw [lookup_insert_ite, lookup_foldl_insert_eq _ _ len _ hstore]
    split at hk
    next hmem =>
      cases hk
      obtain ⟨entry, hentry, rfl⟩ := mem_map.mp hmem
      rcases h entry hentry with hheld | hnew
      · rw [if_pos (mem_map_of_mem hheld)]
        split
        next heq =>
          rw [heq]
        · rfl
      · rw [if_pos hnew, hnew]
    · cases hk
  have hinsert := sum_insert store.blobs hash (len hash) id
  unfold totalBytes at *
  simp only [id_eq] at hinsert
  omega

private lemma totalBytes_le_of_subset (hstore : Sized len store)
    (h : ∀ entry ∈ other.allEntries, entry ∈ store.allEntries) : other.totalBytes ≤ store.totalBytes := by
  have hother : Sized len other := fun entry hentry => hstore entry (h entry hentry)
  refine sum_le_of_lookup (fun k v hk => ?_) id
  unfold blobs at hk ⊢
  rw [lookup_foldl_insert_eq _ _ len _ hother] at hk
  rw [lookup_foldl_insert_eq _ _ len _ hstore]
  split at hk
  next hmem =>
    obtain ⟨entry, hentry, rfl⟩ := mem_map.mp hmem
    rwa [if_pos (mem_map_of_mem (h entry hentry))]
  · cases hk

/-! ### What a write leaves of the entries -/

private lemma replaceFile_sets (store : PackageStore) (disk : Disk) (id : PackageId) (entries : Entries) :
    (store.replaceFile disk id entries).1.sets = store.sets := by
  unfold replaceFile
  split
  · rfl
  · split <;> rfl

private lemma amend_sets (store : PackageStore) (disk : Disk) (id : PackageId) (change : Entries → Entries) :
    (store.amend disk id change).1.sets = store.sets := by
  unfold amend
  split
  · rfl
  · rfl
  · exact replaceFile_sets store disk id _

private lemma mem_allEntries_setEntries (hsets : other.sets = store.sets)
    {entries : Entries} (h : entry ∈ (other.setEntries id entries).allEntries) :
    entry ∈ store.allEntries ∨ ∃ platform, entries.lookup platform = some entry := by
  obtain ⟨i, held, platform, hi, hplatform⟩ := mem_allEntries.mp h
  rw [setEntries, hsets, lookup_insert_ite] at hi
  split at hi
  · cases hi
    exact .inr ⟨platform, hplatform⟩
  · exact .inl (mem_allEntries.mpr ⟨i, held, platform, hi, hplatform⟩)

private lemma allEntries_putEntryRecord {new : Entry}
    (h : entry ∈ (store.putEntryRecord disk id new).1.allEntries) : entry ∈ store.allEntries ∨ entry = new := by
  have hamend := amend_sets store disk id fun stored => stored.insert new.platform new
  unfold putEntryRecord at h
  split at h
  · exact .inl h
  · exact .inl h
  · exact .inl h
  next entries hlookup _ =>
    split at h
    next ha =>
      rw [ha] at hamend
      obtain ⟨i, held, platform, hi, hplatform⟩ := mem_allEntries.mp h
      rw [hamend] at hi
      exact .inl (mem_allEntries.mpr ⟨i, held, platform, hi, hplatform⟩)
    next ha =>
      rw [ha] at hamend
      rcases mem_allEntries_setEntries hamend h with hheld | ⟨platform, hplatform⟩
      · exact .inl hheld
      · rcases lookup_of_insert hplatform with ⟨-, rfl⟩ | hplatform
        · exact .inr rfl
        · exact .inl (mem_allEntries.mpr ⟨id, entries, platform, hlookup, hplatform⟩)

private lemma allEntries_putEntryFrom {sha256 : Bytes → Bytes} {artifact : Bytes}
    (h : entry ∈ (store.putEntryFrom sha256 disk id platform artifact).1.allEntries) :
    entry ∈ store.allEntries ∨ entry = ⟨platform, sha256 artifact, artifact.length, none⟩ := by
  unfold putEntryFrom at h
  split at h
  · exact .inl h
  · exact .inl h
  · split at h
    · exact .inl h
    · split at h
      · exact .inl h
      · exact allEntries_putEntryRecord h

private lemma allEntries_deleteEntry
    (h : entry ∈ (store.deleteEntry disk id platform).1.allEntries) : entry ∈ store.allEntries := by
  have hremove : (store.removeEntry disk id platform).1.sets = store.sets := by
    unfold removeEntry
    split
    · rfl
    · rfl
    · split
      · rfl
      · exact replaceFile_sets store disk id _
  unfold deleteEntry at h
  split at h
  · exact h
  rename_i entries hlookup
  split at h
  · exact h
  split at h
  next hr =>
    rw [hr] at hremove
    obtain ⟨i, held, p, hi, hp⟩ := mem_allEntries.mp h
    rw [hremove] at hi
    exact mem_allEntries.mpr ⟨i, held, p, hi, hp⟩
  next hr =>
    rw [hr] at hremove
    rcases mem_allEntries_setEntries hremove h with hheld | ⟨p, hp⟩
    · exact hheld
    · exact mem_allEntries.mpr ⟨id, entries, p, hlookup, (lookup_of_erase hp)⟩

private lemma allEntries_removeSet (h : entry ∈ (store.removeSet disk id).1.allEntries) : entry ∈ store.allEntries := by
  unfold removeSet at h
  split at h
  · exact h
  · split at h
    · exact h
    · obtain ⟨i, held, p, hi, hp⟩ := mem_allEntries.mp h
      exact mem_allEntries.mpr ⟨i, held, p, (lookup_of_erase hi), hp⟩

end PackageStore

/-! ### The uploads of one Server -/

inductive UploadPhase where
  | admitting
  | streaming
  | checking (stored : Nat)
  | ended
  | answered
  | refused
  /-- The handler was dropped after the end was handed over; the store's thread goes on. -/
  | abandoned
  | over
  deriving DecidableEq

structure Upload where
  id : PackageId
  platform : Platform
  stored : Nat
  artifact : Bytes
  phase : UploadPhase
  deriving DecidableEq

structure UploadLimits where
  maxTotalPackageBytes : Nat
  maxPackageSize : Nat

structure Uploads where
  store : PackageStore
  uploadingBytes : Nat
  uploads : Map Nat Upload

namespace Uploads

variable (limits : UploadLimits) (s : Uploads) (n : Nat) (u : Upload)

def enter (phase : UploadPhase) : Uploads :=
  { s with uploads := s.uploads.insert n { u with phase := phase } }

def dropReservation (phase : UploadPhase) : Uploads :=
  { s.enter n u phase with uploadingBytes := s.uploadingBytes - u.artifact.length }

def exceeds (stored uploading : Nat) : Bool := limits.maxTotalPackageBytes < stored + uploading

/-- A request's first read: the store's bytes, once the Package may be written. -/
def begin (id : PackageId) (platform : Platform) (pinned : Bool) : Uploads :=
  if pinned || !(s.store.writable id).isOk then s
  else { s with uploads := s.uploads.insert n ⟨id, platform, s.store.totalBytes, [], .admitting⟩ }

def admitUpload : Uploads :=
  if limits.maxTotalPackageBytes ≤ u.stored + s.uploadingBytes then s.enter n u .over else s.enter n u .streaming

def chunk (more : Bytes) : Uploads :=
  if limits.maxPackageSize < u.artifact.length + more.length then s.enter n u .refused
  else
    let grown : Uploads := { s with uploadingBytes := s.uploadingBytes + more.length }
    let u := { u with artifact := u.artifact ++ more }
    if exceeds limits u.stored grown.uploadingBytes then grown.enter n u .refused else grown.enter n u .streaming

/-- The second read of `admit_artifact`; an upload that passes is ended. -/
def admitArtifact (stored : Nat) : Uploads :=
  if exceeds limits stored s.uploadingBytes then s.enter n u .refused else s.enter n u .ended

/-- The store's thread, once it has the end: the entry, unless the Package was assigned meanwhile. -/
def commit (sha256 : Bytes → Bytes) (s : Uploads) (n : Nat) (u : Upload) (disk : Disk) (pinned : Bool)
    (phase : UploadPhase) : Uploads :=
  let store := if pinned then s.store else (s.store.putEntryFrom sha256 disk u.id u.platform u.artifact).1
  { s.enter n u phase with store := store }

inductive Act where
  | begin (n : Nat) (id : PackageId) (platform : Platform) (pinned : Bool)
  | admission (n : Nat)
  | chunk (n : Nat) (more : Bytes)
  | cut (n : Nat)
  | readStored (n : Nat)
  | readUploading (n : Nat)
  | commit (n : Nat) (disk : Disk) (pinned : Bool)
  | release (n : Nat)
  | cancel (n : Nat)
  | abandon (n : Nat)
  | deleteEntry (disk : Disk) (id : PackageId) (platform : Platform)
  | removeSet (disk : Disk) (id : PackageId)

def step (sha256 : Bytes → Bytes) (s : Uploads) : Act → Option Uploads
  | .begin n id platform pinned => if (s.uploads.lookup n).isSome then none else some (s.begin n id platform pinned)
  | .admission n => (s.uploads.lookup n).bind fun u =>
    if u.phase = .admitting then some (s.admitUpload limits n u) else none
  | .chunk n more => (s.uploads.lookup n).bind fun u =>
    if u.phase = .streaming then some (s.chunk limits n u more) else none
  | .cut n => (s.uploads.lookup n).bind fun u => if u.phase = .streaming then some (s.enter n u .refused) else none
  | .readStored n => (s.uploads.lookup n).bind fun u =>
    if u.phase = .streaming then some (s.enter n u (.checking s.store.totalBytes)) else none
  | .readUploading n => (s.uploads.lookup n).bind fun u =>
    match u.phase with
    | .checking stored => some (s.admitArtifact limits n u stored)
    | _ => none
  | .commit n disk pinned => (s.uploads.lookup n).bind fun u =>
    match u.phase with
    | .ended => some (s.commit sha256 n u disk pinned .answered)
    | .abandoned => some (s.commit sha256 n u disk pinned .over)
    | _ => none
  | .release n => (s.uploads.lookup n).bind fun u =>
    if u.phase = .answered ∨ u.phase = .refused then some (s.dropReservation n u .over) else none
  | .cancel n => (s.uploads.lookup n).bind fun u =>
    if u.phase = .streaming ∨ u.phase = .refused ∨ u.phase = .ended then some (s.dropReservation n u .over) else none
  | .abandon n => (s.uploads.lookup n).bind fun u =>
    if u.phase = .ended then some (s.dropReservation n u .abandoned) else none
  | .deleteEntry disk id platform => some { s with store := (s.store.deleteEntry disk id platform).1 }
  | .removeSet disk id => some { s with store := (s.store.removeSet disk id).1 }

end Uploads

/-! ### The account of the bytes -/

def Upload.reserved (u : Upload) : Nat :=
  match u.phase with
  | .streaming | .checking _ | .ended | .answered | .refused => u.artifact.length
  | .admitting | .abandoned | .over => 0

def Upload.due (u : Upload) : Nat := if u.phase = .ended then u.artifact.length else 0

open Upload

def Upload.twice (u : Upload) : Nat := if u.phase = .answered then u.artifact.length else 0

attribute [simp] Upload.reserved Upload.twice

private lemma Upload.due_add_twice_le (u : Upload) : u.due + u.twice ≤ u.reserved := by
  unfold due twice reserved
  cases u.phase <;> simp

namespace Uploads

/-- The stored bytes and those due are within the ceiling, and an upload between the reads of its check has missed at
most what is counted twice. -/
structure Accounted (limits : UploadLimits) (len : Bytes → Nat) (s : Uploads) : Prop where
  sized : s.store.Sized len
  reserved : s.uploadingBytes = s.uploads.sum Upload.reserved
  room : s.store.totalBytes + s.uploads.sum due ≤ limits.maxTotalPackageBytes
  checking : ∀ n u stored, s.uploads.lookup n = some u → u.phase = .checking stored →
    s.store.totalBytes ≤ stored + s.uploads.sum twice
  kept : ∀ n u, s.uploads.lookup n = some u → u.phase ≠ .abandoned ∧ (u.phase = .admitting → u.artifact = [])

def isChecking (s : Uploads) :
    Bool := s.uploads.values.any fun u => match u.phase with | .checking _ => true | _ => false

variable {s : Uploads} {len : Bytes → Nat}

private lemma isChecking_of {n : Nat} {u : Upload} {stored : Nat} (h : s.uploads.lookup n = some u)
    (hphase : u.phase = .checking stored) : s.isChecking = true := by
  refine any_eq_true.mpr ⟨u, mem_values.mpr ⟨n, h⟩, ?_⟩
  rw [hphase]

private lemma Accounted.turn {limits : UploadLimits} (h : Accounted limits len s) {n : Nat}
    {u : Upload} (hu : s.uploads.lookup n = some u) (u' : Upload) (store : PackageStore) (uploading : Nat)
    (hsized : store.Sized len) (hreserved : uploading + u.reserved = s.uploadingBytes + u'.reserved)
    (hroom : store.totalBytes + s.uploads.sum Upload.due + u'.due ≤ limits.maxTotalPackageBytes + u.due)
    (hmissed : s.isChecking = false ∨ store.totalBytes + u.twice ≤ s.store.totalBytes + u'.twice)
    (hchecking : ∀ stored, u'.phase = .checking stored → store.totalBytes ≤ stored)
    (hkept : u'.phase ≠ .abandoned ∧ u'.phase ≠ .admitting) :
      Accounted limits len ⟨store, uploading, s.uploads.insert n u'⟩ := by
  have hsum := fun f => sum_insert s.uploads n u' f
  simp only [hu, Option.elim_some] at hsum
  refine ⟨hsized, ?_, ?_, ?_, ?_⟩
  · have hheld := h.reserved
    have hr := hsum Upload.reserved
    simp only
    omega
  · have hd := hsum Upload.due
    simp only
    omega
  · intro m w stored hw hphase
    have ht := hsum Upload.twice
    rcases lookup_of_insert hw with ⟨-, rfl⟩ | hw
    · exact Nat.le_trans (hchecking stored hphase) (Nat.le_add_right _ _)
    rcases hmissed with hnone | hmissed
    · simp [isChecking_of hw hphase] at hnone
    · have hold := h.checking m w stored hw hphase
      simp only
      omega
  · intro m w hw
    rcases lookup_of_insert hw with ⟨-, rfl⟩ | hw
    · exact ⟨hkept.1, fun hadmitting => absurd hadmitting hkept.2⟩
    · exact h.kept m w hw

private lemma Accounted.shrink {limits : UploadLimits} (h : Accounted limits len s)
    {store : PackageStore} (hsub : ∀ entry ∈ store.allEntries, entry ∈ s.store.allEntries) :
    Accounted limits len { s with store := store } := by
  have hle := PackageStore.totalBytes_le_of_subset h.sized hsub
  refine ⟨fun entry hentry => h.sized entry (hsub entry hentry), h.reserved, ?_, ?_, h.kept⟩
  · exact Nat.le_trans (Nat.add_le_add_right hle _) h.room
  · exact fun n u stored hu hphase => Nat.le_trans hle (h.checking n u stored hu hphase)

section Steps

variable {limits : UploadLimits} {len : Bytes → Nat} {sha256 : Bytes → Bytes} {s : Uploads} {n : Nat} {u : Upload}

section

variable (h : Accounted limits len s)
include h

private lemma Accounted.reserved_le (hu : s.uploads.lookup n = some u) : u.reserved ≤ s.uploadingBytes := by
  have hsum := sum_insert s.uploads n { u with phase := .over } Upload.reserved
  have hheld := h.reserved
  simp only [hu, Option.elim_some, show ({ u with phase := .over } : Upload).reserved = 0 from rfl] at hsum
  omega

variable {phase : UploadPhase}

private lemma Accounted.enter (hu : s.uploads.lookup n = some u)
    (hreserved : u.reserved = ({ u with phase := phase } : Upload).reserved)
    (hroom : s.store.totalBytes + s.uploads.sum due + ({ u with phase := phase } : Upload).due ≤
      limits.maxTotalPackageBytes + u.due)
    (htwice : u.twice ≤ ({ u with phase := phase } : Upload).twice)
    (hchecking : ∀ stored, phase = .checking stored → s.store.totalBytes ≤ stored)
    (hkept : phase ≠ .abandoned ∧ phase ≠ .admitting) :
    Accounted limits len (s.enter n u phase) :=
  h.turn hu { u with phase := phase } s.store s.uploadingBytes h.sized (by rw [hreserved]) hroom
    (.inr (Nat.add_le_add_left htwice _)) hchecking hkept

private lemma Accounted.begin (hnone : s.uploads.lookup n = none) (id : PackageId)
    (platform : Platform) (pinned : Bool) : Accounted limits len (s.begin n id platform pinned) := by
  unfold Uploads.begin
  split
  · exact h
  have hsum := fun f => sum_insert s.uploads n ⟨id, platform, s.store.totalBytes, [], .admitting⟩ f
  simp only [hnone, Option.elim_none, Nat.add_zero] at hsum
  refine ⟨h.sized, ?_, ?_, ?_, ?_⟩
  · simpa [hsum] using h.reserved
  · simpa [hsum, due] using h.room
  · intro m w stored hw hphase
    rcases lookup_of_insert hw with ⟨-, rfl⟩ | hw
    · cases hphase
    · simpa [hsum] using h.checking m w stored hw hphase
  · intro m w hw
    rcases lookup_of_insert hw with ⟨-, rfl⟩ | hw
    · exact ⟨by simp, fun _ => rfl⟩
    · exact h.kept m w hw

section

variable (hu : s.uploads.lookup n = some u)
include hu

private lemma Accounted.enter_plain
    (hreserved : u.reserved = ({ u with phase := phase } : Upload).reserved) (htwice : u.phase ≠ .answered)
    (hdue : phase ≠ .ended) (hchecking : ∀ stored, phase = .checking stored → s.store.totalBytes ≤ stored)
    (hkept : phase ≠ .abandoned ∧ phase ≠ .admitting) : Accounted limits len (s.enter n u phase) := by
  have hroom := h.room
  refine h.enter hu hreserved ?_ ?_ hchecking hkept
  · simp only [due, if_neg hdue]
    omega
  · simp [htwice]

private lemma Accounted.admitUpload (hphase : u.phase = .admitting) :
    Accounted limits len (s.admitUpload limits n u) := by
  have hempty := (h.kept n u hu).2 hphase
  unfold Uploads.admitUpload
  split
  · exact h.enter_plain hu (by simp [hphase]) (by simp [hphase]) (by simp) (by simp) (by simp)
  · exact h.enter_plain hu (by simp [hphase, hempty]) (by simp [hphase]) (by simp) (by simp) (by simp)

private lemma Accounted.chunk (hphase : u.phase = .streaming)
    (more : Bytes) : Accounted limits len (s.chunk limits n u more) := by
  have hgrown : ∀ phase, phase = .refused ∨ phase = .streaming →
      Accounted limits len ⟨s.store, s.uploadingBytes + more.length,
        s.uploads.insert n { u with artifact := u.artifact ++ more, phase := phase }⟩ := by
    intro phase hnext
    have hroom := h.room
    refine h.turn hu _ s.store _ h.sized ?_ ?_ (.inr ?_) ?_ ?_
    · rcases hnext with rfl | rfl <;> simp [hphase] <;> omega
    · rcases hnext with rfl | rfl <;> simp [due, hphase, hroom]
    · rcases hnext with rfl | rfl <;> simp [hphase]
    · rcases hnext with rfl | rfl <;> simp
    · rcases hnext with rfl | rfl <;> simp
  unfold Uploads.chunk
  split
  · exact h.enter_plain hu (by simp [hphase]) (by simp [hphase]) (by simp) (by simp) (by simp)
  · simp only
    split
    · exact hgrown _ (.inl rfl)
    · exact hgrown _ (.inr rfl)

/-- The check counts the upload's own bytes, those due and those counted twice, which cover what it missed. -/
private lemma Accounted.admitArtifact {stored : Nat}
    (hphase : u.phase = .checking stored) : Accounted limits len (s.admitArtifact limits n u stored) := by
  unfold Uploads.admitArtifact
  split
  · exact h.enter_plain hu (by simp [hphase]) (by simp [hphase]) (by simp) (by simp) (by simp)
  rename_i hwithin
  refine h.enter hu (by simp [hphase]) ?_ (by simp [hphase]) (by simp) (by simp)
  have hmissed := h.checking n u stored hu hphase
  have hsum := fun f => sum_insert s.uploads n { u with phase := .ended } f
  simp only [hu, Option.elim_some] at hsum
  have hreserved := hsum Upload.reserved
  have hdue := hsum Upload.due
  have htwice := hsum Upload.twice
  have hcover := sum_add_le Upload.due_add_twice_le (s.uploads.insert n { u with phase := .ended })
  have hheld := h.reserved
  simp only [exceeds, decide_eq_true_eq, Nat.not_lt] at hwithin
  simp only [Upload.reserved, Upload.due, Upload.twice, hphase] at hreserved hdue htwice ⊢
  simp at hreserved hdue htwice ⊢
  omega

end

private lemma Accounted.commit (hlen : ∀ artifact, artifact.length = len (sha256 artifact))
    (hu : s.uploads.lookup n = some u) (hphase : u.phase = .ended) (disk : Disk) (pinned : Bool) :
    Accounted limits len (s.commit sha256 n u disk pinned .answered) := by
  have hroom := h.room
  have hanswered : ∀ store : PackageStore, store.Sized len →
      store.totalBytes ≤ s.store.totalBytes + u.artifact.length →
      Accounted limits len ⟨store, s.uploadingBytes, s.uploads.insert n { u with phase := .answered }⟩ := by
    intro store hsized hle
    refine h.turn hu _ store _ hsized ?_ ?_ (.inr ?_) (by simp) (by simp)
    · simp [hphase]
    · simp [due, hphase]
      omega
    · simpa [hphase] using hle
  cases pinned with
  | true => exact hanswered s.store h.sized (Nat.le_add_right _ _)
  | false =>
    have hentries : ∀ entry ∈ (s.store.putEntryFrom sha256 disk u.id u.platform u.artifact).1.allEntries,
        entry ∈ s.store.allEntries ∨ entry = ⟨u.platform, sha256 u.artifact, u.artifact.length, none⟩ :=
      fun entry hentry => PackageStore.allEntries_putEntryFrom hentry
    have hsized : PackageStore.Sized len (s.store.putEntryFrom sha256 disk u.id u.platform u.artifact).1 := by
      intro entry hentry
      rcases hentries entry hentry with hheld | rfl
      · exact h.sized entry hheld
      · exact hlen u.artifact
    refine hanswered _ hsized ?_
    rw [hlen u.artifact]
    refine PackageStore.totalBytes_le_add h.sized hsized _ fun entry hentry => ?_
    exact (hentries entry hentry).imp id fun heq => by rw [heq]

private lemma Accounted.dropReservation (hu : s.uploads.lookup n = some u)
    (hreserved : u.reserved = u.artifact.length) (hmissed : u.phase ≠ .answered ∨ s.isChecking = false) :
    Accounted limits len (s.dropReservation n u .over) := by
  have hroom := h.room
  have hle := h.reserved_le hu
  refine h.turn hu { u with phase := .over } s.store _ h.sized ?_ ?_ ?_ (by simp) (by simp)
  · simp only [show ({ u with phase := .over } : Upload).reserved = 0 from rfl]
    omega
  · simp only [show ({ u with phase := .over } : Upload).due = 0 from rfl]
    omega
  · rcases hmissed with hphase | hnone
    · exact .inr (by simp [hphase])
    · exact .inl hnone

end

end Steps

/-- No reservation of a committed upload is dropped while another upload is between the reads of its check, and no
handler is dropped while its store commits. -/
def Orderly (s : Uploads) : Act → Prop
  | .release n => (s.uploads.lookup n).any (fun u => u.phase = .answered) = true → s.isChecking = false
  | .abandon _ => False
  | _ => True

instance (s : Uploads) (a : Act) : Decidable (Orderly s a) := by
  cases a <;> unfold Orderly <;> infer_instance

private lemma Accounted.step {limits : UploadLimits} {sha256 : Bytes → Bytes} {t : Uploads} {a : Act}
    (h : Accounted limits len s) (hlen : ∀ artifact, artifact.length = len (sha256 artifact)) (hok : Orderly s a)
    (hstep : s.step limits sha256 a = some t) : Accounted limits len t := by
  cases a with
  | begin n id platform pinned =>
    obtain ⟨hnone, hstep⟩ := Option.ite_none_left_eq_some.mp hstep
    cases hstep
    exact h.begin (by simpa using hnone) id platform pinned
  | admission n =>
    obtain ⟨u, hu, hphase, rfl⟩ := bind_guard_eq_some.mp hstep
    exact h.admitUpload hu hphase
  | chunk n more =>
    obtain ⟨u, hu, hphase, rfl⟩ := bind_guard_eq_some.mp hstep
    exact h.chunk hu hphase more
  | cut n =>
    obtain ⟨u, hu, hphase, rfl⟩ := bind_guard_eq_some.mp hstep
    exact h.enter_plain hu (by simp [hphase]) (by simp [hphase]) (by simp) (by simp) (by simp)
  | readStored n =>
    obtain ⟨u, hu, hphase, rfl⟩ := bind_guard_eq_some.mp hstep
    refine h.enter_plain hu (by simp [hphase]) (by simp [hphase]) (by simp) ?_ (by simp)
    intro stored hstored
    cases hstored
    exact le_rfl
  | readUploading n =>
    obtain ⟨u, hu, hstep⟩ := Option.bind_eq_some_iff.mp hstep
    split at hstep
    · cases hstep
      exact h.admitArtifact hu ‹_›
    · cases hstep
  | commit n disk pinned =>
    obtain ⟨u, hu, hstep⟩ := Option.bind_eq_some_iff.mp hstep
    split at hstep
    · cases hstep
      exact h.commit hlen hu ‹_› disk pinned
    · exact absurd ‹_› (h.kept n u hu).1
    · cases hstep
  | release n =>
    obtain ⟨u, hu, hphase, rfl⟩ := bind_guard_eq_some.mp hstep
    rcases hphase with hphase | hphase
    · exact h.dropReservation hu (by simp [hphase]) (.inr (hok (by simp [hu, hphase])))
    · exact h.dropReservation hu (by simp [hphase]) (.inl (by simp [hphase]))
  | cancel n =>
    obtain ⟨u, hu, hphase, rfl⟩ := bind_guard_eq_some.mp hstep
    rcases hphase with hphase | hphase | hphase <;>
      exact h.dropReservation hu (by simp [hphase]) (.inl (by simp [hphase]))
  | abandon n => exact absurd hok id
  | deleteEntry disk id platform =>
    cases hstep
    exact h.shrink fun entry => PackageStore.allEntries_deleteEntry
  | removeSet disk id =>
    cases hstep
    exact h.shrink fun entry => PackageStore.allEntries_removeSet

def start (store : PackageStore) : Uploads := ⟨store, 0, ∅⟩

/-- Where equal hashes are of artifacts of equal length, the stored artifacts never exceed the ceiling in a run in which
no reservation of a committed upload is dropped while another upload is between the reads of its check, and no handler
while its store commits. -/
theorem totalBytes_le_ceiling (limits : UploadLimits) (sha256 : Bytes → Bytes)
    (hsha : ∀ a b, sha256 a = sha256 b → a.length = b.length) (store : PackageStore)
    (hentries : ∀ entry ∈ store.allEntries, ∃ artifact, sha256 artifact = entry.contentHash ∧
      artifact.length = entry.size) (hstore : store.totalBytes ≤ limits.maxTotalPackageBytes) (s : Uploads)
    (h : Reach (start store) (restrict Orderly (step limits sha256)) s) :
    s.store.totalBytes ≤ limits.maxTotalPackageBytes := by
  classical
  obtain ⟨len, hlen⟩ : ∃ len : Bytes → Nat, ∀ artifact, artifact.length = len (sha256 artifact) := by
    refine ⟨fun hash => if hx : ∃ a, sha256 a = hash then hx.choose.length else 0, fun artifact => ?_⟩
    have hx : ∃ a, sha256 a = sha256 artifact := ⟨artifact, rfl⟩
    simp only [dif_pos hx]
    exact hsha _ _ hx.choose_spec.symm
  have hstart : Accounted limits len (start store) := by
    refine ⟨fun entry hentry => ?_, rfl, hstore, fun n u stored hu => ?_, fun n u hu => ?_⟩
    · obtain ⟨artifact, hhash, hsize⟩ := hentries entry hentry
      rw [← hsize, ← hhash]
      exact hlen artifact
    · cases hu
    · cases hu
  have haccounted : Accounted limits len s := by
    exact h.invariant_restrict hstart fun _ _ _ hs hok hstep => hs.step hlen hok hstep
  exact Nat.le_trans (Nat.le_add_right _ _) haccounted.room

namespace Small

def otelcol : PackageId := ⟨"otelcol", "1.0.0"⟩

def store : PackageStore := ⟨(∅ : Map PackageId Entries).insert otelcol ∅, (∅ : Map PackageId Entries).insert otelcol ∅⟩

def limits : UploadLimits := ⟨10, 10⟩

def disk : Disk := ⟨.ok (), false, .ok true, .ok (), .ok (), true⟩

def arrives (n : Nat) (arch : String) : List Act := [.begin n otelcol ⟨"linux", arch⟩ false, .admission n]

def commits (n : Nat) : List Act := [.readStored n, .readUploading n, .commit n disk false]

def four (b : UInt8) : Bytes := [b, b, b, b]

end Small

/-- Three uploads at once, for the last of which the store has no room. -/
theorem totalBytes_le_ceiling_of_three : ∃ s,
    Reach (start Small.store) (restrict Orderly (step Small.limits id)) s ∧ s.store.totalBytes = 8 ∧
      s.store.totalBytes ≤ 10 := by
  refine Reach.exists_of_run_imp (p := fun s => s.store.totalBytes = 8)
    (Small.arrives 0 "a" ++ Small.arrives 1 "b" ++ Small.arrives 2 "c" ++
      [.chunk 0 (Small.four 0), .chunk 1 (Small.four 1), .chunk 2 (Small.four 2), .release 2] ++
      Small.commits 0 ++ [.release 0] ++ Small.commits 1 ++ [.release 1]) (by decide +kernel) ?_
  intro s hreach htotal
  refine ⟨htotal, ?_⟩
  exact totalBytes_le_ceiling Small.limits id (fun a b hab => congrArg List.length hab) Small.store
    (fun entry hentry => by cases hentry) (by decide) s hreach

/-- Three artifacts of four bytes under a ceiling of ten: the first upload to begin reads the stored bytes before the
second's commit and the uploading ones after its release. -/
theorem commit_check_misses_a_commit : ∃ s,
    Reach (start Small.store) (step Small.limits id) s ∧ ¬s.store.totalBytes ≤ 10 := by
  exact Reach.exists_of_run
    (Small.arrives 0 "a" ++ Small.arrives 1 "b" ++ [.chunk 1 (Small.four 1)] ++ Small.commits 1 ++ [.release 1] ++
      Small.arrives 2 "c" ++ [.chunk 2 (Small.four 2), .readStored 2, .readUploading 2] ++
      [.chunk 0 (Small.four 0), .readStored 0, .commit 2 Small.disk false, .release 2, .readUploading 0,
        .commit 0 Small.disk false]) (by decide +kernel)

end Uploads

end OpampFleet.Server
