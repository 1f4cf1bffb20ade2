import OpampFleet.Server.AgentStore
import OpampFleet.Core.Package

/-!
# The package store on the filesystem

The model of `packages.rs` over `fs/packages.rs`: the Packages in memory (`sets`) and their files. Each write of an
entry is one act under the store's own lock: the file first, then the map. `Disk` is what the environment answers to
one write; the blobs themselves are outside, as far as their answers go.
-/

namespace OpampFleet.Server

open Lib

structure Platform where
  os : String
  arch : String
  deriving DecidableEq

structure Entry where
  platform : Platform
  contentHash : Bytes
  size : Nat
  signature : Option Bytes
  deriving DecidableEq

abbrev Entries := Map Platform Entry

structure PackageStore where
  sets : Map PackageId Entries
  files : Map PackageId Entries

/-- The environment's answers to one write: the blob stored, a deletion of it under way, whether the blob store still
holds it, the file read, and the file written. A write that fails after its rename, at the sync of the directory, has
replaced the file. -/
structure Disk where
  blob : Except String Unit
  deleting : Bool
  stored : Except String Bool
  read : Except String Unit
  written : Except String Unit
  renamed : Bool

variable (id : PackageId)

def PackageId.text : String := id.agentType ++ "@" ++ id.version

def noPackageSet : String := "no package set " ++ id.text

def noEntry (platform : Platform) : String :=
  "no entry " ++ platform.os ++ "-" ++ platform.arch ++ " in set " ++ id.text

def assigned (id : PackageId) : String :=
  "set " ++ id.text ++ " is assigned to an Agent and its entries are immutable — create the next version " ++
    "as a new set and roll that out"

def pinned (id : PackageId) (pinning : Nat) : String :=
  "package " ++ id.text ++ " is pinned by the assignment of " ++ toString pinning ++
    " Agent(s) — roll them out through a Deployment without it, or forget them, before deleting it"

def removedWhileUploaded : String := "the artifact was removed while it was uploaded; upload it again"

def changedEntry (platform : Platform) : String :=
  "the entry " ++ platform.os ++ "-" ++ platform.arch ++ " in set " ++ id.text ++
    " has changed since this Server read it — read the Package again and sign what it holds"

def ed25519SignatureLen : Nat := 64

inductive SignatureState where
  | missing
  | valid
  | invalid
  | unchecked
  deriving DecidableEq

def signatureState (verifier : Option (Bytes → Bytes → Bool)) (id : PackageId) (entry : Entry) : SignatureState :=
  match entry.signature, verifier with
  | none, _ => .missing
  | some _, none => .unchecked
  | some signature, some verifies =>
    if verifies (Core.statement id.agentType id.version entry.contentHash) signature then .valid else .invalid

namespace PackageStore

variable (store : PackageStore) (disk : Disk) (id : PackageId) (platform : Platform)

def writable : Except String Unit :=
  if (store.sets.lookup id).isSome then .ok () else .error (noPackageSet id)

def replaceFile (entries : Entries) : PackageStore × Except String Unit :=
  let replaced := { store with files := store.files.insert id entries }
  match disk.written with
  | .ok () => (replaced, .ok ())
  | .error e => (if disk.renamed then replaced else store, .error e)

def amend (change : Entries → Entries) : PackageStore × Except String Unit :=
  match disk.read, store.files.lookup id with
  | .error e, _ => (store, .error e)
  | .ok (), none => (store, .error (noPackageSet id))
  | .ok (), some entries => store.replaceFile disk id (change entries)

def setEntries (entries : Entries) : PackageStore :=
  { store with sets := store.sets.insert id entries }

def putEntryRecord (entry : Entry) : PackageStore × Except String Unit :=
  match store.sets.lookup id, disk.stored with
  | none, _ => (store, .error (noPackageSet id))
  | some _, .error e => (store, .error e)
  | some _, .ok false => (store, .error removedWhileUploaded)
  | some entries, .ok true =>
    match store.amend disk id fun stored => stored.insert entry.platform entry with
    | (store, .error e) => (store, .error e)
    | (store, .ok ()) => (store.setEntries id (entries.insert entry.platform entry), .ok ())

/-- An upload turned into an entry; new bytes take the old signature with them. -/
def putEntryFrom (sha256 : Bytes → Bytes) (store : PackageStore) (disk : Disk) (id : PackageId) (platform : Platform)
    (artifact : Bytes) : PackageStore × Except String Unit :=
  match store.writable id, disk.blob with
  | .error e, _ => (store, .error e)
  | .ok (), .error e => (store, .error e)
  | .ok (), .ok () =>
    if disk.deleting then (store, .error removedWhileUploaded)
    else if artifact.length = 0 then
      (store, .error "the package artifact is empty; refusing to distribute it")
    else store.putEntryRecord disk id ⟨platform, sha256 artifact, artifact.length, none⟩

inductive Signed where
  | written
  | changed (stored : Option Entry)

/-- `FsPackageBackend::sign`: written onto an entry that still has the bytes, else what is stored. -/
def sign (contentHash : Bytes) (signature : Option Bytes) : PackageStore × Except String Signed :=
  match disk.read, store.files.lookup id with
  | .error e, _ => (store, .error e)
  | .ok (), none => (store, .ok (.changed none))
  | .ok (), some entries =>
    match entries.lookup platform with
    | none => (store, .ok (.changed none))
    | some entry =>
      if entry.contentHash = contentHash then
        let (store, result) :=
          store.replaceFile disk id (entries.insert platform { entry with signature := signature })
        (store, result.map fun () => .written)
      else (store, .ok (.changed (some entry)))

/-- The signature of one entry set or taken away, in the file and then in the map. An entry the file no longer holds
is taken up as stored, and the write refused. -/
def writeSignature (signature : Option Bytes) : PackageStore × Except String Entry :=
  match store.sets.lookup id with
  | none => (store, .error (noPackageSet id))
  | some entries =>
    match entries.lookup platform with
    | none => (store, .error (noEntry id platform))
    | some entry =>
      match store.sign disk id platform entry.contentHash signature with
      | (store, .error e) => (store, .error e)
      | (store, .ok .written) =>
        let entry := { entry with signature := signature }
        (store.setEntries id (entries.insert platform entry), .ok entry)
      | (store, .ok (.changed stored)) =>
        (store.setEntries id (Map.set entries platform stored), .error (changedEntry id platform))

def putSignature (verifier : Option (Bytes → Bytes → Bool)) (store : PackageStore) (disk : Disk) (id : PackageId)
    (platform : Platform) (signature : Bytes) : PackageStore × Except String SignatureState :=
  if signature.isEmpty then
    (store, .error "the signature is empty — it says nothing; delete the one held instead")
  else if signature.length ≠ ed25519SignatureLen then
    (store, .error ("the signature must be the 64 bytes of an Ed25519 signature (128 hex characters, " ++
      "as " ++ "`opamp-fleetctl package sign`" ++ " prints it), not " ++ toString signature.length ++ " bytes"))
  else
    let (store, result) := store.writeSignature disk id platform (some signature)
    (store, result.map (signatureState verifier id))

/-- `Ok(false)` when the entry carries none. -/
def removeSignature : PackageStore × Except String Bool :=
  match (store.sets.lookup id).bind fun entries => entries.lookup platform with
  | some entry =>
    if entry.signature.isNone then (store, .ok false)
    else
      let (store, result) := store.writeSignature disk id platform none
      (store, result.map fun _ => true)
  | none =>
    if (store.sets.lookup id).isNone then (store, .error (noPackageSet id))
    else (store, .error (noEntry id platform))

/-- `FsPackageBackend::remove_entry`: a file that is gone, or holds no such entry, is left as it is. -/
def removeEntry : PackageStore × Except String Unit :=
  match disk.read, store.files.lookup id with
  | .error e, _ => (store, .error e)
  | .ok (), none => (store, .ok ())
  | .ok (), some stored =>
    if (stored.lookup platform).isNone then (store, .ok ())
    else store.replaceFile disk id (stored.erase platform)

/-- `Ok(false)` when the Package or the entry does not exist. -/
def deleteEntry : PackageStore × Except String Bool :=
  match store.sets.lookup id with
  | none => (store, .ok false)
  | some entries =>
    if (entries.lookup platform).isNone then (store, .ok false)
    else
      match store.removeEntry disk id platform with
      | (store, .error e) => (store, .error e)
      | (store, .ok ()) => (store.setEntries id (entries.erase platform), .ok true)

def create : PackageStore × Except String Unit :=
  if (store.sets.lookup id).isSome then (store, .ok ())
  else
    match disk.read, store.files.lookup id with
    | .error e, _ => (store, .error e)
    | .ok (), some _ => (store.setEntries id ∅, .ok ())
    | .ok (), none =>
      match store.replaceFile disk id ∅ with
      | (store, .error e) => (store, .error e)
      | (store, .ok ()) => (store.setEntries id ∅, .ok ())

def removeSet : PackageStore × Except String Bool :=
  if (store.sets.lookup id).isNone then (store, .ok false)
  else
    match disk.written with
    | .error e => (store, .error e)
    | .ok () => ({ sets := store.sets.erase id, files := store.files.erase id }, .ok true)

def entriesOf : Entries × Entries :=
  ((store.sets.lookup id).getD ∅, (store.files.lookup id).getD ∅)

def SameExcept (store other : PackageStore) : Prop :=
  ∀ i, i ≠ id → other.sets.lookup i = store.sets.lookup i ∧ other.files.lookup i = store.files.lookup i

private lemma SameExcept.refl (store : PackageStore) : SameExcept id store store := fun _ _ => ⟨rfl, rfl⟩

private lemma SameExcept.trans {id : PackageId} {a b c : PackageStore} (h : SameExcept id a b)
    (h' : SameExcept id b c) : SameExcept id a c :=
  fun i hi => ⟨(h' i hi).1.trans (h i hi).1, (h' i hi).2.trans (h i hi).2⟩

lemma SameExcept.entriesOf {id i : PackageId} {a b : PackageStore} (h : SameExcept id a b) (hi : i ≠ id) :
    b.entriesOf i = a.entriesOf i := by
  unfold PackageStore.entriesOf
  rw [(h i hi).1, (h i hi).2]

private lemma SameExcept.then_set {id : PackageId} {store other : PackageStore} (h : SameExcept id store other)
    (entries : Entries) : SameExcept id store (other.setEntries id entries) :=
  h.trans fun _ hi => ⟨AList.lookup_insert_ne hi, rfl⟩

section

variable (store : PackageStore) (disk : Disk) (id : PackageId) (platform : Platform)

private lemma sameExcept_replaceFile (entries : Entries) :
    SameExcept id store (store.replaceFile disk id entries).1 := by
  have hinsert : SameExcept id store { store with files := store.files.insert id entries } :=
    fun _ hi => ⟨rfl, AList.lookup_insert_ne hi⟩
  unfold replaceFile
  split
  · exact hinsert
  · split
    · exact hinsert
    · exact .refl id store

private lemma sameExcept_amend (change : Entries → Entries) : SameExcept id store (store.amend disk id change).1 := by
  unfold amend
  split
  · exact .refl id store
  · exact .refl id store
  · exact sameExcept_replaceFile store disk id _

private lemma sameExcept_putEntryRecord (entry : Entry) :
    SameExcept id store (store.putEntryRecord disk id entry).1 := by
  unfold putEntryRecord
  have hamend := sameExcept_amend store disk id fun stored => stored.insert entry.platform entry
  split
  · exact .refl id store
  · exact .refl id store
  · exact .refl id store
  · split
    next ha =>
      rwa [ha] at hamend
    next ha =>
      rw [ha] at hamend
      exact hamend.then_set _

lemma sameExcept_putEntryFrom (sha256 : Bytes → Bytes) (platform : Platform) (artifact : Bytes) :
    SameExcept id store (store.putEntryFrom sha256 disk id platform artifact).1 := by
  unfold putEntryFrom
  split
  · exact .refl id store
  · exact .refl id store
  · split
    · exact .refl id store
    · split
      · exact .refl id store
      · exact sameExcept_putEntryRecord store disk id _

private lemma sameExcept_sign (contentHash : Bytes) (signature : Option Bytes) :
    SameExcept id store (store.sign disk id platform contentHash signature).1 := by
  unfold sign
  split
  · exact .refl id store
  · exact .refl id store
  · split
    · exact .refl id store
    · split
      · exact sameExcept_replaceFile store disk id _
      · exact .refl id store

private lemma sameExcept_writeSignature (signature : Option Bytes) :
    SameExcept id store (store.writeSignature disk id platform signature).1 := by
  unfold writeSignature
  split
  · exact .refl id store
  split
  · exact .refl id store
  rename_i entry _
  have hsign := sameExcept_sign store disk id platform entry.contentHash signature
  split
  next hs =>
    rwa [hs] at hsign
  next hs =>
    rw [hs] at hsign
    exact hsign.then_set _
  next hs =>
    rw [hs] at hsign
    exact hsign.then_set _

lemma sameExcept_putSignature (verifier : Option (Bytes → Bytes → Bool)) (platform : Platform) (signature : Bytes) :
    SameExcept id store (store.putSignature verifier disk id platform signature).1 := by
  unfold putSignature
  split
  · exact .refl id store
  · split
    · exact .refl id store
    · exact sameExcept_writeSignature store disk id platform _

lemma sameExcept_removeSignature : SameExcept id store (store.removeSignature disk id platform).1 := by
  unfold removeSignature
  split
  · split
    · exact .refl id store
    · exact sameExcept_writeSignature store disk id platform none
  · split <;> exact .refl id store

lemma sameExcept_deleteEntry : SameExcept id store (store.deleteEntry disk id platform).1 := by
  have hremove : SameExcept id store (store.removeEntry disk id platform).1 := by
    unfold removeEntry
    split
    · exact .refl id store
    · exact .refl id store
    · split
      · exact .refl id store
      · exact sameExcept_replaceFile store disk id _
  unfold deleteEntry
  split
  · exact .refl id store
  split
  · exact .refl id store
  split
  next hs =>
    rwa [hs] at hremove
  next hs =>
    rw [hs] at hremove
    exact hremove.then_set _

lemma sameExcept_removeSet : SameExcept id store (store.removeSet disk id).1 := by
  unfold removeSet
  split
  · exact .refl id store
  · split
    · exact .refl id store
    · exact fun i hi => ⟨AList.lookup_erase_ne hi, AList.lookup_erase_ne hi⟩

lemma entriesOf_create (i : PackageId) : (store.create disk id).1.entriesOf i = store.entriesOf i := by
  have hset : ∀ other : PackageStore, other.sets = store.sets → store.sets.lookup id = none →
      ((other.setEntries id ∅).sets.lookup i).getD ∅ = (store.sets.lookup i).getD ∅ := by
    intro other he hnone
    rw [setEntries, Map.lookup_insert_ite, he]
    split
    · subst i
      simp [hnone]
    · rfl
  unfold create
  split
  · rfl
  rename_i hheld
  have hnone : store.sets.lookup id = none := by simpa using hheld
  split
  · rfl
  · exact Prod.ext (hset store rfl hnone) rfl
  next hfile =>
    have hempty : ((store.files.insert id ∅).lookup i).getD ∅ = (store.files.lookup i).getD ∅ := by
      rw [Map.lookup_insert_ite]
      split
      · subst i
        simp [hfile]
      · rfl
    cases hw : disk.written with
    | ok u =>
      simp only [replaceFile, hw]
      exact Prod.ext (hset _ rfl hnone) hempty
    | error e =>
      simp only [replaceFile, hw]
      split
      · exact Prod.ext rfl hempty
      · rfl

end

end PackageStore

end OpampFleet.Server
