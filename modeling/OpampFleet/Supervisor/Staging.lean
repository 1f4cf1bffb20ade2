import OpampFleet.Core.Package
import OpampFleet.Lib.Transition

/-!
# From a downloaded package to the installed program

Two tasks of a Client share a Supervisor's staging directory. The transport downloads one package after another:
each download opens `<name>.staged`, writes the chunks as they arrive and checks the hash of what it received and
the signature (`packages.rs`). The Runner takes the queued `ApplyPackage` commands, each with the path alone, and
moves or unpacks whatever is there (`supervisor/process.rs`).

A step is one operation of either task on the files.
-/

namespace OpampFleet.Supervisor.Staging

open Lib

structure PackageDownload where
  name : String
  version : String
  hash : Bytes
  contentHash : Bytes
  signature : Bytes
  deriving DecidableEq

/-- What the checks use from outside: SHA-256, Ed25519 (key, message, signature), and how a name is quoted. -/
structure Host where
  sha256 : Bytes → Bytes
  verify : Bytes → Bytes → Bytes → Bool
  quote : String → String

/-- The settings of a Client that packages depend on; `tree` is whether the block sets `program_path`. -/
structure PackageSettings where
  packageKey : Option Bytes
  maxArtifactSizeBytes : Nat
  tree : Bool

variable (host : Host)

def ensureSafePackageName (name : String) : Except String Unit :=
  let quoted := host.quote name
  if name.toList.isEmpty || name.utf8ByteSize > 64 then
    .error s!"the package name must be 1–64 characters, not {quoted}"
  else if !name.toList.all (fun c => c.isAlphanum || c == '.' || c == '_' || c == '+' || c == '-') then
    .error s!"the package name {quoted} may hold only letters, digits, '.', '_', '+', and '-'"
  else .ok ()

def signaturePolicy (signature : Bytes) (key : Option Bytes) : Except String Bytes :=
  match key with
  | none => .error ("refusing the package: [packages] verification_key is not set, and nothing is " ++
      "installed without a signature")
  | some key =>
    if signature.isEmpty then .error "refusing the package: the offer carries no signature" else .ok key

def overCap (len maxBytes : Nat) : Option String :=
  if len > maxBytes then some s!"the artifact exceeds the {maxBytes}-byte limit (max_artifact_size_bytes)" else none

def checkSignature (bytes signature key : Bytes) : Except String Unit :=
  if host.verify key bytes signature then .ok ()
  else .error ("the artifact's signature is invalid — it must cover the Agent type, the version and " ++
    "the SHA-256 (opamp-fleetctl package sign --agent-type … --version …)")

def verifyStaged (received : Bytes) (package : PackageDownload) (key : Bytes) : Except String Unit :=
  if host.sha256 received ≠ package.contentHash then
    .error "the downloaded artifact does not match its content hash"
  else checkSignature host (Core.statement package.name package.version package.contentHash) package.signature key

inductive Kind where
  | raw
  | tarGz
  | sevenZ
  | zip
  deriving DecidableEq

def detect (bytes : Bytes) : Kind :=
  let head := bytes.take 6
  if head.take 2 = [0x1f, 0x8b] then .tarGz
  else if head = [0x37, 0x7a, 0xbc, 0xaf, 0x27, 0x1c] then .sevenZ
  else if head.take 4 = [0x50, 0x4b, 0x03, 0x04] ∨ head.take 4 = [0x50, 0x4b, 0x05, 0x06] then .zip
  else .raw

structure Download where
  package : PackageDownload
  key : Bytes
  file : Nat
  received : Bytes

/-- `ProcessCommand::ApplyPackage`; the name stands for the staged path. -/
structure ApplyPackage where
  name : String
  version : String
  hash : Bytes
  deriving DecidableEq

inductive Content where
  | moved (file : Nat)
  | written (artifact : Bytes)
  deriving DecidableEq

structure Package where
  command : ApplyPackage
  content : Content
  deriving DecidableEq

inductive Runner where
  | idle
  | detecting (command : ApplyPackage)
  | renaming (command : ApplyPackage)
  | opening (command : ApplyPackage)
  | reading (command : ApplyPackage) (file : Nat) (artifact : Bytes)
  | checking (package : Package)
  | removing (name : String) (prepared : Option Package)
  | installing (package : Package)
  | gating (package : Package)

structure Checked where
  name : String
  version : String
  bytes : Bytes
  deriving DecidableEq

structure State where
  files : Files String
  download : Option Download
  queue : List ApplyPackage
  runner : Runner
  parked : Option Package
  live : Option Package
  backup : Option Package
  checked : List Checked

def State.start : State := ⟨Files.empty, none, [], .idle, none, none, none, []⟩

def commandCapacity : Nat := 16

/-- How a swap ends: the package stays, its predecessor is put back, or the package is taken back out to wait. -/
inductive Conclusion where
  | kept
  | rolledBack
  | parked
  deriving DecidableEq

inductive Act where
  | startDownload (package : PackageDownload) (advertised : Nat)
  | receive (chunk : Bytes)
  | failDownload
  | finishDownload
  | shutdownDownload
  | takeCommand
  | detectKind
  | rename (moved : Bool)
  | openArtifact
  | readArtifact (len : Nat)
  | finishArtifact (unpacked : Bool)
  | preflight (refused : Bool)
  | removeStaged (armed : Bool)
  | commit (reached committed : Bool)
  | conclude (outcome : Conclusion)
  | retryParked
  | restart

variable (settings : PackageSettings) (s : State)

/-- `download_and_verify_patiently` up to the open file. A body advertised as too large fails it before the file is
opened, and the failure removes the path. -/
def startDownload (package : PackageDownload) (advertised : Nat) : Option State :=
  match s.download, ensureSafePackageName host package.name, signaturePolicy package.signature settings.packageKey with
  | none, .ok (), .ok key =>
    if (overCap advertised settings.maxArtifactSizeBytes).isSome then
      some { s with files := s.files.unlink package.name }
    else
      some { s with
        files := s.files.create package.name
        download := some ⟨package, key, s.files.opened package.name, []⟩ }
  | _, _, _ => none

def dropDownload (d : Download) : State :=
  { s with files := s.files.unlink d.package.name, download := none }

def receive (d : Download) (chunk : Bytes) : State :=
  if (overCap (d.received.length + chunk.length) settings.maxArtifactSizeBytes).isSome then dropDownload s d
  else { s with
    files := s.files.append d.file chunk
    download := some { d with received := d.received ++ chunk } }

/-- The check of a whole download, and the hand-over of what passes; a full channel turns it away. -/
def finishDownload (d : Download) : State :=
  match verifyStaged host d.received d.package d.key with
  | .error _ => dropDownload s d
  | .ok () =>
    { s with
      download := none
      checked := ⟨d.package.name, d.package.version, d.received⟩ :: s.checked
      queue := if s.queue.length < commandCapacity then
          s.queue ++ [⟨d.package.name, d.package.version, d.package.hash⟩]
        else s.queue }

/-! The Runner's side of a step, by where it stands. -/

def takeCommand : Option State :=
  match s.runner, s.queue with
  | .idle, c :: rest => some { s with queue := rest, runner := .detecting c, parked := none }
  | _, _ => none

def detectKind : Option State :=
  match s.runner with
  | .detecting c =>
    match s.files.inode c.name with
    | none => some { s with runner := .removing c.name none }
    | some i =>
      if settings.tree = false ∧ detect (s.files.bytes i) = .raw then some { s with runner := .renaming c }
      else some { s with runner := .opening c }
  | _ => none

def rename (moved : Bool) : Option State :=
  match s.runner with
  | .renaming c =>
    match s.files.inode c.name, moved with
    | some i, true =>
      some { s with files := s.files.unlink c.name, runner := .checking ⟨c, .moved i⟩ }
    | _, _ => some { s with runner := .opening c }
  | _ => none

def openArtifact : Option State :=
  match s.runner with
  | .opening c =>
    match s.files.inode c.name with
    | none => some { s with runner := .removing c.name none }
    | some i => some { s with runner := .reading c i [] }
  | _ => none

def readArtifact (len : Nat) : Option State :=
  match s.runner with
  | .reading c i artifact =>
    some { s with runner := .reading c i (artifact ++ ((s.files.bytes i).drop artifact.length).take len) }
  | _ => none

def finishArtifact (unpacked : Bool) : Option State :=
  match s.runner with
  | .reading c i artifact =>
    if (s.files.bytes i).length ≤ artifact.length ∧ unpacked then
      some { s with runner := .checking ⟨c, .written artifact⟩ }
    else some { s with runner := .removing c.name none }
  | _ => none

def preflight (refused : Bool) : Option State :=
  match s.runner with
  | .checking p => some { s with runner := .removing p.command.name (if refused then none else some p) }
  | _ => none

def removeStaged (armed : Bool) : Option State :=
  match s.runner with
  | .removing name none => some { s with files := s.files.unlink name, runner := .idle }
  | .removing name (some p) =>
    if armed then some { s with files := s.files.unlink name, runner := .idle, parked := some p }
    else some { s with files := s.files.unlink name, runner := .installing p }
  | _ => none

def commit (reached committed : Bool) : Option State :=
  match s.runner with
  | .installing p =>
    if reached = false then some { s with runner := .idle, parked := some p }
    else if committed = false then some { s with runner := .idle }
    else some { s with runner := .gating p, live := some p, backup := s.live }
  | _ => none

def conclude (outcome : Conclusion) : Option State :=
  match s.runner with
  | .gating p =>
    match outcome with
    | .kept => some { s with runner := .idle }
    | .rolledBack => some { s with runner := .idle, live := s.backup, backup := none }
    | .parked => some { s with runner := .idle, live := s.backup, backup := none, parked := some p }
  | _ => none

def retryParked : Option State :=
  match s.runner, s.parked with
  | .idle, some p => some { s with runner := .installing p, parked := none }
  | _, _ => none

def step : Act → Option State
  | .startDownload package advertised => startDownload host settings s package advertised
  | .receive chunk => s.download.map fun d => receive settings s d chunk
  | .failDownload => s.download.map fun d => dropDownload s d
  | .finishDownload => s.download.map fun d => finishDownload host s d
  | .shutdownDownload => s.download.map fun _ => { s with download := none }
  | .restart => some { s with download := none, queue := [], runner := .idle, parked := none }
  | .takeCommand => takeCommand s
  | .detectKind => detectKind settings s
  | .rename moved => rename s moved
  | .openArtifact => openArtifact s
  | .readArtifact len => readArtifact s len
  | .finishArtifact unpacked => finishArtifact s unpacked
  | .preflight refused => preflight s refused
  | .removeStaged armed => removeStaged s armed
  | .commit reached committed => commit s reached committed
  | .conclude outcome => conclude s outcome
  | .retryParked => retryParked s

end OpampFleet.Supervisor.Staging
