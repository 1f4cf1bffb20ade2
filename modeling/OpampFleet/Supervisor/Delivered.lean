import OpampFleet.Lib.LexicalPath

/-!
# What a Server-delivered Supervisor block may bring

The model of `supervisor/delivered.rs`: `check` holds a delivered `[[supervisor]]` block to the configuration in
force. A TOML value is a string, a table of such values, or anything else (`ω`), which the checks only compare.
-/

namespace OpampFleet.Supervisor

open Lib

abbrev Text := List Char

structure Table (V : Type) where
  entries : List (Text × V)
  sorted : entries.Pairwise fun a b => a.1 < b.1
  deriving DecidableEq

namespace Table

variable {V : Type}

def empty : Table V := ⟨[], List.Pairwise.nil⟩

def get (t : Table V) (key : Text) : Option V := (t.entries.find? fun e => e.1 == key).map Prod.snd

def keys (t : Table V) : List Text := t.entries.map Prod.fst

lemma get_of_mem {t : Table V} {key : Text} {value : V} (h : (key, value) ∈ t.entries) :
    t.get key = some value := by
  obtain ⟨entries, sorted⟩ := t
  unfold get
  simp only at h ⊢
  induction entries with
  | nil => simp at h
  | cons e entries ih =>
    obtain ⟨hlt, hsorted⟩ := List.pairwise_cons.mp sorted
    rcases List.mem_cons.mp h with rfl | h
    · simp
    · have hne : e.1 ≠ key := fun he => List.lt_irrefl key (by simpa [he] using hlt _ h)
      rw [List.find?_cons_of_neg (by simpa using hne)]
      exact ih hsorted h

end Table

inductive Value (ω : Type) where
  | string (s : Text)
  | other (v : ω)
  deriving DecidableEq

def Value.asStr {ω : Type} : Value ω → Option Text
  | .string s => some s
  | .other _ => none

inductive Setting (ω : Type) where
  | value (v : Value ω)
  | table (t : Table (Value ω))
  deriving DecidableEq

def Setting.asTable {ω : Type} : Setting ω → Option (Table (Value ω))
  | .table t => some t
  | .value _ => none

structure SupervisorBlock (ω : Type) where
  kind : Text
  name : Text
  serviceName : Option Text := none
  endpointPort : Nat := 0
  stopTimeoutSecs : Option Nat := none
  applyGraceSecs : Option Nat := none
  retainPreviousSecs : Option Nat := none
  programPath : Option Text := none
  settings : Table (Setting ω)
  deriving DecidableEq

structure SupervisorDefaults where
  remoteConfigDisabled : List Text := []
  deliveredEnv : List Text := []
  deliveredArgs : Bool := false

structure ClientConfig (ω : Type) where
  supervisorDefaults : SupervisorDefaults
  supervisors : List (SupervisorBlock ω)

def ClientConfig.remoteConfigDisabled {ω : Type} (config : ClientConfig ω) (name : Text) : Bool :=
  config.supervisorDefaults.remoteConfigDisabled.any (· == name)

inductive Plugin where
  | collector
  | command
  deriving DecidableEq

namespace Plugin

def kind : Plugin → Text
  | collector => "collector".toList
  | command => "command".toList

def programKey : Plugin → Text
  | collector => "binary".toList
  | command => "command".toList

/-- The program a kind names by itself: neither does. -/
def defaultsProgram : Plugin → Option Text
  | collector => none
  | command => none

/-- Neither kind confines more of a delivered block than the checks here do. -/
def checkDelivered {ω : Type} (_ : Plugin) (_settings : Table (Setting ω)) (_running : Option (Table (Setting ω))) :
    Except Text Unit := .ok ()

end Plugin

inductive Refusal where
  | unknownType (name kind : Text) (known : List Text)
  | listed (name key : Text)
  | args (name key : Text)
  | steersLoading (name envName : Text)
  | ownDirectories (name envName : Text)
  | notAllowed (name envName : Text)
  | plugin (name reason : Text)
  deriving DecidableEq

namespace Refusal

def supervisor : Refusal → Text
  | unknownType name _ _ | listed name _ | args name _ | steersLoading name _ | ownDirectories name _
  | notAllowed name _ | plugin name _ => name

def reason (debug : Text → Text) : Refusal → Text
  | unknownType _ kind known =>
    "unknown type ".toList ++ debug kind ++ " (known: ".toList ++ ", ".toList.intercalate known ++ ")".toList
  | listed _ key =>
    "a delivered block may not set ".toList ++ key ++ (" — remote configuration is switched off for it in " ++
      "[supervisors] remote_config_disabled in this Client's supervisor.toml, so the block must stay as the " ++
      "operator wrote it").toList
  | args _ key =>
    "a delivered block may not set ".toList ++ key ++
      " — allow it with [supervisors] delivered_args = true in this Client's supervisor.toml".toList
  | steersLoading _ envName =>
    "a delivered block may not set ".toList ++ envName ++
      " — it would steer which code the program loads".toList
  | ownDirectories _ envName =>
    "a delivered block may not point ".toList ++ envName ++
      " into its own directories — the Server delivers files there that no one signed".toList
  | notAllowed _ envName =>
    "a delivered block may not set ".toList ++ envName ++
      " — allow it in [supervisors] delivered_env in this Client's supervisor.toml".toList
  | plugin _ reason => reason

def message (debug : Text → Text) (r : Refusal) : Text :=
  "supervisor ".toList ++ debug r.supervisor ++ ": ".toList ++ r.reason debug

end Refusal

def loadingNames : List Text :=
  ["PATH", "PATHEXT", "COMSPEC", "GCONV_PATH", "GLIBC_TUNABLES", "OPENSSL_CONF", "OPENSSL_ENGINES",
    "DOTNET_STARTUP_HOOKS", "NODE_OPTIONS", "JAVA_TOOL_OPTIONS", "_JAVA_OPTIONS", "JDK_JAVA_OPTIONS", "NODE_PATH",
    "PYTHONPATH", "PYTHONHOME", "PYTHONSTARTUP", "PERLLIB", "PERL5LIB", "PERL5OPT", "PERL5DB", "RUBYLIB", "RUBYOPT",
    "BASH_ENV", "ENV"].map String.toList

def loadingPrefixes : List Text := ["LD_", "DYLD_", "COR_PROFILER", "CORECLR_PROFILER"].map String.toList

def toAsciiUppercase (text : Text) : Text := text.map Char.toUpper

def steersLoading (name : Text) : Bool :=
  let upper := toAsciiUppercase name
  loadingNames.contains upper || loadingPrefixes.any fun start => start.isPrefixOf upper

def resolvePart (parts : List Text) (part : Text) : List Text :=
  if part = [] ∨ part = ['.'] then parts
  else if part = dotdot ∧ (parts.getLast?.any fun last => last != dotdot) then parts.dropLast
  else parts ++ [part]

def resolveLexically (path : Text) (separator : Char) : Text :=
  let joined := [separator].intercalate ((path.splitOn separator).foldl resolvePart [])
  if path.head? = some separator then separator :: joined else joined

def pieceSeparators (windows : Bool) : List Char :=
  if windows then [';', ',', '=', '"', '\'', ' ', '\t', '\n', '\r']
  else [':', ';', ',', '=', '"', '\'', ' ', '\t', '\n', '\r']

/-- Windows takes `/` for its separator and ignores case; `lower` is Unicode's lower case. -/
def foldText (windows : Bool) (lower : Text → Text) (text : Text) : Text :=
  if windows then lower (text.map fun c => if c = '/' then '\\' else c) else text

def startsAtRoot (separator : Char) (root path : Text) : Bool :=
  let path := resolveLexically path separator
  root.isPrefixOf path && ((path.drop root.length).isEmpty || (path.drop root.length).head? == some separator)

def afterColons : Text → List Text
  | [] => []
  | c :: cs => if c = ':' then cs :: afterColons cs else afterColons cs

def startsWithDrive : Text → Bool
  | c :: ':' :: _ => c.isAlpha
  | _ => false

def namesPathUnder (windows : Bool) (lower : Text → Text) (value root : Text) : Bool :=
  let separator := if windows then '\\' else '/'
  let root := resolveLexically (foldText windows lower root) separator
  if root = [] ∨ root = [separator] then false
  else ((foldText windows lower value).splitOnP (pieceSeparators windows).contains).any fun piece =>
    startsAtRoot separator root piece ||
      (windows && (afterColons piece).any fun rest => startsWithDrive rest && startsAtRoot separator root rest)

structure Target where
  windows : Bool
  lower : Text → Text

section Checks

variable {ω : Type} [DecidableEq ω]

def findPlugin (plugins : List Plugin) (block : SupervisorBlock ω) : Except Refusal Plugin :=
  match plugins.find? fun p => p.kind == block.kind with
  | some plugin => .ok plugin
  | none => .error (.unknownType block.name block.kind (plugins.map Plugin.kind))

def coreKeys (b : SupervisorBlock ω) : List (Text × Option Text) :=
  let spell (n : Nat) : Text := (toString n).toList
  [("type".toList, some b.kind),
    ("service_name".toList, b.serviceName),
    ("endpoint_port".toList, if b.endpointPort ≠ 0 then some (spell b.endpointPort) else none),
    ("stop_timeout_secs".toList, b.stopTimeoutSecs.map spell),
    ("apply_grace_secs".toList, b.applyGraceSecs.map spell),
    ("retain_previous_secs".toList, b.retainPreviousSecs.map spell),
    ("program_path".toList, b.programPath)]

def checkListedBlock (block : SupervisorBlock ω) (current : Option (SupervisorBlock ω)) (plugin : Plugin) :
    Except Refusal Unit :=
  let refuse (key : Text) : Except Refusal Unit := .error (.listed block.name key)
  match current with
  | some current =>
    if block = current then .ok ()
    else
      match ((coreKeys block).zip (coreKeys current)).find? fun e => e.1.2 != e.2.2 with
      | some e => refuse e.1.1
      | none =>
        match (block.settings.keys ++ current.settings.keys).find? fun key =>
            block.settings.get key != current.settings.get key with
        | some key => refuse key
        | none => refuse "a key".toList
  | none =>
    match (coreKeys block).find? fun e => e.1 != "type".toList && e.2.isSome with
    | some e => refuse e.1
    | none =>
      let programKey := if plugin.defaultsProgram.isNone then some plugin.programKey else none
      match block.settings.keys.find? fun key => some key != programKey with
      | some key => refuse key
      | none => .ok ()

def permitted (allowed : List Text) (name : Text) : Bool :=
  (allowed.map toAsciiUppercase).any fun pattern =>
    if pattern.getLast? = some '*' then pattern.dropLast.isPrefixOf (toAsciiUppercase name)
    else pattern == toAsciiUppercase name

def namesPlaceholder (value : Text) : Bool :=
  "$\x7bconfig_dir\x7d".toList <:+: value || "$\x7bsupervisor_dir\x7d".toList <:+: value

def envOf (settings : Table (Setting ω)) : Option (Table (Value ω)) :=
  (settings.get "env".toList).bind Setting.asTable

def isKept (current : Option (Table (Setting ω))) (entry : Text × Value ω) : Bool :=
  (current.bind envOf).bind (fun running => running.get entry.1) == some entry.2

def checkDeliveredEntry (target : Target) (block : SupervisorBlock ω) (current : Option (Table (Setting ω)))
    (allowed roots : List Text) (entry : Text × Value ω) : Except Refusal Unit :=
  if isKept current entry then .ok ()
  else if steersLoading entry.1 then .error (.steersLoading block.name entry.1)
  else if entry.2.asStr.any fun value =>
      namesPlaceholder value || roots.any fun root => namesPathUnder target.windows target.lower value root then
    .error (.ownDirectories block.name entry.1)
  else if permitted allowed entry.1 then .ok ()
  else .error (.notAllowed block.name entry.1)

def checkDeliveredEnv (target : Target) (block : SupervisorBlock ω) (current : Option (Table (Setting ω)))
    (allowed roots : List Text) : Except Refusal Unit :=
  match envOf block.settings with
  | none => .ok ()
  | some env => forM env.entries (checkDeliveredEntry target block current allowed roots)

def currentSettings (running : ClientConfig ω) (block : SupervisorBlock ω) : Option (Table (Setting ω)) :=
  (running.supervisors.find? fun existing => existing.name == block.name && existing.kind == block.kind).map
    SupervisorBlock.settings

def argumentKeys : List Text := ["args".toList, "version_args".toList]

def checkArgs (block : SupervisorBlock ω) (current : Option (Table (Setting ω))) (deliveredArgs : Bool) :
    Except Refusal Unit :=
  if deliveredArgs then .ok ()
  else
    match argumentKeys.find? fun key => block.settings.get key != current.bind fun settings => settings.get key with
    | some key => .error (.args block.name key)
    | none => .ok ()

def check (target : Target) (running : ClientConfig ω) (block : SupervisorBlock ω) (plugins : List Plugin)
    (roots : List Text) : Except Refusal Unit := do
  let plugin ← findPlugin plugins block
  let current := currentSettings running block
  if running.remoteConfigDisabled block.name then
    checkListedBlock block (running.supervisors.find? fun existing => existing.name == block.name) plugin
  else
    let policy := running.supervisorDefaults
    checkDeliveredEnv target block current policy.deliveredEnv roots
    checkArgs block current policy.deliveredArgs
  (plugin.checkDelivered block.settings current).mapError (.plugin block.name)

end Checks

end OpampFleet.Supervisor
