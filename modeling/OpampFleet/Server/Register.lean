import OpampFleet.Lib.Map

/-!
# The Hosts and the Agents bound to them

The model of the host register of `revocation.rs`: which host's certificate may report for which `instance_uid`, and
how an admitted report binds one. Hosts and `instance_uid`s are texts here, the latter in hex.

What the ledger store answers comes with the call: how it bound an `instance_uid`, and whether it wrote the Hosts.
-/

namespace OpampFleet.Server

open Lib

structure Host where
  gateway : Bool
  instanceUids : Finset String
  subject : Map String String
  validUntilMs : Option Nat

def Host.empty : Host := ⟨false, ∅, ∅, none⟩

def Host.extend (host : Host) (notAfterMs : Nat) : Host × Bool :=
  if host.validUntilMs.any fun ms => notAfterMs ≤ ms then (host, false)
  else ({ host with validUntilMs := some notAfterMs }, true)

def maxUidsPerHost : Nat := 256

inductive Bound where
  | bound
  | taken (host : String)
  | gateway
  deriving DecidableEq

def Bound.holder (host : String) : Bound → String
  | .taken holder => holder
  | _ => host

/-- The ledger store's answers to one call; `byAct` where it writes each act on a Host by itself. -/
structure LedgerIo where
  byAct : Bool
  bound : Except String Bound
  rebound : Except String (Option (String × Bound))
  written : Except String Unit

structure Register where
  hosts : Map String Host
  owners : Map String String

def boundElsewhere (instanceUid host : String) : String := s!"the Agent {instanceUid} is bound to the host {host}"

namespace Register

variable (register : Register) (host : String) (change : Host → Host)

def modify : Register :=
  match register.hosts.lookup host with
  | some entry => { register with hosts := register.hosts.insert host (change entry) }
  | none => register

@[simp]
lemma owners_modify :
    (register.modify host change).owners = register.owners := by
  unfold modify
  split <;> rfl

lemma lookup_modify (name : String) :
    (register.modify host change).hosts.lookup name =
      if name = host then (register.hosts.lookup host).map change else register.hosts.lookup name := by
  unfold modify
  split
  next entry hentry =>
    rw [Map.lookup_insert_ite, hentry]
    rfl
  next hnone =>
    by_cases h : name = host
    · rw [if_pos h, h, hnone]
      rfl
    · rw [if_neg h]

def freed (uid : String) (holder : Option String) : Register :=
  holder.elim register fun host =>
    register.modify host fun entry => { entry with instanceUids := entry.instanceUids.erase uid }

@[simp]
lemma owners_freed (uid : String) (holder : Option String) : (register.freed uid holder).owners = register.owners := by
  cases holder with
  | none => rfl
  | some host => exact owners_modify register host _

def listing (uid host : String) : Register :=
  register.modify host fun entry => { entry with instanceUids := insert uid entry.instanceUids }

@[simp]
lemma owners_listing (uid host : String) : (register.listing uid host).owners = register.owners :=
  owners_modify register host _

def isGateway : Bool := (register.hosts.lookup host).any Host.gateway

/-- Whether `host` may report for `uid`, and whether that would bind it. -/
def admits (host uid : String) : Except String Bool :=
  if register.isGateway host then .ok false
  else
    let full := (register.hosts.lookup host).any fun entry => maxUidsPerHost ≤ entry.instanceUids.card
    let free : Except String Bool :=
      if full then .error s!"this host already speaks for {maxUidsPerHost} Agents" else .ok true
    match register.owners.lookup uid with
    | some owner =>
      if owner = host then .ok false
      else if register.isGateway owner then free
      else .error "this certificate belongs to another host than that Agent's"
    | none => free

/-- `admits` finds a Gateway, or a binding that is held. -/
lemma admits_eq_false {register : Register} {host uid : String} (h : register.admits host uid = .ok false) :
    register.isGateway host = true ∨ register.owners.lookup uid = some host := by
  unfold admits at h
  split at h
  · exact .inl (by assumption)
  extract_lets full free at h
  have hfree : free ≠ .ok false := by
    unfold free
    split <;> simp
  split at h
  next owner howner =>
    split at h
    next heq =>
      rw [howner, heq]
      exact .inr rfl
    · split at h
      · exact absurd h hfree
      · cases h
  · exact absurd h hfree

/-- `admits` asks for a binding where there is room and no other host owns the `instance_uid`. -/
lemma admits_eq_true {register : Register} {host uid : String} (h : register.admits host uid = .ok true) :
    register.isGateway host = false ∧
      (∀ entry, register.hosts.lookup host = some entry → entry.instanceUids.card < maxUidsPerHost) ∧
      ∀ owner, register.owners.lookup uid = some owner → register.isGateway owner = true := by
  unfold admits at h
  split at h
  · cases h
  rename_i hgateway
  extract_lets full free at h
  have hroom : free = .ok true → ∀ entry, register.hosts.lookup host = some entry →
      entry.instanceUids.card < maxUidsPerHost := by
    intro hfree entry hentry
    unfold free full at hfree
    rw [hentry, Option.any_some] at hfree
    by_contra hfull
    rw [if_pos (decide_eq_true (Nat.le_of_not_lt hfull))] at hfree
    cases hfree
  refine ⟨Bool.eq_false_iff.mpr hgateway, ?_⟩
  split at h
  next owner howner =>
    split at h
    · cases h
    split at h
    next howns =>
      refine ⟨hroom h, fun other hother => ?_⟩
      rw [howner] at hother
      cases hother
      exact howns
    · cases h
  next hnone =>
    refine ⟨hroom h, fun other hother => ?_⟩
    rw [hnone] at hother
    cases hother

def mayReport (host uid : String) : Except String Unit := (register.admits host uid).map fun _ => ()

def takeUp (uid host : String) : Bound → Register × Except String Bool
  | .bound => ({ register with owners := register.owners.insert uid host }, .ok true)
  | .taken holder =>
    let register := register.listing uid holder
    ({ register with owners := register.owners.insert uid holder }, .error (boundElsewhere uid holder))
  | .gateway =>
    let register := register.modify host fun entry => { entry with gateway := true, instanceUids := ∅ }
    ({ register with owners := Map.filter register.owners fun _ owner => owner ≠ host }, .ok false)

def bind (found : Except String Bound) (uid host : String) : Register × Except String Bool :=
  match found with
  | .error e => (register, .error e)
  | .ok found => register.takeUp uid host found

/-- What a report does under the lock, given what the store found when it was asked to bind: what is then held, whether
it has to be written, and whether the Host's valid until moved. -/
def report (found : Except String Bound) (host : String) (subject : Map String String)
    (notAfterMs : Nat) (uid : String) : Register × Except String (Bool × Bool) :=
  let (register, binds) : Register × Except String Bool :=
    match register.admits host uid with
    | .error e => (register, .error e)
    | .ok false => (register, .ok false)
    | .ok true => register.bind found uid host
  match binds with
  | .error e => (register, .error e)
  | .ok binds =>
    let register : Register :=
      if binds then
        let entry := (register.hosts.lookup host).getD { Host.empty with subject := subject }
        { register with
          hosts := register.hosts.insert host { entry with instanceUids := insert uid entry.instanceUids } }
      else register
    let extended := (register.hosts.lookup host).any fun entry => (entry.extend notAfterMs).2
    (register.modify host fun entry => (entry.extend notAfterMs).1, .ok (binds || extended, extended))

/-- An `instance_uid` first heard from a host is bound to it, and the Host's valid until moves forward; either is
written. -/
def checkReport (io : LedgerIo) (host : String) (subject : Map String String) (notAfterMs : Nat)
    (uid : String) : Register × Except String Unit :=
  match register.report io.bound host subject notAfterMs uid with
  | (register, .error e) => (register, .error e)
  | (register, .ok (changed, _)) => (register, if changed then io.written else .ok ())

section Report

variable {register : Register} {found : Except String Bound} {host uid : String} {subject : Map String String}
  {notAfterMs : Nat}

/-- A report that is refused changes nothing. -/
lemma report_refused {e : String} (h : register.admits host uid = .error e) :
    register.report found host subject notAfterMs uid = (register, .error e) := by
  simp only [report, h]

/-- A report of a binding that is held only extends it. -/
lemma report_held (h : register.admits host uid = .ok false) : register.report found host subject notAfterMs uid =
      (register.modify host fun entry => (entry.extend notAfterMs).1,
        .ok ((register.hosts.lookup host).any fun entry => (entry.extend notAfterMs).2,
          (register.hosts.lookup host).any fun entry => (entry.extend notAfterMs).2)) := by
  simp [report, h]

def bindTo (register : Register) (host uid : String) (subject : Map String String) : Register :=
  let entry := (register.hosts.lookup host).getD { Host.empty with subject := subject }
  { hosts := register.hosts.insert host { entry with instanceUids := insert uid entry.instanceUids }
    owners := register.owners.insert uid host }

/-- A report of a new binding binds, and extends. -/
lemma report_bound (h : register.admits host uid = .ok true) (subject : Map String String) (notAfterMs : Nat) :
    ∃ extended, register.report (.ok .bound) host subject notAfterMs uid =
      ((register.bindTo host uid subject).modify host fun entry => (entry.extend notAfterMs).1,
        .ok (true, extended)) := by
  simp only [report, h, bind, takeUp, if_true, Bool.true_or]
  exact ⟨_, rfl⟩

/-- A binding that is taken on disk is refused, and memory takes it up. -/
lemma report_taken (h : register.admits host uid = .ok true) (holder : String) :
    register.report (.ok (.taken holder)) host subject notAfterMs uid =
      ((register.takeUp uid host (.taken holder)).1, .error (boundElsewhere uid holder)) := by
  simp only [report, h, bind, takeUp]

end Report

variable (register : Register)

/-- What the store answered for `new`, taken up for the Host it moves to: whether it has to be written. -/
def moveTo (byAct : Bool) (new host : String) (found : Bound) : Register × Except String Bool :=
  match register.takeUp new host found with
  | (register, .error e) => (register, .error e)
  | (register, .ok isBound) => (if isBound then register.listing new host else register, .ok (!byAct))

/-- What moving a binding does under the lock: what is then held, and whether it has to be written. -/
def move (io : LedgerIo) (old new : String) : Register × Except String Bool :=
  let held := register.owners.lookup old
  let register := ({ register with owners := register.owners.erase old } : Register).freed old held
  let moved : Except String (Option (String × Bound)) :=
    match io.rebound, held with
    | .error e, _ => .error e
    | .ok (some moved), _ => .ok (some moved)
    | .ok none, some host => if io.byAct then .ok none else io.bound.map fun found => some (host, found)
    | .ok none, none => .ok none
  match moved with
  | .error e => (register, .error e)
  | .ok none => (register, .ok false)
  | .ok (some (host, found)) => (register.freed old (some host)).moveTo io.byAct new host found

def rebind (io : LedgerIo) (old new : String) : Register × Except String Unit :=
  match register.move io old new with
  | (register, .error e) => (register, .error e)
  | (register, .ok changed) => (register, if changed then io.written else .ok ())

lemma rebind_fst (io : LedgerIo) (old new : String) :
    (register.rebind io old new).1 = (register.move io old new).1 := by
  unfold rebind
  split <;> rename_i h <;> rw [h]

def release (stored : Option String) (uid : String) : Register :=
  (({ register with owners := register.owners.erase uid } : Register).freed uid stored).freed uid
    (register.owners.lookup uid)

def setGateway (host : String) (gateway : Bool) : Register :=
  let register : Register :=
    if gateway then
      { register.modify host (fun entry => { entry with instanceUids := ∅ }) with
        owners := Map.filter register.owners fun _ owner => owner ≠ host }
    else register
  { register with
    hosts := register.hosts.insert host { (register.hosts.lookup host).getD Host.empty with gateway := gateway } }

def forget (ended : String → Host → Bool) : Register where
  hosts := Map.filter register.hosts fun name host => !ended name host
  owners := Map.filter register.owners fun _ owner => !(register.hosts.lookup owner).any (ended owner)

end Register

end OpampFleet.Server
