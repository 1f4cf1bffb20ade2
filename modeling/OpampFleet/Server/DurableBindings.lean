import OpampFleet.Server.HostLedger

/-!
# An admitted report's binding is on disk

A report that binds an `instance_uid` puts the binding in memory before it is written, and answers once it is. But a
write that fails leaves the binding in memory, so the same report made again finds it there, changes nothing, and is
answered without a write.
-/

namespace OpampFleet.Server

open Lib Revocations List Map Register FsLedgerStore

/-! ### What a report does to the Hosts -/

section Marks

variable {register : Register}

lemma marks_modify (register : Register) (host : String) {change : Host → Host}
    (mark : Bool × Finset String → Bool × Finset String)
    (h : ∀ entry, ((change entry).gateway, (change entry).instanceUids) = mark (entry.gateway, entry.instanceUids))
    (name : String) :
    marks (register.modify host change).hosts name =
      if name = host then (marks register.hosts host).map mark else marks register.hosts name := by
  unfold marks
  rw [lookup_modify]
  split
  · rw [Option.map_map, Option.map_map]
    congr 1
    funext entry
    exact h entry
  · rfl

lemma extend_marks (entry : Host) (notAfterMs : Nat) :
    ((entry.extend notAfterMs).1.gateway, (entry.extend notAfterMs).1.instanceUids) =
      (entry.gateway, entry.instanceUids) := by
  unfold Host.extend
  split <;> rfl

lemma marks_extend (register : Register) (host : String) (notAfterMs : Nat) (name : String) :
    marks (register.modify host fun entry => (entry.extend notAfterMs).1).hosts name = marks register.hosts name := by
  rw [marks_modify register host id fun entry => extend_marks entry notAfterMs]
  split
  next hname =>
    rw [hname, Option.map_id_fun, id]
  · rfl

lemma marks_bindTo (register : Register) (host uid : String) (subject : Map String String) (name : String) :
    marks (register.bindTo host uid subject).hosts name =
      if name = host then
        some (((marks register.hosts host).getD (false, ∅)).1,
          insert uid ((marks register.hosts host).getD (false, ∅)).2)
      else marks register.hosts name := by
  unfold marks bindTo
  simp only [lookup_insert_ite]
  split
  · cases register.hosts.lookup host <;> rfl
  · rfl

/-- A binding changes no mark of a Gateway. -/
lemma isGateway_bindTo {host : String} (hmark : register.isGateway host = false) (uid : String)
    (subject : Map String String)
    (name : String) : (register.bindTo host uid subject).isGateway name = register.isGateway name := by
  rw [isGateway_eq, marks_bindTo, isGateway_eq]
  split
  next hname =>
    rw [isGateway_eq] at hmark
    rw [hname, hmark]
    cases hheld : marks register.hosts host with
    | none => rfl
    | some held =>
      rwa [hheld] at hmark
  · rfl

private lemma holds_bindTo {host uid : String} (subject : Map String String) (hmark : register.isGateway host = false)
    (name other : String) :
    Holds (register.bindTo host uid subject).hosts name other ↔
      Holds register.hosts name other ∨ name = host ∧ other = uid := by
  unfold Holds
  rw [marks_bindTo]
  rw [isGateway_eq] at hmark
  by_cases hname : name = host
  · subst hname
    rw [if_pos rfl]
    cases hheld : marks register.hosts name with
    | none => simp
    | some held =>
      obtain ⟨mark, uids⟩ := held
      rw [hheld] at hmark
      have hmark : mark = false := hmark
      subst hmark
      simp [or_comm]
  · rw [if_neg hname]
    simp [hname]

lemma marks_listing (register : Register) (uid host name : String) :
    marks (register.listing uid host).hosts name =
      if name = host then (marks register.hosts host).map fun held => (held.1, insert uid held.2)
      else marks register.hosts name :=
  marks_modify register host (fun held => (held.1, insert uid held.2)) (fun _ => rfl) name

/-- Taking up what memory holds changes nothing. -/
lemma marks_taken_of_holds {holder uid : String} (h : Holds register.hosts holder uid) (host name : String) :
    marks (register.takeUp uid host (.taken holder)).1.hosts name = marks register.hosts name := by
  refine (marks_listing register uid holder name).trans ?_
  split
  next hname =>
    obtain ⟨uids, hmarks, huid⟩ := h
    rw [hname, hmarks, Option.map_some, Finset.insert_eq_of_mem huid]
  · rfl

end Marks

/-! ### The report as a whole -/

section Report

variable {register : Register} {written : Map String Host}

def Owned (register : Register) : Prop :=
  ∀ uid host, register.owners.lookup uid = some host → register.isGateway host = false → Holds register.hosts host uid

/-- What a report leaves in memory: the marks of Gateways, what was held, and what it binds. It leaves nothing to write
only where it finds the binding there and does not move the Host's valid until. -/
structure Reported (before after : Register) (host uid : String) (notAfterMs : Nat)
    (outcome : Except String (Bool × Bool)) : Prop where
  gateways : ∀ name, after.isGateway name = before.isGateway name
  owned : Owned after
  kept : ∀ name other, Holds before.hosts name other → Holds after.hosts name other
  unchanged : (∀ extended, outcome ≠ .ok (true, extended)) → ∀ name other, Holds after.hosts name other →
    Holds before.hosts name other
  held : ∀ changed, outcome = .ok changed → before.isGateway host = false → Holds after.hosts host uid
  found : ∀ extended, outcome = .ok (false, extended) → before.isGateway host = false →
    before.owners.lookup uid = some host ∧
      ((before.hosts.lookup host).any fun entry => (entry.extend notAfterMs).2) = false

/-- A report that moves no mark leaves what was held, so long as the owners it leaves hold what is theirs. -/
private lemma reported_of_marks {after : Register} {host uid : String} {notAfterMs : Nat}
    {outcome : Except String (Bool × Bool)} (hmarks : ∀ name, marks after.hosts name = marks register.hosts name)
    (howned : ∀ uid host, after.owners.lookup uid = some host → register.isGateway host = false →
      Holds register.hosts host uid)
    (hfound : ∀ changed, outcome = .ok changed → register.isGateway host = false →
      register.owners.lookup uid = some host ∧
      Holds register.hosts host uid ∧ changed.1 = (register.hosts.lookup host).any fun entry =>
        (entry.extend notAfterMs).2) :
    Reported register after host uid notAfterMs outcome := by
  have hgateways : ∀ name, after.isGateway name = register.isGateway name :=
    fun name => by rw [isGateway_eq, isGateway_eq, hmarks]
  have hsame : ∀ name other, Holds after.hosts name other ↔ Holds register.hosts name other :=
    fun name other => holds_congr (hmarks name) other
  refine ⟨hgateways, fun other name howner hmark => ?_, fun name other h => (hsame name other).mpr h,
    fun _ name other h => (hsame name other).mp h, fun changed hok hmark => ?_, fun extended hok hmark => ?_⟩
  · rw [hgateways] at hmark
    exact (hsame name other).mpr (howned other name howner hmark)
  · exact (hsame host uid).mpr (hfound changed hok hmark).2.1
  · exact ⟨(hfound _ hok hmark).1, (hfound _ hok hmark).2.2.symm⟩

private lemma reported_checkReport (howned : Owned register)
    (hdisk : ∀ name other, Holds written name other → Holds register.hosts name other) (host : String)
    (subject : Map String String) (notAfterMs : Nat) (uid : String) :
    Reported register (register.report (.ok (bind written uid host)) host subject notAfterMs uid).1 host uid
      notAfterMs (register.report (.ok (bind written uid host)) host subject notAfterMs uid).2 := by
  cases hadmits : register.admits host uid with
  | error e =>
    rw [report_refused hadmits]
    exact reported_of_marks (fun _ => rfl) howned fun _ hok => by cases hok
  | ok binds =>
    cases binds with
    | false =>
      rw [report_held hadmits]
      refine reported_of_marks (marks_extend register host notAfterMs) ?_ fun changed hok hmark => ?_
      · rwa [owners_modify]
      rcases admits_eq_false hadmits with hgateway | howner
      · simp [hgateway] at hmark
      · cases hok
        exact ⟨howner, howned uid host howner hmark, rfl⟩
    | true =>
      obtain ⟨hmark, -, -⟩ := admits_eq_true hadmits
      rcases bind_cases written uid host with ⟨hbind, -⟩ | ⟨holder, hbind, -, hholds⟩
      · obtain ⟨extended, heq⟩ := report_bound hadmits subject notAfterMs
        rw [hbind, heq]
        have hmarks := marks_extend (register.bindTo host uid subject) host notAfterMs
        have hholds : ∀ name other, Holds
            ((register.bindTo host uid subject).modify host fun entry => (entry.extend notAfterMs).1).hosts name other ↔
              Holds register.hosts name other ∨ name = host ∧ other = uid := by
          intro name other
          rw [holds_congr (hmarks name), holds_bindTo subject hmark]
        have hgateways : ∀ name, ((register.bindTo host uid subject).modify host
            fun entry => (entry.extend notAfterMs).1).isGateway name = register.isGateway name := by
          intro name
          rw [isGateway_eq, hmarks, ← isGateway_eq, isGateway_bindTo hmark]
        refine ⟨hgateways, ?_, fun name other h => (hholds name other).mpr (.inl h), fun h => absurd rfl (h extended),
          fun _ _ _ => (hholds host uid).mpr (.inr ⟨rfl, rfl⟩), fun _ h => by cases h⟩
        intro other name howner hname
        rw [hgateways] at hname
        rw [hholds]
        have howner : (register.owners.insert uid host).lookup other = some name := by
          rwa [owners_modify] at howner
        rcases lookup_of_insert howner with ⟨hother, rfl⟩ | howner
        · exact .inr ⟨rfl, hother⟩
        · exact .inl (howned other name howner hname)
      · rw [hbind, report_taken hadmits]
        refine reported_of_marks (marks_taken_of_holds (hdisk holder uid hholds) host) ?_ fun _ hok => by cases hok
        intro other name howner hname
        have howner : (register.owners.insert uid holder).lookup other = some name := by
          simpa [takeUp] using howner
        rcases lookup_of_insert howner with ⟨rfl, rfl⟩ | howner
        · exact hdisk holder other hholds
        · exact howned other name howner hname

end Report

/-! ### Memory, the writes left, and the disk -/

section Durable

variable {memory : Register} {version writtenVersion : Nat} {written : Map String Host} {pending : List HostsWrite}
  {admitted : List (String × String)}

def Stays (written : Map String Host) (writtenVersion : Nat) (pending : List HostsWrite) (host uid : String) : Prop :=
  Holds written host uid ∧ ∀ w ∈ pending, writtenVersion < w.version → Holds w.hosts host uid

structure Durable (memory : Register) (version : Nat) (written : Map String Host) (writtenVersion : Nat)
    (pending : List HostsWrite) (admitted : List (String × String)) : Prop where
  owned : Owned memory
  onDisk : ∀ host uid, Holds written host uid → Holds memory.hosts host uid
  behind : writtenVersion ≤ version
  versions : ∀ w ∈ pending, w.version ≤ version
  snapshots : ∀ w ∈ pending, ∀ host uid, Holds w.hosts host uid → Holds memory.hosts host uid
  latest : ∀ w ∈ pending, w.version = version → ∀ host uid, Holds memory.hosts host uid → Holds w.hosts host uid
  ordered : ∀ v ∈ pending, ∀ w ∈ pending, v.version ≤ w.version → ∀ host uid, Holds v.hosts host uid →
    Holds w.hosts host uid
  current : version = writtenVersion → ∀ host uid, Holds memory.hosts host uid → Holds written host uid
  reports : ∀ w ∈ pending, ∀ host uid, w.report = some (host, uid) → memory.isGateway host = false →
    Holds w.hosts host uid
  overtaken : ∀ w ∈ pending, w.version ≤ writtenVersion → ∀ host uid, w.report = some (host, uid) →
    memory.isGateway host = false → Stays written writtenVersion pending host uid
  admitted : ∀ host uid, (host, uid) ∈ admitted → memory.isGateway host = false →
    Stays written writtenVersion pending host uid

variable {after : Register} {host uid : String} {notAfterMs : Nat} {outcome : Except String (Bool × Bool)}
  {w : HostsWrite}

private lemma Durable.unsaved (h : Durable memory version written writtenVersion pending admitted)
    (hreport : Reported memory after host uid notAfterMs outcome) (hsame : ∀ extended, outcome ≠ .ok (true, extended)) :
    Durable after version written writtenVersion pending admitted where
  owned := hreport.owned
  onDisk name other hholds := hreport.kept name other (h.onDisk name other hholds)
  behind := h.behind
  versions := h.versions
  snapshots w hw name other hholds := hreport.kept name other (h.snapshots w hw name other hholds)
  latest w hw hversion name other hholds :=
    h.latest w hw hversion name other (hreport.unchanged hsame name other hholds)
  ordered := h.ordered
  current hversion name other hholds := h.current hversion name other (hreport.unchanged hsame name other hholds)
  reports w hw name other hof hmark := h.reports w hw name other hof (hreport.gateways name ▸ hmark)
  overtaken w hw hversion name other hof hmark :=
    h.overtaken w hw hversion name other hof (hreport.gateways name ▸ hmark)
  admitted name other hmem hmark := h.admitted name other hmem (hreport.gateways name ▸ hmark)

private lemma Stays.append (hdisk : ∀ host uid, Holds written host uid → Holds memory.hosts host uid)
    (hcopy : ∀ host uid, Holds memory.hosts host uid → Holds w.hosts host uid)
    (h : Stays written writtenVersion pending host uid) : Stays written writtenVersion (pending ++ [w]) host uid := by
  refine ⟨h.1, forall_mem_append.mpr ⟨h.2, forall_mem_singleton.mpr fun _ => ?_⟩⟩
  exact hcopy host uid (hdisk host uid h.1)

section

variable (h : Durable memory version written writtenVersion pending admitted)
include h

private lemma Durable.saved
    (hreport : Reported memory after host uid notAfterMs outcome) {changed : Bool × Bool}
    (hok : outcome = .ok changed) :
    Durable after (version + 1) written writtenVersion (pending ++ [⟨version + 1, after.hosts, some (host, uid)⟩])
      admitted := by
  have hall : ∀ {p : HostsWrite → Prop}, (∀ w ∈ pending, p w) → p ⟨version + 1, after.hosts, some (host, uid)⟩ →
      ∀ w ∈ pending ++ [⟨version + 1, after.hosts, some (host, uid)⟩], p w :=
    fun hold hnew => forall_mem_append.mpr ⟨hold, forall_mem_singleton.mpr hnew⟩
  have hbehind := h.behind
  have hdisk : ∀ name other, Holds written name other → Holds after.hosts name other :=
    fun name other hholds => hreport.kept name other (h.onDisk name other hholds)
  have hstays : ∀ {name other}, Stays written writtenVersion pending name other →
      Stays written writtenVersion (pending ++ [⟨version + 1, after.hosts, some (host, uid)⟩]) name other :=
    fun hs => hs.append hdisk fun _ _ hholds => hholds
  have hkept : ∀ w ∈ pending, ∀ name other, Holds w.hosts name other → Holds after.hosts name other :=
    fun w hw name other hholds => hreport.kept name other (h.snapshots w hw name other hholds)
  have hnew : ∀ w ∈ pending, ¬version + 1 ≤ w.version := fun w hw =>
    Nat.not_le_of_lt (Nat.lt_succ_of_le (h.versions w hw))
  refine ⟨hreport.owned, hdisk, Nat.le_succ_of_le hbehind, ?_, ?_, ?_, ?_, ?_, ?_, ?_, ?_⟩
  · exact hall (fun w hw => Nat.le_succ_of_le (h.versions w hw)) le_rfl
  · exact hall hkept fun _ _ hholds => hholds
  · exact hall (fun w hw hversion => absurd hversion.ge (hnew w hw)) fun _ _ _ hholds => hholds
  · refine hall (fun v hv => hall (h.ordered v hv) fun _ => hkept v hv) ?_
    exact hall (fun w hw hversion => absurd hversion (hnew w hw)) fun _ _ _ hholds => hholds
  · intro hversion
    omega
  · refine hall (fun w hw name other hof hmark => ?_) fun name other hof hmark => ?_
    · exact h.reports w hw name other hof (hreport.gateways name ▸ hmark)
    · cases hof
      exact hreport.held changed hok (hreport.gateways host ▸ hmark)
  · refine hall (fun w hw hversion name other hof hmark => ?_) fun hversion => ?_
    · exact hstays (h.overtaken w hw hversion name other hof (hreport.gateways name ▸ hmark))
    · simp only at hversion
      omega
  · intro name other hadmitted hmark
    exact hstays (h.admitted name other hadmitted (hreport.gateways name ▸ hmark))

private lemma Durable.answered {report : Option (String × String)}
    (hstays : ∀ host uid, report = some (host, uid) → memory.isGateway host = false →
      Stays written writtenVersion pending host uid) :
    Durable memory version written writtenVersion pending (report.elim admitted fun report => report :: admitted) := by
  refine { h with admitted := fun name other hmem hmark => ?_ }
  cases report with
  | none => exact h.admitted name other hmem hmark
  | some report =>
    rcases mem_cons.mp hmem with heq | hmem
    · exact hstays name other (by rw [heq]) hmark
    · exact h.admitted name other hmem hmark

private lemma Durable.erased (n : Nat) :
    Durable memory version written writtenVersion (pending.eraseIdx n) admitted := by
  have hsub : ∀ w ∈ pending.eraseIdx n, w ∈ pending := fun w hw => mem_of_mem_eraseIdx hw
  have hstays : ∀ {name other}, Stays written writtenVersion pending name other →
      Stays written writtenVersion (pending.eraseIdx n) name other :=
    fun hs => ⟨hs.1, fun w hw => hs.2 w (hsub w hw)⟩
  exact
    { owned := h.owned
      onDisk := h.onDisk
      behind := h.behind
      versions := fun w hw => h.versions w (hsub w hw)
      snapshots := fun w hw => h.snapshots w (hsub w hw)
      latest := fun w hw => h.latest w (hsub w hw)
      ordered := fun v hv w hw => h.ordered v (hsub v hv) w (hsub w hw)
      current := h.current
      reports := fun w hw => h.reports w (hsub w hw)
      overtaken := fun w hw hversion name other hof hmark =>
        hstays (h.overtaken w (hsub w hw) hversion name other hof hmark)
      admitted := fun name other hmem hmark => hstays (h.admitted name other hmem hmark) }

variable {written' : Map String Host}

/-- A write, whatever becomes of each file: what stays is on disk in the file as it was and as it is to be. -/
private lemma Durable.writtenPartly (hw : w ∈ pending) (hlater : writtenVersion < w.version)
    (hlookup : ∀ name, written'.lookup name = written.lookup name ∨ written'.lookup name = w.hosts.lookup name) :
    Durable memory version written' writtenVersion pending admitted := by
  have hstays : ∀ {name other}, Stays written writtenVersion pending name other →
      Stays written' writtenVersion pending name other := by
    intro name other hs
    refine ⟨?_, hs.2⟩
    rcases hlookup name with heq | heq
    · exact (holds_congr (marks_congr heq) other).mpr hs.1
    · exact (holds_congr (marks_congr heq) other).mpr (hs.2 w hw hlater)
  have hversion := h.versions w hw
  refine { h with onDisk := ?_, current := ?_, overtaken := ?_, admitted := ?_ }
  · intro name other hholds
    rcases hlookup name with heq | heq
    · exact h.onDisk name other ((holds_congr (marks_congr heq) other).mp hholds)
    · exact h.snapshots w hw name other ((holds_congr (marks_congr heq) other).mp hholds)
  · intro heq
    omega
  · intro v hv hold name other hof hmark
    exact hstays (h.overtaken v hv hold name other hof hmark)
  · intro name other hmem hmark
    exact hstays (h.admitted name other hmem hmark)

/-- A write that did not fail: what it wrote is on disk, and so is every older copy's report. -/
private lemma Durable.writtenWhole (hw : w ∈ pending) (hlater : writtenVersion < w.version)
    (hlookup : ∀ name, written'.lookup name = w.hosts.lookup name) :
    Durable memory version written' w.version pending admitted ∧
      ∀ host uid, w.report = some (host, uid) → memory.isGateway host = false →
        Stays written' w.version pending host uid := by
  have hholds : ∀ name other, Holds written' name other ↔ Holds w.hosts name other :=
    fun name other => holds_congr (marks_congr (hlookup name)) other
  have hstays : ∀ {name other}, Holds w.hosts name other → Stays written' w.version pending name other := by
    intro name other hheld
    exact ⟨(hholds name other).mpr hheld, fun v hv hversion => h.ordered w hw v hv hversion.le name other hheld⟩
  refine ⟨?_, fun name other hof hmark => hstays (h.reports w hw name other hof hmark)⟩
  refine { h with onDisk := ?_, behind := h.versions w hw, current := ?_, overtaken := ?_, admitted := ?_ }
  · intro name other hheld
    exact h.snapshots w hw name other ((hholds name other).mp hheld)
  · intro hversion name other hheld
    exact (hholds name other).mpr (h.latest w hw hversion.symm name other hheld)
  · intro v hv hversion name other hof hmark
    exact hstays (h.ordered v hv w hw hversion name other (h.reports v hv name other hof hmark))
  · intro name other hmem hmark
    exact hstays ((h.admitted name other hmem hmark).2 w hw hlater)

end

end Durable

namespace HostLedger

def Act.ofReports : Act → Bool
  | .checkReport .. | .write .. => true
  | _ => false

/-- A report that finds its `instance_uid` bound to its host in memory and does not move the Host's valid until is made
only once the Hosts, as memory last changed them, are written. -/
def settled (s : HostLedger) : Act → Bool
  | .checkReport host _ notAfterMs uid =>
    s.register.owners.lookup uid ≠ some host ||
      ((s.register.hosts.lookup host).any fun entry => (entry.extend notAfterMs).2) ||
      s.state.hostsVersion = s.writtenVersion
  | _ => true

def IsDurable (s : HostLedger) : Prop :=
  Durable s.register s.state.hostsVersion s.written s.writtenVersion s.pending s.admitted

private lemma lookup_ownersOf {hosts : Map String Host} {uid host : String}
    (h : (ownersOf hosts).lookup uid = some host) :
    ∃ entry, hosts.lookup host = some entry ∧ uid ∈ entry.instanceUids := by
  rcases lookup_foldl_insert _ _ _ _ h with hempty | ⟨owned, howned, rfl, rfl⟩
  · cases hempty
  obtain ⟨name, -, hname⟩ := mem_flatMap.mp howned
  obtain ⟨uid, huid, rfl⟩ := mem_map.mp hname
  cases hentry : hosts.lookup name with
  | none =>
    simp [hentry] at huid
  | some entry =>
    rw [hentry] at huid
    exact ⟨entry, rfl, (Finset.mem_sort _).mp huid⟩

private lemma isDurable_opened (ledger : Ledger) : (opened ledger).IsDurable := by
  obtain ⟨-, -, -, hregister, hversion⟩ := State.loaded_frame ledger
  have hregister : (opened ledger).register = ⟨ledger.hosts, ownersOf ledger.hosts⟩ := hregister
  have hversion : (opened ledger).state.hostsVersion = 0 := hversion
  unfold IsDurable
  rw [hregister, hversion]
  have hnone : ∀ w, w ∉ (opened ledger).pending := fun w hw => by cases hw
  refine
    { owned := ?_
      onDisk := fun _ _ h => h
      behind := Nat.le_refl 0
      versions := fun w hw => absurd hw (hnone w)
      snapshots := fun w hw => absurd hw (hnone w)
      latest := fun w hw => absurd hw (hnone w)
      ordered := fun w hw => absurd hw (hnone w)
      current := fun _ _ _ h => h
      reports := fun w hw => absurd hw (hnone w)
      overtaken := fun w hw => absurd hw (hnone w)
      admitted := fun _ _ h => by cases h }
  intro uid host howner hmark
  obtain ⟨entry, hentry, huid⟩ := lookup_ownersOf howner
  have hmark : (ledger.hosts.lookup host).any Host.gateway = false := hmark
  rw [hentry, Option.any_some] at hmark
  rw [holds_iff, hentry, Option.any_some, Host.holds, hmark]
  exact decide_eq_true huid

private lemma isDurable_checkReport {s : HostLedger} (h : s.IsDurable) {host : String} {subject : Map String String}
    {notAfterMs : Nat} {uid : String} (hsettled : s.settled (.checkReport host subject notAfterMs uid) = true) :
    (s.checkReport host subject notAfterMs uid).IsDurable := by
  have hreport := reported_checkReport h.owned h.onDisk host subject notAfterMs uid
  unfold checkReport
  split
  next register e heq =>
    rw [heq] at hreport
    exact h.unsaved hreport fun _ hc => by cases hc
  rename_i register changed extended heq
  rw [heq] at hreport
  -- when the next prune is due is no part of the invariant, so both branches of `extended` are alike
  cases changed with
  | true =>
    have hsaved := h.saved hreport rfl
    cases extended with
    | true | false => exact hsaved
  | false =>
    have hunsaved := h.unsaved hreport fun _ hc => by cases hc
    have hstays : ∀ name other, some (host, uid) = some (name, other) → register.isGateway name = false →
        Stays s.written s.writtenVersion s.pending name other := by
      intro name other heq hmark
      cases heq
      rw [hreport.gateways] at hmark
      obtain ⟨howner, hextend⟩ := hreport.found extended rfl hmark
      have hversion : s.state.hostsVersion = s.writtenVersion := by
        simpa [settled, howner, hextend] using hsettled
      refine ⟨hunsaved.current hversion host uid (hreport.held _ rfl hmark), fun w hw hlater => ?_⟩
      have hle := h.versions w hw
      omega
    have hanswered := hunsaved.answered hstays
    cases extended with
    | true | false => exact hanswered

private lemma isDurable_write {s t : HostLedger} (h : s.IsDurable) {n : Nat} {failing : List String}
    (hstep : s.write n failing = some t) : t.IsDurable := by
  unfold HostLedger.write at hstep
  split at hstep
  · cases hstep
  rename_i w hw
  have hmem := mem_of_getElem? hw
  simp only at hstep
  split at hstep
  next hold =>
    cases hstep
    have hstays := h.overtaken w hmem hold
    exact (h.answered hstays).erased n
  rename_i hlater
  have hlookup := saveHosts_lookup failing s.written w.hosts
  split at hstep
  next written' heq =>
    rw [heq] at hlookup
    cases hstep
    obtain ⟨hwhole, hstays⟩ := h.writtenWhole hmem (Nat.lt_of_not_le hlater) fun name => (hlookup name).2 rfl
    exact (hwhole.answered hstays).erased n
  next written' heq =>
    rw [heq] at hlookup
    cases hstep
    exact (h.writtenPartly hmem (Nat.lt_of_not_le hlater) fun name => (hlookup name).1).erased n

private lemma isDurable_step {s t : HostLedger} {a : Act} (h : s.IsDurable) (hof : a.ofReports = true)
    (hsettled : s.settled a = true) (hstep : s.step a = some t) : t.IsDurable := by
  cases a with
  | checkReport host subject notAfterMs uid =>
    cases hstep
    exact isDurable_checkReport h hsettled
  | write n failing => exact isDurable_write h hstep
  | _ => cases hof

end HostLedger

/-- In a run of reports and of writes that fail or not, over any ledger, in which every report of a binding that memory
holds already is made only once the Hosts are written: each report that was admitted for a host that is not a Gateway is
bound to it on disk, so that the store refuses the `instance_uid` to every other. -/
theorem admitted_bound_on_disk {ledger : Ledger} {s : HostLedger} (h : Reach (HostLedger.opened ledger)
      (restrict (fun s a => (HostLedger.Act.ofReports a && s.settled a) = true) HostLedger.step) s)
    {host uid : String} (hadmitted : (host, uid) ∈ s.admitted) (hmark : s.register.isGateway host = false) :
    Holds s.written host uid ∧
      ∀ other, other ≠ host → ∃ holder, FsLedgerStore.bind s.written uid other = .taken holder := by
  have hdurable : s.IsDurable := by
    refine h.invariant_restrict (HostLedger.isDurable_opened ledger) ?_
    intro s a t hinv hok hstep
    rw [Bool.and_eq_true] at hok
    exact HostLedger.isDurable_step hinv hok.1 hok.2 hstep
  have hholds := (hdurable.admitted host uid hadmitted hmark).1
  refine ⟨hholds, fun other hother => ?_⟩
  rcases bind_cases s.written uid other with ⟨-, hnone⟩ | ⟨holder, hbind, -⟩
  · exact absurd hholds (hnone host hother.symm)
  · exact ⟨holder, hbind⟩

def Revocations.Ledger.empty : Ledger := ⟨[], [], ∅⟩

/-- A report whose write succeeds. -/
theorem admitted_bound_on_disk_written : ∃ s, Reach (HostLedger.opened .empty)
    (restrict (fun s a => (HostLedger.Act.ofReports a && s.settled a) = true) HostLedger.step) s ∧
      ("a", "01") ∈ s.admitted ∧ Holds s.written "a" "01" := by
  refine Reach.exists_of_run_imp (p := fun s => ("a", "01") ∈ s.admitted ∧ s.register.isGateway "a" = false)
    [.checkReport "a" ∅ 10 "01", .write 0 []] (by decide +kernel) ?_
  rintro s hreach ⟨hadmitted, hmark⟩
  exact ⟨hadmitted, (admitted_bound_on_disk hreach hadmitted hmark).1⟩

/-- A report whose write fails is refused, and the same report made again is not. -/
theorem admitted_unwritten : ∃ s, Reach (HostLedger.opened .empty) HostLedger.step s ∧
    ("a", "01") ∈ s.admitted ∧ s.register.isGateway "a" = false ∧ s.written.lookup "a" = none ∧
      FsLedgerStore.bind s.written "01" "b" = .bound := by
  exact Reach.exists_of_run [.checkReport "a" ∅ 10 "01", .write 0 ["a"], .checkReport "a" ∅ 10 "01"] (by decide +kernel)

end OpampFleet.Server
