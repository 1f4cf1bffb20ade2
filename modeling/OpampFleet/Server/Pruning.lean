import OpampFleet.Server.RevokedSet

/-!
# What a prune leaves revoked

A prune removes the certificates that are spent: expired, with no valid one that descends from them. It then drops every
entry of the list that names one of them. But an entry names its serial under every CA of a role, so it goes when one of
its certificates is spent, whatever became of the others.
-/

namespace OpampFleet.Server.Revocations

open Lib List Map

namespace State

variable {s : State}

def Unexpired (s : State) (now : Nat) (id : CertId) : Prop :=
    ∃ entry, s.issued.lookup id = some entry ∧ now < entry.facts.notAfterMs

/-- Registered, and on the chain of no certificate that is not expired. -/
def Spent (s : State) (now : Nat) (id : CertId) : Prop :=
  (s.issued.lookup id).isSome ∧ ∀ other, s.Unexpired now other → ¬Links.Follows s.predecessor other id

def NoneSpent (s : State) (now : Nat) (id : String) : Prop :=
  ∀ entry ∈ s.revocations, entry.id = id → ∀ certificate ∈ entry.named, ¬s.Spent now certificate

def Keyed (s : State) : Prop := ∀ id entry, s.issued.lookup id = some entry → entry.facts.id = id

variable {ledger : Ledger} {id : CertId} {now : Nat} {entry : Revocation}

private lemma loaded_lookup {entry : Issued} (h : (loaded ledger).issued.lookup id = some entry) :
    entry ∈ ledger.issued ∧ entry.facts.id = id := by
  rw [(loaded_frame ledger).1] at h
  rcases lookup_foldl_insert (fun entry : Issued => entry.facts.id) (fun entry => entry) ledger.issued ∅ h with
    hempty | ⟨x, hx, hid, rfl⟩
  · cases hempty
  · exact ⟨hx, hid⟩

private lemma foldl_min_le {α : Type} (f : α → Nat) (xs : List α) (bound : Nat) :
    xs.foldl (fun least x => min least (f x)) bound ≤ bound ∧
      ∀ x ∈ xs, xs.foldl (fun least x => min least (f x)) bound ≤ f x := by
  induction xs generalizing bound with
  | nil => exact ⟨le_rfl, by simp⟩
  | cons first xs ih =>
    obtain ⟨hbound, hall⟩ := ih (min bound (f first))
    rw [foldl_cons]
    refine ⟨by omega, ?_⟩
    intro x hx
    rcases mem_cons.mp hx with rfl | hx
    · omega
    · exact hall x hx

private lemma loaded_earliest {entry : Issued} (h : entry ∈ ledger.issued) :
    (loaded ledger).earliestExpiryMs ≤ entry.facts.notAfterMs := by
  unfold loaded takeUpRegister
  obtain ⟨roots, descendants, heq⟩ := foldl_roots _ _ _
  rw [heq]
  have hhosts := (foldl_min_le (fun host : Host => host.validUntilMs.getD 0)
    (ledger.hosts.values.filter fun host => !host.gateway)
    (ledger.issued.foldl (fun earliest entry => min earliest entry.facts.notAfterMs) u64Max)).1
  exact hhosts.trans ((foldl_min_le (fun entry : Issued => entry.facts.notAfterMs) ledger.issued u64Max).2 entry h)

private lemma mem_needed (hkeyed : s.Keyed) :
    id ∈ s.needed now ↔ ∃ other, s.Unexpired now other ∧ Links.Follows s.predecessor other id := by
  have hmap : s.needed now = ((s.issued.values.filter fun entry => now < entry.facts.notAfterMs).map
      fun entry => entry.facts.id).foldl (fun seen id => Links.visit s.predecessor s.bound seen id) ∅ := by
    rw [foldl_map]
    rfl
  rw [hmap, Links.mem_foldl_visit s.supported s.card_keys_lt_bound]
  constructor
  · rintro ⟨other, hother, hfollows⟩
    obtain ⟨entry, hentry, rfl⟩ := mem_map.mp hother
    obtain ⟨hvalue, hvalid⟩ := mem_filter.mp hentry
    obtain ⟨key, hkey⟩ := mem_values.mp hvalue
    rw [← hkeyed key entry hkey] at hkey
    exact ⟨_, ⟨entry, hkey, of_decide_eq_true hvalid⟩, hfollows⟩
  · rintro ⟨other, ⟨entry, hkey, hvalid⟩, hfollows⟩
    refine ⟨other, mem_map.mpr ⟨entry, ?_, hkeyed other entry hkey⟩, hfollows⟩
    exact mem_filter.mpr ⟨mem_values.mpr ⟨other, hkey⟩, decide_eq_true hvalid⟩

private lemma mem_gone (hkeyed : s.Keyed) : id ∈ s.gone now ↔ s.Spent now id := by
  unfold gone Spent
  rw [mem_filter, decide_eq_true_eq, mem_needed hkeyed, AList.lookup_isSome, AList.mem_keys]
  simp only [not_exists, not_and]

private lemma namesGone_iff {gone : List CertId} : namesGone gone entry = true ↔ ∃ id ∈ gone, id ∈ entry.named := by
  unfold namesGone Revocation.named
  simp only [any_eq_true, Bool.and_eq_true, decide_eq_true_eq, mem_map]
  constructor
  · rintro ⟨id, hid, hserial, hissuer⟩
    exact ⟨id, hid, id.issuer, hissuer, by rw [← hserial]⟩
  · rintro ⟨id, hid, issuer, hissuer, rfl⟩
    exact ⟨_, hid, rfl, hissuer⟩

private lemma removeGone_frame (io : PruneIo) (gone : List CertId) (s : State) :
    (removeGone io s gone).1.revocations = s.revocations ∧
      ∀ id, id ∉ gone → (removeGone io s gone).1.issued.lookup id = s.issued.lookup id := by
  refine ⟨removeGone_invariant io (P := fun t => t.revocations = _) rfl fun id _ t h =>
    (t.remove_revocations id).trans h,
    fun id hid => ?_⟩
  refine removeGone_invariant io (P := fun t => t.issued.lookup id = _) rfl fun first hfirst t h => ?_
  rcases t.remove_cases first with ⟨heq, -⟩ | ⟨-, heq⟩
  · rw [heq, h]
  · rw [heq, lookup_erase_ite, if_neg (ne_of_mem_of_not_mem hfirst hid).symm, h]

private lemma removeRevocations_frame (io : PruneIo) (dropped : List String) (s : State) :
    (removeRevocations io s dropped).1.issued = s.issued ∧
      ∀ entry ∈ s.revocations, entry.id ∉ dropped → entry ∈ (removeRevocations io s dropped).1.revocations := by
  refine ⟨removeRevocations_invariant io (P := fun t => t.issued = _) rfl fun _ _ _ h => h, fun entry hentry hid => ?_⟩
  refine removeRevocations_invariant io (P := fun t => entry ∈ t.revocations) hentry fun first hfirst t h => ?_
  exact mem_filter.mpr ⟨h, decide_eq_true fun heq => hid (heq ▸ hfirst)⟩

private lemma follows_prune (hkeyed : s.Keyed) (byAct : Bool) (now : Nat) (io : PruneIo) (h : s.Unexpired now id)
    (ancestor : CertId) :
    Links.Follows (s.prune byAct now io).1.predecessor id ancestor ↔ Links.Follows s.predecessor id ancestor := by
  refine Links.follows_congr (fun other hother => ?_) ancestor
  by_cases hdue : now < s.earliestExpiryMs
  · rw [s.prune_of_not_due byAct now io hdue]
  obtain ⟨t, hissued, -, -, heq⟩ := s.prune_eq_pruned byAct now io hdue
  have hkept : other ∉ s.gone now := fun hgone => ((mem_gone hkeyed).mp hgone).2 id h hother
  have hframe := (removeGone_frame io (s.gone now) t).2 other hkept
  rw [heq]
  unfold predecessor pruned
  rw [← hissued, ← hframe]
  split
  next hremoved =>
    rw [hremoved]
  next hremoved =>
    rw [hremoved, (removeRevocations_frame io _ _).1]

private lemma mem_revocations_prune (hkeyed : s.Keyed) (byAct : Bool) (now : Nat) (io : PruneIo)
    (h : entry ∈ s.revocations) (hnone : s.NoneSpent now entry.id) : entry ∈ (s.prune byAct now io).1.revocations := by
  by_cases hdue : now < s.earliestExpiryMs
  · rwa [s.prune_of_not_due byAct now io hdue]
  obtain ⟨t, -, hrevocations, -, heq⟩ := s.prune_eq_pruned byAct now io hdue
  have hframe := (removeGone_frame io (s.gone now) t).1
  rw [hrevocations] at hframe
  rw [heq]
  unfold pruned
  split
  next hremoved =>
    rw [hremoved] at hframe
    rwa [hframe]
  next hremoved =>
    rw [hremoved] at hframe
    refine (removeRevocations_frame io _ _).2 entry (hframe ▸ h) ?_
    intro hdropped
    obtain ⟨other, hother, hid⟩ := mem_map.mp hdropped
    obtain ⟨hmem, hnames⟩ := mem_filter.mp hother
    obtain ⟨certificate, hgone, hnamed⟩ := namesGone_iff.mp hnames
    exact hnone other (hframe ▸ hmem) hid certificate hnamed ((mem_gone hkeyed).mp hgone)

def PruneIo.written : PruneIo where
  removeIssued _ := .ok ()
  removeRevocation _ := .ok true

private lemma removeGone_written (gone : List CertId) (s : State) : (removeGone .written s gone).2 = .ok () := by
  induction gone generalizing s with
  | nil => rfl
  | cons first gone ih => exact ih _

private lemma removeRevocations_written (dropped : List String) {s : State}
    (h : entry ∈ (removeRevocations .written s dropped).1.revocations) :
      entry ∈ s.revocations ∧ entry.id ∉ dropped := by
  induction dropped generalizing s with
  | nil => exact ⟨h, not_mem_nil⟩
  | cons first dropped ih =>
    obtain ⟨hmem, hid⟩ := ih h
    obtain ⟨hmem, hfirst⟩ := mem_filter.mp hmem
    exact ⟨hmem, not_mem_cons_of_ne_of_not_mem (of_decide_eq_true hfirst) hid⟩

private lemma noneSpent_of_mem_prune (hkeyed : s.Keyed) (byAct : Bool) (hdue : ¬now < s.earliestExpiryMs)
    (h : entry ∈ (s.prune byAct now .written).1.revocations) :
    entry ∈ s.revocations ∧ s.NoneSpent now entry.id := by
  obtain ⟨t, -, hrevocations, -, heq⟩ := s.prune_eq_pruned byAct now .written hdue
  have hframe := (removeGone_frame .written (s.gone now) t).1
  have hwritten := removeGone_written (s.gone now) t
  rw [hrevocations] at hframe
  rw [heq] at h
  unfold pruned at h
  split at h
  next hremoved =>
    simp [hremoved] at hwritten
  rename_i hremoved
  rw [hremoved] at hframe
  obtain ⟨hmem, hid⟩ := removeRevocations_written _ h
  rw [hframe] at hmem
  refine ⟨hmem, fun other hother hsame certificate hnamed hspent => hid ?_⟩
  refine mem_map.mpr ⟨other, mem_filter.mpr ⟨hframe ▸ hother, ?_⟩, hsame⟩
  exact namesGone_iff.mpr ⟨certificate, (mem_gone hkeyed).mpr hspent, hnamed⟩

private lemma not_spent_of_not_due (hdue : now < (loaded ledger).earliestExpiryMs) (id : CertId) :
    ¬(loaded ledger).Spent now id := by
  rintro ⟨hsome, hnone⟩
  obtain ⟨entry, hentry⟩ := Option.isSome_iff_exists.mp hsome
  have hearliest := loaded_earliest (loaded_lookup hentry).1
  exact hnone id ⟨entry, hentry, by omega⟩ .refl

end State

open State

/-- What was valid and revoked stays revoked through a prune, whatever the store answers, exactly when the chain of each
such certificate meets an entry of the list whose certificates are none of them spent. -/
theorem prune_keeps_revoked_iff (ledger : Ledger) (byAct : Bool) (now : Nat) :
    (∀ io certificate, (loaded ledger).Unexpired now certificate →
        (loaded ledger).isCertificateRevoked certificate = true →
        ((loaded ledger).prune byAct now io).1.isCertificateRevoked certificate = true) ↔
      ∀ certificate, (loaded ledger).Unexpired now certificate → (loaded ledger).Revoked certificate →
        ∃ ancestor, Links.Follows (loaded ledger).predecessor certificate ancestor ∧
          ∃ entry ∈ ledger.revocations, ancestor ∈ entry.named ∧ (loaded ledger).NoneSpent now entry.id := by
  have hkeyed : (loaded ledger).Keyed := fun id entry h => (loaded_lookup h).2
  have hcaches : (loaded ledger).Caches := caches_of_none (loaded_frame ledger).2.2.1
  have hrevocations := (loaded_frame ledger).2.1
  simp only [isCertificateRevoked, decide_eq_true_eq, hcaches.mem_revokedSet,
    (hcaches.prune byAct now _).mem_revokedSet]
  constructor
  · -- a store that writes everything leaves no other entries
    intro hkept certificate hvalid hrevoked
    obtain ⟨ancestor, hfollows, hnamed⟩ := hkept .written certificate hvalid hrevoked
    rw [follows_prune hkeyed byAct now .written hvalid] at hfollows
    obtain ⟨entry, hentry, hin⟩ := mem_flatMap.mp (mem_toFinset.mp hnamed)
    by_cases hdue : now < (loaded ledger).earliestExpiryMs
    · rw [prune_of_not_due _ byAct now .written hdue, hrevocations] at hentry
      exact ⟨ancestor, hfollows, entry, hentry, hin, fun _ _ _ id _ => not_spent_of_not_due hdue id⟩
    · obtain ⟨hmem, hnone⟩ := noneSpent_of_mem_prune hkeyed byAct hdue hentry
      exact ⟨ancestor, hfollows, entry, hrevocations ▸ hmem, hin, hnone⟩
  · intro hcondition io certificate hvalid hrevoked
    obtain ⟨ancestor, hfollows, entry, hentry, hin, hnone⟩ := hcondition certificate hvalid hrevoked
    refine ⟨ancestor, (follows_prune hkeyed byAct now io hvalid ancestor).mpr hfollows, ?_⟩
    have hstays := mem_revocations_prune hkeyed byAct now io (hrevocations.symm ▸ hentry) hnone
    exact mem_toFinset.mpr (mem_flatMap.mpr ⟨entry, hstays, hin⟩)

/-- One serial under two CAs, revoked under both: the certificate of the old CA has expired, the one of the new has
not. -/
def rotatedAuthority : Ledger where
  issued := [⟨⟨⟨"old", "01"⟩, 10, none, ∅⟩, "", none, 0⟩, ⟨⟨⟨"new", "01"⟩, 50, none, ∅⟩, "", none, 0⟩]
  revocations := [⟨"entry", "agent", ["old", "new"], "01", 0⟩]
  hosts := ∅

/-- The revocation goes with the certificate of the old CA. -/
theorem prune_drops_unexpired : (loaded rotatedAuthority).Unexpired 20 ⟨"new", "01"⟩ ∧
      (loaded rotatedAuthority).isCertificateRevoked ⟨"new", "01"⟩ = true ∧
      ((loaded rotatedAuthority).prune false 20 .written).1.isCertificateRevoked ⟨"new", "01"⟩ = false := by
  refine ⟨⟨⟨⟨⟨"new", "01"⟩, 50, none, ∅⟩, "", none, 0⟩, rfl, by decide⟩, ?_, ?_⟩
  · decide +kernel
  · decide +kernel

end OpampFleet.Server.Revocations
