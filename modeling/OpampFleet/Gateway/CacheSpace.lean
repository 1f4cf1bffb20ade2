import Mathlib.Algebra.Order.BigOperators.Group.List
import Mathlib.Algebra.Order.Group.Nat
import OpampFleet.Gateway.PackageCache

/-!
# The space the package cache takes

Every file of the cache is booked once: a stored one with the held artifacts, with those being deleted or with those
whose deletion failed, or with the fetch that is about to settle it; a staging file with its fetch. A fetch books the
room it was granted, and it is granted only what the capacity leaves beside all that is booked. A fetch moves its files
between the books (`accounts`) one at a time, and each move is a permutation, so that nothing is booked twice and
nothing is lost.
-/

namespace OpampFleet.Gateway

open Lib List Map AList

variable {n : Nat}

namespace Stage

def room : Stage → Nat
  | .granted need | .writing need _ | .whole need _ | .renamed need _ | .failed need _ => need
  | _ => 0

def reservation : Stage → Option Nat
  | .deleting .evict need _ _ | .reserving need | .granted need | .writing need _ | .whole need _
  | .renamed need _ => some need
  | .failed need _ => if need = 0 then none else some need
  | _ => none

def results : Stage → List (Copy × Nat × Bool)
  | .deleting _ _ _ done => done
  | _ => []

def job : Stage → List (Copy × Nat)
  | .deleting _ _ todo done => done.map (fun r => (r.1, r.2.1)) ++ todo
  | _ => []

private lemma mem_job_of_results {stage : Stage} {p : Copy} {gone : Bool} (h : (p, n, gone) ∈ stage.results) :
    (p, n) ∈ stage.job := by
  cases stage <;> simp only [results, not_mem_nil] at h
  exact mem_append_left _ (mem_map.mpr ⟨_, h, rfl⟩)

def body : Stage → Option Bytes
  | .writing _ received | .whole _ received => some received
  | _ => none

def stages : Stage → Bool
  | .granted _ | .writing _ _ | .whole _ _ | .failed _ _ => true
  | _ => false

attribute [simp] reservation results body

end Stage

namespace Fetch

def copy : Fetch → Nat
  | .spawned => 0
  | .running copy _ => copy

def room : Fetch → Nat
  | .spawned => 0
  | .running _ stage => stage.room

def stagedRoom : Fetch → Nat
  | .spawned => 0
  | .running _ stage => if stage.stages then stage.room else 0

def filedRoom : Fetch → Nat
  | .running _ (.renamed need _) => need
  | _ => 0

private lemma filedRoom_add_stagedRoom_le (f : Fetch) : f.filedRoom + f.stagedRoom ≤ f.room := by
  cases f with
  | spawned => simp [filedRoom, stagedRoom]
  | running copy stage => cases stage <;> simp [filedRoom, stagedRoom, room, Stage.room, Stage.stages]

end Fetch

namespace PackageCache

def accounts (s : PackageCache) : List (Copy × Nat) :=
  s.held.entries.map (fun e => ((e.1, e.2.copy), e.2.len)) ++
    (s.deleting.entries.map (fun e => (e.1, e.2)) ++ s.doomed.entries.map (fun e => (e.1, e.2)))

variable {s : PackageCache} {p : Copy} {hash : Hash} {held : Held} {reserved : Map Hash Nat} {files : Map Copy Bytes}
  {files' : Map Copy Bytes} {deleting : Map Copy Nat} {staged : Map Copy Bytes} {file : Copy × Nat}

private lemma mem_accounts :
    (p, n) ∈ s.accounts ↔ (∃ held, s.held.lookup p.1 = some held ∧ held.copy = p.2 ∧ held.len = n) ∨
      s.deleting.lookup p = some n ∨ s.doomed.lookup p = some n := by
  unfold accounts
  rw [mem_append, mem_append, mem_pairs, mem_pairs]
  refine or_congr ?_ Iff.rfl
  rw [mem_map]
  constructor
  · rintro ⟨e, he, heq⟩
    cases heq
    exact ⟨e.2, mem_lookup_iff.mpr he, rfl, rfl⟩
  · rintro ⟨held, hheld, hcopy, hlen⟩
    refine ⟨⟨p.1, held⟩, mem_lookup_iff.mp hheld, ?_⟩
    rw [hcopy, hlen]

private lemma sum_accounts (s : PackageCache) :
    (s.accounts.map Prod.snd).sum = s.held.sum Held.len + s.deleting.sum id + s.doomed.sum id := by
  unfold accounts Map.sum
  simp only [map_append, map_map, sum_append, Function.comp_def, id_eq]
  omega

private lemma sum_le_of_subperm {l l' : List (Copy × Nat)} (h : l.Subperm l') :
    (l.map Prod.snd).sum ≤ (l'.map Prod.snd).sum := by
  obtain ⟨m, hperm, hsub⟩ := h
  rw [← (hperm.map Prod.snd).sum_nat]
  exact List.Sublist.sum_le_sum (hsub.map Prod.snd) fun _ _ => Nat.zero_le _

private lemma nodup_of_subperm {l l' : List (Copy × Nat)} (h : l.Subperm l') (honce : (l'.map Prod.fst).Nodup) :
    (l.map Prod.fst).Nodup := by
  obtain ⟨m, hperm, hsub⟩ := h
  exact (hperm.map Prod.fst).nodup_iff.mp ((hsub.map Prod.fst).nodup honce)

/-! ### The books' moves -/

private lemma accounts_held_insert (h : s.held.lookup hash = none) (held : Held) :
    accounts { s with held := s.held.insert hash held } = ((hash, held.copy), held.len) :: s.accounts := by
  unfold accounts
  simp only [entries_insert_of_none h, map_cons, cons_append]

private lemma accounts_held_erase (h : s.held.lookup hash = some held) :
    s.accounts.Perm (((hash, held.copy), held.len) :: accounts { s with held := s.held.erase hash }) := by
  exact ((entries_perm_erase h).map _).append_right _

private lemma accounts_touch (h : s.held.lookup hash = some held) (used : Nat) :
    s.accounts.Perm (accounts { s with held := s.held.insert hash { held with used := used } }) := by
  have hperm := accounts_held_erase h
  have hinsert : accounts { s with held := s.held.insert hash { held with used := used } } =
      ((hash, held.copy), held.len) :: accounts { s with held := s.held.erase hash } := by
    unfold accounts
    rw [entries_insert]
    rfl
  rwa [hinsert]

private lemma accounts_evictOne {victim : Hash} (h : s.held.lookup victim = some held)
    (hnot : s.deleting.lookup (victim, held.copy) = none) : s.accounts.Perm (s.evictOne victim held).accounts := by
  unfold evictOne accounts
  rw [entries_insert_of_none hnot, map_cons, cons_append]
  refine (((entries_perm_erase h).map _).append_right _).trans ?_
  rw [map_cons, cons_append]
  exact perm_middle.symm

private lemma accounts_retryOne (h : s.doomed.lookup file.1 = some file.2)
    (hnot : s.deleting.lookup file.1 = none) : s.accounts.Perm (s.retryOne file).accounts := by
  unfold retryOne accounts
  rw [entries_insert_of_none hnot, map_cons, cons_append]
  refine List.Perm.append_left _ ?_
  refine (((entries_perm_erase h).map fun e => (e.1, e.2)).append_left _).trans ?_
  rw [map_cons]
  exact perm_middle

private lemma accounts_deleting_erase (h : s.deleting.lookup p = some n) :
    s.accounts.Perm ((p, n) :: accounts { s with deleting := s.deleting.erase p }) := by
  refine (((((entries_perm_erase h).map fun e => (e.1, e.2)).append_right _).append_left _)).trans ?_
  rw [map_cons, cons_append]
  exact perm_middle

private lemma accounts_doomed_insert (h : s.doomed.lookup p = none) (n : Nat) :
    (accounts { s with doomed := s.doomed.insert p n }).Perm ((p, n) :: s.accounts) := by
  unfold accounts
  simp only [entries_insert_of_none h, map_cons]
  rw [← append_assoc, ← append_assoc]
  exact perm_middle

/-- Nothing is booked twice: what is being deleted or doomed is not held, and not both. -/
private lemma unbooked_of_once (h : (s.accounts.map Prod.fst).Nodup) :
    (∀ hash held, s.held.lookup hash = some held → s.deleting.lookup (hash, held.copy) = none) ∧
      ∀ p n, s.deleting.lookup p = some n → s.doomed.lookup p = none := by
  unfold accounts at h
  rw [map_append, map_append, nodup_append, nodup_append] at h
  obtain ⟨-, ⟨-, -, hdeleting⟩, hheld⟩ := h
  have hmem : ∀ (m : Map Copy Nat) p n, m.lookup p = some n →
      p ∈ (m.entries.map (fun e => (e.1, e.2))).map Prod.fst :=
    fun m p n hp => mem_map.mpr ⟨(p, n), mem_pairs.mpr hp, rfl⟩
  refine ⟨fun hash held hh => ?_, fun p n hp => ?_⟩
  · refine Option.eq_none_iff_forall_ne_some.mpr fun n hn => ?_
    have hbooked : (hash, held.copy) ∈ (s.held.entries.map fun e => ((e.1, e.2.copy), e.2.len)).map Prod.fst :=
      mem_map.mpr ⟨_, mem_map.mpr ⟨⟨hash, held⟩, mem_lookup_iff.mp hh, rfl⟩, rfl⟩
    exact hheld _ hbooked _ (mem_append_left _ (hmem _ _ _ hn)) rfl
  · refine Option.eq_none_iff_forall_ne_some.mpr fun k hk => ?_
    exact hdeleting _ (hmem _ _ _ hp) _ (hmem _ _ _ hk) rfl

/-! ### What holds of the cache -/

private lemma lookup_none_of_imp
    (h : ∀ content, files'.lookup p = some content → files.lookup p = some content) (hnone : files.lookup p = none) :
    files'.lookup p = none := by
  refine Option.eq_none_iff_forall_ne_some.mpr fun content hc => ?_
  cases hnone.symm.trans (h content hc)

structure Ok (sha256 : Bytes → Hash) (deleting : Map Copy Nat) (files : Map Copy Bytes) (reserved : Map Hash Nat)
    (staged : Map Copy Bytes) (hash : Hash) (copy : Nat) (stage : Stage) : Prop where
  job : ∀ e ∈ stage.job, deleting.lookup e.1 = some e.2
  jobOnce : (stage.job.map Prod.fst).Nodup
  gone : ∀ p n, (p, n, true) ∈ stage.results → files.lookup p = none
  reserved : ∀ n, stage.reservation = some n → reserved.lookup hash = some n
  body : ∀ received, stage.body = some received →
    staged.lookup (hash, copy) = some received ∧ received.length ≤ stage.room
  whole : ∀ need received, stage = .whole need received → sha256 received = hash
  renamed : ∀ need len, stage = .renamed need len →
    len ≤ need ∧ ∀ content, files.lookup (hash, copy) = some content → content.length = len

private lemma Ok.frame {sha256 : Bytes → Hash} {deleting' : Map Copy Nat}
    {reserved' : Map Hash Nat} {staged' : Map Copy Bytes} {copy : Nat} {stage : Stage}
    (h : Ok sha256 deleting files reserved staged hash copy stage)
    (hdeleting : ∀ e ∈ stage.job, deleting'.lookup e.1 = deleting.lookup e.1)
    (hgone : ∀ p n content, (p, n, true) ∈ stage.results → files'.lookup p = some content →
      files.lookup p = some content)
    (hreserved : reserved'.lookup hash = reserved.lookup hash)
    (hstaged : staged'.lookup (hash, copy) = staged.lookup (hash, copy))
    (hfile : ∀ content, files'.lookup (hash, copy) = some content → files.lookup (hash, copy) = some content) :
    Ok sha256 deleting' files' reserved' staged' hash copy stage where
  job e he := (hdeleting e he).trans (h.job e he)
  jobOnce := h.jobOnce
  gone p n hp := lookup_none_of_imp (hgone p n · hp) (h.gone p n hp)
  reserved n hn := hreserved.trans (h.reserved n hn)
  body received hr := ⟨hstaged.trans (h.body received hr).1, (h.body received hr).2⟩
  whole := h.whole
  renamed need len hs :=
    ⟨(h.renamed need len hs).1, fun content hc => (h.renamed need len hs).2 content (hfile content hc)⟩

structure Space (sha256 : Bytes → Hash) (capacity : Nat) (s : PackageCache) : Prop where
  once : (s.accounts.map Prod.fst).Nodup
  room : (s.accounts.map Prod.snd).sum + s.fetching.sum Fetch.room ≤ capacity
  minted : ∀ e ∈ s.accounts, e.1.2 ≤ s.copies
  running : ∀ hash copy stage, s.fetching.lookup hash = some (.running copy stage) →
    copy ≤ s.copies ∧ (∀ e ∈ s.accounts, e.1 ≠ (hash, copy)) ∧
      Ok sha256 s.deleting s.files s.reserved s.staged hash copy stage
  apart : ∀ hash other copy copy' stage stage', s.fetching.lookup hash = some (.running copy stage) →
    s.fetching.lookup other = some (.running copy' stage') → hash ≠ other →
      ∀ e ∈ stage.job, ∀ e' ∈ stage'.job, e.1 ≠ e'.1
  unheld : ∀ hash, (s.fetching.lookup hash).isSome → s.held.lookup hash = none
  files : ∀ p content, s.files.lookup p = some content → sha256 content = p.1 ∧
    ((∃ n, (p, n) ∈ s.accounts ∧ content.length ≤ n) ∨
      ∃ need len, s.fetching.lookup p.1 = some (.running p.2 (.renamed need len)))
  staged : ∀ p content, s.staged.lookup p = some content →
    ∃ stage, s.fetching.lookup p.1 = some (.running p.2 stage) ∧ stage.stages = true ∧ content.length ≤ stage.room

section Moves

variable {sha256 : Bytes → Hash} {capacity : Nat} {s t : PackageCache} {hash : Hash} {copy : Nat} {stage : Stage}

variable {stage' : Stage} {need : Nat} {received : Bytes} {done : List (Copy × Nat × Bool)} {failure : FetchFailure}
  {purpose : Purpose}

private lemma Ok.of_plain (hjob : stage.job = []) (hbody : stage.body = none)
    (hnot : ∀ need len, stage ≠ .renamed need len)
    (hreserved : ∀ n, stage.reservation = some n → reserved.lookup hash = some n) :
    Ok sha256 deleting files reserved staged hash copy stage := by
  refine ⟨by simp [hjob], by simp [hjob], ?_, hreserved, by rw [hbody]; nofun, ?_, ?_⟩
  · intro p n hp
    cases hjob ▸ Stage.mem_job_of_results hp
  · intro need received hs
    simp [hs] at hbody
  · exact fun need len hs => absurd hs (hnot need len)

section

variable (h : Space sha256 capacity s)
include h

section

variable (hf : s.fetching.lookup hash = some (.running copy stage))
include hf

private lemma Space.ok : Ok sha256 s.deleting s.files s.reserved s.staged hash copy stage :=
    (h.running hash copy stage hf).2.2

/-- A fetch's move: it goes to another stage, books files it found booked or drops them, stores its own file, and
changes its own reservation and its own staging file. -/
private lemma Space.move (hfetching : t.fetching = s.fetching.insert hash (.running copy stage'))
    (hcopies : t.copies = s.copies) (hnot : ∀ need len, stage ≠ .renamed need len)
    (haccounts : t.accounts.Subperm s.accounts) (hfiles : ∀ p content, t.files.lookup p = some content →
      (s.files.lookup p = some content ∧ ∀ n, (p, n) ∈ s.accounts → (p, n) ∈ t.accounts) ∨
        p = (hash, copy) ∧ sha256 content = hash ∧ ∃ need len, stage' = .renamed need len)
    (hheld : ∀ other, s.held.lookup other = none → t.held.lookup other = none)
    (hdeleting : ∀ p n, s.deleting.lookup p = some n → (∀ e ∈ stage.job, e.1 ≠ p) → t.deleting.lookup p = some n)
    (hreserved : ∀ other, other ≠ hash → t.reserved.lookup other = s.reserved.lookup other)
    (hstaged : ∀ p, p ≠ (hash, copy) → t.staged.lookup p = s.staged.lookup p)
    (hroom : (s.accounts.map Prod.snd).sum + s.fetching.sum Fetch.room + stage'.room ≤ capacity + stage.room)
    (hjob : ∀ e ∈ stage'.job, e ∈ stage.job ∨ s.deleting.lookup e.1 = none)
    (hok : Ok sha256 t.deleting t.files t.reserved t.staged hash copy stage')
    (hnew : ∀ content, t.staged.lookup (hash, copy) = some content →
      stage'.stages = true ∧ content.length ≤ stage'.room) : Space sha256 capacity t := by
  have hsubset : ∀ e ∈ t.accounts, e ∈ s.accounts := fun e he => haccounts.subset he
  have hcases : ∀ {other copy' stage''}, t.fetching.lookup other = some (.running copy' stage'') →
      (other = hash ∧ copy' = copy ∧ stage'' = stage') ∨
        other ≠ hash ∧ s.fetching.lookup other = some (.running copy' stage'') := by
    intro other copy' stage'' hother
    rw [hfetching, lookup_insert_ite] at hother
    split at hother
    · cases hother
      exact .inl ⟨‹_›, rfl, rfl⟩
    · exact .inr ⟨‹_›, hother⟩
  have hapart : ∀ {other copy' stage''}, other ≠ hash → s.fetching.lookup other = some (.running copy' stage'') →
      ∀ e ∈ stage'.job, ∀ e' ∈ stage''.job, e.1 ≠ e'.1 := by
    intro other copy' stage'' hne hother e he e' he' heq
    rcases hjob e he with hmem | hunbooked
    · exact h.apart hash other copy copy' stage stage'' hf hother hne.symm e hmem e' he' heq
    · have hbooked := (h.ok hother).job e' he'
      rw [← heq, hunbooked] at hbooked
      cases hbooked
  refine ⟨nodup_of_subperm haccounts h.once, ?_, fun e he => hcopies ▸ h.minted e (hsubset e he), ?_, ?_, ?_, ?_, ?_⟩
  · have hsum := sum_insert s.fetching hash (.running copy stage') Fetch.room
    simp only [hf, Option.elim_some, Fetch.room] at hsum
    have hle := sum_le_of_subperm haccounts
    rw [hfetching]
    omega
  · intro other copy' stage'' hother
    rcases hcases hother with ⟨rfl, rfl, rfl⟩ | ⟨hne, hother⟩
    · obtain ⟨hminted, hfresh, -⟩ := h.running other copy' stage hf
      exact ⟨hcopies ▸ hminted, fun e he => hfresh e (hsubset e he), hok⟩
    obtain ⟨hminted, hfresh, hrelies⟩ := h.running other copy' stage'' hother
    refine ⟨hcopies ▸ hminted, fun e he => hfresh e (hsubset e he), hrelies.frame ?_ ?_ (hreserved other hne) ?_ ?_⟩
    · intro e he
      rw [hrelies.job e he]
      refine hdeleting e.1 e.2 (hrelies.job e he) fun e' he' heq => ?_
      exact h.apart hash other copy copy' stage stage'' hf hother (Ne.symm hne) e' he' e he heq
    · intro p n content hp hc
      rcases hfiles p content hc with ⟨hold, -⟩ | ⟨rfl, -⟩
      · exact hold
      · -- its own file is booked nowhere yet, and what the other fetch deletes is
        have hbooked := mem_accounts.mpr (.inr (.inl (hrelies.job _ (Stage.mem_job_of_results hp))))
        exact absurd rfl ((h.running hash copy stage hf).2.1 _ hbooked)
    · exact hstaged (other, copy') fun heq => hne (congrArg Prod.fst heq)
    · intro content hc
      rcases hfiles _ content hc with ⟨hold, -⟩ | ⟨heq, -⟩
      · exact hold
      · exact absurd (congrArg Prod.fst heq) hne
  · intro one other copy₁ copy₂ stage₁ stage₂ h₁ h₂ hne
    rcases hcases h₁ with ⟨rfl, rfl, rfl⟩ | ⟨hone, h₁⟩ <;> rcases hcases h₂ with ⟨rfl, rfl, rfl⟩ | ⟨hother, h₂⟩
    · exact absurd rfl hne
    · exact hapart hother h₂
    · exact fun e he e' he' heq => hapart hone h₁ e' he' e he heq.symm
    · exact h.apart one other copy₁ copy₂ stage₁ stage₂ h₁ h₂ hne
  · intro other hother
    refine hheld other (h.unheld other ?_)
    by_cases hne : other = hash
    · rw [hne, hf]
      rfl
    · rwa [hfetching, lookup_insert_ne hne] at hother
  · intro p content hp
    obtain ⟨hs, hkept⟩ | ⟨rfl, hsha, need, len, rfl⟩ := hfiles p content hp
    on_goal 2 => exact ⟨hsha, .inr ⟨need, len, by rw [hfetching]; exact lookup_insert _⟩⟩
    obtain ⟨hsha, hbooked⟩ := h.files p content hs
    refine ⟨hsha, ?_⟩
    rcases hbooked with ⟨n, hn, hle⟩ | ⟨need, len, hrenamed⟩
    · exact .inl ⟨n, hkept n hn, hle⟩
    have hne : p.1 ≠ hash := by
      intro heq
      rw [heq, hf] at hrenamed
      cases hrenamed
      exact hnot need len rfl
    exact .inr ⟨need, len, by rw [hfetching, lookup_insert_ne hne]; exact hrenamed⟩
  · intro p content hp
    by_cases heq : p = (hash, copy)
    · subst heq
      obtain ⟨hstages, hle⟩ := hnew content hp
      exact ⟨stage', by rw [hfetching]; exact lookup_insert _, hstages, hle⟩
    rw [hstaged p heq] at hp
    obtain ⟨stage'', hrun, hstages, hle⟩ := h.staged p content hp
    have hne : p.1 ≠ hash := by
      intro hhash
      rw [hhash, hf] at hrun
      cases hrun
      exact heq (Prod.ext hhash rfl)
    exact ⟨stage'', by rw [hfetching, lookup_insert_ne hne]; exact hrun, hstages, hle⟩

private lemma Space.enter (reserved : Map Hash Nat) (staged : Map Copy Bytes)
    (hnot : ∀ need len, stage ≠ .renamed need len)
    (hreserved : ∀ other, other ≠ hash → reserved.lookup other = s.reserved.lookup other)
    (hstaged : ∀ p, p ≠ (hash, copy) → staged.lookup p = s.staged.lookup p)
    (hroom : (s.accounts.map Prod.snd).sum + s.fetching.sum Fetch.room + stage'.room ≤ capacity + stage.room)
    (hjob : stage'.job = []) (hok : Ok sha256 s.deleting s.files reserved staged hash copy stage')
    (hnew : ∀ content, staged.lookup (hash, copy) = some content →
      stage'.stages = true ∧ content.length ≤ stage'.room) :
    Space sha256 capacity ({ s with reserved := reserved, staged := staged }.enter hash copy stage') :=
  h.move hf rfl rfl hnot (List.Subperm.refl _) (fun p content hp => .inl ⟨hp, fun n hn => hn⟩) (fun other hn => hn)
    (fun p n hp _ => hp) hreserved hstaged hroom (by simp [hjob]) hok hnew

private lemma Space.not_staged (hstages : stage.stages = false) {content : Bytes} {p : Prop}
    (hc : s.staged.lookup (hash, copy) = some content) : p := by
  obtain ⟨stage', hrun, htrue, -⟩ := h.staged _ content hc
  rw [hf] at hrun
  cases hrun
  simp [hstages] at htrue

private lemma Space.enter_roomless (reserved : Map Hash Nat) (hstages : stage.stages = false)
    (hnot : ∀ need len, stage ≠ .renamed need len)
    (hreserved : ∀ other, other ≠ hash → reserved.lookup other = s.reserved.lookup other)
    (hroom : stage'.room = 0) (hjob : stage'.job = [])
    (hok : Ok sha256 s.deleting s.files reserved s.staged hash copy stage') :
    Space sha256 capacity ({ s with reserved := reserved }.enter hash copy stage') := by
  refine h.enter hf reserved s.staged hnot hreserved (fun p _ => rfl) ?_ hjob hok fun content hc =>
    h.not_staged hf hstages hc
  exact Nat.add_le_add h.room (hroom ▸ Nat.zero_le _)

private lemma Space.fail_roomless (hstages : stage.stages = false) (hnot : ∀ need len, stage ≠ .renamed need len)
    (failure : FetchFailure) : Space sha256 capacity (s.enter hash copy (.failed 0 failure)) :=
  h.enter_roomless hf s.reserved hstages hnot (fun _ _ => rfl) rfl rfl
    (Ok.of_plain rfl rfl (by simp) (by simp))

private lemma Space.fail (staged : Map Copy Bytes) (hstages : stage.stages = true)
    (hreservation : stage.reservation = some stage.room)
    (hstaged : ∀ p, p ≠ (hash, copy) → staged.lookup p = s.staged.lookup p)
    (hnew : ∀ content, staged.lookup (hash, copy) = some content → content.length ≤ stage.room)
    (failure : FetchFailure) :
    Space sha256 capacity ({ s with staged := staged }.enter hash copy (.failed stage.room failure)) := by
  refine h.enter hf s.reserved staged (fun need len heq => ?_) (fun _ _ => rfl) hstaged
    (Nat.add_le_add_right h.room _) rfl ?_ ?_
  · rw [heq] at hstages
    cases hstages
  · refine Ok.of_plain rfl rfl (by simp) fun n hn => ?_
    simp only [Stage.reservation] at hn
    split at hn
    · cases hn
    · cases hn
      exact (h.ok hf).reserved _ hreservation
  · exact fun content hc => ⟨rfl, hnew content hc⟩

private lemma Space.staged_le {content : Bytes} (hc : s.staged.lookup (hash, copy) = some content) :
    content.length ≤ stage.room := by
  obtain ⟨stage', hrun, -, hle⟩ := h.staged _ content hc
  rw [hf] at hrun
  cases hrun
  exact hle

end

end

/-! ### Room granted -/

private lemma sum_room_le_reserved {fetching : Map Hash Fetch}
    (h : ∀ hash copy stage, fetching.lookup hash = some (.running copy stage) →
      stage.room = 0 ∨ reserved.lookup hash = some stage.room) : fetching.sum Fetch.room ≤ reserved.sum id := by
  have hbooked := @sum_le_booked _ _ _ fetching Fetch.room (reserved.entries.map fun e => (e.1, e.2))
    fun hash f hf => by
      cases f with
      | spawned => exact .inl rfl
      | running copy stage =>
        rcases h hash copy stage hf with hzero | hreserved
        · exact .inl hzero
        · exact .inr ⟨stage.room, mem_pairs.mpr hreserved, le_rfl⟩
  simpa [Map.sum, Function.comp_def] using hbooked

private lemma Stage.reservation_of_room {stage : Stage} (h : stage.room ≠ 0) : stage.reservation = some stage.room := by
  cases stage <;> simp_all [Stage.room, Stage.reservation]

section

variable (h : Space sha256 capacity s)
include h

private lemma Space.grant (hf : s.fetching.lookup hash = some (.running copy (.reserving need))) :
    Space sha256 capacity (s.grant capacity hash copy need) := by
  unfold PackageCache.grant
  split
  · refine h.enter_roomless hf _ rfl (by simp) (fun other hne => lookup_erase_ne hne) rfl rfl ?_
    exact Ok.of_plain rfl rfl (by simp) (by simp)
  rename_i hfits
  refine h.enter hf s.reserved s.staged (by simp) (fun _ _ => rfl) (fun _ _ => rfl) ?_ rfl ?_ ?_
  · have hsum : Map.sum (s.fetching.insert hash (.running copy (.granted need))) Fetch.room ≤ s.reserved.sum id := by
      refine sum_room_le_reserved fun other copy' stage' hother => ?_
      rcases lookup_of_insert hother with ⟨heq, ⟨⟩⟩ | hother
      · exact .inr (heq ▸ (h.ok hf).reserved need rfl)
      · by_cases hzero : stage'.room = 0
        · exact .inl hzero
        · exact .inr ((h.ok hother).reserved _ (Stage.reservation_of_room hzero))
    have hinsert := sum_insert s.fetching hash (.running copy (.granted need)) Fetch.room
    simp only [hf, Option.elim_some, Fetch.room, Stage.room] at hinsert
    have haccounts := sum_accounts s
    unfold bytesCounted otherCounted at hfits
    simp only [Stage.room]
    omega
  · exact Ok.of_plain rfl rfl (by simp) fun n hn => by
      cases hn
      exact (h.ok hf).reserved need rfl
  · exact fun content hc => h.not_staged hf rfl hc

/-! ### What is written -/

private lemma Space.write (hf : s.fetching.lookup hash = some (.running copy stage)) (hroom : stage.room = need)
    (hreservation : stage.reservation = some need) (hnot : ∀ need len, stage ≠ .renamed need len)
    (hle : received.length ≤ need) : Space sha256 capacity
      ({ s with staged := s.staged.insert (hash, copy) received }.enter hash copy (.writing need received)) := by
  refine h.enter hf s.reserved _ hnot (fun _ _ => rfl) (fun p hp => lookup_insert_ne hp)
    (Nat.add_le_add h.room hroom.ge) rfl ?_ ?_
  · refine ⟨by simp [Stage.job], by simp [Stage.job], by simp, ?_, ?_, by simp, by simp⟩
    · intro n hn
      cases hn
      exact (h.ok hf).reserved need hreservation
    · intro body hb
      cases hb
      exact ⟨lookup_insert _, hle⟩
  · intro content hc
    cases (lookup_insert _).symm.trans hc
    exact ⟨rfl, hle⟩

section

variable (hf : s.fetching.lookup hash = some (.running copy (.writing need received)))
include hf

private lemma Space.chunk (limit : Nat) (more : Bytes) :
    Space sha256 capacity (s.chunk limit hash copy need received more) := by
  unfold PackageCache.chunk
  split
  · exact h.fail hf s.staged rfl rfl (fun _ _ => rfl) (fun content hc => h.staged_le hf hc) _
  next hfits =>
    exact h.write hf rfl rfl (by simp) (by simp; omega)

private lemma Space.finish : Space sha256 capacity (s.finish sha256 hash copy need received) := by
  have hok := h.ok hf
  unfold PackageCache.finish
  split
  next hsha =>
    refine h.enter hf s.reserved s.staged (by simp) (fun _ _ => rfl) (fun _ _ => rfl) (Nat.add_le_add_right h.room _)
      rfl ?_ ?_
    · refine ⟨by simp [Stage.job], by simp [Stage.job], by simp, hok.reserved, hok.body, ?_, by simp⟩
      intro need' received' heq
      cases heq
      exact hsha
    · exact fun content hc => ⟨rfl, h.staged_le hf hc⟩
  · exact h.fail hf s.staged rfl rfl (fun _ _ => rfl) (fun content hc => h.staged_le hf hc) _

end

private lemma Space.unstage (hf : s.fetching.lookup hash = some (.running copy (.failed n failure))) :
    Space sha256 capacity ({ s with staged := s.staged.erase (hash, copy) }.enter hash copy (.unstaged failure)) := by
  refine h.enter hf s.reserved _ (by simp) (fun _ _ => rfl) (fun p hp => lookup_erase_ne hp)
    (Nat.add_le_add h.room (Nat.zero_le _)) rfl ?_ ?_
  · exact Ok.of_plain rfl rfl (by simp) (by simp)
  · intro content hc
    simp [lookup_erase] at hc

/-! ### What is deleted -/

private lemma Space.unlink {todo : List (Copy × Nat)}
    (hf : s.fetching.lookup hash = some (.running copy (.deleting purpose need (file :: todo) done))) (gone : Bool) :
    Space sha256 capacity ((if gone then { s with files := s.files.erase file.1 } else s).enter hash copy
      (.deleting purpose need todo (done ++ [(file.1, file.2, gone)]))) := by
  have hok := h.ok hf
  have hjob : (Stage.deleting purpose need todo (done ++ [(file.1, file.2, gone)])).job =
      (Stage.deleting purpose need (file :: todo) done).job := by
    simp [Stage.job]
  have hrest : ∀ files : Map Copy Bytes,
      (∀ p content, files.lookup p = some content → s.files.lookup p = some content) →
      (gone = true → files.lookup file.1 = none) →
      Space sha256 capacity ({ s with files := files }.enter hash copy
        (.deleting purpose need todo (done ++ [(file.1, file.2, gone)]))) := by
    intro files hsub hgone
    refine h.move hf rfl rfl (by simp) (List.Subperm.refl _)
      (fun p content hp => .inl ⟨hsub p content hp, fun n hn => hn⟩) (fun other hn => hn) (fun p n hp _ => hp)
      (fun _ _ => rfl) (fun _ _ => rfl) h.room ?_ ?_ ?_
    · intro e he
      rw [hjob] at he
      exact .inl he
    · refine ⟨by rw [hjob]; exact hok.job, by rw [hjob]; exact hok.jobOnce, ?_, ?_, by simp, by simp, by simp⟩
      · intro p n hp
        rcases mem_append.mp hp with hp | hp
        · exact lookup_none_of_imp (hsub p) (hok.gone p n hp)
        · cases mem_singleton.mp hp
          exact hgone rfl
      · cases purpose with
        | retry => simp
        | evict => exact hok.reserved
    · exact fun content hc => h.not_staged hf rfl hc
  cases gone with
  | false => exact hrest s.files (fun p content hp => hp) (by simp)
  | true =>
    refine hrest (s.files.erase file.1) (fun p content hp => ?_) fun _ => lookup_erase _ _
    exact lookup_of_erase hp

end

private lemma retryAll (files : List (Copy × Nat)) (s : PackageCache) (hnodup : (files.map Prod.fst).Nodup)
    (hdoomed : ∀ e ∈ files, s.doomed.lookup e.1 = some e.2) (hnot : ∀ e ∈ files, s.deleting.lookup e.1 = none) :
    ∃ deleting doomed, files.foldl retryOne s = { s with deleting := deleting, doomed := doomed } ∧
      s.accounts.Perm (accounts { s with deleting := deleting, doomed := doomed }) ∧
      (∀ p n, s.deleting.lookup p = some n → deleting.lookup p = some n) ∧
      ∀ e ∈ files, deleting.lookup e.1 = some e.2 := by
  induction files generalizing s with
  | nil => exact ⟨s.deleting, s.doomed, rfl, List.Perm.refl _, fun p n hp => hp, by simp⟩
  | cons file files ih =>
    obtain ⟨hnew, hnodup⟩ := nodup_cons.mp hnodup
    have hne : ∀ e ∈ files, e.1 ≠ file.1 := fun e he heq => hnew (heq ▸ mem_map_of_mem he)
    have hfirst := hdoomed file (mem_cons_self ..)
    have hfree := hnot file (mem_cons_self ..)
    obtain ⟨deleting, doomed, heq, hperm, hkept, hbooked⟩ := ih (s.retryOne file) hnodup
      (fun e he => by
        change (s.doomed.erase file.1).lookup e.1 = _
        rw [lookup_erase_ne (hne e he)]
        exact hdoomed e (mem_cons_of_mem _ he))
      (fun e he => by
        change (s.deleting.insert file.1 file.2).lookup e.1 = _
        rw [lookup_insert_ne (hne e he)]
        exact hnot e (mem_cons_of_mem _ he))
    refine ⟨deleting, doomed, heq, (accounts_retryOne hfirst hfree).trans hperm, fun p n hp => ?_, fun e he => ?_⟩
    · refine hkept p n ?_
      change (s.deleting.insert file.1 file.2).lookup p = _
      rwa [lookup_insert_ne (ne_of_lookup hp hfree)]
    · rcases mem_cons.mp he with rfl | he
      · exact hkept e.1 e.2 (lookup_insert _)
      · exact hbooked e he

private lemma Space.beginReserve (h : Space sha256 capacity s)
    (hf : s.fetching.lookup hash = some (.running copy .requested)) (need : Nat) :
    Space sha256 capacity (s.beginReserve hash copy need) := by
  have hunbooked := (unbooked_of_once h.once).2
  have hentries : ∀ e ∈ s.doomed.entries.map (fun e => (e.1, e.2)), s.doomed.lookup e.1 = some e.2 :=
    fun _ => mem_pairs.mp
  have hfree : ∀ e ∈ s.doomed.entries.map (fun e => (e.1, e.2)), s.deleting.lookup e.1 = none := by
    intro e he
    refine Option.eq_none_iff_forall_ne_some.mpr fun n hn => ?_
    have hnone := hunbooked e.1 n hn
    simp [hentries e he] at hnone
  have hnodup : ((s.doomed.entries.map fun e => (e.1, e.2)).map Prod.fst).Nodup := by
    rw [map_map]
    exact s.doomed.nodupKeys
  obtain ⟨deleting, doomed, heq, hperm, hkept, hbooked⟩ := retryAll _ s hnodup hentries hfree
  unfold PackageCache.beginReserve
  simp only
  rw [heq]
  refine h.move hf rfl rfl (by simp) hperm.symm.subperm
    (fun p content hp => .inl ⟨hp, fun n hn => hperm.mem_iff.mp hn⟩)
    (fun other hn => hn) (fun p n hp _ => hkept p n hp) (fun _ _ => rfl) (fun _ _ => rfl) h.room ?_ ?_ ?_
  · exact fun e he => .inr (hfree e (by simpa [Stage.job] using he))
  · refine ⟨?_, ?_, by simp, by simp, by simp, by simp, by simp⟩
    · exact fun e he => hbooked e (by simpa [Stage.job] using he)
    · simpa [Stage.job] using hnodup
  · exact fun content hc => h.not_staged hf rfl hc

private lemma evictAll_spec (victims : List Hash) (s : PackageCache) (honce : (s.accounts.map Prod.fst).Nodup) :
    ∃ held deleting files, s.evictAll victims = ({ s with held := held, deleting := deleting }, files) ∧
      s.accounts.Perm (accounts { s with held := held, deleting := deleting }) ∧
      (∀ other, s.held.lookup other = none → held.lookup other = none) ∧
      (∀ p n, s.deleting.lookup p = some n → deleting.lookup p = some n) ∧
      (∀ e ∈ files, deleting.lookup e.1 = some e.2 ∧ s.deleting.lookup e.1 = none) ∧
      (files.map Prod.fst).Nodup := by
  induction victims generalizing s with
  | nil => exact ⟨s.held, s.deleting, [], rfl, List.Perm.refl _, fun _ h => h, fun _ _ h => h, by simp, by simp⟩
  | cons victim victims ih =>
    unfold evictAll
    cases hheld : s.held.lookup victim with
    | none => exact ih s honce
    | some x =>
      have hfree := (unbooked_of_once honce).1 victim x hheld
      have hmove := accounts_evictOne hheld hfree
      have honce' := ((hmove.map Prod.fst).nodup_iff).mp honce
      obtain ⟨held, deleting, files, heq, hperm, hshrinks, hkept, hbooked, hnodup⟩ := ih (s.evictOne victim x) honce'
      have hinsert : ∀ p, (s.evictOne victim x).deleting.lookup p =
          if p = (victim, x.copy) then some x.len else s.deleting.lookup p :=
        fun p => lookup_insert_ite _ _ _ _
      refine ⟨held, deleting, ((victim, x.copy), x.len) :: files, by simp only [heq]; rfl, hmove.trans hperm,
        ?_, ?_, ?_, ?_⟩
      · intro other hother
        refine hshrinks other ?_
        exact lookup_erase_none hother
      · intro p n hp
        refine hkept p n ?_
        rwa [hinsert, if_neg (ne_of_lookup hp hfree)]
      · intro e he
        rcases mem_cons.mp he with rfl | he
        · exact ⟨hkept _ _ (by rw [hinsert, if_pos rfl]), hfree⟩
        obtain ⟨hin, hout⟩ := hbooked e he
        rw [hinsert] at hout
        split at hout
        · cases hout
        · exact ⟨hin, hout⟩
      · rw [map_cons, nodup_cons]
        refine ⟨fun hmem => ?_, hnodup⟩
        obtain ⟨e, he, heq⟩ := mem_map.mp hmem
        have hout := (hbooked e he).2
        simp [hinsert, if_pos heq] at hout

private lemma Space.makeRoom (h : Space sha256 capacity s)
    (hf : s.fetching.lookup hash = some (.running copy (.retried need))) (offered : Hash → Bool) :
    Space sha256 capacity (s.makeRoom capacity hash copy need offered) := by
  unfold PackageCache.makeRoom
  split
  · exact h.fail_roomless hf rfl (by simp) _
  rename_i out _
  obtain ⟨held, deleting, files, heq, hperm, hshrinks, hkept, hbooked, hnodup⟩ := evictAll_spec out s h.once
  rw [heq]
  refine h.move hf rfl rfl (by simp) hperm.symm.subperm
    (fun p content hp => .inl ⟨hp, fun n hn => hperm.mem_iff.mp hn⟩)
    hshrinks (fun p n hp _ => hkept p n hp) (fun other hne => lookup_insert_ne hne) (fun _ _ => rfl) h.room ?_ ?_ ?_
  · exact fun e he => .inr (hbooked e (by simpa [Stage.job] using he)).2
  · refine ⟨?_, by simpa [Stage.job] using hnodup, by simp, ?_, by simp, by simp, by simp⟩
    · exact fun e he => (hbooked e (by simpa [Stage.job] using he)).1
    · intro n hn
      cases hn
      exact lookup_insert _
  · exact fun content hc => h.not_staged hf rfl hc

private lemma settleAll (results : List (Copy × Nat × Bool)) (s : PackageCache)
    (honce : (s.accounts.map Prod.fst).Nodup) (hnodup : (results.map Prod.fst).Nodup)
    (hbooked : ∀ r ∈ results, s.deleting.lookup r.1 = some r.2.1) :
    ∃ deleting doomed, results.foldl settleOne s = { s with deleting := deleting, doomed := doomed } ∧
      (accounts { s with deleting := deleting, doomed := doomed }).Subperm s.accounts ∧
      (∀ p n, s.deleting.lookup p = some n → (∀ r ∈ results, r.1 ≠ p) → deleting.lookup p = some n) ∧
      ∀ e ∈ s.accounts, (e.1, e.2, true) ∉ results →
        e ∈ accounts { s with deleting := deleting, doomed := doomed } := by
  induction results generalizing s with
  | nil => exact ⟨s.deleting, s.doomed, rfl, List.Subperm.refl _, fun p n hp _ => hp, fun e he _ => he⟩
  | cons r results ih =>
    obtain ⟨hnew, hrest⟩ := nodup_cons.mp hnodup
    have hne : ∀ r' ∈ results, r'.1 ≠ r.1 := fun r' hr' heq => hnew (heq ▸ mem_map_of_mem hr')
    obtain ⟨p, n, gone⟩ := r
    have hfirst : s.deleting.lookup p = some n := hbooked _ (mem_cons_self ..)
    have herase := accounts_deleting_erase hfirst
    -- one file leaves the books, or changes them
    obtain ⟨hsub, hkeeps, hdel⟩ : (s.settleOne (p, n, gone)).accounts.Subperm s.accounts ∧
        (∀ e ∈ s.accounts, (e.1, e.2, true) ≠ (p, n, gone) → e ∈ (s.settleOne (p, n, gone)).accounts) ∧
        (s.settleOne (p, n, gone)).deleting = s.deleting.erase p := by
      cases gone with
      | true =>
        refine ⟨((sublist_cons_self _ _).subperm).trans herase.symm.subperm, fun e he hgone => ?_, rfl⟩
        rcases mem_cons.mp (herase.mem_iff.mp he) with rfl | hmem
        · exact absurd rfl hgone
        · exact hmem
      | false =>
        have hdoomed := (unbooked_of_once honce).2 p n hfirst
        have hperm := (@accounts_doomed_insert { s with deleting := s.deleting.erase p } p hdoomed n).trans herase.symm
        exact ⟨hperm.subperm, fun e he _ => hperm.mem_iff.mpr he, rfl⟩
    have honce' := nodup_of_subperm hsub honce
    obtain ⟨deleting, doomed, heq, hsub', hkept, hstays⟩ := ih (s.settleOne (p, n, gone)) honce' hrest fun r' hr' => by
      rw [hdel, lookup_erase_ne (hne r' hr')]
      exact hbooked r' (mem_cons_of_mem _ hr')
    have hsame : ({ s.settleOne (p, n, gone) with deleting := deleting, doomed := doomed } : PackageCache) =
        { s with deleting := deleting, doomed := doomed } := by
      cases gone <;> rfl
    rw [hsame] at heq hsub' hstays
    refine ⟨deleting, doomed, heq, hsub'.trans hsub, fun q m hq hnot => ?_, fun e he hnot => ?_⟩
    · refine hkept q m ?_ fun r' hr' => hnot r' (mem_cons_of_mem _ hr')
      rwa [hdel, lookup_erase_ne (Ne.symm (hnot _ (mem_cons_self ..)))]
    · refine hstays e (hkeeps e he fun heq => hnot (heq ▸ mem_cons_self ..)) fun hmem => ?_
      exact hnot (mem_cons_of_mem _ hmem)

section

variable (h : Space sha256 capacity s)
include h

private lemma Space.deleted (hf : s.fetching.lookup hash = some (.running copy (.deleting purpose need [] done))) :
    Space sha256 capacity ((done.foldl settleOne s).enter hash copy (afterDeleting purpose need)) := by
  have hok := h.ok hf
  have hpaths : (done.map fun r => (r.1, r.2.1)).map Prod.fst = done.map Prod.fst := by
    rw [map_map]
    rfl
  have hnodup : (done.map Prod.fst).Nodup := by
    have hjob := hok.jobOnce
    simp only [Stage.job, append_nil] at hjob
    rwa [hpaths] at hjob
  have hbooked : ∀ r ∈ done, s.deleting.lookup r.1 = some r.2.1 := fun r hr =>
    hok.job (r.1, r.2.1) (by simp only [Stage.job, append_nil]; exact mem_map_of_mem hr)
  obtain ⟨deleting, doomed, heq, hsub, hkept, hstays⟩ := settleAll done s h.once hnodup hbooked
  rw [heq]
  have hnext : ∀ stage', stage'.room = 0 → stage'.job = [] → stage'.body = none →
      (∀ need len, stage' ≠ .renamed need len) →
      (∀ n, stage'.reservation = some n → s.reserved.lookup hash = some n) →
      Space sha256 capacity
        (({ s with deleting := deleting, doomed := doomed } : PackageCache).enter hash copy stage') := by
    intro stage' hroom hjob hbody hnot hreserved
    refine h.move hf rfl rfl (by simp) hsub (fun p content hp => .inl ⟨hp, fun n hn => ?_⟩) (fun _ hn => hn) ?_
      (fun _ _ => rfl) (fun _ _ => rfl) (by rw [hroom]; exact h.room) (by simp [hjob])
      (Ok.of_plain hjob hbody hnot hreserved) ?_
    · refine hstays (p, n) hn fun hgone => ?_
      have hnone := hok.gone p n hgone
      simp [show s.files.lookup p = some content from hp] at hnone
    · intro p n hp hothers
      refine hkept p n hp fun r hr => hothers (r.1, r.2.1) ?_
      simp only [Stage.job, append_nil]
      exact mem_map_of_mem hr
    · exact fun content hc => h.not_staged hf rfl hc
  cases purpose with
  | retry => exact hnext (.retried need) rfl rfl rfl (by simp) (by simp)
  | evict => exact hnext (.reserving need) rfl rfl rfl (by simp) hok.reserved

/-! ### What is stored -/

private lemma Space.rename (hf : s.fetching.lookup hash = some (.running copy (.whole need received))) :
    Space sha256 capacity (s.rename hash copy need received) := by
  have hok := h.ok hf
  have hle : received.length ≤ need := (hok.body received rfl).2
  refine h.move hf rfl rfl (by simp) (List.Subperm.refl _) ?_ (fun _ hn => hn) (fun p n hp _ => hp) (fun _ _ => rfl)
    (fun p hp => lookup_erase_ne hp) (Nat.add_le_add_right h.room _) (by simp [Stage.job]) ?_ ?_
  · intro p content hp
    rcases lookup_of_insert hp with ⟨heq, rfl⟩ | hp
    · exact .inr ⟨heq, hok.whole need received rfl, need, _, rfl⟩
    · exact .inl ⟨hp, fun n hn => hn⟩
  · refine ⟨by simp [Stage.job], by simp [Stage.job], by simp, hok.reserved, by simp,
      by simp, ?_⟩
    intro need' len heq
    cases heq
    refine ⟨hle, fun content hc => ?_⟩
    cases (lookup_insert _).symm.trans hc
    rfl
  · intro content hc
    cases (lookup_erase _ _).symm.trans hc

private lemma Space.leave (hf : s.fetching.lookup hash = some (.running copy stage))
    (hstages : stage.stages = false) (held : Map Hash Held) (booked : List (Copy × Nat))
    (hheld : ∀ other, other ≠ hash → s.held.lookup other = none → held.lookup other = none)
    (haccounts : accounts { s with
      held := held, reserved := s.reserved.erase hash, fetching := s.fetching.erase hash } = booked ++ s.accounts)
    (hbooked : booked = [] ∧ (∀ need len, stage ≠ .renamed need len) ∨
      ∃ need len, stage = .renamed need len ∧ booked = [((hash, copy), len)]) :
    Space sha256 capacity
      { s with held := held, reserved := s.reserved.erase hash, fetching := s.fetching.erase hash } := by
  obtain ⟨hminted, hfresh, hok⟩ := h.running hash copy stage hf
  have hnew : ∀ e ∈ booked, e.1 = (hash, copy) := by
    rcases hbooked with ⟨rfl, -⟩ | ⟨need, len, -, rfl⟩ <;> simp
  have hothers : ∀ other f, (s.fetching.erase hash).lookup other = some f →
      other ≠ hash ∧ s.fetching.lookup other = some f := by
    intro other f hother
    rw [lookup_erase_ite] at hother
    split at hother
    · cases hother
    next hne =>
      exact ⟨hne, hother⟩
  refine ⟨?_, ?_, ?_, ?_, ?_, ?_, ?_, ?_⟩
  · rw [haccounts]
    rcases hbooked with ⟨rfl, -⟩ | ⟨need, len, -, rfl⟩
    · exact h.once
    · refine nodup_cons.mpr ⟨fun hmem => ?_, h.once⟩
      obtain ⟨e, he, heq⟩ := mem_map.mp hmem
      exact hfresh e he heq
  · have hsum := Map.sum_erase s.fetching hash Fetch.room
    simp only [hf, Option.elim_some] at hsum
    have hroom := h.room
    have hstage : Fetch.room (.running copy stage) = stage.room := rfl
    have hle : (booked.map Prod.snd).sum ≤ stage.room := by
      rcases hbooked with ⟨rfl, -⟩ | ⟨need, len, rfl, rfl⟩
      · exact Nat.zero_le _
      · simpa [Stage.room] using (hok.renamed need len rfl).1
    simp only [haccounts, map_append, sum_append]
    omega
  · intro e he
    rw [haccounts] at he
    rcases mem_append.mp he with he | he
    · rwa [hnew e he]
    · exact h.minted e he
  · intro other copy' stage' hother
    obtain ⟨hne, hother⟩ := hothers other _ hother
    obtain ⟨hminted', hfresh', hok'⟩ := h.running other copy' stage' hother
    refine ⟨hminted', fun e he => ?_, hok'.frame (fun _ _ => rfl) (fun _ _ _ _ hc => hc)
      (lookup_erase_ne hne) rfl fun _ hc => hc⟩
    rw [haccounts] at he
    rcases mem_append.mp he with he | he
    · rw [hnew e he]
      exact fun heq => hne (congrArg Prod.fst heq).symm
    · exact hfresh' e he
  · intro one other copy₁ copy₂ stage₁ stage₂ h₁ h₂ hne
    exact h.apart one other copy₁ copy₂ stage₁ stage₂ (hothers one _ h₁).2 (hothers other _ h₂).2 hne
  · intro other hother
    obtain ⟨f, hsome⟩ := Option.isSome_iff_exists.mp hother
    obtain ⟨hne, hsome⟩ := hothers other f hsome
    exact hheld other hne (h.unheld other (by rw [hsome]; rfl))
  · intro p content hp
    obtain ⟨hsha, hbook⟩ := h.files p content hp
    refine ⟨hsha, ?_⟩
    rcases hbook with ⟨n, hn, hle⟩ | ⟨need, len, hrenamed⟩
    · exact .inl ⟨n, by rw [haccounts]; exact mem_append_right _ hn, hle⟩
    by_cases heq : p.1 = hash
    · -- its own file
      rw [heq, hf] at hrenamed
      cases hrenamed
      obtain ⟨-, hnot⟩ | ⟨need', len', hstage, hlist⟩ := hbooked
      · exact absurd rfl (hnot need len)
      cases hstage
      have hown : p = (hash, p.2) := Prod.ext heq rfl
      rw [hown] at hp
      refine .inl ⟨len, ?_, ((hok.renamed need len rfl).2 content hp).le⟩
      rw [haccounts, hlist, ← hown]
      exact mem_cons_self ..
    · exact .inr ⟨need, len, (lookup_erase_ne heq).trans hrenamed⟩
  · intro p content hp
    obtain ⟨stage', hrun, htrue, hle⟩ := h.staged p content hp
    have hne : p.1 ≠ hash := by
      intro heq
      rw [heq, hf] at hrun
      cases hrun
      simp [hstages] at htrue
    exact ⟨stage', (lookup_erase_ne hne).trans hrun, htrue, hle⟩

private lemma Space.congr (failed armed refused : Finset Hash) (tick : Nat) :
    Space sha256 capacity { s with failed := failed, armed := armed, refused := refused, tick := tick } :=
  { h with }

private lemma Space.settle_ok {len : Nat} (hf : s.fetching.lookup hash = some (.running copy (.renamed need len))) :
    Space sha256 capacity (s.settle hash copy (.ok len)) := by
  have hunheld := h.unheld hash (by rw [hf]; rfl)
  have hleft := h.leave hf rfl (s.held.insert hash ⟨len, s.tick + 1, copy⟩) [((hash, copy), len)]
    (fun other hne hn => (lookup_insert_ne hne).trans hn) (accounts_held_insert hunheld _)
    (.inr ⟨need, len, rfl, rfl⟩)
  exact hleft.congr s.failed s.armed s.refused (s.tick + 1)

private lemma Space.settle_error (hf : s.fetching.lookup hash = some (.running copy (.unstaged failure))) :
    Space sha256 capacity (s.settle hash copy (.error failure)) := by
  have hleft := h.leave hf rfl s.held [] (fun other _ hn => hn) rfl (.inl ⟨rfl, by simp⟩)
  cases failure with
  | tooLarge limit => exact hleft.congr s.failed s.armed (insert hash s.refused) s.tick
  | other error => exact hleft.congr (insert hash s.failed) s.armed s.refused s.tick

/-! ### Fetches begun, and artifacts served -/

private lemma Space.begin (hf : s.fetching.lookup hash = none ∨ s.fetching.lookup hash = some .spawned)
    (hheld : s.held.lookup hash = none) (f : Fetch) (copies : Nat) (hcopies : s.copies ≤ copies)
    (hfresh : ∀ copy stage, f = .running copy stage → s.copies < copy ∧ copy ≤ copies ∧ stage = .requested) :
    Space sha256 capacity { s with fetching := s.fetching.insert hash f, copies := copies } := by
  have hkept : ∀ other copy stage, s.fetching.lookup other = some (.running copy stage) →
      (s.fetching.insert hash f).lookup other = some (.running copy stage) := by
    intro other copy stage hother
    rw [lookup_insert_ne]
    · exact hother
    · rintro rfl
      rcases hf with hf | hf <;> simp [hf] at hother
  refine ⟨h.once, ?_, fun e he => (h.minted e he).trans hcopies, ?_, ?_, ?_, ?_, ?_⟩
  · have hroom := h.room
    have hsum := sum_insert s.fetching hash f Fetch.room
    have hnone : f.room = 0 := by
      cases f with
      | spawned => rfl
      | running copy stage =>
        obtain ⟨-, -, rfl⟩ := hfresh copy stage rfl
        rfl
    change (s.accounts.map Prod.snd).sum + Map.sum (s.fetching.insert hash f) Fetch.room ≤ capacity
    omega
  · intro other copy stage hother
    rcases lookup_of_insert hother with ⟨-, hrun⟩ | hother
    · obtain ⟨hlt, hle, rfl⟩ := hfresh copy stage hrun
      refine ⟨hle, fun e he heq => ?_, Ok.of_plain rfl rfl (by simp) (by simp)⟩
      have := h.minted e he
      rw [heq] at this
      omega
    · obtain ⟨hle, hfree, hok⟩ := h.running other copy stage hother
      exact ⟨hle.trans hcopies, hfree, hok⟩
  · intro one other copy₁ copy₂ stage₁ stage₂ h₁ h₂ hne
    rcases lookup_of_insert h₁ with ⟨-, hrun₁⟩ | hold₁
    · obtain ⟨-, -, rfl⟩ := hfresh copy₁ stage₁ hrun₁
      simp [Stage.job]
    · rcases lookup_of_insert h₂ with ⟨-, hrun₂⟩ | hold₂
      · obtain ⟨-, -, rfl⟩ := hfresh copy₂ stage₂ hrun₂
        simp [Stage.job]
      · exact h.apart one other copy₁ copy₂ stage₁ stage₂ hold₁ hold₂ hne
  · intro other hother
    obtain ⟨f', hsome⟩ := Option.isSome_iff_exists.mp hother
    rcases lookup_of_insert hsome with ⟨rfl, -⟩ | hold
    · exact hheld
    · exact h.unheld other (by rw [hold]; rfl)
  · intro p content hp
    obtain ⟨hsha, hbooked⟩ := h.files p content hp
    refine ⟨hsha, hbooked.imp id fun ⟨need, len, hrun⟩ => ⟨need, len, hkept _ _ _ hrun⟩⟩
  · intro p content hp
    obtain ⟨stage, hrun, hrest⟩ := h.staged p content hp
    exact ⟨stage, hkept _ _ _ hrun, hrest⟩

private lemma Space.mark (hf : s.fetching.lookup hash = none) (hheld : s.held.lookup hash = none) :
    Space sha256 capacity { s with fetching := s.fetching.insert hash .spawned } :=
  h.begin (.inl hf) hheld .spawned s.copies le_rfl (by simp)

private lemma Space.spawn (hf : s.fetching.lookup hash = some .spawned) :
    Space sha256 capacity ({ s with copies := s.copies + 1 }.enter hash (s.copies + 1) .requested) := by
  refine h.begin (.inr hf) (h.unheld hash (by rw [hf]; rfl)) _ (s.copies + 1) (Nat.le_succ _) ?_
  intro copy stage heq
  cases heq
  exact ⟨Nat.lt_succ_self _, le_rfl, rfl⟩

private lemma Space.rebook (held : Map Hash Held) (files : Map Copy Bytes)
    (haccounts : (accounts { s with held := held }).Subperm s.accounts)
    (hfiles : ∀ p content, files.lookup p = some content → s.files.lookup p = some content ∧
      ∀ n, (p, n) ∈ s.accounts → (p, n) ∈ accounts { s with held := held })
    (hheld : ∀ other, s.held.lookup other = none → held.lookup other = none) :
    Space sha256 capacity { s with held := held, files := files } := by
  have hsubset : ∀ e ∈ accounts { s with held := held }, e ∈ s.accounts := fun e he => haccounts.subset he
  refine ⟨nodup_of_subperm haccounts h.once, (Nat.add_le_add_right (sum_le_of_subperm haccounts) _).trans h.room,
    fun e he => h.minted e (hsubset e he), ?_, h.apart, fun other hother => hheld other (h.unheld other hother), ?_,
    h.staged⟩
  · intro hash copy stage hf
    obtain ⟨hle, hfree, hok⟩ := h.running hash copy stage hf
    exact ⟨hle, fun e he => hfree e (hsubset e he), hok.frame (fun _ _ => rfl)
      (fun p _ content _ hc => (hfiles p content hc).1) rfl rfl fun content hc => (hfiles _ content hc).1⟩
  · intro p content hp
    obtain ⟨hold, hkept⟩ := hfiles p content hp
    obtain ⟨hsha, hbooked⟩ := h.files p content hold
    exact ⟨hsha, hbooked.imp (fun ⟨n, hn, hle⟩ => ⟨n, hkept n hn, hle⟩) id⟩

private lemma Space.touch {held : Held} (hheld : s.held.lookup hash = some held) (used : Nat) :
    Space sha256 capacity { s with held := s.held.insert hash { held with used := used } } := by
  have hperm := accounts_touch hheld used
  refine h.rebook _ s.files hperm.symm.subperm (fun p content hp => ⟨hp, fun n hn => hperm.mem_iff.mp hn⟩) ?_
  intro other hother
  rwa [lookup_insert_ne (ne_of_lookup hheld hother).symm]

private lemma Space.forget {held : Held} (hheld : s.held.lookup hash = some held)
    (hgone : s.files.lookup (hash, held.copy) = none) :
    Space sha256 capacity { s with held := s.held.erase hash } := by
  have hperm := accounts_held_erase hheld
  refine h.rebook _ s.files ((sublist_cons_self _ _).subperm.trans hperm.symm.subperm) ?_ ?_
  · intro p content hp
    refine ⟨hp, fun n hn => ?_⟩
    rcases mem_cons.mp (hperm.mem_iff.mp hn) with heq | hmem
    · cases heq
      simp [hgone] at hp
    · exact hmem
  · exact fun other hother => lookup_erase_none hother

private lemma Space.vanish (file : Copy) : Space sha256 capacity { s with files := s.files.erase file } := by
  refine h.rebook s.held _ (List.Subperm.refl _) (fun p content hp => ?_) fun _ hn => hn
  exact ⟨(lookup_of_erase hp), fun n hn => hn⟩

private lemma Space.offerArtifact (hash : Hash) (before : Bool) :
    Space sha256 capacity (s.offerArtifact hash before) := by
  have hnamed := h.congr (if before then s.failed else s.failed.erase hash) (insert hash s.armed) s.refused s.tick
  unfold PackageCache.offerArtifact
  generalize (if before then s.failed else s.failed.erase hash) = failed at hnamed ⊢
  simp only
  split
  next hmay =>
    unfold mayFetch at hmay
    simp only [Bool.and_eq_true, Option.isNone_iff_eq_none] at hmay
    exact hnamed.mark hmay.1.1.2 hmay.1.1.1
  · exact hnamed

private lemma Space.decideRequest (hash : Hash) : Space sha256 capacity (s.decideRequest hash) := by
  unfold PackageCache.decideRequest
  split
  next held hheld =>
    exact (h.touch hheld (s.tick + 1)).congr s.failed s.armed s.refused (s.tick + 1)
  rename_i hheld
  split
  · exact h
  rename_i hfetching
  split
  · exact h
  · split
    · exact (h.congr s.failed (s.armed.erase hash) s.refused s.tick).mark
        (Option.not_isSome_iff_eq_none.mp hfetching) hheld
    · exact h

private lemma Space.notFound (hash : Hash) (copy : Nat)
    (hgone : s.files.lookup (hash, copy) = none) : Space sha256 capacity (s.notFound hash copy) := by
  unfold PackageCache.notFound
  split
  next hany =>
    obtain ⟨held, hheld, hcopy⟩ := (Option.any_eq_true _ _).mp hany
    simp only [decide_eq_true_eq] at hcopy
    exact (h.forget hheld (by rw [hcopy]; exact hgone)).decideRequest hash
  · exact h.decideRequest hash

end

/-! ### Whole runs -/

private lemma Space.fetchStep {limits : Limits} {a : Act} (h : Space sha256 limits.capacity s)
    (hf : s.fetching.lookup hash = some (.running copy stage))
    (ht : s.fetchStep limits sha256 hash copy stage a = some t) : Space sha256 limits.capacity t := by
  unfold PackageCache.fetchStep at ht
  split at ht
  · simp only at ht
    split at ht
    · cases ht
      exact h.fail_roomless hf rfl (by simp) _
    · cases ht
      exact h.beginReserve hf _
  · cases ht
    exact h.fail_roomless hf rfl (by simp) _
  · cases ht
    exact h.unlink hf _
  · cases ht
    exact h.fail_roomless hf rfl (by simp) _
  · cases ht
    exact h.deleted hf
  · cases ht
    exact h.makeRoom hf _
  · cases ht
    exact h.grant hf
  · cases ht
    exact h.write hf rfl rfl (by simp) (Nat.zero_le _)
  · cases ht
    exact h.fail hf s.staged rfl rfl (fun _ _ => rfl) (fun content hc => h.staged_le hf hc) _
  · cases ht
    exact h.chunk hf _ _
  · split at ht
    next hpart =>
      cases ht
      refine h.fail hf _ rfl rfl (fun p hp => lookup_insert_ne hp) (fun content hc => ?_) _
      cases (lookup_insert _).symm.trans hc
      rwa [length_append]
    · cases ht
  · cases ht
    exact h.finish hf
  · split at ht
    · cases ht
      exact h.rename hf
    · cases ht
      exact h.fail hf s.staged rfl rfl (fun _ _ => rfl) (fun content hc => h.staged_le hf hc) _
  · cases ht
    exact h.unstage hf
  · cases ht
    exact h.settle_ok hf
  · cases ht
    exact h.settle_error hf
  · cases ht

private lemma Space.step {limits : Limits} {a : Act} (h : Space sha256 limits.capacity s)
    (ht : s.step limits sha256 a = some t) : Space sha256 limits.capacity t := by
  unfold PackageCache.step at ht
  split at ht
  · cases ht
    exact h.offerArtifact _ _
  · cases ht
    exact h.decideRequest _
  · split at ht
    next hgone =>
      cases ht
      exact h.notFound _ _ (Option.isNone_iff_eq_none.mp hgone)
    · cases ht
  · cases ht
    exact h.vanish _
  · split at ht
    next hf =>
      cases ht
      exact h.spawn hf
    next hf =>
      exact h.fetchStep hf ht
    · cases ht

private lemma Space.of_empty : Space sha256 capacity empty := by
  constructor <;> simp [empty, accounts, Map.sum]

private lemma Space.disk_le (h : Space sha256 capacity s) :
    s.files.sum List.length + s.staged.sum List.length ≤ capacity := by
  have hfetch : ∀ (f : Fetch → Nat) {p : Copy} {stage : Stage}, s.fetching.lookup p.1 = some (.running p.2 stage) →
      (p, f (.running p.2 stage)) ∈ s.fetching.entries.map fun e => ((e.1, e.2.copy), f e.2) :=
    fun f p stage hp => mem_map.mpr ⟨⟨p.1, .running p.2 stage⟩, mem_lookup_iff.mp hp, rfl⟩
  have hstaged := @sum_le_booked _ _ _ s.staged List.length
    (s.fetching.entries.map fun e => ((e.1, e.2.copy), e.2.stagedRoom)) fun p content hp => by
      obtain ⟨stage, hrun, hstages, hle⟩ := h.staged p content hp
      refine .inr ⟨_, hfetch Fetch.stagedRoom hrun, ?_⟩
      simpa only [Fetch.stagedRoom, hstages, if_true] using hle
  have hfiles := @sum_le_booked _ _ _ s.files List.length
    (s.accounts ++ s.fetching.entries.map fun e => ((e.1, e.2.copy), e.2.filedRoom)) fun p content hp => by
      obtain ⟨-, ⟨n, hn, hle⟩ | ⟨need, len, hrun⟩⟩ := h.files p content hp
      · exact .inr ⟨n, mem_append_left _ hn, hle⟩
      · refine .inr ⟨_, mem_append_right _ (hfetch Fetch.filedRoom hrun), ?_⟩
        obtain ⟨hle, hlen⟩ := (h.ok hrun).renamed need len rfl
        exact (hlen content hp).trans_le hle
  have hrooms := sum_add_le Fetch.filedRoom_add_stagedRoom_le s.fetching
  have hroom := h.room
  simp only [map_append, map_map, sum_append, Function.comp_def] at hstaged hfiles
  unfold Map.sum at *
  omega

end Moves

/-- The files of the cache, staged ones included, never take more than the capacity, and every stored file has the hash
it is stored under. -/
theorem disk_le_capacity {limits : Limits} {sha256 : Bytes → Hash} {s : PackageCache}
    (h : Reach empty (step limits sha256) s) :
    s.files.sum List.length + s.staged.sum List.length ≤ limits.capacity ∧
      ∀ hash copy content, s.files.lookup (hash, copy) = some content → sha256 content = hash := by
  have hspace : Space sha256 limits.capacity s :=
    h.invariant Space.of_empty fun s a t hs ht => Space.step hs ht
  exact ⟨hspace.disk_le, fun hash copy content hc => (hspace.files _ content hc).1⟩

namespace Small

def limits : Limits := ⟨3, 2⟩

def firstByte (content : Bytes) : Hash := content.take 1

def reserves (b : UInt8) : List Act :=
  [.offer [b] false, .spawn [b], .answered [b] (some 2), .deleted [b], .choose [b] fun _ => false]

def downloads (b : UInt8) : List Act :=
  [.deleted [b], .check [b], .create [b], .chunk [b] [b], .chunk [b] [9], .finish [b], .rename [b]
    (.ok ()), .settle [b]]

end Small

open Small

/-- A second artifact takes the place of the first. -/
theorem disk_le_capacity_of_two : ∃ s, Reach empty (step limits firstByte) s ∧
    s.files.lookup ([2], 2) = some [2, 9] ∧ s.files.sum List.length + s.staged.sum List.length ≤ 3 ∧
      firstByte [2, 9] = [2] := by
  refine Reach.exists_of_run_imp (p := fun s => s.files.lookup ([2], 2) = some [2, 9])
    (reserves 1 ++ downloads 1 ++ reserves 2 ++ [.unlink [2] true] ++ downloads 2)
    (by decide +kernel) ?_
  intro s hreach hfile
  obtain ⟨hle, hsha⟩ := disk_le_capacity hreach
  exact ⟨hfile, hle, hsha [2] 2 [2, 9] hfile⟩

/-- Every stored file is booked or just renamed by its fetch, every staged one is of a fetch and within its room, and no
fetch is of what is held. -/
theorem books_kept {limits : Limits} {sha256 : Bytes → Hash} {s : PackageCache}
    (h : Reach empty (step limits sha256) s) : Space sha256 limits.capacity s :=
  h.invariant Space.of_empty fun _ _ _ => Space.step

/-- The first artifact is evicted for the second, whose fetch has staged its first byte. -/
theorem books_kept_evicting : ∃ s, Reach empty (step limits firstByte) s ∧
    (s.held.lookup [1] = none ∧ s.staged.sum List.length = 1) ∧ Space firstByte 3 s := by
  refine Reach.exists_of_run_imp
    (reserves 1 ++ downloads 1 ++ reserves 2 ++ [.unlink [2] true] ++ (downloads 2).take 4)
    (by decide +kernel) fun _ hreach hevicted => ⟨hevicted, ?_⟩
  exact books_kept hreach

end PackageCache

end OpampFleet.Gateway
