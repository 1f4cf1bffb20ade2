import OpampFleet.Lib.Map
import OpampFleet.Lib.Transition
import OpampFleet.Opamp.Uid

/-!
# The upstream connection pool

The Gateway's `pool.rs`. A forward takes the pool's lock once to find its Agent's connection and, when it is to open
one, once more to put the opened connection in its place. Between the two it awaits the handshake, and nothing in the
pool says so: `opening` are the Agents of the forwards that wait there, which no decision of the pool reads.

A connection's reader clears its `alive` whenever the socket is gone, also while the lock is held. `connectionFor` reads
the flags twice, so it is given the connections lost in between.
-/

namespace OpampFleet.Gateway

open Lib Opamp List Map

structure Upstream where
  carries : List InstanceUid
  alive : Bool
  deriving DecidableEq

def Upstream.drop (uid : InstanceUid) (c : Upstream) : Upstream := { c with carries := c.carries.filter (· ≠ uid) }

def Upstream.push (uid : InstanceUid) (c : Upstream) : Upstream := { c with carries := c.carries ++ [uid] }

def Upstream.lose (c : Upstream) : Upstream := { c with alive := false }

structure Pool where
  connections : List Upstream
  assigned : Map InstanceUid Nat
  opening : List InstanceUid

namespace Pool

def empty : Pool := ⟨[], ∅, []⟩

variable (p : Pool) (limit : Nat) (uid : InstanceUid)

open Upstream

def unassign : Pool :=
  match p.assigned.lookup uid with
  | none => p
  | some index =>
    { p with
      assigned := p.assigned.erase uid
      connections := p.connections.modify index (drop uid) }

def assign (index : Nat) : Pool :=
  { p with
    assigned := p.assigned.insert uid index
    connections := p.connections.modify index (push uid) }

def lose (p : Pool) (index : Nat) : Pool := { p with connections := p.connections.modify index Upstream.lose }

def live : Nat := p.connections.countP alive

def isStuck : Bool :=
  (p.assigned.lookup uid).any fun index => p.connections[index]?.any alive

def lighter (best : Option (Nat × Upstream)) (x : Nat × Upstream) : Option (Nat × Upstream) :=
  match best with
  | none => some x
  | some b => if x.2.carries.length < b.2.carries.length then some x else some b

def leastLoaded (connections : List Upstream) : Option (Nat × Upstream) :=
  ((connections.mapIdx Prod.mk).filter fun x => x.2.alive).foldl lighter none

def reuse (connections : List Upstream) (atCap : Bool) : Option Nat :=
  match leastLoaded connections with
  | some (index, c) => if c.carries.isEmpty || atCap then some index else none
  | none => none

def rehomed (lost : List Nat) : Pool × Bool :=
  let p := p.unassign uid
  (lost.foldl lose p, limit ≤ p.live)

def opens (lost : List Nat) : Bool :=
  !p.isStuck uid && (reuse (p.rehomed limit uid lost).1.connections (p.rehomed limit uid lost).2).isNone

def connectionFor (lost : List Nat) : Pool :=
  if p.isStuck uid then p
  else
    let (p, atCap) := p.rehomed limit uid lost
    match reuse p.connections atCap with
    | some index => p.assign uid index
    | none => { p with opening := uid :: p.opening }

def carriedAt (index : Nat) : List InstanceUid := p.connections[index]?.elim [] carries

def vacant : Option Nat := p.connections.findIdx? fun c => !c.alive

/-- A connection of `uid` in the place of one that is gone; what that one still carried re-homes on its next report. -/
def takePlace (alive : Bool) (index : Nat) : Pool :=
  let assigned := (p.carriedAt index).foldl
    (fun assigned carried => if assigned.lookup carried = some index then assigned.erase carried else assigned)
    p.assigned
  { p with connections := p.connections.set index ⟨[uid], alive⟩, assigned := assigned.insert uid index }

def pushPlace (alive : Bool) : Pool :=
  { p with
    connections := p.connections ++ [⟨[uid], alive⟩]
    assigned := p.assigned.insert uid p.connections.length }

/-- The second section of a forward. The reader may have found the socket gone already. -/
def opened (alive : Bool) : Pool :=
  let p := { p with opening := p.opening.erase uid }
  match p.vacant with
  | some index => p.takePlace uid alive index
  | none => p.pushPlace uid alive

def releaseOne (routes : InstanceUid → Bool) (p : Pool) (uid : InstanceUid) : Pool :=
  if routes uid then p else p.unassign uid

def release (routes : InstanceUid → Bool) (uids : List InstanceUid) : Pool := uids.foldl (releaseOne routes) p

inductive Act where
  | forward (uid : InstanceUid) (lost : List Nat)
  | opened (uid : InstanceUid) (alive : Bool)
  | notOpened (uid : InstanceUid)
  | lost (index : Nat)
  | forget (uid : InstanceUid)
  | release (routes : InstanceUid → Bool) (uids : List InstanceUid)

def step (p : Pool) : Act → Option Pool
  | .forward uid lost => some (p.connectionFor limit uid lost)
  | .opened uid alive => if uid ∈ p.opening then some (p.opened uid alive) else none
  | .notOpened uid => if uid ∈ p.opening then some { p with opening := p.opening.erase uid } else none
  | .lost index => some (p.lose index)
  | .forget uid => some (p.unassign uid)
  | .release routes uids => some (p.release routes uids)

/-! ### How many connections live -/

def claimed : Nat := p.live + p.opening.length

variable {connections : List Upstream} {index : Nat} {p : Pool} {uid : InstanceUid}

private lemma countP_modify_le {f : Upstream → Upstream} (hf : ∀ c, (f c).alive = true → c.alive = true) :
    (connections.modify index f).countP alive ≤ connections.countP alive := by
  induction connections generalizing index with
  | nil => simp
  | cons c connections ih =>
    cases index with
    | zero =>
      have hc := hf c
      simp only [modify_zero_cons, countP_cons]
      split <;> split <;> simp_all
    | succ index =>
      have htail := @ih index
      simp only [modify_succ_cons, countP_cons]
      omega

section

variable (p : Pool)

private lemma claimed_lose_le (index : Nat) : (p.lose index).claimed ≤ p.claimed := by
  have hlive : (p.lose index).live ≤ p.live := countP_modify_le (by simp [Upstream.lose])
  exact Nat.add_le_add_right hlive _

private lemma claimed_unassign_le (uid : InstanceUid) : (p.unassign uid).claimed ≤ p.claimed := by
  unfold unassign
  split
  · exact le_rfl
  next index _ =>
    have hlive : (p.connections.modify index (Upstream.drop uid)).countP Upstream.alive ≤ p.live :=
      countP_modify_le (by simp [Upstream.drop])
    exact Nat.add_le_add_right hlive _

private lemma claimed_assign_le (uid : InstanceUid) (index : Nat) : (p.assign uid index).claimed ≤ p.claimed := by
  have hlive : (p.assign uid index).live ≤ p.live := countP_modify_le (by simp [push])
  exact Nat.add_le_add_right hlive _

private lemma claimed_rehomed_le (limit : Nat) (uid : InstanceUid) (lost : List Nat) :
    (p.rehomed limit uid lost).1.claimed ≤ p.claimed := by
  refine foldlRecOn (motive := fun q => q.claimed ≤ p.claimed) lost lose (claimed_unassign_le p uid) ?_
  exact fun q hq index _ => Nat.le_trans (claimed_lose_le q index) hq

private lemma claimed_release_le (routes : InstanceUid → Bool) (uids : List InstanceUid) :
    (p.release routes uids).claimed ≤ p.claimed := by
  refine foldlRecOn (motive := fun q : Pool => q.claimed ≤ p.claimed) uids _ le_rfl ?_
  intro q hq uid _
  unfold releaseOne
  split
  · exact hq
  · exact Nat.le_trans (claimed_unassign_le q uid) hq

private lemma claimed_connectionFor_le (limit : Nat) (uid : InstanceUid) (lost : List Nat) :
    (p.connectionFor limit uid lost).claimed ≤ p.claimed + if p.opens limit uid lost then 1 else 0 := by
  have hrehomed := claimed_rehomed_le p limit uid lost
  unfold connectionFor opens
  split
  · simp
  rename_i hstuck
  simp only
  split
  next index hreuse =>
    have hassign := claimed_assign_le (p.rehomed limit uid lost).1 uid index
    omega
  next hreuse =>
    simp only [hstuck, hreuse, Bool.not_false, Option.isNone_none, Bool.and_self, if_true]
    simp only [claimed, length_cons] at hrehomed ⊢
    change (p.rehomed limit uid lost).1.live + _ ≤ _
    omega

end

private lemma vacant_spec (h : p.vacant = some index) : ∃ c, p.connections[index]? = some c ∧ c.alive = false := by
  obtain ⟨hlt, hdead, -⟩ := findIdx?_eq_some_iff_getElem.mp h
  exact ⟨p.connections[index], getElem?_eq_getElem hlt, by simpa using hdead⟩

private lemma live_takePlace_le (h : p.vacant = some index) (uid : InstanceUid) (alive : Bool) :
    (p.takePlace uid alive index).live ≤ p.live + 1 := by
  obtain ⟨c, hc, hdead⟩ := vacant_spec h
  obtain ⟨hlt, rfl⟩ := List.getElem?_eq_some_iff.mp hc
  unfold live takePlace
  simp only [countP_set hlt, hdead, Bool.false_eq_true, if_false]
  split <;> simp

private lemma live_pushPlace_le (p : Pool) (uid : InstanceUid) (alive : Bool) :
    (p.pushPlace uid alive).live ≤ p.live + 1 := by
  unfold live pushPlace
  simp only [countP_append, countP_singleton]
  split <;> simp

private lemma claimed_opened_le (hopening : uid ∈ p.opening) (alive : Bool) :
    (p.opened uid alive).claimed ≤ p.claimed := by
  have hlength := length_erase_of_mem hopening
  have hpos := length_pos_of_mem hopening
  unfold opened
  simp only
  split
  next index hvacant =>
    have hlive := live_takePlace_le hvacant uid alive
    simp only [claimed, takePlace, live] at hlive ⊢
    omega
  · have hlive := live_pushPlace_le { p with opening := p.opening.erase uid } uid alive
    simp only [claimed, pushPlace, live] at hlive ⊢
    omega

/-- Before a forward opens a connection, the live ones and those being opened leave room for it. -/
def RoomToOpen (limit : Nat) (p : Pool) : Act → Prop
  | .forward uid lost => p.opens limit uid lost = true → p.live + p.opening.length < limit
  | _ => True

instance (limit : Nat) (p : Pool) (a : Act) : Decidable (RoomToOpen limit p a) := by
  cases a <;> unfold RoomToOpen <;> infer_instance

private lemma claimed_le_of_step {limit : Nat} {q : Pool} {a : Act} (hroom : RoomToOpen limit p a)
    (hclaimed : p.claimed ≤ limit) (h : p.step limit a = some q) : q.claimed ≤ limit := by
  cases a with
  | forward uid lost =>
    cases h
    have hforward := claimed_connectionFor_le p limit uid lost
    by_cases hopens : p.opens limit uid lost = true
    · have hlt := hroom hopens
      rw [if_pos hopens] at hforward
      unfold claimed at hforward ⊢
      omega
    · rw [if_neg hopens] at hforward
      omega
  | opened uid alive =>
    simp only [step] at h
    split at h
    next hopening =>
      cases h
      exact Nat.le_trans (claimed_opened_le hopening alive) hclaimed
    · cases h
  | notOpened uid =>
    simp only [step] at h
    split at h
    · cases h
      have hlength : (p.opening.erase uid).length ≤ p.opening.length := length_erase_le
      unfold claimed at hclaimed ⊢
      have hlive : live { p with opening := p.opening.erase uid } = p.live := rfl
      simp only [hlive]
      omega
    · cases h
  | lost index =>
    cases h
    exact Nat.le_trans (claimed_lose_le p index) hclaimed
  | forget uid =>
    cases h
    exact Nat.le_trans (claimed_unassign_le p uid) hclaimed
  | release routes uids =>
    cases h
    exact Nat.le_trans (claimed_release_le p routes uids) hclaimed

/-- The connections that live stay within the cap in every run in which a forward opens one only where those that live
and those being opened leave room. -/
theorem live_le_upstreamConnections (limit : Nat) (p : Pool)
    (h : Reach empty (restrict (RoomToOpen limit) (step limit)) p) : p.live ≤ limit := by
  have hclaimed : p.claimed ≤ limit := by
    refine @Reach.invariant_restrict _ _ _ _ _ _ (fun p => p.claimed ≤ limit) _ h (Nat.zero_le limit) ?_
    intro s a t hs hroom hstep
    exact claimed_le_of_step hroom hs hstep
  exact Nat.le_trans (Nat.le_add_right _ _) hclaimed

/-- Two Agents, a connection each; the first is lost and its Agent comes back. -/
theorem live_le_upstreamConnections_of_two : ∃ p,
    Reach empty (restrict (RoomToOpen 2) (step 2)) p ∧ p.live = 2 ∧ p.live ≤ 2 := by
  refine Reach.exists_of_run_imp (p := fun p => p.live = 2)
    [.forward (.ofByte 1) [], .opened (.ofByte 1) true, .forward (.ofByte 2) [], .opened (.ofByte 2) true, .lost 0,
      .forward (.ofByte 1) [], .opened (.ofByte 1) true] (by decide +kernel) ?_
  intro p hreach hlive
  exact ⟨hlive, live_le_upstreamConnections 2 p hreach⟩

/-- Two Agents report at once through a Gateway that is to hold one connection: both forwards find none, and both open
one. -/
theorem concurrent_openings_exceed_cap : ∃ p, Reach empty (step 1) p ∧ ¬p.live ≤ 1 := by
  exact Reach.exists_of_run
    [.forward (.ofByte 1) [], .forward (.ofByte 2) [], .opened (.ofByte 1) true, .opened (.ofByte 2) true]
    (by decide +kernel)

/-! ### Where an Agent is carried -/

/-- Each Agent is once in what the connection it is assigned to carries, and in no other. -/
def CarriedWhereAssigned (p : Pool) : Prop :=
  ∀ uid index, (p.carriedAt index).count uid = if p.assigned.lookup uid = some index then 1 else 0

private lemma carriedAt_modify (p : Pool) (f : Upstream → Upstream) (index j : Nat) (assigned : Map InstanceUid Nat)
    (opening : List InstanceUid) :
    carriedAt ⟨p.connections.modify index f, assigned, opening⟩ j =
      if index = j then p.connections[j]?.elim [] (fun c => (f c).carries) else p.carriedAt j := by
  unfold carriedAt
  rw [getElem?_modify]
  cases p.connections[j]? with
  | none => simp
  | some c => split <;> simp_all

private lemma carriedAt_drop (p : Pool) (uid : InstanceUid) (index : Nat) :
    p.connections[index]?.elim [] (fun c => (drop uid c).carries) = (p.carriedAt index).filter (· ≠ uid) := by
  unfold carriedAt
  cases p.connections[index]? with
  | none | some c => rfl

private lemma CarriedWhereAssigned.lt_length (hp : CarriedWhereAssigned p)
    (h : p.assigned.lookup uid = some index) : index < p.connections.length := by
  have hcount := hp uid index
  rw [if_pos h] at hcount
  refine Nat.lt_of_not_le fun hle => ?_
  simp [carriedAt, getElem?_eq_none hle] at hcount

private lemma CarriedWhereAssigned.unassign (hp : CarriedWhereAssigned p) (uid : InstanceUid) :
    CarriedWhereAssigned (p.unassign uid) := by
  unfold Pool.unassign
  split
  · exact hp
  rename_i index hassigned
  intro other j
  rw [carriedAt_modify, lookup_erase_ite]
  have hj := hp other j
  by_cases hother : other = uid
  · -- assigned to `index` alone, where it is dropped
    subst hother
    rw [if_pos rfl]
    split
    · subst index
      rw [carriedAt_drop]
      simp [count_eq_zero]
    next hne =>
      rw [hj, hassigned]
      simp [hne]
  · rw [if_neg hother, ← hj]
    split
    · rw [carriedAt_drop]
      exact count_filter (by simpa using hother)
    · rfl

private lemma lookup_unassign_self (p : Pool) (uid : InstanceUid) : (p.unassign uid).assigned.lookup uid = none := by
  unfold unassign
  split
  · assumption
  · exact AList.lookup_erase _ _

private lemma lookup_unassign_none (h : p.assigned.lookup uid = none) (other : InstanceUid) :
    (p.unassign other).assigned.lookup uid = none := by
  unfold unassign
  split
  · exact h
  · exact lookup_erase_none h

private lemma lighter_of {Q : Nat × Upstream → Prop} {best : Option (Nat × Upstream)} {x b : Nat × Upstream}
    (hbest : ∀ b, best = some b → Q b) (hx : Q x) (h : lighter best x = some b) : Q b := by
  unfold lighter at h
  split at h
  · cases h
    exact hx
  · split at h
    · cases h
      exact hx
    · exact hbest _ h

private lemma leastLoaded_lt_length {b : Nat × Upstream}
    (h : leastLoaded connections = some b) : b.1 < connections.length := by
  refine foldlRecOn (motive := fun best => ∀ b, best = some b → b.1 < connections.length) _ lighter (by simp) ?_ b h
  intro best hbest x hx b hb
  obtain ⟨j, hj, rfl⟩ := mem_mapIdx.mp (mem_filter.mp hx).1
  exact @lighter_of (fun b => b.1 < connections.length) best _ b hbest hj hb

private lemma reuse_lt_length {atCap : Bool} (h : reuse connections atCap = some index) :
    index < connections.length := by
  unfold reuse at h
  split at h
  next i c hleast =>
    split at h
    · cases h
      exact leastLoaded_lt_length hleast
    · cases h
  · cases h

private lemma lookup_foldl_stale (stale : List InstanceUid) (assigned : Map InstanceUid Nat) (index : Nat)
    (uid : InstanceUid) :
    (stale.foldl (fun assigned carried =>
        if assigned.lookup carried = some index then assigned.erase carried else assigned) assigned).lookup uid =
      if uid ∈ stale ∧ assigned.lookup uid = some index then none else assigned.lookup uid := by
  induction stale generalizing assigned with
  | nil => simp
  | cons carried stale ih =>
    rw [foldl_cons, ih]
    by_cases hcarried : assigned.lookup carried = some index
    · rw [if_pos hcarried, lookup_erase_ite]
      by_cases huid : uid = carried
      · subst huid
        simp [hcarried]
      · simp [huid]
    · rw [if_neg hcarried]
      by_cases huid : uid = carried
      · subst huid
        simp [hcarried]
      · simp [huid]

private lemma carriedAt_takePlace (hlt : index < p.connections.length) (uid : InstanceUid)
    (alive : Bool) (j : Nat) : (p.takePlace uid alive index).carriedAt j = if index = j then [uid]
      else p.carriedAt j := by
  unfold carriedAt takePlace
  simp only [getElem?_set, if_pos hlt]
  split <;> rfl

private lemma lookup_takePlace (p : Pool) (uid : InstanceUid) (alive : Bool) (index : Nat) (other : InstanceUid) :
    (p.takePlace uid alive index).assigned.lookup other =
      if other = uid then some index
      else if other ∈ p.carriedAt index ∧ p.assigned.lookup other = some index then none
      else p.assigned.lookup other := by
  unfold takePlace
  rw [lookup_insert_ite, lookup_foldl_stale]

private lemma carriedAt_pushPlace (p : Pool) (uid : InstanceUid) (alive : Bool) (j : Nat) :
    (p.pushPlace uid alive).carriedAt j = if p.connections.length = j then [uid] else p.carriedAt j := by
  unfold carriedAt pushPlace
  simp only [getElem?_append]
  by_cases hend : p.connections.length = j
  · simp [← hend]
  rw [if_neg hend]
  by_cases hlt : j < p.connections.length
  · rw [if_pos hlt]
  · have hbeyond : ([⟨[uid], alive⟩] : List Upstream)[j - p.connections.length]? = none :=
      getElem?_eq_none (by simp; omega)
    rw [if_neg hlt, hbeyond, getElem?_eq_none (Nat.le_of_not_lt hlt)]

section

variable (hp : CarriedWhereAssigned p)
include hp

private lemma CarriedWhereAssigned.assign (hnone : p.assigned.lookup uid = none) (hlt : index < p.connections.length) :
    CarriedWhereAssigned (p.assign uid index) := by
  have hpush : ∀ j, p.connections[j]?.elim [] (fun c => (push uid c).carries) =
      if j < p.connections.length then p.carriedAt j ++ [uid] else [] := by
    intro j
    unfold carriedAt
    by_cases hj : j < p.connections.length
    · rw [getElem?_eq_getElem hj, if_pos hj]
      rfl
    · rw [getElem?_eq_none (Nat.le_of_not_lt hj), if_neg hj]
      rfl
  intro other j
  unfold Pool.assign
  rw [carriedAt_modify, lookup_insert_ite, hpush]
  have hj := hp other j
  by_cases hother : other = uid
  · subst hother
    rw [hnone] at hj
    rw [if_pos rfl]
    by_cases hindex : index = j
    · subst hindex
      rw [if_pos rfl, if_pos hlt, if_pos rfl, count_append, hj]
      simp
    · rw [if_neg hindex, hj]
      simp [hindex]
  · rw [if_neg hother, ← hj]
    split
    · subst index
      rw [if_pos hlt, count_append, count_singleton]
      simp [Ne.symm hother]
    · rfl

private lemma CarriedWhereAssigned.lose (index : Nat) : CarriedWhereAssigned (p.lose index) := by
  intro uid j
  unfold Pool.lose
  rw [carriedAt_modify]
  refine Eq.trans ?_ (hp uid j)
  split <;> rfl

private lemma CarriedWhereAssigned.rehomed (limit : Nat) (uid : InstanceUid)
    (lost : List Nat) : CarriedWhereAssigned (p.rehomed limit uid lost).1 ∧
      (p.rehomed limit uid lost).1.assigned.lookup uid = none := by
  refine foldlRecOn (motive := fun q => CarriedWhereAssigned q ∧ q.assigned.lookup uid = none) lost Pool.lose
    ⟨hp.unassign uid, lookup_unassign_self p uid⟩ ?_
  exact fun q hq index _ => ⟨hq.1.lose index, hq.2⟩

private lemma CarriedWhereAssigned.connectionFor (limit : Nat) (uid : InstanceUid)
    (lost : List Nat) : CarriedWhereAssigned (p.connectionFor limit uid lost) := by
  obtain ⟨hrehomed, hnone⟩ := hp.rehomed limit uid lost
  unfold Pool.connectionFor
  split
  · exact hp
  simp only
  split
  next index hreuse =>
    exact hrehomed.assign hnone (reuse_lt_length hreuse)
  · exact hrehomed

/-- A connection carries the Agent alone, so the Agent must be carried by none but the one whose place is taken. -/
private lemma CarriedWhereAssigned.takePlace
    (hlt : index < p.connections.length) (alive : Bool) (hplace : ∀ j, p.assigned.lookup uid = some j → j = index) :
    CarriedWhereAssigned (p.takePlace uid alive index) := by
  intro other j
  rw [carriedAt_takePlace hlt, lookup_takePlace]
  have hj := hp other j
  by_cases hother : other = uid
  · subst hother
    rw [if_pos rfl]
    by_cases hjindex : index = j
    · simp [hjindex]
    · rw [if_neg hjindex, hj, if_neg fun h => hjindex (hplace j h).symm]
      simp [hjindex]
  rw [if_neg hother]
  by_cases hjindex : index = j
  · -- what the closed connection carried is assigned nowhere now
    subst hjindex
    rw [if_pos rfl, count_singleton]
    by_cases hassigned : p.assigned.lookup other = some index
    · rw [if_pos hassigned] at hj
      have hmem : other ∈ p.carriedAt index := count_pos_iff.mp (by omega)
      simp [hmem, hassigned, Ne.symm hother]
    · simp [hassigned, Ne.symm hother]
  · rw [if_neg hjindex, hj]
    by_cases hstale : other ∈ p.carriedAt index ∧ p.assigned.lookup other = some index
    · rw [if_pos hstale, hstale.2]
      simp [hjindex]
    · rw [if_neg hstale]

private lemma CarriedWhereAssigned.pushPlace (alive : Bool)
    (hnone : p.assigned.lookup uid = none) : CarriedWhereAssigned (p.pushPlace uid alive) := by
  intro other j
  have hj := hp other j
  rw [carriedAt_pushPlace, show (p.pushPlace uid alive).assigned = p.assigned.insert uid p.connections.length from rfl,
    lookup_insert_ite]
  by_cases hother : other = uid
  · subst hother
    rw [hnone] at hj
    rw [if_pos rfl]
    by_cases hend : p.connections.length = j
    · simp [hend]
    · rw [if_neg hend, hj]
      simp [hend]
  · rw [if_neg hother]
    by_cases hend : p.connections.length = j
    · have hbeyond : p.assigned.lookup other ≠ some j := fun h => by
        have hlt := hp.lt_length h
        omega
      rw [if_pos hend, if_neg hbeyond, count_singleton]
      simp [Ne.symm hother]
    · rw [if_neg hend, hj]

private lemma CarriedWhereAssigned.opened (alive : Bool)
    (hplace : ∀ index, p.assigned.lookup uid = some index → p.vacant = some index) :
    CarriedWhereAssigned (p.opened uid alive) := by
  have hbefore : CarriedWhereAssigned { p with opening := p.opening.erase uid } := hp
  unfold Pool.opened
  simp only
  split
  next index hvacant =>
    obtain ⟨c, hc, -⟩ := vacant_spec hvacant
    obtain ⟨hlt, -⟩ := List.getElem?_eq_some_iff.mp hc
    refine hbefore.takePlace hlt alive ?_
    exact fun j hj => Option.some.inj ((hplace j hj).symm.trans hvacant)
  next hvacant =>
    refine hbefore.pushPlace alive ?_
    rw [Option.eq_none_iff_forall_ne_some]
    intro index h
    cases hvacant.symm.trans (hplace index h)

private lemma CarriedWhereAssigned.release (routes : InstanceUid → Bool)
    (uids : List InstanceUid) : CarriedWhereAssigned (p.release routes uids) := by
  refine foldlRecOn (motive := CarriedWhereAssigned) uids _ hp ?_
  intro q hq uid _
  unfold releaseOne
  split
  · exact hq
  · exact hq.unassign uid

end

private lemma lookup_release (p : Pool) {routes : InstanceUid → Bool} {uids : List InstanceUid}
    (huid : uid ∈ uids) (hroutes : routes uid = false) : (p.release routes uids).assigned.lookup uid = none := by
  have hnone : ∀ (uids : List InstanceUid) (q : Pool), q.assigned.lookup uid = none →
      (q.release routes uids).assigned.lookup uid = none := by
    intro uids q hq
    refine foldlRecOn (motive := fun q : Pool => q.assigned.lookup uid = none) uids _ hq ?_
    intro q hq other _
    unfold releaseOne
    split
    · exact hq
    · exact lookup_unassign_none hq other
  induction uids generalizing p with
  | nil => cases huid
  | cons other uids ih =>
    rcases mem_cons.mp huid with rfl | hmem
    · refine hnone uids _ ?_
      unfold releaseOne
      rw [hroutes]
      exact lookup_unassign_self p uid
    · exact ih _ hmem

/-- The Agent of an opened connection is assigned to no connection then, but the one whose place it takes. -/
def PlacedOnce (p : Pool) : Act → Prop
  | .opened uid _ => (p.assigned.lookup uid).all (fun index => p.vacant = some index) = true
  | _ => True

instance (p : Pool) (a : Act) : Decidable (PlacedOnce p a) := by
  cases a <;> unfold PlacedOnce <;> infer_instance

private lemma CarriedWhereAssigned.step {limit : Nat} {q : Pool} {a : Act} (hp : CarriedWhereAssigned p)
    (hplace : PlacedOnce p a) (h : p.step limit a = some q) : CarriedWhereAssigned q := by
  cases a with
  | forward uid lost =>
    cases h
    exact hp.connectionFor limit uid lost
  | opened uid alive =>
    simp only [Pool.step] at h
    split at h
    · cases h
      refine hp.opened alive fun index hindex => ?_
      simp only [PlacedOnce, hindex] at hplace
      simpa using hplace
    · cases h
  | notOpened uid =>
    simp only [Pool.step] at h
    split at h
    · cases h
      exact hp
    · cases h
  | lost index =>
    cases h
    exact hp.lose index
  | forget uid =>
    cases h
    exact hp.unassign uid
  | release routes uids =>
    cases h
    exact hp.release routes uids

/-- In every run in which the Agent of an opened connection is assigned to no other then, each Agent is once in what
the connection it is assigned to carries and nowhere else, and a released Agent is carried nowhere. -/
theorem carried_iff_assigned (limit : Nat) (p : Pool) (h : Reach empty (restrict PlacedOnce (step limit)) p) :
    CarriedWhereAssigned p ∧ ∀ routes uids uid index, uid ∈ uids → routes uid = false →
      uid ∉ (p.release routes uids).carriedAt index := by
  have hp : CarriedWhereAssigned p := by
    exact h.invariant_restrict (fun uid index => rfl) fun _ _ _ hs hplace hstep => hs.step hplace hstep
  refine ⟨hp, fun routes uids uid index huid hroutes => ?_⟩
  have hcount := hp.release routes uids uid index
  rw [lookup_release p huid hroutes] at hcount
  exact count_eq_zero.mp hcount

/-- Two Agents on a connection each; the first connection is lost and a third Agent takes its place. -/
theorem carried_iff_assigned_of_three : ∃ p, Reach empty (restrict PlacedOnce (step 2)) p ∧
    p.assigned.lookup (.ofByte 3) = some 0 ∧ CarriedWhereAssigned p := by
  refine Reach.exists_of_run_imp (p := fun p => p.assigned.lookup (.ofByte 3) = some 0)
    [.forward (.ofByte 1) [], .opened (.ofByte 1) true, .forward (.ofByte 2) [], .opened (.ofByte 2) true, .lost 0,
      .forward (.ofByte 3) [], .opened (.ofByte 3) true] (by decide +kernel) ?_
  intro p hreach hthree
  exact ⟨hthree, (carried_iff_assigned 2 p hreach).1⟩

/-- Two reports of one Agent are forwarded at once: both open a connection, and both connections carry it. -/
theorem concurrent_forwards_carry_twice : ∃ p, Reach empty (step 2) p ∧ ¬CarriedWhereAssigned p := by
  refine Reach.exists_of_run_imp (p := fun p => (p.carriedAt 0).count (.ofByte 1) ≠
      if p.assigned.lookup (.ofByte 1) = some 0 then 1 else 0)
    [.forward (.ofByte 1) [], .forward (.ofByte 1) [], .opened (.ofByte 1) true, .opened (.ofByte 1) true]
    (by decide +kernel) ?_
  exact fun p _ htwice h => htwice (h (.ofByte 1) 0)

end Pool

end OpampFleet.Gateway
