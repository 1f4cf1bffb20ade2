import OpampFleet.Gateway.Policy

/-!
# The indexes of the bindings

What each operation on the bindings does to them, read through lookups, and that the indexes stay what they are kept
for: a host's list is of the `instance_uid`s bound to it, the ends by `notAfter` are the ends, only a host with a
binding has an end, and only a host with an end moves it.
-/

namespace OpampFleet.Gateway.Bindings

open Lib Opamp List Map

variable (b : Bindings) (uid other : InstanceUid) (host name : String) (fin : End)

/-! ### The ends -/

@[simp] lemma dropEnd_frame : (b.dropEnd host).bound = b.bound ∧ (b.dropEnd host).hosts = b.hosts ∧
    (b.dropEnd host).moving = b.moving ∧ (b.dropEnd host).tick = b.tick := by
  unfold dropEnd
  split <;> exact ⟨rfl, rfl, rfl, rfl⟩

lemma lookup_ends_dropEnd : (b.dropEnd host).ends.lookup name = if name = host then none else b.ends.lookup name := by
  unfold dropEnd
  split
  next h =>
    split
    next he =>
      rw [he, h]
    · rfl
  · exact lookup_erase_ite _ _ _

@[simp] lemma setEnd_frame : (b.setEnd host fin).bound = b.bound ∧ (b.setEnd host fin).hosts = b.hosts ∧
    (b.setEnd host fin).moving = b.moving ∧ (b.setEnd host fin).tick = b.tick :=
  dropEnd_frame b host

lemma lookup_ends_setEnd :
    (b.setEnd host fin).ends.lookup name = if name = host then some fin else b.ends.lookup name := by
  unfold setEnd
  simp only [lookup_insert_ite, lookup_ends_dropEnd]
  split <;> rfl

def Moves : Prop := (b.ends.lookup host).any (fun kept => fin.notAfter ≤ kept.notAfter) = false

instance : Decidable (b.Moves host fin) := by unfold Moves; infer_instance

private lemma moveEnd_eq : b.moveEnd host fin = if b.Moves host fin then
    (({ b with moving := b.moving.insert host (b.ends.lookup host) } : Bindings).setEnd host fin, [.ends host fin])
    else (b, []) := by
  unfold moveEnd Moves
  split <;> simp_all

lemma isSome_ends_of_not_moves (h : ¬b.Moves host fin) : (b.ends.lookup host).isSome := by
  unfold Moves at h
  cases he : b.ends.lookup host with
  | none => simp [he] at h
  | some kept => rfl

@[simp] lemma moveEnd_frame : (b.moveEnd host fin).1.bound = b.bound ∧ (b.moveEnd host fin).1.hosts = b.hosts ∧
    (b.moveEnd host fin).1.tick = b.tick := by
  rw [moveEnd_eq]
  split <;> simp

private lemma lookup_ends_moveEnd : (b.moveEnd host fin).1.ends.lookup name =
    if name = host ∧ b.Moves host fin then some fin else b.ends.lookup name := by
  rw [moveEnd_eq]
  by_cases h : b.Moves host fin <;> simp [lookup_ends_setEnd, h]

private lemma lookup_moving_moveEnd : (b.moveEnd host fin).1.moving.lookup name =
    if name = host ∧ b.Moves host fin then some (b.ends.lookup host) else b.moving.lookup name := by
  rw [moveEnd_eq]
  by_cases h : b.Moves host fin <;> simp [lookup_insert_ite, h]

private lemma moveEnd_changes : (b.moveEnd host fin).2 = if b.Moves host fin then [.ends host fin] else [] := by
  rw [moveEnd_eq]
  split <;> rfl

variable (written : Bool)

@[simp] lemma settleEnd_frame : (b.settleEnd written host).bound = b.bound ∧
    (b.settleEnd written host).hosts = b.hosts ∧ (b.settleEnd written host).tick = b.tick := by
  unfold settleEnd
  split
  · simp
  · split
    · simp
    · split <;> simp

private lemma lookup_moving_settleEnd :
    (b.settleEnd written host).moving.lookup name = if name = host then none else b.moving.lookup name := by
  unfold settleEnd
  split
  next h =>
    split
    next he =>
      rw [he, h]
    · rfl
  · split
    · exact lookup_erase_ite _ _ _
    · split <;> simp [lookup_erase_ite]

private lemma lookup_ends_settleEnd : (b.settleEnd written host).ends.lookup name =
    if name = host ∧ written = false then (b.moving.lookup host).getD (b.ends.lookup host) else b.ends.lookup name := by
  unfold settleEnd
  cases hm : b.moving.lookup host with
  | none =>
    simp only [Option.getD_none]
    split
    next he =>
      rw [he.1]
    · rfl
  | some held =>
    cases written with
    | true => simp
    | false =>
      cases held with
      | none => simp [lookup_ends_dropEnd]
      | some held => simp [lookup_ends_setEnd]

section

variable (hosts : List String)
include hosts

@[simp] lemma compacted_frame : (b.compacted hosts written).bound = b.bound ∧
    (b.compacted hosts written).hosts = b.hosts ∧ (b.compacted hosts written).tick = b.tick := by
  unfold compacted
  induction hosts generalizing b with
  | nil => simp
  | cons host hosts ih => simpa using ih (b.settleEnd written host)

lemma lookup_moving_compacted : (b.compacted hosts written).moving.lookup name =
    if name ∈ hosts then none else b.moving.lookup name := by
  unfold compacted
  induction hosts generalizing b with
  | nil => simp
  | cons host hosts ih =>
    rw [foldl_cons, ih, lookup_moving_settleEnd]
    by_cases h : name = host <;> simp [h]

lemma lookup_ends_compacted : (b.compacted hosts written).ends.lookup name =
    if name ∈ hosts ∧ written = false then (b.moving.lookup name).getD (b.ends.lookup name)
    else b.ends.lookup name := by
  unfold compacted
  induction hosts generalizing b with
  | nil => simp
  | cons host hosts ih =>
    rw [foldl_cons, ih, lookup_moving_settleEnd, lookup_ends_settleEnd]
    by_cases h : name = host
    · subst h
      cases written <;> simp
    · cases written <;> simp [h]

end

lemma endsWritten_eq (changes : List Change) : b.endsWritten changes written = b.compacted (endHosts changes) written :=
  rfl

lemma mem_endHosts {changes : List Change} : host ∈ endHosts changes ↔ ∃ fin, Change.ends host fin ∈ changes := by
  unfold endHosts
  rw [mem_filterMap]
  constructor
  · rintro ⟨change, hmem, h⟩
    split at h
    next fin =>
      cases h
      exact ⟨fin, hmem⟩
    · cases h
  · rintro ⟨fin, hmem⟩
    exact ⟨_, hmem, rfl⟩

/-! ### The bindings of a host -/

structure HostIndex (b : Bindings) : Prop where
  mem_own : ∀ host uid, uid ∈ (b.hosts.lookup host).getD [] ↔ b.hostOf uid = some host
  own_nodup : ∀ host, ((b.hosts.lookup host).getD []).Nodup
  own_ne_nil : ∀ host, b.hosts.lookup host ≠ some []

def LastOf : Prop := b.hostOf uid = some host ∧ ∀ other, b.hostOf other = some host → other = uid

lemma hostIndex_empty : empty.HostIndex where
  mem_own host uid := by simp [empty, hostOf]
  own_nodup host := by simp [empty]
  own_ne_nil host := by simp [empty]

lemma hostOf_eq_of_bound {b b' : Bindings} (h : b'.bound = b.bound) : b'.hostOf = b.hostOf := by
  funext uid
  simp [hostOf, h]

lemma hostOf_compacted (hosts : List String) : (b.compacted hosts written).hostOf = b.hostOf :=
  hostOf_eq_of_bound (compacted_frame b written hosts).1

lemma HostIndex.congr {b b' : Bindings} (h : b.HostIndex) (hbound : b'.hostOf = b.hostOf)
    (hhosts : b'.hosts = b.hosts) : b'.HostIndex where
  mem_own host uid := by rw [hhosts, hbound, h.mem_own]
  own_nodup host := by rw [hhosts]; exact h.own_nodup host
  own_ne_nil host := by rw [hhosts]; exact h.own_ne_nil host

/-- A change of one host's list: `own` is what is bound to it after the change, and no list stands for none. -/
private lemma HostIndex.of_own {b b' : Bindings} (h : b.HostIndex) (host : String) (own : List InstanceUid)
    (hhosts : ∀ name, b'.hosts.lookup name =
      if name = host then (if own = [] then none else some own) else b.hosts.lookup name)
    (hnodup : own.Nodup) (hown : ∀ v, v ∈ own ↔ b'.hostOf v = some host)
    (hothers : ∀ v name, name ≠ host → (b'.hostOf v = some name ↔ b.hostOf v = some name)) : b'.HostIndex := by
  have hgetD : ∀ name, (b'.hosts.lookup name).getD [] = if name = host then own else (b.hosts.lookup name).getD [] := by
    intro name
    rw [hhosts]
    by_cases hname : name = host
    · by_cases hnil : own = [] <;> simp [hname, hnil]
    · simp [hname]
  refine ⟨fun name v => ?_, fun name => ?_, fun name => ?_⟩
  · rw [hgetD]
    split
    next hname =>
      rw [hown, hname]
    next hname =>
      rw [h.mem_own, hothers v name hname]
  · rw [hgetD]
    split
    · exact hnodup
    · exact h.own_nodup name
  · rw [hhosts]
    split
    · split <;> simp [*]
    · exact h.own_ne_nil name

lemma lookup_bound_unbind (keepEnd : Bool) :
    (b.unbind uid keepEnd).bound.lookup other = if other = uid then none else b.bound.lookup other := by
  unfold unbind
  split
  next h =>
    split
    next he =>
      rw [he, h]
    · rfl
  · simp only
    split
    · exact lookup_erase_ite _ _ _
    split
    · split
      · exact lookup_erase_ite _ _ _
      · simp [lookup_erase_ite]
    · exact lookup_erase_ite _ _ _

lemma hostOf_unbind (keepEnd : Bool) :
    (b.unbind uid keepEnd).hostOf other = if other = uid then none else b.hostOf other := by
  unfold hostOf
  rw [lookup_bound_unbind]
  split <;> rfl

@[simp] lemma unbind_tick (keepEnd : Bool) : (b.unbind uid keepEnd).tick = b.tick := by
  unfold unbind
  split
  · rfl
  simp only
  split
  · rfl
  · split
    · split <;> simp
    · rfl

lemma hostOf_insert (binding : Binding) :
    (b.insert uid binding).hostOf other = if other = uid then some binding.host else b.hostOf other := by
  unfold hostOf Bindings.insert
  rw [lookup_insert_ite]
  split <;> rfl

@[simp] lemma endHost_tick : (b.endHost host).1.tick = b.tick := by simp [endHost]

private lemma lookup_ends_endHost :
    (b.endHost host).1.ends.lookup name = if name = host then none else b.ends.lookup name := by
  simp [endHost, lookup_ends_dropEnd]

private lemma lookup_moving_endHost :
    (b.endHost host).1.moving.lookup name = if name = host then none else b.moving.lookup name := by
  simp [endHost, lookup_erase_ite]

section

variable {b} (h : b.HostIndex)
include h

private lemma HostIndex.isEmpty_erase_iff {own : List InstanceUid}
    (hown : b.hosts.lookup host = some own) (huid : b.hostOf uid = some host) :
    (own.erase uid).isEmpty = true ↔ b.LastOf uid host := by
  have hmem : ∀ v, v ∈ own ↔ b.hostOf v = some host := by
    intro v
    rw [← h.mem_own, hown, Option.getD_some]
  have hnodup : own.Nodup := by simpa [hown] using h.own_nodup host
  rw [List.isEmpty_iff, eq_nil_iff_forall_not_mem]
  constructor
  · intro hall
    refine ⟨huid, fun other ho => ?_⟩
    by_contra hne
    exact hall other ((mem_erase_of_ne hne).mpr ((hmem other).mpr ho))
  · rintro ⟨-, hlast⟩ v hv
    obtain ⟨hne, hv⟩ := hnodup.mem_erase_iff.mp hv
    exact hne (hlast v ((hmem v).mp hv))

private lemma HostIndex.exists_own {binding : Binding} (hb : b.bound.lookup uid = some binding) :
    ∃ own, b.hosts.lookup binding.host = some own := by
  have hmem := (h.mem_own binding.host uid).mpr (by simp [hostOf, hb])
  cases ho : b.hosts.lookup binding.host with
  | none => simp [ho] at hmem
  | some own => exact ⟨own, rfl⟩

/-- Unbinding keeps the index of hosts exact. -/
lemma HostIndex.unbind (keepEnd : Bool) : (b.unbind uid keepEnd).HostIndex := by
  cases hb : b.bound.lookup uid with
  | none =>
    have he : b.unbind uid keepEnd = b := by simp [Bindings.unbind, hb]
    rwa [he]
  | some binding =>
    obtain ⟨own, hown⟩ := h.exists_own uid hb
    have huid : b.hostOf uid = some binding.host := by simp [hostOf, hb]
    have hnodup : own.Nodup := by simpa [hown] using h.own_nodup binding.host
    refine h.of_own binding.host (own.erase uid) (fun name => ?_) (hnodup.erase uid)
      (fun v => ?_) fun v name hname => ?_
    -- the lists after the removal, whatever becomes of the host's end
    · simp only [Bindings.unbind, hb, hown, List.isEmpty_iff]
      split
      · split <;> simp [lookup_erase_ite]
      · exact lookup_insert_ite _ _ _ _
    · have hmem : v ∈ own ↔ b.hostOf v = some binding.host := by rw [← h.mem_own, hown, Option.getD_some]
      rw [hnodup.mem_erase_iff, hostOf_unbind, hmem]
      by_cases hv : v = uid <;> simp [hv]
    · rw [hostOf_unbind]
      by_cases hv : v = uid
      · subst hv
        simp [huid, Ne.symm hname]
      · simp [hv]

/-- What giving a binding up does to the ends: the host's own goes with its last binding, unless it is kept. -/
lemma HostIndex.ends_unbind (keepEnd : Bool) (name : String) :
    ((b.unbind uid keepEnd).ends.lookup name = none ∧ (b.unbind uid keepEnd).moving.lookup name = none ∧
        keepEnd = false ∧ b.LastOf uid name) ∨
      ((b.unbind uid keepEnd).ends.lookup name = b.ends.lookup name ∧
        (b.unbind uid keepEnd).moving.lookup name = b.moving.lookup name ∧ ¬(keepEnd = false ∧ b.LastOf uid name)) := by
  cases hb : b.bound.lookup uid with
  | none =>
    have hnot : ¬b.LastOf uid name := by simp [LastOf, hostOf, hb]
    simp [Bindings.unbind, hb, hnot]
  | some binding =>
    obtain ⟨own, hown⟩ := h.exists_own uid hb
    have huid : b.hostOf uid = some binding.host := by simp [hostOf, hb]
    have hlast := h.isEmpty_erase_iff uid binding.host hown huid
    by_cases hempty : (own.erase uid).isEmpty = true
    · cases keepEnd with
      | true =>
        right
        simp [Bindings.unbind, hb, hown, hempty]
      | false =>
        by_cases hname : name = binding.host
        · left
          subst hname
          simp [Bindings.unbind, hb, hown, hempty, lookup_ends_dropEnd, hlast.mp hempty]
        right
        have hnot : ¬b.LastOf uid name := by
          rintro ⟨hn, -⟩
          rw [huid] at hn
          exact hname (Option.some.inj hn).symm
        simp [Bindings.unbind, hb, hown, hempty, lookup_ends_dropEnd, hname, hnot]
    · right
      have hnot : ¬b.LastOf uid name := by
        rintro ⟨hn, hall⟩
        rw [huid] at hn
        cases Option.some.inj hn
        exact hempty (hlast.mpr ⟨huid, hall⟩)
      simp [Bindings.unbind, hb, hown, hempty, hnot]

/-- Binding a free `instance_uid` keeps the index of hosts exact. -/
lemma HostIndex.insert (hnew : b.hostOf uid = none) (binding : Binding) : (b.insert uid binding).HostIndex := by
  have hne : ((b.hosts.lookup binding.host).getD []).insert uid ≠ [] := ne_nil_of_mem mem_insert_self
  refine h.of_own binding.host _ (fun name => ?_) ((h.own_nodup binding.host).insert (a := uid)) (fun v => ?_)
    fun v name hname => ?_
  · rw [if_neg hne]
    exact lookup_insert_ite _ _ _ _
  · rw [mem_insert_iff, h.mem_own, hostOf_insert]
    by_cases hv : v = uid <;> simp [hv]
  · rw [hostOf_insert]
    by_cases hv : v = uid
    · subst hv
      simp [hnew, Ne.symm hname]
    · simp [hv]

private lemma HostIndex.lookup_bound_endHost : (b.endHost host).1.bound.lookup other =
    if b.hostOf other = some host then none else b.bound.lookup other := by
  unfold endHost
  simp only [dropEnd_frame]
  rw [lookup_foldl_erase]
  simp only [h.mem_own]

private lemma HostIndex.hostOf_endHost : (b.endHost host).1.hostOf other =
    if b.hostOf other = some host then none else b.hostOf other := by
  rw [hostOf, h.lookup_bound_endHost]
  split <;> rfl

private lemma HostIndex.mem_endHost : other ∈ (b.endHost host).2 ↔ b.hostOf other = some host :=
  h.mem_own host other

private lemma HostIndex.endHost : (b.endHost host).1.HostIndex := by
  refine h.of_own host [] (fun name => ?_) nodup_nil (fun v => ?_) fun v name hname => ?_
  · simp [Bindings.endHost, lookup_erase_ite]
  · simp [h.hostOf_endHost]
  · rw [h.hostOf_endHost]
    by_cases hv : b.hostOf v = some host
    · simp [hv, Ne.symm hname]
    · simp [hv]

end

private def endEach (hosts : List String) : Bindings := hosts.foldl (fun b host => (b.endHost host).1) b

private lemma endAll_foldl (hosts : List String) (gone : List (String × List InstanceUid)) :
    (hosts.foldl (fun (b, gone) host => ((b.endHost host).1, gone ++ [(host, (b.endHost host).2)])) (b, gone)).1 =
      b.endEach hosts := by
  induction hosts generalizing b gone with
  | nil => rfl
  | cons host hosts ih => exact ih _ _

private lemma HostIndex.endEach {b : Bindings} (h : b.HostIndex) (hosts : List String) :
    (b.endEach hosts).HostIndex := by
  induction hosts generalizing b with
  | nil => exact h
  | cons host hosts ih => exact ih (h.endHost host)

private lemma HostIndex.lookup_bound_endEach {b : Bindings} (h : b.HostIndex) (hosts : List String) :
    (b.endEach hosts).bound.lookup other =
      if ∃ host ∈ hosts, b.hostOf other = some host then none else b.bound.lookup other := by
  induction hosts generalizing b with
  | nil => simp [Bindings.endEach]
  | cons host hosts ih =>
    have hrest := ih (h.endHost host)
    rw [h.hostOf_endHost, h.lookup_bound_endHost] at hrest
    refine hrest.trans ?_
    by_cases hv : b.hostOf other = some host <;> simp [hv]

private lemma endEach_ends (hosts : List String) :
    (b.endEach hosts).ends.lookup name = (if name ∈ hosts then none else b.ends.lookup name) ∧
      (b.endEach hosts).moving.lookup name = (if name ∈ hosts then none else b.moving.lookup name) ∧
      (b.endEach hosts).tick = b.tick := by
  induction hosts generalizing b with
  | nil => simp [endEach]
  | cons host hosts ih =>
    have hrest := ih (b.endHost host).1
    rw [lookup_ends_endHost, lookup_moving_endHost, endHost_tick] at hrest
    refine ⟨hrest.1.trans ?_, hrest.2.1.trans ?_, hrest.2.2⟩ <;> by_cases hn : name = host <;> simp [hn]

private lemma mem_foldl_endHost {b : Bindings} (h : b.HostIndex) (hosts : List String)
    (gone : List (String × List InstanceUid)) :
    (∃ own, (name, own) ∈
      (hosts.foldl (fun (b, gone) host => ((b.endHost host).1, gone ++ [(host, (b.endHost host).2)]))
      (b, gone)).2 ∧ other ∈ own) ↔
        (∃ own, (name, own) ∈ gone ∧ other ∈ own) ∨ name ∈ hosts ∧ b.hostOf other = some name := by
  induction hosts generalizing b gone with
  | nil => simp
  | cons host hosts ih =>
    have hrest := ih (h.endHost host) (gone ++ [(host, (b.endHost host).2)])
    refine hrest.trans ?_
    have hlast : (∃ own, (name, own) ∈ gone ++ [(host, (b.endHost host).2)] ∧ other ∈ own) ↔
        (∃ own, (name, own) ∈ gone ∧ other ∈ own) ∨ name = host ∧ b.hostOf other = some host := by
      simp only [mem_append, mem_singleton, Prod.mk.injEq, or_and_right, exists_or, and_assoc,
        ← h.mem_endHost]
      simp
    rw [hlast, h.hostOf_endHost, mem_cons, or_assoc]
    refine or_congr_right ?_
    by_cases hv : b.hostOf other = some host
    · rw [if_pos hv, hv]
      simp only [and_true, reduceCtorEq, and_false, or_false, Option.some.injEq]
      exact ⟨fun hname => ⟨.inl hname, hname.symm⟩, fun hname => hname.2.symm⟩
    rw [if_neg hv]
    constructor
    · rintro (hnow | hlater)
      · exact absurd hnow.2 hv
      · exact ⟨.inr hlater.1, hlater.2⟩
    · rintro ⟨rfl | hmem, hname⟩
      · exact absurd hname hv
      · exact .inr ⟨hmem, hname⟩

section EndAll

variable {b} (now : Int) (revoked : Option (End → Bool))

def EndsWith (b : Bindings) (now : Int) (revoked : Option (End → Bool)) (uid : InstanceUid) : Prop :=
  ∃ host ∈ b.ended now revoked, b.hostOf uid = some host

instance : Decidable (b.EndsWith now revoked uid) := by unfold EndsWith; infer_instance

private lemma HostIndex.endAll (h : b.HostIndex) : (b.endAll now revoked).1.HostIndex := by
  unfold Bindings.endAll
  rw [endAll_foldl]
  exact h.endEach _

/-- `endAll` drops exactly the bindings whose host ended. -/
lemma HostIndex.lookup_bound_endAll (h : b.HostIndex) : (b.endAll now revoked).1.bound.lookup other =
    if b.EndsWith now revoked other then none else b.bound.lookup other := by
  unfold Bindings.endAll EndsWith
  rw [endAll_foldl]
  exact h.lookup_bound_endEach other _

lemma lookup_ends_endAll : (b.endAll now revoked).1.ends.lookup name =
    if name ∈ b.ended now revoked then none else b.ends.lookup name := by
  unfold Bindings.endAll
  rw [endAll_foldl]
  exact (endEach_ends b name _).1

lemma lookup_moving_endAll : (b.endAll now revoked).1.moving.lookup name =
    if name ∈ b.ended now revoked then none else b.moving.lookup name := by
  unfold Bindings.endAll
  rw [endAll_foldl]
  exact (endEach_ends b name _).2.1

lemma endAll_tick : (b.endAll now revoked).1.tick = b.tick := by
  unfold Bindings.endAll
  rw [endAll_foldl]
  exact (endEach_ends b "" _).2.2

/-- `endAll` names each host that ended with the `instance_uid`s it held. -/
lemma HostIndex.mem_endAll_host (h : b.HostIndex) : (∃ own, (name, own) ∈ (b.endAll now revoked).2 ∧ other ∈ own) ↔
    name ∈ b.ended now revoked ∧ b.hostOf other = some name := by
  unfold Bindings.endAll
  rw [mem_foldl_endHost other name h]
  simp

/-- The removals that `endAll` names are the bindings it drops. -/
lemma HostIndex.mem_endAll (h : b.HostIndex) :
    other ∈ (b.endAll now revoked).2.flatMap Prod.snd ↔ b.EndsWith now revoked other := by
  unfold EndsWith
  simp [← h.mem_endAll_host]

end EndAll

/-! ### A report -/

section Bind

variable {b uid host fin} {limits : Limits} {idle : InstanceUid → Bool} {now : Int}

private lemma HostIndex.victim_spec (h : b.HostIndex) {v : InstanceUid} (hv : b.victim host idle = some v) :
    ∃ binding, b.bound.lookup v = some binding ∧ binding.host = host ∧ binding.pending = false ∧ idle v = true := by
  have hmem := argmin_mem (Option.mem_def.mpr hv)
  obtain ⟨hown, hany⟩ := mem_filter.mp hmem
  rw [h.mem_own] at hown
  obtain ⟨binding, hb, hp⟩ := (Option.any_eq_true _ _).mp hany
  simp only [Bool.and_eq_true, Bool.not_eq_true'] at hp
  simp only [hostOf, hb, Option.map_some, Option.some.injEq] at hown
  exact ⟨binding, hb, hown, hp.1, hp.2⟩

structure Idles (b : Bindings) (uid : InstanceUid) (host : String) (b' : Bindings) (outcome : Outcome) : Prop where
  eq : ∃ tick, b.tick ≤ tick ∧ b' = { b with tick := tick }
  bound : outcome.bound ≠ .new
  other : outcome.bound = .kept → b.hostOf uid ≠ some host

structure Refreshes (b : Bindings) (uid : InstanceUid) (host : String) (fin : End) (b' : Bindings) (outcome : Outcome) :
    Prop where
  held : b.holds uid host = true
  waits : b.waitsForEnd host fin = false
  outcome_eq : outcome = ⟨.kept, [], if b.Moves host fin then [.ends host fin] else []⟩
  bound : ∀ other, b'.bound.lookup other =
    if other = uid then (b.bound.lookup uid).map ({ · with reported := b.tick + 1 }) else b.bound.lookup other
  ends : ∀ name, b'.ends.lookup name = if name = host ∧ b.Moves host fin then some fin else b.ends.lookup name
  moving : ∀ name, b'.moving.lookup name =
    if name = host ∧ b.Moves host fin then some (b.ends.lookup host) else b.moving.lookup name
  hosts : b'.hosts = b.hosts
  tick : b'.tick = b.tick + 1

structure Binds (b : Bindings) (uid : InstanceUid) (host : String) (fin : End) (idle : InstanceUid → Bool)
    (b' : Bindings) (outcome : Outcome) : Prop where
  unbound : b.bound.lookup uid = none
  waits : b.waitsForEnd host fin = false
  evicted : ∀ v ∈ outcome.evicted, ∃ binding, b.bound.lookup v = some binding ∧ binding.host = host ∧
    binding.pending = false ∧ idle v = true
  bound_eq : outcome.bound = .new
  changes : outcome.changes = outcome.evicted.map .unbound ++
    (if b.Moves host fin then [.ends host fin] else []) ++ [.bound uid host]
  bound : ∀ other, b'.bound.lookup other = if other = uid then some ⟨host, b.tick + 1, true⟩
    else if other ∈ outcome.evicted then none else b.bound.lookup other
  ends : ∀ name, b'.ends.lookup name = if name = host ∧ b.Moves host fin then some fin else b.ends.lookup name
  moving : ∀ name, b'.moving.lookup name =
    if name = host ∧ b.Moves host fin then some (b.ends.lookup host) else b.moving.lookup name
  tick : b'.tick = b.tick + 1
  index : b'.HostIndex

private lemma Refreshes.of_report {binding : Binding} (hb : b.bound.lookup uid = some binding)
    (hp : binding.pending = false) (hh : binding.host = host) (hw : b.waitsForEnd host fin = false) :
    b.Refreshes uid host fin (b.report uid binding fin).1 (b.report uid binding fin).2 := by
  subst hh
  refine ⟨by simp [holds, hb, hp], hw, ?_, fun other => ?_, fun name => ?_, fun name => ?_, ?_, ?_⟩
  · simp only [report, moveEnd_changes]
    rfl
  · simp [report, lookup_insert_ite, hb]
  · exact lookup_ends_moveEnd _ _ _ _
  · exact lookup_moving_moveEnd _ _ _ _
  · simp [report]
  · simp [report]

private lemma Binds.of_room (hindex : b.HostIndex) (hnone : b.bound.lookup uid = none)
    (hw : b.waitsForEnd host fin = false) {b' : Bindings} {evicted : List InstanceUid}
    (hroom : ({ b with tick := b.tick + 1 } : Bindings).makeRoom host limits idle = .ok (b', evicted)) :
    b.Binds uid host fin idle ((b'.insert uid ⟨host, b'.tick, true⟩).moveEnd host fin).1
        ⟨.new, evicted, evicted.map .unbound ++ ((b'.insert uid ⟨host, b'.tick, true⟩).moveEnd host fin).2 ++
          [.bound uid host]⟩ ∧
      (evicted = [] ∧ b.full host limits = none ∨ ∃ v, evicted = [v] ∧ (b.full host limits).isSome) := by
  have hindex' : ({ b with tick := b.tick + 1 } : Bindings).HostIndex := hindex.congr rfl rfl
  -- what the room cost
  have hspec : (evicted = [] ∧ b.full host limits = none ∨ ∃ v, evicted = [v] ∧ (b.full host limits).isSome) ∧
      (∀ v ∈ evicted, ∃ binding, b.bound.lookup v = some binding ∧ binding.host = host ∧
        binding.pending = false ∧ idle v = true) ∧
      (∀ other, b'.bound.lookup other = if other ∈ evicted then none else b.bound.lookup other) ∧
      (∀ name, b'.ends.lookup name = b.ends.lookup name) ∧ (∀ name, b'.moving.lookup name = b.moving.lookup name) ∧
      b'.tick = b.tick + 1 ∧ b'.HostIndex := by
    unfold makeRoom at hroom
    split at hroom
    next hnone =>
      cases hroom
      exact ⟨.inl ⟨rfl, hnone⟩, by simp, by simp, fun _ => rfl, fun _ => rfl, rfl, hindex'⟩
    rename_i hfull
    split at hroom
    · cases hroom
    rename_i v hv
    cases hroom
    have hends := fun name => hindex'.ends_unbind v true name
    refine ⟨.inr ⟨v, rfl, Option.isSome_iff_exists.mpr ⟨_, hfull⟩⟩, ?_, fun other => ?_, fun name => ?_,
      fun name => ?_, unbind_tick _ _ _, hindex'.unbind v true⟩
    · simpa using hindex'.victim_spec hv
    · rw [lookup_bound_unbind]
      simp
    · rcases hends name with h | h
      · exact absurd h.2.2.1 (by simp)
      · exact h.1
    · rcases hends name with h | h
      · exact absurd h.2.2.1 (by simp)
      · exact h.2.1
  obtain ⟨hfull, hevicted, hbound, hends, hmoving, htick, hidx⟩ := hspec
  obtain ⟨hkept, hmoved⟩ : (b'.insert uid ⟨host, b'.tick, true⟩).ends = b'.ends ∧
      (b'.insert uid ⟨host, b'.tick, true⟩).moving = b'.moving := ⟨rfl, rfl⟩
  have hmoves : (b'.insert uid ⟨host, b'.tick, true⟩).Moves host fin ↔ b.Moves host fin := by
    unfold Moves
    rw [hkept, hends]
  have hunbound : b'.hostOf uid = none := by
    simp [hostOf, hbound, hnone]
  have hframe := moveEnd_frame (b'.insert uid ⟨host, b'.tick, true⟩) host fin
  refine ⟨⟨hnone, hw, hevicted, rfl, ?_, fun other => ?_, fun name => ?_, fun name => ?_, ?_, ?_⟩, hfull⟩
  · rw [moveEnd_changes]
    simp only [hmoves]
  · rw [hframe.1, Bindings.insert, lookup_insert_ite, hbound, htick]
  · rw [lookup_ends_moveEnd]
    simp only [hmoves]
    rw [hkept, hends]
  · rw [lookup_moving_moveEnd]
    simp only [hmoves]
    rw [hkept, hends, hmoved, hmoving]
  · exact hframe.2.2.trans htick
  · exact (hidx.insert uid hunbound ⟨host, b'.tick, true⟩).congr (hostOf_eq_of_bound hframe.1) hframe.2.1

/-- Everything a report may do, and what the room it made was for. -/
lemma HostIndex.bind_cases (h : b.HostIndex) {b' : Bindings} {outcome : Outcome}
    (hbind : b.bind uid host fin now limits idle = (b', outcome)) :
    b.Idles uid host b' outcome ∨ b.Refreshes uid host fin b' outcome ∨ b.Binds uid host fin idle b' outcome ∧
      (outcome.evicted = [] ∧ b.full host limits = none ∨ ∃ v, outcome.evicted = [v] ∧
        (b.full host limits).isSome) := by
  have hsame : ∀ outcome : Outcome, outcome.bound ≠ .new →
      (outcome.bound = .kept → b.hostOf uid ≠ some host) → b.Idles uid host b outcome :=
    fun outcome hb ho => ⟨⟨b.tick, le_refl _, rfl⟩, hb, ho⟩
  unfold bind at hbind
  split at hbind
  · cases hbind
    exact .inl (hsame _ nofun nofun)
  split at hbind
  next binding hb =>
    split at hbind
    · cases hbind
      exact .inl (hsame _ nofun nofun)
    split at hbind
    next hother =>
      cases hbind
      exact .inl (hsame _ (by simp) fun _ => by simpa [hostOf, hb] using hother)
    split at hbind
    · cases hbind
      exact .inl (hsame _ nofun nofun)
    next hp hh hw =>
      cases hbind
      simp only [ne_eq, not_not] at hh
      exact .inr (.inl (.of_report hb (by simpa using hp) hh (by simpa using hw)))
  next hnone =>
    split at hbind
    · cases hbind
      exact .inl (hsame _ nofun nofun)
    rename_i hw
    unfold bindNew at hbind
    simp only at hbind
    split at hbind
    · cases hbind
      exact .inl ⟨⟨b.tick + 1, by omega, rfl⟩, nofun, nofun⟩
    next b' evicted hroom =>
      cases hbind
      exact .inr (.inr (Binds.of_room h hnone (by simpa using hw) hroom))

end Bind

lemma lookup_bound_commit : (b.commit uid).bound.lookup other =
    if other = uid then (b.bound.lookup uid).map ({ · with pending := false }) else b.bound.lookup other := by
  unfold commit
  split
  next binding hb =>
    simp [lookup_insert_ite, hb]
  rename_i hb
  rw [hb]
  split
  next he =>
    rw [he, hb, Option.map_none]
  · rfl

lemma hostOf_commit : (b.commit uid).hostOf = b.hostOf := by
  funext other
  unfold hostOf
  rw [lookup_bound_commit]
  split
  next he =>
    rw [he, Option.map_map]
    rfl
  · rfl

@[simp] lemma commit_frame : (b.commit uid).hosts = b.hosts ∧ (b.commit uid).ends = b.ends ∧
    (b.commit uid).moving = b.moving ∧ (b.commit uid).tick = b.tick := by
  unfold commit
  split <;> exact ⟨rfl, rfl, rfl, rfl⟩

/-! ### All of it -/

structure Indexed (b : Bindings) : Prop extends HostIndex b where
  ends_owned : ∀ host, (b.ends.lookup host).isSome → ∃ uid, b.hostOf uid = some host
  moving_ends : ∀ host, (b.moving.lookup host).isSome → (b.ends.lookup host).isSome
  moving_later : ∀ host held fin, b.moving.lookup host = some (some held) → b.ends.lookup host = some fin →
    held.notAfter < fin.notAfter

lemma indexed_empty : empty.Indexed where
  toHostIndex := hostIndex_empty
  ends_owned host h := by simp [empty] at h
  moving_ends host h := by simp [empty] at h
  moving_later host held fin h := by simp [empty] at h

section Indexed

variable {b uid host fin} {b' : Bindings} {outcome : Outcome} {idle : InstanceUid → Bool}

structure EndMoved (b : Bindings) (host : String) (fin : End) (b' : Bindings) : Prop where
  ends : ∀ name, b'.ends.lookup name = if name = host ∧ b.Moves host fin then some fin else b.ends.lookup name
  moving : ∀ name, b'.moving.lookup name =
    if name = host ∧ b.Moves host fin then some (b.ends.lookup host) else b.moving.lookup name

/-- An operation over, for each host, its move, or leaves it as it was, or starts one to a later end. -/
private lemma Indexed.of_moves (h : b.Indexed) (hindex : b'.HostIndex)
    (howned : ∀ name, (b'.ends.lookup name).isSome → ∃ uid, b'.hostOf uid = some name)
    (hmoves : ∀ name, b'.moving.lookup name = none ∨
      b'.moving.lookup name = b.moving.lookup name ∧ b'.ends.lookup name = b.ends.lookup name ∨
      ∃ fin, b.Moves name fin ∧ b'.moving.lookup name = some (b.ends.lookup name) ∧ b'.ends.lookup name = some fin) :
    b'.Indexed := by
  refine ⟨hindex, howned, fun name hm => ?_, fun name held fin hm he => ?_⟩
  · rcases hmoves name with hnone | ⟨hmoving, hends⟩ | ⟨fin, -, -, hends⟩
    · simp [hnone] at hm
    · rw [hmoving] at hm
      rw [hends]
      exact h.moving_ends name hm
    · rw [hends]
      rfl
  · rcases hmoves name with hnone | ⟨hmoving, hends⟩ | ⟨fin', hlater, hmoving, hends⟩
    · simp [hnone] at hm
    · exact h.moving_later name held fin (hmoving ▸ hm) (hends ▸ he)
    · rw [hends] at he
      cases he
      unfold Moves at hlater
      rw [Option.some.inj (hmoving.symm.trans hm)] at hlater
      simpa using hlater

private lemma Indexed.of_report (h : b.Indexed) (hindex : b'.HostIndex)
    (howned : ∀ name, (b'.ends.lookup name).isSome → ∃ uid, b'.hostOf uid = some name)
    (hmoved : b.EndMoved host fin b') : b'.Indexed := by
  refine h.of_moves hindex howned fun name => .inr ?_
  rw [hmoved.ends, hmoved.moving]
  split
  next hmoves =>
    obtain ⟨rfl, hmoves⟩ := hmoves
    exact .inr ⟨fin, hmoves, rfl, rfl⟩
  · exact .inl ⟨rfl, rfl⟩

/-- A report that moves an end finds no other move of it under way. -/
lemma Indexed.not_moving (h : b.Indexed) (hw : b.waitsForEnd host fin = false) (hmoves : b.Moves host fin) :
    b.moving.lookup host = none := by
  cases hm : b.moving.lookup host with
  | none => rfl
  | some held =>
    exfalso
    obtain ⟨kept, hkept⟩ := Option.isSome_iff_exists.mp (h.moving_ends host (by simp [hm]))
    unfold waitsForEnd at hw
    unfold Moves at hmoves
    cases held with
    | none => simp [hm] at hw
    | some held =>
      have hlater := h.moving_later host held kept hm hkept
      simp only [hm, Option.any_some, Option.all_some, decide_eq_false_iff_not, not_lt] at hw
      simp only [hkept, Option.any_some, decide_eq_false_iff_not, not_le] at hmoves
      omega

lemma Indexed.idles (h : b.Indexed) (hi : b.Idles uid host b' outcome) : b'.Indexed := by
  obtain ⟨tick, -, rfl⟩ := hi.eq
  exact ⟨h.toHostIndex.congr rfl rfl, h.ends_owned, h.moving_ends, h.moving_later⟩

lemma Refreshes.hostOf_eq (hr : b.Refreshes uid host fin b' outcome) : b'.hostOf = b.hostOf := by
  funext other
  unfold hostOf
  rw [hr.bound]
  split
  next he =>
    rw [he, Option.map_map]
    rfl
  · rfl

section

variable (h : b.Indexed)
include h

/-- A refresh keeps the indexes. -/
lemma Indexed.refreshes (hr : b.Refreshes uid host fin b' outcome) : b'.Indexed := by
  refine h.of_report (h.toHostIndex.congr hr.hostOf_eq hr.hosts) (fun name hn => ?_) ⟨hr.ends, hr.moving⟩
  rw [hr.hostOf_eq]
  rw [hr.ends] at hn
  split at hn
  next hname =>
    have hheld := hr.held
    obtain ⟨binding, hb, hp⟩ := (Option.any_eq_true _ _).mp hheld
    simp only [Bool.and_eq_true, beq_iff_eq] at hp
    exact ⟨uid, by simp [hostOf, hb, hp.1, hname.1]⟩
  · exact h.ends_owned name hn

/-- A new binding keeps the indexes. -/
lemma Indexed.binds (hb : b.Binds uid host fin idle b' outcome) : b'.Indexed := by
  refine h.of_report hb.index (fun name hn => ?_) ⟨hb.ends, hb.moving⟩
  by_cases hname : name = host
  · refine ⟨uid, ?_⟩
    rw [hostOf, hb.bound, if_pos rfl, hname]
    rfl
  rw [hb.ends, if_neg (fun hc => hname hc.1)] at hn
  obtain ⟨v, hv⟩ := h.ends_owned name hn
  -- neither the new binding nor the one that gave way is of another host
  have huid : v ≠ uid := by
    rintro rfl
    simp [hostOf, hb.unbound] at hv
  have hkept : v ∉ outcome.evicted := by
    intro hmem
    obtain ⟨binding, hl, hh, -⟩ := hb.evicted v hmem
    simp only [hostOf, hl, Option.map_some, Option.some.injEq] at hv
    exact hname (hv.symm.trans hh)
  exact ⟨v, by rwa [hostOf, hb.bound, if_neg huid, if_neg hkept]⟩

lemma Indexed.commit (uid : InstanceUid) : (b.commit uid).Indexed where
  toHostIndex := h.toHostIndex.congr (hostOf_commit b uid) (commit_frame b uid).1
  ends_owned := by simpa [hostOf_commit] using h.ends_owned
  moving_ends := by simpa using h.moving_ends
  moving_later := by simpa using h.moving_later

lemma Indexed.unbind (uid : InstanceUid) : (b.unbind uid false).Indexed := by
  refine h.of_moves (h.toHostIndex.unbind uid false) (fun name hn => ?_) fun name => ?_
  · rcases h.ends_unbind uid false name with ⟨hnone, -⟩ | ⟨he, -, hlast⟩
    · simp [hnone] at hn
    rw [he] at hn
    obtain ⟨v, hv⟩ := h.ends_owned name hn
    by_cases hvu : v = uid
    · subst hvu
      simp only [LastOf, true_and, not_and, not_forall] at hlast
      obtain ⟨w, hw, hne⟩ := hlast hv
      exact ⟨w, by rw [hostOf_unbind, if_neg hne, hw]⟩
    · exact ⟨v, by rw [hostOf_unbind, if_neg hvu, hv]⟩
  · rcases h.ends_unbind uid false name with ⟨-, hnone, -⟩ | ⟨he, hmv, -⟩
    · exact .inl hnone
    · exact .inr (.inl ⟨hmv, he⟩)

lemma Indexed.abort (uid : InstanceUid) : (b.abort uid).1.Indexed := by
  unfold Bindings.abort
  split
  · exact h.unbind uid
  · exact h

lemma Indexed.endAll (now : Int) (revoked : Option (End → Bool)) : (b.endAll now revoked).1.Indexed := by
  refine h.of_moves (h.toHostIndex.endAll now revoked) (fun name hn => ?_) fun name => ?_
  · rw [lookup_ends_endAll] at hn
    split at hn
    · cases hn
    rename_i hkept
    obtain ⟨v, hv⟩ := h.ends_owned name hn
    have hstays : ¬b.EndsWith now revoked v := by
      rintro ⟨host, hmem, hh⟩
      rw [hv] at hh
      exact hkept (Option.some.inj hh ▸ hmem)
    exact ⟨v, by rwa [hostOf, h.lookup_bound_endAll, if_neg hstays]⟩
  · rw [lookup_moving_endAll, lookup_ends_endAll]
    split
    · exact .inl rfl
    · exact .inr (.inl ⟨rfl, rfl⟩)

lemma Indexed.compacted (hosts : List String) (written : Bool) : (b.compacted hosts written).Indexed := by
  have hhost := hostOf_compacted b written hosts
  refine h.of_moves (h.toHostIndex.congr hhost (compacted_frame b written hosts).2.1) (fun name hn => ?_) fun name => ?_
  · rw [hhost]
    rw [lookup_ends_compacted] at hn
    split at hn
    · cases hm : b.moving.lookup name with
      | none => exact h.ends_owned name (by simpa [hm] using hn)
      | some held => exact h.ends_owned name (h.moving_ends name (by simp [hm]))
    · exact h.ends_owned name hn
  · rw [lookup_moving_compacted]
    split
    · exact .inl rfl
    next hname =>
      exact .inr (.inl ⟨rfl, by rw [lookup_ends_compacted, if_neg (fun hc => hname hc.1)]⟩)

end

end Indexed

end OpampFleet.Gateway.Bindings
