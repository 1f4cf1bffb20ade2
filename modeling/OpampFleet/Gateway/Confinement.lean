import OpampFleet.Gateway.Loadable
import OpampFleet.Gateway.Registry

/-!
# Routes and offers stay with the host that is bound

A route made by a bind and an offer on record are both of an `instance_uid` that is bound to the host and relied on. A
binding that has either is not idle, so no report makes room by it, and the end of a certificate takes its routes and
offers with it. A reply whose route is taken out is handed over later, and its binding may have gone by then
(`replies_confined`, `reply_handed_to_former_host`).
-/

namespace OpampFleet.Gateway

open Lib Opamp List Option Map

/-! ### What each step keeps relied on -/

variable {revoked : Option (End → Bool)} {id : BindId}

namespace Bindings

variable {b b' : Bindings} {uid v : InstanceUid} {host name : String} {fin : End} {idle : InstanceUid → Bool}
  {outcome : Outcome}

private lemma holds_iff : b.holds uid host = true ↔
    ∃ binding, b.bound.lookup uid = some binding ∧ binding.host = host ∧ binding.pending = false := by
  unfold holds
  rw [Option.any_eq_true]
  simp

private lemma reliedHost_of_holds (h : b.holds uid host = true) : b.reliedHost uid = some host := by
  obtain ⟨binding, hb, hh, hp⟩ := holds_iff.mp h
  simp [reliedHost, hb, hp, hh]

private lemma holds_of_bound (hbound : b'.bound = b.bound) : b'.holds v name = b.holds v name := by
  unfold holds
  rw [hbound]

private lemma holds_commit (h : b.holds v name = true) : (b.commit uid).holds v name = true := by
  obtain ⟨binding, hb, hh, hp⟩ := holds_iff.mp h
  rw [holds_iff, lookup_bound_commit]
  by_cases hv : v = uid
  · subst hv
    exact ⟨{ binding with pending := false }, by simp [hb], hh, rfl⟩
  · exact ⟨binding, by rw [if_neg hv, hb], hh, hp⟩

private lemma holds_unbind_pending {binding : Binding} (hheld : b.bound.lookup uid = some binding)
    (hpending : binding.pending = true) (keepEnd : Bool) (h : b.holds v name = true) :
    (b.unbind uid keepEnd).holds v name = true := by
  obtain ⟨relied, hb, hh, hp⟩ := holds_iff.mp h
  have hv : v ≠ uid := by
    rintro rfl
    rw [hheld] at hb
    cases hb
    simp [hpending] at hp
  rw [holds_iff, lookup_bound_unbind, if_neg hv]
  exact ⟨relied, hb, hh, hp⟩

private lemma holds_abort (h : b.holds v name = true) : (b.abort uid).1.holds v name = true := by
  unfold abort
  split
  next hp =>
    obtain ⟨binding, hb, hpending⟩ := (Option.any_eq_true _ _).mp hp
    exact holds_unbind_pending hb hpending false h
  · exact h

private lemma Refreshes.holds (hr : b.Refreshes uid host fin b' outcome) (h : b.holds v name = true) :
    b'.holds v name = true := by
  obtain ⟨binding, hb, hh, hp⟩ := holds_iff.mp h
  rw [holds_iff, hr.bound]
  by_cases hv : v = uid
  · subst hv
    exact ⟨{ binding with reported := b.tick + 1 }, by simp [hb], hh, hp⟩
  · exact ⟨binding, by rw [if_neg hv, hb], hh, hp⟩

private lemma Binds.holds (hb : b.Binds uid host fin idle b' outcome) (hidle : idle v = false)
    (h : b.holds v name = true) : b'.holds v name = true := by
  obtain ⟨binding, hv, hh, hp⟩ := holds_iff.mp h
  have hne : v ≠ uid := ne_of_lookup hv hb.unbound
  have hkept : v ∉ outcome.evicted := by
    intro hmem
    obtain ⟨-, -, -, -, hi⟩ := hb.evicted v hmem
    simp [hidle] at hi
  rw [holds_iff, hb.bound, if_neg hne, if_neg hkept]
  exact ⟨binding, hv, hh, hp⟩

private lemma HostIndex.holds_endAll (hindex : b.HostIndex) {now : Int}
    (hkept : ¬b.EndsWith now revoked v) (h : b.holds v name = true) : (b.endAll now revoked).1.holds v name = true := by
  rw [holds_iff, hindex.lookup_bound_endAll, if_neg hkept]
  exact holds_iff.mp h

end Bindings

namespace Cache

variable {cache cache' : Cache} {uid v : InstanceUid} {host name : String} {fin : End} {idle : InstanceUid → Bool}

open Bindings

private lemma Begins.holds (h : Begins cache uid host fin idle cache') (hidle : idle v = false)
    (hv : cache.bindings.holds v name = true) : cache'.bindings.holds v name = true := by
  cases h with
  | idles h =>
    obtain ⟨tick, -, rfl⟩ := h.eq
    exact hv
  | keeps h stays | moves h moved => exact h.holds hv
  | binds h => exact h.holds hidle hv
  | long h =>
    refine holds_abort ?_
    rw [endsWritten_eq, holds_of_bound (compacted_frame _ _ _).1]
    exact h.elim (fun h => h.holds hv) fun h => h.holds hidle hv

private lemma Finishes.holds (h : Finishes cache id cache') (hv : cache.bindings.holds v name = true) :
    cache'.bindings.holds v name = true := by
  cases h with
  | commits h written => exact holds_commit hv
  | drops h written => exact hv
  | aborts h written held pending => exact holds_unbind_pending held pending false hv

private lemma holds_of_finishBind (h : cache.finishBind id = some (cache', true)) :
    ∃ bind, cache.binds.lookup id = some bind ∧ cache'.bindings.holds bind.uid bind.host = true := by
  unfold finishBind at h
  split at h
  next uid host made written hbind =>
    refine ⟨_, hbind, ?_⟩
    cases written with
    | true =>
      simp only [if_true, some.injEq, Prod.mk.injEq] at h
      rw [← h.1]
      exact h.2
    | false => simp at h
  · cases h

structure Stays (cache cache' : Cache) : Prop where
  bound : cache'.bindings.bound = cache.bindings.bound
  binds : ∀ id bind, cache'.binds.lookup id = some bind →
    ∃ before, cache.binds.lookup id = some before ∧ bind.uid = before.uid ∧ bind.host = before.host

private lemma stays_of_binds (hbound : cache'.bindings.bound = cache.bindings.bound)
    (hbinds : cache'.binds = cache.binds) : cache.Stays cache' :=
  ⟨hbound, fun _ bind hb => ⟨bind, hbinds ▸ hb, rfl, rfl⟩⟩

private lemma stays_settled (waiting : List Waiter) (hosts : List String) (written : Bool) (phase : Phase) :
    cache.Stays (cache.settled waiting hosts written phase) := by
  refine ⟨(compacted_frame _ _ _).1, fun id bind hb => ?_⟩
  simp only [settled, tell, lookup_mapValues, map_eq_some_iff] at hb
  obtain ⟨before, hbefore, rfl⟩ := hb
  refine ⟨before, hbefore, ?_⟩
  split <;> exact ⟨rfl, rfl⟩

private lemma Writes.stays {act : Act} (h : Writes cache act cache') (hact : ∀ now io, act ≠ .restart now io) :
    cache.Stays cache' := by
  cases h with
  | flush | append | copyRefused | copyGrown | rewrite | grown | measure => exact stays_of_binds rfl rfl
  | unopened | settle | settleRewrite => exact stays_settled _ _ _ _
  | opened | closed => exact absurd rfl (hact _ _)

private lemma stays_of_store {limits : Limits} {act : Registry.Act} {store : Act} (hact : act.ofStore = some store)
    (h : cache.step limits store = some cache') : cache.Stays cache' := by
  cases act <;> simp only [Registry.Act.ofStore, some.injEq, reduceCtorEq] at hact <;> subst hact
  case takeReports =>
    cases h
    exact stays_of_binds rfl rfl
  case queueReports =>
    change cache.queueReports = some cache' at h
    unfold queueReports at h
    split at h
    · cases h
    · cases h
      exact stays_of_binds rfl rfl
  case flush => exact (writes_flush h).stays (by simp)
  case append io => exact (writes_append h).stays (by simp)
  case settle => exact (writes_settle h).stays (by simp)
  case copy => exact (writes_copy h).stays (by simp)
  case rewrite io => exact (writes_rewrite h).stays (by simp)
  case settleRewrite => exact (writes_settleRewrite h).stays (by simp)
  case measure => exact (writes_measure h).stays (by simp)

private lemma mem_endCertificates (hindex : cache.bindings.HostIndex) (now : Int) (revoked : Option (End → Bool)) :
    v ∈ (cache.endCertificates now revoked).2 ↔ cache.bindings.EndsWith now revoked v := by
  rw [← hindex.mem_endAll]
  unfold endCertificates
  simp only
  split
  next hempty =>
    rw [List.isEmpty_iff.mp hempty]
    rfl
  · rfl

private lemma holds_endCertificates (hindex : cache.bindings.HostIndex) {now : Int}
    (hkept : ¬cache.bindings.EndsWith now revoked v) (hv : cache.bindings.holds v name = true) :
    (cache.endCertificates now revoked).1.bindings.holds v name = true := by
  unfold endCertificates
  simp only
  split
  · exact hv
  · exact hindex.holds_endAll hkept hv

private lemma endCertificates_binds (now : Int) (revoked : Option (End → Bool)) :
    (cache.endCertificates now revoked).1.binds = cache.binds := by
  unfold endCertificates
  simp only
  split <;> rfl

inductive Registers (cache cache' : Cache) (uid : InstanceUid) (host : String) : Begun → Prop
  | goesOn {begun : Begun} {made : Option Nat} {answer : Option Bool}
      (begun_eq : begun = .bound cache.nextBind ∨ begun = .writing cache.nextBind)
      (binds : cache'.binds = cache.binds.insert cache.nextBind ⟨uid, host, made, answer⟩) :
      Registers cache cache' uid host begun
  | stops {begun : Begun} (begun_eq : begun = .refused ∨ begun = .waiting) (binds : cache'.binds = cache.binds) :
      Registers cache cache' uid host begun

private lemma registers_beginBind (cache : Cache) (limits : Limits) (uid : InstanceUid) (host : String)
    (fin : End) (now : Int)
    (idle : InstanceUid → Bool) : Registers cache (cache.beginBind limits uid host fin now idle).1 uid host
      (cache.beginBind limits uid host fin now idle).2.1 := by
  unfold beginBind
  simp only
  split
  · exact .stops (.inr rfl) rfl
  · exact .stops (.inl rfl) rfl
  · split
    · exact .stops (.inl rfl) rfl
    split
    · exact .goesOn (.inl rfl) rfl
    · split
      · exact .stops (.inl rfl) rfl
      · exact .goesOn (.inr rfl) rfl

end Cache

/-! ### Offers -/

namespace Offers

variable {o : Offers} {uid v : InstanceUid} {host name : String}

def of (o : Offers) (host : String) : List InstanceUid := (o.byHost.lookup host).getD []

private lemma mem_of_drop : v ∈ (o.drop uid host).of name ↔ v ∈ o.of name ∧ ¬(name = host ∧ v = uid) := by
  unfold drop of
  cases hl : o.byHost.lookup host with
  | none =>
    by_cases hname : name = host
    · subst hname
      simp [hl]
    · simp [hname]
  | some offered =>
    simp only
    by_cases hname : name = host
    · subst hname
      split
      next hempty =>
        simp only [List.isEmpty_iff, filter_eq_nil_iff, ne_eq, decide_not, Bool.not_eq_eq_eq_not, Bool.not_true,
          decide_eq_false_iff_not, not_not] at hempty
        simp only [AList.lookup_erase, getD_none, not_mem_nil, hl, getD_some, true_and, false_iff,
          not_and, not_not]
        exact hempty v
      · simp [hl]
    · split
      · rw [lookup_erase_ite, if_neg hname]
        simp [hname]
      · rw [lookup_insert_ite, if_neg hname]
        simp [hname]

private lemma lookup_offers_drop : (o.drop uid host).offers.lookup v = if v = uid then none else o.offers.lookup v :=
  lookup_erase_ite _ _ _

def Held (o : Offers) (b : Bindings) : Prop :=
  ∀ host uid, uid ∈ o.of host → (o.offers.lookup uid).isSome ∧ b.holds uid host = true

variable {b : Bindings}

private lemma Held.mono {b' : Bindings} (h : o.Held b)
    (hkept : ∀ uid host, (o.offers.lookup uid).isSome → b.holds uid host = true → b'.holds uid host = true) :
    o.Held b' := by
  intro host uid hmem
  obtain ⟨hsome, hholds⟩ := h host uid hmem
  exact ⟨hsome, hkept uid host hsome hholds⟩

private lemma Held.host_eq (h : o.Held b) (hmem : uid ∈ o.of host) (hhost : b.hostOf uid = some name) :
    host = name := by
  obtain ⟨binding, hb, hh, -⟩ := Bindings.holds_iff.mp (h host uid hmem).2
  rw [Bindings.hostOf, hb, map_some, hh] at hhost
  exact Option.some.inj hhost

private lemma Held.drop (h : o.Held b) (hhost : ∀ name, uid ∈ o.of name → name = host) : (o.drop uid host).Held b := by
  intro name v hmem
  obtain ⟨hold, hnot⟩ := mem_of_drop.mp hmem
  have hv : v ≠ uid := by
    rintro rfl
    exact hnot ⟨hhost name hold, rfl⟩
  rw [lookup_offers_drop, if_neg hv]
  exact h name v hold

private lemma Held.record (h : o.Held b) (hholds : b.holds uid host = true) (artifacts : List Artifact) :
    (o.record uid host artifacts).Held b := by
  have hhost : b.hostOf uid = some host := by
    obtain ⟨binding, hb, hh, -⟩ := Bindings.holds_iff.mp hholds
    rw [Bindings.hostOf, hb, map_some, hh]
  unfold Offers.record
  split
  · exact h.drop fun name hmem => h.host_eq hmem hhost
  intro name v hmem
  simp only [of, lookup_insert_ite] at hmem ⊢
  by_cases hv : v = uid
  · subst hv
    refine ⟨by simp, ?_⟩
    by_cases hname : name = host
    · rwa [hname]
    · rw [if_neg hname] at hmem
      exact (h name v hmem).2
  · rw [if_neg hv]
    by_cases hname : name = host
    · subst hname
      rw [if_pos rfl, getD_some, mem_insert_iff] at hmem
      exact h name v (hmem.resolve_left hv)
    · rw [if_neg hname] at hmem
      exact h name v hmem

def dropEach (o : Offers) (held : List (InstanceUid × String)) : Offers := held.foldl (fun o e => o.drop e.1 e.2) o

private lemma lookup_offers_dropEach (held : List (InstanceUid × String)) (o : Offers) :
    (o.dropEach held).offers.lookup v = if v ∈ held.map Prod.fst then none else o.offers.lookup v := by
  unfold dropEach
  induction held generalizing o with
  | nil => simp
  | cons e held ih =>
    rw [foldl_cons, ih, lookup_offers_drop]
    simp only [map_cons, mem_cons]
    by_cases hv : v = e.1
    · rw [if_pos hv, ite_self, if_pos (Or.inl hv)]
    · rw [if_neg hv]
      exact if_congr (by simp [hv]) rfl rfl

private lemma mem_of_dropEach (held : List (InstanceUid × String)) (o : Offers) :
    v ∈ (o.dropEach held).of name ↔ v ∈ o.of name ∧ (v, name) ∉ held := by
  unfold dropEach
  induction held generalizing o with
  | nil => simp
  | cons e held ih =>
    rw [foldl_cons, ih, mem_of_drop, mem_cons, not_or, and_assoc]
    refine and_congr_right fun _ => and_congr_left fun _ => ?_
    rw [Prod.ext_iff, and_comm]

private lemma mem_flatten_of_offeredTo {path : String} {artifact : Artifact}
    (h : o.offeredTo host path = some artifact) :
    artifact.path = path ∧ ∃ uid ∈ o.of host, ∃ artifacts, o.offers.lookup uid = some artifacts ∧
      artifact ∈ artifacts := by
  obtain ⟨uids, huids, hfind⟩ := bind_eq_some_iff.mp h
  have hpath := find?_some hfind
  obtain ⟨artifacts, hmem, hin⟩ := mem_flatten.mp (mem_of_find?_eq_some hfind)
  obtain ⟨uid, huid, hlookup⟩ := mem_filterMap.mp hmem
  exact ⟨of_decide_eq_true hpath, uid, by simpa [of, huids] using huid, artifacts, hlookup, hin⟩

end Offers

/-! ### The registry -/

namespace Registry

variable {peers : Conn → Peer} {limits : Limits} {r : Registry}

structure Calls (peers : Conn → Peer) (cache : Cache) (calls : Map BindId Call) : Prop where
  same : ∀ id call bind, calls.lookup id = some call → cache.binds.lookup id = some bind →
    bind.uid = call.uid ∧ bind.host = (peers call.downstream.conn).speaker

def Routed (peers : Conn → Peer) (routes : Map InstanceUid Route) (b : Bindings) : Prop :=
  ∀ uid route, routes.lookup uid = some route → route.enrolling = false →
    b.holds uid (peers route.downstream.conn).speaker = true

structure Confined (peers : Conn → Peer) (r : Registry) : Prop where
  tidy : r.cache.Tidy
  calls : Calls peers r.cache r.calls
  routed : Routed peers r.routes r.cache.bindings
  offered : r.offers.Held r.cache.bindings
  recorded : ∀ uid artifacts, r.offers.offers.lookup uid = some artifacts → r.recorded.lookup uid = some artifacts
  taken : ∀ reply ∈ r.replies,
    reply.enrolling = true ∨ reply.boundTo = some (peers reply.downstream.conn).speaker

private lemma Routed.mono {routes routes' : Map InstanceUid Route} {b b' : Bindings} (h : Routed peers routes b)
    (hroutes : ∀ uid route, routes'.lookup uid = some route → routes.lookup uid = some route)
    (hkept : ∀ uid host, (routes'.lookup uid).isSome → b.holds uid host = true → b'.holds uid host = true) :
    Routed peers routes' b' := by
  intro uid route hr he
  exact hkept uid _ (by rw [hr]; rfl) (h uid route (hroutes uid route hr) he)

variable {cache : Cache} {r' : Registry} {uid v : InstanceUid} {route : Route} {act : Act} {calls : Map BindId Call}

private lemma Calls.stays {cache' : Cache} (h : Calls peers cache calls)
    (hs : cache.Stays cache') : Calls peers cache' calls where
  same id call bind hc hb := by
    obtain ⟨before, hbefore, huid, hhost⟩ := hs.binds id bind hb
    rw [huid, hhost]
    exact h.same id call before hc hbefore

private lemma Calls.erase (h : Calls peers cache calls) (id : BindId) : Calls peers cache (calls.erase id) where
  same other call bind hc hb := h.same other call bind (lookup_of_erase hc) hb

private lemma confined_started (h : cache.Tidy) : (started cache).Confined peers where
  tidy := h
  calls := ⟨by simp [started]⟩
  routed := by simp [Routed, started]
  offered := by simp [Offers.Held, Offers.of, started, Offers.empty]
  recorded := by simp [started, Offers.empty]
  taken := by simp [started]

/-! What a bind's first half does to each part. -/

section BeginBind

variable (call : Call) (now : Int)

variable (peers limits r) in
private lemma beginBind_eq : ∃ calls asking, r.beginBind peers limits call now = { r with
      cache := (r.cache.beginBind limits call.uid (peers call.downstream.conn).speaker (peers call.downstream.conn).fin
        now r.idle).1
      calls := calls
      asking := asking } := by
  unfold beginBind
  simp only
  split <;> (rename_i heq; rw [heq]; exact ⟨_, _, rfl⟩)

private lemma beginBind_routes : (r.beginBind peers limits call now).routes = r.routes := by
  obtain ⟨calls, asking, heq⟩ := beginBind_eq peers limits r call now
  rw [heq]

private lemma Calls.beginBind (h : Calls peers r.cache r.calls) :
    Calls peers (r.beginBind peers limits call now).cache (r.beginBind peers limits call now).calls := by
  have hreg := Cache.registers_beginBind r.cache limits call.uid (peers call.downstream.conn).speaker
    (peers call.downstream.conn).fin now r.idle
  have hstops : ∀ cache' : Cache, cache'.binds = r.cache.binds → Calls peers cache' r.calls := fun cache' hbinds =>
    ⟨fun id call bind hc hb => h.same id call bind hc (hbinds ▸ hb)⟩
  have hgoesOn : ∀ (cache' : Cache) (made : Option Nat) (answer : Option Bool),
      cache'.binds = r.cache.binds.insert r.cache.nextBind
        ⟨call.uid, (peers call.downstream.conn).speaker, made, answer⟩ →
      Calls peers cache' (r.calls.insert r.cache.nextBind call) := by
    intro cache' made answer hbinds
    refine ⟨fun id other bind hc hb => ?_⟩
    rw [hbinds, lookup_insert_ite] at hb
    rw [lookup_insert_ite] at hc
    split at hc
    next hid =>
      rw [if_pos hid] at hb
      cases hc
      cases hb
      exact ⟨rfl, rfl⟩
    next hid =>
      rw [if_neg hid] at hb
      exact h.same id other bind hc hb
  unfold Registry.beginBind
  simp only
  generalize r.cache.beginBind limits call.uid (peers call.downstream.conn).speaker
    (peers call.downstream.conn).fin now r.idle = result at hreg
  obtain ⟨cache', begun, evicted⟩ := result
  simp only at hreg ⊢
  cases hreg with
  | goesOn hbegun hbinds =>
    rcases hbegun with rfl | rfl <;> exact hgoesOn cache' _ _ hbinds
  | stops hbegun hbinds =>
    rcases hbegun with rfl | rfl <;> exact hstops cache' hbinds

private lemma Confined.beginBind (h : r.Confined peers) : (r.beginBind peers limits call now).Confined peers := by
  have hbegins := Cache.begins_beginBind h.tidy.indexed.toHostIndex limits call.uid (peers call.downstream.conn).speaker
    (peers call.downstream.conn).fin now r.idle
  obtain ⟨added, hqueues⟩ := hbegins.queues h.tidy.indexed
  have hcalls : Calls peers (r.beginBind peers limits call now).cache _ := h.calls.beginBind call now
  obtain ⟨calls, asking, heq⟩ := beginBind_eq peers limits r call now
  rw [heq] at hcalls ⊢
  refine ⟨h.tidy.queues hqueues, hcalls, ?_, ?_, h.recorded, h.taken⟩
  · refine h.routed.mono (fun _ _ hr => hr) fun uid host hsome hholds => hbegins.holds ?_ hholds
    rw [idle, isNone_eq_false_iff.mpr hsome, Bool.false_and]
  · refine h.offered.mono fun uid host hsome hholds => hbegins.holds ?_ hholds
    rw [idle, isNone_eq_false_iff.mpr hsome, Bool.and_false]

end BeginBind

private lemma Confined.finishBind (h : r.Confined peers)
    (hfinish : r.finishBind peers id = some r') : r'.Confined peers := by
  unfold Registry.finishBind at hfinish
  split at hfinish
  next call cache' bound hcall hcache =>
    cases hfinish
    have hf := Cache.finishes_finishBind hcache
    obtain ⟨added, hqueues⟩ := hf.queues h.tidy.indexed
    have hholds : ∀ uid host, r.cache.bindings.holds uid host = true → cache'.bindings.holds uid host = true :=
      fun uid host hv => hf.holds hv
    have hoffered : r.offers.Held cache'.bindings := h.offered.mono fun uid host _ hv => hholds uid host hv
    have hcalls : Calls peers cache' r.calls := by
      have hbinds : cache'.binds = r.cache.binds.erase id := by cases hf <;> rfl
      refine ⟨fun other c bind hc hb => ?_⟩
      rw [hbinds] at hb
      exact h.calls.same other c bind hc (lookup_of_erase hb)
    refine ⟨h.tidy.queues hqueues, hcalls.erase id, ?_, ?_, ?_, h.taken⟩
    · cases bound with
      | false => exact h.routed.mono (fun _ _ hr => hr) fun uid host _ hv => hholds uid host hv
      | true =>
        obtain ⟨bind, hbind, hbound⟩ := Cache.holds_of_finishBind hcache
        obtain ⟨huid, hhost⟩ := h.calls.same id call bind hcall hbind
        intro uid route hr he
        simp only [if_true] at hr
        rcases lookup_of_insert hr with ⟨hu, rfl⟩ | hr
        · rwa [hu, ← huid, ← hhost]
        · exact hholds uid _ (h.routed uid route hr he)
    · split
      next haborts =>
        obtain ⟨bind, hbind, hp⟩ := (Option.any_eq_true _ _).mp haborts
        simp only [Bool.and_eq_true] at hp
        obtain ⟨binding, hb, hpending⟩ := (Option.any_eq_true _ _).mp hp.2
        refine hoffered.drop fun name hmem => ?_
        -- an Agent with an offer is relied on, and this one is not
        obtain ⟨relied, hrelied, -, hnot⟩ := Bindings.holds_iff.mp (h.offered name call.uid hmem).2
        rw [← (h.calls.same id call bind hcall hbind).1, hb] at hrelied
        cases hrelied
        simp [hpending] at hnot
      · exact hoffered
    · split
      · exact fun uid artifacts ho => h.recorded uid artifacts (lookup_of_erase ho)
      · exact h.recorded
  · cases hfinish

private lemma Confined.routes {routes : Map InstanceUid Route} (h : r.Confined peers)
    (hroutes : ∀ uid route, routes.lookup uid = some route → r.routes.lookup uid = some route) :
    ({ r with routes := routes } : Registry).Confined peers :=
  { h with routed := h.routed.mono hroutes fun _ _ _ hv => hv }

private lemma lookup_of_detach {conn : Conn} {routes : Map InstanceUid Route}
    (h : (detach conn routes uid).lookup v = some route) : routes.lookup v = some route := by
  unfold detach at h
  split at h
  · split at h
    · exact lookup_of_erase h
    · exact h
  · exact h

private lemma lookup_of_detachAll {conn : Conn} (uids : List InstanceUid) {routes : Map InstanceUid Route}
    (h : (uids.foldl (detach conn) routes).lookup v = some route) : routes.lookup v = some route := by
  induction uids generalizing routes with
  | nil => exact h
  | cons uid uids ih => exact lookup_of_detach (ih h)

private lemma abandon_eq (r : Registry) (uid : InstanceUid) (number : Nat) :
    r.abandon uid number = r ∨ r.abandon uid number = { r with routes := r.routes.erase uid } := by
  unfold abandon
  split
  · split
    · exact .inr rfl
    · exact .inl rfl
  · exact .inl rfl

private lemma Confined.expectEnrolment (h : r.Confined peers) (conn : Conn) (uid : InstanceUid) :
    (r.expectEnrolment conn uid).Confined peers := by
  unfold Registry.expectEnrolment
  split
  · exact h
  refine { h with routed := fun v route hr he => ?_ }
  simp only [lookup_insert_ite] at hr
  split at hr
  · cases hr
    cases he
  · exact h.routed v route hr he

private lemma mem_held_endAll {b : Bindings} (hindex : b.HostIndex) {now : Int} {host : String} :
    (uid, host) ∈ ((b.endAll now revoked).2.flatMap fun e => e.2.map fun v => (v, e.1)) ↔
      host ∈ b.ended now revoked ∧ b.hostOf uid = some host := by
  rw [← hindex.mem_endAll_host]
  simp only [mem_flatMap, List.mem_map, Prod.mk.injEq, Prod.exists]
  constructor
  · rintro ⟨name, own, hmem, v, hv, rfl, rfl⟩
    exact ⟨own, hmem, hv⟩
  · rintro ⟨own, hmem, hv⟩
    exact ⟨host, own, hmem, uid, hv, rfl, rfl⟩

section

variable (h : r.Confined peers)
include h

private lemma Confined.endCertificates (now : Int) (revoked : Option (End → Bool)) :
    (r.endCertificates now revoked).Confined peers := by
  have hindex := h.tidy.indexed.toHostIndex
  obtain ⟨added, hqueues⟩ := Cache.queues_endCertificates h.tidy.indexed now revoked
  have hbinds := r.cache.endCertificates_binds now revoked
  have hroutes : ∀ uid, (r.endCertificates now revoked).routes.lookup uid =
      if r.cache.bindings.EndsWith now revoked uid then none else r.routes.lookup uid := by
    intro uid
    refine (lookup_foldl_erase (r.cache.endCertificates now revoked).2 r.routes uid).trans ?_
    simp only [Cache.mem_endCertificates hindex]
  have hoffers : (r.endCertificates now revoked).offers = r.offers.dropEach
      ((r.cache.bindings.endAll now revoked).2.flatMap fun e => e.2.map fun uid => (uid, e.1)) := rfl
  refine ⟨h.tidy.queues hqueues, ⟨fun id call bind hc hb => ?_⟩, ?_, ?_, ?_, h.taken⟩
  · exact h.calls.same id call bind hc (hbinds ▸ hb)
  · intro uid route hr he
    rw [hroutes] at hr
    split at hr
    · cases hr
    next hkept =>
      exact Cache.holds_endCertificates hindex hkept (h.routed uid route hr he)
  · intro host uid hmem
    rw [hoffers] at hmem ⊢
    obtain ⟨hold, hnot⟩ := (Offers.mem_of_dropEach _ _).mp hmem
    obtain ⟨hsome, hholds⟩ := h.offered host uid hold
    rw [mem_held_endAll hindex] at hnot
    -- the host it is offered to is the one it is bound to, so an end that takes the one takes the other
    have hkept : ¬r.cache.bindings.EndsWith now revoked uid := by
      rintro ⟨name, hended, hhost⟩
      have heq := h.offered.host_eq hold hhost
      subst heq
      exact hnot ⟨hended, hhost⟩
    refine ⟨?_, Cache.holds_endCertificates hindex hkept hholds⟩
    rw [Offers.lookup_offers_dropEach, if_neg]
    · exact hsome
    intro hin
    obtain ⟨e, he, rfl⟩ := List.mem_map.mp hin
    have hends := (mem_held_endAll hindex).mp he
    exact hkept ⟨e.2, hends.1, hends.2⟩
  · intro uid artifacts ho
    rw [hoffers, Offers.lookup_offers_dropEach] at ho
    split at ho
    · cases ho
    · exact h.recorded uid artifacts ho

/-! What `deliver` does. -/

private lemma Confined.take (uid : InstanceUid) (message : ServerToAgent) : (r.take uid message).Confined peers := by
  unfold Registry.take
  split
  · exact h
  rename_i route hroute
  refine { h with routed := h.routed.mono (fun v other hr => ?_) fun _ _ _ hv => hv, taken := ?_ }
  · split at hr
    · exact lookup_of_erase hr
    · exact hr
  · intro reply hmem
    rcases mem_append.mp hmem with hmem | hmem
    · exact h.taken reply hmem
    · rw [mem_singleton.mp hmem]
      cases he : route.enrolling with
      | true => exact .inl rfl
      | false => exact .inr (Bindings.reliedHost_of_holds (h.routed uid route hroute he))

private lemma Confined.observe (uid : InstanceUid) (host : Option String) (message : ServerToAgent) :
    (r.observe uid host message).Confined peers := by
  unfold Registry.observe
  split
  next packages host' _ _ =>
    split
    next hholds =>
      refine { h with offered := h.offered.record hholds _, recorded := ?_ }
      intro v offer ho
      simp only [Offers.record] at ho ⊢
      split
      next hempty =>
        rw [if_pos hempty] at ho
        exact h.recorded v offer (lookup_of_erase ho)
      rename_i hempty
      rw [if_neg hempty, lookup_insert_ite] at ho
      rw [lookup_insert_ite]
      split at ho
      next hv =>
        rw [if_pos hv, ho]
      next hv =>
        rw [if_neg hv]
        exact h.recorded v offer ho
    · exact h
  · exact h

private lemma Confined.observeReply {n : Nat} (hobserve : r.observeReply n = some r') : r'.Confined peers := by
  unfold Registry.observeReply at hobserve
  split at hobserve
  next reply hreply =>
    split at hobserve
    · cases hobserve
    cases hobserve
    refine { h.observe reply.uid reply.host reply.message with taken := ?_ }
    intro other hmem
    rcases mem_or_eq_of_mem_set hmem with hmem | rfl
    · exact h.taken other hmem
    · exact h.taken reply (mem_of_getElem? hreply)
  · cases hobserve

private lemma Confined.hand {n : Nat} (hhand : r.hand n = some r') : r'.Confined peers := by
  unfold Registry.hand at hhand
  split at hhand
  · split at hhand
    · cases hhand
      exact { h with taken := fun reply hmem => h.taken reply (mem_of_mem_eraseIdx hmem) }
    · cases hhand
  · cases hhand

private lemma Confined.store {store : Gateway.Act} {cache' : Cache}
    (hact : act.ofStore = some store) (hstep : r.cache.step limits store = some cache') :
    ({ r with cache := cache' } : Registry).Confined peers := by
  have hstays := Cache.stays_of_store hact hstep
  have hholds : ∀ uid host, r.cache.bindings.holds uid host = true → cache'.bindings.holds uid host = true := by
    intro uid host hv
    rwa [Bindings.holds_of_bound hstays.bound]
  exact
    { tidy := h.tidy.step hstep
      calls := h.calls.stays hstays
      routed := h.routed.mono (fun _ _ hr => hr) fun uid host _ hv => hholds uid host hv
      offered := h.offered.mono fun uid host _ hv => hholds uid host hv
      recorded := h.recorded
      taken := h.taken }

private lemma Confined.step (hstep : r.step peers limits act = some r') : r'.Confined peers := by
  have hstore : (act.ofStore.bind fun act => (r.cache.step limits act).map fun cache =>
      ({ r with cache := cache } : Registry)) = some r' → r'.Confined peers := by
    intro hs
    obtain ⟨store, hact, hs⟩ := bind_eq_some_iff.mp hs
    obtain ⟨cache', hcache, rfl⟩ := map_eq_some_iff.mp hs
    exact h.store hact hcache
  cases act with
  | attach conn uid now =>
    cases hstep
    exact h.beginBind _ now
  | expectOnce conn uid now =>
    cases hstep
    have hnext : ({ r with exchanges := r.exchanges + 1 } : Registry).Confined peers := { h with }
    exact hnext.beginBind _ now
  | askAgain n now =>
    obtain ⟨call, -, rfl⟩ := map_eq_some_iff.mp hstep
    have hasking : ({ r with asking := r.asking.eraseIdx n } : Registry).Confined peers := { h with }
    exact hasking.beginBind _ now
  | finishBind id => exact h.finishBind hstep
  | expectEnrolment conn uid =>
    cases hstep
    exact h.expectEnrolment conn uid
  | abandon uid number =>
    cases hstep
    rcases r.abandon_eq uid number with heq | heq
    · rwa [heq]
    · rw [heq]
      exact h.routes fun _ _ hr => lookup_of_erase hr
  | detachAll conn uids =>
    cases hstep
    exact h.routes fun _ _ hr => lookup_of_detachAll uids hr
  | endCertificates now revoked =>
    cases hstep
    exact h.endCertificates now revoked
  | take uid message =>
    cases hstep
    exact h.take uid message
  | observe n => exact h.observeReply hstep
  | hand n => exact h.hand hstep
  | restart now io =>
    cases hstep
    exact confined_started (h.tidy.writes_step (Cache.writes_openStore _ now io))
  | _ => exact hstore hstep

end

private lemma confined_of_reach (h : Reach start (step peers limits) r) : r.Confined peers := by
  refine h.invariant (confined_started (Cache.tidy_closed none)) ?_
  intro r act r' hconfined hstep
  exact hconfined.step hstep

/-! ### Replies -/

private lemma enrolling_route_step (hstep : r.step peers limits act = some r') (hr : r'.routes.lookup uid = some route)
    (he : route.enrolling = true) :
    r.routes.lookup uid = some route ∨ r.routes.lookup uid = none ∧ r.cache.bindings.hostOf uid = none := by
  have hstore : (act.ofStore.bind fun act => (r.cache.step limits act).map fun cache =>
      ({ r with cache := cache } : Registry)) = some r' → r.routes.lookup uid = some route := by
    intro hs
    obtain ⟨store, -, hs⟩ := bind_eq_some_iff.mp hs
    obtain ⟨cache', -, rfl⟩ := map_eq_some_iff.mp hs
    exact hr
  cases act with
  | attach conn v now | expectOnce conn v now =>
    cases hstep
    rw [beginBind_routes] at hr
    exact .inl hr
  | askAgain n now =>
    obtain ⟨call, -, rfl⟩ := map_eq_some_iff.mp hstep
    rw [beginBind_routes] at hr
    exact .inl hr
  | finishBind id =>
    change r.finishBind peers id = some r' at hstep
    unfold finishBind at hstep
    split at hstep
    · cases hstep
      simp only at hr
      split at hr
      · rcases lookup_of_insert hr with ⟨-, rfl⟩ | hr
        · cases he
        · exact .inl hr
      · exact .inl hr
    · cases hstep
  | expectEnrolment conn v =>
    cases hstep
    unfold expectEnrolment at hr
    split at hr
    · exact .inl hr
    rename_i hfree
    simp only [Bool.or_eq_true, not_or, Bool.not_eq_true, isSome_eq_false_iff, isNone_iff_eq_none] at hfree
    simp only [lookup_insert_ite] at hr
    split at hr
    next hu =>
      rw [hu]
      exact .inr hfree
    · exact .inl hr
  | abandon v number =>
    cases hstep
    rcases r.abandon_eq v number with heq | heq
    · rw [heq] at hr
      exact .inl hr
    · rw [heq] at hr
      exact .inl (lookup_of_erase hr)
  | detachAll conn uids =>
    cases hstep
    exact .inl (lookup_of_detachAll uids hr)
  | endCertificates now revoked =>
    cases hstep
    have hlookup := lookup_foldl_erase (r.cache.endCertificates now revoked).2 r.routes uid
    change (r.endCertificates now revoked).routes.lookup uid = _ at hlookup
    rw [hlookup] at hr
    split at hr
    · cases hr
    · exact .inl hr
  | take v message =>
    cases hstep
    unfold take at hr
    split at hr
    · exact .inl hr
    · split at hr
      · exact .inl (lookup_of_erase hr)
      · exact .inl hr
  | observe n =>
    change r.observeReply n = some r' at hstep
    unfold observeReply observe at hstep
    split at hstep
    · split at hstep
      · cases hstep
      cases hstep
      split at hr
      · split at hr <;> exact .inl hr
      · exact .inl hr
    · cases hstep
  | hand n =>
    change r.hand n = some r' at hstep
    unfold hand at hstep
    split at hstep
    · split at hstep
      · cases hstep
        exact .inl hr
      · cases hstep
    · cases hstep
  | restart now io =>
    cases hstep
    simp [started] at hr
  | _ => exact .inl (hstore hstep)

/-- Every route of a bind is of the host that is bound and relied on, every route of an enrolling peer was made for an
`instance_uid` without either, and a reply is taken for the host its Agent was bound to then. -/
theorem replies_confined (peers : Conn → Peer) (limits : Limits) {r : Registry}
    (h : Reach start (step peers limits) r) : (∀ uid route, r.routes.lookup uid = some route → route.enrolling = false →
      r.cache.bindings.holds uid (peers route.downstream.conn).speaker = true) ∧
    (∀ act r', r.step peers limits act = some r' → ∀ uid route, r'.routes.lookup uid = some route →
      route.enrolling = true →
      r.routes.lookup uid = some route ∨ r.routes.lookup uid = none ∧ r.cache.bindings.hostOf uid = none) ∧
    ∀ reply ∈ r.replies, reply.enrolling = true ∨ reply.boundTo = some (peers reply.downstream.conn).speaker := by
  have hconfined := confined_of_reach h
  refine ⟨hconfined.routed, ?_, hconfined.taken⟩
  intro act r' hstep uid route hr he
  exact enrolling_route_step hstep hr he

/-! A small Gateway with a connection of the host `a`, whose certificate ends first, and one of the host `b`. -/

def twoHosts : Conn → Peer
  | 0 => ⟨some "a", "", Small.early⟩
  | _ => ⟨some "b", "", Small.late⟩

def attached (conn : Conn) (now : Int) (id : BindId) : List Act :=
  [.attach conn (Small.uid 1) now, .flush, .append .synced, .settle, .measure, .finishBind id]

/-- The host `a` binds an Agent, and a reply for it is taken. -/
theorem replies_confined_attached : ∃ r route reply, Reach start (step twoHosts Small.limits) r ∧
    r.routes.lookup (Small.uid 1) = some route ∧ route.enrolling = false ∧ reply ∈ r.replies ∧
    r.cache.bindings.holds (Small.uid 1) (twoHosts route.downstream.conn).speaker = true ∧
    (reply.enrolling = true ∨ reply.boundTo = some (twoHosts reply.downstream.conn).speaker) := by
  have hrun : ∃ r ∈ run (step twoHosts Small.limits) start
      ([.restart 0 .replaced] ++ attached 0 0 0 ++ [.take (Small.uid 1) ⟨none⟩]),
      (∃ route, r.routes.lookup (Small.uid 1) = some route ∧ route.enrolling = false) ∧ ∃ reply ∈ r.replies, True := by
    decide +kernel
  obtain ⟨r, hreach, ⟨route, hroute, he⟩, reply, hreply, -⟩ := Reach.exists_of_run _ hrun
  obtain ⟨hrouted, -, htaken⟩ := replies_confined twoHosts Small.limits hreach
  exact ⟨r, route, reply, hreach, hroute, he, hreply, hrouted _ route hroute he, htaken reply hreply⟩

/-- The certificate of `a` ends while a reply is on its way, and the Agent is bound to `b` before it is handed over to
the connection of `a`. -/
theorem reply_handed_to_former_host : ∃ r r' reply, Reach start (step twoHosts Small.limits) r ∧
    r.replies[0]? = some reply ∧ r.step twoHosts Small.limits (.hand 0) = some r' ∧ reply.enrolling = false ∧
    (twoHosts reply.downstream.conn).speaker = "a" ∧ r.cache.bindings.holds reply.uid "b" = true := by
  have hrun : ∃ r ∈ run (step twoHosts Small.limits) start ([.restart 0 .replaced] ++ attached 0 0 0 ++
      [.take (Small.uid 1) ⟨none⟩, .endCertificates 6 none] ++ attached 1 6 1 ++ [.observe 0]),
      (∃ reply, r.replies[0]? = some reply ∧ reply.enrolling = false ∧
        (twoHosts reply.downstream.conn).speaker = "a" ∧ r.cache.bindings.holds reply.uid "b" = true) ∧
      (r.step twoHosts Small.limits (.hand 0)).isSome := by
    decide +kernel
  obtain ⟨r, hreach, ⟨reply, hreply, hreported⟩, hhand⟩ := Reach.exists_of_run _ hrun
  obtain ⟨r', hhand⟩ := isSome_iff_exists.mp hhand
  exact ⟨r, r', reply, hreach, hreply, hhand, hreported⟩

/-! ### Offers -/

/-- What a host is offered is in the last offer recorded for an Agent bound to it and relied on. -/
theorem offered_to_bound (peers : Conn → Peer) (limits : Limits) {r : Registry} (h : Reach start (step peers limits) r)
    {host path : String} {artifact : Artifact} (ho : r.offers.offeredTo host path = some artifact) :
    ∃ uid artifacts, r.cache.bindings.holds uid host = true ∧ r.recorded.lookup uid = some artifacts ∧
      artifact ∈ artifacts ∧ artifact.path = path := by
  have hconfined := confined_of_reach h
  obtain ⟨hpath, uid, hmem, artifacts, hlookup, hin⟩ := Offers.mem_flatten_of_offeredTo ho
  exact ⟨uid, artifacts, (hconfined.offered host uid hmem).2, hconfined.recorded uid artifacts hlookup, hin, hpath⟩

def package : DownloadableFile := ⟨"/api/v1/packages/agent/1/file", List.replicate 32 0⟩

/-- An offer relayed to the host `a`. -/
theorem offered_to_bound_relayed : ∃ r artifact, Reach start (step twoHosts Small.limits) r ∧
    r.offers.offeredTo "a" package.downloadUrl = some artifact ∧
    ∃ uid artifacts, r.cache.bindings.holds uid "a" = true ∧ r.recorded.lookup uid = some artifacts ∧
      artifact ∈ artifacts ∧ artifact.path = package.downloadUrl := by
  have hrun : ∃ r ∈ run (step twoHosts Small.limits) start ([.restart 0 .replaced] ++ attached 0 0 0 ++
      [.take (Small.uid 1) ⟨some [none, some package]⟩, .observe 0]),
      (r.offers.offeredTo "a" package.downloadUrl).isSome := by
    decide +kernel
  obtain ⟨r, hreach, hr⟩ := Reach.exists_of_run _ hrun
  obtain ⟨artifact, hoffered⟩ := isSome_iff_exists.mp hr
  exact ⟨r, artifact, hreach, hoffered, offered_to_bound twoHosts Small.limits hreach hoffered⟩

end Registry

end OpampFleet.Gateway
