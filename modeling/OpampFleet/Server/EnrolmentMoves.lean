import OpampFleet.Server.Enrolment

/-!
# What the enrolment's acts are made of

The acts of the enrolment differ in what they answer, but what they do to the window and its queue is made of a few
moves: a request is taken into the store, an entry is learnt from it, a decision is written and then held, a request is
dropped and withdrawn, the window is shut and cleared, and the whole is read again. Every act but an opening is a
sequence of such moves, so an invariant of the queue is proved once for each move.
-/

namespace OpampFleet.Server.Enrolment

open Lib List Option Map
open EnrolmentStore (unwrapped decideFirst waits)

def PersistedRequest.pending (request : PersistedRequest) : Pending :=
  ⟨request.id, request.arrivedMs, request.keyFingerprint, request.requester⟩

def Entry.Reads (entry : Entry) (request : PersistedRequest) : Prop :=
  entry.pending = request.pending ∧ entry.decision = request.decision

private lemma Entry.reads_persisted (entry : Entry) : entry.Reads entry.persisted := ⟨rfl, rfl⟩

private lemma Entry.reads_of_restored {request : PersistedRequest} {entry : Entry} (h : restored request = some entry) :
    entry.Reads request := by
  rw [restored, map_eq_some_iff] at h
  obtain ⟨_, _, rfl⟩ := h
  exact ⟨rfl, rfl⟩

private lemma mem_of_mapM {α β : Type} {f : α → Option β} {xs : List α} {ys : List β} {y : β}
    (h : xs.mapM f = some ys) (hy : y ∈ ys) : ∃ x ∈ xs, f x = some y := by
  induction xs generalizing ys with
  | nil =>
    cases h
    cases hy
  | cons x xs ih =>
    rw [mapM_cons, bind_eq_bind, bind_eq_some_iff] at h
    obtain ⟨first, hfirst, h⟩ := h
    rw [bind_eq_bind, bind_eq_some_iff] at h
    obtain ⟨rest, hrest, h⟩ := h
    cases h
    rcases mem_cons.mp hy with rfl | hy
    · exact ⟨x, mem_cons_self .., hfirst⟩
    · obtain ⟨z, hz, heq⟩ := ih hrest hy
      exact ⟨z, mem_cons_of_mem _ hz, heq⟩

structure Rules where
  now : Nat
  share : Nat
  takes : PersistedRequest → Prop
  decides : Entry → Decision → Prop

inductive Move (rules : Rules) : State → State → Prop where
  | refuse (s : State) (overShare : Finset Revocations.CertId) : Move rules s { s with overShare := overShare }
  | take (s : State) {request : PersistedRequest} {w : Nat} (hopen : s.persisted.windowUntilMs = some w)
    (hw : rules.now < w)
      (hnew : ∀ r ∈ s.persisted.requests, r.id ≠ request.id) (hroom : s.persisted.requests.length < maxPending)
      (hshare : (s.persisted.requests.countP fun r => r.requester.bootstrap = request.requester.bootstrap) <
        rules.share)
      (htakes : rules.takes request) (hwaits : request.decision = none) :
      Move rules s { s with store := some { s.persisted with requests := s.persisted.requests ++ [request] } }
  | learn (s : State) {entry : Entry} {request : PersistedRequest} {w : Nat} (hopen : s.windowUntilMs = some w)
      (hrequest : request ∈ s.persisted.requests) (hreads : entry.Reads request) :
      Move rules s { s with entries := s.entries.insert request.id entry }
  | decide (s : State) {id : String} {entry : Entry} {decision : Decision} (hentry : s.entries.lookup id = some entry)
      (hwaits : entry.decision = none) (hdecision : rules.decides entry decision) :
      Move rules s
        { s with store := some { s.persisted with requests := decideFirst id decision s.persisted.requests } }
  | hold (s : State) {id : String} {entry : Entry} {decision : Decision} {request : PersistedRequest}
      (hentry : s.entries.lookup id = some entry) (hwaits : entry.decision = none)
        (hdecision : rules.decides entry decision)
      (hrequest : request ∈ s.persisted.requests) (hid : request.id = id)
        (hdecided : request.decision = some decision) :
      Move rules s { s with entries := s.entries.insert id { entry with decision := some decision } }
  | drop (s : State) {entries : Map String Entry}
      (hkept : ∀ id entry, entries.lookup id = some entry → s.entries.lookup id = some entry) :
      Move rules s { s with entries := entries }
  | withdraw (s : State) (keep : PersistedRequest → Bool)
      (hgone : ∀ r ∈ s.persisted.requests, keep r = false → r.decision = none ∧
        ∀ entry, s.entries.lookup r.id = some entry → entry.decision = none →
          entry.pending.requester.bootstrap ≠ r.requester.bootstrap) :
      Move rules s { s with store := some { s.persisted with requests := s.persisted.requests.filter keep } }
  | shut (s : State) : Move rules s ⟨none, ∅, ∅, s.store⟩
  | clear (s : State) (hwindow : s.windowUntilMs = none) (hentries : s.entries = ∅) :
      Move rules s { s with store := some ⟨none, []⟩ }
  | read (s : State) {entries : Map String Entry} {overShare : Finset Revocations.CertId}
      (hread : ∀ id entry, entries.lookup id = some entry →
        ∃ request ∈ s.persisted.requests, request.id = id ∧ entry.Reads request) :
      Move rules s ⟨s.persisted.windowUntilMs, entries, overShare, s.store⟩

abbrev Moves (rules : Rules) : State → State → Prop :=
  Relation.ReflTransGen (Move rules)

/-- What each move keeps, all moves keep. -/
lemma Moves.keep {rules : Rules} {P : State → Prop} {s t : State}
    (h : Moves rules s t) (hbefore : P s) (hmove : ∀ s t, P s → Move rules s t → P t) : P t := by
  induction h with
  | refl => exact hbefore
  | tail _ hstep ih => exact hmove _ _ ih hstep

/-! ### The store -/

variable {requests : List PersistedRequest} {decision : Decision} {r : PersistedRequest}

namespace EnrolmentStore

private lemma mem_of_decideFirst {id : String} (h : r ∈ decideFirst id decision requests) :
    r ∈ requests ∨ ∃ held ∈ requests, held.id = id ∧ held.decision = none ∧
      r = { held with decision := some decision } := by
  unfold decideFirst at h
  induction requests with
  | nil => cases h
  | cons first requests ih =>
    by_cases hfirst : waits id first = true
    · simp only [replaceF_cons, if_pos hfirst] at h
      rcases mem_cons.mp h with rfl | h
      · rw [waits, Bool.and_eq_true, decide_eq_true_eq, isNone_iff_eq_none] at hfirst
        exact .inr ⟨first, mem_cons_self .., hfirst.1, hfirst.2, rfl⟩
      · exact .inl (mem_cons_of_mem _ h)
    · simp only [replaceF_cons, if_neg hfirst] at h
      rcases mem_cons.mp h with rfl | h
      · exact .inl (mem_cons_self ..)
      · rcases ih h with hr | ⟨held, hheld, heq⟩
        · exact .inl (mem_cons_of_mem _ hr)
        · exact .inr ⟨held, mem_cons_of_mem _ hheld, heq⟩

variable {P : Stored → Prop} {store store' : Stored} {io : StoreIo} {request : PersistedRequest} {now max share : Nat}
  {persisted : Persisted}

lemma save_rule (io : StoreIo) (hstore : P store)
    (hsaved : P (some persisted)) : P (save io store persisted).1 := by
  unfold save
  split
  · exact hsaved
  · exact hsaved
  · exact hstore

private lemma save_ok (h : save io store persisted = (store', .ok ())) : store' = some persisted := by
  unfold save at h
  split at h
  · cases h
    rfl
  · cases h
  · cases h

section

variable (io : StoreIo)

private lemma endWindow_rule (untilMs : Nat) (hstore : P store)
    (hcleared : P (some ⟨none, []⟩)) : P (endWindow io store untilMs).1 := by
  unfold endWindow
  split
  · exact hstore
  split
  · have hsaved := save_rule io hstore hcleared
    split
    all_goals
      rename_i heq
      rwa [heq] at hsaved
  · exact hstore

private lemma take_cases (store : Stored) (request : PersistedRequest) (now max share : Nat) :
    (∃ answer, take io store request now max share = (store, answer) ∧ answer ≠ .ok .added ∧
        ∀ held, answer = .ok (.held held) → held ∈ (unwrapped store).requests ∧ held.id = request.id) ∨
      ∃ w, (unwrapped store).windowUntilMs = some w ∧ now < w ∧ (∀ r ∈ (unwrapped store).requests, r.id ≠ request.id) ∧
        (unwrapped store).requests.length < max ∧
        ((unwrapped store).requests.countP fun r => r.requester.bootstrap = request.requester.bootstrap) < share ∧
        ((∃ e, take io store request now max share =
            ((save io store { unwrapped store with requests := (unwrapped store).requests ++ [request] }).1,
              .error e)) ∨
          take io store request now max share =
            (some { unwrapped store with requests := (unwrapped store).requests ++ [request] }, .ok .added)) := by
  unfold take
  split
  · exact .inl ⟨_, rfl, by simp⟩
  extract_lets persisted
  split
  · exact .inl ⟨_, rfl, by simp⟩
  rename_i hopen
  split
  next held hfind =>
    refine .inl ⟨_, rfl, by simp, ?_⟩
    rintro _ ⟨⟩
    exact ⟨mem_of_find?_eq_some hfind, by simpa using find?_some hfind⟩
  rename_i hfind
  split
  · exact .inl ⟨_, rfl, by simp⟩
  rename_i hroom
  split
  · exact .inl ⟨_, rfl, by simp⟩
  rename_i hshare
  obtain ⟨w, hw, hnow⟩ : ∃ w, persisted.windowUntilMs = some w ∧ now < w := by
    cases hwindow : persisted.windowUntilMs with
    | none => simp [hwindow] at hopen
    | some w => exact ⟨w, rfl, by simpa [hwindow] using hopen⟩
  refine .inr ⟨w, hw, hnow, ?_, not_le.mp hroom, not_le.mp hshare, ?_⟩
  · intro r hr
    simpa using find?_eq_none.mp hfind r hr
  split
  next heq =>
    exact .inl ⟨_, by rw [heq]⟩
  next heq =>
    refine .inr ?_
    rw [save_ok heq]

private lemma withdraw_rule (ids : List String) (hstore : P store) (hsaved : P (some { unwrapped store with
      requests := (unwrapped store).requests.filter fun r => r.decision.isSome || r.id ∉ ids })) :
    P (withdraw io store ids).1 := by
  unfold withdraw
  split
  · exact hstore
  · exact hstore
  · exact save_rule io hstore hsaved

private lemma withdrawBootstrap_rule (issuers : List String) (serial : String) (hstore : P store)
    (hsaved : P (some { unwrapped store with
      requests := (unwrapped store).requests.filter fun r =>
        r.decision.isSome || r.requester.bootstrap.serial ≠ serial || r.requester.bootstrap.issuer ∉ issuers })) :
    P (withdrawBootstrap io store issuers serial).1 := by
  unfold withdrawBootstrap
  split
  · exact hstore
  · exact hstore
  · extract_lets requests withdrawn
    split
    · have hwritten := save_rule io hstore hsaved
      split
      all_goals
        rename_i heq
        rwa [unwrapped, getD_some, heq] at hwritten
    · exact hstore

private lemma approve_cases {σ : Type} (store : Stored) (id : String)
    (sign : σ → σ × Except DecisionError Decision) (x : σ) : (∃ e, approve io store id sign x = (store, x, .error e)) ∨
      approve io store id sign x = (store, x, .ok .notWaiting) ∨
      (∃ e, approve io store id sign x = (store, (sign x).1, .ok (.refused e))) ∨
      ∃ decision, (sign x).2 = .ok decision ∧ (unwrapped store).requests.any (waits id) = true ∧
        ((∃ e, approve io store id sign x =
            ((save io store { unwrapped store with requests := decideFirst id decision (unwrapped store).requests }).1,
              (sign x).1, .error e)) ∨
          approve io store id sign x =
            (some { unwrapped store with requests := decideFirst id decision (unwrapped store).requests },
              (sign x).1, .ok (.approved decision))) := by
  unfold approve
  split
  · exact .inl ⟨_, rfl⟩
  extract_lets persisted
  by_cases hwaits : persisted.requests.any (waits id) = true
  · rw [if_pos hwaits]
    refine .inr (.inr ?_)
    obtain ⟨y, answer⟩ := sign x
    cases answer with
    | error e => exact .inl ⟨e, rfl⟩
    | ok decision =>
      refine .inr ⟨decision, rfl, hwaits, ?_⟩
      simp only
      split
      next heq =>
        exact .inl ⟨_, by rw [heq]⟩
      next heq =>
        refine .inr ?_
        rw [save_ok heq]
  · rw [if_neg hwaits]
    exact .inr (.inl rfl)

open EnrolmentStore

private lemma decide_cases (store : Stored) (id : String) (decision : Decision) :
    (∃ e, decide io store id decision = (store, .error e)) ∨
      decide io store id decision = (store, .ok .notWaiting) ∨
      (unwrapped store).requests.any (waits id) = true ∧
        ((∃ e, decide io store id decision =
            ((save io store { unwrapped store with requests := decideFirst id decision (unwrapped store).requests }).1,
              .error e)) ∨
          decide io store id decision =
            (some { unwrapped store with requests := decideFirst id decision (unwrapped store).requests },
              .ok .written)) := by
  unfold decide
  split
  · exact .inl ⟨_, rfl⟩
  extract_lets persisted
  by_cases hwaits : persisted.requests.any (waits id) = true
  · rw [if_pos hwaits]
    refine .inr (.inr ⟨hwaits, ?_⟩)
    split
    next heq =>
      exact .inl ⟨_, by rw [heq]⟩
    next heq =>
      refine .inr ?_
      rw [save_ok heq]
  · rw [if_neg hwaits]
    exact .inr (.inl rfl)

end

end EnrolmentStore

section

variable {rules : Rules} {s : State}

/-- An entry is held as before, is read from the store, or is one held before and decided now. -/
lemma Move.entry_cases {t : State} {id : String} {entry : Entry} (hmove : Move rules s t)
    (h : t.entries.lookup id = some entry) :
    s.entries.lookup id = some entry ∨ (∃ request ∈ s.persisted.requests, request.id = id ∧ entry.Reads request) ∨
      ∃ held decision, s.entries.lookup id = some held ∧ rules.decides held decision ∧
        entry = { held with decision := some decision } ∧
        ∃ request ∈ s.persisted.requests, request.id = id ∧ request.decision = some decision := by
  cases hmove with
  | learn hopen hrequest hreads =>
    rcases lookup_of_insert h with ⟨rfl, rfl⟩ | h
    · exact .inr (.inl ⟨_, hrequest, rfl, hreads⟩)
    · exact .inl h
  | hold hentry hwaits hdecision hrequest hid hdecided =>
    rcases lookup_of_insert h with ⟨rfl, rfl⟩ | h
    · exact .inr (.inr ⟨_, _, hentry, hdecision, rfl, _, hrequest, hid, hdecided⟩)
    · exact .inl h
  | drop hkept => exact .inl (hkept id entry h)
  | shut => cases h
  | read hread => exact .inr (.inl (hread id entry h))
  | _ => exact .inl h

/-- A stored request is one stored before, one that is taken, or one stored before and decided now. -/
lemma Move.request_cases {t : State} (hmove : Move rules s t) (h : r ∈ t.persisted.requests) :
    r ∈ s.persisted.requests ∨ (rules.takes r ∧ r.decision = none) ∨
      ∃ held ∈ s.persisted.requests, ∃ entry decision, s.entries.lookup held.id = some entry ∧
        rules.decides entry decision ∧ r = { held with decision := some decision } := by
  cases hmove with
  | take hopen hw hnew hroom hshare htakes hwaits =>
    rcases mem_append.mp h with h | h
    · exact .inl h
    · rw [mem_singleton.mp h]
      exact .inr (.inl ⟨htakes, hwaits⟩)
  | decide hentry hwaits hdecision =>
    rcases EnrolmentStore.mem_of_decideFirst h with h | ⟨held, hheld, rfl, _, rfl⟩
    · exact .inl h
    · exact .inr (.inr ⟨held, hheld, _, _, hentry, hdecision, rfl⟩)
  | withdraw => exact .inl (mem_of_mem_filter h)
  | clear => cases h
  | _ => exact .inl h

lemma Move.key {t : State} (hmove : Move rules s t)
    (h : ∀ id entry, s.entries.lookup id = some entry → entry.pending.id = id) (id : String) (entry : Entry)
    (hentry : t.entries.lookup id = some entry) : entry.pending.id = id := by
  rcases hmove.entry_cases hentry with hheld | ⟨request, _, rfl, hreads⟩ | ⟨held, _, hheld, _, rfl, _⟩
  · exact h id entry hheld
  · rw [hreads.1]
    rfl
  · exact h id held hheld

/-! ### The acts -/

namespace State

private lemma expire_moves (s : State) (io : StoreIo) : Moves rules s (s.expire rules.now io).1 := by
  unfold expire
  split
  · exact .refl
  split
  · exact .refl
  · have hshut : Moves rules s ⟨none, ∅, ∅, s.store⟩ := .single (.shut s)
    exact EnrolmentStore.endWindow_rule (P := fun store => Moves rules s ⟨none, ∅, ∅, store⟩) io _ hshut
      (hshut.tail (.clear _ rfl rfl))

variable {now : Nat} {io : StoreIo} {t : State} {id : String} {entry : Entry} {answered : Except DecisionError Unit}
  {revocations revocations' : Revocations.State}

/-- A window that is open after `expire` has not run out. -/
lemma lt_of_expire {w : Nat} (h : (s.expire now io).1.windowUntilMs = some w) : now < w := by
  unfold expire at h
  split at h
  next hwindow =>
    simp [hwindow] at h
  rename_i untilMs hwindow
  split at h
  next hnow =>
    rw [hwindow] at h
    cases h
    exact hnow
  · cases h

private lemma expire_eq_some {w : Nat} (h : s.expire now io = (t, some w)) : t = s ∧ s.windowUntilMs = some w := by
  unfold expire at h
  split at h
  · cases h
  split at h
  next hwindow _ =>
    cases h
    exact ⟨rfl, hwindow⟩
  · cases h

private lemma expire_eq_of_lookup (h : (s.expire now io).1.entries.lookup id = some entry) :
    (s.expire now io).1 = s := by
  unfold expire at h ⊢
  split
  · rfl
  rename_i heq
  rw [heq] at h
  split
  · rfl
  next hnow =>
    simp only [if_neg hnow] at h
    cases h

private lemma close_moves (s : State) (io : StoreIo) : Moves rules s (s.close io).1 := by
  have hshut : Moves rules s ⟨none, ∅, ∅, s.store⟩ := .single (.shut s)
  exact EnrolmentStore.save_rule (P := fun store => Moves rules s ⟨none, ∅, ∅, store⟩) io hshut
    (hshut.tail (.clear _ rfl rfl))


private lemma submit_moves (s : State) (request : Request) (requester : Requester) (io : StoreIo)
    (htakes : rules.takes (newEntry request requester rules.now).persisted) :
    Moves rules s (s.submit rules.share request requester rules.now io).1 := by
  have hexpired : Moves rules s (s.expire rules.now io).1 := s.expire_moves io
  unfold submit
  split
  next t heq =>
    rwa [heq] at hexpired
  rename_i t untilMs heq
  obtain ⟨rfl, hopen⟩ := expire_eq_some heq
  extract_lets id entry
  split
  · exact .refl
  rcases EnrolmentStore.take_cases io t.store entry.persisted rules.now maxPending rules.share with
    ⟨answer, heq, hadded, hheld⟩ | ⟨w, hw, hnow, hnew, hroom, hless, hwritten⟩
  · rw [heq]
    cases answer with
    | error e => exact .refl
    | ok took =>
      cases took with
      | added => exact absurd rfl hadded
      | held held =>
        simp only
        split
        next found hrestored =>
          obtain ⟨hmem, hid⟩ := hheld held rfl
          have hlearnt : Move rules t { t with entries := t.entries.insert held.id found } :=
            .learn t hopen hmem (Entry.reads_of_restored hrestored)
          rw [hid] at hlearnt
          exact .single hlearnt
        · exact .refl
      | full | closed => exact .refl
      | overShare => exact .single (.refuse t _)
  · have htaken : Moves rules t _ := .single (.take t hw hnow hnew hroom hless htakes rfl)
    rcases hwritten with ⟨e, heq⟩ | heq
    · rw [heq]
      exact EnrolmentStore.save_rule (P := fun store => Moves rules t { t with store := store }) io .refl htaken
    · rw [heq]
      refine htaken.tail (.learn (w := untilMs) _ ?_ ?_ entry.reads_persisted)
      · exact hopen
      · exact mem_append_right _ (mem_singleton.mpr rfl)

/-- A request answered as waiting or issued is kept. -/
lemma submit_shows {share : Nat} {request : Request} {requester : Requester} {answered : Submitted}
    (h : s.submit share request requester now io = (t, answered))
    (hshown : answered = .waiting ∨ ∃ pem, answered = .issued pem) :
    ∃ entry, t.entries.lookup request.keyFingerprint = some entry ∧ answer entry.decision = answered ∧
      ∀ w, t.windowUntilMs = some w → now < w := by
  unfold submit at h
  split at h
  · cases h
    simp at hshown
  rename_i u w hexpire
  have hopen : ∀ w, u.windowUntilMs = some w → now < w := by
    intro w hw
    have hkept : (s.expire now io).1.windowUntilMs = some w := by
      rwa [hexpire]
    exact lt_of_expire hkept
  extract_lets id entry at h
  split at h
  next held hheld =>
    cases h
    exact ⟨held, hheld, rfl, hopen⟩
  split at h
  · cases h
    simp at hshown
  rename_i store took htake
  cases took with
  | added =>
    cases h
    exact ⟨entry, AList.lookup_insert _, rfl, hopen⟩
  | held held =>
    simp only at h
    split at h
    · cases h
      exact ⟨_, AList.lookup_insert _, rfl, hopen⟩
    · cases h
      simp at hshown
  | full | overShare | closed =>
    cases h
    simp at hshown

private lemma reads_of_restored {entries : Map String Entry}
    (h : restored requests = some entries) (hentry : entries.lookup id = some entry) :
    ∃ request ∈ requests, request.id = id ∧ entry.Reads request := by
  rw [restored, map_eq_some_iff] at h
  obtain ⟨read, hread, rfl⟩ := h
  obtain hnone | ⟨found, hfound, hkey, rfl⟩ :=
    lookup_foldl_insert (fun entry : Entry => entry.pending.id) (fun entry => entry) read ∅ hentry
  · cases hnone
  obtain ⟨request, hrequest, hrestored⟩ := mem_of_mapM hread hfound
  have hreads := Entry.reads_of_restored hrestored
  refine ⟨request, hrequest, ?_, hreads⟩
  rw [← hkey, hreads.1]
  rfl

private lemma reload_moves (s : State) (io : StoreIo) : Moves rules s (s.reload io) := by
  unfold reload
  split
  · exact .refl
  extract_lets persisted
  split
  · exact .refl
  next hrestored =>
    exact .single (.read s fun _ _ hentry => reads_of_restored hrestored hentry)

private lemma openOn_moves (h : openOn s.store rules.now io = some t) : Moves rules s t := by
  have hshut : Moves rules s ⟨none, ∅, ∅, s.store⟩ := .single (.shut s)
  have hcleared := hshut.tail (.clear _ rfl rfl)
  unfold openOn at h
  split at h
  · cases h
  · cases h
    exact hshut
  next persisted _ hstore =>
    have hpersisted : s.persisted = persisted := by
      unfold State.persisted
      rw [hstore]
      rfl
    rw [bind_eq_some_iff] at h
    obtain ⟨entries, hrestored, h⟩ := h
    have hread : ∀ window, window = persisted.windowUntilMs →
        Moves rules s ⟨window, entries, ∅, s.store⟩ := by
      rintro _ rfl
      rw [← hpersisted] at hrestored ⊢
      exact .single (.read s fun _ _ hentry => reads_of_restored hrestored hentry)
    split at h
    next untilMs hwindow =>
      split at h
      · have hended := EnrolmentStore.endWindow_rule (P := fun store => Moves rules s ⟨none, ∅, ∅, store⟩) io
          untilMs hshut hcleared
        split at h
        · cases h
        next heq =>
          rw [heq] at hended
          cases h
          exact hended
      · cases h
        exact hread _ rfl
    next hwindow =>
      split at h
      · cases h
        exact hread _ hwindow.symm
      have hclosed := EnrolmentStore.save_rule (P := fun store => Moves rules s ⟨none, ∅, ∅, store⟩) io
        hshut hcleared
      split at h
      · cases h
      rename_i heq
      rw [EnrolmentStore.closeWindow] at heq
      rw [heq] at hclosed
      cases h
      exact hclosed

/-! ### Decisions -/

private lemma exists_decided (h : requests.any (waits id) = true) :
    ∃ request ∈ decideFirst id decision requests, request.id = id ∧ request.decision = some decision := by
  unfold decideFirst
  induction requests with
  | nil => simp at h
  | cons first requests ih =>
    by_cases hfirst : waits id first = true
    · refine ⟨{ first with decision := some decision }, ?_, ?_, rfl⟩
      · simp [hfirst]
      · rw [waits, Bool.and_eq_true, decide_eq_true_eq] at hfirst
        exact hfirst.1
    · have hrest : requests.any (waits id) = true := by simpa [hfirst] using h
      obtain ⟨request, hrequest, hid⟩ := ih hrest
      refine ⟨request, ?_, hid⟩
      simp [hfirst, hrequest]

private lemma waiting_of_filter (h : (s.entries.lookup id).filter (fun entry => entry.decision.isNone) = some entry) :
    s.entries.lookup id = some entry ∧ entry.decision = none := by
  rw [filter_eq_some_iff] at h
  exact ⟨h.1, isNone_iff_eq_none.mp h.2⟩

private lemma drop_erase (s : State) (id : String) : Move rules s { s with entries := s.entries.erase id } := by
  refine .drop s ?_
  intro other entry hentry
  exact lookup_of_erase hentry

private lemma withdrawn_moves (s : State) (id : String) (io : StoreIo) : Moves rules s (s.withdrawn id io) := by
  have hdropped : Moves rules s { s with entries := s.entries.erase id } := .single (s.drop_erase id)
  refine EnrolmentStore.withdraw_rule
    (P := fun store => Moves rules s { s with entries := s.entries.erase id, store := store }) io [id] hdropped ?_
  refine hdropped.tail (.withdraw { s with entries := s.entries.erase id } _ ?_)
  intro r hr hgone
  simp only [mem_singleton, decide_not, Bool.or_eq_false_iff, Bool.not_eq_false', decide_eq_true_eq] at hgone
  refine ⟨isNone_iff_eq_none.mp (by simpa using hgone.1), ?_⟩
  intro entry hentry
  simp [hgone.2, lookup_erase_ite, if_pos rfl] at hentry

private lemma withdrawRevoked_moves (s : State) (issuers : List String) (serial : String) (io : StoreIo) :
    Moves rules s (s.withdrawRevoked issuers serial io).1 := by
  unfold withdrawRevoked
  extract_lets named ids
  have hdropped : Moves rules s { s with entries := Map.filter s.entries fun _ entry => !named entry } := by
    refine .single (.drop s ?_)
    intro id entry hentry
    rw [lookup_filter, filter_eq_some_iff] at hentry
    exact hentry.1
  refine EnrolmentStore.withdrawBootstrap_rule (P := fun store => Moves rules s
    { s with entries := Map.filter s.entries fun _ entry => !named entry, store :=
      store }) io issuers serial hdropped ?_
  refine hdropped.tail (.withdraw { s with entries := Map.filter s.entries fun _ entry => !named entry } _ ?_)
  intro r hr hgone
  simp only [decide_not, Bool.or_eq_false_iff, Bool.not_eq_false', decide_eq_true_eq] at hgone
  obtain ⟨⟨hwaits, hserial⟩, hissuer⟩ := hgone
  refine ⟨isNone_iff_eq_none.mp (by simpa using hwaits), ?_⟩
  intro entry hentry hundecided hsame
  -- An entry that waits under the revoked certificate was dropped just before.
  rw [lookup_filter, filter_eq_some_iff] at hentry
  have hkept := hentry.2
  simp [named, hundecided, hsame, hserial, hissuer] at hkept

private lemma decided_moves (hentry : s.entries.lookup id = some entry)
    (hwaits : entry.decision = none) (hdecision : rules.decides entry decision)
    (hany : s.persisted.requests.any (waits id) = true) (io : StoreIo) :
    Moves rules s { s with store := (EnrolmentStore.save io s.store
      { s.persisted with requests := decideFirst id decision s.persisted.requests }).1 } ∧
    Moves rules s
      { s with
        store := some { s.persisted with requests := decideFirst id decision s.persisted.requests }
        entries := s.entries.insert id { entry with decision := some decision } } := by
  have hdecided : Moves rules s
      { s with store := some { s.persisted with requests := decideFirst id decision s.persisted.requests } } :=
    .single (.decide s hentry hwaits hdecision)
  constructor
  · exact EnrolmentStore.save_rule (P := fun store => Moves rules s { s with store := store }) io .refl hdecided
  · obtain ⟨request, hrequest, hid, hstored⟩ := exists_decided hany
    exact hdecided.tail (.hold _ hentry hwaits hdecision hrequest hid hstored)

private lemma reject_moves (s : State) (id : String) (io : StoreIo)
    (hrejects : ∀ entry, rules.decides entry .rejected) : Moves rules s (s.reject id rules.now io).1 := by
  have hexpired : Moves rules s (s.expire rules.now io).1 := s.expire_moves io
  unfold reject
  extract_lets t
  split
  · exact hexpired
  rename_i entry hfilter
  obtain ⟨hentry, hwaits⟩ := waiting_of_filter hfilter
  rcases EnrolmentStore.decide_cases io t.store id .rejected with ⟨e, heq⟩ | heq | ⟨hany, hdecided⟩
  · rwa [heq]
  · rw [heq]
    exact hexpired.tail (t.drop_erase id)
  · obtain ⟨hwritten, hheld⟩ := decided_moves hentry hwaits (hrejects entry) hany io
    rcases hdecided with ⟨e, heq⟩ | heq
    · rw [heq]
      exact hexpired.trans hwritten
    · rw [heq]
      exact hexpired.trans hheld

/-- What an approval comes to: it is refused, and the request may be withdrawn or dropped for it, or the decision that
was signed is written, and then held if the write did not fail. -/
lemma approve_cases {byAct : Bool} {io : ApproveIo} {u : State}
    (hexpired : (s.expire now io.store).1 = t)
    (h : s.approve byAct id now io revocations = (u, revocations', answered)) : ((∃ e, answered = .error e) ∧
        (u = t ∨ u = t.withdrawn id io.withdraw ∨ u = { t with entries := t.entries.erase id }) ∧
        (revocations' = revocations ∨ revocations' = revocations.built ∨
          ∃ instanceUid bootstrap, revocations' = (sign byAct now io instanceUid bootstrap revocations.built).1)) ∨
      ∃ entry decision, t.entries.lookup id = some entry ∧ entry.decision = none ∧
        t.persisted.requests.any (waits id) = true ∧
        sign byAct now io entry.instanceUid entry.pending.requester.bootstrap revocations.built =
          (revocations', .ok decision) ∧
        ((∃ e, answered = .error e ∧ u = { t with store := (EnrolmentStore.save io.store t.store
            { t.persisted with requests := decideFirst id decision t.persisted.requests }).1 }) ∨
          answered = .ok () ∧ u = { t with
            store := some { t.persisted with requests := decideFirst id decision t.persisted.requests }
            entries := t.entries.insert id { entry with decision := some decision } }) := by
  unfold approve at h
  simp only [hexpired] at h
  split at h
  · cases h
    exact .inl ⟨⟨_, rfl⟩, .inl rfl, .inl rfl⟩
  rename_i entry hfilter
  obtain ⟨hentry, hwaits⟩ := waiting_of_filter hfilter
  split at h
  · cases h
    exact .inl ⟨⟨_, rfl⟩, .inr (.inl rfl), .inr (.inl rfl)⟩
  split at h
  · cases h
    exact .inl ⟨⟨_, rfl⟩, .inl rfl, .inr (.inl rfl)⟩
  rcases EnrolmentStore.approve_cases io.store t.store id
      (sign byAct now io entry.instanceUid entry.pending.requester.bootstrap) revocations.built with
    ⟨e, heq⟩ | heq | ⟨e, heq⟩ | ⟨decision, hsigned, hany, hwritten⟩
  · rw [heq] at h
    cases h
    exact .inl ⟨⟨_, rfl⟩, .inl rfl, .inr (.inl rfl)⟩
  · rw [heq] at h
    cases h
    exact .inl ⟨⟨_, rfl⟩, .inr (.inr rfl), .inr (.inl rfl)⟩
  · rw [heq] at h
    cases e with
    | revoked =>
      cases h
      exact .inl ⟨⟨_, rfl⟩, .inr (.inl rfl), .inr (.inr ⟨_, _, rfl⟩)⟩
    | _ =>
      cases h
      exact .inl ⟨⟨_, rfl⟩, .inl rfl, .inr (.inr ⟨_, _, rfl⟩)⟩
  · refine .inr ⟨entry, decision, hentry, hwaits, hany, ?_⟩
    rcases hwritten with ⟨e, heq⟩ | heq
    · rw [heq] at h
      cases h
      exact ⟨Prod.ext rfl hsigned, .inl ⟨_, rfl, rfl⟩⟩
    · rw [heq] at h
      cases h
      exact ⟨Prod.ext rfl hsigned, .inr ⟨rfl, rfl⟩⟩

private lemma approve_moves {byAct : Bool} {io : ApproveIo}
    (h : s.approve byAct id rules.now io revocations = (t, revocations', answered))
    (hsigns : ∀ entry decision, s.entries.lookup id = some entry → entry.decision = none →
      sign byAct rules.now io entry.instanceUid entry.pending.requester.bootstrap revocations.built =
        (revocations', .ok decision) → rules.decides entry decision) : Moves rules s t := by
  have hexpired : Moves rules s (s.expire rules.now io.store).1 := s.expire_moves io.store
  rcases approve_cases rfl h with ⟨_, rfl | rfl | rfl, _⟩ | ⟨entry, decision, hentry, hwaits, hany, hsigned, hwritten⟩
  · exact hexpired
  · exact hexpired.trans (withdrawn_moves _ id io.withdraw)
  · exact hexpired.tail (drop_erase _ id)
  · have hsame := expire_eq_of_lookup hentry
    have hdecision := hsigns entry decision (by rw [← hsame]; exact hentry) hwaits hsigned
    obtain ⟨hsaved, hheld⟩ := decided_moves hentry hwaits hdecision hany io.store
    rcases hwritten with ⟨_, _, rfl⟩ | ⟨_, rfl⟩
    · exact hexpired.trans hsaved
    · exact hexpired.trans hheld

end State

variable {byAct : Bool} {share : Nat} {s t : System} {a : Act}

lemma System.act_approve {id : String} {io : State.ApproveIo} (hact : s.act byAct share (.approve id io) = some t) :
    ∃ answered, s.enrolment.approve byAct id s.now io s.revocations = (t.enrolment, t.revocations, answered) ∧
      t.outcome = (match answered with | .ok () => .approved id | .error _ => .nothing) := by
  cases hact
  exact ⟨_, rfl, rfl⟩

def System.Answers (byAct : Bool) (share : Nat) (s t : System) : Outcome → Prop
  | .nothing => True
  | .submitted key answered => ∃ request requester io, request.keyFingerprint = key ∧
      s.enrolment.submit share request requester s.now io = (t.enrolment, answered)
  | .listed requests => ∃ io, s.enrolment.pending s.now io = (t.enrolment, requests)
  | .approved id => ∃ io, s.enrolment.approve byAct id s.now io s.revocations = (t.enrolment, t.revocations, .ok ())

/-- Every act answers as `Answers` says. -/
lemma System.act_answers (hact : s.act byAct share a = some t)
    (hnothing : s.outcome = .nothing) : System.Answers byAct share s t t.outcome := by
  have hquiet : t.outcome = s.outcome → System.Answers byAct share s t t.outcome := by
    intro hsame
    rw [hsame, hnothing]
    trivial
  cases a with
  | submit request requester io =>
    cases hact
    exact ⟨request, requester, io, rfl, rfl⟩
  | pending io =>
    cases hact
    exact ⟨io, rfl⟩
  | approve id io =>
    obtain ⟨answered, happrove, houtcome⟩ := act_approve hact
    rw [houtcome]
    cases answered with
    | error e => trivial
    | ok _ => exact ⟨io, happrove⟩
  | revocations act | restart io ledger =>
    rw [System.act, map_eq_some_iff] at hact
    obtain ⟨_, _, rfl⟩ := hact
    exact hquiet rfl
  | _ =>
    cases hact
    exact hquiet rfl

/-- An act leaves the clock, and adds to what was asked. -/
lemma System.act_frame (hact : s.act byAct share a = some t) :
    t.now = s.now ∧ t.ends = s.ends ∧ s.submissions ⊆ t.submissions ∧ s.approvals ⊆ t.approvals := by
  cases a with
  | submit request requester io =>
    cases hact
    exact ⟨rfl, rfl, subset_append_left _ _, List.Subset.refl _⟩
  | approve id io =>
    cases hact
    exact ⟨rfl, rfl, List.Subset.refl _, subset_append_left _ _⟩
  | revocations act | restart io ledger =>
    rw [System.act, map_eq_some_iff] at hact
    obtain ⟨_, _, rfl⟩ := hact
    exact ⟨rfl, rfl, List.Subset.refl _, List.Subset.refl _⟩
  | _ =>
    cases hact
    exact ⟨rfl, rfl, List.Subset.refl _, List.Subset.refl _⟩

/-- Every act but the opening of a window is made of moves. -/
lemma System.act_moves (hact : s.act byAct rules.share a = some t)
    (hnow : rules.now = s.now) (hopens : ∀ secs io, a ≠ .openWindow secs io)
    (htakes : ∀ request requester io, a = .submit request requester io →
      rules.takes (State.newEntry request requester s.now).persisted)
    (hrejects : ∀ entry, rules.decides entry .rejected)
    (hsigns : ∀ id io entry decision, a = .approve id io → s.enrolment.entries.lookup id = some entry →
      entry.decision = none →
      State.sign byAct s.now io entry.instanceUid entry.pending.requester.bootstrap s.revocations.built =
        (t.revocations, .ok decision) → rules.decides entry decision) :
    Moves rules s.enrolment t.enrolment := by
  cases a with
  | openWindow secs io => exact absurd rfl (hopens secs io)
  | close io =>
    cases hact
    exact s.enrolment.close_moves io
  | window io | pending io =>
    cases hact
    rw [← hnow]
    exact s.enrolment.expire_moves io
  | submit request requester io =>
    cases hact
    rw [← hnow]
    refine s.enrolment.submit_moves request requester io ?_
    rw [hnow]
    exact htakes request requester io rfl
  | approve id io =>
    obtain ⟨_, happrove, _⟩ := act_approve hact
    rw [← hnow] at happrove
    refine State.approve_moves happrove ?_
    rw [hnow]
    intro entry decision
    exact hsigns id io entry decision rfl
  | reject id io =>
    cases hact
    rw [← hnow]
    exact s.enrolment.reject_moves id io hrejects
  | withdrawRevoked issuers serial io =>
    cases hact
    exact s.enrolment.withdrawRevoked_moves issuers serial io
  | reload io =>
    cases hact
    exact s.enrolment.reload_moves io
  | revocations act =>
    rw [System.act, map_eq_some_iff] at hact
    obtain ⟨_, _, rfl⟩ := hact
    exact .refl
  | restart io ledger =>
    rw [System.act, map_eq_some_iff] at hact
    obtain ⟨enrolment, hopened, rfl⟩ := hact
    rw [← hnow] at hopened
    exact State.openOn_moves hopened

end

end OpampFleet.Server.Enrolment
