import LeaseLog.Proofs.Storage.Purge
import LeaseLog.Storage.Store

/-!
# Restoring an engine from its sources

An engine hands out its sources, and a new engine can be made from them. Whatever led to the log of
the first one, rejected commits and purges included, the second one is in the same state, and no
session can tell the two apart.

Results:
1. `reachable_stateOf`: the log of every engine of a reachable storage is a reachable state.
2. `alike_askAll`: two engines with equal logs give the same answers to the same requests.
3. `bootstrap_reproduces`: the sources of an engine are accepted by a new one, which is in the same
   state and answers as the first one does.
-/

namespace LeaseLog

/-! ## Definitions -/

/-- Asks for a number of entries, one after another. -/
def Scan.pull {listing : Listing} (token : Token) :
    (count : Nat) → Scan listing → Storage → List (Option (Entry listing)) × Storage
  | 0, _, storage => ([], storage)
  | count + 1, scan, storage =>
    let (entry, scan, storage) := scan.poll token storage
    let (entries, storage) := pull token count scan storage
    (entry :: entries, storage)

/-- What a session can be asked. -/
inductive Request
  /-- The first entries of a listing; `none` stands for its end. -/
  | list (listing : Listing) (query : Query) (token : Token) (count : Nat)
  | commit (source : Source) (token : Token)
  | purge (id : Ident)
  | dispose
  /-- Nothing, while time passes. -/
  | pass (clock : Clock) (logFirst : Bool)

/-- What a session answers. -/
inductive Answer
  | entries (listing : Listing) (entries : List (Option (Entry listing)))
  | verdict (result : Except RepositoryError Bool)
  | removal (result : Except RepositoryError Unit)
  | done

namespace Storage

/-- What engines, sessions, commits and purges make of an empty storage. -/
inductive Reachable : Storage → Prop
  | empty : Reachable .empty
  | engine {storage : Storage} {sources : List Source} {engine : Engine} : Reachable storage →
      Engine.ofSources sources = .ok engine → Reachable (storage.addEngine engine).2
  | session {storage : Storage} (engine : Nat) (options : SessionOptions) :
      Reachable storage → Reachable (storage.addSession engine options).2
  | commit {storage : Storage} (index : Nat) (source : Source) (token : Token) :
      Reachable storage → Reachable (storage.commitSession index source token).2
  | purge {storage : Storage} (index : Nat) (id : Ident) :
      Reachable storage → Reachable (storage.purgeSession index id).2
  | dispose {storage : Storage} (index : Nat) :
      Reachable storage → Reachable (storage.disposeSession index)
  | pass {storage : Storage} (clock : Clock) (logFirst : Bool) :
      Reachable storage → Reachable { storage with clock, logFirst }

/-- Asks a session. -/
def ask (storage : Storage) (index : Nat) : Request → Answer × Storage
  | .list listing query token count =>
    let (entries, storage) := (Store.scan storage index listing query).pull token count storage
    (.entries listing entries, storage)
  | .commit source token =>
    let (result, storage) := storage.commitSession index source token
    (.verdict result, storage)
  | .purge id =>
    let (result, storage) := storage.purgeSession index id
    (.removal result, storage)
  | .dispose => (.done, storage.disposeSession index)
  | .pass clock logFirst => (.done, { storage with clock, logFirst })

/-- Asks a session several things, one after another. -/
def askAll (index : Nat) : Storage → List Request → List Answer × Storage
  | storage, [] => ([], storage)
  | storage, request :: requests =>
    let (answer, storage) := storage.ask index request
    let (answers, storage) := askAll index storage requests
    (answer :: answers, storage)

/-- In two storages a session of one index is on engines whose logs are equal, at the same time. -/
structure Alike (left right : Storage) (index a b : Nat) : Prop where
  session : ∃ options closed, left.sessions[index]? = some ⟨a, options, closed⟩ ∧
    right.sessions[index]? = some ⟨b, options, closed⟩
  leftBound : a < left.engines.length
  rightBound : b < right.engines.length
  log : left.stateOf a = right.stateOf b
  clock : left.clock = right.clock
  logFirst : left.logFirst = right.logFirst

end Storage

/-! ## 1. Logs of a reachable storage -/

open SessionLemmas LayerLemmas

namespace BootstrapLemmas

variable {storage : Storage}

theorem stateOf_setState_cases (engine : Nat) (state : LogState) (other : Nat) :
    (storage.setState engine state).stateOf other = state ∨
      (storage.setState engine state).stateOf other = storage.stateOf other := by
  by_cases he : other = engine
  · subst he
    unfold Storage.stateOf Storage.setState
    rw [List.getElem?_modify_eq]
    cases storage.engines[other]? with
    | none => exact .inr rfl
    | some engine => exact .inl rfl
  · exact .inr (stateOf_setState_of_ne he)

theorem reachable_setState {engine : Nat} {state : LogState}
    (h : ∀ other, (storage.stateOf other).Reachable) (hs : state.Reachable) (other : Nat) :
    ((storage.setState engine state).stateOf other).Reachable := by
  rcases stateOf_setState_cases engine state other with he | he
  · rw [he]
    exact hs
  · rw [he]
    exact h other

theorem reachable_commitSession {index : Nat} {source : Source} {token : Token}
    (h : ∀ other, (storage.stateOf other).Reachable) (other : Nat) :
    ((storage.commitSession index source token).2.stateOf other).Reachable := by
  unfold Storage.commitSession
  split
  · exact h other
  · next session _ =>
    split
    · exact h other
    · dsimp only
      split
      · exact h other
      · have hcommit : ((storage.stateOf session.engine).commit source).2.Reachable :=
          (h session.engine).commit source
        have hspent : ∀ other, (storage.refresh.spend.stateOf other).Reachable := h
        exact reachable_setState hspent hcommit other

theorem reachable_purgeSession {index : Nat} {id : Ident}
    (h : ∀ other, (storage.stateOf other).Reachable) (other : Nat) :
    ((storage.purgeSession index id).2.stateOf other).Reachable := by
  unfold Storage.purgeSession
  split
  · exact h other
  · next session _ =>
    split
    · exact h other
    · simp only [Storage.readLog]
      split
      · exact h other
      · next state hp =>
        have hspent : ∀ other, (storage.spend.stateOf other).Reachable := h
        exact reachable_setState hspent ((h session.engine).purge hp) other

theorem stateOf_addEngine {engine : Engine} (other : Nat) :
    (storage.addEngine engine).2.stateOf other =
      if other = storage.engines.length then engine.state else storage.stateOf other := by
  unfold Storage.stateOf Storage.addEngine
  by_cases he : other = storage.engines.length
  · subst he
    rw [List.getElem?_concat_length, if_pos rfl]
  · rw [if_neg he]
    by_cases hlt : other < storage.engines.length
    · rw [List.getElem?_append_left hlt]
    · have hlen : (storage.engines ++ [engine]).length ≤ other := by
        rw [List.length_append, List.length_singleton]
        omega
      rw [List.getElem?_eq_none hlen, List.getElem?_eq_none (by omega)]

end BootstrapLemmas

open BootstrapLemmas

theorem reachable_stateOf {storage : Storage} (h : storage.Reachable) :
    ∀ engine, (storage.stateOf engine).Reachable := by
  induction h with
  | empty =>
    intro engine
    exact .empty
  | @engine storage sources added _ hs ih =>
    intro engine
    rw [stateOf_addEngine]
    split
    · exact .ofSources hs
    · exact ih engine
  | session _ _ _ ih => exact ih
  | commit index source token _ ih => exact reachable_commitSession ih
  | purge index id _ ih => exact reachable_purgeSession ih
  | dispose _ _ ih => exact ih
  | pass _ _ _ ih => exact ih

/-! ## 2. Engines with equal logs -/

namespace BootstrapLemmas

variable {left right : Storage} {index a b : Nat} {listing : Listing}

theorem now_eq (h : left.clock = right.clock) : left.now = right.now := by
  rw [Storage.now, Storage.now, h]

theorem next_eq (cancelled : Bool) (pending : List (Entry listing)) :
    ∃ entry rest, Scan.next cancelled pending = (entry, .running rest) := by
  unfold Scan.next
  split
  · exact ⟨_, _, rfl⟩
  · split
    · exact ⟨_, _, rfl⟩
    · split
      · exact ⟨_, _, rfl⟩
      · exact ⟨_, _, rfl⟩

/-- Once a listing has looked at the log, its entries depend on the time alone. -/
theorem pull_running (hc : left.clock = right.clock) (token : Token) (count : Nat)
    (pending : List (Entry listing)) :
    ((Scan.running pending).pull token count left).1 =
        ((Scan.running pending).pull token count right).1 ∧
      ((Scan.running pending).pull token count left).2 = left ∧
      ((Scan.running pending).pull token count right).2 = right := by
  induction count generalizing pending with
  | zero => exact ⟨rfl, rfl, rfl⟩
  | succ count ih =>
    obtain ⟨entry, rest, hnext⟩ := next_eq (token.isCancelled left.now) pending
    have hleft : (Scan.running pending).poll token left = (entry, .running rest, left) := by
      show ((Scan.next (token.isCancelled left.now) pending).1,
        (Scan.next (token.isCancelled left.now) pending).2, left) = _
      rw [hnext]
    have hright : (Scan.running pending).poll token right = (entry, .running rest, right) := by
      show ((Scan.next (token.isCancelled right.now) pending).1,
        (Scan.next (token.isCancelled right.now) pending).2, right) = _
      rw [← now_eq hc, hnext]
    obtain ⟨hentries, hl, hr⟩ := ih rest
    simp only [Scan.pull, hleft, hright]
    exact ⟨congrArg _ hentries, hl, hr⟩

/-- The storage after the first look at the log. -/
theorem alike_touch (h : left.Alike right index a b) {plan : Plan}
    {access : Except RepositoryError Unit} :
    ((Scan.requested a plan access : Scan listing).touch left).Alike
      ((Scan.requested b plan access : Scan listing).touch right) index a b := by
  cases access with
  | error cause => exact h
  | ok _ =>
    have hclock : left.clock.spend = right.clock.spend := congrArg Clock.spend h.clock
    exact ⟨h.session, h.leftBound, h.rightBound, h.log, hclock, h.logFirst⟩

theorem alike_pull (h : left.Alike right index a b) (listing : Listing) (plan : Plan)
    (access : Except RepositoryError Unit) (token : Token) (count : Nat) :
    ((Scan.requested a plan access : Scan listing).pull token count left).1 =
        ((Scan.requested b plan access : Scan listing).pull token count right).1 ∧
      ((Scan.requested a plan access : Scan listing).pull token count left).2.Alike
        ((Scan.requested b plan access : Scan listing).pull token count right).2 index a b := by
  cases count with
  | zero => exact ⟨rfl, h⟩
  | succ count =>
    have htouch : ((Scan.requested a plan access : Scan listing).touch left).Alike
        ((Scan.requested b plan access : Scan listing).touch right) index a b := alike_touch h
    have hentries : (Scan.requested a plan access : Scan listing).entries left =
        (Scan.requested b plan access : Scan listing).entries right := by
      cases access with
      | error cause => rfl
      | ok _ =>
        show (listing.snapshot (left.stateOf a) plan).map _ = _
        rw [h.log]
        rfl
    obtain ⟨entry, rest, hnext⟩ :=
      next_eq (token.isCancelled ((Scan.requested a plan access : Scan listing).touch left).now)
        ((Scan.requested a plan access : Scan listing).entries left)
    have hleft : (Scan.requested a plan access : Scan listing).poll token left =
        (entry, .running rest, (Scan.requested a plan access : Scan listing).touch left) := by
      simp only [Scan.poll, hnext]
    have hright : (Scan.requested b plan access : Scan listing).poll token right =
        (entry, .running rest, (Scan.requested b plan access : Scan listing).touch right) := by
      simp only [Scan.poll, ← hentries, ← now_eq htouch.clock, hnext]
    obtain ⟨hpulled, hl, hr⟩ := pull_running htouch.clock token count rest
    simp only [Scan.pull, hleft, hright, hl, hr]
    exact ⟨congrArg _ hpulled, htouch⟩

theorem alike_setState (h : left.Alike right index a b) (state : LogState) :
    (left.setState a state).Alike (right.setState b state) index a b := by
  refine ⟨h.session, ?_, ?_, ?_, h.clock, h.logFirst⟩
  · rw [length_engines_setState]
    exact h.leftBound
  · rw [length_engines_setState]
    exact h.rightBound
  · rw [stateOf_setState h.leftBound, stateOf_setState h.rightBound]

theorem alike_commit (h : left.Alike right index a b) (source : Source) (token : Token) :
    (left.commitSession index source token).1 = (right.commitSession index source token).1 ∧
      (left.commitSession index source token).2.Alike
        (right.commitSession index source token).2 index a b := by
  obtain ⟨options, closed, hl, hr⟩ := h.session
  have hclock : left.refresh.clock = right.refresh.clock := congrArg Clock.refresh h.clock
  have hspent : left.refresh.clock.spend = right.refresh.clock.spend := congrArg Clock.spend hclock
  have hwritable : (⟨b, options, closed⟩ : Session).ensureWritable =
      (⟨a, options, closed⟩ : Session).ensureWritable := rfl
  unfold Storage.commitSession
  simp only [hl, hr, hwritable]
  cases (⟨a, options, closed⟩ : Session).ensureWritable with
  | error cause => exact ⟨rfl, h⟩
  | ok _ =>
    simp only [now_eq hclock, show left.refresh.logFirst = right.refresh.logFirst from h.logFirst]
    split
    · exact ⟨rfl, h.session, h.leftBound, h.rightBound, h.log, hclock, h.logFirst⟩
    · have hread : left.refresh.spend.Alike right.refresh.spend index a b :=
        ⟨h.session, h.leftBound, h.rightBound, h.log, hspent, h.logFirst⟩
      have hlog : left.refresh.stateOf a = right.refresh.stateOf b := h.log
      simp only [Storage.readLog, hlog, true_and]
      exact alike_setState hread _

theorem alike_purge (h : left.Alike right index a b) (id : Ident) :
    (left.purgeSession index id).1 = (right.purgeSession index id).1 ∧
      (left.purgeSession index id).2.Alike (right.purgeSession index id).2 index a b := by
  obtain ⟨options, closed, hl, hr⟩ := h.session
  have hread : left.spend.Alike right.spend index a b :=
    ⟨h.session, h.leftBound, h.rightBound, h.log, congrArg Clock.spend h.clock, h.logFirst⟩
  have hwritable : (⟨b, options, closed⟩ : Session).ensureWritable =
      (⟨a, options, closed⟩ : Session).ensureWritable := rfl
  unfold Storage.purgeSession
  simp only [hl, hr, hwritable]
  cases (⟨a, options, closed⟩ : Session).ensureWritable with
  | error cause => exact ⟨rfl, h⟩
  | ok _ =>
    simp only [Storage.readLog, h.log]
    split
    · exact ⟨rfl, hread⟩
    · exact ⟨rfl, alike_setState hread _⟩

theorem alike_dispose (h : left.Alike right index a b) :
    (left.disposeSession index).Alike (right.disposeSession index) index a b := by
  obtain ⟨options, closed, hl, hr⟩ := h.session
  refine ⟨⟨options, true, ?_, ?_⟩, h.leftBound, h.rightBound, h.log, h.clock, h.logFirst⟩
  · rw [Storage.disposeSession, List.getElem?_modify_eq, hl]
    rfl
  · rw [Storage.disposeSession, List.getElem?_modify_eq, hr]
    rfl

end BootstrapLemmas

/-- Two engines with equal logs answer a request alike, and their logs are equal afterwards. -/
theorem alike_ask {left right : Storage} {index a b : Nat} (h : left.Alike right index a b)
    (request : Request) : (left.ask index request).1 = (right.ask index request).1 ∧
      (left.ask index request).2.Alike (right.ask index request).2 index a b := by
  cases request with
  | list listing query token count =>
    obtain ⟨options, closed, hl, hr⟩ := h.session
    have hpull :=
      alike_pull h listing (.of query) (⟨a, options, closed⟩ : Session).ensureOpen token count
    simp only [Storage.ask, Store.scan, hl, hr]
    exact ⟨congrArg _ hpull.1, hpull.2⟩
  | commit source token =>
    have hcommit := alike_commit h source token
    exact ⟨congrArg Answer.verdict hcommit.1, hcommit.2⟩
  | purge id =>
    have hpurge := alike_purge h id
    exact ⟨congrArg Answer.removal hpurge.1, hpurge.2⟩
  | dispose => exact ⟨rfl, alike_dispose h⟩
  | pass clock logFirst =>
    exact ⟨rfl, h.session, h.leftBound, h.rightBound, h.log, rfl, rfl⟩

theorem alike_askAll {left right : Storage} {index a b : Nat} (h : left.Alike right index a b)
    (requests : List Request) :
    (left.askAll index requests).1 = (right.askAll index requests).1 ∧
      (left.askAll index requests).2.Alike (right.askAll index requests).2 index a b := by
  induction requests generalizing left right with
  | nil => exact ⟨rfl, h⟩
  | cons request requests ih =>
    obtain ⟨hanswer, hafter⟩ := alike_ask h request
    obtain ⟨hanswers, hlast⟩ := ih hafter
    simp only [Storage.askAll]
    exact ⟨by rw [hanswer, hanswers], hlast⟩

/-! ## 3. The result -/

theorem alike_of_restored {storage : Storage} {index : Nat} {restored : Engine}
    (hi : index < storage.engines.length) (hs : restored.state = storage.stateOf index)
    (options : SessionOptions) :
    (storage.addSession index options).2.Alike
      ((storage.addEngine restored).2.addSession storage.engines.length options).2
      storage.sessions.length index storage.engines.length := by
  refine ⟨⟨options, false, List.getElem?_concat_length, List.getElem?_concat_length⟩, hi, ?_, ?_,
    rfl, rfl⟩
  · show storage.engines.length < (storage.engines ++ [restored]).length
    rw [List.length_append, List.length_singleton]
    exact Nat.lt_succ_self _
  · show storage.stateOf index = (storage.addEngine restored).2.stateOf storage.engines.length
    rw [stateOf_addEngine, if_pos rfl, hs]

/-- A new engine accepts the sources that an engine hands out, and it is in the same state: the same
sources, and everything that is derived from them. A session on the new engine answers every
sequence of requests as a session on the old one does, from listings to commits and purges, and the
two logs stay equal. -/
theorem bootstrap_reproduces {storage : Storage} (h : storage.Reachable) {index : Nat}
    (hi : index < storage.engines.length) :
    ∃ restored, Engine.ofSources (storage.stateOf index).sources = .ok restored ∧
      restored.state = storage.stateOf index ∧
      ∀ options requests,
        let original := (storage.addSession index options).2
        let copy := ((storage.addEngine restored).2.addSession storage.engines.length options).2
        (original.askAll storage.sessions.length requests).1 =
            (copy.askAll storage.sessions.length requests).1 ∧
          (original.askAll storage.sessions.length requests).2.stateOf index =
            (copy.askAll storage.sessions.length requests).2.stateOf storage.engines.length := by
  have hreplay := replay_of_reachable (reachable_stateOf h index)
  refine ⟨⟨storage.stateOf index, 0⟩, ?_, rfl, fun options requests => ?_⟩
  · rw [Engine.ofSources, hreplay]
  · have hrestored : (⟨storage.stateOf index, 0⟩ : Engine).state = storage.stateOf index := rfl
    obtain ⟨hanswers, halike⟩ := alike_askAll (alike_of_restored hi hrestored options) requests
    exact ⟨hanswers, halike.log⟩

/-- A session on a new engine. -/
def exFresh : Storage := ((Storage.empty.addEngine .empty).2.addSession 0 .writer).2

/-- Three sources are committed, and the second one is rejected, since it skips a version. Then the
first one is purged. -/
def exWorn : Storage :=
  let accepted := (exFresh.commitSession 0 (exWrite 7 1 1) .never).2
  let rejected := (accepted.commitSession 0 (exWrite 8 2 2) .never).2
  let committed := (rejected.commitSession 0 (exWrite 9 2 1) .never).2
  (committed.purgeSession 0 (.ofNat 7)).2

/-- One source is left. A new engine that is made from it rejects and accepts the same sources, and
lists the same entities. -/
theorem bootstrap_reproduces_worn :
    exWorn.Reachable ∧ 0 < exWorn.engines.length ∧
    (exWorn.stateOf 0).sources.map Source.id = [.ofNat 9] ∧
    ∃ restored, Engine.ofSources (exWorn.stateOf 0).sources = .ok restored ∧
      restored.state = exWorn.stateOf 0 ∧
      ∀ query source,
        let requests := [.list .pointers query .never 2, .commit source .never]
        let original := (exWorn.addSession 0 .writer).2
        let copy := ((exWorn.addEngine restored).2.addSession exWorn.engines.length .writer).2
        (original.askAll exWorn.sessions.length requests).1 =
          (copy.askAll exWorn.sessions.length requests).1 := by
  have hengine : Engine.ofSources [] = .ok .empty := rfl
  have hfresh : exFresh.Reachable := .session 0 .writer (.engine .empty hengine)
  have hworn : exWorn.Reachable :=
    .purge 0 _ (.commit 0 _ .never (.commit 0 _ .never (.commit 0 _ .never hfresh)))
  have hlength : exWorn.engines.length = 1 := rfl
  have hbound : 0 < exWorn.engines.length := hlength ▸ Nat.one_pos
  obtain ⟨restored, hrestored, hstate, hanswers⟩ := bootstrap_reproduces hworn hbound
  exact ⟨hworn, hbound, rfl, restored, hrestored, hstate,
    fun query source => (hanswers .writer _).1⟩

end LeaseLog
