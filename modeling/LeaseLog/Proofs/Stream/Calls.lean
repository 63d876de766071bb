import LeaseLog.Proofs.Stream.World

/-!
# Calls of a unit of work

A unit of work asks two things of what it is over: for the state that holds a lease, and to commit a
source. Whatever answers, and whatever the answer is, a call does one of four things to the unit: it
takes a stream in, it gathers one message, it drops what an accepted commit has committed, or it
leaves the unit as it was. It does the last one exactly when it does not succeed.

Results:
1. `perform_eq_performOn`: over a repository the calls are those of the unit.
2. `change_performOn`: all that a call can do, over any backend.
3. `failed_call_changes_nothing`: a call that does not succeed leaves the unit as it was.
-/

namespace LeaseLog

/-! ## Definitions -/

/-- What a unit of work can be asked to do. An identifier that may be given to a new stream, and the
stamp of a source, come with the call. -/
inductive Call
  | create (key : String) (fresh : Ident)
  | load (key : String) (token : Token)
  | loadOrCreate (key : String) (fresh : Ident) (token : Token)
  | append (key : String) (delta : Delta)
  | appendKeyed (key : String) (delta : Delta) (token : Token)
  | appendWith (key : String) (delta : Delta) (extras : Extras) (token : Token)
  | commit (stamp : Stamp) (token : Token)

/-- The key of the stream that a call is about; a commit is about all of them. -/
def Call.key? : Call → Option String
  | .create key _ | .load key _ | .loadOrCreate key _ _ | .append key _ | .appendKeyed key _ _
  | .appendWith key _ _ _ => some key
  | .commit _ _ => none

/-- What a call returns. -/
inductive Reply
  | resolved (result : Except StreamError Nat)
  | appended (result : Except StreamError Pointer)
  | keyed (result : Except StreamError Bool)
  | committed (result : Except StreamError Bool)

/-- A call does not succeed: it returns an error, or `false` for a message key that the stream has
already or for a commit that was rejected. -/
def Reply.Failed : Reply → Prop
  | .resolved (.ok _) | .appended (.ok _) | .keyed (.ok true) | .committed (.ok true) => False
  | .resolved (.error _) | .appended (.error _) | .keyed (.error _) | .committed (.error _)
  | .keyed (.ok false) | .committed (.ok false) => True

/-- A message was gathered. -/
def Reply.Gathered : Reply → Prop
  | .appended (.ok _) | .keyed (.ok true) => True
  | _ => False

namespace UnitOfWork

/-- Does a call, over the repository of the unit. -/
def perform (unit : UnitOfWork) (storage : Storage) : Call → Reply × UnitOfWork × Storage
  | .create key fresh =>
    let (result, unit) := unit.create key fresh
    (.resolved result, unit, storage)
  | .load key token =>
    let (result, unit, storage) := unit.load key token storage
    (.resolved result, unit, storage)
  | .loadOrCreate key fresh token =>
    let (result, unit, storage) := unit.loadOrCreate key fresh token storage
    (.resolved result, unit, storage)
  | .append key delta =>
    let (result, unit) := unit.append key delta
    (.appended result, unit, storage)
  | .appendKeyed key delta token =>
    let (result, unit, storage) := unit.appendKeyed key delta token storage
    (.keyed result, unit, storage)
  | .appendWith key delta extras token =>
    let (result, unit, storage) := unit.appendWith key delta extras token storage
    (.keyed result, unit, storage)
  | .commit stamp token =>
    let (result, unit, storage) := unit.commit stamp token storage
    (.committed result, unit, storage)

/-- Does a call, over any backend. -/
def performOn {σ : Type} (backend : Backend σ) (unit : UnitOfWork) (state : σ) :
    Call → Reply × UnitOfWork × σ
  | .create key fresh =>
    let (result, unit) := unit.create key fresh
    (.resolved result, unit, state)
  | .load key token =>
    let (result, unit, state) := unit.resolveOn backend key (.error (.unknownKey key)) token state
    (.resolved result, unit, state)
  | .loadOrCreate key fresh token =>
    let (result, unit, state) := unit.resolveOn backend key (.ok (.unwritten key fresh)) token state
    (.resolved result, unit, state)
  | .append key delta =>
    let (result, unit) := unit.append key delta
    (.appended result, unit, state)
  | .appendKeyed key delta token =>
    let (result, unit, state) := unit.appendWithOn backend key delta .none token state
    (.keyed result, unit, state)
  | .appendWith key delta extras token =>
    let (result, unit, state) := unit.appendWithOn backend key delta extras token state
    (.keyed result, unit, state)
  | .commit stamp token =>
    let (result, unit, state) := unit.commitOn backend stamp token state
    (.committed result, unit, state)

end UnitOfWork

/-- All that a call can do to a unit of work, with what it returns then. -/
inductive Change (unit : UnitOfWork) (call : Call) : Reply → UnitOfWork → Prop
  | rest {reply : Reply} : reply.Failed → Change unit call reply unit
  | track {stream : Stream} :
      call.key? = some stream.key → unit.handle? stream.key = none →
      Change unit call (.resolved (.ok unit.streams.length)) (unit.track stream).2
  | gather {reply : Reply} {key : String} {claim : Claim} {version : Version} :
      call.key? = some key → unit.known key = .ok (claim.handle, claim.stream) →
      version.toNat = claim.stream.version.toNat + 1 → reply.Gathered →
      Change unit call reply (unit.push claim version)
  | commit : Change unit call (.committed (.ok true)) { unit with staged := [] }

/-! ## 1. Over a repository -/

/-- What a unit of work does over its repository is what it does over any backend. -/
theorem perform_eq_performOn (unit : UnitOfWork) (storage : Storage) (call : Call) :
    unit.perform storage call = unit.performOn unit.repository.backend storage call := by
  cases call <;> rfl

/-! ## 2. What a call can do -/

namespace CallLemmas

variable {σ : Type} {backend : Backend σ} {unit unit' : UnitOfWork} {call : Call} {key : String}
  {token : Token} {state state' : σ}

theorem change_create {fresh : Ident} (hk : call.key? = some key) {result : Except StreamError Nat}
    (h : unit.create key fresh = (result, unit')) : Change unit call (.resolved result) unit' := by
  rcases unit.create_cases key fresh with ⟨cause, hr⟩ | ⟨hn, ht⟩
  · cases hr.symm.trans h
    exact .rest trivial
  · cases ht.symm.trans h
    have hchange : Change unit call (.resolved (.ok unit.streams.length))
        (unit.track (.unwritten key fresh)).2 := .track hk hn
    exact hchange

theorem change_resolveOn {absent : Except StreamError Stream} (hk : call.key? = some key)
    (ha : ∀ stream, absent = .ok stream → stream.key = key) {result : Except StreamError Nat}
    (h : unit.resolveOn backend key absent token state = (result, unit', state')) :
    Change unit call (.resolved result) unit' := by
  rcases UnitOfWork.resolveOn_cases h with ⟨⟨cause, rfl⟩, rfl, -⟩ |
    ⟨pointer?, stream, hn, -, hstream, rfl, rfl⟩
  · exact .rest trivial
  · -- what was found, or is taken for a stream that is absent, has the key
    have hkey : stream.key = key := by
      rcases hstream with ⟨-, hs⟩ | ⟨pointer, -, rfl⟩
      · exact ha stream hs
      · rfl
    subst hkey
    exact .track hk hn

theorem change_append {delta : Delta} (hk : call.key? = some key)
    {result : Except StreamError Pointer} (h : unit.append key delta = (result, unit')) :
    Change unit call (.appended result) unit' := by
  rcases unit.append_cases key delta with ⟨cause, hr⟩ | ⟨handle, stream, envelope, hknown, hstage⟩
  · cases hr.symm.trans h
    exact .rest trivial
  · let claim : Claim := ⟨handle, stream, envelope, none, .none⟩
    have h : unit.stageClaim claim = (result, unit') := hstage.symm.trans h
    rcases stageClaim_spec unit claim with ⟨cause, hs⟩ | ⟨version, hv, hs⟩
    · cases hs.symm.trans h
      exact .rest trivial
    · cases hs.symm.trans h
      exact .gather hk hknown hv trivial

theorem change_appendWithOn {delta : Delta} {extras : Extras} (hk : call.key? = some key)
    {result : Except StreamError Bool}
    (h : unit.appendWithOn backend key delta extras token state = (result, unit', state')) :
    Change unit call (.keyed result) unit' := by
  unfold UnitOfWork.appendWithOn at h
  split at h
  · cases h
    exact .rest trivial
  · next handle stream hknown =>
    split at h
    · cases h
      exact .rest trivial
    · next envelope _ =>
      split at h
      · cases h
        exact .rest trivial
      · cases h
        exact .rest trivial
      · next keyLease _ _ =>
        let claim : Claim := ⟨handle, stream, envelope, keyLease, extras⟩
        have hstage : unit.stage handle stream envelope keyLease extras =
            unit.stageClaim claim := rfl
        rw [hstage] at h
        rcases stageClaim_spec unit claim with ⟨cause, hs⟩ | ⟨version, hv, hs⟩
        · rw [hs] at h
          cases h
          exact .rest trivial
        · rw [hs] at h
          cases h
          exact .gather hk hknown hv trivial

theorem failed_committed {result : Except StreamError Bool} (h : result ≠ .ok true) :
    (Reply.committed result).Failed := by
  rcases result with cause | _ | _
  · trivial
  · trivial
  · exact absurd rfl h

theorem change_commitOn {stamp : Stamp} {result : Except StreamError Bool}
    (h : unit.commitOn backend stamp token state = (result, unit', state')) :
    Change unit call (.committed result) unit' := by
  rcases UnitOfWork.commitOn_cases h with ⟨rfl, -, ⟨hempty, rfl⟩ | ⟨-, cause, rfl⟩⟩ |
    ⟨agent, verdict, -, -, ⟨-, rfl, rfl⟩ | ⟨-, hrejected, rfl⟩⟩
  · -- there is nothing to drop
    have hsame : unit' = { unit' with staged := [] } := by rw [← hempty]
    rw [hsame]
    exact .commit
  · exact .rest trivial
  · exact .commit
  · exact .rest (failed_committed hrejected)

end CallLemmas

open CallLemmas

/-- Whatever the backend answers, a call does one of four things. -/
theorem change_performOn {σ : Type} {backend : Backend σ} {unit unit' : UnitOfWork} {call : Call}
    {reply : Reply} {state state' : σ}
    (h : unit.performOn backend state call = (reply, unit', state')) :
    Change unit call reply unit' := by
  cases call with
  | create key fresh =>
    cases h
    exact change_create rfl rfl
  | load key token =>
    rcases hr : unit.resolveOn backend key (.error (.unknownKey key)) token state with
      ⟨result, reached, after⟩
    simp only [UnitOfWork.performOn, hr] at h
    cases h
    exact change_resolveOn rfl (fun stream hs => by cases hs) hr
  | loadOrCreate key fresh token =>
    rcases hr : unit.resolveOn backend key (.ok (.unwritten key fresh)) token state with
      ⟨result, reached, after⟩
    simp only [UnitOfWork.performOn, hr] at h
    cases h
    exact change_resolveOn rfl (fun stream hs => by cases hs; rfl) hr
  | append key delta =>
    cases h
    exact change_append rfl rfl
  | appendKeyed key delta token =>
    rcases hr : unit.appendWithOn backend key delta .none token state with ⟨result, reached, after⟩
    simp only [UnitOfWork.performOn, hr] at h
    cases h
    exact change_appendWithOn rfl hr
  | appendWith key delta extras token =>
    rcases hr : unit.appendWithOn backend key delta extras token state with ⟨result, reached, after⟩
    simp only [UnitOfWork.performOn, hr] at h
    cases h
    exact change_appendWithOn rfl hr
  | commit stamp token =>
    rcases hr : unit.commitOn backend stamp token state with ⟨result, reached, after⟩
    simp only [UnitOfWork.performOn, hr] at h
    cases h
    exact change_commitOn hr

/-! ## 3. Calls that do not succeed -/

theorem Reply.Gathered.not_failed : ∀ {reply : Reply}, reply.Gathered → ¬ reply.Failed
  | .appended (.ok _), _ => id
  | .keyed (.ok true), _ => id

/-- Over any backend, a call that returns an error, or `false`, leaves the unit of work as it was:
its streams with their versions, its table of handles, and the staged messages in their order. A
commit that succeeds clears the staged messages and changes nothing else. The calls over a
repository, whatever its layers are and whatever fails in its storage, are among these. -/
theorem failed_call_changes_nothing {σ : Type} (backend : Backend σ) (unit : UnitOfWork) :
    (∀ (call : Call) (state state' : σ) (reply : Reply) (unit' : UnitOfWork),
      unit.performOn backend state call = (reply, unit', state') →
      (reply.Failed → unit' = unit) ∧
        (reply = .committed (.ok true) → unit' = { unit with staged := [] })) ∧
    ∀ (call : Call) (storage : Storage),
      unit.perform storage call = unit.performOn unit.repository.backend storage call := by
  refine ⟨fun call state state' reply unit' h => ?_, fun call storage =>
    perform_eq_performOn unit storage call⟩
  cases change_performOn h with
  | rest hfailed =>
    refine ⟨fun _ => rfl, ?_⟩
    rintro rfl
    exact hfailed.elim
  | track => exact ⟨False.elim, nofun⟩
  | gather _ _ _ hgathered =>
    refine ⟨fun hfailed => absurd hfailed hgathered.not_failed, ?_⟩
    rintro rfl
    exact hgathered.elim
  | commit => exact ⟨False.elim, fun _ => rfl⟩

/-- A session on an empty log. The first commit and the first look fail. -/
def exDown : Storage :=
  let failing : ReadFault := ⟨fun _ => [], some (.timeout 10), 0, false⟩
  let (_, storage) := Storage.empty.addEngine .empty
  let (_, storage) := storage.addSession 0 .writer
  (storage.addScript ⟨[⟨none, some (.backend "down")⟩], [failing], [], [], []⟩).2

/-- A unit of work with a new stream and a message for it. -/
def exWaiting : UnitOfWork :=
  let unit := UnitOfWork.start (.bare (.scripted 0 0)) (.ok default)
  let (_, unit) := unit.create "orders" (.ofNat 1)
  (unit.append "orders" ⟨.native "note", .ok .null, none⟩).2

/-- The storage once a look has failed, and once a commit has failed after it. -/
def exTimedOut : Storage := (exWaiting.perform exDown (.load "carts" .never)).2.2

def exRefused : Storage := (exWaiting.perform exTimedOut (.commit default .never)).2.2

/-- Neither the look nor the commit that fails leaves a trace in the unit, so the commit succeeds
when it is tried again. -/
theorem failed_call_changes_nothing_down :
    exWaiting.staged.length = 1 ∧
    exWaiting.perform exDown (.load "carts" .never) =
      (.resolved (.error (.repository (.timeout 10))), exWaiting, exTimedOut) ∧
    exWaiting.perform exTimedOut (.commit default .never) =
      (.committed (.error (.repository (.backend "down"))), exWaiting, exRefused) ∧
    ∃ storage, exWaiting.perform exRefused (.commit default .never) =
      (.committed (.ok true), { exWaiting with staged := [] }, storage) := by
  obtain ⟨hchanges, hsame⟩ := failed_call_changes_nothing exWaiting.repository.backend exWaiting
  -- the theorem, for a call over the repository of the unit
  have hcall (storage : Storage) (call : Call) :=
    hchanges call storage (exWaiting.perform storage call).2.2
      (exWaiting.perform storage call).1 (exWaiting.perform storage call).2.1
      (hsame call storage).symm
  have hlooked := (hcall exDown (.load "carts" .never)).1 trivial
  have hfailed := (hcall exTimedOut (.commit default .never)).1 trivial
  have hdone := (hcall exRefused (.commit default .never)).2 rfl
  exact ⟨rfl, Prod.ext rfl (Prod.ext hlooked rfl), Prod.ext rfl (Prod.ext hfailed rfl), _,
    Prod.ext rfl (Prod.ext hdone rfl)⟩

end LeaseLog
