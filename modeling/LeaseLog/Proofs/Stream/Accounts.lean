import LeaseLog.Proofs.Storage.Layers
import LeaseLog.Proofs.Stream.Calls
import LeaseLog.Proofs.Stream.Naming
import Mathlib.Data.List.Nodup

/-!
# What a unit of work has gathered

A unit of work has a table of streams and one buffer for the messages of all of them. Two keys may
lead to one entity, so neither the identifier nor the leases of a staged message tell through which
stream it was gathered. An account of the calls keeps that, and where each stream stood when it was
looked up or when a commit was last accepted. The calls may be answered by any backend; over a
repository they are the calls of the unit, by `perform_eq_performOn`.

By the account, the messages gathered through a stream count on from there to the version that the
stream has now. A rejected commit does not disturb this, as the messages stay and so do the
versions.

Results:
1. `sound_change`: every call keeps the account in order, whatever the backend answers.
2. `handle?_leads`, `streamAt?_leads`: a handle stays with its key and its stream.
3. `handed_of_commitOn`, `commits_staged`: an accepted commit hands over the staged messages.
4. `staged_continue_streams`: all of this, for every unit of work.
-/

namespace LeaseLog

/-! ## Definitions -/

/-- A unit of work with an account of its calls. -/
structure Account where
  unit : UnitOfWork
  /-- The handle of the stream through which each staged message was gathered, in order. -/
  owners : List Nat
  /-- The version of each stream when it was looked up, or when a commit was last accepted if that
  was later. -/
  bases : List Version

namespace Account

/-- A unit of work without streams. -/
def start (repository : Repository) (signature : Signature) : Account :=
  ⟨.start repository signature, [], []⟩

/-- The account after a call, by what the call returned and what became of the unit. -/
def after (account : Account) (call : Call) (unit : UnitOfWork) : Reply → Account
  | .resolved (.ok handle) => { account with
      unit, bases := account.bases ++ ((unit.streamAt? handle).map Stream.version).toList }
  | .appended (.ok _) | .keyed (.ok true) => { account with
      unit, owners := account.owners ++ (call.key?.bind account.unit.handle?).toList }
  | .committed (.ok true) => ⟨unit, [], unit.streams.map Stream.version⟩
  | .resolved (.error _) | .appended (.error _) | .keyed (.error _) | .keyed (.ok false)
  | .committed (.error _) | .committed (.ok false) => { account with unit }

/-- The account after a call over a backend. -/
def step {σ : Type} (backend : Backend σ) (state : σ) (account : Account) (call : Call) : Account :=
  let (reply, unit, _) := account.unit.performOn backend state call
  account.after call unit reply

/-- Calls lead from one account to another one. The backend may be in any state at each of them. -/
inductive Leads {σ : Type} (backend : Backend σ) (first : Account) : Account → Prop
  | refl : Leads backend first first
  | call {last : Account} (state : σ) (call : Call) :
      Leads backend first last → Leads backend first (last.step backend state call)

/-- The account after several calls, with the backend in one state at all of them. -/
def run {σ : Type} (backend : Backend σ) (state : σ) (account : Account) (calls : List Call) :
    Account :=
  calls.foldl (step backend state) account

/-- The staged messages that were gathered through a stream, in order. -/
def through (account : Account) (handle : Nat) : List Message :=
  ((account.owners.zip account.unit.staged).filter fun pair => pair.1 = handle).map Prod.snd

end Account

/-- Messages of a stream lead from a version to the one that it has now, and take its lease. -/
structure Continues (base : Version) (messages : List Message) (stream : Stream) : Prop where
  ids : ∀ message ∈ messages, message.state.id = stream.id
  takes : ∀ message ∈ messages, streamLease stream.key ∈ message.addLeases
  /-- The versions are consecutive and start behind the base. -/
  versions : messages.map (·.state.version.toNat) = List.range' (base.toNat + 1) messages.length
  /-- The last one of them, or the base if there is none, is the version of the stream. -/
  ends : stream.version.toNat = base.toNat + messages.length

/-- The invariant of an account. -/
structure Account.Sound (account : Account) : Prop where
  indexed : account.unit.Indexed
  /-- Every staged message was gathered through a stream of the table. -/
  owned : account.owners.length = account.unit.staged.length
  owners : ∀ owner ∈ account.owners, owner < account.unit.streams.length
  based : account.bases.length = account.unit.streams.length
  continues : ∀ handle stream base, account.unit.streams[handle]? = some stream →
    account.bases[handle]? = some base → Continues base (account.through handle) stream

/-! ## 1. One call -/

open NamingLemmas

namespace AccountLemmas

variable {account : Account} {unit : UnitOfWork} {call : Call} {reply : Reply} {stream : Stream}
  {claim : Claim} {version base : Version} {key : String} {handle : Nat} {messages : List Message}

theorem after_failed (h : reply.Failed) : account.after call account.unit reply = account := by
  match reply, h with
  | .resolved (.error _), _ | .appended (.error _), _ | .keyed (.error _), _ | .keyed (.ok false), _
  | .committed (.error _), _ | .committed (.ok false), _ => rfl

theorem after_gathered (h : reply.Gathered) (hk : call.key? = some key)
    (hh : account.unit.handle? key = some handle) :
    account.after call unit reply =
      { account with unit, owners := account.owners ++ [handle] } := by
  have howner : (call.key?.bind account.unit.handle?).toList = [handle] := by
    rw [hk, Option.bind_some, hh, Option.toList_some]
  rw [← howner]
  match reply, h with
  | .appended (.ok _), _ | .keyed (.ok true), _ => rfl

theorem after_track :
    account.after call (account.unit.track stream).2 (.resolved (.ok account.unit.streams.length)) =
      ⟨(account.unit.track stream).2, account.owners, account.bases ++ [stream.version]⟩ := by
  have hlast : (account.unit.track stream).2.streamAt? account.unit.streams.length = some stream :=
    streamAt?_track account.unit stream
  simp [Account.after, hlast]

/-! ### Messages through a stream -/

theorem through_eq_nil (ho : ∀ owner ∈ account.owners, owner < account.unit.streams.length)
    (h : account.unit.streams.length ≤ handle) : account.through handle = [] := by
  rw [Account.through, List.map_eq_nil_iff, List.filter_eq_nil_iff]
  rintro ⟨owner, message⟩ hm hd
  have howner : owner < account.unit.streams.length := ho owner (List.of_mem_zip hm).1
  exact absurd h (Nat.not_le.mpr ((of_decide_eq_true hd : owner = handle) ▸ howner))

/-- A message that is gathered through a stream is the last one of it, and other streams do not
notice. -/
theorem through_push (ho : account.owners.length = account.unit.staged.length) :
    (Account.mk (account.unit.push claim version) (account.owners ++ [claim.handle])
        account.bases).through handle =
      if claim.handle = handle then account.through handle ++ [claim.message version]
      else account.through handle := by
  show (((account.owners ++ [claim.handle]).zip
    (account.unit.staged ++ [claim.message version])).filter _).map _ = _
  rw [List.zip_append ho, List.filter_append, List.map_append]
  by_cases he : claim.handle = handle
  · simp [he, Account.through]
  · simp [he, Account.through]

theorem continues_nil : Continues stream.version [] stream where
  ids _ hm := by cases hm
  takes _ hm := by cases hm
  versions := rfl
  ends := rfl

theorem continues_push (hc : Continues base messages claim.stream)
    (hv : version.toNat = claim.stream.version.toNat + 1) :
    Continues base (messages ++ [claim.message version]) { claim.stream with version } where
  ids message hm := by
    rcases List.mem_append.mp hm with hm | hm
    · exact hc.ids message hm
    · cases List.mem_singleton.mp hm
      rw [state_message]
  takes message hm := by
    rcases List.mem_append.mp hm with hm | hm
    · exact hc.takes message hm
    · cases List.mem_singleton.mp hm
      exact mem_addLeases_ofStream.mpr (.inl rfl)
  versions := by
    have hlast : version.toNat = base.toNat + 1 + messages.length := by
      rw [hv, hc.ends, Nat.add_right_comm]
    rw [List.map_append, List.length_append, List.length_singleton, List.range'_1_concat,
      hc.versions, ← hlast]
    simp
  ends := by
    show version.toNat = _
    rw [List.length_append, List.length_singleton, hv, hc.ends, Nat.add_assoc]

end AccountLemmas

open AccountLemmas

/-- Every call keeps the account in order. -/
theorem sound_change {account : Account} {call : Call} {reply : Reply} {unit : UnitOfWork}
    (hs : account.Sound) (h : Change account.unit call reply unit) :
    (account.after call unit reply).Sound := by
  cases h with
  | rest hfailed =>
    rw [after_failed hfailed]
    exact hs
  | @track stream hkey hunknown =>
    rw [after_track]
    refine ⟨indexed_track hs.indexed hunknown, hs.owned, fun owner ho => ?_, ?_,
      fun handle found base hf hb => ?_⟩
    · rw [UnitOfWork.track, List.length_append]
      exact Nat.lt_add_right _ (hs.owners owner ho)
    · rw [UnitOfWork.track, List.length_append, List.length_append, hs.based]
      rfl
    · have hthrough : (Account.mk (account.unit.track stream).2 account.owners
          (account.bases ++ [stream.version])).through handle = account.through handle := rfl
      rw [hthrough]
      rcases getElem?_concat_iff.mp hf with hf | ⟨rfl, rfl⟩
      · have hlt : handle < account.bases.length :=
          hs.based ▸ (List.getElem?_eq_some_iff.mp hf).1
        rw [List.getElem?_append_left hlt] at hb
        exact hs.continues handle found base hf hb
      · -- nothing was gathered through the stream yet
        rw [← hs.based, List.getElem?_concat_length] at hb
        cases hb
        rw [through_eq_nil hs.owners (Nat.le_refl _)]
        exact continues_nil
  | @gather _ key claim version hkey hknown hversion hgathered =>
    obtain ⟨hhandle, hstream⟩ := UnitOfWork.known_eq_ok hknown
    rw [after_gathered hgathered hkey hhandle]
    refine ⟨indexed_push hs.indexed hstream version, ?_, fun owner ho => ?_, ?_,
      fun handle found base hf hb => ?_⟩
    · simp [UnitOfWork.push, hs.owned]
    · rw [UnitOfWork.push, List.length_set]
      rcases List.mem_append.mp ho with ho | ho
      · exact hs.owners owner ho
      · cases List.mem_singleton.mp ho
        exact (List.getElem?_eq_some_iff.mp hstream).1
    · rw [UnitOfWork.push, List.length_set]
      exact hs.based
    · have hf : (account.unit.streams.set claim.handle { claim.stream with version })[handle]? =
          some found := hf
      rw [through_push hs.owned]
      by_cases he : claim.handle = handle
      · subst he
        rw [List.getElem?_set_self (List.getElem?_eq_some_iff.mp hstream).1] at hf
        cases hf
        rw [if_pos rfl]
        exact continues_push (hs.continues _ _ base hstream hb) hversion
      · rw [List.getElem?_set_ne he] at hf
        rw [if_neg he]
        exact hs.continues handle found base hf hb
  | commit =>
    refine ⟨hs.indexed, rfl, fun _ ho => absurd ho List.not_mem_nil, List.length_map _,
      fun handle found base hf hb => ?_⟩
    have hf : account.unit.streams[handle]? = some found := hf
    have hb : (account.unit.streams.map Stream.version)[handle]? = some base := hb
    rw [List.getElem?_map, hf] at hb
    cases hb
    exact continues_nil

/-! ### Handles -/

namespace AccountLemmas

variable {unit unit' : UnitOfWork} {call : Call} {reply : Reply} {handle : Nat}

theorem handle?_change (h : Change unit call reply unit') {key : String}
    (hh : unit.handle? key = some handle) : unit'.handle? key = some handle := by
  cases h with
  | rest => exact hh
  | track _ hunknown =>
    rw [handle?_track, if_neg]
    · exact hh
    · rintro rfl
      rw [hh] at hunknown
      cases hunknown
  | gather => exact hh
  | commit => exact hh

theorem streamAt?_change (h : Change unit call reply unit') {stream : Stream}
    (hs : unit.streamAt? handle = some stream) :
    ∃ version, unit'.streamAt? handle = some { stream with version } := by
  cases h with
  | rest => exact ⟨stream.version, hs⟩
  | track => exact ⟨stream.version, getElem?_concat_iff.mpr (.inl hs)⟩
  | @gather _ key claim version _ hknown =>
    have hclaim := (UnitOfWork.known_eq_ok hknown).2
    by_cases he : claim.handle = handle
    · subst he
      cases hclaim.symm.trans hs
      exact ⟨version, List.getElem?_set_self (List.getElem?_eq_some_iff.mp hs).1⟩
    · exact ⟨stream.version, (List.getElem?_set_ne he).trans hs⟩
  | commit => exact ⟨stream.version, hs⟩

end AccountLemmas

/-! ## 2. Any number of calls -/

section

variable {σ : Type} {backend : Backend σ} {account last : Account} {handle : Nat}

theorem sound_start {repository : Repository} {signature : Signature} :
    (Account.start repository signature).Sound where
  indexed := indexed_start
  owned := rfl
  owners owner ho := by cases ho
  based := rfl
  continues handle stream base hs := by simp [Account.start, UnitOfWork.start] at hs

theorem change_step (backend : Backend σ) (state : σ) (account : Account) (call : Call) :
    ∃ reply unit, Change account.unit call reply unit ∧
      account.step backend state call = account.after call unit reply :=
  ⟨_, _, change_performOn rfl, rfl⟩

theorem sound_leads (hs : account.Sound) (h : account.Leads backend last) : last.Sound := by
  induction h with
  | refl => exact hs
  | call state call _ ih =>
    obtain ⟨reply, unit, hchange, hstep⟩ := change_step backend state _ call
    rw [hstep]
    exact sound_change ih hchange

theorem leads_run {state : σ} {calls : List Call} :
    ∀ {last : Account}, account.Leads backend last →
      account.Leads backend (last.run backend state calls) := by
  induction calls with
  | nil => exact id
  | cons call calls ih => exact fun h => ih (.call state call h)

theorem unit_after {call : Call} {unit : UnitOfWork} {reply : Reply} :
    (account.after call unit reply).unit = unit := by
  rcases reply with (_ | _) | (_ | _) | (_ | _ | _) | (_ | _ | _) <;> rfl

/-- A key keeps its handle. -/
theorem handle?_leads (h : account.Leads backend last) {key : String}
    (hh : account.unit.handle? key = some handle) : last.unit.handle? key = some handle := by
  induction h with
  | refl => exact hh
  | call state call _ ih =>
    obtain ⟨reply, unit, hchange, hstep⟩ := change_step backend state _ call
    rw [hstep, unit_after]
    exact handle?_change hchange ih

/-- A handle keeps its stream. Only the version of the stream moves on. -/
theorem streamAt?_leads (h : account.Leads backend last) {stream : Stream}
    (hs : account.unit.streamAt? handle = some stream) :
    ∃ version, last.unit.streamAt? handle = some { stream with version } := by
  induction h with
  | refl => exact ⟨stream.version, hs⟩
  | call state call _ ih =>
    obtain ⟨version, hbefore⟩ := ih
    obtain ⟨reply, unit, hchange, hstep⟩ := change_step backend state _ call
    rw [hstep, unit_after]
    have hafter := streamAt?_change hchange hbefore
    exact hafter

end

/-! ## 3. Commits -/

section

variable {unit unit' : UnitOfWork} {stamp : Stamp} {token : Token}

/-- A commit that succeeds hands over the staged messages as one source, once, and the backend
accepts it. If nothing is staged, nothing is handed over. -/
theorem handed_of_commitOn {σ : Type} {backend : Backend σ} {state state' : σ}
    (h : unit.commitOn backend stamp token state = (.ok true, unit', state')) :
    (unit.staged = [] ∧ state' = state) ∨
      ∃ source, source.messages = unit.staged ∧
        backend.commit source token state = (.ok true, state') := by
  rcases UnitOfWork.commitOn_cases h with ⟨-, hstate, ⟨hempty, -⟩ | ⟨-, cause, hcause⟩⟩ |
    ⟨agent, verdict, -, hcommit, ⟨rfl, -, -⟩ | ⟨-, hrejected, -⟩⟩
  · exact .inl ⟨hempty, hstate⟩
  · cases hcause
  · exact .inr ⟨.ofStamp stamp agent unit.staged, rfl, hcommit⟩
  · exact absurd rfl hrejected

/-- Through any layers, a commit of staged messages that succeeds adds one source with these
messages to the log. -/
theorem commits_staged {storage after : Storage} {session : Session}
    (hs : storage.Serves unit.repository.base.sessionIndex session unit.repository.ledger?)
    (hstaged : unit.staged ≠ [])
    (h : unit.commit stamp token storage = (.ok true, unit', after)) :
    ∃ source, source.messages = unit.staged ∧
      storage.Commits session.engine unit.repository.ledger? source after := by
  rcases handed_of_commitOn h with ⟨hempty, -⟩ | ⟨source, hmessages, hcommit⟩
  · exact absurd hempty hstaged
  · refine ⟨source, hmessages, ?_⟩
    have hcommit : unit.repository.commitUntil source token .never storage = (.ok true, after) :=
      hcommit
    have hsettles : storage.Settles session.engine unit.repository.ledger? source
        (unit.repository.commitUntil source token .never storage) := settles_commitUntil hs
    rw [hcommit] at hsettles
    rcases hsettles with ⟨-, hc⟩ | ⟨hne, -⟩
    · exact hc
    · exact absurd rfl hne

end

/-! ## 4. Every unit of work -/

/-- In every account of a new unit of work, over any backend: the table and the handles are inverse
to each other, no key is in the table twice, and a handle stays with its key and its stream. The
messages that were gathered through a stream count on from the version at which the stream was
looked up, or at which a commit was last accepted, to its current version. An accepted commit hands
over exactly the staged messages as one source, and over a repository it is this source by which the
log grows. -/
theorem staged_continue_streams {σ : Type} {backend : Backend σ} {repository : Repository}
    {signature : Signature} {account : Account}
    (h : (Account.start repository signature).Leads backend account) :
    (∀ key handle, account.unit.handle? key = some handle ↔
      ∃ stream, account.unit.streamAt? handle = some stream ∧ stream.key = key) ∧
    (account.unit.streams.map Stream.key).Nodup ∧
    (∀ last, account.Leads backend last →
      (∀ key handle, account.unit.handle? key = some handle →
        last.unit.handle? key = some handle) ∧
      ∀ handle stream, account.unit.streamAt? handle = some stream →
        ∃ version, last.unit.streamAt? handle = some { stream with version }) ∧
    account.owners.length = account.unit.staged.length ∧
    (∀ owner ∈ account.owners, ∃ stream, account.unit.streamAt? owner = some stream) ∧
    (∀ handle stream, account.unit.streamAt? handle = some stream →
      ∃ base, account.bases[handle]? = some base ∧
        Continues base (account.through handle) stream) ∧
    (∀ stamp token state unit' state',
      account.unit.commitOn backend stamp token state = (.ok true, unit', state') →
      (account.unit.staged = [] ∧ state' = state) ∨
        ∃ source, source.messages = account.unit.staged ∧
          backend.commit source token state = (.ok true, state')) ∧
    ∀ stamp token storage session unit' after,
      storage.Serves account.unit.repository.base.sessionIndex session
        account.unit.repository.ledger? →
      account.unit.staged ≠ [] →
      account.unit.commit stamp token storage = (.ok true, unit', after) →
      ∃ source, source.messages = account.unit.staged ∧
        storage.Commits session.engine account.unit.repository.ledger? source after := by
  have hs : account.Sound := sound_leads sound_start h
  have hindexed (key : String) (handle : Nat) : account.unit.handle? key = some handle ↔
      ∃ stream, account.unit.streamAt? handle = some stream ∧ stream.key = key := by
    rw [hs.indexed, UnitOfWork.names, List.map_map, List.getElem?_map]
    simp [UnitOfWork.streamAt?]
  refine ⟨hindexed, ?_, fun last hl => ⟨fun key handle => handle?_leads hl,
    fun handle stream => streamAt?_leads hl⟩, hs.owned, fun owner ho => ?_,
    fun handle stream hstream => ?_, fun stamp token state unit' state' => handed_of_commitOn,
    fun stamp token storage session unit' after => commits_staged⟩
  · -- a key that is in the table twice would have two handles
    refine List.nodup_iff_getElem?_ne_getElem?.mpr fun i j hij hj he => ?_
    obtain ⟨key, hkey⟩ : ∃ key, (account.unit.streams.map Stream.key)[j]? = some key :=
      ⟨_, List.getElem?_eq_getElem hj⟩
    have hhandle {handle : Nat} (hk : (account.unit.streams.map Stream.key)[handle]? = some key) :
        account.unit.handle? key = some handle := by
      rw [hindexed]
      simpa [UnitOfWork.streamAt?] using hk
    have htwo := (hhandle (he.trans hkey)).symm.trans (hhandle hkey)
    exact absurd (Option.some.inj htwo) (Nat.ne_of_lt hij)
  · exact ⟨_, List.getElem?_eq_getElem (hs.owners owner ho)⟩
  · have hlt : handle < account.bases.length :=
      hs.based ▸ (List.getElem?_eq_some_iff.mp hstream).1
    exact ⟨_, List.getElem?_eq_getElem hlt,
      hs.continues handle stream _ hstream (List.getElem?_eq_getElem hlt)⟩

/-- A log in which one entity holds the leases of two streams, and a session on it. -/
def exShared : Storage :=
  let message := Message.ofStream "orders" ⟨.ofNat 1, (Version.ofNat? 1).getD .zero⟩ default none
    ⟨[streamLease "carts"], [], [], []⟩
  let (_, storage) :=
    Storage.empty.addEngine ⟨(LogState.empty.commit ⟨.ofNat 7, default, default, [message]⟩).2, 0⟩
  (storage.addSession 0 .writer).2

/-- The repository over the session. -/
def exShop : Repository := .logging (.bare (.plain 0))

/-- Both streams are loaded, and a message is gathered through each of them. The commit is rejected,
as both messages write version two, and one more message is gathered. -/
def exTwice : Account :=
  let delta : Delta := ⟨.native "note", .ok .null, none⟩
  (Account.start exShop (.ok default)).run exShop.backend exShared
    [.load "orders" .never, .load "carts" .never, .append "orders" delta, .append "carts" delta,
      .commit default .never, .append "orders" delta]

/-- Three messages of one entity wait; by their streams they count two, three and two. -/
theorem staged_continue_streams_shared :
    (exTwice.unit.commit default .never exShared).1 = .ok false ∧
    exTwice.unit.staged.map (·.state.version.toNat) = [2, 2, 3] ∧
    exTwice.owners = [0, 1, 0] ∧ exTwice.bases.map Version.toNat = [1, 1] ∧
    exTwice.unit.handle? "carts" = some 1 ∧
    (∃ stream, exTwice.unit.streamAt? 0 = some stream ∧ stream.version.toNat = 3 ∧
      (exTwice.through 0).map (·.state.version.toNat) = [2, 3]) ∧
    ∃ stream, exTwice.unit.streamAt? 1 = some stream ∧ stream.version.toNat = 2 ∧
      (exTwice.through 1).map (·.state.version.toNat) = [2] := by
  have h : (Account.start exShop (.ok default)).Leads exShop.backend exTwice := leads_run .refl
  obtain ⟨hindexed, -, -, -, -, hcontinues, -, -⟩ := staged_continue_streams h
  refine ⟨by decide, by decide, by decide, by decide, (hindexed "carts" 1).mpr ⟨_, rfl, rfl⟩,
    ?_, ?_⟩
  · obtain ⟨base, hbase, hc⟩ := hcontinues 0 _ rfl
    cases hbase
    exact ⟨_, rfl, hc.ends, hc.versions⟩
  · obtain ⟨base, hbase, hc⟩ := hcontinues 1 _ rfl
    cases hbase
    exact ⟨_, rfl, hc.ends, hc.versions⟩

end LeaseLog
