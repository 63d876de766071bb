import LeaseLog.Proofs.Storage.Bootstrap

/-!
# Listings while others write

A listing looks at four things at different times: whether its session is open, when it is
requested; the log, when the first entry is asked for; the token, whenever an entry is about to be
handed out; and whether it has failed before, after that. Meanwhile sessions commit and purge, the
session of the listing may be disposed of, and the token may be cancelled.

Results:
1. `polls_requested`: the log of the first poll is the only one that a listing looks at.
2. `delivered_running`: what was found then is handed out in order, up to the end or up to one
   failure; `entries_running`: what a poll gets depends on the token alone.
3. `enumeration_is_snapshot`: a listing is a snapshot that is complete or visibly failed.
-/

namespace LeaseLog

/-! ## Definitions -/

/-- What happens around a listing. -/
inductive Happening
  /-- A session is asked for something: a commit, a purge, its disposal, a listing of its own; or
  time passes. -/
  | ask (index : Nat) (request : Request)
  | connect (engine : Nat) (options : SessionOptions)
  /-- The token of the listing is cancelled. -/
  | cancel

/-- What a poll of a listing gets, and whether the token was cancelled then. -/
structure Poll (listing : Listing) where
  cancelled : Bool
  entry : Option (Entry listing)

/-- A poll that gets an item. -/
def Poll.item {listing : Listing} (item : listing.Item) : Poll listing := ⟨false, some (.ok item)⟩

/-- A listing that somebody reads, with everything around it. -/
structure Enumeration (listing : Listing) where
  storage : Storage
  token : Token
  scan : Scan listing

namespace Enumeration

/-- What happens once a listing was requested. -/
inductive Step
  | poll
  | meanwhile (happening : Happening)

variable {listing : Listing}

/-- Requests a listing from a session. -/
def request (storage : Storage) (index : Nat) (listing : Listing) (query : Query) (token : Token) :
    Enumeration listing :=
  ⟨storage, token, Store.scan storage index listing query⟩

/-- Something happens around the listing. -/
def after (reading : Enumeration listing) : Happening → Enumeration listing
  | .ask index request => { reading with storage := (reading.storage.ask index request).2 }
  | .connect engine options =>
    { reading with storage := (reading.storage.addSession engine options).2 }
  | .cancel => { reading with token := reading.token.cancel }

/-- Asks for the next entry. The token is looked at once the log was. -/
def poll (reading : Enumeration listing) : Poll listing × Enumeration listing :=
  let (entry, scan, storage) := reading.scan.poll reading.token reading.storage
  (⟨reading.token.isCancelled storage.now, entry⟩, ⟨storage, reading.token, scan⟩)

/-- The polls of a listing while other things happen. -/
def polls (reading : Enumeration listing) : List Step → List (Poll listing)
  | [] => []
  | .poll :: steps => reading.poll.1 :: reading.poll.2.polls steps
  | .meanwhile happening :: steps => (reading.after happening).polls steps

end Enumeration

/-- Polls get some items in order, each under a token that is not cancelled, and then the end; or,
in place of an item whose poll finds the token cancelled, this failure, and then the end. -/
inductive Delivered {listing : Listing} (items : List listing.Item) : List (Poll listing) → Prop
  /-- So far nothing but items was asked for. -/
  | underway {given rest : List listing.Item} : items = given ++ rest →
      Delivered items (given.map Poll.item)
  | complete {ended : List (Poll listing)} : (∀ poll ∈ ended, poll.entry = none) →
      Delivered items (items.map Poll.item ++ ended)
  | failed {given rest : List listing.Item} {next : listing.Item} {ended : List (Poll listing)} :
      items = given ++ next :: rest → (∀ poll ∈ ended, poll.entry = none) →
      Delivered items (given.map Poll.item ++ ⟨true, some (.error .cancelled)⟩ :: ended)

/-- The first poll gets a failure and the others the end. The failure is that the session was
closed, unless the poll finds the token cancelled. -/
inductive Refused {listing : Listing} : List (Poll listing) → Prop
  | closed {ended : List (Poll listing)} : (∀ poll ∈ ended, poll.entry = none) →
      Refused (⟨false, some (.error .closed)⟩ :: ended)
  | cancelled {ended : List (Poll listing)} : (∀ poll ∈ ended, poll.entry = none) →
      Refused (⟨true, some (.error .cancelled)⟩ :: ended)

/-! ## 1. The first poll -/

namespace EnumerationLemmas

open BootstrapLemmas Enumeration

variable {listing : Listing} {storage : Storage} {token : Token}

/-- A request settles which engine is listed, what is selected, and whether the session was open. -/
theorem scan_foldl_after (reading : Enumeration listing) (happenings : List Happening) :
    (happenings.foldl after reading).scan = reading.scan := by
  induction happenings generalizing reading with
  | nil => rfl
  | cons happening happenings ih =>
    rw [List.foldl_cons, ih]
    cases happening <;> rfl

/-- The first poll looks at the log, and from then on the listing has its entries. -/
theorem polls_requested (engine : Nat) (plan : Plan) (access : Except RepositoryError Unit)
    (steps : List Step) :
    let scan : Scan listing := .requested engine plan access
    polls ⟨storage, token, scan⟩ (.poll :: steps) =
      polls ⟨scan.touch storage, token, .running (scan.entries storage)⟩ (.poll :: steps) := by
  cases access <;> rfl

/-! ## 2. The polls of a listing that looked at the log -/

/-- A poll of a listing that looked at the log does not look at it again. -/
theorem poll_running (pending : List (Entry listing)) :
    poll ⟨storage, token, .running pending⟩ =
      (⟨token.isCancelled storage.now, (Scan.next (token.isCancelled storage.now) pending).1⟩,
        ⟨storage, token, (Scan.next (token.isCancelled storage.now) pending).2⟩) :=
  rfl

/-- Nothing follows the end. -/
theorem polls_ended (steps : List Step) :
    ∀ poll ∈ polls (⟨storage, token, .running []⟩ : Enumeration listing) steps,
      poll.entry = none := by
  induction steps generalizing storage token with
  | nil => exact fun _ hm => absurd hm List.not_mem_nil
  | cons step steps ih =>
    cases step with
    | poll => exact List.forall_mem_cons.mpr ⟨rfl, ih⟩
    | meanwhile happening => cases happening <;> exact ih

theorem delivered_cons {item : listing.Item} {items : List listing.Item}
    {polls : List (Poll listing)} (h : Delivered items polls) :
    Delivered (item :: items) (Poll.item item :: polls) := by
  cases h with
  | @underway given rest hitems =>
    have hmore : item :: items = (item :: given) ++ rest := by rw [hitems, List.cons_append]
    exact .underway hmore
  | complete hended => exact .complete hended
  | @failed given rest next ended hitems hended =>
    have hmore : item :: items = (item :: given) ++ next :: rest := by
      rw [hitems, List.cons_append]
    exact .failed hmore hended

/-- Items that were found are handed out up to the end or up to a cancellation. -/
theorem delivered_running (items : List listing.Item) (steps : List Step) :
    Delivered items (polls ⟨storage, token, .running (items.map .ok)⟩ steps) := by
  induction steps generalizing storage token items with
  | nil => exact .underway (List.nil_append items).symm
  | cons step steps ih =>
    cases step with
    | meanwhile happening => cases happening <;> exact ih items
    | poll =>
      rw [polls, poll_running]
      cases items with
      | nil => exact .complete (List.forall_mem_cons.mpr ⟨rfl, polls_ended steps⟩)
      | cons item items =>
        cases hc : token.isCancelled storage.now with
        | false => exact delivered_cons (ih items)
        | true => exact .failed (List.nil_append (item :: items)).symm (polls_ended steps)

/-- A failure that was found is handed out, or the cancellation in its place. -/
theorem refused_running (steps : List Step) :
    Refused (polls (⟨storage, token, .running [.error .closed]⟩ : Enumeration listing)
      (.poll :: steps)) := by
  rw [polls, poll_running]
  cases hc : token.isCancelled storage.now with
  | false => exact .closed (polls_ended steps)
  | true => exact .cancelled (polls_ended steps)

/-- What polls get, if it is known which of them find the token cancelled. -/
def answers (pending : List (Entry listing)) : List Bool → List (Option (Entry listing))
  | [] => []
  | cancelled :: flags =>
    match pending, cancelled with
    | [], _ => none :: answers [] flags
    | _ :: _, true => some (.error .cancelled) :: answers [] flags
    | .ok item :: pending, false => some (.ok item) :: answers pending flags
    | .error cause :: _, false => some (.error cause) :: answers [] flags

/-- What a poll gets depends on the entries that were found and on the token, and on nothing
else. -/
theorem entries_running (pending : List (Entry listing)) (steps : List Step) :
    let found := polls ⟨storage, token, .running pending⟩ steps
    found.map Poll.entry = answers pending (found.map Poll.cancelled) := by
  induction steps generalizing storage token pending with
  | nil => rfl
  | cons step steps ih =>
    cases step with
    | meanwhile happening => cases happening <;> exact ih pending
    | poll =>
      simp only [polls, poll_running, List.map_cons]
      rcases pending with _ | ⟨item | cause, pending⟩ <;>
        cases token.isCancelled storage.now <;>
        exact congrArg _ (ih _)

end EnumerationLemmas

open EnumerationLemmas

/-! ## 3. The result -/

/-- A listing is requested from a session, other things happen, and then it is polled while more
happens: commits and purges by any session, disposals, a cancellation of its token. If the session
was open when the listing was requested, what the listing selects from the log at the first poll is
handed out in order and to the end, or up to a visible cancellation. If the session was closed, the
first poll fails and nothing is handed out. Whatever else happens after the first poll, the polls
get the same as long as they find the token in the same state. -/
theorem enumeration_is_snapshot {storage : Storage} {index : Nat} {session : Session}
    (hs : storage.sessions[index]? = some session) (listing : Listing) (query : Query)
    (token : Token) (before : List Happening) (steps : List Enumeration.Step) :
    let first := before.foldl Enumeration.after (.request storage index listing query token)
    let items := listing.snapshot (first.storage.stateOf session.engine) (.of query)
    (session.closed = false → Delivered items (first.polls (.poll :: steps))) ∧
    (session.closed = true → Refused (first.polls (.poll :: steps))) ∧
    ∀ other, (first.polls (.poll :: other)).map Poll.cancelled =
        (first.polls (.poll :: steps)).map Poll.cancelled →
      (first.polls (.poll :: other)).map Poll.entry =
        (first.polls (.poll :: steps)).map Poll.entry := by
  intro first items
  let scan : Scan listing := .requested session.engine (.of query) session.ensureOpen
  have hscan : first.scan = scan := by
    rw [scan_foldl_after, Enumeration.request, Store.scan, hs]
  have hpolls (steps : List Enumeration.Step) : first.polls (.poll :: steps) =
      Enumeration.polls
        ⟨scan.touch first.storage, first.token, .running (scan.entries first.storage)⟩
        (.poll :: steps) := by
    have hfirst : first = ⟨first.storage, first.token, scan⟩ := by rw [← hscan]
    exact (congrArg (Enumeration.polls · (.poll :: steps)) hfirst).trans
      (polls_requested session.engine (.of query) session.ensureOpen steps)
  refine ⟨fun ho => ?_, fun hc => ?_, fun other hflags => ?_⟩
  · have hopen : session.ensureOpen = .ok () := by rw [Session.ensureOpen, ho]; rfl
    have hentries : scan.entries first.storage = items.map .ok := by
      simp only [scan, Scan.entries, hopen]
      rfl
    rw [hpolls, hentries]
    exact delivered_running items (.poll :: steps)
  · have hclosed : session.ensureOpen = .error .closed := by rw [Session.ensureOpen, hc]; rfl
    have hentries : scan.entries first.storage = [.error .closed] := by
      simp only [scan, Scan.entries, hclosed]
    rw [hpolls, hentries]
    exact refused_running steps
  · rw [hpolls, hpolls] at hflags ⊢
    rw [entries_running, entries_running, hflags]

/-- Two sources are committed once a listing of all sources was requested. -/
def exCommitted : List Happening :=
  [.ask 0 (.commit (exWrite 7 1 1) .never), .ask 0 (.commit (exWrite 8 2 1) .never)]

/-- After the first poll the second source is purged and the session is disposed of. -/
def exPurged : List Enumeration.Step :=
  [.meanwhile (.ask 0 (.purge (.ofNat 8))), .meanwhile (.ask 0 .dispose), .poll, .poll]

/-- After the first poll the token is cancelled. -/
def exCancelled : List Enumeration.Step := [.meanwhile .cancel, .poll, .poll]

/-- Both sources are listed although one of them is purged in between, and a cancellation shows. A
listing that is requested from a disposed session fails. -/
theorem enumeration_is_snapshot_purged :
    let query : Query := ⟨.all, none, none, none, none⟩
    let request (storage : Storage) : Enumeration .sourceIds :=
      exCommitted.foldl Enumeration.after (.request storage 0 .sourceIds query .never)
    let found : List Ident := [.ofNat 7, .ofNat 8]
    exFresh.sessions[0]? = some ⟨0, .writer, false⟩ ∧
    (exFresh.disposeSession 0).sessions[0]? = some ⟨0, .writer, true⟩ ∧
    Listing.sourceIds.snapshot ((request exFresh).storage.stateOf 0) (.of query) = found ∧
    @Delivered .sourceIds found ((request exFresh).polls (.poll :: exPurged)) ∧
    @Delivered .sourceIds found ((request exFresh).polls (.poll :: exCancelled)) ∧
    ((request exFresh).polls (.poll :: exCancelled)).map Poll.entry =
      [some (.ok (.ofNat 7)), some (.error .cancelled), none] ∧
    Refused ((request (exFresh.disposeSession 0)).polls (.poll :: exPurged)) := by
  intro query request found
  have hopen : exFresh.sessions[0]? = some ⟨0, .writer, false⟩ := rfl
  have hclosed : (exFresh.disposeSession 0).sessions[0]? = some ⟨0, .writer, true⟩ := rfl
  have hfound : Listing.sourceIds.snapshot ((request exFresh).storage.stateOf 0) (.of query) =
      found := by decide +kernel
  obtain ⟨hpurged, -, -⟩ :=
    enumeration_is_snapshot hopen .sourceIds query .never exCommitted exPurged
  obtain ⟨hcancelled, -, -⟩ :=
    enumeration_is_snapshot hopen .sourceIds query .never exCommitted exCancelled
  obtain ⟨-, hrefused, -⟩ :=
    enumeration_is_snapshot hclosed .sourceIds query .never exCommitted exPurged
  rw [← hfound]
  exact ⟨hopen, hclosed, rfl, hpurged rfl, hcancelled rfl, by decide +kernel, hrefused rfl⟩

end LeaseLog
