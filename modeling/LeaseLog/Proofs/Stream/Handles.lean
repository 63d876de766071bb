import LeaseLog.Proofs.Stream.Accounts

/-!
# What a handle leads to

A handle is the number of streams that its unit of work had looked up before. It stays with its
stream, but nothing in it tells the units apart: every unit counts from zero. To a unit that did not
give it out a handle is a position in a table of its own. It leads to nothing as long as that table
is short, and to a stream that the unit looked up itself as soon as the table is long enough.

Results:
1. `keys_leads`: the table of a unit has the keys that it looked up, in their order.
2. `handle_by_position`: what a handle leads to in the unit that gave it out, and in every other
   one.
3. `foreign_handle_resolves`: so two units can take one handle for two streams.
-/

namespace LeaseLog

/-! ## Definitions -/

/-- Calls lead from one unit of work to another one, with what each of them returned. The backend
may be in any state at each of them. -/
inductive UnitOfWork.Leads {σ : Type} (backend : Backend σ) (first : UnitOfWork) :
    List (Call × Reply) → UnitOfWork → Prop
  | refl : Leads backend first [] first
  | call {events : List (Call × Reply)} {last : UnitOfWork} (state : σ) (call : Call) :
      Leads backend first events last →
      Leads backend first (events ++ [(call, (last.performOn backend state call).1)])
        (last.performOn backend state call).2.1

/-- The key of the stream that a call looked up. -/
def resolvedKey? : Call × Reply → Option String
  | (call, .resolved (.ok _)) => call.key?
  | (_, .resolved (.error _)) | (_, .appended _) | (_, .keyed _) | (_, .committed _) => none

/-- The keys of all streams that calls looked up, in their order. -/
def resolvedKeys (events : List (Call × Reply)) : List String := events.filterMap resolvedKey?

/-! ## 1. One call and any number of calls -/

open NamingLemmas AccountLemmas

namespace HandleLemmas

variable {unit unit' : UnitOfWork} {call : Call} {reply : Reply}

theorem resolvedKey?_failed (h : reply.Failed) : resolvedKey? (call, reply) = none := by
  match reply, h with
  | .resolved (.error _), _ | .appended (.error _), _ | .keyed (.error _), _ | .keyed (.ok false), _
  | .committed (.error _), _ | .committed (.ok false), _ => rfl

theorem resolvedKey?_gathered (h : reply.Gathered) : resolvedKey? (call, reply) = none := by
  match reply, h with
  | .appended (.ok _), _ | .keyed (.ok true), _ => rfl

/-- A call puts the key that it looked up behind those that the table has. -/
theorem keys_change (h : Change unit call reply unit') :
    unit'.streams.map Stream.key =
      unit.streams.map Stream.key ++ (resolvedKey? (call, reply)).toList := by
  cases h with
  | rest hfailed => rw [resolvedKey?_failed hfailed, Option.toList_none, List.append_nil]
  | @track stream hkey =>
    have hresolved : resolvedKey? (call, .resolved (.ok unit.streams.length)) =
        some stream.key := hkey
    rw [hresolved, Option.toList_some, UnitOfWork.track, List.map_append]
    rfl
  | @gather _ key claim version _ hknown _ hgathered =>
    have hstream := (UnitOfWork.known_eq_ok hknown).2
    have hnames := congrArg (List.map Prod.snd) (names_push hstream version)
    rw [UnitOfWork.names, UnitOfWork.names, List.map_map, List.map_map] at hnames
    rw [resolvedKey?_gathered hgathered, Option.toList_none, List.append_nil]
    exact hnames
  | commit => exact (List.append_nil _).symm

/-- A call that gives out a handle takes a stream of its key in at the end of the table. -/
theorem issued_change {handle : Nat} (h : Change unit call (.resolved (.ok handle)) unit') :
    handle = unit.streams.length ∧
      ∃ stream, call.key? = some stream.key ∧ unit'.streamAt? handle = some stream := by
  cases h with
  | rest hfailed => exact hfailed.elim
  | @track stream hkey => exact ⟨rfl, stream, hkey, streamAt?_track unit stream⟩
  | gather _ _ _ hgathered => exact hgathered.elim

end HandleLemmas

open HandleLemmas

section

variable {σ : Type} {backend : Backend σ} {first last : UnitOfWork} {events : List (Call × Reply)}

theorem change_call (backend : Backend σ) (unit : UnitOfWork) (state : σ) (call : Call) :
    Change unit call (unit.performOn backend state call).1
      (unit.performOn backend state call).2.1 :=
  change_performOn rfl

theorem keys_leads (h : first.Leads backend events last) :
    last.streams.map Stream.key = first.streams.map Stream.key ++ resolvedKeys events := by
  induction h with
  | refl => exact (List.append_nil _).symm
  | @call events last state call _ ih =>
    have hsingle : ∀ event, resolvedKeys [event] = (resolvedKey? event).toList := by
      intro event
      rw [resolvedKeys, List.filterMap_cons, List.filterMap_nil]
      cases resolvedKey? event <;> rfl
    rw [keys_change (change_call backend last state call), ih, List.append_assoc, resolvedKeys,
      resolvedKeys, List.filterMap_append]
    exact congrArg _ (congrArg _ (hsingle _).symm)

/-- A handle keeps its stream. Only the version of the stream moves on. -/
theorem streamAt?_kept (h : first.Leads backend events last) {handle : Nat} {stream : Stream}
    (hs : first.streamAt? handle = some stream) :
    ∃ version, last.streamAt? handle = some { stream with version } := by
  induction h with
  | refl => exact ⟨stream.version, hs⟩
  | @call events last state call _ ih =>
    obtain ⟨version, hbefore⟩ := ih
    have hafter := streamAt?_change (change_call backend last state call) hbefore
    exact hafter

end

/-! ## 2. The result -/

/-- Let a call of a unit of work give out a handle. Then the handle is the number of streams that
the unit had looked up before. In this unit it leads to a stream of the key that was looked up, and
it does so forever: only the version of the stream moves on.

In any other unit, over whatever backend, it leads to the stream that this unit was the one to look
up at the same position. So it leads to nothing if and only if the other unit has looked up no more
streams than the first one had when it gave the handle out. -/
theorem handle_by_position {σ τ : Type} {backend : Backend σ} {otherBackend : Backend τ}
    {repository otherRepository : Repository} {signature otherSignature : Signature}
    {past later events : List (Call × Reply)} {unit last other : UnitOfWork} {state : σ}
    {call : Call} {handle : Nat}
    (hp : (UnitOfWork.start repository signature).Leads backend past unit)
    (hc : (unit.performOn backend state call).1 = .resolved (.ok handle))
    (hl : (unit.performOn backend state call).2.1.Leads backend later last)
    (ho : (UnitOfWork.start otherRepository otherSignature).Leads otherBackend events other) :
    handle = (resolvedKeys past).length ∧
    (∃ stream, call.key? = some stream.key ∧
      (unit.performOn backend state call).2.1.streamAt? handle = some stream ∧
      ∃ version, last.streamAt? handle = some { stream with version }) ∧
    (other.streamAt? handle).map Stream.key = (resolvedKeys events)[handle]? ∧
    (other.streamAt? handle = none ↔
      (resolvedKeys events).length ≤ (resolvedKeys past).length) := by
  have hchange : Change unit call (.resolved (.ok handle))
      (unit.performOn backend state call).2.1 := hc ▸ change_call backend unit state call
  obtain ⟨hlength, stream, hkey, hstream⟩ := issued_change hchange
  have hkeys : unit.streams.map Stream.key = resolvedKeys past := keys_leads hp
  have hothers : other.streams.map Stream.key = resolvedKeys events := keys_leads ho
  have hhandle : handle = (resolvedKeys past).length := by
    rw [hlength, ← hkeys, List.length_map]
  refine ⟨hhandle, ⟨stream, hkey, hstream, streamAt?_kept hl hstream⟩, ?_, ?_⟩
  · rw [← hothers, List.getElem?_map]
    rfl
  · rw [← hhandle, ← hothers, List.length_map]
    exact List.getElem?_eq_none_iff

/-- What calls have returned so far, and the unit of work after one more call over an empty shop. -/
def exCall (past : List (Call × Reply) × UnitOfWork) (call : Call) :
    List (Call × Reply) × UnitOfWork :=
  let answer := past.2.performOn exShop.backend .empty call
  (past.1 ++ [(call, answer.1)], answer.2.1)

/-- A new unit of work in which streams are created one after another. -/
def exCreated (keys : List String) : List (Call × Reply) × UnitOfWork :=
  (keys.map fun key => Call.create key default).foldl exCall ([], .start exShop (.ok default))

theorem leads_exCall {first : UnitOfWork} {calls : List Call} :
    ∀ {past : List (Call × Reply) × UnitOfWork}, first.Leads exShop.backend past.1 past.2 →
      first.Leads exShop.backend (calls.foldl exCall past).1 (calls.foldl exCall past).2 := by
  induction calls with
  | nil => exact id
  | cons call calls ih => exact fun h => ih (.call Storage.empty call h)

/-- The handle of the second stream of a unit of work leads to nothing in a unit that has created
one stream, and to the second stream of a unit that has created two. -/
theorem handle_by_position_created :
    let unit := (exCreated ["orders"]).2
    let second := unit.performOn exShop.backend .empty (.create "carts" default)
    second.1 = .resolved (.ok 1) ∧
    (second.2.1.streamAt? 1).map Stream.key = some "carts" ∧
    (exCreated ["bills"]).2.streamAt? 1 = none ∧
    ((exCreated ["bills", "desks"]).2.streamAt? 1).map Stream.key = some "desks" := by
  intro unit second
  have hleads (keys : List String) : (UnitOfWork.start exShop (.ok default)).Leads exShop.backend
      (exCreated keys).1 (exCreated keys).2 := leads_exCall .refl
  have hgiven : second.1 = .resolved (.ok 1) := rfl
  obtain ⟨-, ⟨stream, hkey, hstream, -⟩, -, hnone⟩ :=
    handle_by_position (hleads ["orders"]) hgiven .refl (hleads ["bills"])
  obtain ⟨-, -, hother, -⟩ :=
    handle_by_position (hleads ["orders"]) hgiven .refl (hleads ["bills", "desks"])
  refine ⟨hgiven, ?_, hnone.mpr (by decide), hother.trans rfl⟩
  rw [hstream]
  exact hkey.symm

/-- Two new units of work each create one stream. The handle of the first one leads to its stream
there, and to the stream of the second one in the second. -/
theorem foreign_handle_resolves :
    let first := (UnitOfWork.start exShop (.ok default)).create "orders" (.ofNat 1)
    let second := (UnitOfWork.start exShop (.ok default)).create "carts" (.ofNat 2)
    first.1 = .ok 0 ∧ first.2.streamAt? 0 = some (.unwritten "orders" (.ofNat 1)) ∧
    second.2.streamAt? 0 = some (.unwritten "carts" (.ofNat 2)) ∧
    ¬ ∀ handle, first.1 = .ok handle → second.2.streamAt? handle = none := by
  intro first second
  have hother : second.2.streamAt? 0 = some (.unwritten "carts" (.ofNat 2)) := rfl
  refine ⟨rfl, rfl, hother, fun hall => ?_⟩
  rw [hall 0 rfl] at hother
  cases hother

end LeaseLog
