import LeaseLog.State.Basic

/-!
# Commit invariants

Rules that every message is checked against before it applies. The standard rules are optimistic
concurrency, by which a message writes the version after the stored one, and lease uniqueness, by
which no message takes a lease that another entity holds.
-/

namespace LeaseLog

/-- A rule with a name. -/
structure Invariant where
  name : String
  /-- The reason why a message breaks the rule, if it does. -/
  objection : StateView → Message → Option String

/-- A rule that a message breaks, and how. -/
structure Violation where
  invariant : String
  reason : String
deriving DecidableEq, Repr

/-- The wording of a violation. -/
def Violation.message (violation : Violation) : String :=
  "invariant `" ++ violation.invariant ++ "` violated: " ++ violation.reason

namespace Invariant

/-- A message writes exactly the version after the stored one. -/
def contiguousVersion : Invariant where
  name := "contiguous-version"
  objection view message :=
    let id := message.state.id
    let current := view.versionOf id
    match current.next with
    | .error cause => some (id.toText ++ ": " ++ cause.message)
    | .ok expected =>
      if message.state.version = expected then none
      else
        some (id.toText ++ " is at version " ++ current.toText ++ ", expected write of " ++
          expected.toText ++ ", got " ++ message.state.version.toText)

/-- The first lease of a list that an entity other than the given one holds, with its holder. -/
def heldElsewhere (view : StateView) (id : Ident) : List Lease → Option (Lease × Ident)
  | [] => none
  | lease :: leases =>
    match view.leaseHolder lease with
    | none => heldElsewhere view id leases
    | some holder => if holder = id then heldElsewhere view id leases else some (lease, holder)

/-- No two entities hold the same lease. An entity may take a lease again that it holds. -/
def uniqueLease : Invariant where
  name := "unique-lease"
  objection view message :=
    (heldElsewhere view message.state.id message.addLeases).map fun (lease, holder) =>
      lease.toText ++ " is held by " ++ holder.toText

/-- The rules that every log obeys, in the order in which they are checked. -/
def standard : List Invariant := [contiguousVersion, uniqueLease]

/-- Checks a message against rules in their order, up to the first one that it breaks. -/
def check (view : StateView) (message : Message) : List Invariant → Except Violation Unit
  | [] => .ok ()
  | invariant :: invariants =>
    match invariant.objection view message with
    | some reason => .error ⟨invariant.name, reason⟩
    | none => check view message invariants

end Invariant

end LeaseLog
