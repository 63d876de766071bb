/-!
# Provisioning guards

An engine is provisioned when the first session is opened. A guard remembers whether that was done,
so it is done once; an attempt that fails leaves the next one to try again.
-/

namespace LeaseLog

/-- Remembers whether something was provisioned. -/
structure Guard where
  provisioned : Bool
deriving DecidableEq, Repr, Inhabited

namespace Guard

/-- A guard under which nothing was provisioned. -/
def fresh : Guard := ⟨false⟩

/-- Provisions, unless that was done already. -/
def ensure {σ ε : Type} (guard : Guard) (provision : σ → Except ε Unit × σ) (state : σ) :
    Except ε Unit × Guard × σ :=
  if guard.provisioned then (.ok (), guard, state)
  else
    match provision state with
    | (.ok (), state) => (.ok (), ⟨true⟩, state)
    | (.error cause, state) => (.error cause, guard, state)

end Guard

end LeaseLog
