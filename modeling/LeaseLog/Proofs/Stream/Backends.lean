import LeaseLog.Stream.UnitOfWork

/-!
# Units of work over a backend

What a call can come to, whatever the backend answers. A call asks its backend at most once, and
what it makes of the answer is said here once for all backends.

Results:
1. `create_cases`, `append_cases`: calls that ask nothing.
2. `resolveOn_cases`: a stream is taken in, or the unit stays as it was.
3. `claimKeyOn_cases`: a message key is claimed only if nobody was found to hold its lease.
4. `commitOn_cases`: only an accepted commit drops what was staged.
-/

namespace LeaseLog

namespace UnitOfWork

variable {σ : Type} {backend : Backend σ} {unit unit' : UnitOfWork} {key : String} {token : Token}
  {state state' : σ}

/-! ## Calls that ask nothing -/

theorem handle?_of_ensureUnknown (h : unit.ensureUnknown key = .ok ()) :
    unit.handle? key = none := by
  unfold ensureUnknown at h
  split at h
  · cases h
  · assumption

theorem known_eq_ok {handle : Nat} {stream : Stream} (h : unit.known key = .ok (handle, stream)) :
    unit.handle? key = some handle ∧ unit.streams[handle]? = some stream := by
  unfold known at h
  split at h
  · cases h
  · next hk =>
    split at h
    · cases h
    · next hs =>
      cases h
      exact ⟨hk, hs⟩

theorem create_cases (unit : UnitOfWork) (key : String) (fresh : Ident) :
    (∃ cause, unit.create key fresh = (.error cause, unit)) ∨
      (unit.handle? key = none ∧ unit.create key fresh =
        (.ok unit.streams.length, (unit.track (.unwritten key fresh)).2)) := by
  unfold create
  split
  · exact .inl ⟨_, rfl⟩
  · next hu => exact .inr ⟨handle?_of_ensureUnknown hu, rfl⟩

/-- An append without a key is the staging of its message. -/
theorem append_cases (unit : UnitOfWork) (key : String) (delta : Delta) :
    (∃ cause, unit.append key delta = (.error cause, unit)) ∨
      ∃ handle stream envelope, unit.known key = .ok (handle, stream) ∧
        unit.append key delta = unit.stage handle stream envelope none .none := by
  unfold append
  split
  · exact .inl ⟨_, rfl⟩
  · next handle stream hknown =>
    split
    · exact .inl ⟨_, rfl⟩
    · next envelope _ => exact .inr ⟨handle, stream, envelope, hknown, rfl⟩

/-! ## Calls that ask their backend -/

/-- A stream that is looked up is taken in if it was found or may be taken for absent. Otherwise the
unit stays as it was. -/
theorem resolveOn_cases {absent : Except StreamError Stream} {result : Except StreamError Nat}
    (h : unit.resolveOn backend key absent token state = (result, unit', state')) :
    ((∃ cause, result = .error cause) ∧ unit' = unit ∧
      (state' = state ∨
        ∃ answer, backend.find (streamLease key) token state = (answer, state'))) ∨
    ∃ pointer? stream, unit.handle? key = none ∧
      backend.find (streamLease key) token state = (.ok pointer?, state') ∧
      ((pointer? = none ∧ absent = .ok stream) ∨
        ∃ pointer, pointer? = some pointer ∧ stream = .found key pointer) ∧
      result = .ok unit.streams.length ∧ unit' = (unit.track stream).2 := by
  unfold resolveOn at h
  split at h
  · cases h
    exact .inl ⟨⟨_, rfl⟩, rfl, .inl rfl⟩
  · next hu =>
    split at h
    · next hf =>
      cases h
      exact .inl ⟨⟨_, rfl⟩, rfl, .inr ⟨_, hf⟩⟩
    · next pointer? _ hf =>
      split at h
      · cases h
        exact .inl ⟨⟨_, rfl⟩, rfl, .inr ⟨_, hf⟩⟩
      · next stream hs =>
        cases h
        refine .inr ⟨pointer?, stream, handle?_of_ensureUnknown hu, hf, ?_, rfl, rfl⟩
        cases pointer? with
        | none => exact .inl ⟨rfl, hs⟩
        | some pointer => exact .inr ⟨pointer, rfl, (Except.ok.inj hs).symm⟩

/-- A lease is claimed for the message key of a delta, if it has one. It does not wait to be
committed, and it was looked for and nobody was found to hold it. -/
theorem claimKeyOn_cases {delta : Delta} {result : Except RepositoryError (Option (Option Lease))}
    (h : unit.claimKeyOn backend key delta token state = (result, state')) :
    (state' = state ∨ ∃ lease answer, backend.find lease token state = (answer, state')) ∧
      ∀ keyLease, result = .ok (some keyLease) →
        keyLease = delta.messageKey.map (messageLease key) ∧
        ∀ lease, keyLease = some lease →
          unit.isStaged lease = false ∧ backend.find lease token state = (.ok none, state') := by
  unfold claimKeyOn at h
  split at h
  · next hkey =>
    cases h
    refine ⟨.inl rfl, ?_⟩
    rintro keyLease ⟨⟩
    rw [hkey]
    exact ⟨rfl, nofun⟩
  · next messageKey hkey =>
    simp only at h
    split at h
    · cases h
      exact ⟨.inl rfl, nofun⟩
    · next hs =>
      split at h
      · next hf =>
        cases h
        exact ⟨.inr ⟨_, _, hf⟩, nofun⟩
      · next hf =>
        cases h
        exact ⟨.inr ⟨_, _, hf⟩, nofun⟩
      · next hf =>
        cases h
        refine ⟨.inr ⟨_, _, hf⟩, ?_⟩
        rintro keyLease ⟨⟩
        rw [hkey]
        refine ⟨rfl, ?_⟩
        rintro lease ⟨⟩
        exact ⟨Bool.eq_false_iff.mpr hs, hf⟩

/-- A commit of staged messages asks the backend once, if the agent can sign. What was staged is
dropped if the source is accepted, and nothing else ever changes. -/
theorem commitOn_cases {stamp : Stamp} {result : Except StreamError Bool}
    (h : unit.commitOn backend stamp token state = (result, unit', state')) :
    (unit' = unit ∧ state' = state ∧
      ((unit.staged = [] ∧ result = .ok true) ∨
        (unit.staged ≠ [] ∧ ∃ cause, result = .error cause))) ∨
    ∃ agent verdict, unit.staged ≠ [] ∧
      backend.commit (.ofStamp stamp agent unit.staged) token state = (verdict, state') ∧
      ((verdict = .ok true ∧ result = .ok true ∧ unit' = { unit with staged := [] }) ∨
        (verdict ≠ .ok true ∧ result ≠ .ok true ∧ unit' = unit)) := by
  unfold commitOn at h
  split at h
  · next hempty =>
    cases h
    exact .inl ⟨rfl, rfl, .inl ⟨List.isEmpty_iff.mp hempty, rfl⟩⟩
  · next hstaged =>
    have hstaged : unit.staged ≠ [] := by simpa using hstaged
    split at h
    · cases h
      exact .inl ⟨rfl, rfl, .inr ⟨hstaged, _, rfl⟩⟩
    · next agent _ =>
      refine .inr ⟨agent, ?_⟩
      split at h
      · next hc =>
        cases h
        exact ⟨_, hstaged, hc, .inr ⟨nofun, nofun, rfl⟩⟩
      · next hc =>
        cases h
        exact ⟨_, hstaged, hc, .inr ⟨nofun, nofun, rfl⟩⟩
      · next hc =>
        cases h
        exact ⟨_, hstaged, hc, .inl ⟨rfl, rfl, rfl⟩⟩

end UnitOfWork

end LeaseLog
