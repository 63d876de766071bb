import LeaseLog.Proofs.Storage.Layers
import Mathlib.Data.Nat.Find

/-!
# How often a commit is tried

A retrying layer makes an attempt again if it failed for a passing reason and the policy allows
another one. Which attempt decides depends on the outcomes alone, and the answer is the outcome of
that attempt. The token has a say in between: before the first attempt and during each wait it may
call off all that would follow.

Nothing is assumed of an attempt. It may have any outcome at any time, and change all of the storage.

Results:
1. `existsUnique_decides`: one attempt decides, whatever the outcomes are.
2. `attempts_reached`: as long as failures pass and waits end, the next attempt is made.
3. `trace_of_decides`, `trace_of_cut`: the waits that are made, and what comes of the retries;
   `retry_outcome_law`: how absorbed failures change it inside and outside of them.
-/

namespace LeaseLog

/-! ## Definitions -/

/-- The outcome is a failure that may pass. -/
def isPassing : Except RepositoryError Bool → Bool
  | .error cause => cause.isTransient
  | .ok _ => false

/-- A number counts the calls of an attempt: it grows by one with each of them, and not with time. A
storage may have no such number. -/
structure Tallies (attempt : Storage → Except RepositoryError Bool × Storage)
    (tally : Storage → Option Nat) : Prop where
  call : ∀ storage, tally (attempt storage).2 = (tally storage).map (· + 1)
  time : ∀ storage clock, tally { storage with clock } = tally storage

/-- Between two storages an attempt was made so many times, by whatever its calls are counted. -/
def Called (attempt : Storage → Except RepositoryError Bool × Storage) (calls : Nat)
    (before after : Storage) : Prop :=
  ∀ tally, Tallies attempt tally → tally after = (tally before).map (· + calls)

/-- When commits came in at a scripted store tells how many did. -/
def Storage.arrived (script : Nat) (storage : Storage) : Option Nat :=
  (storage.scripts[script]?).map fun faults => faults.arrivals.length

/-- An attempt that is made as often as a policy says, unless a token calls it off. -/
structure Retrial where
  policy : RetryPolicy
  token : Token
  attempt : Storage → Except RepositoryError Bool × Storage
  start : Storage

namespace Retrial

variable (trial : Retrial)

/-- What is attempted is a commit of a source through a repository. -/
def Commits (repository : Repository) (source : Source) : Prop :=
  trial.attempt = repository.commitUntil source trial.token trial.token

/-- The waits that are made, and what comes of it. -/
def trace : List Nat × Except RepositoryError Bool × Storage :=
  trial.policy.trace trial.token trial.attempt trial.start

/-- What comes of it. -/
def result : Except RepositoryError Bool × Storage :=
  trial.policy.run trial.token trial.attempt trial.start

/-- How many attempts are allowed: as the policy says, but at least one. -/
def limit : Nat := max 1 trial.policy.maxAttempts

/-- How long the wait after an attempt is, in nanoseconds. Attempts are numbered from zero. -/
def pause : Nat → Nat
  | 0 => trial.policy.initialBackoff.nanos
  | number + 1 => trial.policy.nextWait (pause number)

/-- The storage that an attempt finds if every attempt before it was made and waited after. -/
def before : Nat → Storage
  | 0 => trial.start.refresh
  | number + 1 => ((trial.attempt (before number)).2.wait (trial.pause number) trial.token).2

/-- What an attempt would give. -/
def outcome (number : Nat) : Except RepositoryError Bool := (trial.attempt (trial.before number)).1

/-- The storage that an attempt leaves. -/
def left (number : Nat) : Storage := (trial.attempt (trial.before number)).2

/-- The wait after an attempt is not cut short. -/
def Waits (number : Nat) : Prop :=
  ((trial.left number).wait (trial.pause number) trial.token).1 = true

instance (number : Nat) : Decidable (trial.Waits number) :=
  inferInstanceAs
    (Decidable (((trial.left number).wait (trial.pause number) trial.token).1 = true))

/-- The token is not cancelled before the first attempt, nor is it when plans are let in there. -/
def Begins : Prop :=
  trial.token.isCancelled trial.start.now = false ∧
    trial.token.isCancelled trial.start.refresh.now = false

/-- The token does not call anything off before an attempt. -/
structure Reaches (number : Nat) : Prop where
  begins : trial.Begins
  waits : ∀ earlier, earlier < number → trial.Waits earlier

/-- The attempt is the first one that does not fail for a passing reason, or, if there is none, the
last one that is allowed. -/
structure Decides (number : Nat) : Prop where
  allowed : number < trial.limit
  earlier : ∀ earlier, earlier < number → isPassing (trial.outcome earlier)
  last : isPassing (trial.outcome number) → number + 1 = trial.limit

end Retrial

/-! ## 1. The attempt that decides -/

theorem exists_decides (trial : Retrial) : ∃ number, trial.Decides number := by
  have hlimit : 0 < trial.limit := Nat.le_max_left 1 trial.policy.maxAttempts
  -- the last attempt that is allowed could decide, so there is a first one that could
  have hlast : ∃ number, number < trial.limit ∧
      (isPassing (trial.outcome number) → number + 1 = trial.limit) :=
    ⟨trial.limit - 1, Nat.sub_lt hlimit Nat.one_pos, fun _ => Nat.sub_add_cancel hlimit⟩
  have hfirst := Nat.find_spec hlast
  refine ⟨Nat.find hlast, hfirst.1, fun earlier hearlier => ?_, hfirst.2⟩
  have hnot := Nat.find_min hlast hearlier
  by_cases hp : isPassing (trial.outcome earlier)
  · exact hp
  · exact absurd ⟨Nat.lt_trans hearlier hfirst.1, fun h => absurd h hp⟩ hnot

/-- Of two attempts that decide, none comes before the other one. -/
theorem Retrial.Decides.le {trial : Retrial} {number other : Nat} (h : trial.Decides number)
    (ho : trial.Decides other) : number ≤ other := by
  refine Nat.le_of_not_lt fun hlt => ?_
  have hlast : other + 1 = trial.limit := ho.last (h.earlier other hlt)
  have hallowed := h.allowed
  omega

theorem existsUnique_decides (trial : Retrial) :
    ∃ number, trial.Decides number ∧ ∀ other, trial.Decides other → other = number := by
  obtain ⟨number, h⟩ := exists_decides trial
  exact ⟨number, h, fun other ho => Nat.le_antisymm (ho.le h) (h.le ho)⟩

/-! ## 2. One attempt after another -/

namespace RetryLemmas

variable {trial : Retrial} {number retries : Nat}

/-- All that an attempt with retries left can come to: it is made again after a wait, the wait is cut
short, or its outcome stands. -/
theorem attempts_succ (policy : RetryPolicy) (token : Token)
    (attempt : Storage → Except RepositoryError Bool × Storage) (retries wait : Nat)
    (storage : Storage) :
    policy.attempts token attempt (retries + 1) wait storage =
      if isPassing (attempt storage).1 then
        if ((attempt storage).2.wait wait token).1 then
          (policy.attempts token attempt retries (policy.nextWait wait)
            ((attempt storage).2.wait wait token).2).map (wait :: ·) id
        else ([wait], .error .cancelled, ((attempt storage).2.wait wait token).2)
      else ([], attempt storage) := by
  rw [RetryPolicy.attempts]
  obtain ⟨cause | accepted, after⟩ := attempt storage
  · cases ht : cause.isTransient with
    | false => simp [isPassing, ht]
    | true =>
      rcases hw : after.wait wait token with ⟨_ | _, later⟩ <;> simp [isPassing, ht, hw]
  · simp [isPassing]

/-- The waits and the attempts that are made from one of them on, with some retries left. -/
def attemptsFrom (trial : Retrial) (number retries : Nat) :
    List Nat × Except RepositoryError Bool × Storage :=
  trial.policy.attempts trial.token trial.attempt retries (trial.pause number) (trial.before number)

theorem attemptsFrom_succ (trial : Retrial) (number retries : Nat) :
    attemptsFrom trial number (retries + 1) =
      if isPassing (trial.outcome number) then
        if trial.Waits number then
          (attemptsFrom trial (number + 1) retries).map (trial.pause number :: ·) id
        else ([trial.pause number], .error .cancelled, trial.before (number + 1))
      else ([], trial.attempt (trial.before number)) :=
  attempts_succ trial.policy trial.token trial.attempt retries _ _

theorem attemptsFrom_again (hp : isPassing (trial.outcome number)) (hw : trial.Waits number) :
    attemptsFrom trial number (retries + 1) =
      (attemptsFrom trial (number + 1) retries).map (trial.pause number :: ·) id := by
  rw [attemptsFrom_succ, if_pos hp, if_pos hw]

theorem attemptsFrom_cut (hp : isPassing (trial.outcome number)) (hw : ¬ trial.Waits number) :
    attemptsFrom trial number (retries + 1) =
      ([trial.pause number], .error .cancelled, trial.before (number + 1)) := by
  rw [attemptsFrom_succ, if_pos hp, if_neg hw]

theorem attemptsFrom_done (hp : ¬ isPassing (trial.outcome number)) :
    attemptsFrom trial number retries = ([], trial.attempt (trial.before number)) := by
  cases retries with
  | zero => rfl
  | succ retries => rw [attemptsFrom_succ, if_neg hp]

theorem trace_of_begins (h : trial.Begins) :
    trial.trace = attemptsFrom trial 0 (trial.limit - 1) := by
  have hretries : trial.limit - 1 = trial.policy.retries := by
    simp only [Retrial.limit, RetryPolicy.retries]
    omega
  rw [Retrial.trace, RetryPolicy.trace, hretries, h.1]
  simp only [h.2]
  rfl

theorem called_wait {attempt : Storage → Except RepositoryError Bool × Storage} {calls : Nat}
    {before after : Storage} {duration : Nat} {token : Token}
    (h : Called attempt calls before after) :
    Called attempt (calls + 1) before ((attempt after).2.wait duration token).2 := by
  intro tally ht
  have hwait : tally ((attempt after).2.wait duration token).2 = tally (attempt after).2 :=
    ht.time _ _
  rw [hwait, ht.call, h tally ht, Option.map_map]
  rfl

theorem called_attempt {attempt : Storage → Except RepositoryError Bool × Storage} {calls : Nat}
    {before after : Storage} (h : Called attempt calls before after) :
    Called attempt (calls + 1) before (attempt after).2 := by
  intro tally ht
  rw [ht.call, h tally ht, Option.map_map]
  rfl

theorem called_clock {attempt : Storage → Except RepositoryError Bool × Storage} {storage : Storage}
    {clock : Clock} : Called attempt 0 storage { storage with clock } := by
  intro tally ht
  rw [ht.time]
  simp

/-- The attempts before one of them are as many as its number says. -/
theorem called_before (trial : Retrial) (number : Nat) :
    Called trial.attempt number trial.start (trial.before number) := by
  induction number with
  | zero => exact called_clock
  | succ number ih => exact called_wait ih

end RetryLemmas

open RetryLemmas

/-- As long as failures pass and waits end, retries lead from one attempt to the next one, and every
pause in between is made. -/
theorem attempts_reached {trial : Retrial} {number retries : Nat}
    (hp : ∀ earlier, earlier < number → isPassing (trial.outcome earlier))
    (hw : ∀ earlier, earlier < number → trial.Waits earlier) :
    attemptsFrom trial 0 (number + retries) =
      (attemptsFrom trial number retries).map ((List.range number).map trial.pause ++ ·) id := by
  induction number generalizing retries with
  | zero => rw [Nat.zero_add]; rfl
  | succ number ih =>
    have hlt : number < number + 1 := Nat.lt_succ_self number
    have hshift : number + 1 + retries = number + (retries + 1) := by omega
    rw [hshift, ih (fun earlier h => hp earlier (Nat.lt_trans h hlt)) fun earlier h =>
      hw earlier (Nat.lt_trans h hlt), attemptsFrom_again (hp number hlt) (hw number hlt)]
    simp only [Prod.map, id, List.range_succ, List.map_append, List.map_cons, List.map_nil,
      List.append_assoc, List.singleton_append]

/-! ## 3. What comes of it -/

section

variable {trial : Retrial} {number : Nat}

/-- A token that is cancelled before the first attempt leaves nothing to do: at most time passes. -/
theorem trace_of_not_begins (h : ¬ trial.Begins) :
    ∃ clock, trial.trace = ([], .error .cancelled, { trial.start with clock }) := by
  rw [Retrial.trace, RetryPolicy.trace]
  split
  · exact ⟨trial.start.clock, rfl⟩
  · next hstart =>
    simp only
    split
    · exact ⟨trial.start.clock.refresh, rfl⟩
    · next hrefresh =>
      exact absurd ⟨Bool.eq_false_iff.mpr hstart, Bool.eq_false_iff.mpr hrefresh⟩ h

/-- The attempt that decides gives the answer, if nothing calls it off, and there is a wait after
every attempt before it. -/
theorem trace_of_decides (hd : trial.Decides number) (hr : trial.Reaches number) :
    trial.trace = ((List.range number).map trial.pause, trial.attempt (trial.before number)) := by
  obtain ⟨retries, hretries⟩ := Nat.exists_eq_add_of_lt hd.allowed
  have hlimit : trial.limit - 1 = number + retries := by omega
  have hlast : attemptsFrom trial number retries = ([], trial.attempt (trial.before number)) := by
    by_cases hp : isPassing (trial.outcome number)
    · -- the last attempt: no retry is left
      have hnone : retries = 0 := by
        have hlast := hd.last hp
        omega
      rw [hnone]
      rfl
    · exact attemptsFrom_done hp
  rw [trace_of_begins hr.begins, hlimit, attempts_reached hd.earlier hr.waits, hlast]
  simp only [Prod.map, List.append_nil, id]

/-- A wait that is cut short is the last one, and no attempt follows it. -/
theorem trace_of_cut (hlt : number + 1 < trial.limit)
    (hp : ∀ earlier, earlier ≤ number → isPassing (trial.outcome earlier))
    (hr : trial.Reaches number) (hw : ¬ trial.Waits number) :
    trial.trace = ((List.range (number + 1)).map trial.pause, .error .cancelled,
      trial.before (number + 1)) := by
  obtain ⟨retries, hretries⟩ := Nat.exists_eq_add_of_lt hlt
  have hlimit : trial.limit - 1 = number + (retries + 1) := by omega
  have hearlier : ∀ earlier, earlier < number → isPassing (trial.outcome earlier) :=
    fun earlier h => hp earlier (Nat.le_of_lt h)
  rw [trace_of_begins hr.begins, hlimit, attempts_reached hearlier hr.waits,
    attemptsFrom_cut (hp number (Nat.le_refl number)) hw]
  simp only [Prod.map, id, List.range_succ, List.map_append, List.map_cons, List.map_nil]

theorem result_of_not_begins (h : ¬ trial.Begins) :
    (∃ clock, trial.result = (.error .cancelled, { trial.start with clock })) ∧
      Called trial.attempt 0 trial.start trial.result.2 := by
  obtain ⟨clock, htrace⟩ := trace_of_not_begins h
  have hresult : trial.result = (.error .cancelled, { trial.start with clock }) :=
    congrArg Prod.snd htrace
  rw [hresult]
  exact ⟨⟨clock, rfl⟩, called_clock⟩

theorem result_of_decides (hd : trial.Decides number) (hr : trial.Reaches number) :
    trial.result = trial.attempt (trial.before number) ∧
      Called trial.attempt (number + 1) trial.start trial.result.2 := by
  have hresult : trial.result = trial.attempt (trial.before number) :=
    congrArg Prod.snd (trace_of_decides hd hr)
  rw [hresult]
  exact ⟨rfl, called_attempt (called_before trial number)⟩

theorem result_of_cut (hlt : number + 1 < trial.limit)
    (hp : ∀ earlier, earlier ≤ number → isPassing (trial.outcome earlier))
    (hr : trial.Reaches number) (hw : ¬ trial.Waits number) :
    trial.result = (.error .cancelled, trial.before (number + 1)) ∧
      Called trial.attempt (number + 1) trial.start trial.result.2 := by
  have hresult : trial.result = (.error .cancelled, trial.before (number + 1)) :=
    congrArg Prod.snd (trace_of_cut hlt hp hr hw)
  rw [hresult]
  exact ⟨rfl, called_before trial (number + 1)⟩

/-- A token that nobody cancels or plans to cancel calls nothing off. -/
theorem reaches_of_uncancelled (hc : trial.token.cancelled = false)
    (hp : trial.token.planned = none) (number : Nat) : trial.Reaches number := by
  have hnow : ∀ now, trial.token.isCancelled now = false := by
    intro now
    simp [Token.isCancelled, hc, hp]
  refine ⟨⟨hnow _, hnow _⟩, fun earlier _ => ?_⟩
  simp only [Retrial.Waits, Storage.wait, Clock.wait, hp, hnow]
  split <;> rfl

/-- A wait of some length ends if the token is not cancelled when it begins and if no plan is made
for a time inside of it. -/
theorem waits_iff (hpos : 0 < trial.pause number) :
    trial.Waits number ↔ trial.token.isCancelled (trial.left number).now = false ∧
      ∀ moment, trial.token.planned = some moment →
        waitEnd (trial.left number).clock.time (trial.pause number) ≤ moment.time := by
  have hne : trial.pause number ≠ 0 := Nat.ne_of_gt hpos
  simp only [Retrial.Waits, Storage.wait, Clock.wait, if_neg hne, Storage.now]
  cases hc : trial.token.isCancelled (trial.left number).clock.now with
  | true => simp
  | false =>
    cases hp : trial.token.planned with
    | none => simp
    | some moment =>
      by_cases hlt : moment.time < waitEnd (trial.left number).clock.time (trial.pause number)
      · simp [hlt]
      · simpa [hlt] using Nat.le_of_not_lt hlt

end

namespace RetryLemmas

theorem isInfrastructure_iff {cause : RepositoryError} :
    cause.isInfrastructure ↔ cause.isTransient ∨ ∃ inside, cause = .envelope inside := by
  cases cause <;> simp [RepositoryError.isInfrastructure, RepositoryError.isTransient]

theorem absorb_eq_ok_false {result : Except RepositoryError Bool} :
    Repository.absorb result = .ok false ↔ result = .ok false ∨
      ∃ cause, result = .error cause ∧ (cause.isTransient ∨ ∃ inside, cause = .envelope inside) := by
  cases result with
  | ok accepted => simp [Repository.absorb]
  | error cause =>
    rw [Repository.absorb]
    by_cases h : cause.isInfrastructure
    · simpa [h] using isInfrastructure_iff.mp h
    · simpa [h] using fun hi => h (isInfrastructure_iff.mpr hi)

theorem absorb_of_ne {result : Except RepositoryError Bool}
    (h : Repository.absorb result ≠ .ok false) : Repository.absorb result = result := by
  cases result with
  | ok accepted => rfl
  | error cause =>
    rw [Repository.absorb] at h ⊢
    split
    · next hi => exact absurd (if_pos hi) h
    · rfl

/-- No failure is passing any more once failures are absorbed. -/
theorem isPassing_absorb (result : Except RepositoryError Bool) :
    isPassing (Repository.absorb result) = false := by
  cases result with
  | ok accepted => rfl
  | error cause => cases cause <;> rfl

theorem arrived_congr {script : Nat} {storage other : Storage}
    (h : storage.scripts = other.scripts) : storage.arrived script = other.arrived script := by
  rw [Storage.arrived, h]
  rfl

end RetryLemmas

/-- The calls of a scripted store are counted by when they came in. -/
theorem tallies_arrived (script session : Nat) (source : Source) (token watched : Token) :
    Tallies ((Repository.bare (.scripted script session)).commitUntil source token watched)
      (Storage.arrived script) := by
  refine ⟨fun storage => ?_, fun _ _ => rfl⟩
  simp only [Repository.commitUntil, Store.commit]
  cases hs : storage.scripts[script]? with
  | none =>
    simp only
    rw [arrived_congr (scripts_commitSession storage session source token), Storage.arrived, hs]
    rfl
  | some faults =>
    obtain ⟨hlt, -⟩ := List.getElem?_eq_some_iff.mp hs
    -- the call has come in; nothing after that touches a script
    let noted : FaultScript := { faults with
      commits := (Store.nextFault faults.commits).2
      arrivals := storage.clock.time :: faults.arrivals }
    have hnoted : ∀ after : Storage, after.scripts = storage.scripts.set script noted →
        after.arrived script = (storage.arrived script).map (· + 1) := by
      intro after ha
      rw [Storage.arrived, Storage.arrived, ha, hs, List.getElem?_set_self hlt]
      rfl
    simp only
    split
    · exact hnoted _ (scripts_commitSession _ _ _ _)
    · split
      · refine hnoted _ ?_
        split <;> rfl
      · split
        · refine hnoted _ ?_
          split <;> rfl
        · refine hnoted _ ((scripts_commitSession _ _ _ _).trans ?_)
          split <;> rfl

/-- Whatever the outcomes of an attempt are, and whatever it changes:
* if the token is cancelled before the first attempt, none is made and the answer is that;
* one attempt decides, and if the token calls off nothing before it, as many attempts are made as its
  number says, and its outcome is the answer;
* if a wait is cut short, no attempt is made after it and the answer is that as well;
* a token that is never cancelled calls nothing off, and another one cuts a wait short if it is
  planned for a time inside of it.

Failures that are absorbed outside of the retries do not change the attempts, and turn into a
rejection at the end. Those that are absorbed inside are no reason for a retry. -/
theorem retry_outcome_law (trial : Retrial) :
    (¬ trial.Begins →
      (∃ clock, trial.result = (.error .cancelled, { trial.start with clock })) ∧
      Called trial.attempt 0 trial.start trial.result.2) ∧
    (∃ number, trial.Decides number ∧ ∀ other, trial.Decides other → other = number) ∧
    (∀ number, trial.Decides number → trial.Reaches number →
      trial.result = trial.attempt (trial.before number) ∧
      Called trial.attempt (number + 1) trial.start trial.result.2) ∧
    (∀ number, number + 1 < trial.limit →
      (∀ earlier, earlier ≤ number → isPassing (trial.outcome earlier)) →
      trial.Reaches number → ¬ trial.Waits number →
      trial.result = (.error .cancelled, trial.before (number + 1)) ∧
      Called trial.attempt (number + 1) trial.start trial.result.2) ∧
    (trial.token.cancelled = false → trial.token.planned = none → ∀ number, trial.Reaches number) ∧
    (∀ number, 0 < trial.pause number →
      (trial.Waits number ↔ trial.token.isCancelled (trial.left number).now = false ∧
        ∀ moment, trial.token.planned = some moment →
          waitEnd (trial.left number).clock.time (trial.pause number) ≤ moment.time)) ∧
    (∀ inner source, trial.Commits inner source →
      (Repository.retrying trial.policy inner).commit source trial.token trial.start =
        trial.result ∧
      ∀ number, trial.Decides number → trial.Reaches number →
        let logged := ((Repository.logging (.retrying trial.policy inner)).commit source trial.token
          trial.start).1
        (logged = .ok false ↔ trial.outcome number = .ok false ∨
          ∃ cause, trial.outcome number = .error cause ∧
            (cause.isTransient ∨ ∃ inside, cause = .envelope inside)) ∧
        (logged ≠ .ok false → logged = trial.outcome number)) ∧
    (∀ inner source, trial.Commits (.logging inner) source → trial.Begins →
      let once := inner.commitUntil source trial.token trial.token trial.start.refresh
      (Repository.retrying trial.policy (.logging inner)).commit source trial.token trial.start =
        (Repository.absorb once.1, once.2) ∧
      Called (inner.commitUntil source trial.token trial.token) 1 trial.start once.2) := by
  have hretrying : ∀ inner source, trial.Commits inner source →
      (Repository.retrying trial.policy inner).commit source trial.token trial.start =
        trial.result := by
    intro inner source hc
    rw [Retrial.result, hc]
    rfl
  refine ⟨result_of_not_begins, existsUnique_decides trial, fun number => result_of_decides,
    fun number => result_of_cut, reaches_of_uncancelled, fun number => waits_iff,
    fun inner source hc => ⟨hretrying inner source hc, fun number hd hr => ?_⟩,
    fun inner source hc hb => ?_⟩
  · have hlogged : ((Repository.logging (.retrying trial.policy inner)).commit source trial.token
        trial.start).1 = Repository.absorb (trial.outcome number) := by
      have hanswer : trial.result.1 = trial.outcome number :=
        congrArg Prod.fst (result_of_decides hd hr).1
      rw [← hanswer, ← hretrying inner source hc]
      rfl
    simp only [hlogged]
    exact ⟨absorb_eq_ok_false, absorb_of_ne⟩
  · -- the outcome of the first attempt is absorbed already, and so it decides
    have hfirst : trial.attempt (trial.before 0) =
        (Repository.absorb (inner.commitUntil source trial.token trial.token
          trial.start.refresh).1,
        (inner.commitUntil source trial.token trial.token trial.start.refresh).2) := by
      rw [hc]
      rfl
    have hdone : ¬ isPassing (trial.outcome 0) := by
      rw [Retrial.outcome, hfirst, isPassing_absorb]
      exact Bool.false_ne_true
    refine ⟨?_, called_attempt called_clock⟩
    have honce : trial.result = trial.attempt (trial.before 0) := by
      have htrace : trial.trace = ([], trial.attempt (trial.before 0)) := by
        rw [trace_of_begins hb, attemptsFrom_done hdone]
      exact congrArg Prod.snd htrace
    rw [hretrying _ source hc, honce, hfirst]

/-- The store of `exFaults`. -/
def exFaulty : Repository := .bare (.scripted 0 0)

/-- The standard waits, between at most so many attempts. -/
def exPolicy (attempts : Nat) : RetryPolicy := ⟨attempts, .ofMillis 50, .ofMillis 1000⟩

/-- A commit through a repository over the store of `exFaults`, tried at most so many times. -/
def exRetrial (attempts : Nat) (repository : Repository) (token : Token) : Retrial :=
  ⟨exPolicy attempts, token, repository.commitUntil exSource token token, exFaults⟩

/-- The first commit is held up for 10 milliseconds and fails, the second one fails, and the third
one is accepted. If the token is cancelled after 30 milliseconds, inside the first wait, there is
only one commit, and if it is cancelled at once there is none. With two attempts, the failure of the
second one is what is absorbed. If the failure of the first one is absorbed, there is no second
one. -/
theorem retry_outcome_law_scripted :
    ((exRetrial 3 exFaulty .never).result.1 = .ok true ∧
      (exRetrial 3 exFaulty .never).result.2.arrived 0 = some 3) ∧
    (let token := Token.never.cancelAfter exFaults.now 30000000
     (exRetrial 3 exFaulty token).result.1 = .error .cancelled ∧
       (exRetrial 3 exFaulty token).result.2.arrived 0 = some 1) ∧
    ((exRetrial 3 exFaulty Token.never.cancel).result.1 = .error .cancelled ∧
      (exRetrial 3 exFaulty Token.never.cancel).result.2.arrived 0 = some 0) ∧
    ((Repository.logging (.retrying (exPolicy 2) exFaulty)).commit exSource .never exFaults).1 =
      .ok false ∧
    ((Repository.retrying (exPolicy 3) (.logging exFaulty)).commit exSource .never
      exFaults).2.arrived 0 = some 1 := by
  have hcalls : ∀ {calls : Nat} {token : Token} {after : Storage},
      Called (exFaulty.commitUntil exSource token token) calls exFaults after →
      after.arrived 0 = some (0 + calls) := fun h => h _ (tallies_arrived 0 0 _ _ _)
  refine ⟨?_, ?_, ?_, ?_, ?_⟩
  · obtain ⟨-, -, hdecides, -, hquiet, -⟩ := retry_outcome_law (exRetrial 3 exFaulty .never)
    have hthird : (exRetrial 3 exFaulty .never).Decides 2 := by
      refine ⟨by decide, fun earlier h => ?_, fun _ => rfl⟩
      obtain rfl | rfl : earlier = 0 ∨ earlier = 1 := by omega
      · rfl
      · rfl
    obtain ⟨hresult, hcalled⟩ := hdecides 2 hthird (hquiet rfl rfl 2)
    refine ⟨?_, hcalls hcalled⟩
    rw [hresult]
    rfl
  · obtain ⟨-, -, -, hcut, -, hwaits, -⟩ :=
      retry_outcome_law (exRetrial 3 exFaulty (Token.never.cancelAfter exFaults.now 30000000))
    obtain ⟨hcancelled, hcalled⟩ := hcut 0 (by decide)
      (fun earlier h => by cases Nat.le_zero.mp h; rfl)
      ⟨⟨rfl, rfl⟩, fun earlier h => absurd h (Nat.not_lt_zero earlier)⟩
      (fun h => absurd (((hwaits 0 (by decide)).mp h).2 _ rfl) (by decide))
    exact ⟨congrArg Prod.fst hcancelled, hcalls hcalled⟩
  · obtain ⟨hcancelled, -⟩ := retry_outcome_law (exRetrial 3 exFaulty Token.never.cancel)
    obtain ⟨⟨clock, hanswer⟩, hcalled⟩ := hcancelled fun h => (by cases h.1)
    exact ⟨congrArg Prod.fst hanswer, hcalls hcalled⟩
  · obtain ⟨-, -, -, -, hquiet, -, houtside, -⟩ :=
      retry_outcome_law (exRetrial 2 exFaulty .never)
    have hsecond : (exRetrial 2 exFaulty .never).Decides 1 := by
      refine ⟨by decide, fun earlier h => ?_, fun _ => rfl⟩
      cases Nat.lt_one_iff.mp h
      rfl
    obtain ⟨hrejected, -⟩ := (houtside exFaulty exSource rfl).2 1 hsecond (hquiet rfl rfl 1)
    exact hrejected.mpr (.inr ⟨.backend "down", rfl, .inl rfl⟩)
  · obtain ⟨-, -, -, -, -, -, -, hinside⟩ :=
      retry_outcome_law (exRetrial 3 (.logging exFaulty) .never)
    obtain ⟨honce, hcalled⟩ := hinside exFaulty exSource rfl ⟨rfl, rfl⟩
    have hanswer := congrArg Prod.snd honce
    exact (congrArg (Storage.arrived 0) hanswer).trans (hcalls hcalled)

end LeaseLog
