import LeaseLog.Proofs.Json.Rounding
import LeaseLog.Proofs.Storage.Retries

/-!
# How long a commit waits between attempts

The waits of one commit are the first pauses of its policy, as many as attempts failed and were to
be made again. The first pause is the initial backoff, whatever the largest one is; from the second
one on a pause is at most the largest backoff. Doubling rounds four times, but all of that takes
less off a double than the half that it may lose, so pauses do not shrink until they are cut.

Results:
1. `le_twice`: a doubled span is no shorter than the span.
2. `pause_succ_le`, `pause_le_succ`, `pause_succ_eq`: pauses grow up to the largest backoff, or fall
   to it at once.
3. `waits_eq_pauses`: the waits of a commit are its first pauses; `time_before_succ`: how they move
   the clock.
4. `waits_bounded`: when all waits of a commit are within the largest backoff, and which one is not
   otherwise.
-/

namespace LeaseLog

/-! ## Definitions -/

/-- The waits that are made, in their order; the last one may have been cut short. -/
def Retrial.waits (trial : Retrial) : List Nat := trial.trace.1

/-! ## 1. Doubling -/

namespace WaitLemmas

theorem div_le_divNearest (num den : Nat) : num / den ≤ divNearest num den := by
  rcases Nat.eq_zero_or_pos den with rfl | hden
  · simp
  · exact le_divNearest (Nat.div_mul_le_self num den) hden

/-- Rounding to the digits of single precision takes less than a tenth off a quotient. -/
theorem le_divSignificant (num den : Nat) :
    9 * (num / den) ≤ 10 * divSignificant singleDigits num den := by
  have hfloor := div_le_divNearest num
    (den * Nat.pow 2 (Nat.log2 (num / den) + 1 - singleDigits))
  rw [← Nat.div_div_eq_div_mul] at hfloor
  rw [divSignificant]
  generalize num / den = quotient at *
  generalize hshift : Nat.log2 quotient + 1 - singleDigits = shift at *
  have hrounded := Nat.mul_le_mul_right (Nat.pow 2 shift) hfloor
  rcases Nat.eq_zero_or_pos shift with rfl | hpos
  · simp at hrounded ⊢
    omega
  · -- what is cut off is less than the last digit that counts
    have hdigits : Nat.log2 quotient = shift + 23 := by
      unfold singleDigits at hshift
      omega
    have hne : quotient ≠ 0 := by
      rintro rfl
      simp at hdigits
    have hlarge : Nat.pow 2 shift * 2 ^ 23 ≤ quotient := by
      have hself := Nat.log2_self_le hne
      rwa [hdigits, Nat.pow_add] at hself
    have hcut : quotient % Nat.pow 2 shift < Nat.pow 2 shift :=
      Nat.mod_lt _ (Nat.pow_pos (by decide))
    have hsplit := Nat.div_add_mod' quotient (Nat.pow 2 shift)
    omega

/-- Three roundings, one after another, leave more than seven tenths of a span; a fraction of a
nanosecond may be lost besides. -/
theorem le_secondsOfNanos (nanos : Nat) :
    729 * (nanos * unitsPerSecond) ≤
      1000 * (secondsOfNanos nanos * nanosPerSecond) + 81 * (10 * nanosPerSecond) := by
  have hsplit := Nat.div_add_mod' nanos nanosPerSecond
  generalize hseconds : nanos / nanosPerSecond = seconds at *
  generalize hrest : nanos % nanosPerSecond = rest at *
  have hwhole := le_divSignificant (seconds * unitsPerSecond) 1
  have hpart := le_divSignificant rest 1
  rw [Nat.div_one] at hwhole hpart
  generalize hw : divSignificant singleDigits (seconds * unitsPerSecond) 1 = whole at *
  generalize hp : divSignificant singleDigits rest 1 = part at *
  have hfraction := le_divSignificant (part * unitsPerSecond) nanosPerSecond
  generalize hf : divSignificant singleDigits (part * unitsPerSecond) nanosPerSecond = fraction
    at *
  have htotal := le_divSignificant (whole + fraction) 1
  rw [Nat.div_one] at htotal
  have hsum : secondsOfNanos nanos = divSignificant singleDigits (whole + fraction) 1 := by
    rw [secondsOfNanos, hseconds, hrest]
    simp only [hw, hp, hf]
  have hunits : nanos * unitsPerSecond =
      seconds * unitsPerSecond * nanosPerSecond + rest * unitsPerSecond := by
    rw [← hsplit]
    ring
  have hpartUnits := Nat.mul_le_mul_right unitsPerSecond hpart
  rw [Nat.mul_assoc, Nat.mul_assoc] at hpartUnits
  have hfloor := Nat.div_add_mod' (part * unitsPerSecond) nanosPerSecond
  have hcut : part * unitsPerSecond % nanosPerSecond < nanosPerSecond := Nat.mod_lt _ (by decide)
  rw [hsum, hunits]
  unfold nanosPerSecond at *
  omega

end WaitLemmas

open WaitLemmas RetryLemmas

/-- A doubled span is no shorter than the span, although doubling rounds. -/
theorem le_twice (nanos : Nat) : nanos ≤ twice nanos := by
  rcases Nat.eq_zero_or_pos nanos with rfl | hpos
  · exact Nat.zero_le _
  · have hseconds := le_secondsOfNanos nanos
    have hunits : nanosPerSecond * 10 ≤ unitsPerSecond := by decide
    have hspan : unitsPerSecond ≤ nanos * unitsPerSecond := Nat.le_mul_of_pos_left _ hpos
    refine le_divNearest ?_ (by decide)
    rw [Nat.mul_assoc]
    omega

/-! ## 2. Pauses -/

section

variable {trial : Retrial}

theorem pause_succ_le (trial : Retrial) (number : Nat) :
    trial.pause (number + 1) ≤ trial.policy.maxBackoff.nanos :=
  Nat.min_le_right _ _

theorem pause_le (h : trial.policy.initialBackoff.nanos ≤ trial.policy.maxBackoff.nanos) :
    ∀ number, trial.pause number ≤ trial.policy.maxBackoff.nanos
  | 0 => h
  | number + 1 => pause_succ_le trial number

/-- As long as no pause has been cut, the next one is no shorter. -/
theorem pause_le_succ (h : trial.policy.initialBackoff.nanos ≤ trial.policy.maxBackoff.nanos)
    (number : Nat) : trial.pause number ≤ trial.pause (number + 1) :=
  Nat.le_min.mpr ⟨le_twice _, pause_le h number⟩

/-- After an initial backoff that is too long, all pauses are the largest one. -/
theorem pause_succ_eq (h : trial.policy.maxBackoff.nanos ≤ trial.policy.initialBackoff.nanos)
    (number : Nat) : trial.pause (number + 1) = trial.policy.maxBackoff.nanos := by
  have hle : trial.policy.maxBackoff.nanos ≤ trial.pause number := by
    induction number with
    | zero => exact h
    | succ number ih => exact Nat.le_min.mpr ⟨Nat.le_trans ih (le_twice _), Nat.le_refl _⟩
  exact Nat.min_eq_right (Nat.le_trans hle (le_twice _))

end

/-! ## 3. The waits of a commit -/

section

variable {trial : Retrial} {number retries : Nat}

namespace WaitLemmas

/-- Whatever comes of the attempts, the waits from one of them on are the pauses from it on. -/
theorem attemptsFrom_waits (trial : Retrial) (number retries : Nat) :
    ∃ count ≤ retries, (attemptsFrom trial number retries).1 =
      (List.range' number count).map trial.pause := by
  induction retries generalizing number with
  | zero => exact ⟨0, Nat.le_refl 0, rfl⟩
  | succ retries ih =>
    rw [attemptsFrom_succ]
    split
    · split
      · obtain ⟨count, hle, hwaits⟩ := ih (number + 1)
        refine ⟨count + 1, Nat.succ_le_succ hle, ?_⟩
        rw [Prod.map_fst, hwaits, List.range'_succ, List.map_cons]
      · exact ⟨1, Nat.succ_le_succ (Nat.zero_le _), rfl⟩
    · exact ⟨0, Nat.zero_le _, rfl⟩

theorem wait_eq (storage : Storage) (duration : Nat) (watched : Token) :
    storage.wait duration watched = ((storage.clock.wait duration watched).1,
      { storage with clock := (storage.clock.wait duration watched).2 }) := by
  unfold Storage.wait
  generalize storage.clock.wait duration watched = outcome
  rfl

theorem time_mk (time turn allowance : Nat) : Clock.time ⟨⟨time, turn⟩, allowance⟩ = time := rfl

/-- A wait that is not cut short ends at the tick after its length. -/
theorem wait_ended {clock : Clock} {duration : Nat} {watched : Token} (hpos : 0 < duration)
    (hw : (clock.wait duration watched).1 = true) :
    clock.wait duration watched =
      (true, ⟨⟨waitEnd clock.time duration, 0⟩, Clock.fullAllowance - 1⟩) := by
  have hne : duration ≠ 0 := Nat.ne_of_gt hpos
  cases hc : watched.isCancelled clock.now with
  | true => simp [Clock.wait, hne, hc] at hw
  | false =>
    cases hp : watched.planned with
    | none => simp [Clock.wait, hne, hc, hp]
    | some moment =>
      by_cases hlt : moment.time < waitEnd clock.time duration
      · simp [Clock.wait, hne, hc, hp, hlt] at hw
      · simp [Clock.wait, hne, hc, hp, hlt]

end WaitLemmas

/-- The waits of a commit are the first pauses, fewer than attempts are allowed. -/
theorem waits_eq_pauses (trial : Retrial) :
    ∃ count < trial.limit, trial.waits = (List.range count).map trial.pause := by
  have hlimit : 0 < trial.limit := Nat.le_max_left 1 trial.policy.maxAttempts
  by_cases hb : trial.Begins
  · obtain ⟨count, hle, hwaits⟩ := attemptsFrom_waits trial 0 (trial.limit - 1)
    refine ⟨count, by omega, ?_⟩
    rw [Retrial.waits, trace_of_begins hb, hwaits, List.range_eq_range']
  · obtain ⟨clock, htrace⟩ := trace_of_not_begins hb
    exact ⟨0, hlimit, congrArg Prod.fst htrace⟩

/-- The next attempt is made when the clock has moved on by the wait, up to its next tick. -/
theorem time_before_succ (hpos : 0 < trial.pause number) (hw : trial.Waits number) :
    (trial.before (number + 1)).clock.time =
      waitEnd (trial.left number).clock.time (trial.pause number) := by
  have hbefore : trial.before (number + 1) =
      ((trial.left number).wait (trial.pause number) trial.token).2 := rfl
  rw [Retrial.Waits, wait_eq] at hw
  rw [hbefore, wait_eq, wait_ended hpos hw]
  exact time_mk _ _ _

end

/-! ## 4. The result -/

/-- If the initial backoff is within the largest one, all waits of a commit are, and none is shorter
than the one before it. If it is longer, it is the first wait as it stands, and all others are the
largest backoff: only the first wait is too long, and only the second one is shorter than the one
before it.

These are the waits of a commit: one after every attempt but the one that decides, or up to the one
that is cut short; each moves the clock on by its length before the next attempt. -/
theorem waits_bounded (trial : Retrial) :
    (trial.policy.initialBackoff.nanos ≤ trial.policy.maxBackoff.nanos →
      (∀ wait ∈ trial.waits, wait ≤ trial.policy.maxBackoff.nanos) ∧
      trial.waits.Pairwise (· ≤ ·)) ∧
    (trial.policy.maxBackoff.nanos < trial.policy.initialBackoff.nanos →
      trial.waits = [] ∨ ∃ later, trial.waits =
        trial.policy.initialBackoff.nanos ::
          List.replicate later trial.policy.maxBackoff.nanos) ∧
    (¬ trial.Begins → trial.waits = []) ∧
    (∀ number, trial.Decides number → trial.Reaches number →
      trial.waits = (List.range number).map trial.pause) ∧
    (∀ number, number + 1 < trial.limit →
      (∀ earlier, earlier ≤ number → isPassing (trial.outcome earlier)) →
      trial.Reaches number → ¬ trial.Waits number →
      trial.waits = (List.range (number + 1)).map trial.pause) ∧
    ∀ number, 0 < trial.pause number → trial.Waits number →
      (trial.before (number + 1)).clock.time =
        waitEnd (trial.left number).clock.time (trial.pause number) := by
  obtain ⟨count, -, hwaits⟩ := waits_eq_pauses trial
  refine ⟨fun h => ⟨?_, ?_⟩, fun h => ?_, fun h => ?_,
    fun number hd hr => congrArg Prod.fst (trace_of_decides hd hr),
    fun number hlt hp hr hw => congrArg Prod.fst (trace_of_cut hlt hp hr hw),
    fun number => time_before_succ⟩
  · rw [hwaits, List.forall_mem_map]
    exact fun number _ => pause_le h number
  · have hmono : Monotone trial.pause := monotone_nat_of_le_succ (pause_le_succ h)
    rw [hwaits, List.pairwise_map]
    exact List.pairwise_lt_range.imp fun hlt => hmono (Nat.le_of_lt hlt)
  · cases count with
    | zero => exact .inl hwaits
    | succ later =>
      refine .inr ⟨later, ?_⟩
      have hrest : (List.range later).map (fun number => trial.pause (number + 1)) =
          List.replicate later trial.policy.maxBackoff.nanos := by
        rw [List.eq_replicate_iff]
        refine ⟨by simp, List.forall_mem_map.mpr fun number _ => ?_⟩
        exact pause_succ_eq (Nat.le_of_lt h) number
      rw [hwaits, List.range_succ_eq_map, List.map_cons, List.map_map, ← hrest]
      rfl
  · obtain ⟨clock, htrace⟩ := trace_of_not_begins h
    exact congrArg Prod.fst htrace

/-- The first two attempts fail. The second wait is the double of the first one in single precision,
a nanosecond more than twice 50 milliseconds. -/
theorem waits_bounded_scripted :
    let trial := exRetrial 3 exFaulty .never
    trial.policy.initialBackoff.nanos ≤ trial.policy.maxBackoff.nanos ∧
    trial.waits = [50000000, 100000001] ∧
    (∀ wait ∈ trial.waits, wait ≤ trial.policy.maxBackoff.nanos) ∧
    trial.waits.Pairwise (· ≤ ·) := by
  intro trial
  have hwithin : trial.policy.initialBackoff.nanos ≤ trial.policy.maxBackoff.nanos := by decide
  obtain ⟨hbounds, -⟩ := waits_bounded trial
  exact ⟨hwithin, by decide +kernel, hbounds hwithin⟩

/-- The same commit under a policy whose initial backoff of 100 milliseconds is longer than its
largest one of 10. -/
def exHasty : Retrial := { exRetrial 3 exFaulty .never with
  policy := ⟨3, .ofMillis 100, .ofMillis 10⟩ }

/-- The first wait is ten times the largest backoff, and the second one is shorter. -/
theorem first_wait_exceeds_maxBackoff :
    exHasty.Commits exFaulty exSource ∧ exHasty.result.1 = .ok true ∧
    exHasty.policy.maxBackoff.nanos = 10000000 ∧
    exHasty.waits = [100000000, 10000000] ∧
    ¬ (∀ wait ∈ exHasty.waits, wait ≤ exHasty.policy.maxBackoff.nanos) ∧
    ¬ exHasty.waits.Pairwise (· ≤ ·) := by
  have hwaits : exHasty.waits = [100000000, 10000000] := by decide +kernel
  refine ⟨rfl, rfl, rfl, hwaits, ?_, ?_⟩
  · rw [hwaits]
    decide
  · rw [hwaits]
    decide

end LeaseLog
