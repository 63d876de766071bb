import LeaseLog.Proofs.Stream.Desk
import LeaseLog.Proofs.Stream.ExactlyOnce

/-!
# Looks that fail unnoticed

A keyed append looks for the message key before it stages a message. Behind a layer that absorbs
failures, a look that fails tells the same as one that finds nothing. Then the engine has the last
word. It refuses the message if another entity holds the lease of the message key, or if the version
of the message is stored already; it does not if the stream itself holds the lease, and the unit
knows the latest version of it.

So a keyed append is safe if its look is not blind, and also if it is, as long as somebody has
written to the stream since the unit got to know it. What is between the look and the commit does no
harm: whoever takes the lease meanwhile makes the message late, and it stays late.

Results:
1. `orderly_leads`: the versions that a unit knows follow on the stored ones, whatever happens.
2. `barred_leads`, `blocked_leads`: a message that is late stays late, staged or not.
3. `keyed_append_bars_commit`: a message key is not committed again, unless a look was blind and the
   message not late.
4. `keyed_append_commits_twice`: in that case it is.
-/

namespace LeaseLog

/-! ## Definitions -/

/-- A keyed append stages its message: the look finds nothing, others may do something before the
unit hears of it, and the unit stages the message. -/
inductive Desk.Appends (engine : Nat) (key : String) (delta : Delta) (extras : Extras)
    (token : Token) : Desk → Desk → Prop
  | stage {unit unit' : UnitOfWork} {claim : Claim} {storage reached : Storage} {waiting : Desk}
      {pointer : Pointer} :
      unit.prepare key delta extras token storage = (.ok (some claim), reached) →
      Leads engine Foreign ⟨⟨unit, some claim⟩, reached⟩ waiting →
      unit.stageClaim claim = (.ok pointer, unit') →
      Appends engine key delta extras token ⟨⟨unit, none⟩, storage⟩ ⟨⟨unit', none⟩, waiting.storage⟩

/-- A message that would be the next one of a stream, and would take a lease, comes too late: if
somebody holds the lease, a waiting message writes a version that is stored already, or the stream
was written to meanwhile, or another entity holds the lease and no waiting message releases it. -/
def Barred (log : LogState) (unit : UnitOfWork) (stream : Stream) (lease : Lease) : Prop :=
  ∀ holder, log.leaseHolder lease = some holder →
    Stale log unit.staged ∨
    (holder = stream.id ∧ stream.version.toNat < (log.versionOf stream.id).toNat) ∨
    (holder ≠ stream.id ∧
      ∀ message ∈ unit.staged, message.state.id = holder → lease ∉ message.removeLeases)

/-- A message waits that takes a lease, and it comes too late. -/
def Blocked (log : LogState) (messages : List Message) (lease : Lease) : Prop :=
  ∃ earlier message later, messages = earlier ++ message :: later ∧ lease ∈ message.addLeases ∧
    ∀ holder, log.leaseHolder lease = some holder →
      Stale log messages ∨
      (holder ≠ message.state.id ∧
        ∀ other ∈ earlier, other.state.id = holder → lease ∉ other.removeLeases)

/-- The invariant of a desk: the unit is in place, and the versions that it knows are the stored
ones or follow on them. -/
structure Desk.Orderly (desk : Desk) (store : Store) (engine : Nat) : Prop where
  absorbs : desk.writer.unit.Absorbs store engine desk.storage
  numbered : Numbered (desk.storage.stateOf engine) desk.writer.unit
  known : ∀ claim, desk.writer.claim = some claim → claim.stream ∈ desk.writer.unit.streams

/-! ## 1. What is kept from step to step -/

open AcceptedLemmas LayerLemmas WorldLemmas OnceLemmas DeskLemmas

namespace BlindLemmas

variable {storage : Storage} {store : Store} {engine : Nat} {log final : LogState} {source : Source}
  {unit unit' : UnitOfWork} {writer writer' : Writer} {desk : Desk} {lease : Lease}
  {stream : Stream} {claim : Claim} {messages : List Message}

theorem numbered_of_effect (hn : Numbered log writer.unit)
    (hk : ∀ claim, writer.claim = some claim → claim.stream ∈ writer.unit.streams)
    (h : Effect log writer writer') :
    Numbered log writer'.unit ∧
      ∀ claim, writer'.claim = some claim → claim.stream ∈ writer'.unit.streams := by
  cases h with
  | rest => exact ⟨hn, hk⟩
  | track hv => exact ⟨numbered_track hn hv, fun claim hc => by cases hc⟩
  | claim hs => exact ⟨hn, fun claim hc => by cases hc; exact hs⟩
  | stage => exact ⟨numbered_stage hn (hk _ rfl), fun claim hc => by cases hc⟩
  | append hs => exact ⟨numbered_stage hn hs, fun claim hc => by cases hc⟩

theorem orderly_step (h : desk.Orderly store engine) (occasion : Occasion) :
    (desk.step engine occasion).Orderly store engine := by
  obtain ⟨ha, ⟨heffect, hlog⟩ | ⟨hwriter, source, hgrown⟩ | ⟨-, hwriter, source, hm, hgrown⟩⟩ :=
    step_cases h.absorbs occasion
  · obtain ⟨hn, hk⟩ := numbered_of_effect h.numbered h.known heffect
    exact ⟨ha, hlog ▸ hn, hk⟩
  · exact ⟨ha, hwriter ▸ numbered_of_apply h.numbered hgrown, hwriter ▸ h.known⟩
  · refine ⟨ha, hwriter ▸ numbered_of_commit h.numbered hgrown hm, fun claim hc => ?_⟩
    rw [hwriter] at hc
    cases hc

theorem orderly_leads {sort : Desk → Occasion → Prop} {last : Desk}
    (h : desk.Orderly store engine) (hl : desk.Leads engine sort last) :
    last.Orderly store engine := by
  induction hl with
  | refl => exact h
  | step occasion _ _ ih => exact orderly_step ih occasion

/-- If the version of the new holder's entity has grown, whatever waits for that entity is stale. -/
theorem barred_of_apply (hn : Numbered log unit) (hs : stream ∈ unit.streams)
    (hb : Barred log unit stream lease) (ha : log.apply source Invariant.standard = .ok final) :
    Barred final unit stream lease := by
  intro holder hh
  have hstale : (∃ message ∈ unit.staged, message.state.id = holder) →
      (log.versionOf holder).toNat < (final.versionOf holder).toNat → Stale final unit.staged := by
    rintro ⟨message, hm, rfl⟩ hv
    exact stale_of_grown hn hm hv
  rcases versionOf_lt_of_leaseHolder ha hh with hbefore | hv
  · rcases hb holder hbefore with hstale | ⟨he, hlt⟩ | hother
    · exact .inl (hstale.mono ha)
    · exact .inr (.inl ⟨he, Nat.lt_of_lt_of_le hlt (versionOf_le ha)⟩)
    · exact .inr (.inr hother)
  · by_cases hw : ∃ message ∈ unit.staged, message.state.id = holder
    · exact .inl (hstale hw hv)
    · by_cases he : holder = stream.id
      · subst he
        rcases hn.tracked stream hs with hle | ⟨message, hm, hid, -⟩
        · exact .inr (.inl ⟨rfl, Nat.lt_of_le_of_lt hle hv⟩)
        · exact absurd ⟨message, hm, hid⟩ hw
      · exact .inr (.inr ⟨he, fun message hm hid => absurd ⟨message, hm, hid⟩ hw⟩)

theorem blocked_of_apply (hn : Numbered log unit) (hb : Blocked log unit.staged lease)
    (ha : log.apply source Invariant.standard = .ok final) : Blocked final unit.staged lease := by
  obtain ⟨earlier, message, later, hsplit, hl, hlate⟩ := hb
  refine ⟨earlier, message, later, hsplit, hl, fun holder hh => ?_⟩
  rcases versionOf_lt_of_leaseHolder ha hh with hbefore | hv
  · exact (hlate holder hbefore).imp_left fun hstale => hstale.mono ha
  · by_cases hw : ∃ message ∈ unit.staged, message.state.id = holder
    · obtain ⟨message, hm, rfl⟩ := hw
      exact .inl (stale_of_grown hn hm hv)
    · have hm : message ∈ unit.staged := hsplit ▸ List.mem_append_right _ List.mem_cons_self
      refine .inr ⟨fun he => hw ⟨message, hm, he.symm⟩, fun other ho he => ?_⟩
      exact absurd ⟨other, hsplit ▸ List.mem_append_left _ ho, he⟩ hw

theorem stale_append (h : Stale log messages) (others : List Message) :
    Stale log (messages ++ others) := by
  obtain ⟨message, hm, hle⟩ := h
  exact ⟨message, List.mem_append_left _ hm, hle⟩

theorem blocked_append (h : Blocked log messages lease) (others : List Message) :
    Blocked log (messages ++ others) lease := by
  obtain ⟨earlier, message, later, rfl, hl, hlate⟩ := h
  refine ⟨earlier, message, later ++ others, by simp, hl, fun holder hh => ?_⟩
  exact (hlate holder hh).imp_left fun hstale => stale_append hstale others

theorem stageClaim_append : ∃ others, (unit.stageClaim claim).2.staged = unit.staged ++ others := by
  rcases stageClaim_cases unit claim with h | ⟨version, -, h⟩
  · exact ⟨[], by rw [h, List.append_nil]⟩
  · exact ⟨[claim.message version], by rw [h]; rfl⟩

theorem effect_append_staged (h : Effect log writer writer') :
    ∃ others, writer'.unit.staged = writer.unit.staged ++ others := by
  cases h with
  | rest => exact ⟨[], (List.append_nil _).symm⟩
  | track => exact ⟨[], (List.append_nil _).symm⟩
  | claim => exact ⟨[], (List.append_nil _).symm⟩
  | stage => exact stageClaim_append
  | append => exact stageClaim_append

/-- Once a claim is staged, its message waits behind everything that waited before. -/
theorem blocked_of_stage (hb : Barred log unit claim.stream lease)
    (hk : claim.keyLease = some lease) {pointer : Pointer}
    (hs : unit.stageClaim claim = (.ok pointer, unit')) : Blocked log unit'.staged lease := by
  unfold UnitOfWork.stageClaim UnitOfWork.stage at hs
  split at hs
  · cases hs
  · next version hv =>
    cases hs
    have hversion := next_eq_ok_iff.mp hv
    refine ⟨unit.staged, claim.message version, [], rfl,
      mem_addLeases_ofStream.mpr (.inr (.inl hk)), fun holder hh => ?_⟩
    rcases hb holder hh with hstale | ⟨rfl, hlt⟩ | ⟨hne, hkeeps⟩
    · exact .inl (stale_append hstale _)
    · refine .inl ⟨claim.message version, List.mem_append_right _ (List.mem_singleton_self _), ?_⟩
      rw [state_message]
      exact hversion ▸ hlt
    · refine .inr ⟨?_, hkeeps⟩
      rw [state_message]
      exact hne

/-- In a source that is accepted, a message that takes a lease is of the entity that holds it, if
that entity does not release it before. -/
theorem id_of_takes {earlier later : List Message} {message : Message} {holder : Ident} :
    ∀ {state written : LogState},
      LogState.writeAll Invariant.standard source state (earlier ++ message :: later) =
        .ok written →
      state.leaseHolder lease = some holder →
      (∀ other ∈ earlier, other.state.id = holder → lease ∉ other.removeLeases) →
      lease ∈ message.addLeases → message.state.id = holder := by
  induction earlier with
  | nil =>
    intro state written h hh _ hl
    rw [List.nil_append, LogState.writeAll] at h
    split at h
    · cases h
    · next hc => exact ((check_standard_iff.mp hc).free lease hl holder hh).symm
  | cons first earlier ih =>
    intro state written h hh hkeeps hl
    rw [List.cons_append, LogState.writeAll] at h
    split at h
    · cases h
    · next hc =>
      refine ih h ?_ (fun other ho => hkeeps other (List.mem_cons_of_mem _ ho)) hl
      -- the first message takes the lease again, or does not touch it
      rw [LogState.leaseHolder_write]
      split
      · next hadd => rw [(check_standard_iff.mp hc).free lease hadd holder hh]
      · rw [if_neg, hh]
        rintro ⟨hr, hown⟩
        rw [hh] at hown
        exact hkeeps first List.mem_cons_self (Option.some.inj hown).symm hr

theorem not_apply_of_blocked (hb : Blocked log messages lease) (hl : log.leaseHolder lease ≠ none)
    (hm : source.messages = messages) : log.apply source Invariant.standard ≠ .ok final := by
  intro ha
  obtain ⟨holder, hh⟩ := Option.ne_none_iff_exists'.mp hl
  obtain ⟨earlier, message, later, hsplit, hadds, hlate⟩ := hb
  rcases hlate holder hh with hstale | ⟨hne, hkeeps⟩
  · exact not_stale_of_apply ha (hm ▸ hstale)
  · rw [apply_eq_writeAll, hm, hsplit] at ha
    cases hw : LogState.writeAll Invariant.standard source log (earlier ++ message :: later) with
    | error violation =>
      rw [hw] at ha
      cases ha
    | ok written => exact hne (id_of_takes hw hh hkeeps hadds).symm

/-- Nothing that happens after the append makes room for the message. -/
theorem blocked_step (ho : desk.Orderly store engine) {occasion : Occasion}
    (hk : Desk.Keeps desk occasion)
    (hb : Blocked (desk.storage.stateOf engine) desk.writer.unit.staged lease) :
    Blocked ((desk.step engine occasion).storage.stateOf engine)
      (desk.step engine occasion).writer.unit.staged lease := by
  obtain ⟨-, ⟨heffect, hlog⟩ | ⟨hwriter, source, hgrown⟩ | ⟨hcommits, -⟩⟩ :=
    step_cases ho.absorbs occasion
  · obtain ⟨others, hstaged⟩ := effect_append_staged heffect
    rw [hlog, hstaged]
    exact blocked_append hb others
  · rw [hwriter]
    exact blocked_of_apply ho.numbered hb hgrown
  · exact absurd hk hcommits

theorem blocked_leads {last : Desk} (ho : desk.Orderly store engine)
    (hb : Blocked (desk.storage.stateOf engine) desk.writer.unit.staged lease)
    (hl : desk.Leads engine Desk.Keeps last) :
    Blocked (last.storage.stateOf engine) last.writer.unit.staged lease := by
  induction hl with
  | refl => exact hb
  | step occasion hl hk ih => exact blocked_step (orderly_leads ho hl) hk ih

/-- While a claim waits, what others do leaves the unit as it is and its message late. -/
theorem barred_leads {last : Desk} (ho : desk.Orderly store engine)
    (hs : stream ∈ desk.writer.unit.streams)
    (hb : Barred (desk.storage.stateOf engine) desk.writer.unit stream lease)
    (hl : desk.Leads engine Desk.Foreign last) :
    last.writer = desk.writer ∧
      Barred (last.storage.stateOf engine) desk.writer.unit stream lease := by
  induction hl with
  | refl => exact ⟨rfl, hb⟩
  | step occasion hl hf ih =>
    obtain ⟨hsame, hbarred⟩ := ih
    have hlast := orderly_leads ho hl
    obtain ⟨hwriter, -, hlog⟩ := foreign_cases hlast.absorbs hf
    refine ⟨hwriter.trans hsame, ?_⟩
    rcases hlog with hlog | ⟨source, happly⟩
    · rw [hlog]
      exact hbarred
    · exact barred_of_apply (hsame ▸ hlast.numbered) hs hbarred happly

/-- A message that is staged after a look that saw nobody, or that was late already when the look
was blind, is late for as long as somebody holds the lease. -/
theorem blocked_of_appends {key messageKey : String} {delta : Delta} {extras : Extras}
    {token : Token} {appended : Desk} (ho : desk.Orderly store engine)
    (hkey : delta.messageKey = some messageKey)
    (hb : store.Blinks desk.storage → ∀ handle stream,
      desk.writer.unit.known key = .ok (handle, stream) →
        Barred (desk.storage.stateOf engine) desk.writer.unit stream (messageLease key messageKey))
    (ha : Desk.Appends engine key delta extras token desk appended) :
    appended.Orderly store engine ∧
      Blocked (appended.storage.stateOf engine) appended.writer.unit.staged
        (messageLease key messageKey) := by
  cases ha with
  | @stage unit unit' claim storage reached waiting pointer hprepare hwaits hstage =>
    obtain ⟨hlooked, hclaim⟩ := prepare_absorbed ho.absorbs hprepare
    obtain ⟨hknown, hlease, hfree⟩ := hclaim claim rfl
    rw [hkey] at hlease
    have hlog := stateOf_untouched hlooked.untouched engine
    have hprepared : Desk.Orderly ⟨⟨unit, some claim⟩, reached⟩ store engine := by
      have hstep :
          Desk.step engine ⟨⟨unit, none⟩, storage⟩ (.act (.prepare key delta extras token)) =
            ⟨⟨unit, some claim⟩, reached⟩ := by
        simp only [Desk.step, Writer.act, hprepare]
      exact hstep ▸ orderly_step ho _
    have hbarred :
        Barred (reached.stateOf engine) unit claim.stream (messageLease key messageKey) := by
      rw [hlog]
      rcases hfree _ hlease with hfree | hblind
      · intro holder hh
        cases hfree.symm.trans hh
      · exact hb hblind _ _ hknown
    obtain ⟨hwriter, hwaiting⟩ := barred_leads hprepared (hprepared.known claim rfl) hbarred hwaits
    have hstaged : Desk.step engine waiting (.act .stage) = ⟨⟨unit', none⟩, waiting.storage⟩ := by
      simp only [Desk.step, Writer.act, hwriter, hstage]
    exact ⟨hstaged ▸ orderly_step (orderly_leads hprepared hwaits) _,
      blocked_of_stage hwaiting hlease hstage⟩

end BlindLemmas

open BlindLemmas

/-! ## 2. The result -/

/-- A keyed append that says that it staged its message is one with nobody in between. -/
theorem appends_of_appendWith {engine : Nat} {unit unit' : UnitOfWork} {key : String}
    {delta : Delta} {extras : Extras} {token : Token} {storage after : Storage}
    (h : unit.appendWith key delta extras token storage = (.ok true, unit', after)) :
    Desk.Appends engine key delta extras token ⟨⟨unit, none⟩, storage⟩ ⟨⟨unit', none⟩, after⟩ := by
  rw [appendWith_eq_prepare] at h
  split at h
  · cases h
  · cases h
  · next claim reached hprepare =>
    rcases hstage : unit.stageClaim claim with ⟨_ | pointer, staged⟩
    · rw [hstage] at h
      cases h
    · rw [hstage] at h
      cases h
      exact .stage hprepare .refl hstage

/-- Let a unit of work do anything, while others commit, up to a keyed append to a stream that it
knows. If somebody holds the lease of the message key, the append does nothing, unless its look is
blind. And whatever the look told, the commit of the message is not accepted as long as somebody
holds the lease, unless the look was blind and the message not late. -/
theorem keyed_append_bars_commit {storage : Storage} {store : Store} {engine : Nat}
    {signature : Signature} {desk : Desk} {messageKey : String} {delta : Delta}
    (hu : (UnitOfWork.start (.logging (.bare store)) signature).Absorbs store engine storage)
    (hl : Desk.Leads engine (fun _ _ => True)
      ⟨⟨.start (.logging (.bare store)) signature, none⟩, storage⟩ desk)
    (hkey : delta.messageKey = some messageKey) (key : String) (extras : Extras) (token : Token) :
    let lease := messageLease key messageKey
    let appending := desk.writer.unit.appendWith key delta extras token desk.storage
    ((desk.storage.stateOf engine).leaseHolder lease ≠ none → ¬ store.Blinks desk.storage →
      appending.1 ≠ .ok true ∧ appending.2.1 = desk.writer.unit) ∧
    ((store.Blinks desk.storage → ∀ handle stream,
        desk.writer.unit.known key = .ok (handle, stream) →
          Barred (desk.storage.stateOf engine) desk.writer.unit stream lease) →
      ∀ appended later, Desk.Appends engine key delta extras token desk appended →
        appended.Leads engine Desk.Keeps later →
        (later.storage.stateOf engine).leaseHolder lease ≠ none →
        ∀ stamp token, (later.writer.unit.commit stamp token later.storage).1 ≠ .ok true) := by
  intro lease appending
  have hstart : Desk.Orderly ⟨⟨.start (.logging (.bare store)) signature, none⟩, storage⟩ store
      engine :=
    ⟨hu, numbered_start, fun claim hc => by cases hc⟩
  have ho := orderly_leads hstart hl
  refine ⟨fun hheld hsees => ?_, fun hb appended later ha hkeeps hheld stamp token hok => ?_⟩
  · have happending : appending = _ := appendWith_eq_prepare _ key delta extras token desk.storage
    rw [happending]
    rcases hprepare : desk.writer.unit.prepare key delta extras token desk.storage with
      ⟨cause | _ | claim, after⟩
    · exact ⟨nofun, rfl⟩
    · exact ⟨nofun, rfl⟩
    · obtain ⟨-, hlease, hfree⟩ := (prepare_absorbed ho.absorbs hprepare).2 claim rfl
      rw [hkey] at hlease
      exact absurd (hfree _ hlease) (not_or.mpr ⟨hheld, hsees⟩)
  · obtain ⟨happended, hblocked⟩ := blocked_of_appends ho hkey hb ha
    have hlast := orderly_leads happended hkeeps
    have hlate := blocked_leads happended hblocked hkeeps
    rcases hc : later.writer.unit.commit stamp token later.storage with ⟨result, unit, after⟩
    rw [hc] at hok
    obtain ⟨-, ⟨-, hempty, -⟩ | ⟨-, -, -, source, hm, happly⟩⟩ := commit_cases hlast.absorbs hc
    · obtain ⟨earlier, message, later, hsplit, -⟩ := hlate
      exact absurd (hsplit.symm.trans (hempty hok)) (by simp)
    · exact not_apply_of_blocked hlate hheld hm happly

/-- A source with one message of a stream. -/
def exNote (id version : Nat) (messageKey : Option String) : Source :=
  ⟨.ofNat id, default, default,
    [.ofStream "orders" ⟨.ofNat 1, (Version.ofNat? version).getD .zero⟩ default
      (messageKey.map (messageLease "orders")) .none]⟩

/-- A log of one source, and a unit of work on a session whose second read fails unnoticed. -/
def exDesk (source : Source) : Desk :=
  let failing : ReadFault := ⟨fun _ => [], some (.backend "down"), 0, false⟩
  let (_, storage) := Storage.empty.addEngine ⟨(LogState.empty.commit source).2, 0⟩
  let (_, storage) := storage.addSession 0 .writer
  let (_, storage) := storage.addScript ⟨[], [.none, failing], [], [], []⟩
  ⟨⟨.start (.logging (.bare (.scripted 0 0))) (.ok default), none⟩, storage⟩

/-- The stream is loaded, and then somebody else commits the message key. -/
def exOvertaken : Desk :=
  let loaded := (exDesk (exNote 7 1 none)).step 0 (.act (.load "orders" .never))
  loaded.step 0 (.others (exNote 8 2 (some "first")))

theorem absorbs_exDesk (source : Source) :
    (exDesk source).writer.unit.Absorbs (.scripted 0 0) 0 (exDesk source).storage := by
  refine ⟨rfl, ⟨⟨0, .writer, false⟩, rfl, rfl⟩, Nat.zero_lt_one, .commit source .empty,
    fun fault hm => ?_⟩
  rcases List.mem_cons.mp hm with rfl | hm
  · rfl
  · cases List.mem_singleton.mp hm
    rfl

/-- A look that is not blind finds the message key. A blind one does not; but the stream was written
to since it was loaded, so the commit is refused. -/
theorem keyed_append_bars_commit_overtaken :
    let delta : Delta := ⟨.native "note", .ok .null, some "first"⟩
    let created := (exDesk (exNote 7 1 (some "first"))).step 0 (.act (.create "orders" (.ofNat 2)))
    let (_, unit, storage) :=
      exOvertaken.writer.unit.appendKeyed "orders" delta .never exOvertaken.storage
    (created.writer.unit.appendKeyed "orders" delta .never created.storage).1 ≠ .ok true ∧
    Store.Blinks exOvertaken.storage (.scripted 0 0) ∧ unit.staged ≠ [] ∧
    (unit.commit default .never storage).1 ≠ .ok true := by
  intro delta created
  have hcreated : Desk.Leads 0 (fun _ _ => True) (exDesk (exNote 7 1 (some "first"))) created :=
    .step (.act (.create "orders" (.ofNat 2))) .refl trivial
  have hovertaken : Desk.Leads 0 (fun _ _ => True) (exDesk (exNote 7 1 none)) exOvertaken :=
    .step (.others (exNote 8 2 (some "first")))
      (.step (.act (.load "orders" .never)) .refl trivial) trivial
  have hkey : delta.messageKey = some "first" := rfl
  obtain ⟨hsees, -⟩ :=
    keyed_append_bars_commit (absorbs_exDesk _) hcreated hkey "orders" .none .never
  obtain ⟨-, hlate⟩ :=
    keyed_append_bars_commit (absorbs_exDesk _) hovertaken hkey "orders" .none .never
  refine ⟨(hsees (by decide) ?_).1, ⟨_, _, _, rfl, rfl, rfl, rfl⟩, by decide, ?_⟩
  · rintro ⟨fault, later, cause, hreads, -, hfailure, -⟩
    cases hreads
    cases hfailure
  · refine hlate (fun _ handle stream hknown => ?_) _ _ (appends_of_appendWith rfl) .refl
      (by decide) default .never
    cases hknown
    intro holder hholder
    cases hholder
    exact .inr (.inl ⟨rfl, by decide⟩)

/-- If the stream is as it was loaded, the commit is accepted: the entity of the stream holds the
lease of the message key already, so it may take it once more. -/
theorem keyed_append_commits_twice :
    let delta : Delta := ⟨.native "note", .ok .null, some "first"⟩
    let lease := messageLease "orders" "first"
    let loaded := (exDesk (exNote 7 1 (some "first"))).step 0 (.act (.load "orders" .never))
    let (appended, unit, storage) :=
      loaded.writer.unit.appendKeyed "orders" delta .never loaded.storage
    let (committed, _, after) := unit.commit default .never storage
    (exDesk (exNote 7 1 (some "first"))).writer.unit.Absorbs (.scripted 0 0) 0
      (exDesk (exNote 7 1 (some "first"))).storage ∧
    (loaded.storage.stateOf 0).leaseHolder lease = some (.ofNat 1) ∧
    appended = .ok true ∧ committed = .ok true ∧
    takes lease (loaded.storage.stateOf 0).messages = 1 ∧
    takes lease (after.stateOf 0).messages = 2 := by
  exact ⟨absorbs_exDesk _, rfl, rfl, rfl, by decide, by decide⟩

end LeaseLog
