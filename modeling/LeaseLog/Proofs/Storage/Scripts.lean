import LeaseLog.Proofs.Storage.Layers

/-!
# Calls of a store

A store hands a call on to its session, unless its script has something to say about the call. Then
one entry of the script is used up, time may pass, and the call may fail before the session is
reached; but engines, sessions and ledgers are as they were.

Results:
1. `list_eq`: a listing is the one of the session, with what the script adds to it.
2. `handsOn_commit`: a commit fails early or is one of the session.
3. `purge_eq`: so is a purge, and the script says which.
4. `dispose_cases`: so is a disposal.
-/

namespace LeaseLog

/-! ## Definitions -/

namespace Store

/-- The script of a store, if it has one. -/
def script? (storage : Storage) : Store → Option FaultScript
  | .plain _ => none
  | .scripted script _ => storage.scripts[script]?

/-- What a script says about the next reads. -/
def readFaults (storage : Storage) (store : Store) : List ReadFault :=
  match store.script? storage with
  | none => []
  | some faults => faults.reads

/-- What a script says about the next purges. -/
def purgeFaults (storage : Storage) (store : Store) : List (Option RepositoryError) :=
  match store.script? storage with
  | none => []
  | some faults => faults.purges

end Store

/-- A commit of a store is one of its session, or it fails before that. -/
def Storage.HandsOn (storage : Storage) (store : Store) (source : Source) (token : Token)
    (outcome : Except RepositoryError Bool × Storage) : Prop :=
  ∃ reached, storage.Untouched reached ∧ store.readFaults reached = store.readFaults storage ∧
    (outcome = reached.commitSession store.sessionIndex source token ∨
      ∃ cause, outcome = (.error cause, reached))

/-! ## 1. A script that goes on -/

open LayerLemmas

namespace ScriptLemmas

variable {storage other : Storage} {store : Store} {script session : Nat}
  {faults later : FaultScript}

theorem nextFault_eq {α : Type} (items : List α) :
    Store.nextFault items = (items[0]?, items.tail) := by
  cases items <;> rfl

theorem script?_set (hs : storage.scripts[script]? = some faults) :
    (Store.scripted script session).script?
      { storage with scripts := storage.scripts.set script later } = some later := by
  obtain ⟨hlt, -⟩ := List.getElem?_eq_some_iff.mp hs
  exact List.getElem?_set_self hlt

theorem script?_congr (h : storage.scripts = other.scripts) :
    store.script? storage = store.script? other := by
  cases store with
  | plain session => rfl
  | scripted script session => exact congrArg (·[script]?) h

theorem readFaults_congr (h : storage.scripts = other.scripts) :
    store.readFaults storage = store.readFaults other := by
  rw [Store.readFaults, script?_congr h]
  rfl

theorem purgeFaults_congr (h : storage.scripts = other.scripts) :
    store.purgeFaults storage = store.purgeFaults other := by
  rw [Store.purgeFaults, script?_congr h]
  rfl

theorem readFaults_of_script? (h : store.script? storage = some faults) :
    store.readFaults storage = faults.reads := by
  rw [Store.readFaults, h]

theorem purgeFaults_of_script? (h : store.script? storage = some faults) :
    store.purgeFaults storage = faults.purges := by
  rw [Store.purgeFaults, h]

theorem faults_nil (h : store.script? storage = none) :
    store.readFaults storage = [] ∧ store.purgeFaults storage = [] := by
  rw [Store.readFaults, Store.purgeFaults, h]
  exact ⟨rfl, rfl⟩

end ScriptLemmas

open ScriptLemmas

/-! ## 2. The four sorts of calls -/

section

variable (store : Store) (storage : Storage)

theorem list_eq (listing : Listing) (query : Query) :
    ∃ reached, storage.Untouched reached ∧
      store.readFaults reached = (store.readFaults storage).tail ∧
      store.list listing query storage =
        (match (store.readFaults storage)[0]? with
        | none => .plain (Store.scan reached store.sessionIndex listing query)
        | some fault =>
          .faulty (fault.inserted listing) fault.failure fault.before fault.resumes
            (Store.scan reached store.sessionIndex listing query), reached) := by
  cases store with
  | plain session => exact ⟨storage, Untouched.refl, rfl, rfl⟩
  | scripted script session =>
    cases hs : storage.scripts[script]? with
    | none =>
      have hscript : (Store.scripted script session).script? storage = none := hs
      have hnil := (faults_nil hscript).1
      rw [hnil, Store.list, hs]
      exact ⟨storage, Untouched.refl, hnil, rfl⟩
    | some faults =>
      have hscript : (Store.scripted script session).script? storage = some faults := hs
      have hreads := readFaults_of_script? hscript
      simp only [Store.list, hs, nextFault_eq, hreads]
      refine ⟨{ storage with
        scripts := storage.scripts.set script { faults with reads := faults.reads.tail } },
        ⟨rfl, rfl, rfl⟩, readFaults_of_script? (script?_set hs), ?_⟩
      cases faults.reads[0]? with
      | none => rfl
      | some fault => rfl

/-- A commit that a script holds up, or lets fail before it reaches the session. -/
theorem handsOn_delayed {store : Store} {storage : Storage} {source : Source} {token : Token}
    {failure : Option RepositoryError} {waited : Bool × Storage}
    (hu : storage.Untouched waited.2) (hf : store.readFaults waited.2 = store.readFaults storage) :
    storage.HandsOn store source token
      (match waited.1 with
      | false => (.error .cancelled, waited.2)
      | true =>
        match failure with
        | some cause => (.error cause, waited.2)
        | none => waited.2.commitSession store.sessionIndex source token) := by
  refine ⟨waited.2, hu, hf, ?_⟩
  split
  · exact .inr ⟨_, rfl⟩
  · cases failure with
    | none => exact .inl rfl
    | some cause => exact .inr ⟨_, rfl⟩

theorem handsOn_commit (source : Source) (token watched : Token) :
    storage.HandsOn store source token (store.commit source token watched storage) := by
  cases store with
  | plain session => exact ⟨storage, Untouched.refl, rfl, .inl rfl⟩
  | scripted script session =>
    cases hs : storage.scripts[script]? with
    | none =>
      rw [Store.commit, hs]
      exact ⟨storage, Untouched.refl, rfl, .inl rfl⟩
    | some faults =>
      have hscript : (Store.scripted script session).script? storage = some faults := hs
      have hreads := readFaults_of_script? hscript
      simp only [Store.commit, hs, nextFault_eq]
      let noted : FaultScript := { faults with
        commits := faults.commits.tail
        arrivals := storage.clock.time :: faults.arrivals }
      let reached : Storage := { storage with scripts := storage.scripts.set script noted }
      have hnoted : (Store.scripted script session).script? reached = some noted := script?_set hs
      have hreached : (Store.scripted script session).readFaults reached =
          (Store.scripted script session).readFaults storage :=
        (readFaults_of_script? hnoted).trans hreads.symm
      cases faults.commits[0]? with
      | none => exact ⟨reached, ⟨rfl, rfl, rfl⟩, hreached, .inl rfl⟩
      | some fault =>
        refine handsOn_delayed ?_ ?_
        · split <;> exact ⟨rfl, rfl, rfl⟩
        · split <;> exact hreached

/-- A purge fails early if the script says so, and then it does not reach the session. -/
theorem purge_eq (id : Ident) :
    ∃ reached, storage.Untouched reached ∧
      store.purgeFaults reached = (store.purgeFaults storage).tail ∧
      store.purge id storage =
        match (store.purgeFaults storage)[0]?.join with
        | some cause => (.error cause, reached)
        | none => reached.purgeSession store.sessionIndex id := by
  cases store with
  | plain session => exact ⟨storage, Untouched.refl, rfl, rfl⟩
  | scripted script session =>
    cases hs : storage.scripts[script]? with
    | none =>
      have hscript : (Store.scripted script session).script? storage = none := hs
      have hnil := (faults_nil hscript).2
      rw [hnil, Store.purge, hs]
      exact ⟨storage, Untouched.refl, hnil, rfl⟩
    | some faults =>
      have hscript : (Store.scripted script session).script? storage = some faults := hs
      have hpurges := purgeFaults_of_script? hscript
      simp only [Store.purge, hs, nextFault_eq, hpurges]
      refine ⟨{ storage with
        scripts := storage.scripts.set script { faults with purges := faults.purges.tail } },
        ⟨rfl, rfl, rfl⟩, purgeFaults_of_script? (script?_set hs), ?_⟩
      rcases faults.purges[0]? with _ | _ | cause <;> rfl

theorem dispose_cases : ∃ reached, storage.Untouched reached ∧
    store.readFaults reached = store.readFaults storage ∧
      (store.dispose storage = (.ok (), reached.disposeSession store.sessionIndex) ∨
        ∃ cause, store.dispose storage = (.error cause, reached)) := by
  cases store with
  | plain session => exact ⟨storage, Untouched.refl, rfl, .inl rfl⟩
  | scripted script session =>
    cases hs : storage.scripts[script]? with
    | none =>
      rw [Store.dispose, hs]
      exact ⟨storage, Untouched.refl, rfl, .inl rfl⟩
    | some faults =>
      have hscript : (Store.scripted script session).script? storage = some faults := hs
      have hreads := readFaults_of_script? hscript
      simp only [Store.dispose, hs, nextFault_eq]
      refine ⟨{ storage with
        scripts := storage.scripts.set script { faults with disposals := faults.disposals.tail } },
        ⟨rfl, rfl, rfl⟩, (readFaults_of_script? (script?_set hs)).trans hreads.symm, ?_⟩
      rcases faults.disposals[0]? with _ | _ | cause
      · exact .inl rfl
      · exact .inl rfl
      · exact .inr ⟨cause, rfl⟩

end

end LeaseLog
