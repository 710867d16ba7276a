import OpenDmcn.Lib.Bytes
import OpenDmcn.Lib.Calls

/-! The re-keying of an account from the browser (`lib/crypto/rotation.ts`): its steps, each of
which may fail before or after it has taken effect, the checkpoint that it saves, and its resumption
from there. -/

namespace Dmcn.Web.Rekeying

open Go

inductive RotationPhase where
  | signed
  | published
  | rekeyed
  deriving DecidableEq

structure FilterList where
  deny : Bool
  domains : List String
  senders : List String
  allowVerified : Option Bool
  senderKeys : Option (List String)
  deriving DecidableEq

structure CompromiseDeclaration where
  address : String
  removal : Bytes
  deriving DecidableEq

structure RotatedSibling where
  address : String
  record : Bytes
  history : Bytes
  deriving DecidableEq

structure IdentityKeyPair where
  ed25519Public : Bytes
  ed25519Private : Bytes
  x25519Public : Bytes
  x25519Private : Bytes
  deviceId : Bytes
  createdAt : ℤ
  deriving DecidableEq

structure RotationCheckpoint where
  address : String
  phase : RotationPhase
  startedAt : ℤ
  oldEd25519Public : Bytes
  newEd25519Public : Bytes
  mailFilter : Option FilterList
  compromise : Option (List CompromiseDeclaration)
  deriving DecidableEq

structure RotatedRecord where
  next : IdentityKeyPair
  record : Bytes
  history : Bytes
  siblings : List RotatedSibling
  compromise : List CompromiseDeclaration
  rotatedAt : ℤ

structure RotationInputs where
  address : String
  current : IdentityKeyPair
  /-- The handle of the alias root, by its key. -/
  outgoingAliasRoot : Option Bytes

inductive Step where
  | saveCheckpoint (cp : RotationCheckpoint)
  | clearCheckpoint (address : String)
  | stampGenerations
  | declareStolen (declarations : List CompromiseDeclaration)
  | readMailFilter
  | writeMailFilter (list : FilterList) (next : IdentityKeyPair)
  | published (address : String) (ed25519Public : Bytes)
  | stageKeys (address : String) (next : IdentityKeyPair)
  | publish (record history : Bytes) (siblings : List RotatedSibling)
  | renameMailbox (next : IdentityKeyPair)
  | tearDownPush
  | retainRetired (address : String) (outgoing : IdentityKeyPair) (aliasRoot : Option Bytes)
    (at' : ℤ)
  | commitKeys (address : String) (next : IdentityKeyPair)
  | reestablishSessions (address : String) (next : IdentityKeyPair)
  | detachSharedUnlock (address : String)
  | resealStorage (next : IdentityKeyPair)
  deriving DecidableEq

abbrev Log := List (Event Step)

def took (kind : Step → Bool) (log : Log) : Bool := log.any fun e => e.fate.took && kind e.call

def succeeded (kind : Step → Bool) (log : Log) : Bool :=
  log.any fun e => decide (e.fate = .ok) && kind e.call

namespace Step

def isPublish : Step → Bool
  | publish .. => true
  | _ => false

def isRename : Step → Bool
  | renameMailbox .. => true
  | _ => false

def isRetain : Step → Bool
  | retainRetired .. => true
  | _ => false

def isCommit : Step → Bool
  | commitKeys .. => true
  | _ => false

def isClear : Step → Bool
  | clearCheckpoint .. => true
  | _ => false

def isReestablish : Step → Bool
  | reestablishSessions .. => true
  | _ => false

def isWrite (list : FilterList) (next : IdentityKeyPair) : Step → Bool
  | writeMailFilter list' next' => decide (list' = list ∧ next' = next)
  | _ => false

def declares (d : CompromiseDeclaration) : Step → Bool
  | declareStolen declarations => decide (d ∈ declarations)
  | _ => false

def isLocal : Step → Bool
  | saveCheckpoint .. | clearCheckpoint .. | stageKeys .. | readMailFilter | published .. => true
  | _ => false

end Step

def accepted (log : Log) : Bool := took Step.isPublish log

def checkpointOf (log : Log) : Option RotationCheckpoint :=
  log.foldl (fun cp e =>
    if e.fate.took then
      match e.call with
      | .saveCheckpoint cp => some cp
      | .clearCheckpoint _ => none
      | _ => cp
    else cp) none

structure RotationSteps where
  stampGenerations : Bool
  declareStolen : Bool
  readMailFilter : Bool
  writeMailFilter : Bool
  published : Bool
  resealStorage : Bool
  mailFilter : Option FilterList

open Calls

section Ceremony

variable (steps : RotationSteps)

def isPublished (address : String) (ed25519Public : Bytes) : Calls Step Bool :=
  if steps.published then ask (.published address ed25519Public) accepted else pure false

def finishRotation (address : String) (next outgoing : IdentityKeyPair)
    (outgoingAliasRoot : Option Bytes) (rotatedAt : ℤ) (mailFilter : Option FilterList)
    (compromise : Option (List CompromiseDeclaration)) : Calls Step Unit := do
  (match compromise with
    | some (d :: ds) => optional steps.declareStolen (call (.declareStolen (d :: ds)))
    | _ => pure ())
  call (.renameMailbox next)
  call (.saveCheckpoint ⟨address, .rekeyed, rotatedAt, outgoing.ed25519Public, next.ed25519Public,
    none, none⟩)
  call .tearDownPush
  call (.retainRetired address outgoing outgoingAliasRoot rotatedAt)
  call (.commitKeys address next)
  call (.reestablishSessions address next)
  (match mailFilter with
    | some list => optional steps.writeMailFilter (call (.writeMailFilter list next))
    | none => pure ())
  call (.detachSharedUnlock address)
  tryCatch (optional steps.resealStorage (call (.resealStorage next))) (pure ())
  call (.clearCheckpoint address)

def runRotation (inputs : RotationInputs) (signed : Option RotatedRecord) : Calls Step Unit := do
  optional steps.stampGenerations (call .stampGenerations)
  match signed with
  | none => throw
  | some signed => do
    let mailFilter ← (if steps.readMailFilter then ask .readMailFilter fun _ =>
      steps.mailFilter else pure none)
    let checkpoint : RotationCheckpoint :=
      ⟨inputs.address, .signed, signed.rotatedAt, inputs.current.ed25519Public,
        signed.next.ed25519Public, mailFilter, if signed.compromise = [] then none
          else some signed.compromise⟩
    call (.stageKeys inputs.address signed.next)
    call (.saveCheckpoint checkpoint)
    tryCatch (call (.publish signed.record signed.history signed.siblings)) do
      let there ← isPublished steps inputs.address signed.next.ed25519Public
      if there then pure () else throw
    call (.saveCheckpoint { checkpoint with phase := .published })
    finishRotation steps inputs.address signed.next inputs.current inputs.outgoingAliasRoot
      signed.rotatedAt mailFilter
      (some signed.compromise)

def resumeRotation (cp : RotationCheckpoint) (next outgoing : IdentityKeyPair)
    (outgoingAliasRoot : Option Bytes) :
    Calls Step Unit := do
  let go ← (if cp.phase = .signed then isPublished steps cp.address next.ed25519Public
    else pure true)
  if go then
    finishRotation steps cp.address next outgoing outgoingAliasRoot cp.startedAt cp.mailFilter
      cp.compromise
  else call (.clearCheckpoint cp.address)

end Ceremony

structure Ceremony where
  steps : RotationSteps
  inputs : RotationInputs
  signed : RotatedRecord

namespace Ceremony

variable (c : Ceremony)

def filter : Option FilterList := if c.steps.readMailFilter then c.steps.mailFilter else none

/-- The runs: the ceremony, and any number of resumptions from the checkpoint that there is, each
with its fates. Which may be resumed is said by `resumable`. A run has its log, and whether the last
program has returned. -/
inductive Ran (resumable : Log → RotationCheckpoint → Prop) : Log → Bool → Prop
  | unsigned (fates : List Fate) :
    Ran resumable (runRotation c.steps c.inputs none [] fates).2.1
      (runRotation c.steps c.inputs none [] fates).1.done
  | run (fates : List Fate) :
    Ran resumable (runRotation c.steps c.inputs (some c.signed) [] fates).2.1
      (runRotation c.steps c.inputs (some c.signed) [] fates).1.done
  | resume {log : Log} {done : Bool} {cp : RotationCheckpoint} (h : Ran resumable log done)
    (hcp : checkpointOf log = some cp) (hok : resumable log cp) (aliasRoot : Option Bytes)
      (fates : List Fate) :
    Ran resumable (resumeRotation c.steps cp c.signed.next c.inputs.current aliasRoot log fates).2.1
      (resumeRotation c.steps cp c.signed.next c.inputs.current aliasRoot log fates).1.done

def Written (log : Log) : Prop :=
  ∀ list, c.filter = some list → took (Step.isWrite list c.signed.next) log = true

def Declared (log : Log) : Prop := ∀ d ∈ c.signed.compromise, took (Step.declares d) log = true

structure Sound (before : Log) (step : Step) : Prop where
  unpublished : accepted before = false → step.isLocal = true ∨ step.isPublish = true
  retained : step.isCommit = true → took Step.isRetain before = true
  finished : step.isClear = true → accepted before = true →
    succeeded Step.isRename before = true ∧ succeeded Step.isRetain before = true ∧
      succeeded Step.isCommit before = true ∧ succeeded Step.isReestablish before = true

structure Survives (log : Log) (done : Bool) : Prop where
  each : Each (fun before e => e.fate.took = true → Sound before e.call) log
  written : done = true → accepted log = true → c.Written log
  declared : done = true → accepted log = true → c.Declared log

structure Equipped : Prop where
  stampGenerations : c.steps.stampGenerations = false
  published : c.steps.published = true
  writeMailFilter : c.filter ≠ none → c.steps.writeMailFilter = true
  declareStolen : c.signed.compromise ≠ [] → c.steps.declareStolen = true

/-- A checkpoint that has lost the filter is resumed only when the filter has been written. -/
def Resumable (log : Log) (cp : RotationCheckpoint) : Prop := cp.phase = .rekeyed → c.Written log

structure Covers (log : Log) (cp : RotationCheckpoint) : Prop where
  accepted : cp.phase ≠ .signed → accepted log = true
  filter : cp.phase ≠ .rekeyed → cp.mailFilter = c.filter
  compromise : cp.phase ≠ .rekeyed → cp.compromise.getD [] = c.signed.compromise
  declared : cp.phase = .rekeyed → c.Declared log

structure Inv (log : Log) : Prop where
  each : Each (fun before e => e.fate.took = true → Sound before e.call) log
  covers : ∀ cp, checkpointOf log = some cp → c.Covers log cp

variable {c}

theorem stays_took (kind : Step → Bool) : Stays fun log => took kind log = true := by
  intro log e h
  rw [took, List.any_append, Bool.or_eq_true]
  exact .inl h

theorem stays_succeeded (kind : Step → Bool) : Stays fun log => succeeded kind log = true := by
  intro log e h
  rw [succeeded, List.any_append, Bool.or_eq_true]
  exact .inl h

theorem stays_accepted : Stays fun log => accepted log = true := stays_took Step.isPublish

theorem stays_written : Stays c.Written :=
  fun log e h list hlist => stays_took _ log e (h list hlist)

theorem stays_declared : Stays c.Declared := fun log e h d hd => stays_took _ log e (h d hd)

variable {step : Step}

theorem succeeded_append (log : Log) {kind : Step → Bool} (hkind : kind step = true) :
    succeeded kind (log ++ [⟨step, .ok⟩]) = true := by
  rw [succeeded, List.any_append, Bool.or_eq_true]
  right
  simpa using hkind

variable {log : Log}

theorem took_of_succeeded {kind : Step → Bool} (h : succeeded kind log = true) :
    took kind log = true := by
  rw [succeeded, List.any_eq_true] at h
  obtain ⟨e, he, hok⟩ := h
  rw [Bool.and_eq_true, decide_eq_true_iff] at hok
  refine List.any_eq_true.mpr ⟨e, he, ?_⟩
  rw [hok.1, hok.2]
  rfl

theorem Covers.stays (cp : RotationCheckpoint) : Stays fun log => c.Covers log cp := by
  intro log e h
  exact ⟨fun hphase => stays_accepted log e (h.accepted hphase), h.filter, h.compromise,
    fun hphase => stays_declared log e (h.declared hphase)⟩

theorem checkpointOf_append (log : Log) (e : Event Step) :
    checkpointOf (log ++ [e]) =
      if e.fate.took then
        match e.call with
        | .saveCheckpoint cp => some cp
        | .clearCheckpoint _ => none
        | _ => checkpointOf log
      else checkpointOf log := by
  rw [checkpointOf, List.foldl_append]
  rfl

theorem Inv.append (h : c.Inv log) (hsound : Sound log step)
    (hsave : ∀ cp, step = .saveCheckpoint cp → c.Covers log cp) (fate : Fate) :
    c.Inv (log ++ [⟨step, fate⟩]) := by
  refine ⟨h.each.append fun _ => hsound, ?_⟩
  intro cp hcp
  apply Covers.stays
  rw [checkpointOf_append] at hcp
  split at hcp
  · split at hcp
    · next cp' hcall =>
      obtain rfl : cp' = cp := Option.some.inj hcp
      exact hsave cp' hcall
    · cases hcp
    · exact h.covers cp hcp
  · exact h.covers cp hcp

def Made (made : List Step) (log : Log) : Prop :=
  ∀ step ∈ made, succeeded (fun s => decide (s = step)) log = true

theorem stays_made (made : List Step) : Stays (Made made) :=
  fun log e h step hstep => stays_succeeded _ log e (h step hstep)

variable {made : List Step}

theorem Made.succeeded (h : Made made log) (step : Step) (hstep : step ∈ made) {kind : Step → Bool}
    (hkind : kind step = true) : succeeded kind log =
    true := by
  have hmade := h step hstep
  rw [Rekeying.succeeded, List.any_eq_true] at hmade ⊢
  obtain ⟨e, he, hok⟩ := hmade
  rw [Bool.and_eq_true, decide_eq_true_iff, decide_eq_true_iff] at hok
  exact ⟨e, he, by simp [hok.1, hok.2, hkind]⟩

theorem Made.took (h : Made made log) (step : Step) (hstep : step ∈ made) {kind : Step → Bool}
    (hkind : kind step = true) : took kind log = true :=
  took_of_succeeded (h.succeeded step hstep hkind)

variable {F : Log → Prop}

theorem triple_step (hF : Stays F) (hsound : ∀ log, F log → Made made log → Sound log step)
    (hsave : ∀ cp, step = .saveCheckpoint cp → ∀ log, F log → c.Covers log cp) :
    Triple (fun log => c.Inv log ∧ F log ∧ Made made log) (call step)
      (fun _ log => c.Inv log ∧ F log ∧ Made (step :: made) log)
      (fun log => c.Inv log ∧ F log ∧ Made made log) := by
  have hstep : ∀ log fate, c.Inv log ∧ F log ∧ Made made log → c.Inv (log ++ [⟨step, fate⟩]) := by
    intro log fate h
    exact h.1.append (hsound log h.2.1 h.2.2) (fun cp hcp => hsave cp hcp log h.2.1) fate
  apply Triple.ask
  · exact fun log h => h
  · exact fun log fate h => ⟨hstep log fate h, hF log _ h.2.1, stays_made made log _ h.2.2⟩
  · intro log h
    refine ⟨hstep log .ok h, hF log _ h.2.1, fun step' hstep' => ?_⟩
    rcases List.mem_cons.mp hstep' with rfl | hrest
    · exact succeeded_append log (by simp)
    · exact stays_made made log _ h.2.2 step' hrest

theorem triple_call (hF : Stays F) (hsound : ∀ log, F log → Made made log → Sound log step)
    (hsave : ∀ cp, step = .saveCheckpoint cp → ∀ log, F log → c.Covers log cp) :
    Triple (fun log => c.Inv log ∧ F log ∧ Made made log) (call step)
      (fun _ log => c.Inv log ∧ F log ∧ Made (step :: made) log) c.Inv :=
  (triple_step hF hsound hsave).strengthen (fun _ _ h => h) fun _ h => h.1

theorem sound_of_accepted (h : accepted log = true) (hcommit : step.isCommit = false)
    (hclear : step.isClear = false) : Sound log step where
  unpublished h' := absurd h' (by simp [h])
  retained h' := absurd h' (by simp [hcommit])
  finished h' := absurd h' (by simp [hclear])

theorem triple_after (hF : Stays F) (haccepted : ∀ log, F log → accepted log = true)
    (hcommit : step.isCommit = false) (hclear : step.isClear = false)
    (hsave : ∀ cp, step = .saveCheckpoint cp → ∀ log, F log → c.Covers log cp) :
    Triple (fun log => c.Inv log ∧ F log ∧ Made made log) (call step)
      (fun _ log => c.Inv log ∧ F log ∧ Made (step :: made) log) c.Inv :=
  triple_call hF (fun log h _ => sound_of_accepted (haccepted log h) hcommit hclear) hsave

theorem triple_declare (hequipped : c.Equipped) {compromise : Option (List CompromiseDeclaration)}
    (hF : Stays F) (haccepted : ∀ log, F log → accepted log = true)
    (hlist : ∀ log, F log → compromise.getD [] = c.signed.compromise ∨ c.Declared log) :
    Triple (fun log => c.Inv log ∧ F log ∧ Made made log)
      (match compromise with
        | some (d :: ds) => optional c.steps.declareStolen (call (.declareStolen (d :: ds)))
        | _ => pure ())
      (fun _ log => c.Inv log ∧ (F log ∧ c.Declared log) ∧ Made made log) c.Inv := by
  split
  · next d ds =>
    apply Triple.optional
    · intro _
      refine Triple.strengthen (triple_after hF haccepted rfl rfl fun _ h => by cases h) ?_
        fun _ h => h
      rintro _ log ⟨hinv, hf, hmade⟩
      have hrest : Made made log := fun step hstep => hmade step (List.mem_cons_of_mem _ hstep)
      rcases hlist log hf with heq | hdeclared
      · refine ⟨hinv, ⟨hf, fun d' hd => ?_⟩, hrest⟩
        rw [← heq] at hd
        exact hmade.took _ (List.mem_cons_self ..) (decide_eq_true hd)
      · exact ⟨hinv, ⟨hf, hdeclared⟩, hrest⟩
    · rintro hnot log ⟨hinv, hf, hmade⟩
      rcases hlist log hf with heq | hdeclared
      · have hsome : c.signed.compromise ≠ [] := by
          rw [← heq]
          exact List.cons_ne_nil _ _
        have hgiven := hequipped.declareStolen hsome
        rw [hnot] at hgiven
        cases hgiven
      · exact ⟨hinv, ⟨hf, hdeclared⟩, hmade⟩
  · next hshape =>
    have hnil : compromise.getD [] = [] := by
      match compromise with
      | none => rfl
      | some [] => rfl
      | some (d :: ds) => exact absurd rfl (hshape d ds)
    apply Triple.pure
    rintro log ⟨hinv, hf, hmade⟩
    rcases hlist log hf with heq | hdeclared
    · refine ⟨hinv, ⟨hf, fun d hd => ?_⟩, hmade⟩
      rw [← heq, hnil] at hd
      exact absurd hd List.not_mem_nil
    · exact ⟨hinv, ⟨hf, hdeclared⟩, hmade⟩

theorem triple_write (hequipped : c.Equipped) {mailFilter : Option FilterList} (hF : Stays F)
    (haccepted : ∀ log, F log → accepted log = true)
    (hfilter : ∀ log, F log → mailFilter = c.filter ∨ c.Written log) :
    Triple (fun log => c.Inv log ∧ F log ∧ Made made log)
      (match mailFilter with
        | some list => optional c.steps.writeMailFilter (call (.writeMailFilter list c.signed.next))
        | none => pure ())
      (fun _ log => c.Inv log ∧ (F log ∧ c.Written log) ∧ Made made log) c.Inv := by
  match mailFilter with
  | none =>
    apply Triple.pure
    rintro log ⟨hinv, hf, hmade⟩
    rcases hfilter log hf with heq | hwritten
    · refine ⟨hinv, ⟨hf, fun list hlist => ?_⟩, hmade⟩
      rw [← heq] at hlist
      cases hlist
    · exact ⟨hinv, ⟨hf, hwritten⟩, hmade⟩
  | some list =>
    apply Triple.optional
    · intro _
      refine Triple.strengthen (triple_after hF haccepted rfl rfl fun _ h => by cases h) ?_
        fun _ h => h
      rintro _ log ⟨hinv, hf, hmade⟩
      have hrest : Made made log := fun step hstep => hmade step (List.mem_cons_of_mem _ hstep)
      rcases hfilter log hf with heq | hwritten
      · refine ⟨hinv, ⟨hf, fun list' hlist => ?_⟩, hrest⟩
        obtain rfl : list = list' := Option.some.inj (heq.trans hlist)
        exact hmade.took _ (List.mem_cons_self ..) (by simp [Step.isWrite])
      · exact ⟨hinv, ⟨hf, hwritten⟩, hrest⟩
    · rintro hnot log ⟨hinv, hf, hmade⟩
      rcases hfilter log hf with heq | hwritten
      · have hgiven := hequipped.writeMailFilter (by rw [← heq]; exact Option.some_ne_none list)
        rw [hnot] at hgiven
        cases hgiven
      · exact ⟨hinv, ⟨hf, hwritten⟩, hmade⟩

theorem triple_reseal {next : IdentityKeyPair} (hF : Stays F)
    (haccepted : ∀ log, F log → accepted log = true) :
    Triple (fun log => c.Inv log ∧ F log ∧ Made made log)
      (tryCatch (optional c.steps.resealStorage (call (.resealStorage next))) (pure ()))
      (fun _ log => c.Inv log ∧ F log ∧ Made made log) c.Inv := by
  have hreseal : Triple (fun log => c.Inv log ∧ F log ∧ Made made log)
      (optional c.steps.resealStorage (call (.resealStorage next)))
      (fun _ log => c.Inv log ∧ F log ∧ Made made log) (fun log => c.Inv log ∧ F log ∧
        Made made log) := by
    apply Triple.optional
    · intro _
      refine Triple.strengthen (triple_step hF
        (fun log h _ => sound_of_accepted (haccepted log h) rfl rfl) fun _ h => by cases h)
        ?_ fun _ h => h
      exact fun _ log h => ⟨h.1, h.2.1, fun step hmade => h.2.2 step (List.mem_cons_of_mem _ hmade)⟩
    · exact fun _ log h => h
  exact Triple.tryCatch hreseal (Triple.pure fun _ h => h) fun _ h => h.1

/-- Once the directory has the record, what is left can be done from any state, with a filter or
declarations that are missing only when they are no longer needed. -/
theorem triple_finish (hequipped : c.Equipped) (address : String) (outgoing : IdentityKeyPair)
    (aliasRoot : Option Bytes) (rotatedAt : ℤ) {mailFilter : Option FilterList}
    {compromise : Option (List CompromiseDeclaration)} :
    Triple
      (fun log => c.Inv log ∧ accepted log = true ∧ (mailFilter = c.filter ∨ c.Written log) ∧
        (compromise.getD [] = c.signed.compromise ∨ c.Declared log))
      (finishRotation c.steps address c.signed.next outgoing aliasRoot rotatedAt mailFilter
        compromise)
      (fun _ log => c.Inv log ∧ c.Written log ∧ c.Declared log) c.Inv := by
  -- what is known at first, with the declarations, and with the filter
  let F₀ : Log → Prop := fun log => accepted log = true ∧ (mailFilter = c.filter ∨ c.Written log) ∧
    (compromise.getD [] = c.signed.compromise ∨ c.Declared log)
  let F₁ : Log → Prop := fun log => F₀ log ∧ c.Declared log
  let F₂ : Log → Prop := fun log => F₁ log ∧ c.Written log
  have hF₀ : Stays F₀ :=
    stays_accepted.and (((stays_fact _).or stays_written).and ((stays_fact _).or stays_declared))
  have hF₁ : Stays F₁ := hF₀.and stays_declared
  have hF₂ : Stays F₂ := hF₁.and stays_written
  have haccepted₁ : ∀ log, F₁ log → accepted log = true := fun log h => h.1.1
  have haccepted₂ : ∀ log, F₂ log → accepted log = true := fun log h => h.1.1.1
  have hfirst : Triple (fun log => c.Inv log ∧ F₀ log ∧ Made [] log)
      (finishRotation c.steps address c.signed.next outgoing aliasRoot rotatedAt mailFilter
        compromise)
      (fun _ log => c.Inv log ∧ c.Written log ∧ c.Declared log) c.Inv := by
    unfold finishRotation
    refine Triple.bind (triple_declare hequipped hF₀ (fun log h => h.1) fun log h => h.2.2) fun _ =>
      ?_
    refine Triple.bind (triple_after hF₁ haccepted₁ rfl rfl fun _ h => by cases h) fun _ => ?_
    refine Triple.bind (triple_after hF₁ haccepted₁ rfl rfl ?_) fun _ => ?_
    · rintro cp hcp log hf
      cases hcp
      exact ⟨fun _ => haccepted₁ log hf, fun h => absurd rfl h, fun h => absurd rfl h, fun _ =>
        hf.2⟩
    refine Triple.bind (triple_after hF₁ haccepted₁ rfl rfl fun _ h => by cases h) fun _ => ?_
    refine Triple.bind (triple_after hF₁ haccepted₁ rfl rfl fun _ h => by cases h) fun _ => ?_
    refine Triple.bind (triple_call hF₁ ?_ fun _ h => by cases h) fun _ => ?_
    · intro log hf hmade
      exact ⟨fun h => absurd h (by simp [haccepted₁ log hf]), fun _ =>
        hmade.took _ (List.mem_cons_self ..) rfl, fun h => by cases h⟩
    refine Triple.bind (triple_after hF₁ haccepted₁ rfl rfl fun _ h => by cases h) fun _ => ?_
    refine Triple.bind (triple_write hequipped hF₁ haccepted₁ fun log h => h.1.2.1) fun _ => ?_
    refine Triple.bind (triple_after hF₂ haccepted₂ rfl rfl fun _ h => by cases h) fun _ => ?_
    refine Triple.bind (triple_reseal hF₂ haccepted₂) fun _ => ?_
    refine Triple.strengthen (triple_call hF₂ ?_ fun _ h => by cases h)
      (fun _ log h => ⟨h.1, h.2.1.2, h.2.1.1.2⟩) fun _ h => h
    intro log hf hmade
    refine ⟨fun h => absurd h (by simp [haccepted₂ log hf]), fun h => (by cases h), fun _ _ =>
      ⟨?_, ?_, ?_, ?_⟩⟩
    · exact hmade.succeeded (.renameMailbox c.signed.next) (by simp) rfl
    · exact hmade.succeeded (.retainRetired address outgoing aliasRoot rotatedAt) (by simp) rfl
    · exact hmade.succeeded (.commitKeys address c.signed.next) (by simp) rfl
    · exact hmade.succeeded (.reestablishSessions address c.signed.next) (by simp) rfl
  exact hfirst.weaken fun log h => ⟨h.1, h.2, fun _ hstep => absurd hstep List.not_mem_nil⟩

theorem sound_of_local (h : step.isLocal = true) (hclear : step.isClear = false)
    : Sound log step where
  unpublished _ := .inl h
  retained hcommit := by cases step <;> simp [Step.isLocal, Step.isCommit] at h hcommit
  finished h' := absurd h' (by simp [hclear])

theorem accepted_append (log : Log) (h : step.isPublish = false) (fate : Fate) :
    accepted (log ++ [⟨step, fate⟩]) = accepted log := by
  rw [accepted, accepted, took, List.any_append, took]
  simp [h]

theorem triple_isPublished (hpublished : c.steps.published = true) (address : String) (key : Bytes)
    (hF : Stays F) :
    Triple (fun log => c.Inv log ∧ F log) (isPublished c.steps address key)
      (fun there log => c.Inv log ∧ F log ∧ accepted log = there) c.Inv := by
  have hstep : ∀ log fate, c.Inv log → c.Inv (log ++ [⟨.published address key, fate⟩]) :=
    fun log fate h =>
    h.append (sound_of_local rfl rfl) (fun _ hcp => by cases hcp) fate
  rw [isPublished, if_pos hpublished]
  apply Triple.ask
  · exact fun log h => h.1
  · exact fun log fate h => hstep log fate h.1
  · intro log h
    exact ⟨hstep log .ok h.1, hF log _ h.2, accepted_append log rfl .ok⟩

theorem triple_before (hlocal : step.isLocal = true) (hclear : step.isClear = false)
    (hsave : ∀ cp, step = .saveCheckpoint cp → ∀ log, c.Covers log cp) :
    Triple (fun log => c.Inv log ∧ True ∧ Made made log) (call step)
      (fun _ log => c.Inv log ∧ True ∧ Made (step :: made) log) c.Inv :=
  triple_call (stays_fact True) (fun _ _ _ => sound_of_local hlocal hclear) fun cp hcp log _ =>
    hsave cp hcp log

theorem triple_read :
    Triple (fun log => c.Inv log)
      (if c.steps.readMailFilter then ask .readMailFilter fun _ => c.steps.mailFilter
        else pure none)
      (fun mailFilter log => mailFilter = c.filter ∧ c.Inv log) c.Inv := by
  have hstep : ∀ log fate, c.Inv log → c.Inv (log ++ [⟨.readMailFilter, fate⟩]) := fun log fate h =>
    h.append (sound_of_local rfl rfl) (fun _ hcp => by cases hcp) fate
  by_cases hread : c.steps.readMailFilter = true
  · have hfilter : c.filter = c.steps.mailFilter := if_pos hread
    rw [if_pos hread]
    apply Triple.ask
    · exact fun log h => h
    · exact hstep
    · exact fun log h => ⟨hfilter.symm, hstep log .ok h⟩
  · have hfilter : c.filter = none := if_neg hread
    rw [if_neg hread]
    exact Triple.pure fun log h => ⟨hfilter.symm, h⟩

theorem triple_publish (hequipped : c.Equipped) :
    Triple (fun log => c.Inv log ∧ True ∧ Made made log)
      (tryCatch (call (.publish c.signed.record c.signed.history c.signed.siblings)) (do
        let there ← isPublished c.steps c.inputs.address c.signed.next.ed25519Public
        if there then pure () else throw))
      (fun _ log => c.Inv log ∧ accepted log = true) c.Inv := by
  have hsound : ∀ log, Sound log (.publish c.signed.record c.signed.history c.signed.siblings) :=
    fun log =>
    ⟨fun _ => .inr rfl, fun h => (by cases h), fun h => (by cases h)⟩
  have hpublish : Triple (fun log => c.Inv log ∧ True ∧ Made made log)
      (call (.publish c.signed.record c.signed.history c.signed.siblings))
      (fun _ log => c.Inv log ∧ accepted log = true) (fun log => c.Inv log ∧ True) := by
    refine Triple.strengthen (triple_call (stays_fact True) (fun log _ _ => hsound log) fun _ h =>
      by cases h) ?_
      fun _ h => ⟨h, trivial⟩
    exact fun _ log h => ⟨h.1, h.2.2.took _ (List.mem_cons_self ..) rfl⟩
  apply Triple.tryCatch hpublish
  · refine Triple.bind (triple_isPublished hequipped.published _ _ (stays_fact True)) fun there =>
      ?_
    cases there with
    | true => exact Triple.pure fun log h => ⟨h.1, h.2.2⟩
    | false => exact Triple.throw fun log h => h.1
  · exact fun log h => h.1

theorem triple_run (hequipped : c.Equipped) :
    Triple c.Inv (runRotation c.steps c.inputs (some c.signed))
      (fun _ log => c.Inv log ∧ c.Written log ∧ c.Declared log)
      c.Inv := by
  have hcompromise : (if c.signed.compromise = [] then none else some c.signed.compromise).getD [] =
      c.signed.compromise := by
    split
    · next h => exact h.symm
    · rfl
  unfold runRotation
  refine Triple.bind (Q := fun _ => c.Inv) ?_ fun _ => ?_
  · apply Triple.optional
    · intro hgiven
      rw [hequipped.stampGenerations] at hgiven
      cases hgiven
    · exact fun _ log h => h
  refine Triple.bind triple_read fun mailFilter => Triple.of_fact fun hfilter => ?_
  refine Triple.weaken (P := fun log => c.Inv log ∧ True ∧ Made [] log) ?_ fun log h =>
    ⟨h, trivial, fun _ hstep => absurd hstep List.not_mem_nil⟩
  refine Triple.bind (triple_before rfl rfl fun _ h => by cases h) fun _ => ?_
  refine Triple.bind (triple_before rfl rfl ?_) fun _ => ?_
  · rintro cp hcp log
    cases hcp
    exact ⟨fun h => absurd rfl h, fun _ => hfilter, fun _ => hcompromise, fun h => by cases h⟩
  refine Triple.bind (triple_publish hequipped) fun _ => ?_
  refine Triple.weaken (P := fun log => c.Inv log ∧ accepted log = true ∧ Made [] log) ?_
    fun log h =>
    ⟨h.1, h.2, fun _ hstep => absurd hstep List.not_mem_nil⟩
  refine Triple.bind (triple_after stays_accepted (fun log h => h) rfl rfl ?_) fun _ => ?_
  · rintro cp hcp log haccepted
    cases hcp
    exact ⟨fun _ => haccepted, fun _ => hfilter, fun _ => hcompromise, fun h => by cases h⟩
  exact (triple_finish hequipped _ _ _ _).weaken fun log h => ⟨h.1, h.2.1, .inl hfilter, .inl rfl⟩

theorem triple_resume (hequipped : c.Equipped) (cp : RotationCheckpoint)
    (aliasRoot : Option Bytes) :
    Triple (fun log => c.Inv log ∧ c.Covers log cp ∧ c.Resumable log cp)
      (resumeRotation c.steps cp c.signed.next c.inputs.current aliasRoot)
      (fun _ log => c.Inv log ∧ (accepted log = true → c.Written log ∧ c.Declared log)) c.Inv := by
  have hstays : Stays fun log => c.Covers log cp ∧ c.Resumable log cp :=
    (Covers.stays cp).and stays_written.imp
  unfold resumeRotation
  refine Triple.bind (Q := fun go log => c.Inv log ∧ (c.Covers log cp ∧ c.Resumable log cp) ∧
    accepted log = go) ?_ fun go => ?_
  · by_cases hsigned : cp.phase = .signed
    · rw [if_pos hsigned]
      exact triple_isPublished hequipped.published _ _ hstays
    · rw [if_neg hsigned]
      exact Triple.pure fun log h => ⟨h.1, h.2, h.2.1.accepted hsigned⟩
  cases go with
  | true =>
    refine (triple_finish hequipped cp.address c.inputs.current aliasRoot cp.startedAt).strengthen
      (fun _ log h => ⟨h.1, fun _ => h.2⟩) (fun _ h => h) |>.weaken fun log h => ⟨h.1, h.2.2, ?_⟩
    by_cases hrekeyed : cp.phase = .rekeyed
    · exact ⟨.inr (h.2.1.2 hrekeyed), .inr (h.2.1.1.declared hrekeyed)⟩
    · exact ⟨.inl (h.2.1.1.filter hrekeyed), .inl (h.2.1.1.compromise hrekeyed)⟩
  | false =>
    have hstep : ∀ log fate, c.Inv log → accepted log = false →
        c.Inv (log ++ [⟨.clearCheckpoint cp.address, fate⟩]) := by
      intro log fate h hnot
      refine h.append ⟨fun _ => .inl rfl, fun h => (by cases h), fun _ h => ?_⟩
        (fun _ hcp => by cases hcp) fate
      rw [hnot] at h
      cases h
    apply Triple.ask
    · exact fun log h => h.1
    · exact fun log fate h => hstep log fate h.1 h.2.2
    · intro log h
      refine ⟨hstep log .ok h.1 h.2.2, fun haccepted => ?_⟩
      rw [accepted_append log rfl .ok, h.2.2] at haccepted
      cases haccepted

theorem triple_unsigned (hequipped : c.Equipped) :
    Triple c.Inv (runRotation c.steps c.inputs none) (fun _ _ => False) c.Inv := by
  unfold runRotation
  refine Triple.bind (Q := fun _ => c.Inv) ?_ fun _ => Triple.throw fun _ h => h
  apply Triple.optional
  · intro hgiven
    rw [hequipped.stampGenerations] at hgiven
    cases hgiven
  · exact fun _ log h => h

theorem inv_nil : c.Inv [] := ⟨each_nil _, fun _ h => by cases h⟩

theorem Ran.inv (hequipped : c.Equipped) {done : Bool} (h : c.Ran c.Resumable log done) :
    c.Inv log ∧ (done = true → accepted log = true → c.Written log ∧ c.Declared log) := by
  induction h with
  | unsigned fates =>
    have hrun := (triple_unsigned hequipped).run (fun _ _ h => h.elim) inv_nil fates
    exact ⟨hrun.1, fun hdone => (hrun.2 hdone).elim fun _ h => h.elim⟩
  | run fates =>
    have hrun := (triple_run hequipped).run (fun _ _ h => h.1) inv_nil fates
    exact ⟨hrun.1, fun hdone _ => (hrun.2 hdone).elim fun _ h => h.2⟩
  | @resume log done cp h hcp hok aliasRoot fates ih =>
    have hrun := (triple_resume hequipped cp aliasRoot).run (fun _ _ h => h.1)
      ⟨ih.1, ih.1.covers cp hcp, hok⟩ fates
    exact ⟨hrun.1, fun hdone haccepted => (hrun.2 hdone).elim fun _ h => h.2 haccepted⟩

/-- Interrupted and resumed in any way, the ceremony keeps its promises if no filter is lost with a
checkpoint. -/
theorem survives (c : Ceremony) (hequipped : c.Equipped) {log : Log} {done : Bool}
    (h : c.Ran c.Resumable log done) :
    c.Survives log done := by
  obtain ⟨hinv, hfinished⟩ := h.inv hequipped
  exact ⟨hinv.each, fun hdone haccepted => (hfinished hdone haccepted).1, fun hdone haccepted =>
    (hfinished hdone haccepted).2⟩

end Ceremony

namespace Blocked

def key (b : UInt8) : IdentityKeyPair := ⟨[b], [b, b], [b], [b], [b], 0⟩

def blocklist : FilterList := ⟨true, [], [ "spam@dmcn.email"], none, none⟩

def ceremony : Ceremony where
  steps := ⟨false, true, true, true, true, true, some blocklist⟩
  inputs := ⟨"alice@dmcn.email", key 1, none⟩
  signed := ⟨key 2, [1], [2], [], [⟨"alice@dmcn.email", [3]⟩], 1⟩

theorem equipped : ceremony.Equipped := ⟨rfl, rfl, fun _ => rfl, fun _ => rfl⟩

def published : Log :=
  (runRotation ceremony.steps ceremony.inputs (some ceremony.signed) []
    [.ok, .ok, .ok, .dies true]).2.1

def recovered : Log :=
  (resumeRotation ceremony.steps
    ⟨"alice@dmcn.email", .signed, 1, [1], [2], some blocklist, some [⟨"alice@dmcn.email", [3]⟩]⟩
      (key 2) (key 1) none published
    (List.replicate 12 .ok)).2.1

theorem ran_recovered : ceremony.Ran ceremony.Resumable recovered true :=
  .resume (.run [.ok, .ok, .ok, .dies true]) rfl (fun h => by cases h) none (List.replicate 12 .ok)

theorem survived : (ceremony.Equipped ∧ ceremony.Ran ceremony.Resumable recovered true) ∧
    ceremony.Survives recovered true :=
  ⟨⟨equipped, ran_recovered⟩, ceremony.survives equipped ran_recovered⟩

def stopped : Log :=
  (runRotation ceremony.steps ceremony.inputs (some ceremony.signed) []
    [.ok, .ok, .ok, .ok, .ok, .ok, .ok, .ok, .fails false]).2.1

def resumed : Log :=
  (resumeRotation ceremony.steps ⟨"alice@dmcn.email", .rekeyed, 1, [1], [2], none, none⟩ (key 2)
    (key 1) none stopped
    (List.replicate 9 .ok)).2.1

theorem ran_resumed : ceremony.Ran (fun _ _ => True) resumed true :=
  .resume (.run [.ok, .ok, .ok, .ok, .ok, .ok, .ok, .ok, .fails false]) rfl trivial none
    (List.replicate 9 .ok)

/-- The ceremony finishes without the filter. -/
theorem filter_lost :
    ¬ ∀ (c : Ceremony) (log : Log) (done : Bool), c.Equipped → c.Ran (fun _ _ => True) log done →
      c.Survives log done := by
  intro h
  have hsurvives := h ceremony resumed true equipped ran_resumed
  have hwritten := hsurvives.written rfl (by decide) blocklist rfl
  exact absurd hwritten (by decide)

end Blocked

end Dmcn.Web.Rekeying
