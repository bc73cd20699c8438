import AgenticRag.Ingestion.DocumentManager
import AgenticRag.Storage.Deletion

/-!
# The operations of the ingestion programs

Which accesses a job step, a compensation or a manager call can perform, whatever
it reads. Almost all of them are harmless; the others are the acquire, the commit
and the step markers of a job, which `runBody_uses` lists.
-/

namespace AgenticRag

open MetadataStore StoreProgram Method

/-- The methods that neither remove artifacts nor move the active version. -/
def MetadataOp.Ordinary {β : Type} : MetadataOp β → Prop
  | .commitActiveVersion _ _ _ => False
  | .rollbackActiveVersion _ _ _ => False
  | .logicalDelete _ => False
  | .deleteChunkRecords _ => False
  | .deleteDocument _ => False
  | _ => True

/-- The accesses a step other than `commit` performs. -/
def StoreOp.Ordinary {β : Type} : StoreOp β → Prop
  | .metadata op => op.Ordinary
  | .vectors (.delete _ _) _ => False
  | .parents (.delete _) _ => False
  | .parents (.deleteDocument _) _ => False
  | _ => True

variable {τ α : Type}

/-- All operations of a method keep deletions final. -/
abbrev HarmlessMethod (m : StoreProgram τ α) : Prop := Method.Uses StoreOp.Harmless m

theorem harmless_read (view : World → α) : HarmlessMethod (read view : StoreProgram τ α) :=
  Uses.perform trivial

theorem harmless_tryRead (view : World → Except PyError α) :
    HarmlessMethod (tryRead view : StoreProgram τ α) :=
  Uses.perform trivial

theorem harmless_raise (e : PyError) : HarmlessMethod (raise e : StoreProgram τ α) :=
  Uses.perform trivial

theorem harmless_vectors (op : VectorOp) : HarmlessMethod (vectors op : StoreProgram τ Unit) :=
  Uses.perform trivial

theorem harmless_parents (op : ParentOp) : HarmlessMethod (parents op : StoreProgram τ Unit) :=
  Uses.perform trivial

theorem harmless_metadata (op : MetadataOp α) (h : op.Harmless) :
    HarmlessMethod (metadata op : StoreProgram τ α) :=
  Uses.perform h

namespace IngestionJob

variable (svc : Services) (req : IngestionRequest) {σ : Type 1}

section Accesses

/-- A property of every access of a job other than its acquire, its commit and its step
markers. -/
structure StepAccesses (req : IngestionRequest) (P : ∀ {β : Type}, StoreOp β → Prop) : Prop where
  read : ∀ {β : Type} (view : World → Except PyError β), P (.read view)
  raise : ∀ {β : Type} (e : PyError), P (.raise e : StoreOp β)
  clearSteps : P (.metadata (.clearSteps req.jobId))
  markJobTerminal : ∀ status parentCount childCount errorCode,
    P (.metadata (.markJobTerminal req.jobId status parentCount childCount errorCode))
  setJobManifest : ∀ manifest, P (.metadata (.setJobManifest req.jobId manifest))
  markDocumentFailed : P (.metadata (.markDocumentFailed req.ref))
  upsertChunkRecord : ∀ chunk, P (.metadata (.upsertChunkRecord chunk))
  deleteChunkRecords : P (.metadata (.deleteChunkRecords req.ref))
  upsert : ∀ points, P (.vectors (.upsert req.ref.doc.corpusId points) id)
  deletePoints : ∀ ids, P (.vectors (.delete req.ref.doc.corpusId ids) id)
  put : ∀ chunk, P (.parents (.put chunk) id)
  deleteParent : ∀ parentId, P (.parents (.delete parentId) id)
  deprecateParent : ∀ parentId, P (.parents (.deprecateParent parentId) id)

variable {req} {P : ∀ {β : Type}, StoreOp β → Prop} (accesses : StepAccesses req P)

include accesses

theorem StepAccesses.readView {β : Type} (view : World → β) :
    Uses P (StoreProgram.read view : JobProgram β) :=
  Uses.perform (accesses.read _)

theorem StepAccesses.tryRead {β : Type} (view : World → Except PyError β) :
    Uses P (StoreProgram.tryRead view : JobProgram β) :=
  Uses.perform (accesses.read view)

theorem StepAccesses.raiseError {β : Type} (e : PyError) :
    Uses P (StoreProgram.raise e : JobProgram β) :=
  Uses.perform (accesses.raise e)

theorem StepAccesses.assertOwnsBuild : Uses P (assertOwnsBuild req) := by
  refine Uses.bind (accesses.readView _) fun owner => ?_
  refine Uses.bind (accesses.readView _) fun generation => ?_
  refine Uses.bind Uses.self fun me => ?_
  exact Uses.ite (accesses.raiseError _) (Uses.pure ())

theorem StepAccesses.validateJobIdentity : Uses P (validateJobIdentity svc req) := by
  refine Uses.bind (accesses.readView _) fun identity => ?_
  exact Uses.ite (accesses.raiseError _) (Uses.pure ())

theorem StepAccesses.ensureChunked : Uses P (ensureChunked svc req) := by
  refine Uses.bind Uses.self fun me => Uses.ite (Uses.pure ()) ?_
  cases svc.chunkMarkdown req.content req.ref with
  | error e => exact accesses.raiseError e
  | ok chunks => exact Uses.assign _

theorem StepAccesses.stepWriteParents : Uses P (stepWriteParents svc req) := by
  refine Uses.bind (accesses.ensureChunked svc) fun _ => ?_
  refine Uses.bind Uses.self fun me => ?_
  exact Uses.forEach (fun parent => Uses.perform (accesses.put _)) _

theorem StepAccesses.stepWriteQdrant : Uses P (stepWriteQdrant svc req) := by
  refine Uses.bind (accesses.ensureChunked svc) fun _ => ?_
  refine Uses.bind Uses.self fun me => ?_
  refine Uses.bind (Uses.perform (accesses.upsert _)) fun _ => ?_
  refine Uses.bind (Uses.forEach (fun child => ?_) _) fun _ => ?_
  · exact Uses.perform (accesses.upsertChunkRecord _)
  · exact Uses.forEach (fun parent => Uses.perform (accesses.upsertChunkRecord _)) _

theorem StepAccesses.verifyParent (parent : ParentDraft) : Uses P (verifyParent req parent) := by
  refine Uses.bind (accesses.readView _) fun stored => ?_
  cases stored with
  | none => exact accesses.raiseError _
  | some stored => exact Uses.ite (accesses.raiseError _) (Uses.pure ())

theorem StepAccesses.verifyPoints (children : List ChildChunk) :
    Uses P (verifyPoints svc req children) := by
  refine Uses.ite (Uses.pure ()) (Uses.bind (accesses.tryRead _) fun found => ?_)
  exact Uses.ite (accesses.raiseError _) (Uses.ite (Uses.pure ()) (accesses.raiseError _))

theorem StepAccesses.verifyCommittable : Uses P (verifyCommittable req) := by
  refine Uses.bind (accesses.tryRead _) fun current => ?_
  cases current with
  | none => exact accesses.raiseError _
  | some document => exact Uses.ite (Uses.pure ()) (accesses.raiseError _)

theorem StepAccesses.stepVerify : Uses P (stepVerify svc req) := by
  refine Uses.bind (accesses.ensureChunked svc) fun _ => ?_
  refine Uses.bind Uses.self fun me => ?_
  refine Uses.bind (Uses.forEach accesses.verifyParent _) fun _ => ?_
  refine Uses.bind (accesses.verifyPoints svc _) fun _ => ?_
  refine Uses.bind (accesses.readView _) fun records => ?_
  exact Uses.ite (accesses.raiseError _) accesses.verifyCommittable

theorem StepAccesses.publishParent (parent : ParentDraft) : Uses P (publishParent parent) := by
  refine Uses.bind (accesses.readView _) fun stored => ?_
  cases stored with
  | none => exact Uses.pure ()
  | some chunk => exact Uses.perform (accesses.put _)

theorem StepAccesses.publishSuperseded (previousVersion : String) :
    Uses P (publishSuperseded svc req previousVersion) := by
  refine Uses.bind (accesses.readView _) fun oldChunks => ?_
  refine Uses.bind (Uses.forEach (fun record => ?_) _) fun _ => ?_
  · exact Uses.perform (accesses.deprecateParent _)
  · exact Uses.ite (Uses.pure ()) (Uses.perform (accesses.upsert _))

theorem StepAccesses.stepPublish : Uses P (stepPublish svc req) := by
  refine Uses.bind accesses.assertOwnsBuild fun _ => ?_
  refine Uses.bind (accesses.ensureChunked svc) fun _ => ?_
  refine Uses.bind Uses.self fun me => ?_
  refine Uses.bind (Uses.perform (accesses.upsert _)) fun _ => ?_
  refine Uses.bind (Uses.forEach accesses.publishParent _) fun _ => ?_
  refine Uses.bind (accesses.readView _) fun previousVersion => ?_
  cases previousVersion with
  | none => exact Uses.pure ()
  | some version => exact Uses.ite (Uses.pure ()) (accesses.publishSuperseded svc version)

theorem StepAccesses.stepFinalize : Uses P (stepFinalize svc req) := by
  refine Uses.bind Uses.self fun me => ?_
  refine Uses.bind (Uses.perform (accesses.setJobManifest _)) fun _ => ?_
  exact Uses.perform (accesses.markJobTerminal _ _ _ _)

/-- All steps but `commit`. -/
theorem StepAccesses.step {name : Step} (hcommit : name ≠ .commit) :
    Uses P (step svc req name) := by
  cases name with
  | acquire => exact Uses.pure ()
  | parse => exact Uses.assign _
  | chunk => exact accesses.ensureChunked svc
  | writeParents => exact accesses.stepWriteParents svc
  | writeQdrant => exact accesses.stepWriteQdrant svc
  | verify => exact accesses.stepVerify svc
  | commit => exact absurd rfl hcommit
  | publish => exact accesses.stepPublish svc
  | finalize => exact accesses.stepFinalize svc

theorem StepAccesses.stillOwnsBuild : Uses P (stillOwnsBuild req) := by
  refine Uses.tryCatch (Uses.bind accesses.assertOwnsBuild fun _ => Uses.pure true) fun e => ?_
  cases e with
  | buildConflict reason => exact Uses.pure false
  | _ => exact Uses.reraise _

theorem StepAccesses.removeArtifacts : Uses P (removeArtifacts svc req) := by
  refine Uses.bind (accesses.ensureChunked svc) fun _ => ?_
  refine Uses.bind Uses.self fun me => ?_
  refine Uses.bind (Uses.perform (accesses.deletePoints _)) fun _ => ?_
  refine Uses.bind (Uses.forEach (fun parent => ?_) _) fun _ => ?_
  · exact Uses.perform (accesses.deleteParent _)
  refine Uses.bind (Uses.perform accesses.deleteChunkRecords) fun _ => ?_
  refine Uses.bind (Uses.perform accesses.clearSteps) fun _ => ?_
  exact Uses.perform accesses.markDocumentFailed

theorem StepAccesses.onException (e : PyError) : Uses P (onException svc req e) := by
  have hfail : ∀ e, Uses P (fail svc req e) := by
    intro e
    refine Uses.bind (Uses.bind Uses.self fun me => Uses.ite (Uses.pure ()) ?_) fun _ => ?_
    · refine Uses.bind accesses.stillOwnsBuild fun owns => ?_
      exact Uses.ite (accesses.removeArtifacts svc) (Uses.pure ())
    · exact Uses.bind (Uses.perform (accesses.markJobTerminal _ _ _ _)) fun _ => Uses.pure _
  cases e with
  | buildConflict reason => exact Uses.pure _
  | _ => exact hfail _

theorem StepAccesses.shortCircuitAlreadyIndexed :
    Uses P (shortCircuitAlreadyIndexed svc req) := by
  refine Uses.bind (accesses.readView _) fun identity => ?_
  refine Uses.ite (accesses.raiseError _) ?_
  refine Uses.bind (accesses.readView _) fun status => ?_
  refine Uses.ite ?_ (Uses.pure _)
  exact Uses.bind (Uses.perform (accesses.markJobTerminal _ _ _ _)) fun _ => Uses.pure _

section Run

variable
  (hacquire : ∀ args : AcquireArgs, args.jobId = req.jobId → args.ref = req.ref →
    (∀ document ∈ args.document, document.status = .processing) →
      P (.metadata (.acquireJobTransaction args)))
  (hcommit : ∀ expectedRev,
    P (.metadata (.commitActiveVersion req.ref.doc req.ref.version expectedRev)))
  (hmark : ∀ name, P (.metadata (.markStep req.jobId name "done")))

include hacquire hmark in
theorem StepAccesses.stepAcquire (options : RunOptions) : Uses P (stepAcquire svc req options) := by
  refine Uses.bind (accesses.readView _) fun baseRevision => ?_
  cases hdocument : buildSourceDocument svc req with
  | error e => exact accesses.raiseError e
  | ok document =>
    have hprocessing : document.status = .processing := by
      rw [buildSourceDocument_columns svc req hdocument]
      rfl
    refine Uses.bind (Uses.perform (hacquire _ rfl rfl (by simpa using hprocessing)))
      fun claimed => ?_
    exact Uses.bind (Uses.perform (hmark _)) fun _ => Uses.assign _

include hacquire hcommit hmark in
theorem StepAccesses.guardedBuild (options : RunOptions) :
    Uses P (guardedBuild svc req options) := by
  refine Uses.tryCatch ?_ fun e => accesses.onException svc e
  refine Uses.bind (accesses.stepAcquire svc hacquire hmark options) fun _ => ?_
  refine Uses.bind (Uses.forEach (fun name => ?_) _) fun _ => ?_
  · refine Uses.bind (accesses.readView _) fun done => Uses.ite (Uses.pure ()) ?_
    refine Uses.bind ?_ fun _ => Uses.perform (hmark name)
    by_cases hname : name = .commit
    · subst hname
      refine Uses.bind accesses.assertOwnsBuild fun _ => ?_
      refine Uses.bind (accesses.readView _) fun expectedRev => ?_
      exact Uses.bind (Uses.perform (hcommit expectedRev)) fun _ => Uses.assign _
    · exact accesses.step svc hname
  · refine Uses.ite (Uses.pure _) ?_
    exact Uses.bind Uses.self fun me => Uses.pure _

include hacquire hcommit hmark in
/-- Every access of a run is one of its steps, its acquire, its commit or a marker. -/
theorem StepAccesses.runBody (options : RunOptions) : Uses P (runBody svc req options) := by
  have hbuild := accesses.guardedBuild svc hacquire hcommit hmark options
  have hshort := accesses.shortCircuitAlreadyIndexed svc
  refine Uses.bind (accesses.validateJobIdentity svc) fun _ => ?_
  refine Uses.bind (accesses.tryRead _) fun existing => ?_
  cases existing with
  | none => exact hbuild
  | some document =>
    refine Uses.ite (accesses.raiseError _) (Uses.ite ?_ (Uses.ite hshort hbuild))
    refine Uses.bind (accesses.readView _) fun owner => ?_
    cases owner with
    | none => exact hbuild
    | some owner =>
      refine Uses.ite hbuild ?_
      refine Uses.bind (accesses.readView _) fun status => ?_
      exact Uses.ite hshort hbuild

end Run

section Keeps

variable {υ : Type*} {R : Regime υ StoreOp PyError} {J : υ → Prop}
  (hrely : ∀ {s s'}, R.rely s s' → J s → J s')
  (hP : ∀ {β : Type} (op : StoreOp β), P op → ∀ s r s', J s → R.out op s r s' →
    R.guar s s' ∧ J s')
  (hacquire : ∀ args : AcquireArgs, args.jobId = req.jobId → args.ref = req.ref →
    (∀ document ∈ args.document, document.status = .processing) →
      P (.metadata (.acquireJobTransaction args)))
  (hmark : ∀ name, P (.metadata (.markStep req.jobId name "done")))
  (hcommit : Keeps R J (IngestionJob.stepCommit req))

include hrely hP hmark hcommit

theorem StepAccesses.runStep_keeps (name : Step) : Keeps R J (IngestionJob.runStep svc req name) := by
  have hS : Stable R (fun _ : JobState => J) (fun _ : PyError => fun _ => J) := .of_rely hrely
  refine .bind hS (Keeps.of_uses hrely hP (accesses.readView _)) fun done => ?_
  refine .ite (.pure hS ()) (.bind hS ?_ fun _ => ?_)
  · by_cases hname : name = .commit
    · rw [hname]
      exact hcommit
    · exact Keeps.of_uses hrely hP (accesses.step svc hname)
  · exact Keeps.of_uses hrely hP (Uses.perform (hmark name))

include hacquire

theorem StepAccesses.guardedBuild_keeps (options : RunOptions) :
    Keeps R J (IngestionJob.guardedBuild svc req options) := by
  have hS : Stable R (fun _ : JobState => J) (fun _ : PyError => fun _ => J) := .of_rely hrely
  refine .tryCatch hS ?_ (fun _ _ _ h => h) fun e =>
    Keeps.of_uses hrely hP (accesses.onException svc e)
  have hfirst := accesses.stepAcquire svc hacquire hmark options
  refine .bind hS (Keeps.of_uses hrely hP hfirst) fun _ => ?_
  refine .bind hS (.forEach hS fun name _ => ?_) fun _ => ?_
  · exact accesses.runStep_keeps svc hrely hP hmark hcommit name
  · exact .ite (.pure hS _) (.bind hS (.self hS) fun me => .pure hS _)

/-- A run keeps a fact that its accesses and its commit keep. -/
theorem StepAccesses.runBody_keeps (options : RunOptions) :
    Keeps R J (IngestionJob.runBody svc req options) := by
  have hS : Stable R (fun _ : JobState => J) (fun _ : PyError => fun _ => J) := .of_rely hrely
  have hbuild := accesses.guardedBuild_keeps svc hrely hP hacquire hmark hcommit options
  have hshort : Keeps R J (IngestionJob.shortCircuitAlreadyIndexed svc req) :=
    Keeps.of_uses hrely hP (accesses.shortCircuitAlreadyIndexed svc)
  refine .bind hS (Keeps.of_uses hrely hP (accesses.validateJobIdentity svc)) fun _ => ?_
  refine .bind hS (Keeps.of_uses hrely hP (accesses.tryRead _)) fun existing => ?_
  cases existing with
  | none => exact hbuild
  | some document =>
    refine .ite (Keeps.of_uses hrely hP (accesses.raiseError _)) (.ite ?_ (.ite hshort hbuild))
    refine .bind hS (Keeps.of_uses hrely hP (accesses.readView _)) fun owner => ?_
    cases owner with
    | none => exact hbuild
    | some owner =>
      refine .ite hbuild (.bind hS (Keeps.of_uses hrely hP (accesses.readView _)) fun status => ?_)
      exact .ite hshort hbuild

end Keeps

omit accesses in
theorem harmless_accesses (req : IngestionRequest) : StepAccesses req StoreOp.Harmless := by
  constructor <;> intros <;> trivial

end Accesses

section Maintains

/-- What a job attribute update of the steps before and after the commit writes. -/
inductive ChunkAssignment : (JobState → JobState) → Prop
  | parsed (hash : String) : ChunkAssignment fun me => { me with parsedHash := hash }
  | chunked {parents : List ParentDraft} {children : List ChildChunk}
      (hchunks : svc.chunkMarkdown req.content req.ref = .ok (parents, children)) (hash : String) :
      ChunkAssignment fun me =>
        { me with parentsList := parents, childrenList := children, parsedHash := hash }

/-- Everything a step other than `commit` does on its own keeps `I` or ends in `E`. -/
structure StepRules (R : Regime σ StoreOp PyError) (I : JobState → σ → Prop)
    (E : PyError → JobState → σ → Prop) : Prop where
  stable : Stable R I E
  perform : ∀ {β : Type} (op : StoreOp β), op.Ordinary →
    Maintains R I E (Method.perform op : JobProgram β)
  assign : ∀ f, ChunkAssignment svc req f → ∀ me s, I me s → I (f me) s

variable {svc req} {R : Regime σ StoreOp PyError} {I : JobState → σ → Prop}
  {E : PyError → JobState → σ → Prop} (rules : StepRules svc req R I E)

include rules

theorem StepRules.read {β : Type} (view : World → β) :
    Maintains R I E (StoreProgram.read view : JobProgram β) :=
  rules.perform _ trivial

theorem StepRules.tryRead {β : Type} (view : World → Except PyError β) :
    Maintains R I E (StoreProgram.tryRead view : JobProgram β) :=
  rules.perform _ trivial

theorem StepRules.raise {β : Type} (e : PyError) :
    Maintains R I E (StoreProgram.raise e : JobProgram β) :=
  rules.perform _ trivial

theorem StepRules.compareLease (owner : Option String) :
    Maintains R I E (compareLease req owner) := by
  refine .bind rules.stable (rules.read _) fun generation => ?_
  refine .bind rules.stable (.self rules.stable) fun me => ?_
  exact .ite (rules.raise _) (.pure rules.stable ())

theorem StepRules.assertOwnsBuild : Maintains R I E (assertOwnsBuild req) :=
  .bind rules.stable (rules.read _) fun owner => rules.compareLease owner

theorem StepRules.ensureChunked : Maintains R I E (ensureChunked svc req) := by
  refine .bind rules.stable (.self rules.stable) fun me => .ite (.pure rules.stable ()) ?_
  cases hchunks : svc.chunkMarkdown req.content req.ref with
  | error e => exact rules.raise e
  | ok chunks =>
    obtain ⟨parents, children⟩ := chunks
    exact .assign rules.stable (rules.assign _ (.chunked hchunks _))

theorem StepRules.stepWriteParents : Maintains R I E (stepWriteParents svc req) := by
  refine .bind rules.stable rules.ensureChunked fun _ => ?_
  refine .bind rules.stable (.self rules.stable) fun me => ?_
  exact .forEach rules.stable fun parent _ => rules.perform _ trivial

theorem StepRules.stepWriteQdrant : Maintains R I E (stepWriteQdrant svc req) := by
  refine .bind rules.stable rules.ensureChunked fun _ => ?_
  refine .bind rules.stable (.self rules.stable) fun me => ?_
  refine .bind rules.stable (rules.perform _ trivial) fun _ => ?_
  refine .bind rules.stable (.forEach rules.stable fun child _ => ?_) fun _ => ?_
  · exact rules.perform _ trivial
  · exact .forEach rules.stable fun parent _ => rules.perform _ trivial

theorem StepRules.stepVerify : Maintains R I E (stepVerify svc req) := by
  refine .bind rules.stable rules.ensureChunked fun _ => ?_
  refine .bind rules.stable (.self rules.stable) fun me => ?_
  refine .bind rules.stable (.forEach rules.stable fun parent _ => ?_) fun _ => ?_
  · refine .bind rules.stable (rules.read _) fun stored => ?_
    cases stored with
    | none => exact rules.raise _
    | some stored => exact .ite (rules.raise _) (.pure rules.stable ())
  refine .bind rules.stable ?_ fun _ => ?_
  · refine .ite (.pure rules.stable ()) (.bind rules.stable (rules.tryRead _) fun found => ?_)
    exact .ite (rules.raise _) (.ite (.pure rules.stable ()) (rules.raise _))
  refine .bind rules.stable (rules.read _) fun records => .ite (rules.raise _) ?_
  refine .bind rules.stable (rules.tryRead _) fun current => ?_
  cases current with
  | none => exact rules.raise _
  | some document => exact .ite (.pure rules.stable ()) (rules.raise _)

theorem StepRules.publishArtifacts : Maintains R I E (publishArtifacts svc req) := by
  refine .bind rules.stable rules.ensureChunked fun _ => ?_
  refine .bind rules.stable (.self rules.stable) fun me => ?_
  refine .bind rules.stable (rules.perform _ trivial) fun _ => ?_
  refine .bind rules.stable (.forEach rules.stable fun parent _ => ?_) fun _ => ?_
  · refine .bind rules.stable (rules.read _) fun stored => ?_
    cases stored with
    | none => exact .pure rules.stable ()
    | some chunk => exact rules.perform _ trivial
  refine .bind rules.stable (rules.read _) fun previousVersion => ?_
  cases previousVersion with
  | none => exact .pure rules.stable ()
  | some version =>
    refine .ite (.pure rules.stable ()) (.bind rules.stable (rules.read _) fun oldChunks => ?_)
    refine .bind rules.stable (.forEach rules.stable fun record _ => ?_) fun _ => ?_
    · exact rules.perform _ trivial
    · exact .ite (.pure rules.stable ()) (rules.perform _ trivial)

theorem StepRules.stepFinalize : Maintains R I E (stepFinalize svc req) := by
  refine .bind rules.stable (.self rules.stable) fun me => ?_
  refine .bind rules.stable (rules.perform _ trivial) fun _ => ?_
  exact rules.perform _ trivial

/-- All steps but `commit`, which also records that it took place. -/
theorem StepRules.step {name : Step} (hname : name ≠ .commit) :
    Maintains R I E (step svc req name) := by
  cases name with
  | acquire => exact .pure rules.stable ()
  | parse => exact .assign rules.stable (rules.assign _ (.parsed _))
  | chunk => exact rules.ensureChunked
  | writeParents => exact rules.stepWriteParents
  | writeQdrant => exact rules.stepWriteQdrant
  | verify => exact rules.stepVerify
  | commit => exact absurd rfl hname
  | publish => exact .bind rules.stable rules.assertOwnsBuild fun _ => rules.publishArtifacts
  | finalize => exact rules.stepFinalize

/-- One iteration of the step loop, given the step `commit`. -/
theorem StepRules.runStep (hcommit : Maintains R I E (stepCommit req)) (name : Step) :
    Maintains R I E (runStep svc req name) := by
  refine .bind rules.stable (rules.read _) fun done => ?_
  refine .ite (.pure rules.stable ()) ?_
  refine .bind rules.stable ?_ fun _ => rules.perform _ trivial
  by_cases hname : name = .commit
  · rw [hname]
    exact hcommit
  · exact rules.step hname

/-- The step loop with the result of the run. -/
theorem StepRules.loop (hcommit : Maintains R I E (stepCommit req)) (steps : List Step)
    (options : RunOptions) :
    Maintains R I E
      (forEach steps (IngestionJob.runStep svc req) >>= fun _ => finishBuild options) := by
  refine .bind rules.stable (.forEach rules.stable fun name _ => rules.runStep hcommit name)
    fun _ => .ite (.pure rules.stable _) ?_
  exact .bind rules.stable (.self rules.stable) fun me => .pure rules.stable _

/-- The short circuit for a version that is indexed already. -/
theorem StepRules.shortCircuitAlreadyIndexed :
    Maintains R I E (shortCircuitAlreadyIndexed svc req) := by
  refine .bind rules.stable (rules.read _) fun identity => .ite (rules.raise _) ?_
  refine .bind rules.stable (rules.read _) fun status => ?_
  refine .ite ?_ (.pure rules.stable _)
  exact .bind rules.stable (rules.perform _ trivial) fun _ => .pure rules.stable _

end Maintains

end IngestionJob

namespace DocumentManager

section Harmless

theorem listPointIds_harmless (name : String) (ref : VersionRef) :
    HarmlessMethod (listPointIds name ref) :=
  harmless_tryRead _

theorem delete_harmless (ctx : SecurityContext) (corpusId documentId : String) :
    HarmlessMethod (delete ctx corpusId documentId) := by
  refine Uses.bind (harmless_tryRead _) fun found => ?_
  cases found with
  | none => exact harmless_raise _
  | some document =>
    refine Uses.ite (harmless_raise _) (Uses.ite (Uses.pure ()) ?_)
    refine Uses.bind (harmless_metadata _ trivial) fun _ => ?_
    refine Uses.bind (harmless_read _) fun name => ?_
    refine Uses.bind (listPointIds_harmless _ _) fun pointIds => ?_
    exact Uses.bind (harmless_vectors _) fun _ => harmless_parents _

theorem resolveActive_harmless (ctx : SecurityContext) (corpusId documentId : String) :
    HarmlessMethod (resolveActive ctx corpusId documentId) := by
  refine Uses.bind (harmless_tryRead _) fun found => ?_
  cases found with
  | none => exact harmless_raise _
  | some document => exact Uses.ite (Uses.pure document) (harmless_raise _)

theorem tightenAcl_harmless (ctx : SecurityContext) (corpusId documentId : String)
    (acl : ResourceAcl) : HarmlessMethod (tightenAcl ctx corpusId documentId acl) := by
  refine Uses.bind (resolveActive_harmless ctx corpusId documentId) fun document => ?_
  refine Uses.ite (harmless_raise _) ?_
  refine Uses.bind (harmless_metadata _ trivial) fun _ => ?_
  refine Uses.bind (harmless_read _) fun name => ?_
  refine Uses.bind (listPointIds_harmless _ _) fun pointIds => ?_
  exact Uses.bind (harmless_vectors _) fun _ => harmless_parents _

theorem syncVersion_harmless (name : String) (doc : DocRef) (version : Option String)
    (active : Bool) : HarmlessMethod (syncVersion name doc version active) := by
  cases version with
  | none => exact Uses.pure ()
  | some version =>
    refine Uses.bind (listPointIds_harmless _ _) fun pointIds => ?_
    cases active with
    | true => exact Uses.bind (harmless_vectors _) fun _ => harmless_parents _
    | false => exact Uses.bind (harmless_vectors _) fun _ => harmless_parents _

theorem rollbackActiveVersion_harmless (doc : DocRef) (toVersion : Option String)
    (expectedRevision : Option Nat) :
    HarmlessMethod (rollbackActiveVersion doc toVersion expectedRevision) := by
  refine Uses.bind (harmless_metadata _ trivial) fun switched => ?_
  refine Uses.bind ?_ fun target => ?_
  · cases toVersion with
    | none => exact harmless_read _
    | some version => exact Uses.pure (some version)
  · refine Uses.bind (harmless_read _) fun name => ?_
    refine Uses.bind (Uses.tryCatch ?_ fun e => ?_) fun _ => Uses.pure switched
    · refine Uses.bind (syncVersion_harmless name doc target true) fun _ => ?_
      exact syncVersion_harmless name doc _ false
    · exact Uses.bind (Uses.perform trivial) fun _ => Uses.reraise e

end Harmless

end DocumentManager

end AgenticRag
