import SdkLoom.Proofs.Materialized

/-!
# Files written at the same time

The files of a set are produced one after the other. Each text is handed to a task, which makes the directories above its
file and then writes it, while other tasks do the same and further files are still produced; when all files are produced,
the tasks are collected as they end. `FileSet.Step` has one rule for each thing that may happen next. What holds between any
two steps is `FileSet.Sound`: the tree is laid by the tasks, each as far as it has come, and the report is what they and the
production have told so far. So every run ends, and all runs end with the tree and the report of
`FileSet.materialize` (`materialize_order_independent`). It is not enough for this that no template is where a file goes: a path
that turns back from a directory can be followed only after a task has made the directory (`detour_order_dependent`).
-/

namespace SdkLoom

/-- The report with one more path, written or failed. -/
def Report.note (r : Report) (path : String) (ok : Bool) : Report :=
  if ok then { r with written := r.written ++ [path] } else { r with failed := r.failed ++ [path] }

/-- Whether a path may stand before another in order. -/
def Path.inOrder (a b : String) : Bool := (compare a b).isLE

/-- The report with written and failed paths in order. -/
def Report.sorted (r : Report) : Report :=
  { r with written := r.written.mergeSort Path.inOrder, failed := r.failed.mergeSort Path.inOrder }

namespace FileSet

/-! ## Tasks and steps -/

/-- How far a task has come: its directories are made, it has ended well or not, and that has been noted. -/
inductive Phase where
  | spawned
  | prepared
  | ended (ok : Bool)
  | joined (ok : Bool)
  deriving DecidableEq

/-- Whether a task has made its directories, as far as it could. -/
def Phase.isPrepared : Phase → Bool
  | .spawned => false
  | _ => true

/-- Whether a task has written its text. -/
def Phase.hasLanded : Phase → Bool
  | .ended ok => ok
  | .joined ok => ok
  | _ => false

/-- A task that writes a text. -/
structure WriteTask where
  path : String
  text : String
  phase : Phase

/-- The job of a task. -/
def WriteTask.job (dir : String) (task : WriteTask) : FileJob := FileSet.job dir task.path task.text

/-- The tree, the files that are still to be produced, the tasks, and what is reported so far. -/
structure Progress where
  tree : FileTree
  pending : List (String × FileContent)
  tasks : List WriteTask
  report : Report

/-- What may happen next: the next file is produced, any task takes its next step, or any task that has ended is noted. -/
inductive Step (dir : String) (templates : TemplateStore) : Progress → Progress → Prop where
  | fail {t : FileTree} {path : String} {content : FileContent} {rest : List (String × FileContent)}
      {tasks : List WriteTask} {report : Report} (h : outcome templates t path content = .fail) :
      Step dir templates ⟨t, (path, content) :: rest, tasks, report⟩
        ⟨t, rest, tasks, { report with failed := report.failed ++ [path] }⟩
  | skip {t : FileTree} {path : String} {content : FileContent} {rest : List (String × FileContent)}
      {tasks : List WriteTask} {report : Report} (h : outcome templates t path content = .skip) :
      Step dir templates ⟨t, (path, content) :: rest, tasks, report⟩
        ⟨t, rest, tasks, { report with skipped := report.skipped ++ [path] }⟩
  | spawn {t : FileTree} {path text : String} {content : FileContent} {rest : List (String × FileContent)}
      {tasks : List WriteTask} {report : Report} (h : outcome templates t path content = .write text) :
      Step dir templates ⟨t, (path, content) :: rest, tasks, report⟩
        ⟨t, rest, tasks ++ [⟨path, text, .spawned⟩], report⟩
  | make {t t' : FileTree} {pending : List (String × FileContent)} {before after : List WriteTask} {path text : String}
      {report : Report} (h : t.makeFrom (.start (Path.join dir path)) (Path.steps (Path.join dir path)).dropLast = (t', .ok ())) :
      Step dir templates ⟨t, pending, before ++ ⟨path, text, .spawned⟩ :: after, report⟩
        ⟨t', pending, before ++ ⟨path, text, .prepared⟩ :: after, report⟩
  | makeFails {t t' : FileTree} {pending : List (String × FileContent)} {before after : List WriteTask}
      {path text : String} {report : Report} {f : FileFault}
      (h : t.makeFrom (.start (Path.join dir path)) (Path.steps (Path.join dir path)).dropLast = (t', .error f)) :
      Step dir templates ⟨t, pending, before ++ ⟨path, text, .spawned⟩ :: after, report⟩
        ⟨t', pending, before ++ ⟨path, text, .ended false⟩ :: after, report⟩
  | write {t t' : FileTree} {pending : List (String × FileContent)} {before after : List WriteTask} {path text : String}
      {report : Report} (h : t.write (Path.join dir path) (.text text) = .ok t') :
      Step dir templates ⟨t, pending, before ++ ⟨path, text, .prepared⟩ :: after, report⟩
        ⟨t', pending, before ++ ⟨path, text, .ended true⟩ :: after, report⟩
  | writeFails {t : FileTree} {pending : List (String × FileContent)} {before after : List WriteTask} {path text : String}
      {report : Report} {f : FileFault} (h : t.write (Path.join dir path) (.text text) = .error f) :
      Step dir templates ⟨t, pending, before ++ ⟨path, text, .prepared⟩ :: after, report⟩
        ⟨t, pending, before ++ ⟨path, text, .ended false⟩ :: after, report⟩
  | join {t : FileTree} {before after : List WriteTask} {path text : String} {report : Report} {ok : Bool} :
      Step dir templates ⟨t, [], before ++ ⟨path, text, .ended ok⟩ :: after, report⟩
        ⟨t, [], before ++ ⟨path, text, .joined ok⟩ :: after, report.note path ok⟩

/-- What a number of steps can lead to from the start, when all files are still to be produced. -/
inductive Run (files : FileSet) (dir : String) (templates : TemplateStore) (tree : FileTree) : Nat → Progress → Prop where
  | start : Run files dir templates tree 0 ⟨tree, files.toList, [], .empty⟩
  | step {n : Nat} {s s' : Progress} :
      Run files dir templates tree n s → Step dir templates s s' → Run files dir templates tree (n + 1) s'

/-- All files are produced and all tasks are noted. -/
def Progress.Over (s : Progress) : Prop := s.pending = [] ∧ ∀ task ∈ s.tasks, ∃ ok, task.phase = .joined ok

/-! ## Runs end -/

/-- The number of steps that a task has before it. -/
def Phase.stepsLeft : Phase → Nat
  | .spawned => 3
  | .prepared => 2
  | .ended _ => 1
  | .joined _ => 0

/-- The number of steps that some tasks have before them. -/
def taskSteps : List WriteTask → Nat
  | [] => 0
  | task :: rest => task.phase.stepsLeft + taskSteps rest

theorem taskSteps_append (a b : List WriteTask) : taskSteps (a ++ b) = taskSteps a + taskSteps b := by
  induction a with
  | nil => simp [taskSteps]
  | cons task rest ih => simp [taskSteps, ih, Nat.add_assoc]

/-- A bound on the number of steps that are left. -/
def Progress.stepsLeft (s : Progress) : Nat := 4 * s.pending.length + taskSteps s.tasks

/-- A task that has steps before it has not been noted. -/
theorem Phase.ne_joined {phase : Phase} (h : phase.stepsLeft ≠ 0) (ok : Bool) : phase ≠ .joined ok := by
  rintro rfl
  exact h rfl

theorem Step.stepsLeft_lt {dir : String} {templates : TemplateStore} {s s' : Progress} (h : Step dir templates s s') :
    s'.stepsLeft < s.stepsLeft := by
  cases h <;> simp +arith [Progress.stepsLeft, Phase.stepsLeft, taskSteps, taskSteps_append]

theorem Run.steps_le {files : FileSet} {dir : String} {templates : TemplateStore} {tree : FileTree} {n : Nat}
    {s : Progress} (h : Run files dir templates tree n s) : n + s.stepsLeft ≤ 4 * files.size := by
  induction h with
  | start => simp [Progress.stepsLeft, taskSteps, SortedMap.toList, SortedMap.size]
  | step _ hstep ih =>
    have hlt := hstep.stepsLeft_lt
    omega

/-- While not all is done, something can happen. -/
theorem exists_step (dir : String) (templates : TemplateStore) (s : Progress) :
    s.Over ∨ ∃ s', Step dir templates s s' := by
  obtain ⟨t, pending, tasks, report⟩ := s
  cases pending with
  | cons file rest =>
    right
    obtain ⟨path, content⟩ := file
    cases h : outcome templates t path content with
    | fail => exact ⟨_, .fail h⟩
    | skip => exact ⟨_, .skip h⟩
    | write text => exact ⟨_, .spawn h⟩
  | nil =>
    by_cases hover : ∀ task ∈ tasks, ∃ ok, task.phase = .joined ok
    · exact .inl ⟨rfl, hover⟩
    · right
      push Not at hover
      obtain ⟨task, hmem, hphase⟩ := hover
      obtain ⟨before, after, rfl⟩ := List.append_of_mem hmem
      obtain ⟨path, text, phase⟩ := task
      cases phase with
      | spawned =>
        cases h : t.makeFrom (.start (Path.join dir path)) (Path.steps (Path.join dir path)).dropLast with
        | mk t' r =>
          cases r with
          | ok _ => exact ⟨_, .make h⟩
          | error f => exact ⟨_, .makeFails h⟩
      | prepared =>
        cases h : t.write (Path.join dir path) (.text text) with
        | ok t' => exact ⟨_, .write h⟩
        | error f => exact ⟨_, .writeFails h⟩
      | ended ok => exact ⟨_, .join⟩
      | joined ok => exact absurd rfl (hphase ok)

/-! ## What holds between two steps -/

/-- What is to be done with some files, by the tree at the start. -/
def planned (templates : TemplateStore) (tree : FileTree) (fs : List (String × FileContent)) : List (String × Outcome) :=
  fs.map fun f => (f.1, outcome templates tree f.1 f.2)

/-- The texts that are to be written, by path. -/
def writes (os : List (String × Outcome)) : List (String × String) :=
  os.filterMap fun file =>
    match file.2 with
    | .write text => some (file.1, text)
    | _ => none

/-- The files that could not be produced. -/
def unproduced (os : List (String × Outcome)) : List String :=
  (os.filter fun file => decide (file.2 = .fail)).map Prod.fst

theorem unproduced_append (os os' : List (String × Outcome)) :
    unproduced (os ++ os') = unproduced os ++ unproduced os' := by
  simp [unproduced]

theorem mem_writes_iff (os : List (String × Outcome)) (path text : String) :
    (path, text) ∈ writes os ↔ (path, Outcome.write text) ∈ os := by
  simp only [writes, List.mem_filterMap, Prod.exists]
  constructor
  · rintro ⟨p, o, hmem, heq⟩
    cases o with
    | write s =>
      cases heq
      exact hmem
    | _ => cases heq
  · intro hmem
    exact ⟨path, _, hmem, rfl⟩

/-- What a task knows about its job at its phase is true of the tree at the start. -/
def WriteTask.Sound (dir : String) (tree : FileTree) (task : WriteTask) : Prop :=
  match task.phase with
  | .spawned => True
  | .prepared => (task.job dir).Clear tree
  | .ended ok => ok = true ↔ (task.job dir).Lands tree
  | .joined ok => ok = true ↔ (task.job dir).Lands tree

/-- A job is that of a task whose phase passes a test. -/
def InPhase (p : Phase → Bool) (dir : String) (tasks : List WriteTask) (j : FileJob) : Prop :=
  ∃ task ∈ tasks, task.job dir = j ∧ p task.phase = true

theorem inPhase_append (p : Phase → Bool) (dir : String) (a b : List WriteTask) (j : FileJob) :
    InPhase p dir (a ++ b) j ↔ InPhase p dir a j ∨ InPhase p dir b j := by
  simp only [InPhase, List.mem_append, or_and_right, exists_or]

theorem inPhase_cons (p : Phase → Bool) (dir : String) (task : WriteTask) (rest : List WriteTask) (j : FileJob) :
    InPhase p dir (task :: rest) j ↔ (task.job dir = j ∧ p task.phase = true) ∨ InPhase p dir rest j := by
  simp only [InPhase, List.mem_cons, or_and_right, exists_or, exists_eq_left]

/-- Tasks that do not pass the test do not count. -/
theorem inPhase_append_of_false {p : Phase → Bool} {added : List WriteTask} (h : ∀ task ∈ added, p task.phase = false)
    (dir : String) (tasks : List WriteTask) (j : FileJob) :
    InPhase p dir (tasks ++ added) j ↔ InPhase p dir tasks j := by
  rw [inPhase_append]
  refine or_iff_left ?_
  rintro ⟨task, htask, -, hp⟩
  rw [h task htask] at hp
  cases hp

section Replaced

variable {p : Phase → Bool} {dir path text : String} {before after : List WriteTask} {phase phase' : Phase}

/-- A step of a task that does not change the test changes nothing. -/
theorem inPhase_same (h : p phase' = p phase) (j : FileJob) :
    InPhase p dir (before ++ ⟨path, text, phase'⟩ :: after) j ↔ InPhase p dir (before ++ ⟨path, text, phase⟩ :: after) j := by
  simp only [inPhase_append, inPhase_cons, h]
  rfl

/-- A step of a task that makes the test true adds its job. -/
theorem inPhase_reached (h : p phase = false) (h' : p phase' = true) (j : FileJob) :
    InPhase p dir (before ++ ⟨path, text, phase'⟩ :: after) j ↔
      InPhase p dir (before ++ ⟨path, text, phase⟩ :: after) j ∨ j = job dir path text := by
  simp only [inPhase_append, inPhase_cons, h, h', Bool.false_eq_true, and_false, false_or, and_true]
  rw [or_left_comm, or_comm, eq_comm]
  rfl

end Replaced

/-- The paths of the tasks that have been noted as written, or as failed. -/
def noted (ok : Bool) (tasks : List WriteTask) : List String :=
  (tasks.filter fun task => decide (task.phase = .joined ok)).map WriteTask.path

theorem noted_append (ok : Bool) (a b : List WriteTask) : noted ok (a ++ b) = noted ok a ++ noted ok b := by
  simp [noted]

/-- A task that has not been noted does not count. -/
theorem noted_of_ne {ok : Bool} {phase : Phase} (h : phase ≠ .joined ok) (before after : List WriteTask)
    (path text : String) : noted ok (before ++ ⟨path, text, phase⟩ :: after) = noted ok (before ++ after) := by
  simp [noted, h]

/-- A task that has been noted counts once. -/
theorem noted_joined (ok : Bool) (before after : List WriteTask) (path text : String) :
    (noted ok (before ++ ⟨path, text, .joined ok⟩ :: after)).Perm (noted ok (before ++ after) ++ [path]) := by
  have hcons : noted ok (⟨path, text, .joined ok⟩ :: after) = path :: noted ok after := by
    simp [noted]
  rw [noted_append, noted_append, hcons]
  exact List.perm_middle.trans (List.perm_append_singleton _ _).symm

/-- What holds between two steps, after some of the files have been produced: they were produced as planned at the start,
the texts among them are those of the tasks, the tree is laid by the tasks as far as they have come, and the report has what
the production and the noted tasks have told. -/
structure Sound (files : FileSet) (dir : String) (templates : TemplateStore) (tree : FileTree)
    (produced : List (String × FileContent)) (s : Progress) : Prop where
  listed : files.toList = produced ++ s.pending
  tasks : s.tasks.map (fun task => (task.path, task.text)) = writes (planned templates tree produced)
  phases : ∀ task ∈ s.tasks, task.Sound dir tree
  laid : Laid (JobOf dir (files.outcomes templates tree)) tree (InPhase Phase.isPrepared dir s.tasks)
    (InPhase Phase.hasLanded dir s.tasks) s.tree
  skipped : s.report.skipped = ofFate dir tree (planned templates tree produced) .skipped
  written : s.report.written.Perm (noted true s.tasks)
  failed : s.report.failed.Perm (unproduced (planned templates tree produced) ++ noted false s.tasks)

namespace Sound

theorem start (files : FileSet) (dir : String) (templates : TemplateStore) (tree : FileTree) :
    Sound files dir templates tree [] ⟨tree, files.toList, [], .empty⟩ where
  listed := rfl
  tasks := rfl
  phases _ h := absurd h List.not_mem_nil
  laid := (Laid.start _ tree).congr (fun j => by simp [InPhase]) fun j => by simp [InPhase]
  skipped := rfl
  written := .refl _
  failed := .refl _

variable {files : FileSet} {dir : String} {templates : TemplateStore} {tree : FileTree}
  {produced : List (String × FileContent)}

/-- The job of a task is one of the jobs of the set. -/
theorem jobOf {s : Progress} (h : Sound files dir templates tree produced s) {task : WriteTask} (htask : task ∈ s.tasks) :
    JobOf dir (files.outcomes templates tree) (task.job dir) := by
  refine ⟨task.path, task.text, ?_, rfl⟩
  have hmem : (task.path, task.text) ∈ writes (planned templates tree produced) := by
    rw [← h.tasks]
    exact List.mem_map_of_mem htask
  have houtcomes : files.outcomes templates tree = planned templates tree files.toList := rfl
  rw [houtcomes, h.listed, planned, List.map_append]
  exact List.mem_append_left _ ((mem_writes_iff ..).1 hmem)

/-- A file is produced at any time as planned at the start. -/
theorem outcome_eq {s : Progress} (h : Sound files dir templates tree produced s)
    (hfiles : files.Separate dir templates tree) {path : String} {content : FileContent}
    (hmem : (path, content) ∈ s.pending) :
    outcome templates s.tree path content = outcome templates tree path content := by
  have hkey : ∀ task ∈ s.tasks, ∃ q ∈ files.keys, (task.job dir).path = Path.join dir q := by
    intro task htask
    obtain ⟨q, text, hq, heq⟩ := h.jobOf htask
    obtain ⟨content', hget, -⟩ := (mem_outcomes_iff ..).1 hq
    exact ⟨q, files.mem_keys_of_get? hget, by rw [heq]; rfl⟩
  refine hfiles.outcome_eq h.laid.grows ?_ ?_ (files.get?_eq_some_iff.2 ?_)
  · rintro l ⟨j, ⟨task, htask, rfl, -⟩, rfl⟩
    obtain ⟨q, hq, hpath⟩ := hkey task htask
    exact ⟨q, hq, by rw [FileJob.target, hpath]⟩
  · rintro l ⟨j, ⟨task, htask, rfl, -⟩, hl⟩
    obtain ⟨q, hq, hpath⟩ := hkey task htask
    rw [FileJob.way, hpath] at hl
    exact ⟨q, hq, hl⟩
  · have hlisted := h.listed
    rw [SortedMap.toList] at hlisted
    rw [hlisted]
    exact List.mem_append_right _ hmem

section Replaced

variable {t t' : FileTree} {pending : List (String × FileContent)} {before after : List WriteTask}
  {path text : String} {phase phase' : Phase} {report report' : Report}
  (h : Sound files dir templates tree produced ⟨t, pending, before ++ ⟨path, text, phase⟩ :: after, report⟩)
  (hsound : WriteTask.Sound dir tree ⟨path, text, phase'⟩)
  (hlaid : Laid (JobOf dir (files.outcomes templates tree)) tree
    (InPhase Phase.isPrepared dir (before ++ ⟨path, text, phase'⟩ :: after))
    (InPhase Phase.hasLanded dir (before ++ ⟨path, text, phase'⟩ :: after)) t')

include h hsound hlaid

/-- The phase of a task and what is reported of tasks may change together. -/
theorem replace (hskipped : report'.skipped = report.skipped)
    (hwritten : report'.written.Perm (noted true (before ++ ⟨path, text, phase'⟩ :: after)))
    (hfailed : report'.failed.Perm (unproduced (planned templates tree produced) ++
      noted false (before ++ ⟨path, text, phase'⟩ :: after))) :
    Sound files dir templates tree produced ⟨t', pending, before ++ ⟨path, text, phase'⟩ :: after, report'⟩ where
  listed := h.listed
  tasks := by
    have htasks := h.tasks
    rw [List.map_append, List.map_cons] at htasks ⊢
    exact htasks
  phases := by
    intro task htask
    rcases List.mem_append.1 htask with hmem | hmem
    · exact h.phases task (List.mem_append_left _ hmem)
    · rcases List.mem_cons.1 hmem with rfl | hmem
      · exact hsound
      · exact h.phases task (List.mem_append_right _ (List.mem_cons_of_mem _ hmem))
  laid := hlaid
  skipped := hskipped.trans h.skipped
  written := hwritten
  failed := hfailed

/-- A task that is noted neither before nor after a step of its own changes nothing in the report. -/
theorem advance (hphase : phase.stepsLeft ≠ 0) (hphase' : phase'.stepsLeft ≠ 0) :
    Sound files dir templates tree produced ⟨t', pending, before ++ ⟨path, text, phase'⟩ :: after, report⟩ := by
  have hnoted : ∀ ok, noted ok (before ++ ⟨path, text, phase⟩ :: after) =
      noted ok (before ++ ⟨path, text, phase'⟩ :: after) := fun ok => by
    rw [noted_of_ne (Phase.ne_joined hphase ok), noted_of_ne (Phase.ne_joined hphase' ok)]
  exact h.replace hsound hlaid rfl (hnoted true ▸ h.written) (hnoted false ▸ h.failed)

end Replaced

/-- The plan for one more file. -/
theorem planned_concat {t : FileTree} {rest : List (String × FileContent)} {tasks : List WriteTask} {report : Report}
    {path : String} {content : FileContent} {o : Outcome}
    (h : Sound files dir templates tree produced ⟨t, (path, content) :: rest, tasks, report⟩)
    (hfiles : files.Separate dir templates tree) (ho : outcome templates t path content = o) :
    planned templates tree (produced ++ [(path, content)]) = planned templates tree produced ++ [(path, o)] := by
  have hmem : (path, content) ∈ (path, content) :: rest := List.mem_cons_self
  rw [planned, List.map_append, List.map_cons, List.map_nil, ← h.outcome_eq hfiles hmem, ho]
  rfl

/-- One more file is produced, and what its outcome tells is added to the tasks and to the report. -/
theorem produce {t : FileTree} {rest : List (String × FileContent)} {tasks : List WriteTask} {report report' : Report}
    {path : String} {content : FileContent} {o : Outcome}
    (h : Sound files dir templates tree produced ⟨t, (path, content) :: rest, tasks, report⟩)
    (hfiles : files.Separate dir templates tree) (ho : outcome templates t path content = o) (added : List WriteTask)
    (hadded : added.map (fun task => (task.path, task.text)) = writes [(path, o)])
    (hspawned : ∀ task ∈ added, task.phase = .spawned) (hwritten : report'.written = report.written)
    (hfailed : report'.failed = report.failed ++ unproduced [(path, o)])
    (hskipped : report'.skipped = report.skipped ++ ofFate dir tree [(path, o)] .skipped) :
    Sound files dir templates tree (produced ++ [(path, content)]) ⟨t, rest, tasks ++ added, report'⟩ := by
  have hplan := h.planned_concat hfiles ho
  have hnoted : ∀ ok, noted ok (tasks ++ added) = noted ok tasks := by
    intro ok
    have hnone : noted ok added = [] := by
      simp only [noted, List.map_eq_nil_iff, List.filter_eq_nil_iff, decide_eq_true_iff]
      intro task htask heq
      cases (hspawned task htask).symm.trans heq
    rw [noted_append, hnone, List.append_nil]
  refine { listed := ?_, tasks := ?_, phases := ?_, laid := ?_, skipped := ?_, written := ?_, failed := ?_ }
  · rw [h.listed, List.append_assoc]
    rfl
  · rw [hplan, writes, List.filterMap_append, List.map_append, h.tasks, hadded]
    rfl
  · intro task htask
    rcases List.mem_append.1 htask with hmem | hmem
    · exact h.phases task hmem
    · rw [WriteTask.Sound, hspawned task hmem]
      trivial
  · refine h.laid.congr (inPhase_append_of_false ?_ dir tasks) (inPhase_append_of_false ?_ dir tasks)
    · exact fun task htask => by rw [hspawned task htask]; rfl
    · exact fun task htask => by rw [hspawned task htask]; rfl
  · rw [hplan, ofFate_append, ← h.skipped]
    exact hskipped
  · rw [hnoted, hwritten]
    exact h.written
  · rw [hplan, unproduced_append, hnoted, hfailed, List.append_assoc]
    refine (h.failed.append_right _).trans ?_
    rw [List.append_assoc]
    exact List.perm_append_comm.append_left _

/-- A task that has ended is noted. -/
theorem collect {t : FileTree} {pending : List (String × FileContent)} {before after : List WriteTask} {path text : String}
    {report : Report} {ok : Bool}
    (h : Sound files dir templates tree produced ⟨t, pending, before ++ ⟨path, text, .ended ok⟩ :: after, report⟩) :
    Sound files dir templates tree produced
      ⟨t, pending, before ++ ⟨path, text, .joined ok⟩ :: after, report.note path ok⟩ := by
  have hsound : WriteTask.Sound dir tree ⟨path, text, .joined ok⟩ :=
    h.phases ⟨path, text, .ended ok⟩ (List.mem_append_right _ List.mem_cons_self)
  have hended : ∀ b, Phase.ended ok ≠ .joined b := Phase.ne_joined Nat.one_ne_zero
  have hwritten := h.written
  have hfailed := h.failed
  rw [noted_of_ne (hended _)] at hwritten hfailed
  cases ok with
  | true =>
    have hother : Phase.joined true ≠ .joined false := by decide
    refine h.replace hsound (h.laid.congr (inPhase_same rfl) (inPhase_same rfl)) rfl ?_ ?_
    · exact (hwritten.append_right _).trans (noted_joined ..).symm
    · rw [noted_of_ne hother]
      exact hfailed
  | false =>
    have hother : Phase.joined false ≠ .joined true := by decide
    refine h.replace hsound (h.laid.congr (inPhase_same rfl) (inPhase_same rfl)) rfl ?_ ?_
    · rw [noted_of_ne hother]
      exact hwritten
    · refine (hfailed.append_right _).trans ?_
      rw [List.append_assoc]
      exact (noted_joined ..).symm.append_left _

/-- Every step keeps what holds between steps. -/
theorem step {s s' : Progress} (h : Sound files dir templates tree produced s)
    (hfiles : files.Separate dir templates tree) (hstep : Step dir templates s s') :
    ∃ produced', Sound files dir templates tree produced' s' := by
  have hjobs := hfiles.apart_jobs
  have hnone : ∀ task ∈ ([] : List WriteTask), task.phase = .spawned := fun _ hmem => absurd hmem List.not_mem_nil
  cases hstep with
  | @fail t path content rest tasks report ho =>
    refine ⟨produced ++ [(path, content)], ?_⟩
    rw [← List.append_nil tasks]
    exact h.produce hfiles ho [] rfl hnone rfl rfl (List.append_nil _).symm
  | @skip t path content rest tasks report ho =>
    refine ⟨produced ++ [(path, content)], ?_⟩
    rw [← List.append_nil tasks]
    exact h.produce hfiles ho [] rfl hnone rfl (List.append_nil _).symm rfl
  | @spawn t path text content rest tasks report ho =>
    have hskipped : ofFate dir tree [(path, .write text)] .skipped = [] := by
      simp [ofFate, fate_eq_skipped_iff]
    refine ⟨produced ++ [(path, content)], h.produce hfiles ho _ rfl ?_ rfl (List.append_nil _).symm ?_⟩
    · intro task htask
      rw [List.mem_singleton.1 htask]
    · rw [hskipped, List.append_nil]
  | @make t t' pending before after path text report hmake =>
    have hjob := h.jobOf (List.mem_append_right _ List.mem_cons_self)
    obtain ⟨hlaid, hclear⟩ := h.laid.make hjobs hjob hmake
    exact ⟨produced, h.advance (hclear.1 rfl) (hlaid.congr (inPhase_reached rfl rfl) (inPhase_same rfl))
      (by decide) (by decide)⟩
  | @makeFails t t' pending before after path text report f hmake =>
    have hjob := h.jobOf (List.mem_append_right _ List.mem_cons_self)
    obtain ⟨hlaid, hclear⟩ := h.laid.make hjobs hjob hmake
    have hlands : ¬ (job dir path text).Lands tree := fun hlands => by cases hclear.2 hlands.1
    exact ⟨produced, h.advance (iff_of_false Bool.false_ne_true hlands)
      (hlaid.congr (inPhase_reached rfl rfl) (inPhase_same rfl)) (by decide) (by decide)⟩
  | @write t t' pending before after path text report hwrite =>
    have hmem : (⟨path, text, .prepared⟩ : WriteTask) ∈ before ++ ⟨path, text, .prepared⟩ :: after :=
      List.mem_append_right _ List.mem_cons_self
    obtain ⟨hok, herror⟩ := h.laid.write hjobs ⟨_, hmem, rfl, rfl⟩ (h.phases _ hmem)
    by_cases hlands : (job dir path text).Lands tree
    · obtain ⟨t₁, heq, hlaid⟩ := hok hlands
      cases heq.symm.trans hwrite
      exact ⟨produced, h.advance (iff_of_true rfl hlands)
        (hlaid.congr (inPhase_same rfl) (inPhase_reached rfl rfl)) (by decide) (by decide)⟩
    · obtain ⟨f, heq⟩ := herror hlands
      cases heq.symm.trans hwrite
  | @writeFails t pending before after path text report f hwrite =>
    have hmem : (⟨path, text, .prepared⟩ : WriteTask) ∈ before ++ ⟨path, text, .prepared⟩ :: after :=
      List.mem_append_right _ List.mem_cons_self
    obtain ⟨hok, -⟩ := h.laid.write hjobs ⟨_, hmem, rfl, rfl⟩ (h.phases _ hmem)
    have hlands : ¬ (job dir path text).Lands tree := by
      intro hlands
      obtain ⟨t₁, heq, -⟩ := hok hlands
      cases heq.symm.trans hwrite
    exact ⟨produced, h.advance (iff_of_false Bool.false_ne_true hlands)
      (h.laid.congr (inPhase_same rfl) (inPhase_same rfl)) (by decide) (by decide)⟩
  | @join t before after path text report ok => exact ⟨produced, h.collect⟩

end Sound

/-- Between any two steps of a run the tree and the report are what the tasks and the production have made of them. -/
theorem Run.sound {files : FileSet} {dir : String} {templates : TemplateStore} {tree : FileTree}
    (hfiles : files.Separate dir templates tree) {n : Nat} {s : Progress} (h : Run files dir templates tree n s) :
    ∃ produced, Sound files dir templates tree produced s := by
  induction h with
  | start => exact ⟨[], .start files dir templates tree⟩
  | step _ hstep ih =>
    obtain ⟨produced, hsound⟩ := ih
    exact hsound.step hfiles hstep

/-! ## What a run ends with -/

/-- The paths whose texts land, or those whose texts do not. -/
def landing (dir : String) (tree : FileTree) (texts : List (String × String)) (ok : Bool) : List String :=
  (texts.filter fun w => decide ((job dir w.1 w.2).Lands tree) == ok).map Prod.fst

/-- The files that are written are those whose texts land. -/
theorem landing_true (dir : String) (tree : FileTree) (os : List (String × Outcome)) :
    landing dir tree (writes os) true = ofFate dir tree os .written := by
  induction os with
  | nil => rfl
  | cons file rest ih =>
    obtain ⟨path, o⟩ := file
    simp only [landing, writes, ofFate] at ih ⊢
    cases o with
    | write text => by_cases hlands : (job dir path text).Lands tree <;> simpa [fate, hlands] using ih
    | _ => simpa [fate] using ih

/-- The files that fail are those that are not produced and those whose texts do not land. -/
theorem unproduced_landing_perm (dir : String) (tree : FileTree) (os : List (String × Outcome)) :
    (unproduced os ++ landing dir tree (writes os) false).Perm (ofFate dir tree os .failed) := by
  induction os with
  | nil => exact .refl _
  | cons file rest ih =>
    obtain ⟨path, o⟩ := file
    simp only [unproduced, landing, writes, ofFate] at ih ⊢
    cases o with
    | write text =>
      by_cases hlands : (job dir path text).Lands tree
      · simpa [fate, hlands] using ih
      · simpa [fate, hlands] using List.perm_middle.trans (ih.cons path)
    | skip => simpa [fate] using ih
    | fail => simpa [fate] using ih

/-- The jobs are those of the tasks for all texts. -/
theorem jobOf_iff_of_tasks {dir : String} {os : List (String × Outcome)} {tasks : List WriteTask}
    (h : tasks.map (fun task => (task.path, task.text)) = writes os) (j : FileJob) :
    JobOf dir os j ↔ ∃ task ∈ tasks, task.job dir = j := by
  have hmem : ∀ path text, (path, Outcome.write text) ∈ os ↔ ∃ task ∈ tasks, (task.path, task.text) = (path, text) := by
    intro path text
    rw [← mem_writes_iff, ← h, List.mem_map]
  constructor
  · rintro ⟨path, text, hos, rfl⟩
    obtain ⟨task, htask, heq⟩ := (hmem path text).1 hos
    cases heq
    exact ⟨task, htask, rfl⟩
  · rintro ⟨task, htask, rfl⟩
    exact ⟨task.path, task.text, (hmem _ _).2 ⟨task, htask, rfl⟩, rfl⟩

/-- A task that has been noted was noted as its text lands. -/
theorem WriteTask.Sound.joined {dir : String} {tree : FileTree} {task : WriteTask} (h : task.Sound dir tree) {ok : Bool}
    (hphase : task.phase = .joined ok) : ok = decide ((task.job dir).Lands tree) := by
  rw [WriteTask.Sound, hphase] at h
  exact Bool.eq_iff_iff.2 (h.trans decide_eq_true_iff.symm)

/-- When all tasks are noted, they are noted as their texts land. -/
theorem noted_eq_landing {dir : String} {tree : FileTree} {tasks : List WriteTask}
    (hover : ∀ task ∈ tasks, ∃ ok, task.phase = .joined ok) (hsound : ∀ task ∈ tasks, task.Sound dir tree) (ok : Bool) :
    noted ok tasks = landing dir tree (tasks.map fun task => (task.path, task.text)) ok := by
  rw [landing, List.filter_map, List.map_map, noted]
  have hsame : ∀ task ∈ tasks, decide (task.phase = .joined ok) = (decide ((task.job dir).Lands tree) == ok) := by
    intro task htask
    obtain ⟨b, hb⟩ := hover task htask
    rw [hb, ← (hsound task htask).joined hb]
    cases b <;> cases ok <;> decide
  rw [List.filter_congr hsame]
  rfl

/-- Sorting paths gives the one list of them in order. -/
theorem mergeSort_inOrder {paths ordered : List String} (h : paths.Perm ordered)
    (hordered : ordered.Pairwise fun a b => compare a b = .lt) : paths.mergeSort Path.inOrder = ordered := by
  have htrans : ∀ a b c, Path.inOrder a b = true → Path.inOrder b c = true → Path.inOrder a c = true :=
    fun _ _ _ => Std.TransCmp.isLE_trans
  have htotal : ∀ a b, (Path.inOrder a b || Path.inOrder b a) = true := by
    intro a b
    have hswap : compare b a = (compare a b).swap := Std.OrientedCmp.eq_swap
    rw [Path.inOrder, Path.inOrder, hswap]
    cases compare a b <;> rfl
  refine List.Perm.eq_of_pairwise ?_ (List.pairwise_mergeSort htrans htotal paths) (hordered.imp ?_)
    ((List.mergeSort_perm ..).trans h)
  · intro a b _ _ hab hba
    exact Std.LawfulEqCmp.eq_of_compare (Std.OrientedCmp.isLE_antisymm hab hba)
  · intro a b hlt
    rw [Path.inOrder, hlt]
    rfl

/-- When all is done, the tree and the report are those of the files written one after the other. -/
theorem Sound.result {files : FileSet} {dir : String} {templates : TemplateStore} {tree : FileTree}
    {produced : List (String × FileContent)} {s : Progress} (h : Sound files dir templates tree produced s)
    (hfiles : files.Separate dir templates tree) (hover : s.Over) :
    (s.tree, s.report.sorted) = files.materialize dir templates tree := by
  obtain ⟨hpending, hjoined⟩ := hover
  have houtcomes : planned templates tree produced = files.outcomes templates tree := by
    rw [outcomes, h.listed, hpending, List.append_nil]
    rfl
  have htasks := h.tasks
  have hskipped := h.skipped
  have hwritten := h.written
  have hfailed := h.failed
  rw [houtcomes] at htasks hskipped hfailed
  rw [noted_eq_landing hjoined h.phases, htasks] at hwritten hfailed
  rw [landing_true] at hwritten
  replace hfailed := hfailed.trans (unproduced_landing_perm ..)
  obtain ⟨hlaid, hreport⟩ := hfiles.materialize_eq
  refine Prod.ext ?_ ?_
  · -- every task has prepared, and has landed exactly if its text lands
    refine (h.laid.congr ?_ ?_).unique hlaid
    · intro j
      rw [jobOf_iff_of_tasks htasks]
      refine exists_congr fun task => and_congr_right fun htask => ?_
      obtain ⟨ok, hok⟩ := hjoined task htask
      simp [hok, Phase.isPrepared]
    · intro j
      rw [jobOf_iff_of_tasks htasks]
      have hlanded : ∀ task ∈ s.tasks, task.phase.hasLanded = true ↔ (task.job dir).Lands tree := by
        intro task htask
        obtain ⟨ok, hok⟩ := hjoined task htask
        rw [hok, Phase.hasLanded, (h.phases task htask).joined hok, decide_eq_true_iff]
      constructor
      · rintro ⟨⟨task, htask, rfl⟩, hlands⟩
        exact ⟨task, htask, rfl, (hlanded task htask).2 hlands⟩
      · rintro ⟨task, htask, rfl, hphase⟩
        exact ⟨⟨task, htask, rfl⟩, (hlanded task htask).1 hphase⟩
  · rw [hreport]
    simp only [Report.sorted, fates, hskipped, mergeSort_inOrder hwritten (pairwise_ofFate ..),
      mergeSort_inOrder hfailed (pairwise_ofFate ..)]

end FileSet

/-- Separate files are written in any order to the same end. Whatever happens next at any time, while files are produced and
tasks make their directories, write and are collected, a run ends after at most four steps for each file, and the tree and
the report are then those of the files written one after the other: each file is reported once and in order, what is
written is read back, no other file is touched, and no file bears on what becomes of another. -/
theorem materialize_order_independent (files : FileSet) (dir : String) (templates : TemplateStore) (tree : FileTree)
    (h : files.Separate dir templates tree) :
    (∀ n s, FileSet.Run files dir templates tree n s →
      n ≤ 4 * files.size ∧ (s.Over ∨ ∃ s', FileSet.Step dir templates s s') ∧
        (s.Over → (s.tree, s.report.sorted) = files.materialize dir templates tree)) ∧
    files.Materialized dir templates tree (files.materialize dir templates tree) := by
  refine ⟨fun n s hrun => ⟨?_, FileSet.exists_step dir templates s, fun hover => ?_⟩, h.materialized⟩
  · have hle := hrun.steps_le
    omega
  · obtain ⟨produced, hsound⟩ := hrun.sound h
    exact hsound.result h hover

/-- Files that share directories, one of them copied from a template. One cannot be written, since a file is in its way, one
has no template, and one is empty. -/
def depotFiles : FileSet :=
  .ofList [("api/client.txt", .text "client"), ("api/types/user.txt", .copied "user.tpl"), ("docs/index.txt", .text "index"),
    ("lost.txt", .copied "lost.tpl"), ("notes.txt", .text "")]

/-- A directory of templates, and one to write to, with a file where a directory is needed and one to write over. -/
def depotTree : FileTree where
  entries := .ofList [(["tpl"], .directory), (["tpl", "user.tpl"], .file (.text "user")), (["out"], .directory),
    (["out", "docs"], .file (.text "none")), (["out", "api"], .directory),
    (["out", "api", "client.txt"], .file (.text "old"))]

theorem depotFiles_separate : depotFiles.Separate "out" (.directory "out/../tpl") depotTree := by
  refine { rooted := FileTree.rooted_of_entries (by decide), plain := by decide, apart := by decide, reads := ?_ }
  intro p content hget
  have hmem : (p, content) ∈ depotFiles.entries := depotFiles.get?_eq_some_iff.1 hget
  have hentries : depotFiles.entries = [("api/client.txt", .text "client"), ("api/types/user.txt", .copied "user.tpl"),
    ("docs/index.txt", .text "index"), ("lost.txt", .copied "lost.tpl"), ("notes.txt", .text "")] := rfl
  simp only [hentries, List.mem_cons, Prod.mk.injEq, List.not_mem_nil, or_false] at hmem
  rcases hmem with ⟨rfl, rfl⟩ | ⟨rfl, rfl⟩ | ⟨rfl, rfl⟩ | ⟨rfl, rfl⟩ | ⟨rfl, rfl⟩
  · exact FileSet.readsApart_text ..
  · exact FileSet.readsApart_copied (by decide) _
  · exact FileSet.readsApart_text ..
  · exact FileSet.readsApart_copied (by decide) _
  · exact FileSet.readsApart_text ..

/-- The files of the depot are written, refused and left out alike in every run. -/
theorem depot_order_independent :
    depotFiles.Separate "out" (.directory "out/../tpl") depotTree ∧
      ∀ n s, FileSet.Run depotFiles "out" (.directory "out/../tpl") depotTree n s → s.Over →
        s.report.sorted.written = ["api/client.txt", "api/types/user.txt"] ∧
          s.report.sorted.failed = ["docs/index.txt", "lost.txt"] ∧ s.report.sorted.skipped = ["notes.txt"] ∧
          s.tree.read "out/api/types/user.txt" = .ok "user" ∧ s.tree.read "out/api/client.txt" = .ok "client" ∧
          s.tree.read "out/docs" = .ok "none" := by
  refine ⟨depotFiles_separate, fun n s hrun hover => ?_⟩
  have hresult := ((materialize_order_independent _ _ _ _ depotFiles_separate).1 n s hrun).2.2 hover
  obtain ⟨htree, hreport⟩ := Prod.mk.inj hresult
  rw [htree, hreport]
  decide +kernel

/-- A text in a directory of its own, and a copy of a template. -/
def detourFiles : FileSet := .ofList [("pkg/a.txt", .text "a"), ("z.md", .copied "z.tpl")]

/-- Templates whose path turns back from the directory of the text. -/
def detourStore : TemplateStore := .directory "out/pkg/../tpl"

/-- A directory with the template beside what has been made so far; the directory of the text is still to be made. -/
def detourTree (made : List (Place × FileEntry)) : FileTree where
  entries := .ofList ([(["out"], .directory), (["out", "tpl"], .directory),
    (["out", "tpl", "z.tpl"], .file (.text "z"))] ++ made)

/-- The copy fails if it is produced before the directory of the text is made. -/
theorem detour_copy_fails :
    FileSet.Run detourFiles "out" detourStore (detourTree []) 5
      ⟨detourTree [(["out", "pkg"], .directory), (["out", "pkg", "a.txt"], .file (.text "a"))], [],
        [⟨"pkg/a.txt", "a", .joined true⟩], ⟨["pkg/a.txt"], ["z.md"], []⟩⟩ := by
  have hproduced : FileSet.Run detourFiles "out" detourStore (detourTree []) 2
      ⟨detourTree [], [], [⟨"pkg/a.txt", "a", .spawned⟩], ⟨[], ["z.md"], []⟩⟩ :=
    .step (.step .start (.spawn rfl)) (.fail rfl)
  have hmade : FileSet.Run detourFiles "out" detourStore (detourTree []) 3
      ⟨detourTree [(["out", "pkg"], .directory)], [], [⟨"pkg/a.txt", "a", .prepared⟩], ⟨[], ["z.md"], []⟩⟩ :=
    hproduced.step (@FileSet.Step.make _ _ _ _ _ [] [] _ _ _ rfl)
  exact (hmade.step (@FileSet.Step.write _ _ _ _ _ [] [] _ _ _ rfl)).step (@FileSet.Step.join _ _ _ [] [] _ _ _ _)

/-- The copy is written if it is produced after that. -/
theorem detour_copy_written :
    FileSet.Run detourFiles "out" detourStore (detourTree []) 8
      ⟨detourTree [(["out", "pkg"], .directory), (["out", "pkg", "a.txt"], .file (.text "a")),
          (["out", "z.md"], .file (.text "z"))], [],
        [⟨"pkg/a.txt", "a", .joined true⟩, ⟨"z.md", "z", .joined true⟩], ⟨["pkg/a.txt", "z.md"], [], []⟩⟩ := by
  have hmade : FileSet.Run detourFiles "out" detourStore (detourTree []) 2
      ⟨detourTree [(["out", "pkg"], .directory)], [("z.md", .copied "z.tpl")], [⟨"pkg/a.txt", "a", .prepared⟩], .empty⟩ :=
    .step (.step .start (.spawn rfl)) (@FileSet.Step.make _ _ _ _ _ [] [] _ _ _ rfl)
  have hproduced : FileSet.Run detourFiles "out" detourStore (detourTree []) 4
      ⟨detourTree [(["out", "pkg"], .directory), (["out", "pkg", "a.txt"], .file (.text "a"))], [],
        [⟨"pkg/a.txt", "a", .ended true⟩, ⟨"z.md", "z", .spawned⟩], .empty⟩ :=
    (hmade.step (@FileSet.Step.write _ _ _ _ _ [] [] _ _ _ rfl)).step (.spawn rfl)
  have hwritten : FileSet.Run detourFiles "out" detourStore (detourTree []) 6
      ⟨detourTree [(["out", "pkg"], .directory), (["out", "pkg", "a.txt"], .file (.text "a")),
          (["out", "z.md"], .file (.text "z"))], [],
        [⟨"pkg/a.txt", "a", .ended true⟩, ⟨"z.md", "z", .ended true⟩], .empty⟩ :=
    (hproduced.step (@FileSet.Step.make _ _ _ _ _ [_] [] _ _ _ rfl)).step
      (@FileSet.Step.write _ _ _ _ _ [_] [] _ _ _ rfl)
  exact (hwritten.step (@FileSet.Step.join _ _ _ [] [_] _ _ _ _)).step (@FileSet.Step.join _ _ _ [_] [] _ _ _ _)

/-- That no template is where a file goes is not enough. The paths are plain, none is above another, and the template that is
copied is at none of their places, but its path turns back from a directory that one of them makes: whether the copy is written
depends on what happens first. -/
theorem detour_order_dependent :
    (detourTree []).Rooted ∧ (∀ p ∈ detourFiles.keys, Path.Plain p) ∧
      (∀ p ∈ detourFiles.keys, ∀ q ∈ detourFiles.keys, Path.steps p <+: Path.steps q → p = q) ∧
      (∀ p content, detourFiles.get? p = some content → ∃ names, content.MadeFrom p detourStore names ∧
        ∀ n ∈ names, ∀ q ∈ detourFiles.keys,
          Place.ofPath (Path.join "out" q) ≠ Place.ofPath (Path.join "out/pkg/../tpl" n)) ∧
      ∃ m s n s', FileSet.Run detourFiles "out" detourStore (detourTree []) m s ∧ s.Over ∧
        FileSet.Run detourFiles "out" detourStore (detourTree []) n s' ∧ s'.Over ∧
        s.report.sorted.failed = ["z.md"] ∧ s'.report.sorted.failed = [] ∧
        s.tree.read "out/z.md" = .error .missing ∧ s'.tree.read "out/z.md" = .ok "z" := by
  refine ⟨FileTree.rooted_of_entries (by decide), by decide, by decide, ?_, ?_⟩
  · intro p content hget
    have hmem : (p, content) ∈ detourFiles.entries := detourFiles.get?_eq_some_iff.1 hget
    have hentries : detourFiles.entries = [("pkg/a.txt", .text "a"), ("z.md", .copied "z.tpl")] := rfl
    simp only [hentries, List.mem_cons, Prod.mk.injEq, List.not_mem_nil, or_false] at hmem
    rcases hmem with ⟨rfl, rfl⟩ | ⟨rfl, rfl⟩
    · exact ⟨[], (FileContent.madeFrom ..).1 _, fun n hn => absurd hn List.not_mem_nil⟩
    · exact ⟨["z.tpl"], (FileContent.madeFrom ..).2.2.1 _, by decide⟩
  · refine ⟨5, _, 8, _, detour_copy_fails, ⟨rfl, ?_⟩, detour_copy_written, ⟨rfl, ?_⟩, ?_⟩
    · simp
    · simp
    · decide +kernel

end SdkLoom
