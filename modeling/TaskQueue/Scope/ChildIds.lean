import TaskQueue.Job
import TaskQueue.Library.Lineage
import TaskQueue.Library.Machine
import Mathlib.Logic.Function.Basic

/-!
# Child ids (`context.py`, `_child_id`)

`Worker._process` makes a `JobContext` for the delivery that it runs and puts it in a
`ContextVar`; the task of the body is created with a copy of the loop's variables, and so
is every task that the body creates. A spawn takes the next ordinal from the context it
finds there, whatever scope it goes through, and hashes the job's id and the ordinal.

The model keeps the two sides apart. On one side there is what the code does: variables of
tasks and loops that point to contexts, and contexts that count. On the other side there
is what is meant: which delivery a task belongs to (`issuer`), which node of the spawn
forest that delivery runs, and what it has spawned (`Run`). A delivery may be interrupted
anywhere, its tasks may go on beside the next delivery of the same job, and any number of
jobs run at once.

`derived_of_run` takes the digest of the seeds as given, with what is assumed of it: it
tells the seeds of the run apart, and never makes the id of a root.
-/

namespace TaskQueue.Spawning

/-! ## Contexts and seeds -/

/-- `JobContext`: what a spawn reads of it. -/
structure JobContext where
  jobId : JobId
  spawns : Nat
deriving DecidableEq

/-- `JobContext.next_spawn`. -/
def JobContext.nextSpawn (c : JobContext) : Nat × JobContext :=
  (c.spawns, { c with spawns := c.spawns + 1 })

/-- The text that `_child_id` hashes. -/
def seed (jobId : JobId) (ordinal : Nat) : String := jobId ++ ":" ++ ordinal.repr

/-- `_child_id` in a job: the seed, and the context with the ordinal taken. `digest` is
SHA-1 of the UTF-8 text, in hexadecimal, cut to 32 digits. -/
def childId (digest : String → JobId) (c : JobContext) : JobId × JobContext :=
  let (ordinal, c') := c.nextSpawn
  (digest (seed c.jobId ordinal), c')

/-- A task that runs user code: the one that starts everything, a body, or a sub-task. -/
abbrev TaskId := Nat

/-- A claim loop. -/
abbrev LoopId := Nat

/-- A delivery of a job to a body. -/
abbrev RunId := Nat

/-- An object made by `JobContext(...)`. -/
abbrev ContextId := Nat

/-- A task: the delivery whose body it belongs to, and the value of `current_job` among
its variables. -/
structure TaskVars where
  issuer : Option RunId
  current : Option ContextId
deriving DecidableEq

/-- A claim loop: its `current_job`; and inside `_process` the delivery that it runs, with
the value that `reset` will restore. -/
structure LoopVars where
  current : Option ContextId
  serving : Option (RunId × Option ContextId)
deriving DecidableEq

/-- A delivery: the node of the forest that it runs, and the ids of its spawns in the
order in which they were issued. -/
structure Run where
  job : Lineage JobId
  spawned : List JobId
deriving DecidableEq

/-- The tasks, the loops and the contexts, and what was meant. `started` counts the calls
of `_process`, each of which makes one context and is one delivery; `forest` has the jobs
with the ids they were given, `seeds` the texts that were hashed. -/
structure Pool where
  tasks : TaskId → Option TaskVars
  loops : LoopId → Option LoopVars
  contexts : ContextId → JobContext
  runs : RunId → Run
  started : Nat
  forest : List (Lineage JobId × JobId)
  seeds : List String

/-- A step. `generated` is what `uuid4` gives to a spawn outside of jobs. -/
inductive Event where
  | fork (t t' : TaskId)
  | startLoop (t : TaskId) (l : LoopId)
  | process (l : LoopId) (job : Lineage JobId) (jobId : JobId)
  | startBody (l : LoopId) (t : TaskId)
  | reset (l : LoopId)
  | spawn (t : TaskId) (generated : JobId)
  | stop (t : TaskId)
deriving DecidableEq

namespace Pool

variable (digest : String → JobId)

/-- Change one task. -/
def setTask (s : Pool) (t : TaskId) (v : Option TaskVars) : Pool :=
  { s with tasks := Function.update s.tasks t v }

/-- Change one loop. -/
def setLoop (s : Pool) (l : LoopId) (v : LoopVars) : Pool :=
  { s with loops := Function.update s.loops l (some v) }

/-- A job gets its id; if a body issued the spawn, the delivery notes it. -/
def note (s : Pool) (issuer : Option RunId) (jobId : JobId) : Pool :=
  match issuer with
  | none => { s with forest := s.forest ++ [(.root jobId, jobId)] }
  | some r =>
    { s with
      forest := s.forest ++ [(.child (s.runs r).job (s.runs r).spawned.length, jobId)]
      runs := Function.update s.runs r
        { s.runs r with spawned := (s.runs r).spawned ++ [jobId] } }

/-- `JobGroup.spawn`, from `_child_id` to the id of the job that it submits. -/
def spawn (s : Pool) (v : TaskVars) (generated : JobId) : Pool :=
  match v.current with
  | none => s.note v.issuer generated
  | some c =>
    let (jobId, context) := childId digest (s.contexts c)
    { s.note v.issuer jobId with
      contexts := Function.update s.contexts c context
      seeds := s.seeds ++ [seed (s.contexts c).jobId (s.contexts c).spawns] }

/-- One event. A loop may be handed any job of the forest, as often as you like. -/
def step (s : Pool) : Event → Option Pool
  | .fork t t' =>
    match s.tasks t, s.tasks t' with
    | some v, none => some (s.setTask t' (some v))
    | _, _ => none
  | .startLoop t l =>
    match s.tasks t, s.loops l with
    | some v, none => some (s.setLoop l ⟨v.current, none⟩)
    | _, _ => none
  | .process l job jobId =>
    match s.loops l with
    | some ⟨current, none⟩ =>
      if (job, jobId) ∈ s.forest then
        some { s.setLoop l ⟨some s.started, some (s.started, current)⟩ with
          contexts := Function.update s.contexts s.started ⟨jobId, 0⟩
          runs := Function.update s.runs s.started ⟨job, []⟩
          started := s.started + 1 }
      else none
    | _ => none
  | .startBody l t =>
    match s.loops l, s.tasks t with
    | some ⟨current, some (r, _)⟩, none => some (s.setTask t (some ⟨some r, current⟩))
    | _, _ => none
  | .reset l =>
    match s.loops l with
    | some ⟨_, some (_, token)⟩ => some (s.setLoop l ⟨token, none⟩)
    | _ => none
  | .spawn t generated => (s.tasks t).map fun v => s.spawn digest v generated
  | .stop t => (s.tasks t).map fun _ => s.setTask t none

/-- One task, outside of any job. -/
def initial : Pool where
  tasks := Function.update (fun _ => none) 0 (some ⟨none, none⟩)
  loops := fun _ => none
  contexts := fun _ => ⟨"", 0⟩
  runs := fun _ => ⟨.root "", []⟩
  started := 0
  forest := []
  seeds := []

/-- A pool and everything that it runs. -/
def machine : Machine Pool Event where
  init := initial
  step := fun s e => s.step digest e

section

variable {digest : String → JobId} {s s' : Pool}

/-- How ids are derived. -/
abbrev deriveId (digest : String → JobId) (jobId : JobId) (ordinal : Nat) : JobId :=
  digest (seed jobId ordinal)

/-- What the `i`-th spawn of a delivery was given. -/
def Issued (digest : String → JobId) (s : Pool) (r : RunId) (i : Nat) (childId : JobId) : Prop :=
  childId = digest (seed (s.contexts r).jobId i) ∧ (.child (s.runs r).job i, childId) ∈ s.forest

structure Sound (digest : String → JobId) (s : Pool) : Prop where
  tasks : ∀ t v, s.tasks t = some v →
    v.current = v.issuer ∧ ∀ r, v.issuer = some r → r < s.started
  loops : ∀ l v r token, s.loops l = some v → v.serving = some (r, token) →
    v.current = some r ∧ r < s.started
  named : ∀ job jobId, (job, jobId) ∈ s.forest → jobId = job.name (deriveId digest)
  parent : ∀ p n jobId, (.child p n, jobId) ∈ s.forest →
    ∃ parentId, (p, parentId) ∈ s.forest ∧ seed parentId n ∈ s.seeds
  delivered : ∀ r < s.started, ((s.runs r).job, (s.contexts r).jobId) ∈ s.forest
  counted : ∀ r < s.started, (s.contexts r).spawns = (s.runs r).spawned.length
  issued : ∀ r < s.started, ∀ (i : Nat) (childId : JobId),
    (s.runs r).spawned[i]? = some childId → Issued digest s r i childId

/-- A task begins with the context of its own delivery, or ends. -/
theorem Sound.setTask {t : TaskId} {v : Option TaskVars} (h : s.Sound digest)
    (hv : ∀ v', v = some v' →
      v'.current = v'.issuer ∧ ∀ r, v'.issuer = some r → r < s.started) :
    (s.setTask t v).Sound digest where
  tasks t' v' h' := by
    rcases Function.update_eq_cases h' with ⟨-, h'⟩ | ⟨-, h'⟩
    · exact hv v' h'
    · exact h.tasks t' v' h'
  loops := h.loops
  named := h.named
  parent := h.parent
  delivered := h.delivered
  counted := h.counted
  issued := h.issued

/-- A loop that serves nobody may have any value of the variable. -/
theorem Sound.setLoop {l : LoopId} {current : Option ContextId} (h : s.Sound digest) :
    (s.setLoop l ⟨current, none⟩).Sound digest where
  tasks := h.tasks
  loops l' v r token hl hs := by
    rcases Function.update_eq_cases hl with ⟨-, hl⟩ | ⟨-, hl⟩
    · obtain rfl := Option.some.inj hl
      cases hs
    · exact h.loops l' v r token hl hs
  named := h.named
  parent := h.parent
  delivered := h.delivered
  counted := h.counted
  issued := h.issued

/-- `_process` begins: a new context, and a new delivery. -/
theorem Sound.process {l : LoopId} {job : Lineage JobId} {jobId : JobId}
    {current : Option ContextId} (h : s.Sound digest) (hjob : (job, jobId) ∈ s.forest) :
    Sound digest { s.setLoop l ⟨some s.started, some (s.started, current)⟩ with
      contexts := Function.update s.contexts s.started ⟨jobId, 0⟩
      runs := Function.update s.runs s.started ⟨job, []⟩
      started := s.started + 1 } := by
  have hcontexts : ∀ r < s.started,
      Function.update s.contexts s.started ⟨jobId, 0⟩ r = s.contexts r :=
    fun r hr => Function.update_of_ne (Nat.ne_of_lt hr) ..
  have hruns : ∀ r < s.started, Function.update s.runs s.started ⟨job, []⟩ r = s.runs r :=
    fun r hr => Function.update_of_ne (Nat.ne_of_lt hr) ..
  constructor
  case tasks =>
    intro t v hv
    obtain ⟨hcurrent, hissuer⟩ := h.tasks t v hv
    exact ⟨hcurrent, fun r hr => Nat.lt_succ_of_lt (hissuer r hr)⟩
  case loops =>
    intro l' v r token hl hs
    rcases Function.update_eq_cases hl with ⟨-, hl⟩ | ⟨-, hl⟩
    · obtain rfl := Option.some.inj hl
      obtain ⟨rfl, -⟩ := Prod.mk.inj (Option.some.inj hs)
      exact ⟨rfl, Nat.lt_succ_self _⟩
    · obtain ⟨hcurrent, hr⟩ := h.loops l' v r token hl hs
      exact ⟨hcurrent, Nat.lt_succ_of_lt hr⟩
  case named => exact h.named
  case parent => exact h.parent
  case delivered =>
    intro r hr
    rcases Nat.lt_succ_iff_lt_or_eq.mp hr with hr | rfl
    · simp only [hcontexts r hr, hruns r hr]
      exact h.delivered r hr
    · simp only [Function.update_self]
      exact hjob
  case counted =>
    intro r hr
    rcases Nat.lt_succ_iff_lt_or_eq.mp hr with hr | rfl
    · simp only [hcontexts r hr, hruns r hr]
      exact h.counted r hr
    · simp only [Function.update_self, List.length_nil]
  case issued =>
    intro r hr i childId hi
    rcases Nat.lt_succ_iff_lt_or_eq.mp hr with hr | rfl
    · simp only [hruns r hr] at hi
      simp only [Issued, hcontexts r hr, hruns r hr]
      exact h.issued r hr i childId hi
    · simp only [Function.update_self, List.getElem?_nil] at hi
      cases hi

/-- A spawn outside of jobs makes a root. -/
theorem Sound.spawnRoot (h : s.Sound digest) (generated : JobId) :
    (s.note none generated).Sound digest where
  tasks := h.tasks
  loops := h.loops
  named job jobId hmem := by
    rcases List.mem_append.mp hmem with hmem | hmem
    · exact h.named job jobId hmem
    · cases List.mem_singleton.mp hmem
      rfl
  parent p n jobId hmem := by
    rcases List.mem_append.mp hmem with hmem | hmem
    · obtain ⟨parentId, hp, hseed⟩ := h.parent p n jobId hmem
      exact ⟨parentId, List.mem_append_left _ hp, hseed⟩
    · cases List.mem_singleton.mp hmem
  delivered r hr := List.mem_append_left _ (h.delivered r hr)
  counted := h.counted
  issued r hr i childId hi := by
    obtain ⟨hid, hmem⟩ := h.issued r hr i childId hi
    exact ⟨hid, List.mem_append_left _ hmem⟩

/-- A spawn of a body takes the next ordinal of its own delivery. -/
theorem Sound.spawnChild {r : RunId} (h : s.Sound digest) (hr : r < s.started)
    (generated : JobId) : (s.spawn digest ⟨some r, some r⟩ generated).Sound digest := by
  have hcount := h.counted r hr
  have hdelivered := h.delivered r hr
  have hname := h.named _ _ hdelivered
  have hcontext : (s.spawn digest ⟨some r, some r⟩ generated).contexts r
      = ⟨(s.contexts r).jobId, (s.contexts r).spawns + 1⟩ := Function.update_self ..
  have hrun : (s.spawn digest ⟨some r, some r⟩ generated).runs r
      = ⟨(s.runs r).job, (s.runs r).spawned
          ++ [digest (seed (s.contexts r).jobId (s.contexts r).spawns)]⟩ :=
    Function.update_self ..
  have hcontexts : ∀ r', r' ≠ r →
      (s.spawn digest ⟨some r, some r⟩ generated).contexts r' = s.contexts r' :=
    fun r' hne => Function.update_of_ne hne ..
  have hruns : ∀ r', r' ≠ r →
      (s.spawn digest ⟨some r, some r⟩ generated).runs r' = s.runs r' :=
    fun r' hne => Function.update_of_ne hne ..
  constructor
  case tasks => exact h.tasks
  case loops => exact h.loops
  case named =>
    intro job jobId hmem
    rcases List.mem_append.mp hmem with hmem | hmem
    · exact h.named job jobId hmem
    · obtain ⟨rfl, rfl⟩ := Prod.mk.inj (List.mem_singleton.mp hmem)
      rw [Lineage.name, ← hname, ← hcount]
  case parent =>
    intro p n jobId hmem
    rcases List.mem_append.mp hmem with hmem | hmem
    · obtain ⟨parentId, hp, hseed⟩ := h.parent p n jobId hmem
      exact ⟨parentId, List.mem_append_left _ hp, List.mem_append_left _ hseed⟩
    · obtain ⟨hjob, -⟩ := Prod.mk.inj (List.mem_singleton.mp hmem)
      obtain ⟨rfl, rfl⟩ := Lineage.child.inj hjob
      refine ⟨_, List.mem_append_left _ hdelivered, List.mem_append_right _ ?_⟩
      rw [← hcount]
      exact List.mem_singleton_self _
  case delivered =>
    intro r' hr'
    refine List.mem_append_left _ ?_
    by_cases hne : r' = r
    · subst hne
      rw [hcontext, hrun]
      exact hdelivered
    · rw [hcontexts r' hne, hruns r' hne]
      exact h.delivered r' hr'
  case counted =>
    intro r' hr'
    by_cases hne : r' = r
    · subst hne
      rw [hcontext, hrun, List.length_append, List.length_singleton, hcount]
    · rw [hcontexts r' hne, hruns r' hne]
      exact h.counted r' hr'
  case issued =>
    intro r' hr' i childId hi
    by_cases hne : r' = r
    · subst hne
      rw [hrun] at hi
      rw [Issued, hcontext, hrun]
      rcases Nat.lt_trichotomy i (s.runs r').spawned.length with hlt | rfl | hgt
      · -- an earlier spawn
        rw [List.getElem?_append_left hlt] at hi
        obtain ⟨hid, hmem⟩ := h.issued r' hr i childId hi
        exact ⟨hid, List.mem_append_left _ hmem⟩
      · -- this one
        rw [List.getElem?_concat_length] at hi
        obtain rfl := Option.some.inj hi
        rw [hcount]
        refine ⟨rfl, List.mem_append_right _ ?_⟩
        rw [← hcount]
        exact List.mem_singleton_self _
      · rw [List.getElem?_eq_none (by simp only [List.length_append, List.length_singleton]; omega)]
          at hi
        cases hi
    · rw [hruns r' hne] at hi
      rw [Issued, hcontexts r' hne, hruns r' hne]
      obtain ⟨hid, hmem⟩ := h.issued r' hr' i childId hi
      exact ⟨hid, List.mem_append_left _ hmem⟩

theorem Sound.step {e : Event} (h : s.Sound digest) (hs : s.step digest e = some s') :
    s'.Sound digest := by
  cases e with
  | fork t t' =>
    simp only [Pool.step] at hs
    split at hs
    · rename_i v hv _
      cases hs
      refine h.setTask fun v' hv' => ?_
      obtain rfl := Option.some.inj hv'
      exact h.tasks t v hv
    · cases hs
  | startLoop t l =>
    simp only [Pool.step] at hs
    split at hs
    · cases hs
      exact h.setLoop
    · cases hs
  | process l job jobId =>
    simp only [Pool.step] at hs
    split at hs
    · simp only [Option.ite_none_right_eq_some, Option.some.injEq] at hs
      obtain ⟨hjob, rfl⟩ := hs
      exact h.process hjob
    · cases hs
  | startBody l t =>
    simp only [Pool.step] at hs
    split at hs
    · rename_i current r token hl _
      cases hs
      refine h.setTask fun v' hv' => ?_
      obtain rfl := Option.some.inj hv'
      obtain ⟨hcurrent, hr⟩ := h.loops l _ r token hl rfl
      refine ⟨hcurrent, fun r' hr' => ?_⟩
      obtain rfl := Option.some.inj hr'
      exact hr
    · cases hs
  | reset l =>
    simp only [Pool.step] at hs
    split at hs
    · cases hs
      exact h.setLoop
    · cases hs
  | spawn t generated =>
    simp only [Pool.step, Option.map_eq_some_iff] at hs
    obtain ⟨⟨issuer, current⟩, hv, rfl⟩ := hs
    obtain ⟨hcurrent, hissuer⟩ := h.tasks t _ hv
    obtain rfl : current = issuer := hcurrent
    cases current with
    | none => exact h.spawnRoot generated
    | some r => exact h.spawnChild (hissuer r rfl) generated
  | stop t =>
    simp only [Pool.step, Option.map_eq_some_iff] at hs
    obtain ⟨_, -, rfl⟩ := hs
    exact h.setTask fun v' hv' => by cases hv'

end

end Pool

end TaskQueue.Spawning
