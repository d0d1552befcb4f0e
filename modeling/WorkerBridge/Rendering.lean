import WorkerBridge.Exposition
import WorkerBridge.Histogram

namespace DefaultDict

variable {κ : Type*} [DecidableEq κ] {d : DefaultDict κ ℕ} {keys : List κ}

def tally (keys : List κ) (k : κ) : ℕ := keys.count k

def Tallies (d : DefaultDict κ ℕ) (keys : List κ) : Prop :=
  ∀ k, d.find k = if tally keys k = 0 then none else some (k, tally keys k)

theorem tallies_empty : Tallies (empty : DefaultDict κ ℕ) [] := fun _ => rfl

theorem Tallies.get (h : d.Tallies keys) (k : κ) : d.get k = tally keys k := by
  unfold DefaultDict.get
  rw [h k]
  split
  · next hzero => exact hzero.symm
  · rfl

theorem Tallies.bump (h : d.Tallies keys) (key : κ) :
    (d.modify key (· + 1)).Tallies (keys ++ [key]) := by
  intro k
  have hsnoc : ∀ k, tally (keys ++ [key]) k = tally keys k + [key].count k :=
    fun _ => List.count_append
  rw [find_modify, h.get, hsnoc, h k]
  by_cases hk : key = k
  · subst hk
    simp
  · simp [hk]

theorem Tallies.mem (h : d.Tallies keys) {item : κ × ℕ} (hmem : item ∈ d.items) :
    item.1 ∈ keys := by
  have hfind : d.find item.1 = some item := Table.find_of_mem d.distinct hmem
  rw [h item.1] at hfind
  by_contra hno
  have hzero : tally keys item.1 = 0 := List.count_eq_zero_of_not_mem hno
  rw [if_pos hzero] at hfind
  cases hfind

end DefaultDict

namespace WorkerBridge

variable {α : Type*}

/-- The dictionaries of a `MetricsRegistry`. -/
structure MetricsDicts (α : Type*) where
  tasksCreated : DefaultDict (String × String) ℕ
  tasksCompleted : DefaultDict (String × String) ℕ
  workerFailures : DefaultDict String ℕ
  circuitOpen : DefaultDict String ℕ
  calls : CallSeconds α

inductive MetricsCall (α : Type*)
  | incTaskCreated (workerId : String) (mode : Mode)
  | incTaskCompleted (workerId : String) (state : TaskState)
  | incWorkerFailure (workerId : String)
  | incCircuitOpen (workerId : String)
  | observeWorkerCall (workerId : String) (seconds : α)
  | render

namespace MetricsCall

def workerId? : MetricsCall α → Option String
  | incTaskCreated workerId _ => some workerId
  | incTaskCompleted workerId _ => some workerId
  | incWorkerFailure workerId => some workerId
  | incCircuitOpen workerId => some workerId
  | observeWorkerCall workerId _ => some workerId
  | render => none

def created? : MetricsCall α → Option (String × String)
  | incTaskCreated workerId mode => some (workerId, mode.value)
  | _ => none

def completed? : MetricsCall α → Option (String × String)
  | incTaskCompleted workerId state => some (workerId, state.value)
  | _ => none

def failure? : MetricsCall α → Option String
  | incWorkerFailure workerId => some workerId
  | _ => none

def opened? : MetricsCall α → Option String
  | incCircuitOpen workerId => some workerId
  | _ => none

def timing? : MetricsCall α → Option (MetricsEvent α)
  | observeWorkerCall workerId seconds => some (.observe workerId seconds)
  | render => some .render
  | _ => none

end MetricsCall

theorem Mode.value_injective : Function.Injective Mode.value := by
  intro mode mode' h
  cases mode <;> cases mode' <;> first | rfl | (revert h; decide)

theorem TaskState.value_injective : Function.Injective TaskState.value := by
  intro state state' h
  cases state <;> cases state' <;> first | rfl | (revert h; decide)

def keyedLine (name second : String) (key : String × String) (value : ℕ) : Text :=
  name.toList ++ "\x7bworker_id=\"".toList ++ key.1.toList ++ "\",".toList ++ second.toList ++
    "=\"".toList ++ key.2.toList ++ "\"\x7d ".toList ++ (Nat.repr value).toList

def workerLine (name workerId : String) (value : ℕ) : Text :=
  name.toList ++ "\x7bworker_id=\"".toList ++ workerId.toList ++ "\"\x7d ".toList ++
    (Nat.repr value).toList

def gaugeLine (name : String) (value : ℕ) : Text :=
  name.toList ++ " ".toList ++ (Nat.repr value).toList

/-- `sorted` of the items, whose keys are all different. -/
def sortedPairs (d : DefaultDict (String × String) ℕ) : List ((String × String) × ℕ) :=
  d.items.mergeSort fun a b => decide (a.1.1 < b.1.1 ∨ a.1.1 = b.1.1 ∧ a.1.2 ≤ b.1.2)

def sortedWorkers (d : DefaultDict String ℕ) : List (String × ℕ) :=
  d.items.mergeSort fun a b => decide (a.1 ≤ b.1)

namespace MetricsDicts

variable [LinearOrder α] [Zero α]

def new (buckets : List α) : Except PyExc (MetricsDicts α) :=
  (CallSeconds.new buckets).map fun calls => ⟨.empty, .empty, .empty, .empty, calls⟩

/-- The lines of `render`.  `str` is `str()` of a float, and `fixed` its format `.6f`. -/
def lines (metrics : MetricsDicts α) (str fixed : α → Text) (activeTasks queuedTasks : ℕ) :
    List Text :=
  ["# HELP ai_bridge_tasks_created_total Durable tasks created by worker and mode.".toList,
    "# TYPE ai_bridge_tasks_created_total counter".toList] ++
  (sortedPairs metrics.tasksCreated).map (fun item =>
    keyedLine "ai_bridge_tasks_created_total" "mode" item.1 item.2) ++
  ["# HELP ai_bridge_tasks_completed_total Tasks completed by worker and terminal state.".toList,
    "# TYPE ai_bridge_tasks_completed_total counter".toList] ++
  (sortedPairs metrics.tasksCompleted).map (fun item =>
    keyedLine "ai_bridge_tasks_completed_total" "state" item.1 item.2) ++
  ["# HELP ai_bridge_worker_failures_total Worker call failures by worker.".toList,
    "# TYPE ai_bridge_worker_failures_total counter".toList] ++
  (sortedWorkers metrics.workerFailures).map (fun item =>
    workerLine "ai_bridge_worker_failures_total" item.1 item.2) ++
  ["# HELP ai_bridge_circuit_open_total Circuit breaker openings by worker.".toList,
    "# TYPE ai_bridge_circuit_open_total counter".toList] ++
  (sortedWorkers metrics.circuitOpen).map (fun item =>
    workerLine "ai_bridge_circuit_open_total" item.1 item.2) ++
  ["# HELP ai_bridge_worker_call_seconds Worker call latency histogram.".toList,
    "# TYPE ai_bridge_worker_call_seconds histogram".toList] ++
  metrics.calls.render.1.map (MetricLine.text str fixed) ++
  ["# HELP ai_bridge_active_tasks Active in-process async tasks.".toList,
    "# TYPE ai_bridge_active_tasks gauge".toList,
    gaugeLine "ai_bridge_active_tasks" activeTasks,
    "# HELP ai_bridge_queued_tasks Durable queued tasks.".toList,
    "# TYPE ai_bridge_queued_tasks gauge".toList,
    gaugeLine "ai_bridge_queued_tasks" queuedTasks]

/-- `"\n".join(lines) + "\n"`. -/
def page (lines : List Text) : Text := List.intercalate ['\n'] lines ++ ['\n']

/-- `render`.  Reading the counts of the histogram inserts those that are missing. -/
def render (metrics : MetricsDicts α) (str fixed : α → Text) (activeTasks queuedTasks : ℕ) :
    Text × MetricsDicts α :=
  (page (metrics.lines str fixed activeTasks queuedTasks),
    { metrics with calls := metrics.calls.render.2 })

variable [Add α]

def step (metrics : MetricsDicts α) : MetricsCall α → MetricsDicts α
  | .incTaskCreated workerId mode =>
    { metrics with tasksCreated := metrics.tasksCreated.modify (workerId, mode.value) (· + 1) }
  | .incTaskCompleted workerId state =>
    { metrics with tasksCompleted := metrics.tasksCompleted.modify (workerId, state.value) (· + 1) }
  | .incWorkerFailure workerId =>
    { metrics with workerFailures := metrics.workerFailures.modify workerId (· + 1) }
  | .incCircuitOpen workerId =>
    { metrics with circuitOpen := metrics.circuitOpen.modify workerId (· + 1) }
  | .observeWorkerCall workerId seconds =>
    { metrics with calls := metrics.calls.observeWorkerCall workerId seconds }
  | .render => { metrics with calls := metrics.calls.render.2 }

def run (metrics : MetricsDicts α) (calls : List (MetricsCall α)) : MetricsDicts α :=
  calls.foldl step metrics

/-- Every dictionary has counted its calls. -/
structure Holds (buckets : List α) (calls : List (MetricsCall α)) (metrics : MetricsDicts α) :
    Prop where
  created : metrics.tasksCreated.Tallies (calls.filterMap MetricsCall.created?)
  completed : metrics.tasksCompleted.Tallies (calls.filterMap MetricsCall.completed?)
  failures : metrics.workerFailures.Tallies (calls.filterMap MetricsCall.failure?)
  opened : metrics.circuitOpen.Tallies (calls.filterMap MetricsCall.opened?)
  timings : metrics.calls.Records buckets (calls.filterMap MetricsCall.timing?)

variable {buckets : List α} {calls : List (MetricsCall α)} {metrics : MetricsDicts α}

omit [LinearOrder α] [Zero α] [Add α] in
theorem filterMap_snoc {β : Type*} (f : MetricsCall α → Option β) (call : MetricsCall α) :
    (calls ++ [call]).filterMap f = calls.filterMap f ++ (f call).toList := by
  rw [List.filterMap_append]
  cases hf : f call <;> simp [hf]

theorem Holds.step (h : Holds buckets calls metrics) (hnodup : buckets.Nodup)
    (call : MetricsCall α) : Holds buckets (calls ++ [call]) (metrics.step call) := by
  constructor
  · rw [filterMap_snoc]
    cases call with
    | incTaskCreated workerId mode => exact h.created.bump _
    | _ => exact (List.append_nil _).symm ▸ h.created
  · rw [filterMap_snoc]
    cases call with
    | incTaskCompleted workerId state => exact h.completed.bump _
    | _ => exact (List.append_nil _).symm ▸ h.completed
  · rw [filterMap_snoc]
    cases call with
    | incWorkerFailure workerId => exact h.failures.bump _
    | _ => exact (List.append_nil _).symm ▸ h.failures
  · rw [filterMap_snoc]
    cases call with
    | incCircuitOpen workerId => exact h.opened.bump _
    | _ => exact (List.append_nil _).symm ▸ h.opened
  · rw [filterMap_snoc]
    cases call with
    | observeWorkerCall workerId seconds => exact h.timings.step hnodup _
    | render => exact h.timings.step hnodup .render
    | _ => exact (List.append_nil _).symm ▸ h.timings

theorem Holds.run {before : List (MetricsCall α)} (h : Holds buckets before metrics)
    (hnodup : buckets.Nodup) (calls : List (MetricsCall α)) :
    Holds buckets (before ++ calls) (metrics.run calls) := by
  induction calls generalizing before metrics with
  | nil => simpa [MetricsDicts.run] using h
  | cons call rest ih =>
    have hrest := ih (h.step hnodup call)
    rwa [List.append_assoc] at hrest

end MetricsDicts

open Exposition

def keyedSample (name second : String) (item : (String × String) × ℕ) : Sample where
  name := name.toList
  labels := [("worker_id".toList, item.1.1.toList), (second.toList, item.1.2.toList)]
  value := (Nat.repr item.2).toList

def workerSample (name : String) (item : String × ℕ) : Sample where
  name := name.toList
  labels := [("worker_id".toList, item.1.toList)]
  value := (Nat.repr item.2).toList

def gaugeSample (name : String) (value : ℕ) : Sample := ⟨name.toList, [], (Nat.repr value).toList⟩

def MetricLine.sample (str fixed : α → Text) : MetricLine α → Sample
  | bucket workerId le n => ⟨"ai_bridge_worker_call_seconds_bucket".toList,
      [("worker_id".toList, workerId.toList), ("le".toList, le.recTopCoe "+Inf".toList str)],
      (Nat.repr n).toList⟩
  | count workerId n => ⟨"ai_bridge_worker_call_seconds_count".toList,
      [("worker_id".toList, workerId.toList)], (Nat.repr n).toList⟩
  | sum workerId seconds => ⟨"ai_bridge_worker_call_seconds_sum".toList,
      [("worker_id".toList, workerId.toList)], fixed seconds⟩

section Lines

theorem labels_open : "\x7bworker_id=\"".toList = '{' :: ("worker_id".toList ++ ['=', '"']) := by
  decide

theorem labels_close : "\"\x7d ".toList = ['"', '}', ' '] := by decide

theorem keyedLine_eq {name second : String} {item : (String × String) × ℕ}
    (hworker : Plain item.1.1.toList) (hsecond : Plain item.1.2.toList) :
    keyedLine name second item.1 item.2 = (keyedSample name second item).text := by
  unfold keyedLine keyedSample Sample.text pairsText pairsText pairText
  simp only [escape_plain hworker, escape_plain hsecond, labels_open, labels_close]
  simp

theorem workerLine_eq {name : String} {item : String × ℕ} (hworker : Plain item.1.toList) :
    workerLine name item.1 item.2 = (workerSample name item).text := by
  unfold workerLine workerSample Sample.text pairsText pairText
  simp only [escape_plain hworker, labels_open, labels_close]
  simp

theorem gaugeLine_eq (name : String) (value : ℕ) :
    gaugeLine name value = (gaugeSample name value).text := by
  unfold gaugeLine gaugeSample Sample.text
  simp

theorem MetricLine.text_eq {str fixed : α → Text} {line : MetricLine α}
    (hworker : Plain line.workerId.toList) (hstr : ∀ a, Plain (str a)) :
    line.text str fixed = (line.sample str fixed).text := by
  cases line with
  | bucket workerId le n =>
    have hle : Plain (le.recTopCoe "+Inf".toList str) := by
      cases le with
      | top =>
        have hinf : ∀ c ∈ "+Inf".toList, c ≠ '\\' ∧ c ≠ '"' ∧ c ≠ '\n' := by simp
        exact hinf
      | coe a => exact hstr a
    have hopen : "ai_bridge_worker_call_seconds_bucket\x7bworker_id=\"".toList =
        "ai_bridge_worker_call_seconds_bucket".toList ++ '{' :: ("worker_id".toList ++ ['=', '"']) := by
      decide
    have hmiddle : "\",le=\"".toList = ['"', ','] ++ "le".toList ++ ['=', '"'] := by decide
    unfold MetricLine.text MetricLine.sample Sample.text pairsText pairsText pairText
    simp only [escape_plain (show Plain workerId.toList from hworker), escape_plain hle, hopen,
      hmiddle, labels_close]
    simp
  | count workerId n =>
    have hopen : "ai_bridge_worker_call_seconds_count\x7bworker_id=\"".toList =
        "ai_bridge_worker_call_seconds_count".toList ++ '{' :: ("worker_id".toList ++ ['=', '"']) := by
      decide
    unfold MetricLine.text MetricLine.sample Sample.text pairsText pairText
    simp only [escape_plain (show Plain workerId.toList from hworker), hopen, labels_close]
    simp
  | sum workerId seconds =>
    have hopen : "ai_bridge_worker_call_seconds_sum\x7bworker_id=\"".toList =
        "ai_bridge_worker_call_seconds_sum".toList ++ '{' :: ("worker_id".toList ++ ['=', '"']) := by
      decide
    unfold MetricLine.text MetricLine.sample Sample.text pairsText pairText
    simp only [escape_plain (show Plain workerId.toList from hworker), hopen, labels_close]
    simp

theorem isDigit_of_mem_repr {n : ℕ} {c : Char} (h : c ∈ (Nat.repr n).toList) :
    c.isDigit = true := by
  rw [Nat.toList_repr] at h
  exact Nat.isDigit_of_mem_toDigits (by decide) (by decide) h

theorem repr_wellFormed (n : ℕ) : (Nat.repr n).toList ≠ [] ∧
    ∀ c ∈ (Nat.repr n).toList, c ≠ ' ' ∧ c ≠ '\n' := by
  refine ⟨?_, fun c hc => ?_⟩
  · rw [Nat.toList_repr]
    exact Nat.toDigits_ne_nil
  have hdigit := isDigit_of_mem_repr hc
  constructor
  · rintro rfl
    exact absurd hdigit (by decide)
  · rintro rfl
    exact absurd hdigit (by decide)

end Lines

/-- `^[a-zA-Z0-9_.-]+$`, the pattern of a worker id. -/
def isWorkerId (workerId : String) : Bool :=
  isWord (fun c => c.isAlphanum || c == '_' || c == '.' || c == '-')
    (fun c => c.isAlphanum || c == '_' || c == '.' || c == '-') workerId.toList

theorem plain_of_isWorkerId {workerId : String} (h : isWorkerId workerId = true) :
    Plain workerId.toList := by
  unfold isWorkerId at h
  intro c hc
  have hchar : (c.isAlphanum || c == '_' || c == '.' || c == '-') = true := by
    revert h hc
    cases workerId.toList with
    | nil =>
      intro h
      cases h
    | cons first rest =>
      intro h hc
      obtain ⟨hfirst, hrest⟩ := Bool.and_eq_true_iff.mp h
      rcases List.mem_cons.mp hc with rfl | hc
      · exact hfirst
      · exact List.all_eq_true.mp hrest _ hc
  refine ⟨?_, ?_, ?_⟩ <;> (rintro rfl; exact absurd hchar (by decide))

structure FloatTexts (str fixed : α → Text) : Prop where
  plain : ∀ a, Plain (str a)
  finite : ∀ a, str a ≠ "+Inf".toList
  injective : Function.Injective str
  fixed : ∀ a, fixed a ≠ [] ∧ ∀ c ∈ fixed a, c ≠ ' ' ∧ c ≠ '\n'

namespace MetricsDicts

variable [LinearOrder α] [Zero α]

/-- The ids and states in the registry are written as they are. -/
structure Plainly (metrics : MetricsDicts α) : Prop where
  created : ∀ item ∈ metrics.tasksCreated.items, Plain item.1.1.toList ∧ Plain item.1.2.toList
  completed : ∀ item ∈ metrics.tasksCompleted.items, Plain item.1.1.toList ∧ Plain item.1.2.toList
  failures : ∀ item ∈ metrics.workerFailures.items, Plain item.1.toList
  opened : ∀ item ∈ metrics.circuitOpen.items, Plain item.1.toList
  timings : ∀ line ∈ metrics.calls.render.1, Plain line.workerId.toList

def comment (text : String) : Entry := .comment text.toList

/-- `lines`, with the samples of the lines. -/
def entries (metrics : MetricsDicts α) (str fixed : α → Text) (activeTasks queuedTasks : ℕ) :
    List Entry :=
  [comment " HELP ai_bridge_tasks_created_total Durable tasks created by worker and mode.",
    comment " TYPE ai_bridge_tasks_created_total counter"] ++
  (sortedPairs metrics.tasksCreated).map (fun item =>
    .sample (keyedSample "ai_bridge_tasks_created_total" "mode" item)) ++
  [comment " HELP ai_bridge_tasks_completed_total Tasks completed by worker and terminal state.",
    comment " TYPE ai_bridge_tasks_completed_total counter"] ++
  (sortedPairs metrics.tasksCompleted).map (fun item =>
    .sample (keyedSample "ai_bridge_tasks_completed_total" "state" item)) ++
  [comment " HELP ai_bridge_worker_failures_total Worker call failures by worker.",
    comment " TYPE ai_bridge_worker_failures_total counter"] ++
  (sortedWorkers metrics.workerFailures).map (fun item =>
    .sample (workerSample "ai_bridge_worker_failures_total" item)) ++
  [comment " HELP ai_bridge_circuit_open_total Circuit breaker openings by worker.",
    comment " TYPE ai_bridge_circuit_open_total counter"] ++
  (sortedWorkers metrics.circuitOpen).map (fun item =>
    .sample (workerSample "ai_bridge_circuit_open_total" item)) ++
  [comment " HELP ai_bridge_worker_call_seconds Worker call latency histogram.",
    comment " TYPE ai_bridge_worker_call_seconds histogram"] ++
  metrics.calls.render.1.map (fun line => .sample (line.sample str fixed)) ++
  [comment " HELP ai_bridge_active_tasks Active in-process async tasks.",
    comment " TYPE ai_bridge_active_tasks gauge",
    .sample (gaugeSample "ai_bridge_active_tasks" activeTasks),
    comment " HELP ai_bridge_queued_tasks Durable queued tasks.",
    comment " TYPE ai_bridge_queued_tasks gauge",
    .sample (gaugeSample "ai_bridge_queued_tasks" queuedTasks)]

def samples (metrics : MetricsDicts α) (str fixed : α → Text) (activeTasks queuedTasks : ℕ) :
    List Sample :=
  (sortedPairs metrics.tasksCreated).map (keyedSample "ai_bridge_tasks_created_total" "mode") ++
  (sortedPairs metrics.tasksCompleted).map (keyedSample "ai_bridge_tasks_completed_total" "state") ++
  (sortedWorkers metrics.workerFailures).map (workerSample "ai_bridge_worker_failures_total") ++
  (sortedWorkers metrics.circuitOpen).map (workerSample "ai_bridge_circuit_open_total") ++
  metrics.calls.render.1.map (MetricLine.sample str fixed) ++
  [gaugeSample "ai_bridge_active_tasks" activeTasks,
    gaugeSample "ai_bridge_queued_tasks" queuedTasks]

variable {metrics : MetricsDicts α} {str fixed : α → Text} {activeTasks queuedTasks : ℕ}

theorem lines_eq (h : metrics.Plainly) (hstr : ∀ a, Plain (str a)) :
    metrics.lines str fixed activeTasks queuedTasks =
      (metrics.entries str fixed activeTasks queuedTasks).map Entry.text := by
  have hcreated : (sortedPairs metrics.tasksCreated).map (fun item =>
      keyedLine "ai_bridge_tasks_created_total" "mode" item.1 item.2) =
        (sortedPairs metrics.tasksCreated).map fun item =>
          (keyedSample "ai_bridge_tasks_created_total" "mode" item).text :=
    List.map_congr_left fun item hitem =>
      have hplain := h.created item (List.mem_mergeSort.mp hitem)
      keyedLine_eq hplain.1 hplain.2
  have hcompleted : (sortedPairs metrics.tasksCompleted).map (fun item =>
      keyedLine "ai_bridge_tasks_completed_total" "state" item.1 item.2) =
        (sortedPairs metrics.tasksCompleted).map fun item =>
          (keyedSample "ai_bridge_tasks_completed_total" "state" item).text :=
    List.map_congr_left fun item hitem =>
      have hplain := h.completed item (List.mem_mergeSort.mp hitem)
      keyedLine_eq hplain.1 hplain.2
  have hfailures : (sortedWorkers metrics.workerFailures).map (fun item =>
      workerLine "ai_bridge_worker_failures_total" item.1 item.2) =
        (sortedWorkers metrics.workerFailures).map fun item =>
          (workerSample "ai_bridge_worker_failures_total" item).text :=
    List.map_congr_left fun item hitem => workerLine_eq (h.failures item (List.mem_mergeSort.mp hitem))
  have hopened : (sortedWorkers metrics.circuitOpen).map (fun item =>
      workerLine "ai_bridge_circuit_open_total" item.1 item.2) =
        (sortedWorkers metrics.circuitOpen).map fun item =>
          (workerSample "ai_bridge_circuit_open_total" item).text :=
    List.map_congr_left fun item hitem => workerLine_eq (h.opened item (List.mem_mergeSort.mp hitem))
  have htimings : metrics.calls.render.1.map (MetricLine.text str fixed) =
      metrics.calls.render.1.map fun line => (line.sample str fixed).text :=
    List.map_congr_left fun line hline => MetricLine.text_eq (h.timings line hline) hstr
  unfold lines entries
  rw [hcreated, hcompleted, hfailures, hopened, htimings]
  simp only [List.map_append, List.map_map, List.map_cons, List.map_nil, gaugeLine_eq]
  rfl

omit [LinearOrder α] [Zero α] in
theorem filterMap_samples {β : Type*} (f : β → Sample) (l : List β) :
    (l.map fun b => Entry.sample (f b)).filterMap Entry.sample? = l.map f := by
  rw [List.filterMap_map]
  exact congrFun List.filterMap_eq_map l

theorem filterMap_entries : (metrics.entries str fixed activeTasks queuedTasks).filterMap
    Entry.sample? = metrics.samples str fixed activeTasks queuedTasks := by
  unfold entries samples
  have hcomment : ∀ text, (comment text).sample? = none := fun _ => rfl
  have hsample : ∀ s, (Entry.sample s).sample? = some s := fun _ => rfl
  simp only [List.filterMap_append, filterMap_samples, List.filterMap_cons, hcomment, hsample,
    List.filterMap_nil, List.nil_append, List.append_nil]

theorem worker_labels {workerId : Text} : ∀ pair ∈ [("worker_id".toList, workerId)],
    isWord labelStart labelChar pair.1 = true := by
  have hworker : isWord labelStart labelChar "worker_id".toList = true := by decide
  intro pair hpair
  exact List.mem_singleton.mp hpair ▸ hworker

theorem keyed_labels {workerId second value : Text} (h : isWord labelStart labelChar second = true) :
    ∀ pair ∈ [("worker_id".toList, workerId), (second, value)],
      isWord labelStart labelChar pair.1 = true := by
  intro pair hpair
  rcases List.mem_cons.mp hpair with rfl | hpair
  · exact worker_labels _ List.mem_cons_self
  · exact List.mem_singleton.mp hpair ▸ h

omit [LinearOrder α] [Zero α] in
theorem MetricLine.sample_wellFormed
    (hfixed : ∀ a, fixed a ≠ [] ∧ ∀ c ∈ fixed a, c ≠ ' ' ∧ c ≠ '\n') (line : MetricLine α) :
    (line.sample str fixed).WellFormed := by
  cases line with
  | bucket workerId le n =>
    have hname : isWord nameStart nameChar "ai_bridge_worker_call_seconds_bucket".toList = true := by
      decide
    exact ⟨hname, keyed_labels (by decide), repr_wellFormed n⟩
  | count workerId n =>
    have hname : isWord nameStart nameChar "ai_bridge_worker_call_seconds_count".toList = true := by
      decide
    exact ⟨hname, worker_labels, repr_wellFormed n⟩
  | sum workerId seconds =>
    have hname : isWord nameStart nameChar "ai_bridge_worker_call_seconds_sum".toList = true := by
      decide
    exact ⟨hname, worker_labels, hfixed seconds⟩

theorem entries_wellFormed (hfixed : ∀ a, fixed a ≠ [] ∧ ∀ c ∈ fixed a, c ≠ ' ' ∧ c ≠ '\n') :
    ∀ e ∈ metrics.entries str fixed activeTasks queuedTasks, e.WellFormed := by
  have hkeyed : ∀ (name second : String), isWord nameStart nameChar name.toList = true →
      isWord labelStart labelChar second.toList = true →
      ∀ item, (keyedSample name second item).WellFormed :=
    fun name second hname hsecond item => ⟨hname, keyed_labels hsecond, repr_wellFormed _⟩
  have hsingle : ∀ name : String, isWord nameStart nameChar name.toList = true →
      ∀ item, (workerSample name item).WellFormed :=
    fun name hname item => ⟨hname, worker_labels, repr_wellFormed _⟩
  have hgauge : ∀ (name : String), isWord nameStart nameChar name.toList = true →
      ∀ n, (gaugeSample name n).WellFormed :=
    fun name hname n => ⟨hname, fun pair hpair => absurd hpair List.not_mem_nil, repr_wellFormed n⟩
  have hcomment : ∀ text : String, '\n' ∉ text.toList → (comment text).WellFormed := fun _ h => h
  simp only [entries, List.forall_mem_append, List.forall_mem_map, List.forall_mem_cons]
  and_intros
  all_goals first
    | exact hcomment _ (by decide)
    | exact fun item _ => hkeyed _ _ (by decide) (by decide) item
    | exact fun item _ => hsingle _ (by decide) item
    | exact fun line _ => MetricLine.sample_wellFormed hfixed line
    | exact hgauge _ (by decide) _
    | exact fun e he => absurd he List.not_mem_nil

theorem page_eq {entries : List Entry} (hne : entries ≠ []) :
    page (entries.map Entry.text) = pageText entries := by
  unfold page pageText
  induction entries with
  | nil => exact absurd rfl hne
  | cons e rest ih =>
    cases rest with
    | nil => simp [List.intercalate]
    | cons next rest =>
      rw [List.flatMap_cons, ← ih (List.cons_ne_nil next rest)]
      simp [List.intercalate]

/-- A scraper reads the samples. -/
theorem read_render (h : metrics.Plainly) (hfloats : FloatTexts str fixed) :
    read (metrics.render str fixed activeTasks queuedTasks).1 =
      some (metrics.samples str fixed activeTasks queuedTasks) := by
  show read (page (metrics.lines str fixed activeTasks queuedTasks)) = _
  have hne : metrics.entries str fixed activeTasks queuedTasks ≠ [] := by
    simp only [entries, ne_eq, List.append_eq_nil_iff, reduceCtorEq, and_false, not_false_eq_true]
  rw [lines_eq h hfloats.plain, page_eq hne, read_pageText (entries_wellFormed hfloats.fixed),
    filterMap_entries]

section Ids

variable [Add α] {buckets : List α} {calls : List (MetricsCall α)}

theorem Holds.plainly (h : Holds buckets calls metrics)
    (hids : ∀ call ∈ calls, ∀ w ∈ call.workerId?, isWorkerId w = true) : metrics.Plainly := by
  have hid : ∀ call ∈ calls, ∀ w, call.workerId? = some w → Plain w.toList :=
    fun call hcall w hw => plain_of_isWorkerId (hids call hcall w hw)
  have hmode : ∀ mode : Mode, Plain mode.value.toList := by
    intro mode
    unfold Plain
    cases mode <;> simp [Mode.value]
  have hstate : ∀ state : TaskState, Plain state.value.toList := by
    intro state
    unfold Plain
    cases state <;> simp [TaskState.value]
  refine ⟨?_, ?_, ?_, ?_, ?_⟩
  · intro item hitem
    obtain ⟨call, hcall, hkey⟩ := List.mem_filterMap.mp (h.created.mem hitem)
    cases call with
    | incTaskCreated workerId mode =>
      have hitem : (workerId, mode.value) = item.1 := Option.some.inj hkey
      rw [← hitem]
      exact ⟨hid _ hcall _ rfl, hmode mode⟩
    | _ => cases hkey
  · intro item hitem
    obtain ⟨call, hcall, hkey⟩ := List.mem_filterMap.mp (h.completed.mem hitem)
    cases call with
    | incTaskCompleted workerId state =>
      have hitem : (workerId, state.value) = item.1 := Option.some.inj hkey
      rw [← hitem]
      exact ⟨hid _ hcall _ rfl, hstate state⟩
    | _ => cases hkey
  · intro item hitem
    obtain ⟨call, hcall, hkey⟩ := List.mem_filterMap.mp (h.failures.mem hitem)
    cases call with
    | incWorkerFailure workerId =>
      obtain rfl : workerId = item.1 := Option.some.inj hkey
      exact hid _ hcall _ rfl
    | _ => cases hkey
  · intro item hitem
    obtain ⟨call, hcall, hkey⟩ := List.mem_filterMap.mp (h.opened.mem hitem)
    cases call with
    | incCircuitOpen workerId =>
      obtain rfl : workerId = item.1 := Option.some.inj hkey
      exact hid _ hcall _ rfl
    | _ => cases hkey
  · intro line hline
    have hmine : line ∈ metrics.calls.render.1.filter fun l => decide (l.workerId = line.workerId) :=
      List.mem_filter.mpr ⟨hline, decide_eq_true rfl⟩
    rw [h.timings.lines] at hmine
    split at hmine
    · cases hmine
    · next hsome =>
      obtain ⟨seconds, hseconds⟩ := List.exists_mem_of_ne_nil _ hsome
      obtain ⟨event, hevent, hw⟩ := List.mem_filterMap.mp hseconds
      obtain ⟨call, hcall, htiming⟩ := List.mem_filterMap.mp hevent
      cases call with
      | observeWorkerCall workerId observed =>
        obtain rfl : MetricsEvent.observe workerId observed = event := Option.some.inj htiming
        have hsame : workerId = line.workerId := by
          by_contra hno
          simp only [if_neg hno] at hw
          cases hw
        exact hsame ▸ hid _ hcall _ rfl
      | render =>
        obtain rfl : MetricsEvent.render = event := Option.some.inj htiming
        cases hw
      | _ => cases htiming

end Ids

end MetricsDicts

def shown (n : ℕ) : List Text := if n = 0 then [] else [(Nat.repr n).toList]

section Series

theorem series_map {κ : Type*} [DecidableEq κ] {d : DefaultDict κ ℕ} {keys : List κ}
    (h : d.Tallies keys) {l : List (κ × ℕ)} (hl : l.Perm d.items) {sampleOf : κ × ℕ → Sample}
    {name : Text} {labels : κ → List (Text × Text)}
    (hs : ∀ item, sampleOf item = ⟨name, labels item.1, (Nat.repr item.2).toList⟩)
    (hinj : Function.Injective labels) (k : κ) :
    series (l.map sampleOf) name (labels k) = shown (DefaultDict.tally keys k) := by
  have hflat : series (l.map sampleOf) name (labels k) =
      l.flatMap fun item => if item.1 = k then [(Nat.repr item.2).toList] else [] := by
    unfold series
    rw [List.filterMap_map, List.filterMap_eq_flatMap_toList]
    refine List.flatMap_congr fun item _ => ?_
    by_cases hk : item.1 = k
    · simp [hs, hk]
    · simp [hs, hk, hinj.ne hk]
  rw [hflat, DefaultDict.flatMap_key (DefaultDict.distinct_of_perm d.distinct hl)
    (fun item => [(Nat.repr item.2).toList]), DefaultDict.find_of_perm d.distinct hl]
  show (d.find k).elim [] _ = _
  rw [h k]
  unfold shown
  split <;> rfl

theorem keyed_injective (second : Text) : Function.Injective fun key : String × String =>
    [("worker_id".toList, key.1.toList), (second, key.2.toList)] := by
  intro key key' h
  simp only [List.cons.injEq, Prod.mk.injEq, true_and, and_true] at h
  exact Prod.ext (String.toList_inj.mp h.1) (String.toList_inj.mp h.2)

theorem worker_injective : Function.Injective fun workerId : String =>
    [("worker_id".toList, workerId.toList)] := by
  intro w w' h
  simp only [List.cons.injEq, Prod.mk.injEq, true_and, and_true] at h
  exact String.toList_inj.mp h

theorem series_map_other {β : Type*} {l : List β} {sampleOf : β → Sample} {name name' : Text}
    (hs : ∀ b, (sampleOf b).name = name') (hne : name' ≠ name) (labels : List (Text × Text)) :
    series (l.map sampleOf) name labels = [] := by
  refine series_other fun s hs' => ?_
  obtain ⟨b, -, rfl⟩ := List.mem_map.mp hs'
  rw [hs]
  exact hne

theorem filterMap_nodup {β γ : Type*} [DecidableEq β] {l : List β} (hl : l.Nodup) {b : β}
    (hb : b ∈ l) (f : β → γ) : (l.filterMap fun b' => if b' = b then some (f b') else none) = [f b] := by
  induction l with
  | nil => cases hb
  | cons first rest ih =>
    obtain ⟨hfirst, hrest⟩ := List.nodup_cons.mp hl
    by_cases he : first = b
    · subst he
      have hnone : (rest.filterMap fun b' => if b' = first then some (f b') else none) = [] := by
        refine List.filterMap_eq_nil_iff.mpr fun b' hb' => if_neg ?_
        rintro rfl
        exact hfirst hb'
      simp [hnone]
    · have hmem := (List.mem_cons.mp hb).resolve_left (Ne.symm he)
      simp [he, ih hrest hmem]

end Series

section Timings

variable {str fixed : α → Text}

theorem series_worker (lines : List (MetricLine α)) (name : Text) (w : String)
    (rest : List (Text × Text)) :
    series (lines.map (MetricLine.sample str fixed)) name (("worker_id".toList, w.toList) :: rest) =
      series ((lines.filter fun line => decide (line.workerId = w)).map (MetricLine.sample str fixed))
        name (("worker_id".toList, w.toList) :: rest) := by
  induction lines with
  | nil => rfl
  | cons line lines ih =>
    by_cases hw : line.workerId = w
    · simp only [List.filter_cons, decide_eq_true hw, if_true, List.map_cons]
      unfold series at ih ⊢
      rw [List.filterMap_cons, List.filterMap_cons, ih]
    · have hother : (line.sample str fixed).labels ≠ ("worker_id".toList, w.toList) :: rest := by
        intro he
        have hid : line.workerId.toList = w.toList := by
          cases line <;> exact (Prod.mk.inj (List.cons.inj he).1).2
        exact hw (String.toList_inj.mp hid)
      simp only [List.filter_cons, decide_eq_false hw, Bool.false_eq_true, if_false]
      rw [← ih, List.map_cons]
      unfold series
      rw [List.filterMap_cons, if_neg fun h => hother h.2]

variable [LinearOrder α] [Zero α] [Add α] {buckets : List α} {w : String} {seconds : List α}

theorem count_ne_bucket : ¬ "ai_bridge_worker_call_seconds_count".toList =
    "ai_bridge_worker_call_seconds_bucket".toList := by decide

theorem sum_ne_bucket : ¬ "ai_bridge_worker_call_seconds_sum".toList =
    "ai_bridge_worker_call_seconds_bucket".toList := by decide

theorem sum_ne_count : ¬ "ai_bridge_worker_call_seconds_sum".toList =
    "ai_bridge_worker_call_seconds_count".toList := by decide

theorem le_of_labels {w w' le le' : Text}
    (h : [("worker_id".toList, w), ("le".toList, le)] =
      [("worker_id".toList, w'), ("le".toList, le')]) : le = le' :=
  (Prod.mk.inj (List.cons.inj (List.cons.inj h).2).1).2

theorem series_bucket (hfloats : FloatTexts str fixed) (hnodup : buckets.Nodup) {b : α}
    (hb : b ∈ buckets) :
    series ((histogram buckets w seconds).map (MetricLine.sample str fixed))
        "ai_bridge_worker_call_seconds_bucket".toList
        [("worker_id".toList, w.toList), ("le".toList, str b)] =
      [(Nat.repr (atMost seconds b)).toList] := by
  have hbuckets : series ((buckets.map fun bucket : α =>
        (.bucket w bucket (atMost seconds bucket) : MetricLine α)).map
          (MetricLine.sample str fixed)) "ai_bridge_worker_call_seconds_bucket".toList
          [("worker_id".toList, w.toList), ("le".toList, str b)] =
        [(Nat.repr (atMost seconds b)).toList] := by
    unfold series
    rw [List.map_map, List.filterMap_map, ← filterMap_nodup hnodup hb fun bucket =>
      (Nat.repr (atMost seconds bucket)).toList]
    refine List.filterMap_congr fun bucket _ => ?_
    by_cases he : bucket = b
    · rw [he, if_pos rfl]
      exact if_pos ⟨rfl, rfl⟩
    · rw [if_neg he]
      exact if_neg fun h => he (hfloats.injective (le_of_labels h.2))
  unfold histogram
  rw [List.map_append, series_append, hbuckets]
  refine List.append_right_eq_self.mpr ?_
  rw [List.map_cons, series_cons_neg fun _ he => hfloats.finite b (le_of_labels he).symm,
    List.map_cons, series_cons_neg fun he => absurd he count_ne_bucket,
    List.map_cons, series_cons_neg fun he => absurd he sum_ne_bucket]
  rfl

theorem series_inf (hfloats : FloatTexts str fixed) :
    series ((histogram buckets w seconds).map (MetricLine.sample str fixed))
        "ai_bridge_worker_call_seconds_bucket".toList
        [("worker_id".toList, w.toList), ("le".toList, "+Inf".toList)] =
      [(Nat.repr seconds.length).toList] := by
  unfold histogram
  rw [List.map_append, series_append, series_eq_nil, List.nil_append]
  · refine (series_cons_pos rfl rfl).trans (congrArg (_ :: ·) ?_)
    exact (series_cons_neg fun he => absurd he count_ne_bucket).trans
      (series_cons_neg fun he => absurd he sum_ne_bucket)
  · intro s hs _ hlabels
    obtain ⟨line, hline, rfl⟩ := List.mem_map.mp hs
    obtain ⟨bucket, -, rfl⟩ := List.mem_map.mp hline
    exact hfloats.finite bucket (le_of_labels hlabels)

omit [Zero α] [Add α] in
theorem series_buckets_other {name : Text}
    (hne : ¬ name = "ai_bridge_worker_call_seconds_bucket".toList) (labels : List (Text × Text)) :
    series ((buckets.map fun bucket : α =>
      (.bucket w bucket (atMost seconds bucket) : MetricLine α)).map (MetricLine.sample str fixed))
        name labels = [] := by
  refine series_other fun s hs => ?_
  obtain ⟨line, hline, rfl⟩ := List.mem_map.mp hs
  obtain ⟨bucket, -, rfl⟩ := List.mem_map.mp hline
  exact Ne.symm hne

theorem series_count :
    series ((histogram buckets w seconds).map (MetricLine.sample str fixed))
        "ai_bridge_worker_call_seconds_count".toList [("worker_id".toList, w.toList)] =
      [(Nat.repr seconds.length).toList] := by
  unfold histogram
  rw [List.map_append, series_append, series_buckets_other count_ne_bucket, List.nil_append]
  refine (series_cons_neg fun he => absurd he.symm count_ne_bucket).trans ?_
  refine (series_cons_pos rfl rfl).trans (congrArg (_ :: ·) ?_)
  exact series_cons_neg fun he => absurd he sum_ne_count

theorem series_sum :
    series ((histogram buckets w seconds).map (MetricLine.sample str fixed))
        "ai_bridge_worker_call_seconds_sum".toList [("worker_id".toList, w.toList)] =
      [fixed (seconds.foldl (· + ·) 0)] := by
  unfold histogram
  rw [List.map_append, series_append, series_buckets_other sum_ne_bucket, List.nil_append]
  refine (series_cons_neg fun he => absurd he.symm sum_ne_bucket).trans ?_
  refine (series_cons_neg fun he => absurd he.symm sum_ne_count).trans ?_
  exact series_cons_pos rfl rfl

omit [LinearOrder α] [Zero α] [Add α] in
theorem series_timings_other {lines : List (MetricLine α)} {name : Text}
    (hbucket : ¬ "ai_bridge_worker_call_seconds_bucket".toList = name)
    (hcount : ¬ "ai_bridge_worker_call_seconds_count".toList = name)
    (hsum : ¬ "ai_bridge_worker_call_seconds_sum".toList = name) (labels : List (Text × Text)) :
    series (lines.map (MetricLine.sample str fixed)) name labels = [] := by
  refine series_other fun s hs => ?_
  obtain ⟨line, -, rfl⟩ := List.mem_map.mp hs
  cases line with
  | bucket workerId le n => exact hbucket
  | count workerId n => exact hcount
  | sum workerId seconds => exact hsum

end Timings

variable [LinearOrder α] [Zero α] [Add α]

/-- A page tells what was counted: every counter that is not zero, the histogram of every worker
with a call, and the gauges, each once. -/
structure Shows (samples : List Sample) (str fixed : α → Text) (buckets : List α)
    (calls : List (MetricsCall α)) (activeTasks queuedTasks : ℕ) : Prop where
  created : ∀ (w : String) (mode : Mode),
    series samples "ai_bridge_tasks_created_total".toList
        [("worker_id".toList, w.toList), ("mode".toList, mode.value.toList)] =
      shown (DefaultDict.tally (calls.filterMap MetricsCall.created?) (w, mode.value))
  completed : ∀ (w : String) (state : TaskState),
    series samples "ai_bridge_tasks_completed_total".toList
        [("worker_id".toList, w.toList), ("state".toList, state.value.toList)] =
      shown (DefaultDict.tally (calls.filterMap MetricsCall.completed?) (w, state.value))
  failures : ∀ w : String,
    series samples "ai_bridge_worker_failures_total".toList [("worker_id".toList, w.toList)] =
      shown (DefaultDict.tally (calls.filterMap MetricsCall.failure?) w)
  opened : ∀ w : String,
    series samples "ai_bridge_circuit_open_total".toList [("worker_id".toList, w.toList)] =
      shown (DefaultDict.tally (calls.filterMap MetricsCall.opened?) w)
  bucket : ∀ (w : String), ∀ b ∈ buckets,
    series samples "ai_bridge_worker_call_seconds_bucket".toList
        [("worker_id".toList, w.toList), ("le".toList, str b)] =
      if durations w (calls.filterMap MetricsCall.timing?) = [] then []
      else [(Nat.repr (atMost (durations w (calls.filterMap MetricsCall.timing?)) b)).toList]
  inf : ∀ w : String,
    series samples "ai_bridge_worker_call_seconds_bucket".toList
        [("worker_id".toList, w.toList), ("le".toList, "+Inf".toList)] =
      shown (durations w (calls.filterMap MetricsCall.timing?)).length
  count : ∀ w : String,
    series samples "ai_bridge_worker_call_seconds_count".toList [("worker_id".toList, w.toList)] =
      shown (durations w (calls.filterMap MetricsCall.timing?)).length
  sum : ∀ w : String,
    series samples "ai_bridge_worker_call_seconds_sum".toList [("worker_id".toList, w.toList)] =
      if durations w (calls.filterMap MetricsCall.timing?) = [] then []
      else [fixed ((durations w (calls.filterMap MetricsCall.timing?)).foldl (· + ·) 0)]
  active : series samples "ai_bridge_active_tasks".toList [] = [(Nat.repr activeTasks).toList]
  queued : series samples "ai_bridge_queued_tasks".toList [] = [(Nat.repr queuedTasks).toList]

namespace MetricsDicts

variable {metrics : MetricsDicts α} {str fixed : α → Text} {activeTasks queuedTasks : ℕ}
  {buckets : List α} {calls : List (MetricsCall α)}

omit [Add α] in
theorem series_samples (name : Text) (labels : List (Text × Text)) :
    series (metrics.samples str fixed activeTasks queuedTasks) name labels =
      series ((sortedPairs metrics.tasksCreated).map
        (keyedSample "ai_bridge_tasks_created_total" "mode")) name labels ++
      (series ((sortedPairs metrics.tasksCompleted).map
        (keyedSample "ai_bridge_tasks_completed_total" "state")) name labels ++
      (series ((sortedWorkers metrics.workerFailures).map
        (workerSample "ai_bridge_worker_failures_total")) name labels ++
      (series ((sortedWorkers metrics.circuitOpen).map
        (workerSample "ai_bridge_circuit_open_total")) name labels ++
      (series (metrics.calls.render.1.map (MetricLine.sample str fixed)) name labels ++
      (series [gaugeSample "ai_bridge_active_tasks" activeTasks] name labels ++
        series [gaugeSample "ai_bridge_queued_tasks" queuedTasks] name labels))))) := by
  unfold samples
  rw [← List.singleton_append, ← List.append_assoc]
  simp only [series_append, List.append_assoc]

omit [LinearOrder α] [Zero α] [Add α] in
theorem series_gauge_other {name : String} {name' : Text} (hne : ¬ name.toList = name') (value : ℕ)
    (labels : List (Text × Text)) : series [gaugeSample name value] name' labels = [] :=
  series_cons_neg fun he => absurd he hne

theorem series_timing (h : metrics.calls.Records buckets (calls.filterMap MetricsCall.timing?))
    (name : Text) (w : String) (rest : List (Text × Text)) :
    series (metrics.calls.render.1.map (MetricLine.sample str fixed)) name
        (("worker_id".toList, w.toList) :: rest) =
      if durations w (calls.filterMap MetricsCall.timing?) = [] then []
      else series ((histogram buckets w (durations w (calls.filterMap MetricsCall.timing?))).map
        (MetricLine.sample str fixed)) name (("worker_id".toList, w.toList) :: rest) := by
  rw [series_worker, h.lines]
  split <;> rfl

theorem sortedPairs_perm (d : DefaultDict (String × String) ℕ) : (sortedPairs d).Perm d.items :=
  List.mergeSort_perm _ _

theorem sortedWorkers_perm (d : DefaultDict String ℕ) : (sortedWorkers d).Perm d.items :=
  List.mergeSort_perm _ _

section Families

variable {d : DefaultDict (String × String) ℕ} {keys : List (String × String)}
  {d' : DefaultDict String ℕ} {keys' : List String} {name : String}

theorem series_pairs (h : d.Tallies keys) (name second w value : String) :
    series ((sortedPairs d).map (keyedSample name second)) name.toList
        [("worker_id".toList, w.toList), (second.toList, value.toList)] =
      shown (DefaultDict.tally keys (w, value)) :=
  series_map h (sortedPairs_perm d) (fun _ => rfl) (keyed_injective second.toList) (w, value)

theorem series_pairs_other {name' : Text} (hne : ¬ name.toList = name') (second : String)
    (labels : List (Text × Text)) :
    series ((sortedPairs d).map (keyedSample name second)) name' labels = [] := by
  refine series_map_other ?_ hne labels
  exact fun _ => rfl

theorem series_workers (h : d'.Tallies keys') (name w : String) :
    series ((sortedWorkers d').map (workerSample name)) name.toList
        [("worker_id".toList, w.toList)] = shown (DefaultDict.tally keys' w) :=
  series_map h (sortedWorkers_perm d') (fun _ => rfl) worker_injective w

theorem series_workers_other {name' : Text} (hne : ¬ name.toList = name')
    (labels : List (Text × Text)) :
    series ((sortedWorkers d').map (workerSample name)) name' labels = [] := by
  refine series_map_other ?_ hne labels
  exact fun _ => rfl

end Families

theorem Holds.shows (h : Holds buckets calls metrics) (hnodup : buckets.Nodup)
    (hfloats : FloatTexts str fixed) (activeTasks queuedTasks : ℕ) :
    Shows (metrics.samples str fixed activeTasks queuedTasks) str fixed buckets calls activeTasks
      queuedTasks := by
  -- Only the lines of the histogram have the names of the histogram.
  have htimings : ∀ (name : Text) (labels : List (Text × Text)),
      ¬ "ai_bridge_tasks_created_total".toList = name →
      ¬ "ai_bridge_tasks_completed_total".toList = name →
      ¬ "ai_bridge_worker_failures_total".toList = name →
      ¬ "ai_bridge_circuit_open_total".toList = name →
      ¬ "ai_bridge_active_tasks".toList = name → ¬ "ai_bridge_queued_tasks".toList = name →
      series (metrics.samples str fixed activeTasks queuedTasks) name labels =
        series (metrics.calls.render.1.map (MetricLine.sample str fixed)) name labels := by
    intro name labels hcreated hcompleted hfailures hopened hactive hqueued
    rw [series_samples, series_pairs_other hcreated, series_pairs_other hcompleted,
      series_workers_other hfailures, series_workers_other hopened, series_gauge_other hactive,
      series_gauge_other hqueued]
    exact List.append_nil _
  have hshown : ∀ seconds : List α,
      (if seconds = [] then [] else [(Nat.repr seconds.length).toList]) = shown seconds.length := by
    intro seconds
    cases seconds <;> rfl
  refine ⟨?_, ?_, ?_, ?_, ?_, ?_, ?_, ?_, ?_, ?_⟩
  · intro w mode
    rw [series_samples, series_pairs h.created, series_pairs_other (by decide),
      series_workers_other (by decide), series_workers_other (by decide),
      series_timings_other (by decide) (by decide) (by decide), series_gauge_other (by decide),
      series_gauge_other (by decide)]
    exact List.append_nil _
  · intro w state
    rw [series_samples, series_pairs_other (by decide), series_pairs h.completed,
      series_workers_other (by decide), series_workers_other (by decide),
      series_timings_other (by decide) (by decide) (by decide), series_gauge_other (by decide),
      series_gauge_other (by decide)]
    exact List.append_nil _
  · intro w
    rw [series_samples, series_pairs_other (by decide), series_pairs_other (by decide),
      series_workers h.failures, series_workers_other (by decide),
      series_timings_other (by decide) (by decide) (by decide), series_gauge_other (by decide),
      series_gauge_other (by decide)]
    exact List.append_nil _
  · intro w
    rw [series_samples, series_pairs_other (by decide), series_pairs_other (by decide),
      series_workers_other (by decide), series_workers h.opened,
      series_timings_other (by decide) (by decide) (by decide), series_gauge_other (by decide),
      series_gauge_other (by decide)]
    exact List.append_nil _
  · intro w b hb
    rw [htimings _ _ (by decide) (by decide) (by decide) (by decide) (by decide) (by decide),
      series_timing h.timings, series_bucket hfloats hnodup hb]
  · intro w
    rw [htimings _ _ (by decide) (by decide) (by decide) (by decide) (by decide) (by decide),
      series_timing h.timings, series_inf hfloats, hshown]
  · intro w
    rw [htimings _ _ (by decide) (by decide) (by decide) (by decide) (by decide) (by decide),
      series_timing h.timings, series_count, hshown]
  · intro w
    rw [htimings _ _ (by decide) (by decide) (by decide) (by decide) (by decide) (by decide),
      series_timing h.timings, series_sum]
  · rw [series_samples, series_pairs_other (by decide), series_pairs_other (by decide),
      series_workers_other (by decide), series_workers_other (by decide),
      series_timings_other (by decide) (by decide) (by decide),
      series_gauge_other (show ¬ "ai_bridge_queued_tasks".toList = _ by decide)]
    simp only [List.nil_append, List.append_nil]
    exact series_cons_pos rfl rfl
  · rw [series_samples, series_pairs_other (by decide), series_pairs_other (by decide),
      series_workers_other (by decide), series_workers_other (by decide),
      series_timings_other (by decide) (by decide) (by decide),
      series_gauge_other (show ¬ "ai_bridge_active_tasks".toList = _ by decide)]
    simp only [List.nil_append]
    exact series_cons_pos rfl rfl

omit [Add α] in
theorem new_ok (h : new buckets = .ok metrics) :
    metrics = ⟨.empty, .empty, .empty, .empty, ⟨.empty, .empty, .empty, buckets⟩⟩ ∧
      buckets.Nodup := by
  unfold new at h
  cases hcalls : CallSeconds.new buckets with
  | error exc =>
    rw [hcalls] at h
    cases h
  | ok calls =>
    rw [hcalls] at h
    cases h
    obtain ⟨rfl, -, hsorted⟩ := (CallSeconds.new_ok_iff buckets calls).mp hcalls
    exact ⟨rfl, (List.pairwise_cons.mp hsorted).2.imp ne_of_lt⟩

theorem holds_new (h : new buckets = .ok metrics) : Holds buckets [] metrics := by
  obtain ⟨rfl, -⟩ := new_ok h
  exact ⟨DefaultDict.tallies_empty, DefaultDict.tallies_empty, DefaultDict.tallies_empty,
    DefaultDict.tallies_empty, ⟨rfl, fun _ => rfl, fun _ => rfl, fun _ => rfl, fun _ _ _ => rfl⟩⟩

/-- The counters of the bridge are those of the page. -/
structure Counts (metrics : MetricsDicts α) (registry : MetricsRegistry) : Prop where
  created : ∀ w (mode : Mode),
    registry.tasksCreated (w, mode) = metrics.tasksCreated.get (w, mode.value)
  completed : ∀ w (state : TaskState),
    registry.tasksCompleted (w, state) = metrics.tasksCompleted.get (w, state.value)
  failures : ∀ w, registry.workerFailures w = metrics.workerFailures.get w
  opened : ∀ w, registry.circuitOpen w = metrics.circuitOpen.get w
  calls : metrics.calls.Counts registry

/-- A call of a method, on the counters of the bridge. -/
def count (registry : MetricsRegistry) : MetricsCall α → MetricsRegistry
  | .incTaskCreated workerId mode => registry.incTaskCreated workerId mode
  | .incTaskCompleted workerId state => registry.incTaskCompleted workerId state
  | .incWorkerFailure workerId => registry.incWorkerFailure workerId
  | .incCircuitOpen workerId => registry.incCircuitOpen workerId
  | .observeWorkerCall workerId _ => registry.observeWorkerCall workerId
  | .render => registry

omit [LinearOrder α] [Zero α] [Add α] in
theorem get_bump {κ κ' : Type*} [DecidableEq κ] [DecidableEq κ'] {d : DefaultDict κ' ℕ}
    {counter : κ → ℕ} {f : κ → κ'} (hf : Function.Injective f) (h : ∀ k, counter k = d.get (f k))
    (key k : κ) : MetricsRegistry.bump counter key k = (d.modify (f key) (· + 1)).get (f k) := by
  rw [MetricsRegistry.bump_apply, DefaultDict.get_modify, h]
  by_cases hk : key = k
  · rw [if_pos hk, hk, if_pos rfl]
  · rw [if_neg hk, if_neg (hf.ne hk), Nat.add_zero]

theorem Counts.step {registry : MetricsRegistry} (h : metrics.Counts registry)
    (call : MetricsCall α) : (metrics.step call).Counts (count registry call) := by
  cases call with
  | incTaskCreated workerId mode =>
    refine { h with created := ?_ }
    have hkey : Function.Injective fun key : String × Mode => (key.1, key.2.value) :=
      Function.injective_id.prodMap Mode.value_injective
    exact fun w m => get_bump hkey (fun key => h.created key.1 key.2) (workerId, mode) (w, m)
  | incTaskCompleted workerId state =>
    refine { h with completed := ?_ }
    have hkey : Function.Injective fun key : String × TaskState => (key.1, key.2.value) :=
      Function.injective_id.prodMap TaskState.value_injective
    exact fun w s => get_bump hkey (fun key => h.completed key.1 key.2) (workerId, state) (w, s)
  | incWorkerFailure workerId =>
    exact { h with failures := get_bump Function.injective_id h.failures workerId }
  | incCircuitOpen workerId =>
    exact { h with opened := get_bump Function.injective_id h.opened workerId }
  | observeWorkerCall workerId seconds =>
    exact { h with calls := h.calls.observe workerId seconds }
  | render =>
    refine { h with calls := fun w => (h.calls w).trans ?_ }
    exact congrArg (DefaultDict.get · w) (CallSeconds.render_same metrics.calls).calls.symm

theorem Counts.run {registry : MetricsRegistry} (h : metrics.Counts registry)
    (calls : List (MetricsCall α)) : (metrics.run calls).Counts (calls.foldl count registry) := by
  induction calls generalizing metrics registry with
  | nil => exact h
  | cons call rest ih => exact ih (h.step call)

end MetricsDicts

/-- After any calls of its methods, with ids that a configuration accepts, the page that a registry
renders can be read, and tells what was counted. -/
theorem metrics_read_back {str fixed : α → Text} (hfloats : FloatTexts str fixed)
    {buckets : List α} {metrics : MetricsDicts α} (hnew : MetricsDicts.new buckets = .ok metrics)
    (calls : List (MetricsCall α))
    (hids : ∀ call ∈ calls, ∀ w ∈ call.workerId?, isWorkerId w = true)
    (activeTasks queuedTasks : ℕ) :
    ∃ samples, Exposition.read
        ((metrics.run calls).render str fixed activeTasks queuedTasks).1 = some samples ∧
      Shows samples str fixed buckets calls activeTasks queuedTasks := by
  have hnodup := (MetricsDicts.new_ok hnew).2
  have hholds : MetricsDicts.Holds buckets calls (metrics.run calls) :=
    (MetricsDicts.holds_new hnew).run hnodup calls
  exact ⟨_, MetricsDicts.read_render (hholds.plainly hids) hfloats,
    hholds.shows hnodup hfloats activeTasks queuedTasks⟩

namespace Sample

/-- `str()` and the format `.6f` of a whole number of seconds. -/
def secondsText (n : ℕ) : Text := (Nat.repr n).toList ++ ".0".toList

def secondsFixed (n : ℕ) : Text := (Nat.repr n).toList ++ ".000000".toList

theorem secondsTexts : FloatTexts secondsText secondsFixed := by
  have hdigits : ∀ n, ∀ c ∈ secondsText n, c.isDigit = true ∨ c = '.' := by
    intro n c hc
    have htail : ".0".toList.all (fun c => c.isDigit || c == '.') = true := by decide
    rcases List.mem_append.mp hc with hc | hc
    · exact Or.inl (isDigit_of_mem_repr hc)
    · simpa using List.all_eq_true.mp htail c hc
  refine ⟨?_, ?_, ?_, ?_⟩
  · intro n c hc
    refine ⟨?_, ?_, ?_⟩ <;> (rintro rfl; exact absurd (hdigits n _ hc) (by decide))
  · intro n he
    have hplus : '+' ∈ secondsText n := he ▸ (by decide)
    exact absurd (hdigits n _ hplus) (by decide)
  · intro m n h
    have hrepr := List.append_cancel_right h
    rw [Nat.toList_repr, Nat.toList_repr] at hrepr
    rw [← Nat.ofDigitChars_ten_toDigits (n := m), hrepr, Nat.ofDigitChars_ten_toDigits]
  · intro n
    refine ⟨by simp [secondsFixed], fun c hc => ?_⟩
    have hchar : c.isDigit = true ∨ c = '.' ∨ c = '0' := by
      have htail : ".000000".toList.all (fun c => c.isDigit || (c == '.' || c == '0')) = true := by
        decide
      rcases List.mem_append.mp hc with hc | hc
      · exact Or.inl (isDigit_of_mem_repr hc)
      · simpa using List.all_eq_true.mp htail c hc
    constructor <;> (rintro rfl; exact absurd hchar (by decide))

def metricsCalls : List (MetricsCall ℕ) :=
  [.incTaskCreated "w" .async, .observeWorkerCall "w" 2, .incTaskCompleted "w" .completed, .render,
    .incTaskCreated "w" .async]

end Sample

/-- Two tasks of one worker, after a page that was rendered in between. -/
theorem metrics_read_back_two : ∃ (metrics : MetricsDicts ℕ) (samples : List Sample),
    MetricsDicts.new [1, 5] = .ok metrics ∧
    Exposition.read ((metrics.run Sample.metricsCalls).render Sample.secondsText Sample.secondsFixed
      0 1).1 = some samples ∧
    series samples "ai_bridge_tasks_created_total".toList
      [("worker_id".toList, "w".toList), ("mode".toList, "async".toList)] = [['2']] := by
  obtain ⟨samples, hread, hshows⟩ := metrics_read_back Sample.secondsTexts
    (show MetricsDicts.new [1, 5] = .ok ⟨.empty, .empty, .empty, .empty,
      ⟨.empty, .empty, .empty, [1, 5]⟩⟩ from rfl) Sample.metricsCalls (by decide) 0 1
  exact ⟨_, samples, rfl, hread, hshows.created "w" .async⟩

end WorkerBridge
