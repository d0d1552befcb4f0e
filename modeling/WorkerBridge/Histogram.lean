import WorkerBridge.DefaultDict
import WorkerBridge.Metrics
import Mathlib

namespace WorkerBridge

variable {α : Type*}

/-- The events of a registry.  Reading inserts, so a rendering is one of them. -/
inductive MetricsEvent (α : Type*)
  | observe (workerId : String) (seconds : α)
  | render

def durations (workerId : String) (events : List (MetricsEvent α)) : List α :=
  events.filterMap fun
    | .observe w seconds => if w = workerId then some seconds else none
    | .render => none

theorem durations_append (w : String) (events : List (MetricsEvent α)) (event : MetricsEvent α) :
    durations w (events ++ [event]) = durations w events ++ durations w [event] :=
  List.filterMap_append

theorem durations_observe (w workerId : String) (seconds : α) :
    durations w [.observe workerId seconds] = if workerId = w then [seconds] else [] := by
  unfold durations
  by_cases h : workerId = w <;> simp [h]

variable [LinearOrder α] [Zero α]

/-- The loop of `_validate_buckets`. -/
def checkBuckets (previous : α) : List α → Except PyExc Unit
  | [] => .ok ()
  | bucket :: rest =>
    if bucket ≤ 0 then
      .error (.other "ValueError".toList "worker_call_seconds_buckets must be positive".toList)
    else if bucket ≤ previous then
      .error (.other "ValueError".toList
        "worker_call_seconds_buckets must be strictly increasing".toList)
    else checkBuckets bucket rest

def validateBuckets (buckets : List α) : Except PyExc (List α) :=
  if buckets.isEmpty then
    .error (.other "ValueError".toList "worker_call_seconds_buckets must not be empty".toList)
  else (checkBuckets 0 buckets).map fun _ => buckets

theorem checkBuckets_ok_iff (buckets : List α) (previous : α) (h : 0 ≤ previous) :
    checkBuckets previous buckets = .ok () ↔ (previous :: buckets).Pairwise (· < ·) := by
  induction buckets generalizing previous with
  | nil => simp [checkBuckets]
  | cons bucket rest ih =>
    rw [List.pairwise_cons_cons_iff_of_trans]
    unfold checkBuckets
    by_cases hlt : previous < bucket
    · have hpos : 0 < bucket := lt_of_le_of_lt h hlt
      rw [if_neg (not_le.mpr hpos), if_neg (not_le.mpr hlt), ih bucket hpos.le]
      exact (and_iff_right hlt).symm
    · refine iff_of_false ?_ fun hall => hlt hall.1
      by_cases hpos : bucket ≤ 0
      · rw [if_pos hpos]
        nofun
      · rw [if_neg hpos, if_pos (not_lt.mp hlt)]
        nofun

theorem validateBuckets_ok_iff (buckets accepted : List α) :
    validateBuckets buckets = .ok accepted ↔
      accepted = buckets ∧ buckets ≠ [] ∧ (0 :: buckets).Pairwise (· < ·) := by
  rw [← checkBuckets_ok_iff buckets 0 le_rfl]
  unfold validateBuckets
  cases buckets with
  | nil => simp
  | cons bucket rest =>
    cases hcheck : checkBuckets 0 (bucket :: rest) with
    | error exc => simp [Except.map]
    | ok u => simp [Except.map, eq_comm]

/-- The fields of a `MetricsRegistry` with the durations of the calls. -/
structure CallSeconds (α : Type*) where
  workerCallCount : DefaultDict String ℕ
  workerCallSum : DefaultDict String α
  workerCallBuckets : DefaultDict (String × α) ℕ
  workerCallSecondsBuckets : List α

/-- A line that is rendered.  The bucket `⊤` is the one with the label `+Inf`. -/
inductive MetricLine (α : Type*)
  | bucket (workerId : String) (le : WithTop α) (count : ℕ)
  | count (workerId : String) (count : ℕ)
  | sum (workerId : String) (seconds : α)

namespace MetricLine

variable (str fixed : α → Text)

/-- The text of a line.  `str` is `str()` of a float, and `fixed` its format `.6f`. -/
def text : MetricLine α → Text
  | bucket workerId le n =>
    "ai_bridge_worker_call_seconds_bucket\x7bworker_id=\"".toList ++ workerId.toList ++
      "\",le=\"".toList ++ (le.recTopCoe "+Inf".toList str) ++ "\"\x7d ".toList ++
        (Nat.repr n).toList
  | count workerId n =>
    "ai_bridge_worker_call_seconds_count\x7bworker_id=\"".toList ++ workerId.toList ++
      "\"\x7d ".toList ++ (Nat.repr n).toList
  | sum workerId seconds =>
    "ai_bridge_worker_call_seconds_sum\x7bworker_id=\"".toList ++ workerId.toList ++
      "\"\x7d ".toList ++ fixed seconds

def workerId : MetricLine α → String
  | bucket workerId _ _ => workerId
  | count workerId _ => workerId
  | sum workerId _ => workerId

def bucketCount : MetricLine α → Option ℕ
  | bucket _ _ n => some n
  | count _ _ => none
  | sum _ _ => none

end MetricLine

namespace CallSeconds

/-- `MetricsRegistry(worker_call_seconds_buckets=buckets)`. -/
def new (buckets : List α) : Except PyExc (CallSeconds α) :=
  (validateBuckets buckets).map fun buckets => ⟨.empty, .empty, .empty, buckets⟩

variable (metrics : CallSeconds α)

def observeWorkerCall [Add α] (workerId : String) (seconds : α) : CallSeconds α :=
  { metrics with
    workerCallCount := metrics.workerCallCount.modify workerId (· + 1)
    workerCallSum := metrics.workerCallSum.modify workerId (· + seconds)
    workerCallBuckets := metrics.workerCallSecondsBuckets.foldl (fun counts bucket =>
      if seconds ≤ bucket then counts.modify (workerId, bucket) (· + 1) else counts)
      metrics.workerCallBuckets }

/-- The inner loop of `render`. -/
def renderBuckets (workerId : String) :
    List α → DefaultDict (String × α) ℕ → List (MetricLine α) × DefaultDict (String × α) ℕ
  | [], counts => ([], counts)
  | bucket :: rest, counts =>
    let (count, counts) := counts.read (workerId, bucket)
    let (lines, counts) := renderBuckets workerId rest counts
    (.bucket workerId bucket count :: lines, counts)

def renderWorkers : List (String × ℕ) → CallSeconds α → List (MetricLine α) × CallSeconds α
  | [], metrics => ([], metrics)
  | (workerId, count) :: rest, metrics =>
    let (buckets, counts) :=
      renderBuckets workerId metrics.workerCallSecondsBuckets metrics.workerCallBuckets
    let (seconds, sums) := metrics.workerCallSum.read workerId
    let (lines, metrics) := renderWorkers rest
      { metrics with workerCallSum := sums, workerCallBuckets := counts }
    (buckets ++ [.bucket workerId ⊤ count, .count workerId count, .sum workerId seconds] ++ lines,
      metrics)

/-- `render`, for the lines of `ai_bridge_worker_call_seconds`. -/
def render : List (MetricLine α) × CallSeconds α :=
  renderWorkers (metrics.workerCallCount.items.mergeSort fun a b => decide (a.1 ≤ b.1)) metrics

/-- The lines of a worker with `n` calls. -/
def workerLines (workerId : String) (n : ℕ) : List (MetricLine α) :=
  (metrics.workerCallSecondsBuckets.map fun bucket =>
      .bucket workerId bucket (metrics.workerCallBuckets.get (workerId, bucket))) ++
    [.bucket workerId ⊤ n, .count workerId n, .sum workerId (metrics.workerCallSum.get workerId)]

structure Same (metrics metrics' : CallSeconds α) : Prop where
  calls : metrics'.workerCallCount = metrics.workerCallCount
  sums : ∀ workerId, metrics'.workerCallSum.get workerId = metrics.workerCallSum.get workerId
  counts : ∀ key, metrics'.workerCallBuckets.get key = metrics.workerCallBuckets.get key
  buckets : metrics'.workerCallSecondsBuckets = metrics.workerCallSecondsBuckets

variable {metrics}

theorem Same.workerLines {metrics' : CallSeconds α} (h : Same metrics metrics') :
    metrics'.workerLines = metrics.workerLines := by
  funext workerId n
  unfold CallSeconds.workerLines
  simp only [h.sums, h.counts, h.buckets]

omit [Zero α] in
theorem renderBuckets_spec (workerId : String) (buckets : List α)
    (counts : DefaultDict (String × α) ℕ) :
    (renderBuckets workerId buckets counts).1 =
        buckets.map (fun bucket => .bucket workerId bucket (counts.get (workerId, bucket))) ∧
      ∀ key, (renderBuckets workerId buckets counts).2.get key = counts.get key := by
  induction buckets generalizing counts with
  | nil => exact ⟨rfl, fun _ => rfl⟩
  | cons bucket rest ih =>
    obtain ⟨hlines, hget⟩ := ih (counts.read (workerId, bucket)).2
    constructor
    · show MetricLine.bucket workerId bucket (counts.get (workerId, bucket)) ::
        (renderBuckets workerId rest (counts.read (workerId, bucket)).2).1 = _
      rw [hlines, List.map_cons]
      simp only [DefaultDict.get_read]
    · intro key
      exact (hget key).trans (DefaultDict.get_read counts _ key)

theorem renderWorkers_spec (items : List (String × ℕ)) (metrics : CallSeconds α) :
    (renderWorkers items metrics).1 = items.flatMap (fun item => metrics.workerLines item.1 item.2) ∧
      Same metrics (renderWorkers items metrics).2 := by
  induction items generalizing metrics with
  | nil => exact ⟨rfl, rfl, fun _ => rfl, fun _ => rfl, rfl⟩
  | cons item rest ih =>
    obtain ⟨workerId, n⟩ := item
    obtain ⟨hlines, hget⟩ := renderBuckets_spec workerId metrics.workerCallSecondsBuckets
      metrics.workerCallBuckets
    -- The metrics after the lines of this worker.
    have hsame : Same metrics { metrics with
        workerCallSum := (metrics.workerCallSum.read workerId).2
        workerCallBuckets := (renderBuckets workerId metrics.workerCallSecondsBuckets
          metrics.workerCallBuckets).2 } :=
      ⟨rfl, DefaultDict.get_read _ _, hget, rfl⟩
    obtain ⟨hrest, hafter⟩ := ih { metrics with
        workerCallSum := (metrics.workerCallSum.read workerId).2
        workerCallBuckets := (renderBuckets workerId metrics.workerCallSecondsBuckets
          metrics.workerCallBuckets).2 }
    constructor
    · rw [List.flatMap_cons, ← hsame.workerLines, ← hrest, hsame.workerLines]
      show (renderBuckets workerId _ _).1 ++ _ ++ _ = _
      rw [hlines]
      rfl
    · exact ⟨hafter.calls.trans hsame.calls, fun w => (hafter.sums w).trans (hsame.sums w),
        fun key => (hafter.counts key).trans (hsame.counts key), hafter.buckets.trans hsame.buckets⟩

theorem render_same (metrics : CallSeconds α) : Same metrics metrics.render.2 :=
  (renderWorkers_spec _ metrics).2

theorem workerLines_workerId (metrics : CallSeconds α) (workerId : String) (n : ℕ) :
    ∀ line ∈ metrics.workerLines workerId n, line.workerId = workerId := by
  intro line hline
  rcases List.mem_append.mp hline with hline | hline
  · obtain ⟨bucket, -, rfl⟩ := List.mem_map.mp hline
    rfl
  · simp only [List.mem_cons, List.not_mem_nil, or_false] at hline
    rcases hline with rfl | rfl | rfl <;> rfl

theorem render_of_worker (metrics : CallSeconds α) (workerId : String) :
    metrics.render.1.filter (fun line => decide (line.workerId = workerId)) =
      if metrics.workerCallCount.contains workerId then
        metrics.workerLines workerId (metrics.workerCallCount.get workerId)
      else [] := by
  have hfilter : ∀ item : String × ℕ, (metrics.workerLines item.1 item.2).filter
      (fun line => decide (line.workerId = workerId)) =
        if item.1 = workerId then metrics.workerLines item.1 item.2 else [] := by
    intro item
    have hall := metrics.workerLines_workerId item.1 item.2
    split
    · next he => exact List.filter_eq_self.mpr fun line hl => decide_eq_true ((hall line hl).trans he)
    · next he =>
      refine List.filter_eq_nil_iff.mpr fun line hl => ?_
      rw [hall line hl]
      simpa using he
  have hperm := List.mergeSort_perm metrics.workerCallCount.items
    fun a b => decide (a.1 ≤ b.1)
  have hdistinct := DefaultDict.distinct_of_perm metrics.workerCallCount.distinct hperm
  unfold render
  rw [(renderWorkers_spec _ metrics).1, List.filter_flatMap]
  simp only [hfilter]
  rw [DefaultDict.flatMap_key hdistinct (fun item => metrics.workerLines item.1 item.2),
    DefaultDict.find_of_perm metrics.workerCallCount.distinct hperm]
  unfold DefaultDict.contains DefaultDict.get DefaultDict.find
  cases hfind : Table.find Prod.fst metrics.workerCallCount.items workerId with
  | none => rfl
  | some item =>
    obtain ⟨-, rfl⟩ := Table.mem_of_find hfind
    rfl

end CallSeconds

def atMost (seconds : List α) (bucket : α) : ℕ :=
  seconds.countP fun observed => decide (observed ≤ bucket)

/-- The histogram of the durations of a worker: cumulative counts, up to their number. -/
def histogram [Add α] (buckets : List α) (workerId : String) (seconds : List α) : List (MetricLine α) :=
  (buckets.map fun bucket => .bucket workerId bucket (atMost seconds bucket)) ++
    [.bucket workerId ⊤ seconds.length, .count workerId seconds.length,
      .sum workerId (seconds.foldl (· + ·) 0)]

omit [Zero α] in
theorem atMost_mono (seconds : List α) {bucket bucket' : α} (h : bucket ≤ bucket') :
    atMost seconds bucket ≤ atMost seconds bucket' :=
  List.countP_mono_left fun _ _ hle => decide_eq_true ((of_decide_eq_true hle).trans h)

/-- The counts of a worker with a call of 50 and one of 700 milliseconds. -/
example : [100, 500, 1000].map (atMost [50, 700]) = [1, 1, 2] := by decide

example : (MetricLine.bucket "bob" ⊤ 2 : MetricLine ℚ).text (fun _ => []) (fun _ => []) =
    "ai_bridge_worker_call_seconds_bucket\x7bworker_id=\"bob\",le=\"+Inf\"\x7d 2".toList := by
  decide

theorem histogram_counts [Add α] (buckets : List α) (workerId : String) (seconds : List α) :
    (histogram buckets workerId seconds).filterMap MetricLine.bucketCount =
      buckets.map (atMost seconds) ++ [seconds.length] := by
  unfold histogram
  rw [List.filterMap_append, List.filterMap_map]
  congr 1
  exact congrFun List.filterMap_eq_map buckets

namespace CallSeconds

variable [Add α]

def step (metrics : CallSeconds α) : MetricsEvent α → CallSeconds α
  | .observe workerId seconds => metrics.observeWorkerCall workerId seconds
  | .render => metrics.render.2

def run (metrics : CallSeconds α) (events : List (MetricsEvent α)) : CallSeconds α :=
  events.foldl step metrics

/-- What the counters hold after the events. -/
structure Records (buckets : List α) (events : List (MetricsEvent α)) (metrics : CallSeconds α) :
    Prop where
  validated : metrics.workerCallSecondsBuckets = buckets
  known : ∀ w, metrics.workerCallCount.contains w = !(durations w events).isEmpty
  calls : ∀ w, metrics.workerCallCount.get w = (durations w events).length
  sums : ∀ w, metrics.workerCallSum.get w = (durations w events).foldl (· + ·) 0
  counts : ∀ w, ∀ bucket ∈ buckets,
    metrics.workerCallBuckets.get (w, bucket) = atMost (durations w events) bucket

variable {buckets : List α} {events : List (MetricsEvent α)} {metrics : CallSeconds α}

omit [Zero α] [Add α] in
theorem foldl_buckets (workerId w : String) (seconds bucket : α) (hnodup : buckets.Nodup)
    (counts : DefaultDict (String × α) ℕ) :
    (buckets.foldl (fun counts bucket =>
        if seconds ≤ bucket then counts.modify (workerId, bucket) (· + 1) else counts) counts).get
        (w, bucket) =
      counts.get (w, bucket) +
        if workerId = w ∧ seconds ≤ bucket ∧ bucket ∈ buckets then 1 else 0 := by
  -- A bucket is counted once, as they are all different.
  induction buckets generalizing counts with
  | nil => simp
  | cons b rest ih =>
    obtain ⟨hb, hrest⟩ := List.nodup_cons.mp hnodup
    have hget : (if seconds ≤ b then counts.modify (workerId, b) (· + 1) else counts).get
        (w, bucket) = counts.get (w, bucket) +
          if workerId = w ∧ seconds ≤ bucket ∧ bucket = b then 1 else 0 := by
      by_cases hle : seconds ≤ b
      · rw [if_pos hle, DefaultDict.get_modify]
        by_cases hkey : (workerId, b) = (w, bucket)
        · obtain ⟨rfl, rfl⟩ := Prod.mk.inj hkey
          simp [hle]
        · rw [if_neg hkey, if_neg, Nat.add_zero]
          rintro ⟨rfl, -, rfl⟩
          exact hkey rfl
      · rw [if_neg hle, if_neg, Nat.add_zero]
        rintro ⟨-, hle', rfl⟩
        exact hle hle'
    rw [List.foldl_cons, ih hrest, hget]
    by_cases he : bucket = b
    · subst he
      simp [hb]
    · simp [he]

theorem Records.step (h : Records buckets events metrics) (hnodup : buckets.Nodup)
    (event : MetricsEvent α) : Records buckets (events ++ [event]) (metrics.step event) := by
  cases event with
  | observe workerId seconds =>
    have happend : ∀ w, durations w (events ++ [.observe workerId seconds]) =
        durations w events ++ if workerId = w then [seconds] else [] := by
      intro w
      rw [durations_append, durations_observe]
    refine ⟨h.validated, fun w => ?_, fun w => ?_, fun w => ?_, fun w bucket hbucket => ?_⟩
    · show (metrics.workerCallCount.modify workerId (· + 1)).contains w = _
      rw [DefaultDict.contains_modify, h.known, happend]
      by_cases hw : workerId = w <;> simp [hw]
    · show (metrics.workerCallCount.modify workerId (· + 1)).get w = _
      rw [DefaultDict.get_modify, h.calls, h.calls, happend]
      by_cases hw : workerId = w <;> simp [hw]
    · show (metrics.workerCallSum.modify workerId (· + seconds)).get w = _
      rw [DefaultDict.get_modify, h.sums, h.sums, happend]
      by_cases hw : workerId = w <;> simp [hw]
    · show DefaultDict.get (metrics.workerCallSecondsBuckets.foldl _ _) (w, bucket) = _
      rw [h.validated, foldl_buckets workerId w seconds bucket hnodup, h.counts w bucket hbucket,
        happend, atMost, atMost, List.countP_append]
      by_cases hw : workerId = w <;> by_cases hle : seconds ≤ bucket <;> simp [hw, hle, hbucket]
  | render =>
    have hsame := render_same metrics
    have happend : ∀ w, durations w (events ++ [.render]) = durations w events := by
      intro w
      rw [durations_append]
      exact List.append_nil _
    refine ⟨hsame.buckets.trans h.validated, fun w => ?_, fun w => ?_, fun w => ?_,
      fun w bucket hbucket => ?_⟩
    · rw [happend, ← h.known]
      exact congrArg (DefaultDict.contains · w) hsame.calls
    · rw [happend, ← h.calls]
      exact congrArg (DefaultDict.get · w) hsame.calls
    · rw [happend, ← h.sums]
      exact hsame.sums w
    · rw [happend, ← h.counts w bucket hbucket]
      exact hsame.counts _

theorem Records.run {before : List (MetricsEvent α)} (h : Records buckets before metrics)
    (hnodup : buckets.Nodup) (events : List (MetricsEvent α)) :
    Records buckets (before ++ events) (metrics.run events) := by
  induction events generalizing before metrics with
  | nil => simpa [CallSeconds.run] using h
  | cons event rest ih =>
    have hrest := ih (h.step hnodup event)
    rwa [List.append_assoc] at hrest

omit [Add α] in
theorem new_ok_iff (buckets : List α) (metrics : CallSeconds α) :
    new buckets = .ok metrics ↔ metrics = ⟨.empty, .empty, .empty, buckets⟩ ∧
      buckets ≠ [] ∧ (0 :: buckets).Pairwise (· < ·) := by
  unfold new
  constructor
  · intro h
    cases hv : validateBuckets buckets with
    | error exc =>
      rw [hv] at h
      cases h
    | ok accepted =>
      rw [hv] at h
      cases h
      obtain ⟨rfl, hrest⟩ := (validateBuckets_ok_iff buckets accepted).mp hv
      exact ⟨rfl, hrest⟩
  · rintro ⟨rfl, hrest⟩
    rw [(validateBuckets_ok_iff buckets buckets).mpr ⟨rfl, hrest⟩]
    rfl

theorem Records.lines (h : Records buckets events metrics) (w : String) :
    metrics.render.1.filter (fun line => decide (line.workerId = w)) =
      if durations w events = [] then [] else histogram buckets w (durations w events) := by
  rw [render_of_worker, h.known]
  by_cases hd : durations w events = []
  · simp [hd]
  · rw [if_neg hd, if_pos (by simpa using hd)]
    unfold workerLines histogram
    rw [h.validated, h.calls, h.sums]
    congr 1
    exact List.map_congr_left fun bucket hbucket => by rw [h.counts w bucket hbucket]

end CallSeconds

variable [Add α]

/-- After any observations and renderings, the lines of a worker are the histogram of its durations:
the counts do not decrease along the buckets, and none exceeds the number of durations. -/
theorem histogram_well_formed (buckets : List α) (hne : buckets ≠ [])
    (hincreasing : (0 :: buckets).Pairwise (· < ·)) :
    ∃ metrics, CallSeconds.new buckets = .ok metrics ∧
      ∀ (events : List (MetricsEvent α)) (w : String),
        let seconds := durations w events
        let lines := (metrics.run events).render.1.filter fun line => decide (line.workerId = w)
        lines = (if seconds = [] then [] else histogram buckets w seconds) ∧
        (lines.filterMap MetricLine.bucketCount).Pairwise (· ≤ ·) ∧
        ∀ n ∈ lines.filterMap MetricLine.bucketCount, n ≤ seconds.length := by
  have hnew := (CallSeconds.new_ok_iff buckets ⟨.empty, .empty, .empty, buckets⟩).mpr
    ⟨rfl, hne, hincreasing⟩
  refine ⟨_, hnew, fun events w => ?_⟩
  have hsorted := (List.pairwise_cons.mp hincreasing).2
  have hstart : CallSeconds.Records buckets []
      (⟨.empty, .empty, .empty, buckets⟩ : CallSeconds α) :=
    ⟨rfl, fun _ => rfl, fun _ => rfl, fun _ => rfl, fun _ _ _ => rfl⟩
  have hlines := (hstart.run (hsorted.imp ne_of_lt) events).lines w
  intro seconds lines
  replace hlines : lines = if seconds = [] then [] else histogram buckets w seconds := hlines
  refine ⟨hlines, ?_⟩
  rw [hlines]
  by_cases hnone : seconds = []
  · simp [hnone]
  · rw [if_neg hnone, histogram_counts]
    have hle : ∀ bucket, atMost seconds bucket ≤ seconds.length := fun _ => List.countP_le_length
    constructor
    · refine List.pairwise_append.mpr ⟨?_, List.pairwise_singleton _ _, ?_⟩
      · exact List.pairwise_map.mpr (hsorted.imp fun hlt => atMost_mono seconds hlt.le)
      · intro n hn m hm
        obtain ⟨bucket, -, rfl⟩ := List.mem_map.mp hn
        exact List.mem_singleton.mp hm ▸ hle bucket
    · intro n hn
      rcases List.mem_append.mp hn with hn | hn
      · obtain ⟨bucket, -, rfl⟩ := List.mem_map.mp hn
        exact hle bucket
      · exact (List.mem_singleton.mp hn).le

/-- The buckets of a second and of ten. -/
theorem histogram_of_seconds :
    ∃ metrics : CallSeconds ℚ, CallSeconds.new [1, 10] = .ok metrics ∧
      ∀ (events : List (MetricsEvent ℚ)) (w : String),
        let seconds := durations w events
        let lines := (metrics.run events).render.1.filter fun line => decide (line.workerId = w)
        lines = (if seconds = [] then [] else histogram [1, 10] w seconds) ∧
        (lines.filterMap MetricLine.bucketCount).Pairwise (· ≤ ·) ∧
        ∀ n ∈ lines.filterMap MetricLine.bucketCount, n ≤ seconds.length :=
  histogram_well_formed [1, 10] (by decide) (by decide)

def CallSeconds.Counts (metrics : CallSeconds α) (registry : MetricsRegistry) : Prop :=
  ∀ w, registry.workerCallCount w = metrics.workerCallCount.get w

theorem CallSeconds.Counts.observe {metrics : CallSeconds α} {registry : MetricsRegistry}
    (h : metrics.Counts registry) (workerId : String) (seconds : α) :
    (metrics.observeWorkerCall workerId seconds).Counts (registry.observeWorkerCall workerId) := by
  intro w
  show _ = (metrics.workerCallCount.modify workerId (· + 1)).get w
  rw [MetricsRegistry.workerCallCount_observe, DefaultDict.get_modify, h w]
  split
  · next hw => rw [hw]
  · rfl

end WorkerBridge
