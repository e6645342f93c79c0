import Sidetable.Dispatch
import Sidetable.Proofs.Safety

/-!
# Compiling under any schedule

What a module is compiled to does not depend on the order in which its jobs start and stop, as long
as none fails. A run of the loop and its jobs keeps three things: the jobs that were handed over are
in order, what the batch holds is what the jobs report on their own, and with one job at a time the
batch is filled from its front up to the first job that fails.
-/
namespace Sidetable

namespace Dispatch

variable {compile : Bool → Nat → Report} {limit jobs : Nat} {d d' : Dispatch} {m : Move}

def ahead (jobs : Nat) (d : Dispatch) : Nat :=
  if d.left then 0 else 4 * (jobs - d.handed) - if d.ready then 1 else 0

def todo (jobs : Nat) (d : Dispatch) : Nat :=
  d.ahead jobs + 2 * d.waiting.length + d.running.length

structure Reporting (compile : Bool → Nat → Report) : Prop where
  canceled : ∀ job, (compile true job).verdict = .refused .canceled
  safe : ∀ canceled job v, (compile canceled job).verdict ≠ .breach v

/-! ## Jobs in order -/

structure Ordered (limit jobs : Nat) (d : Dispatch) : Prop where
  handed : d.handed ≤ jobs
  ready : d.ready = true → d.left = false ∧ d.handed < jobs
  once : d.underway.Nodup
  below : ∀ job ∈ d.underway, job < d.handed
  few : d.underway.length ≤ limit

theorem stop_settles (compile : Bool → Nat → Report) {job : Nat} (runs : job ∈ d.running) :
    ∃ r, (job, r) ∈ d.batch.running ∧
      d.batch.turn compile (.stop job) =
        Batch.settle { d.batch with running := d.batch.running.filter (·.1 ≠ job) } job r := by
  cases found : d.batch.running.lookup job with
  | none =>
    obtain ⟨⟨_, r⟩, mem, rfl⟩ := List.mem_map.mp runs
    have := List.lookup_eq_none_iff.mp found _ mem
    simp at this
  | some r =>
    obtain ⟨before, after, running, -⟩ := List.lookup_eq_some_iff.mp found
    refine ⟨r, by simp [running], ?_⟩
    simp only [Batch.turn, found]

theorem running_settle (b : Batch) (job : Nat) (r : Report) :
    (b.settle job r).running = b.running := by
  unfold Batch.settle
  split <;> rfl

theorem underway_start {job : Nat} (waits : job ∈ d.waiting) :
    (d.next compile (.turn (.start job))).underway.Perm d.underway := by
  have moved :
      (d.waiting.erase job ++ job :: d.running).Perm (job :: (d.waiting.erase job ++ d.running)) :=
    List.perm_middle
  have back : (job :: (d.waiting.erase job ++ d.running)).Perm (d.waiting ++ d.running) :=
    (List.perm_cons_erase waits).symm.append_right _
  exact moved.trans back

theorem running_stop {job : Nat} (runs : job ∈ d.running) :
    (d.next compile (.turn (.stop job))).running = d.running.filter (· ≠ job) := by
  obtain ⟨r, -, stops⟩ := stop_settles compile runs
  simp only [running, next, stops, running_settle, List.filter_map]
  rfl

theorem underway_stop (compile : Bool → Nat → Report) {job : Nat} (once : d.underway.Nodup)
    (runs : job ∈ d.running) :
    (d.next compile (.turn (.stop job))).underway = d.underway.filter (· ≠ job) := by
  have apart : ∀ i ∈ d.waiting, i ≠ job := by
    rintro i waits rfl
    exact List.disjoint_of_nodup_append once waits runs
  have kept : d.waiting.filter (· ≠ job) = d.waiting := by
    rw [List.filter_eq_self]
    intro i waits
    simpa using apart i waits
  rw [underway, running_stop runs, underway, List.filter_append, kept]
  rfl

theorem Ordered.next (ordered : d.Ordered limit jobs) (enabled : d.Enabled limit jobs m) :
    (d.next compile m).Ordered limit jobs := by
  cases m with
  | look =>
    obtain ⟨stays, unready, more⟩ := enabled
    by_cases canceled : d.batch.canceled = true
    · simp only [Dispatch.next, canceled, if_true]
      constructor
      · exact ordered.handed
      · intro ready
        rw [unready] at ready
        cases ready
      · exact ordered.once
      · exact ordered.below
      · exact ordered.few
    · simp only [Dispatch.next, canceled]
      constructor
      · exact ordered.handed
      · intro _
        exact ⟨stays, more⟩
      · exact ordered.once
      · exact ordered.below
      · exact ordered.few
  | hand =>
    obtain ⟨ready, room⟩ := enabled
    constructor
    · exact (ordered.ready ready).2
    · intro ready'
      cases ready'
    · refine List.nodup_cons.mpr ⟨?_, ordered.once⟩
      intro again
      exact Nat.lt_irrefl _ (ordered.below _ again)
    · intro job mem
      rcases List.mem_cons.mp mem with rfl | mem
      · exact Nat.lt_succ_self _
      · exact Nat.lt_succ_of_lt (ordered.below job mem)
    · exact room
  | turn t =>
    cases t with
    | start job =>
      have perm : (d.next compile (.turn (.start job))).underway.Perm d.underway :=
        underway_start enabled
      constructor
      · exact ordered.handed
      · exact ordered.ready
      · exact perm.nodup_iff.mpr ordered.once
      · intro i mem
        exact ordered.below i (perm.mem_iff.mp mem)
      · exact Nat.le_trans (Nat.le_of_eq perm.length_eq) ordered.few
    | stop job =>
      have rest := underway_stop compile ordered.once enabled
      constructor
      · exact ordered.handed
      · exact ordered.ready
      · rw [rest]
        exact ordered.once.filter _
      · intro i mem
        rw [rest] at mem
        exact ordered.below i (List.mem_of_mem_filter mem)
      · rw [rest]
        exact Nat.le_trans (List.length_filter_le _ _) ordered.few
    | callOff => exact ⟨ordered.handed, ordered.ready, ordered.once, ordered.below, ordered.few⟩

/-! ## What the batch holds -/

/-- What the batch holds comes from what the jobs report. `off` says that the work was called
off. -/
structure Faithful (compile : Bool → Nat → Report) (jobs : Nat) (off : Bool)
    (d : Dispatch) : Prop where
  length : d.batch.functions.length = jobs
  left : d.left = true → d.batch.canceled = true
  breach : d.batch.breach = none
  reports : ∀ job r, (job, r) ∈ d.batch.running →
    r = compile false job ∨ d.batch.canceled = true ∧ r = compile true job
  filled : ∀ i m, d.batch.functions[i]? = some (some m) → (compile false i).verdict = .accepted m
  kept : d.batch.canceled = false → ∀ i < d.handed,
    i ∈ d.underway ∨ ∃ m, d.batch.functions[i]? = some (some m)
  canceled : d.batch.canceled = true → off = true ∨ ∃ e, d.batch.error = some e
  error : ∀ e, d.batch.error = some e → d.batch.canceled = true ∧
    (off = true ∨ ∃ i < jobs, (compile false i).verdict = .refused e)

/-- A job that stops leaves its side table, or it cancels the batch. -/
theorem Faithful.stop_cases {job : Nat} {off : Bool} (reporting : Reporting compile)
    (faithful : d.Faithful compile jobs off) (runs : job ∈ d.running) :
    ∃ r, (job, r) ∈ d.batch.running ∧ ((∃ m, r = compile false job ∧ r.verdict = .accepted m ∧
      (d.next compile (.turn (.stop job))).batch = { d.batch with
        running := d.batch.running.filter (·.1 ≠ job), log := d.batch.log ++ r.log
        functions := d.batch.functions.set job (some m) }) ∨
    ∃ e, (r = compile false job ∨ d.batch.canceled = true) ∧ r.verdict = .refused e ∧
      (d.next compile (.turn (.stop job))).batch = { d.batch with
        running := d.batch.running.filter (·.1 ≠ job), log := d.batch.log ++ r.log
        canceled := true, error := d.batch.error.or (some e) }) := by
  obtain ⟨r, mem, stops⟩ := stop_settles compile runs
  refine ⟨r, mem, ?_⟩
  cases verdict : r.verdict with
  | accepted m =>
    rcases faithful.reports job r mem with own | ⟨-, rfl⟩
    · exact .inl ⟨m, own, rfl, by simp only [Dispatch.next, stops, Batch.settle, verdict]⟩
    · rw [reporting.canceled] at verdict
      cases verdict
  | refused e =>
    have told : r = compile false job ∨ d.batch.canceled = true := by
      rcases faithful.reports job r mem with own | ⟨canceled, -⟩
      · exact .inl own
      · exact .inr canceled
    exact .inr ⟨e, told, rfl, by simp only [Dispatch.next, stops, Batch.settle, verdict]⟩
  | breach v =>
    rcases faithful.reports job r mem with rfl | ⟨-, rfl⟩
    · exact (reporting.safe _ _ _ verdict).elim
    · exact (reporting.safe _ _ _ verdict).elim

theorem Faithful.inside {job : Nat} {off : Bool} (ordered : d.Ordered limit jobs)
    (faithful : d.Faithful compile jobs off) (runs : job ∈ d.running) :
    job < d.batch.functions.length := by
  have := ordered.below job (List.mem_append_right _ runs)
  have := ordered.handed
  rw [faithful.length]
  omega

/-- While nothing has failed, the batch is canceled only if the work was called off. -/
theorem Faithful.first_failure {job : Nat} {r : Report} {off : Bool}
    (faithful : d.Faithful compile jobs off)
    (fine : d.batch.error = none) (told : r = compile false job ∨ d.batch.canceled = true) :
    r = compile false job ∨ off = true := by
  rcases told with own | canceled
  · exact .inl own
  · rcases faithful.canceled canceled with off | ⟨e, failed⟩
    · exact .inr off
    · rw [fine] at failed
      cases failed

theorem Faithful.stop {job : Nat} {off : Bool} (reporting : Reporting compile)
    (ordered : d.Ordered limit jobs)
    (faithful : d.Faithful compile jobs off) (runs : job ∈ d.running) :
    (d.next compile (.turn (.stop job))).Faithful compile jobs off := by
  have rest := underway_stop compile ordered.once runs
  have inside := faithful.inside ordered runs
  rcases faithful.stop_cases reporting runs with
    ⟨r, mem, ⟨m, rfl, verdict, moved⟩ | ⟨e, told, verdict, moved⟩⟩
  · constructor
    · rw [moved, List.length_set]
      exact faithful.length
    · rw [moved]
      exact faithful.left
    · rw [moved]
      exact faithful.breach
    · intro i r' mem'
      rw [moved] at mem' ⊢
      exact faithful.reports i r' (List.mem_of_mem_filter mem')
    · intro i m' found
      rw [moved, List.getElem?_set] at found
      by_cases same : job = i
      · subst same
        simp only [if_true, inside, Option.some.injEq] at found
        rw [verdict, found]
      · rw [if_neg same] at found
        exact faithful.filled i m' found
    · intro going i low
      rw [moved] at going
      rw [rest, moved, List.getElem?_set]
      by_cases same : job = i
      · subst same
        exact .inr ⟨m, by rw [if_pos rfl, if_pos inside]⟩
      · rw [if_neg same]
        rcases faithful.kept going i low with under | done
        · exact .inl (List.mem_filter.mpr ⟨under, decide_eq_true (Ne.symm same)⟩)
        · exact .inr done
    · rw [moved]
      exact faithful.canceled
    · rw [moved]
      exact faithful.error
  · constructor
    · rw [moved]
      exact faithful.length
    · rw [moved]
      intro _
      rfl
    · rw [moved]
      exact faithful.breach
    · intro i r' mem'
      rw [moved] at mem' ⊢
      rcases faithful.reports i r' (List.mem_of_mem_filter mem') with own | ⟨-, told⟩
      · exact .inl own
      · exact .inr ⟨rfl, told⟩
    · rw [moved]
      exact faithful.filled
    · intro going
      rw [moved] at going
      cases going
    · intro _
      rw [moved]
      cases first : d.batch.error with
      | none => exact .inr ⟨e, rfl⟩
      | some e₀ => exact .inr ⟨e₀, rfl⟩
    · intro e' found
      rw [moved] at found ⊢
      refine ⟨rfl, ?_⟩
      cases first : d.batch.error with
      | some e₀ =>
        obtain rfl : e₀ = e' := by simpa [first] using found
        exact (faithful.error e₀ first).2
      | none =>
        obtain rfl : e = e' := by simpa [first] using found
        rcases faithful.first_failure first told with rfl | off
        · exact .inr ⟨job, faithful.length ▸ inside, verdict⟩
        · exact .inl off

theorem Faithful.next {off : Bool} (reporting : Reporting compile) (ordered : d.Ordered limit jobs)
    (faithful : d.Faithful compile jobs off) (enabled : d.Enabled limit jobs m) :
    (d.next compile m).Faithful compile jobs (off || decide (m = .turn .callOff)) := by
  obtain ⟨length, left, breach, reports, filled, kept, canceled, error⟩ := faithful
  cases m with
  | look =>
    rw [decide_eq_false (by simp), Bool.or_false]
    by_cases seen : d.batch.canceled = true
    · simp only [Dispatch.next, seen, if_true]
      exact ⟨length, fun _ => seen, breach, reports, filled, kept, canceled, error⟩
    · simp only [Dispatch.next, seen]
      exact ⟨length, left, breach, reports, filled, kept, canceled, error⟩
  | hand =>
    rw [decide_eq_false (by simp), Bool.or_false]
    refine ⟨length, left, breach, reports, filled, ?_, canceled, error⟩
    intro going i low
    rcases Nat.lt_succ_iff_lt_or_eq.mp low with low | rfl
    · rcases kept going i low with under | done
      · exact .inl (List.mem_cons_of_mem _ under)
      · exact .inr done
    · exact .inl List.mem_cons_self
  | turn t =>
    cases t with
    | start job =>
      rw [decide_eq_false (by simp), Bool.or_false]
      refine ⟨length, left, breach, ?_, filled, ?_, canceled, error⟩
      · intro i r mem
        rcases List.mem_cons.mp mem with eq | mem
        · obtain ⟨rfl, rfl⟩ := Prod.mk.inj eq
          by_cases seen : d.batch.canceled = true
          · exact .inr ⟨seen, by rw [seen]⟩
          · have going : d.batch.canceled = false := by simpa using seen
            exact .inl (by rw [going])
        · exact reports i r mem
      · intro going i low
        rcases kept going i low with under | done
        · exact .inl ((underway_start enabled).mem_iff.mpr under)
        · exact .inr done
    | stop job =>
      rw [decide_eq_false (by simp), Bool.or_false]
      exact Faithful.stop reporting ordered
        ⟨length, left, breach, reports, filled, kept, canceled, error⟩ enabled
    | callOff =>
      rw [decide_eq_true rfl, Bool.or_true]
      refine ⟨length, fun _ => rfl, breach, ?_, filled, ?_, fun _ => .inl rfl,
        fun e _ => ⟨rfl, .inl rfl⟩⟩
      · intro i r mem
        rcases reports i r mem with own | ⟨-, told⟩
        · exact .inl own
        · exact .inr ⟨rfl, told⟩
      · intro going
        cases going

/-! ## One job at a time -/

structure Sequential (compile : Bool → Nat → Report) (jobs : Nat) (d : Dispatch)
    (k : Nat) : Prop where
  last : ∀ job ∈ d.underway, job + 1 = d.handed
  front : ∀ i < k, ∃ m, d.batch.functions[i]? = some (some m)
  back : ∀ i, k ≤ i → i < jobs → d.batch.functions[i]? = some none
  going : d.batch.error = none → d.handed = k + d.underway.length
  stopped : ∀ e, d.batch.error = some e → (k < jobs ∧ (compile false k).verdict = .refused e) ∧
    ∀ job r, (job, r) ∈ d.batch.running → r = compile true job

theorem Sequential.stop {job k : Nat} (reporting : Reporting compile) (ordered : d.Ordered 1 jobs)
    (faithful : d.Faithful compile jobs false) (sequential : d.Sequential compile jobs k)
    (runs : job ∈ d.running) :
    ∃ k', (d.next compile (.turn (.stop job))).Sequential compile jobs k' := by
  have under : job ∈ d.underway := List.mem_append_right _ runs
  have rest := underway_stop compile ordered.once runs
  have inside := faithful.inside ordered runs
  have alone : d.underway = [job] := by
    obtain ⟨other, eq⟩ :=
      List.length_eq_one_iff.mp (Nat.le_antisymm ordered.few (List.length_pos_of_mem under))
    rw [eq, List.mem_singleton] at under
    rw [eq, under]
  have none_left : (d.next compile (.turn (.stop job))).underway = [] := by
    rw [rest, alone]
    simp
  have last : ∀ i ∈ (d.next compile (.turn (.stop job))).underway, i + 1 = d.handed := by
    rw [none_left]
    intro i mem
    cases mem
  have idle : (d.next compile (.turn (.stop job))).batch.running = [] :=
    List.map_eq_nil_iff.mp (List.append_eq_nil_iff.mp none_left).2
  have handed := sequential.last job under
  rcases faithful.stop_cases reporting runs with
    ⟨r, mem, ⟨m, rfl, verdict, moved⟩ | ⟨e, told, verdict, moved⟩⟩
  · have fine : d.batch.error = none := by
      cases first : d.batch.error with
      | none => rfl
      | some e =>
        rw [(sequential.stopped e first).2 _ _ mem, reporting.canceled] at verdict
        cases verdict
    have count := sequential.going fine
    rw [alone, List.length_singleton] at count
    obtain rfl : job = k := by omega
    refine ⟨job + 1, last, ?_, ?_, ?_, ?_⟩
    · intro i low
      rw [moved, List.getElem?_set]
      by_cases same : job = i
      · subst same
        exact ⟨m, by rw [if_pos rfl, if_pos inside]⟩
      · rw [if_neg same]
        exact sequential.front i (by omega)
    · intro i high low
      rw [moved, List.getElem?_set, if_neg (by omega)]
      exact sequential.back i (by omega) low
    · intro _
      rw [none_left]
      exact handed.symm
    · intro e failed
      rw [moved, fine] at failed
      cases failed
  · refine ⟨k, last, ?_, ?_, ?_, ?_⟩
    · rw [moved]
      exact sequential.front
    · rw [moved]
      exact sequential.back
    · intro going
      rw [moved] at going
      simp at going
    · intro e' failed
      refine ⟨?_, by simp [idle]⟩
      rw [moved] at failed
      cases first : d.batch.error with
      | some e₀ =>
        obtain rfl : e₀ = e' := by simpa [first] using failed
        exact (sequential.stopped e₀ first).1
      | none =>
        obtain rfl : e = e' := by simpa [first] using failed
        have count := sequential.going first
        rw [alone, List.length_singleton] at count
        obtain rfl : job = k := by omega
        rcases faithful.first_failure first told with rfl | off
        · exact ⟨faithful.length ▸ inside, verdict⟩
        · cases off

theorem Sequential.next {k : Nat} (reporting : Reporting compile) (ordered : d.Ordered 1 jobs)
    (faithful : d.Faithful compile jobs false) (sequential : d.Sequential compile jobs k)
    (enabled : d.Enabled 1 jobs m) (stays : m ≠ .turn .callOff) :
    ∃ k', (d.next compile m).Sequential compile jobs k' := by
  cases m with
  | look =>
    refine ⟨k, ?_⟩
    by_cases seen : d.batch.canceled = true
    · simp only [Dispatch.next, seen, if_true]
      exact ⟨sequential.last, sequential.front, sequential.back, sequential.going,
        sequential.stopped⟩
    · simp only [Dispatch.next, seen]
      exact ⟨sequential.last, sequential.front, sequential.back, sequential.going,
        sequential.stopped⟩
  | hand =>
    have none_under : d.underway = [] := List.length_eq_zero_iff.mp (Nat.lt_one_iff.mp enabled.2)
    have one : (d.next compile .hand).underway = [d.handed] := by
      have : (d.next compile .hand).underway = d.handed :: d.underway := rfl
      rw [this, none_under]
    refine ⟨k, ?_, sequential.front, sequential.back, ?_, sequential.stopped⟩
    · intro job mem
      rw [one, List.mem_singleton] at mem
      rw [mem]
      rfl
    · intro fine
      have := sequential.going fine
      rw [none_under] at this
      rw [one]
      exact congrArg (· + 1) this
  | turn t =>
    cases t with
    | start job =>
      have perm : (d.next compile (.turn (.start job))).underway.Perm d.underway :=
        underway_start enabled
      refine ⟨k, ?_, sequential.front, sequential.back, ?_, ?_⟩
      · intro i mem
        exact sequential.last i (perm.mem_iff.mp mem)
      · intro fine
        rw [perm.length_eq]
        exact sequential.going fine
      · intro e failed
        refine ⟨(sequential.stopped e failed).1, ?_⟩
        intro i r mem
        rcases List.mem_cons.mp mem with eq | mem
        · obtain ⟨rfl, rfl⟩ := Prod.mk.inj eq
          rw [(faithful.error e failed).1]
        · exact (sequential.stopped e failed).2 i r mem
    | stop job => exact sequential.stop reporting ordered faithful enabled
    | callOff => exact absurd rfl stays

/-! ## Runs -/

theorem todo_next (compile : Bool → Nat → Report) (ordered : d.Ordered limit jobs)
    (enabled : d.Enabled limit jobs m) (stays : m ≠ .turn .callOff) :
    (d.next compile m).todo jobs < d.todo jobs := by
  cases m with
  | look =>
    obtain ⟨inside, unready, more⟩ := enabled
    by_cases seen : d.batch.canceled = true
    · simp only [next, seen, if_true, todo, ahead, inside, unready, running]
      simp only [Bool.false_eq_true, if_false]
      omega
    · simp only [next, seen, todo, ahead, inside, unready, running]
      simp only [Bool.false_eq_true, if_true, if_false]
      omega
  | hand =>
    obtain ⟨ready, -⟩ := enabled
    obtain ⟨inside, more⟩ := ordered.ready ready
    simp only [next, todo, ahead, inside, ready, running, List.length_cons]
    simp only [Bool.false_eq_true, if_true, if_false]
    omega
  | turn t =>
    cases t with
    | start job =>
      have waits : job ∈ d.waiting := enabled
      have := List.length_erase_of_mem waits
      have := List.length_pos_of_mem waits
      have same : (d.next compile (.turn (.start job))).ahead jobs = d.ahead jobs := rfl
      rw [todo, same, todo]
      simp only [next, waitingAfter, Batch.turn, running, List.map_cons, List.length_cons]
      omega
    | stop job =>
      have runs : job ∈ d.running := enabled
      have fewer : (d.running.filter (· ≠ job)).length < d.running.length :=
        List.length_filter_lt_length_iff_exists.mpr ⟨job, runs, by simp⟩
      have same : (d.next compile (.turn (.stop job))).ahead jobs = d.ahead jobs := rfl
      rw [todo, running_stop runs, todo, same]
      simp only [next, waitingAfter]
      omega
    | callOff => exact absurd rfl stays

theorem progress (ordered : d.Ordered limit jobs) (room : 0 < limit) (goes : ¬ d.Over jobs) :
    ∃ m, m ≠ .turn .callOff ∧ d.Enabled limit jobs m := by
  cases runs : d.running with
  | cons job _ => exact ⟨.turn (.stop job), by simp, by simp [Enabled, runs]⟩
  | nil =>
    cases waits : d.waiting with
    | cons job _ => exact ⟨.turn (.start job), by simp, by simp [Enabled, waits]⟩
    | nil =>
      have none_under : d.underway = [] := by rw [underway, waits, runs]; rfl
      have inside : d.left = false ∧ d.handed < jobs := by
        have := ordered.handed
        constructor
        · by_contra left
          exact goes ⟨.inl (by simpa using left), none_under⟩
        · by_contra all
          exact goes ⟨.inr (by omega), none_under⟩
      by_cases ready : d.ready = true
      · refine ⟨.hand, by simp, ready, ?_⟩
        rw [none_under]
        exact room
      · exact ⟨.look, by simp, inside.1, by simpa using ready, inside.2⟩

structure Keeps (compile : Bool → Nat → Report) (limit jobs : Nat) (off : Bool)
    (d : Dispatch) : Prop where
  ordered : d.Ordered limit jobs
  faithful : d.Faithful compile jobs off
  sequential : limit = 1 → off = false → ∃ k, d.Sequential compile jobs k

theorem Keeps.next {off : Bool} (reporting : Reporting compile)
    (keeps : d.Keeps compile limit jobs off) (enabled : d.Enabled limit jobs m) :
    (d.next compile m).Keeps compile limit jobs (off || decide (m = .turn .callOff)) := by
  obtain ⟨ordered, faithful, sequential⟩ := keeps
  refine ⟨ordered.next enabled, faithful.next reporting ordered enabled, ?_⟩
  rintro rfl stays
  obtain ⟨rfl, other⟩ := Bool.or_eq_false_iff.mp stays
  obtain ⟨k, sequential⟩ := sequential rfl rfl
  exact sequential.next reporting ordered faithful enabled (of_decide_eq_false other)

theorem run_cons {moves : List Move} : d.run compile limit jobs (m :: moves) = some d' ↔
    d.Enabled limit jobs m ∧ (d.next compile m).run compile limit jobs moves = some d' := by
  rw [run]
  by_cases enabled : d.Enabled limit jobs m
  · simp [enabled]
  · simp [enabled]

theorem contains_schedule (m : Move) (moves : List Move) :
    (Move.schedule (m :: moves)).contains .callOff =
    (decide (m = .turn .callOff) || (Move.schedule moves).contains .callOff) := by
  cases m with
  | look => simp [Move.schedule]
  | hand => simp [Move.schedule]
  | turn t => cases t <;> simp [Move.schedule]

theorem Keeps.run {off : Bool} {moves : List Move} (reporting : Reporting compile)
    (keeps : d.Keeps compile limit jobs off) (run : d.run compile limit jobs moves = some d') :
    d'.Keeps compile limit jobs (off || (Move.schedule moves).contains .callOff) ∧
      moves.countP (· ≠ .turn .callOff) + d'.todo jobs ≤ d.todo jobs := by
  induction moves generalizing d off with
  | nil =>
    obtain rfl := Option.some.inj run
    simpa [Move.schedule] using keeps
  | cons m rest ih =>
    obtain ⟨enabled, run⟩ := run_cons.mp run
    obtain ⟨keeps', bound⟩ := ih (keeps.next reporting enabled) run
    rw [contains_schedule, ← Bool.or_assoc]
    refine ⟨keeps', ?_⟩
    by_cases other : m = .turn .callOff
    · subst other
      rw [List.countP_cons_of_neg (by simp)]
      exact bound
    · rw [List.countP_cons_of_pos (by simpa using other)]
      have := todo_next compile keeps.ordered enabled other
      omega

theorem run_batch {moves : List Move} (run : d.run compile limit jobs moves = some d') :
    d'.batch = d.batch.run compile (Move.schedule moves) := by
  induction moves generalizing d with
  | nil =>
    obtain rfl := Option.some.inj run
    rfl
  | cons m rest ih =>
    obtain ⟨-, run⟩ := run_cons.mp run
    rw [ih run]
    cases m with
    | look =>
      simp only [next]
      split <;> rfl
    | hand => rfl
    | turn t => rfl

theorem Keeps.start (batch : Batch) (length : batch.functions.length = jobs)
    (empty : ∀ f ∈ batch.functions, f = none)
    (fresh : batch.running = []) (fine : batch.error = none) (safe : batch.breach = none) :
    Keeps compile limit jobs batch.canceled { batch } := by
  have none_under : underway { batch } = [] := by simp [underway, running, fresh]
  have blank : ∀ (i : Nat) (f : Option Metadata), batch.functions[i]? = some f → f = none := by
    intro i f found
    exact empty f (List.mem_of_getElem? found)
  refine ⟨?_, ?_, ?_⟩
  · constructor
    · exact Nat.zero_le jobs
    · intro ready
      cases ready
    · rw [none_under]
      exact List.nodup_nil
    · simp [none_under]
    · simp [none_under]
  · constructor
    · exact length
    · intro left
      cases left
    · exact safe
    · simp [fresh]
    · intro i m found
      cases blank i _ found
    · intro _ i low
      exact absurd low (Nat.not_lt_zero i)
    · exact .inl
    · simp [fine]
  · intro _ _
    refine ⟨0, ?_, ?_, ?_, ?_, ?_⟩
    · simp [none_under]
    · intro i low
      exact absurd low (Nat.not_lt_zero i)
    · intro i _ inside
      rw [← length] at inside
      have found : batch.functions[i]? = some batch.functions[i] := List.getElem?_eq_getElem inside
      rw [found, blank i _ found]
    · simp [none_under]
    · simp [fine]

/-! ## The end of a run -/

section Over

variable {off : Bool} (keeps : d.Keeps compile limit jobs off) (ended : d.Over jobs)
include keeps ended

theorem Keeps.complete (fine : d.batch.error = none) (stays : off = false) :
    ∀ i < jobs, ∃ m, d.batch.functions[i]? = some (some m) := by
  intro i low
  have going : d.batch.canceled = false := by
    by_contra canceled
    rcases keeps.faithful.canceled (by simpa using canceled) with off | ⟨e, failed⟩
    · simp [stays] at off
    · simp [fine] at failed
  have all : d.handed = jobs := by
    rcases ended.1 with left | all
    · simp [keeps.faithful.left left] at going
    · exact all
  rcases keeps.faithful.kept going i (by omega) with under | done
  · simp [ended.2] at under
  · exact done

theorem Keeps.first_failure (single : limit = 1) (stays : off = false) {k : Nat} {e : CompileError}
    (low : k < jobs) (fails : (compile false k).verdict = .refused e)
    (before : ∀ i < k, ∃ m, (compile false i).verdict = .accepted m) :
    d.batch.error = some e ∧ (∀ i < k, ∃ m, d.batch.functions[i]? = some (some m)) ∧
      ∀ i, k ≤ i → i < jobs → d.batch.functions[i]? = some none := by
  obtain ⟨k', sequential⟩ := keeps.sequential single stays
  cases failed : d.batch.error with
  | none =>
    obtain ⟨m, found⟩ := keeps.complete ended failed stays k low
    simp [keeps.faithful.filled k m found] at fails
  | some e' =>
    obtain ⟨⟨-, fails'⟩, -⟩ := sequential.stopped e' failed
    have same : k' = k := by
      rcases Nat.lt_trichotomy k' k with less | same | more
      · obtain ⟨m, accepted⟩ := before k' less
        simp [accepted] at fails'
      · exact same
      · obtain ⟨m, found⟩ := sequential.front k more
        simp [keeps.faithful.filled k m found] at fails
    subst same
    rw [fails] at fails'
    obtain rfl : e = e' := by simpa using fails'
    exact ⟨rfl, sequential.front, sequential.back⟩

end Over

end Dispatch

namespace Module

theorem reporting_report (mod : Module) (opts : Options) :
    Dispatch.Reporting (mod.report opts) := by
  constructor
  · intro job
    rfl
  · intro canceled job v breach
    have proper := mod.proper_compileFunction opts.config canceled (mod.defined job)
    rw [report] at breach
    rw [breach] at proper
    exact proper

theorem compileScheduled_eq (mod : Module) (opts : Options) (schedule : List Turn) {b : Batch}
    (run : b = Batch.run (mod.report opts)
      { functions := mod.code.map fun _ => none, canceled := opts.canceled } schedule)
    (safe : b.breach = none) :
    (mod.compileScheduled opts schedule).breach = none ∧
    (mod.compileScheduled opts schedule).compilation = some { mod, functions := b.functions } ∧
    (mod.compileScheduled opts schedule).problem =
      (b.error.or (if opts.calledOff schedule then some .canceled else none)).map
      CompileError.problem := by
  have same : Batch.run (fun canceled job => mod.compileWith mod.globalInfos opts.config canceled
      (UInt32.ofNat mod.numImportedFuncs + UInt32.ofNat job))
      { functions := mod.code.map fun _ => none, canceled := opts.canceled } schedule = b :=
        run.symm
  unfold compileScheduled
  simp only [same, safe]
  cases b.error with
  | some e => exact ⟨rfl, rfl, rfl⟩
  | none =>
    by_cases off : opts.calledOff schedule = true
    · simp [off]
    · simp [off]

end Module

theorem Options.limit_pos (opts : Options) {processors : Nat} (some : 0 < processors) :
    0 < opts.limit processors := by
  unfold limit
  by_cases positive : 0 < opts.concurrency
  · rw [if_pos positive]
    have : (0 : Int64).toInt < opts.concurrency.toInt := Int64.lt_iff_toInt_lt.mp positive
    simp only [Int64.toInt_zero] at this
    omega
  · rw [if_neg positive]
    exact some

/-- What a build says of `jobs` functions, given what is said of each alone. The work was called off
if `off`. -/
structure Build.Collects (b : Build) (jobs : Nat) (alone : Nat → Verdict) (off : Bool)
    (functions : List (Option Metadata)) : Prop where
  breach : b.breach = none
  length : functions.length = jobs
  success : off = false → (∀ i < jobs, ∃ m, alone i = .accepted m) →
    b.problem = none ∧ ∀ i < jobs, ∃ m, alone i = .accepted m ∧ functions[i]? = some (some m)
  failure : ¬ (off = false ∧ ∀ i < jobs, ∃ m, alone i = .accepted m) → b.problem.isSome
  entry : ∀ i m, functions[i]? = some (some m) → alone i = .accepted m
  gap : ∀ i < jobs, (∀ m, alone i ≠ .accepted m) → functions[i]? = some none

namespace Module

variable {mod : Module} {opts : Options} {processors : Nat} {moves : List Move} {d : Dispatch}

theorem keeps_dispatch (run : mod.dispatch opts processors moves = some d) :
    d.Keeps (mod.report opts) (opts.limit processors) mod.code.length
        (opts.calledOff (Move.schedule moves)) ∧
      moves.countP (· ≠ .turn .callOff) ≤ 4 * mod.code.length := by
  let batch : Batch := { functions := mod.code.map fun _ => none, canceled := opts.canceled }
  have length : batch.functions.length = mod.code.length := List.length_map _
  have empty : ∀ f ∈ batch.functions, f = none := by
    intro f mem
    obtain ⟨_, -, rfl⟩ := List.mem_map.mp mem
    rfl
  obtain ⟨keeps, bound⟩ :=
    (Dispatch.Keeps.start batch length empty rfl rfl rfl).run (mod.reporting_report opts) run
  have all : Dispatch.todo mod.code.length { batch } = 4 * mod.code.length := rfl
  exact ⟨keeps, by omega⟩

/-- A module is compiled to what its functions are compiled to one by one, whatever the number of
processors and the order in which its jobs start and stop. Every run gets on until it is over, in at
most four moves for each function. With one job at a time the functions in front of the first that
fails are there, and no others. -/
theorem schedules_agree (mod : Module) (opts : Options) (some : 0 < processors)
    (run : mod.dispatch opts processors moves = .some d) :
    let jobs := mod.code.length
    let limit := opts.limit processors
    let off := opts.calledOff (Move.schedule moves)
    let alone (i : Nat) := (mod.compileFunction opts.config false (mod.defined i)).verdict
    let build := mod.compileScheduled opts (Move.schedule moves)
    (¬ d.Over jobs → ∃ m, m ≠ .turn .callOff ∧ d.Enabled limit jobs m) ∧
    moves.countP (· ≠ .turn .callOff) ≤ 4 * jobs ∧
    (d.Over jobs → ∃ functions, build.compilation = .some { mod, functions } ∧
      build.Collects jobs alone off functions ∧
      (limit = 1 → off = false → ∀ k < jobs, ∀ e, alone k = .refused e →
        (∀ i < k, ∃ m, alone i = .accepted m) → build.problem = .some e.problem ∧
          (∀ i < k, ∃ m, functions[i]? = .some (.some m)) ∧
          ∀ i, k ≤ i → i < jobs → functions[i]? = .some none)) := by
  intro jobs limit off alone build
  obtain ⟨keeps, bound⟩ := keeps_dispatch run
  refine ⟨Dispatch.progress keeps.ordered (opts.limit_pos some), bound, fun ended => ?_⟩
  obtain ⟨safe, compilation, problem⟩ :=
    mod.compileScheduled_eq opts (Move.schedule moves) (Dispatch.run_batch run)
      keeps.faithful.breach
  have length : d.batch.functions.length = jobs := keeps.faithful.length
  have filled : ∀ i m, d.batch.functions[i]? = .some (.some m) → alone i = .accepted m :=
    keeps.faithful.filled
  refine ⟨d.batch.functions, compilation, ⟨safe, length, ?_, ?_, filled, ?_⟩, ?_⟩
  · intro stays all
    have fine : d.batch.error = none := by
      cases failed : d.batch.error with
      | none => rfl
      | some e =>
        rcases (keeps.faithful.error e failed).2 with called | ⟨i, low, fails⟩
        · exact absurd (called.symm.trans stays) (by simp)
        · obtain ⟨m, accepted⟩ := all i low
          exact absurd (accepted.symm.trans fails) (by simp)
    constructor
    · have kept : opts.calledOff (Move.schedule moves) = false := stays
      simp [build, problem, fine, kept]
    · intro i low
      obtain ⟨m, found⟩ := keeps.complete ended fine stays i low
      exact ⟨m, filled i m found, found⟩
  · intro fails
    by_cases stays : off = false
    · cases failed : d.batch.error with
      | some e => simp [build, problem, failed]
      | none =>
        refine absurd ⟨stays, ?_⟩ fails
        intro i low
        obtain ⟨m, found⟩ := keeps.complete ended failed stays i low
        exact ⟨m, filled i m found⟩
    · have called : opts.calledOff (Move.schedule moves) = true := by simpa [off] using stays
      simp only [build, problem, called, if_true]
      cases d.batch.error <;> rfl
  · intro i low refused
    rw [← length] at low
    cases entry : d.batch.functions[i] with
    | none => rw [List.getElem?_eq_getElem low, entry]
    | some m =>
      refine absurd (filled i m ?_) (refused m)
      rw [List.getElem?_eq_getElem low, entry]
  · intro single stays k low e fails before
    obtain ⟨failed, front, back⟩ := keeps.first_failure ended single stays low fails before
    refine ⟨?_, front, back⟩
    simp [build, problem, failed]

def uneven : Module where
  types := [⟨[], []⟩]
  imports := [⟨"env", "tick", .func 0⟩]
  funcs := [0, 0, 0]
  code := [
    ⟨[], some [0, 0x0b], [0x0b], 1⟩,                       -- end
    ⟨[], some [0, 0x6a, 0x0b], [0x6a, 0x0b], 1⟩,           -- i32.add, end
    ⟨[], some [0, 0x0b], [0x0b], 1⟩]                       -- end

/-- The loop looks before the second job stops, and hands over the third when the batch is
canceled. -/
def unevenMoves : List Move :=
  [.look, .hand, .turn (.start 0), .turn (.stop 0), .look, .hand, .turn (.start 1), .look,
    .turn (.stop 1), .hand, .turn (.start 2), .turn (.stop 2)]

theorem schedules_agree_uneven : ∃ d, uneven.dispatch { concurrency := 1 } 4 unevenMoves = .some d ∧
    d.Over 3 ∧ ∃ functions,
      (uneven.compileScheduled { concurrency := 1 } (Move.schedule unevenMoves)).compilation =
        .some { mod := uneven, functions } ∧
      (uneven.compileScheduled { concurrency := 1 } (Move.schedule unevenMoves)).problem =
        .some (CompileError.rejected 2 ⟨⟨0x6a, 0, .none⟩, 1, 2⟩ (.underflow 2 0)).problem ∧
      (∃ m, functions[0]? = .some (.some m)) ∧ functions[1]? = .some none ∧
      functions[2]? = .some none := by
  have made :
      (uneven.dispatch { concurrency := 1 } 4 unevenMoves).any (fun d => d.Over 3) = true := by
    decide +kernel
  obtain ⟨d, run, ended⟩ := (Option.any_eq_true _ _).mp made
  have ended : d.Over 3 := of_decide_eq_true ended
  obtain ⟨-, -, ends⟩ := schedules_agree uneven { concurrency := 1 } (by decide) run
  obtain ⟨functions, compilation, -, single⟩ := ends ended
  have first : ∃ m, (uneven.compileFunction {} false (uneven.defined 0)).verdict = .accepted m :=
    ⟨⟨[8, 0, 0, 0, 0, 0, 0, 0], [], [], 1, 0, 0, 0, 16, 1, 2⟩, by decide +kernel⟩
  obtain ⟨problem, front, back⟩ := single (by decide) (by decide) 1 (by decide)
    (.rejected 2 ⟨⟨0x6a, 0, .none⟩, 1, 2⟩ (.underflow 2 0)) (by decide +kernel)
    (fun i low => Nat.lt_one_iff.mp low ▸ first)
  exact ⟨d, run, ended, functions, compilation, problem, front 0 (by decide),
    back 1 (by decide) (by decide), back 2 (by decide) (by decide)⟩

end Module
end Sidetable
