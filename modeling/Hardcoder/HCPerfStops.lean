import Hardcoder.HCPerfAssertions

/-! A stop removes the task that its hash code was handed out for, and reports it once,
as long as two tasks of one hash code leave the list together. -/

namespace Hardcoder.HCPerfRunnable
open HCPerfManager Runs
set_option autoImplicit false

section Stops
variable (vm : Machine)

/-- The task was stopped, or its time is over. -/
def Thread.Gone (r : Thread) (rd : Readings) (t : Nat) : Prop :=
  t ∈ r.stopped ∨ (r.sys.task t).stopTime ≤ rd.scan t

instance (r : Thread) (rd : Readings) (t : Nat) : Decidable (r.Gone rd t) :=
  inferInstanceAs (Decidable (_ ∨ _))

/-- A stop of the task's hash code is put into the queue, and kept when it is taken from it. -/
def Thread.Stoppable (r : Thread) (t : Nat) : Prop :=
  vm.hashCode t ≠ 0 ∧ vm.hashCode t ∈ r.sys.setStartedTask

/-- What the pass from `r` to `r'` owes to the stops that were taken from the queue. -/
structure Exact (rd : Readings) (r r' : Thread) : Prop where
  running : r'.running = true
  list : r'.sys.listStartTask = r.sys.listStartTask.filter fun t => ¬ r.Gone rd t
  reported : ∀ t, (HCPerfRunnable.reports r'.objectQueue).count t = if t ∈ r.stopped then 1 else 0
  idle : ∀ t ∈ r.stopped, t ∉ r'.sys.currBindCore ∧ ∀ k, r'.sys.curr k ≠ some t
  others : ∀ t, t ∉ r.stopped → r'.sys.task t = r.sys.task t
  stoppable : ∀ t ∈ r'.sys.listStartTask, r'.Stoppable vm t
  empty : r'.sys.setStopTask = []

/-- The pass that the action makes is exact. -/
def ExactStops (r : Thread) : Action → Prop
  | .loop polled rd =>
    r.running = true → Exact vm rd (r.taking vm polled) ((r.taking vm polled).pass vm rd)
  | _ => True

/-- Two tasks of one hash code stay in the list or leave it together, and not both because
they were stopped; a task that stays has a hash code that can be stopped. -/
structure Thread.Apart (r : Thread) (rd : Readings) : Prop where
  stopped : ∀ t ∈ r.sys.listStartTask, ∀ u ∈ r.sys.listStartTask,
    vm.hashCode t = vm.hashCode u → t ∈ r.stopped → u ∈ r.stopped → t = u
  gone : ∀ t ∈ r.sys.listStartTask, ∀ u ∈ r.sys.listStartTask,
    vm.hashCode t = vm.hashCode u → r.Gone rd t → r.Gone rd u
  hashCode : ∀ t ∈ r.sys.listStartTask, ¬ r.Gone rd t → vm.hashCode t ≠ 0

/-- No assertion fails in the pass that the action makes, and hash codes tell its tasks apart. -/
def Clear (r : Thread) : Action → Prop
  | .loop polled rd =>
    r.running = true → Safe vm r (.loop polled rd) ∧ (r.taking vm polled).Apart vm rd
  | _ => True

/-- What holds while the loop takes elements from the queue. -/
structure Tracked (r : Thread) : Prop where
  valid : Valid r
  started : ∀ h, h ∈ r.sys.setStartedTask ↔ ∃ t ∈ r.sys.listStartTask, vm.hashCode t = h
  stops : ∀ h, h ∈ r.sys.setStopTask ↔
    ∃ t ∈ r.sys.listStartTask, t ∈ r.stopped ∧ vm.hashCode t = h
  order : r.sys.listStartTask.Pairwise fun t u =>
    vm.hashCode t = vm.hashCode u → u ∈ r.stopped → t ∈ r.stopped
  queued : ∀ t ∈ r.stopped, t ∉ tasks r.sys.taskQueue
  made : ∀ t ∈ r.stopped, t < r.sys.made
  reported : ∀ t, (reports r.objectQueue).count t =
    if t ∈ r.stopped ∧ t ∉ r.sys.listStartTask then 1 else 0

/-- What holds at the head of the loop. -/
structure AtHead (r : Thread) : Prop where
  tracked : Tracked vm r
  running : r.running = true
  empty : r.sys.setStopTask = []
  out : ∀ t ∈ r.stopped, t ∉ r.sys.listStartTask

end Stops

section Queue
variable {vm : Machine} {r : Thread}

theorem atHead_init (vm : Machine) (clock : Int) : AtHead vm (init clock) where
  tracked := {
    valid := valid_init clock
    started := fun _ => ⟨fun h => (nomatch h), fun h => (nomatch h)⟩
    stops := fun _ => ⟨fun h => (nomatch h), fun h => (nomatch h)⟩
    order := List.Pairwise.nil
    queued := fun _ h => (nomatch h)
    made := fun _ h => (nomatch h)
    reported := fun _ => rfl }
  running := rfl
  empty := rfl
  out := fun _ h => (nomatch h)

theorem AtHead.start (h : AtHead vm r) (a : StartArgs) (initTime : Int) :
    AtHead vm { r with sys := r.sys.startArgs a initTime } := by
  have hvalid := h.tracked.valid.start a initTime
  have htracked := h.tracked
  unfold Sys.startArgs at hvalid ⊢
  split
  · rename_i haccepted
    rw [if_pos haccepted] at hvalid
    refine ⟨⟨hvalid, htracked.started, htracked.stops, htracked.order, fun t ht => ?_,
      fun t ht => Nat.lt_succ_of_lt (htracked.made t ht), htracked.reported⟩, h.running, h.empty, h.out⟩
    dsimp only
    rw [tasks, List.filterMap_append]
    intro hmem
    rcases List.mem_append.mp hmem with hmem | hmem
    · exact htracked.queued t ht hmem
    · exact Nat.ne_of_lt (htracked.made t ht) (List.mem_singleton.mp hmem)
  · rename_i haccepted
    rw [if_neg haccepted] at hvalid
    exact ⟨⟨hvalid, htracked.started, htracked.stops, htracked.order, htracked.queued, htracked.made,
      htracked.reported⟩, h.running, h.empty, h.out⟩

theorem AtHead.stop (h : AtHead vm r) (hashCode : JInt) :
    AtHead vm { r with sys := r.sys.stop hashCode } := by
  have hvalid := h.tracked.valid.stop hashCode
  have htracked := h.tracked
  unfold Sys.stop at hvalid ⊢
  split
  · rename_i hnonzero
    rw [if_pos hnonzero] at hvalid
    refine ⟨⟨hvalid, htracked.started, htracked.stops, htracked.order, fun t ht => ?_,
      htracked.made, htracked.reported⟩, h.running, h.empty, h.out⟩
    dsimp only
    rw [tasks, List.filterMap_append]
    exact fun hmem => htracked.queued t ht (by simpa [tasks] using hmem)
  · exact h

theorem mem_withHash {hashCode : JInt} {list : List Nat} {t : Nat} :
    t ∈ withHash vm hashCode list ↔ t ∈ list ∧ vm.hashCode t = hashCode := by
  rw [withHash, List.mem_filter, decide_eq_true_eq]

theorem mem_add {set : List JInt} {h hashCode : JInt} :
    h ∈ HCPerfManager.add set hashCode ↔ h ∈ set ∨ h = hashCode := by
  unfold HCPerfManager.add
  split
  · rename_i hin
    refine ⟨.inl, fun hor => hor.elim id ?_⟩
    rintro rfl
    exact List.contains_iff_mem.mp hin
  · rw [List.mem_append, List.mem_singleton]

/-- What the poll of a stop changes. -/
theorem poll_stop (r : Thread) (hashCode : JInt) :
    (r.poll vm (.stop hashCode)).sys.listStartTask = r.sys.listStartTask ∧
      (r.poll vm (.stop hashCode)).sys.setStartedTask = r.sys.setStartedTask ∧
      (r.poll vm (.stop hashCode)).sys.taskQueue = r.sys.taskQueue ∧
      (r.poll vm (.stop hashCode)).sys.made = r.sys.made ∧
      ∀ h, h ∈ (r.poll vm (.stop hashCode)).sys.setStopTask ↔
        h ∈ r.sys.setStopTask ∨ (h = hashCode ∧ hashCode ∈ r.sys.setStartedTask) := by
  unfold Thread.poll Sys.poll
  dsimp only
  split
  · rename_i hin
    have hstarted := List.contains_iff_mem.mp hin
    refine ⟨rfl, rfl, rfl, rfl, fun h => ?_⟩
    rw [mem_add, and_iff_left hstarted]
  · rename_i hin
    have hstarted : hashCode ∉ r.sys.setStartedTask := fun h => hin (List.contains_iff_mem.mpr h)
    exact ⟨rfl, rfl, rfl, rfl, fun h => ⟨.inl, fun hor => hor.elim id fun hnew => absurd hnew.2 hstarted⟩⟩

theorem Tracked.poll_start (h : Tracked vm r) {t : Nat} {taskQueue : List Queued}
    (hq : r.sys.taskQueue = .start t :: taskQueue) :
    Tracked vm ({ r with sys := { r.sys with taskQueue := taskQueue } }.poll vm (.start t)) := by
  have hqueue : tasks r.sys.taskQueue = t :: tasks taskQueue := by
    rw [hq]
    rfl
  have hfresh : t ∉ r.stopped := by
    intro ht
    apply h.queued t ht
    rw [hqueue]
    exact List.mem_cons_self
  refine ⟨h.valid.poll hq, fun code => ?_, fun code => ?_, ?_, fun u hu hmem => ?_, h.made, fun u => ?_⟩
  · refine mem_add.trans ?_
    rw [h.started code]
    constructor
    · rintro (⟨u, hu, hcode⟩ | hcode)
      · exact ⟨u, List.mem_append_left _ hu, hcode⟩
      · exact ⟨t, List.mem_append_right _ List.mem_cons_self, hcode.symm⟩
    · rintro ⟨u, hu, hcode⟩
      rcases List.mem_append.mp hu with hu | hu
      · exact .inl ⟨u, hu, hcode⟩
      · exact .inr (by rw [← hcode, List.mem_singleton.mp hu])
  · refine (h.stops code).trans ⟨?_, ?_⟩
    · rintro ⟨u, hu, hstopped, hcode⟩
      exact ⟨u, List.mem_append_left _ hu, hstopped, hcode⟩
    · rintro ⟨u, hu, hstopped, hcode⟩
      rcases List.mem_append.mp hu with hu | hu
      · exact ⟨u, hu, hstopped, hcode⟩
      · exact absurd (List.mem_singleton.mp hu ▸ hstopped) hfresh
  · refine List.pairwise_append.mpr ⟨h.order, List.pairwise_singleton _ _, fun u _ w hw => ?_⟩
    exact fun _ hstopped => absurd (List.mem_singleton.mp hw ▸ hstopped) hfresh
  · apply h.queued u hu
    rw [hqueue]
    exact List.mem_cons_of_mem _ hmem
  · refine (h.reported u).trans (if_congr (and_congr_right fun hu => not_congr ?_) rfl rfl)
    refine ⟨fun hmem => List.mem_append_left _ hmem, fun hmem => ?_⟩
    rcases List.mem_append.mp hmem with hmem | hmem
    · exact hmem
    · exact absurd (List.mem_singleton.mp hmem ▸ hu) hfresh

theorem Tracked.poll_stop (h : Tracked vm r) {hashCode : JInt} {taskQueue : List Queued}
    (hq : r.sys.taskQueue = .stop hashCode :: taskQueue) :
    Tracked vm ({ r with sys := { r.sys with taskQueue := taskQueue } }.poll vm (.stop hashCode)) := by
  have hvalid := @Valid.poll vm r h.valid _ _ hq
  obtain ⟨hlist, hstarted, hqueue, hmade, hstops⟩ :=
    @HCPerfRunnable.poll_stop vm { r with sys := { r.sys with taskQueue := taskQueue } } hashCode
  have htasks : tasks taskQueue = tasks r.sys.taskQueue := by
    rw [hq]
    rfl
  have hstopped {t : Nat} :
      t ∈ ({ r with sys := { r.sys with taskQueue := taskQueue } }.poll vm (.stop hashCode)).stopped ↔
        t ∈ r.stopped ∨ (t ∈ r.sys.listStartTask ∧ vm.hashCode t = hashCode) := by
    refine List.mem_append.trans (or_congr_right ?_)
    exact mem_withHash
  have hreports : reports ({ r with sys := { r.sys with taskQueue := taskQueue } }.poll vm
      (.stop hashCode)).objectQueue = reports r.objectQueue := rfl
  generalize ({ r with sys := { r.sys with taskQueue := taskQueue } }.poll vm (.stop hashCode)) = r' at *
  refine ⟨hvalid, fun code => ?_, fun code => ?_, ?_, fun t ht => ?_, fun t ht => ?_, fun t => ?_⟩
  · rw [hstarted, hlist]
    exact h.started code
  · rw [hstops, h.stops, h.started, hlist]
    constructor
    · rintro (⟨t, ht, hin, hcode⟩ | ⟨rfl, t, ht, hcode⟩)
      · exact ⟨t, ht, hstopped.mpr (.inl hin), hcode⟩
      · exact ⟨t, ht, hstopped.mpr (.inr ⟨ht, hcode⟩), hcode⟩
    · rintro ⟨t, ht, hin, hcode⟩
      rcases hstopped.mp hin with hin | ⟨-, hsame⟩
      · exact .inl ⟨t, ht, hin, hcode⟩
      · exact .inr ⟨hcode.symm.trans hsame, t, ht, hsame⟩
  · rw [hlist]
    apply h.order.imp_of_mem
    intro t u ht _ horder hsame hu
    rcases hstopped.mp hu with hu | ⟨-, hcode⟩
    · exact hstopped.mpr (.inl (horder hsame hu))
    · exact hstopped.mpr (.inr ⟨ht, hsame.trans hcode⟩)
  · rw [hqueue]
    rcases hstopped.mp ht with ht | ⟨ht, -⟩
    · exact htasks ▸ h.queued t ht
    · exact fun hmem => (List.nodup_append.mp h.valid.nodup).2.2 t (htasks ▸ hmem) t ht rfl
  · rw [hmade]
    rcases hstopped.mp ht with ht | ⟨ht, -⟩
    · exact h.made t ht
    · exact h.valid.made t (List.mem_append_right _ ht)
  · rw [hreports, h.reported, hlist]
    refine if_congr ⟨fun hout => ⟨hstopped.mpr (.inl hout.1), hout.2⟩, fun hout => ⟨?_, hout.2⟩⟩ rfl rfl
    exact (hstopped.mp hout.1).resolve_right fun hin => hout.2 hin.1

theorem Tracked.taking (h : Tracked vm r) (polled : Nat) : Tracked vm (r.taking vm polled) := by
  refine taking_invariant (fun {r q taskQueue} hq h => ?_) h polled
  cases q with
  | start t => exact h.poll_start hq
  | stop hashCode => exact h.poll_stop hq

end Queue

section Reports
variable {vm : Machine} {rd : Readings}

theorem reports_andThen {d e : Done} (hd : reports d.objects = []) (he : reports e.objects = []) :
    reports (d.andThen e).objects = [] := by
  unfold Done.andThen
  split
  · exact hd
  · rw [reports_append, hd, he]
    rfl

theorem reports_checked {caller : Caller} {ok : Bool} {d : Done} (hd : reports d.objects = []) :
    reports (checked rd caller ok d).objects = [] := by
  unfold checked
  split
  · exact hd
  split
  · rfl
  · exact hd

/-- Only the pass over `listStartTask` reports tasks. -/
theorem reports_requests (s : Sys) (z : Scan) : reports (requests vm rd s z).objects = [] := by
  have hlevel (k : Resource) : reports (cancelLevel rd s z k).objects = [] := by
    unfold cancelLevel
    split
    · rfl
    · rfl
  have hcancel (stopSet : List Nat) : reports (cancelBindCore vm rd z stopSet).objects = [] := by
    unfold cancelBindCore
    dsimp only
    split
    · exact reports_checked rfl
    · rfl
  have hunify (q : Request) (tidList : List JInt) :
      reports (unifyRequest rd z q tidList).objects = [] := by
    unfold unifyRequest
    dsimp only
    split
    · split
      · rfl
      · rfl
    · rfl
  unfold requests
  dsimp only
  split
  · rfl
  · apply reports_andThen (hcancel _)
    apply reports_andThen (reports_checked rfl)
    exact reports_andThen (hlevel _) (reports_andThen (hlevel _) (reports_andThen (hlevel _)
      (hunify _ _)))

end Reports

section Pass
variable {vm : Machine} {r : Thread} {rd : Readings}

/-- The task that a stop hits is one that was stopped. -/
theorem Tracked.stopped_of_hit (h : Tracked vm r) {t : Nat} (ht : t ∈ r.hits vm) :
    t ∈ r.sys.listStartTask ∧ t ∈ r.stopped := by
  obtain ⟨hlist, hstop, hfind⟩ := mem_hits.mp ht
  refine ⟨hlist, ?_⟩
  obtain ⟨u, hu, hstopped, hsame⟩ := (h.stops _).mp hstop
  obtain ⟨-, before, after, hsplit, hbefore⟩ := List.find?_eq_some_iff_append.mp hfind
  have horder := h.order
  rw [hsplit] at hu horder
  rcases List.mem_append.mp hu with hu | hu
  · exact absurd hsame (by simpa using hbefore u hu)
  rcases List.mem_cons.mp hu with rfl | hu
  · exact hstopped
  · have hafter := (List.pairwise_cons.mp (List.pairwise_append.mp horder).2.1).1 u hu
    exact hafter hsame.symm hstopped

/-- Of the tasks of one hash code that were stopped one is hit. -/
theorem Tracked.exists_hit (h : Tracked vm r) {t : Nat} (hlist : t ∈ r.sys.listStartTask)
    (ht : t ∈ r.stopped) : ∃ u ∈ r.hits vm, vm.hashCode u = vm.hashCode t := by
  have hstop := (h.stops (vm.hashCode t)).mpr ⟨t, hlist, ht, rfl⟩
  have hsome : (r.sys.listStartTask.find? fun u => vm.hashCode u = vm.hashCode t).isSome := by
    rw [List.find?_isSome]
    exact ⟨t, hlist, decide_eq_true rfl⟩
  obtain ⟨u, hu⟩ := Option.isSome_iff_exists.mp hsome
  have hsame : vm.hashCode u = vm.hashCode t := by simpa using List.find?_some hu
  refine ⟨u, mem_hits.mpr ⟨List.mem_of_find?_eq_some hu, ?_⟩, hsame⟩
  rw [Hit, hsame]
  exact ⟨hstop, hu⟩

theorem eq_of_hits {t u : Nat} (ht : t ∈ r.hits vm) (hu : u ∈ r.hits vm)
    (hsame : vm.hashCode t = vm.hashCode u) : t = u := by
  have hfind := (mem_hits.mp ht).2.2
  rw [hsame, (mem_hits.mp hu).2.2] at hfind
  exact (Option.some.inj hfind).symm

theorem Tracked.count_reports (h : Tracked vm r) (rd : Readings) (t : Nat) :
    (reports (r.pass vm rd).objectQueue).count t =
      if t ∈ r.hits vm ∨ (t ∈ r.stopped ∧ t ∉ r.sys.listStartTask) then 1 else 0 := by
  have hscan := @scanned_spec vm r rd h.valid.list_nodup
  have hobjects : reports (r.pass vm rd).objectQueue = reports r.objectQueue ++ r.hits vm := by
    refine (reports_append _ _).trans ?_
    rw [reports_requests, List.append_nil, reports_append, hscan.reports]
  have hnodup : (r.hits vm).Nodup := h.valid.list_nodup.filter _
  rw [hobjects, List.count_append, h.reported, hnodup.count]
  by_cases hhit : t ∈ r.hits vm
  · have hnot : ¬ (t ∈ r.stopped ∧ t ∉ r.sys.listStartTask) := fun hout =>
      hout.2 (h.stopped_of_hit hhit).1
    rw [if_neg hnot, if_pos hhit, if_pos (.inl hhit)]
  · rw [if_neg hhit]
    simp only [hhit, false_or, Nat.add_zero]

theorem gone_of_over (h : Tracked vm r) {t : Nat} (ht : r.Over vm rd t) : r.Gone rd t :=
  ht.imp_left fun hhit => (h.stopped_of_hit hhit).2

theorem setStopTask_pass (h : Tracked vm r) : (r.pass vm rd).sys.setStopTask = [] := by
  have hscan := @scanned_spec vm r rd h.valid.list_nodup
  apply List.eq_nil_iff_forall_not_mem.mpr
  intro code hcode
  obtain ⟨hstop, hnone⟩ := (hscan.stop code).mp hcode
  obtain ⟨t, ht, -, hsame⟩ := (h.stops code).mp hstop
  exact hnone t ht hsame

/-- When two tasks of one hash code are kept apart, the tasks that were stopped are those
that are hit. -/
theorem Tracked.hit_of_stopped (h : Tracked vm r) (hapart : r.Apart vm rd) {t : Nat}
    (hlist : t ∈ r.sys.listStartTask) (ht : t ∈ r.stopped) : t ∈ r.hits vm := by
  obtain ⟨u, hu, hsame⟩ := h.exists_hit hlist ht
  obtain ⟨hulist, hustopped⟩ := h.stopped_of_hit hu
  rwa [hapart.stopped t hlist u hulist hsame.symm ht hustopped]

theorem listStartTask_pass (h : Tracked vm r) : (r.pass vm rd).sys.listStartTask =
    r.sys.listStartTask.filter fun t => ¬ r.Over vm rd t :=
  (@scanned_spec vm r rd h.valid.list_nodup).list

theorem exact_of_apart (h : Tracked vm r) (hrunning : (r.pass vm rd).running = true)
    (hapart : r.Apart vm rd) : Exact vm rd r (r.pass vm rd) := by
  have hscan := @scanned_spec vm r rd h.valid.list_nodup
  have hover {t : Nat} (ht : t ∈ r.sys.listStartTask) : r.Over vm rd t ↔ r.Gone rd t :=
    ⟨gone_of_over h, fun hgone => hgone.imp_left (h.hit_of_stopped hapart ht)⟩
  have hrun {t : Nat} (ht : t ∈ r.stopped) : t ∉ r.runningTasks vm rd := fun hmem =>
    notMem_hits_of_running hmem (h.hit_of_stopped hapart (list_of_running hmem) ht)
  have hlist := @listStartTask_pass vm r rd h
  refine ⟨hrunning, ?_, fun t => ?_, fun t ht => ⟨fun hmem => ?_, fun k hk => ?_⟩, fun t ht => ?_,
    fun t ht => ?_, setStopTask_pass h⟩
  · rw [hlist]
    apply List.filter_congr
    intro t ht
    rw [decide_eq_decide, hover ht]
  · rw [h.count_reports]
    refine if_congr ⟨?_, fun ht => ?_⟩ rfl rfl
    · exact fun hor => hor.elim (fun hhit => (h.stopped_of_hit hhit).2) And.left
    · by_cases hmem : t ∈ r.sys.listStartTask
      · exact .inl (h.hit_of_stopped hapart hmem ht)
      · exact .inr ⟨ht, hmem⟩
  · have hbind : t ∈ (r.scanned vm rd).needBindCore := hmem
    rw [hscan.bind] at hbind
    exact hrun ht (List.mem_of_mem_filter hbind)
  · have hmax : (r.scanned vm rd).max k = some t := hk
    rw [hscan.max] at hmax
    exact hrun ht (best_mem hmax).1
  · exact (hscan.task t).trans (stopAt_of_notMem fun hhit => ht (h.stopped_of_hit hhit).2)
  · rw [hlist] at ht
    obtain ⟨hmem, hstay⟩ := List.mem_filter.mp ht
    have hnot : ¬ r.Gone rd t := fun hgone => of_decide_eq_true hstay ((hover hmem).mpr hgone)
    refine ⟨hapart.hashCode t hmem hnot, (hscan.started _).mpr ⟨?_, fun u hu hgone hsame => ?_⟩⟩
    · exact (h.started _).mpr ⟨t, hmem, rfl⟩
    · exact hnot (hapart.gone u hu t hmem hsame ((hover hu).mp hgone))

theorem apart_of_exact (h : Tracked vm r) (hexact : Exact vm rd r (r.pass vm rd)) :
    r.Apart vm rd := by
  have hscan := @scanned_spec vm r rd h.valid.list_nodup
  have hlist := @listStartTask_pass vm r rd h
  have hstay {t : Nat} (ht : t ∈ r.sys.listStartTask) (hnot : ¬ r.Gone rd t) :
      t ∈ (r.pass vm rd).sys.listStartTask := by
    rw [hexact.list]
    exact List.mem_filter.mpr ⟨ht, decide_eq_true hnot⟩
  have hhit {t : Nat} (ht : t ∈ r.sys.listStartTask) (hstopped : t ∈ r.stopped) : t ∈ r.hits vm := by
    by_contra hnot
    have hcount := hexact.reported t
    rw [h.count_reports, if_pos hstopped, if_neg] at hcount
    · cases hcount
    · exact fun hor => hor.elim hnot fun hout => hout.2 ht
  refine ⟨fun t ht u hu hsame hts hus => eq_of_hits (hhit ht hts) (hhit hu hus) hsame,
    fun t ht u hu hsame hgone => ?_, fun t ht hnot => (hexact.stoppable t (hstay ht hnot)).1⟩
  by_contra hnot
  have hstarted := (hscan.started _).mp (hexact.stoppable u (hstay hu hnot)).2
  exact hstarted.2 t ht (hgone.imp_left (hhit ht)) hsame

theorem exact_iff (h : Tracked vm r) : Exact vm rd r (r.pass vm rd) ↔
    (r.Same vm rd ∨ Requestable r.sys.task rd.now (r.requestTasks vm rd)) ∧ r.Apart vm rd := by
  have halive : (r.pass vm rd).running = true ↔ _ := @alive_requests vm r rd h.valid
  rw [← halive]
  exact ⟨fun hexact => ⟨hexact.running, apart_of_exact h hexact⟩, fun hclear =>
    exact_of_apart h hclear.1 hclear.2⟩

theorem atHead_pass (h : Tracked vm r) (hexact : Exact vm rd r (r.pass vm rd)) :
    AtHead vm (r.pass vm rd) := by
  have hscan := @scanned_spec vm r rd h.valid.list_nodup
  have hlist := @listStartTask_pass vm r rd h
  have hout : ∀ t ∈ r.stopped, t ∉ (r.pass vm rd).sys.listStartTask := by
    intro t ht hmem
    rw [hexact.list] at hmem
    exact of_decide_eq_true (List.mem_filter.mp hmem).2 (.inl ht)
  refine ⟨⟨h.valid.pass rd, fun code => ?_, fun code => ?_, ?_, h.queued, h.made, fun t => ?_⟩,
    hexact.running, hexact.empty, hout⟩
  · constructor
    · intro hcode
      obtain ⟨hstarted, hnone⟩ := (hscan.started code).mp hcode
      obtain ⟨t, ht, hsame⟩ := (h.started code).mp hstarted
      refine ⟨t, ?_, hsame⟩
      rw [hlist]
      exact List.mem_filter.mpr ⟨ht, decide_eq_true fun hover => hnone t ht hover hsame⟩
    · rintro ⟨t, ht, rfl⟩
      exact (hexact.stoppable t ht).2
  · rw [hexact.empty]
    exact ⟨fun hcode => (nomatch hcode), fun ⟨t, ht, hstopped, _⟩ => absurd ht (hout t hstopped)⟩
  · apply List.pairwise_of_forall_mem_list
    exact fun t _ u hu _ hstopped => absurd hu (hout u hstopped)
  · rw [hexact.reported]
    exact if_congr ⟨fun ht => ⟨ht, hout t ht⟩, And.left⟩ rfl rfl

end Pass

theorem AtHead.step {vm : Machine} {r r' : Thread} {a : Action} (h : AtHead vm r)
    (hexact : ExactStops vm r a) (hstep : step vm r a = some r') : AtHead vm r' := by
  cases a with
  | start a initTime => exact Option.some.inj hstep ▸ h.start a initTime
  | stop hashCode => exact Option.some.inj hstep ▸ h.stop hashCode
  | loop polled rd =>
    have hpass : HCPerfRunnable.step vm r (.loop polled rd) = some ((r.taking vm polled).pass vm rd) :=
      if_pos h.running
    rw [hpass] at hstep
    exact Option.some.inj hstep ▸ atHead_pass (h.tracked.taking polled) (hexact h.running)

/-- The stops of a run are exact if and only if each of its passes is safe and keeps the
tasks of one hash code apart. -/
theorem exactStops_iff_clear (vm : Machine) (clock : Int) (as : List Action) :
    Along (step vm) (ExactStops vm) (init clock) as ↔ Along (step vm) (Clear vm) (init clock) as := by
  refine along_congr (fun h hexact hstep => h.step hexact hstep) (fun {r a} h => ?_)
    (atHead_init vm clock)
  cases a with
  | start a initTime => exact Iff.rfl
  | stop hashCode => exact Iff.rfl
  | loop polled rd => exact imp_congr_right fun _ => exact_iff (h.tracked.taking polled)

/-- A virtual machine that hands out one hash code only. -/
def oneHashCode : Machine := { exampleMachine with hashCode := fun _ => 7 }

def secondArgs : StartArgs := ⟨0, 1, 0, 0, some [], 1000, 1, 0, 1⟩

/-- The second task of the hash code stays in the list, stopped twice. -/
theorem stops_oneHashCode :
    (run (step oneHashCode) (init 0) [.start secondArgs 5, .start secondArgs 5, .loop 2 (.still 5),
      .stop 7, .loop 1 (.still 6), .stop 7, .loop 1 (.still 7)]).map
      (fun r => (r.running, r.sys.listStartTask, r.stopped.contains 1, reports r.objectQueue)) =
    some (true, [1], true, [0]) := by
  decide

end Hardcoder.HCPerfRunnable
