import KeycapRoot.Network.ThreadPool

/-!
# Handlers that throw

A thread of the pool calls `run()` in a `try` block, and once more where it catches a
`std::exception`. So an exception that a handler throws costs the thread its first `run()` and
nothing else, and whatever leaves the second one, or is no `std::exception`, ends the process. The
threads stay those of the pool without exceptions, and the process outlives at most one exception
for each thread that was ever started (`exceptions_outlived`).
-/

namespace KeycapRoot.Network

/-- Where a thread of the pool is: in the `run()` of its `try` block, in that of its `catch` block,
or behind both. -/
inductive PoolThread
  | tried
  | caught
  | returned
  deriving DecidableEq, Repr

/-- A service in client mode and its threads, in the order in which they were started. -/
structure ThrowingService where
  service : PooledService
  threads : List PoolThread := []
  terminated : Bool := false
  deriving DecidableEq, Repr

namespace ThrowingService

/-- A handler that throws may be any that was posted to the context. -/
inductive Event
  | service (e : PooledService.Event)
  | threadReturns (i : Nat)
  | throws (i : Nat) (isException : Bool)

/-- The event of the pool without exceptions. -/
def Event.pooled : Event → Option PooledService.Event
  | .service e => some e
  | .threadReturns _ => some .threadReturns
  | .throws _ _ => none

def Event.isReturn : PooledService.Event → Bool
  | .threadReturns => true
  | _ => false

/-- `run_thread_pool()` adds its threads to the pool. -/
def threadsAdded (s : PooledService) (e : PooledService.Event) : List PoolThread :=
  List.replicate (if e.adds then s.threadCount.toNat else 0) .tried

def step (s : ThrowingService) (e : Event) : Option ThrowingService :=
  if s.terminated then none
  else
    match e with
    | .service e =>
      if Event.isReturn e then none
      else (s.service.step e).map fun service =>
        { s with service, threads := s.threads ++ threadsAdded s.service e }
    | .threadReturns i =>
      if s.threads[i]? = some .tried ∨ s.threads[i]? = some .caught then
        (s.service.step .threadReturns).map fun service =>
          { s with service, threads := s.threads.set i .returned }
      else none
    | .throws i isException =>
      if s.service.stopped then none
      else
        match s.threads[i]? with
        | some .tried =>
          if isException then some { s with threads := s.threads.set i .caught }
          else some { s with terminated := true }
        | some .caught => some { s with terminated := true }
        | _ => none

/-- What a step can do, with the guard under which it does so. -/
inductive Steps (s : ThrowingService) : Event → ThrowingService → Prop
  | service {e : PooledService.Event} {service : PooledService} (hstays : Event.isReturn e = false)
      (hgoes : s.service.step e = some service) :
      Steps s (.service e) { s with service, threads := s.threads ++ threadsAdded s.service e }
  | threadReturns {i : Nat} {service : PooledService}
      (hinside : s.threads[i]? = some .tried ∨ s.threads[i]? = some .caught)
      (hgoes : s.service.step .threadReturns = some service) :
      Steps s (.threadReturns i) { s with service, threads := s.threads.set i .returned }
  | catches {i : Nat} (hthread : s.threads[i]? = some .tried) :
      Steps s (.throws i true) { s with threads := s.threads.set i .caught }
  | terminates {i : Nat} {isException : Bool}
      (hthread : s.threads[i]? = some .caught ∨
        s.threads[i]? = some .tried ∧ isException = false) :
      Steps s (.throws i isException) { s with terminated := true }

variable {s s' t : ThrowingService}

theorem steps_of_step {e : Event} (hstep : s.step e = some s') :
    s.terminated = false ∧ Steps s e s' := by
  unfold step at hstep
  rw [Option.ite_none_left_eq_some, Bool.not_eq_true] at hstep
  refine ⟨hstep.1, ?_⟩
  replace hstep := hstep.2
  cases e with
  | service e =>
    simp only [Option.ite_none_left_eq_some, Bool.not_eq_true, Option.map_eq_some_iff] at hstep
    obtain ⟨hstays, service, hgoes, rfl⟩ := hstep
    exact .service hstays hgoes
  | threadReturns i =>
    simp only [Option.ite_none_right_eq_some, Option.map_eq_some_iff] at hstep
    obtain ⟨hinside, service, hgoes, rfl⟩ := hstep
    exact .threadReturns hinside hgoes
  | throws i isException =>
    simp only [Option.ite_none_left_eq_some] at hstep
    replace hstep := hstep.2
    split at hstep
    · rename_i hthread
      cases isException with
      | true =>
        cases hstep
        exact .catches hthread
      | false =>
        cases hstep
        exact .terminates (Or.inr ⟨hthread, rfl⟩)
    · rename_i hthread
      cases hstep
      exact .terminates (Or.inl hthread)
    · cases hstep

/-! ## What was thrown -/

/-- A handler throws while thread `i` runs it. -/
def Event.thrownIn (i : Nat) : Event → Bool
  | .throws j _ => j == i
  | _ => false

/-- A handler throws what is no `std::exception`. -/
def Event.foreign : Event → Bool
  | .throws _ isException => !isException
  | _ => false

def Event.isThrow : Event → Bool
  | .throws _ _ => true
  | _ => false

/-- How many exceptions a thread has seen that is where it is. -/
def Seen : Option PoolThread → Nat → Prop
  | none, n => n = 0
  | some .tried, n => n = 0
  | some .caught, n => n = 1
  | some .returned, n => n ≤ 1

theorem Seen.le_one {thread : Option PoolThread} {n : Nat} (h : Seen thread n) : n ≤ 1 := by
  rcases thread with _ | _ | _ | _
  · exact Nat.le_trans (Nat.le_of_eq h) (Nat.zero_le 1)
  · exact Nat.le_trans (Nat.le_of_eq h) (Nat.zero_le 1)
  · exact Nat.le_of_eq h
  · exact h

/-- The state behind some events that have not ended the process. -/
structure Alive (es : List Event) (s : ThrowingService) : Prop where
  foreign : ∀ e ∈ es, e.foreign = false
  seen : ∀ i, Seen s.threads[i]? (es.countP (Event.thrownIn i))
  thrown : es.countP Event.isThrow ≤ s.threads.countP (· != .tried)

/-- The state behind some events, whether or not they have ended the process. -/
structure Behind (threadCount : Int) (es : List Event) (s : ThrowingService) : Prop where
  pooled : Runs.run PooledService.step (.new threadCount) (es.filterMap Event.pooled) =
    some s.service
  inside : s.service.inside = s.threads.countP (· != .returned)
  started : s.threads.length =
    (es.filterMap Event.pooled).countP PooledService.Event.adds * threadCount.toNat
  count : s.service.threadCount = threadCount
  alive : s.terminated = false → Alive es s
  dead : s.terminated = true →
    (∃ e ∈ es, e.foreign = true) ∨ ∃ i, 2 ≤ es.countP (Event.thrownIn i)

/-! ## Runs -/

section Runs

variable {threadCount : Int} {es : List Event} {e : Event}

theorem count_append (p : Event → Bool) (es : List Event) (e : Event) :
    (es ++ [e]).countP p = es.countP p + if p e then 1 else 0 := by
  rw [List.countP_append, List.countP_singleton]

/-- A step that throws nothing leaves what was thrown. -/
theorem Alive.of_quiet (h : Alive es s) (hquiet : e.isThrow = false)
    (hseen : ∀ (i n : Nat), Seen s.threads[i]? n → Seen s'.threads[i]? n)
    (hthreads : s.threads.countP (· != .tried) ≤ s'.threads.countP (· != .tried)) :
    Alive (es ++ [e]) s' := by
  have hforeign : e.foreign = false := by
    cases e with
    | throws i isException => cases hquiet
    | _ => rfl
  have hthrown (i : Nat) : e.thrownIn i = false := by
    cases e with
    | throws j isException => cases hquiet
    | _ => rfl
  constructor
  · exact List.forall_mem_append.2 ⟨h.foreign, List.forall_mem_singleton.2 hforeign⟩
  · intro i
    rw [count_append, hthrown]
    exact hseen i _ (h.seen i)
  · rw [count_append, hquiet]
    exact Nat.le_trans h.thrown hthreads

/-- The one that is caught is the first of its thread. -/
theorem Alive.catches (h : Alive es s) {i : Nat} (hthread : s.threads[i]? = some .tried) :
    Alive (es ++ [.throws i true]) { s with threads := s.threads.set i .caught } := by
  have hi : i < s.threads.length := (List.getElem?_eq_some_iff.1 hthread).1
  have hat : s.threads[i] = .tried := (List.getElem?_eq_some_iff.1 hthread).2
  constructor
  · exact List.forall_mem_append.2 ⟨h.foreign, List.forall_mem_singleton.2 rfl⟩
  · intro j
    have hseen := h.seen j
    rw [count_append]
    by_cases hij : i = j
    · subst hij
      rw [hthread] at hseen
      change Seen (s.threads.set i .caught)[i]? _
      rw [List.getElem?_set_self hi, Event.thrownIn, beq_self_eq_true, if_pos rfl]
      exact congrArg (· + 1) (hseen : _ = 0)
    · change Seen (s.threads.set i .caught)[j]? _
      rw [List.getElem?_set_ne hij, Event.thrownIn, beq_false_of_ne hij, if_neg Bool.false_ne_true]
      exact hseen
  · have hset := List.countP_set (p := (· != PoolThread.tried)) (a := .caught) hi
    rw [hat] at hset
    rw [count_append]
    exact Nat.le_trans (Nat.add_le_add_right h.thrown 1) (Nat.le_of_eq hset.symm)

/-- How a step of the service changes the number of threads inside `run()`. -/
theorem inside_step {s s' : PooledService} {e : PooledService.Event} (hstep : s.step e = some s') :
    s'.threadCount = s.threadCount ∧
      s'.inside + (if Event.isReturn e then 1 else 0) =
        s.inside + if e.adds then s.threadCount.toNat else 0 := by
  cases PooledService.steps_of_step hstep with
  | start resolved => cases resolved <;> exact ⟨rfl, rfl⟩
  | threadReturns hinside hdone => exact ⟨rfl, Nat.sub_add_cancel hinside⟩
  | _ => exact ⟨rfl, rfl⟩

theorem Behind.service (h : Behind threadCount es s) {e : PooledService.Event}
    {service : PooledService} (halive : s.terminated = false) (hstays : Event.isReturn e = false)
    (hgoes : s.service.step e = some service) :
    Behind threadCount (es ++ [.service e])
      { s with service, threads := s.threads ++ threadsAdded s.service e } := by
  obtain ⟨hcount, hinside⟩ := inside_step hgoes
  have hadded (p : PoolThread → Bool) (htried : p .tried = true) : (s.threads ++
      threadsAdded s.service e).countP p = s.threads.countP p +
        if e.adds then s.service.threadCount.toNat else 0 := by
    rw [List.countP_append, threadsAdded, List.countP_replicate, if_pos htried]
  constructor
  · rw [List.filterMap_append]
    exact Runs.run_append_eq_some.2 ⟨_, h.pooled, Runs.run_cons_eq_some.2 ⟨_, hgoes, rfl⟩⟩
  · rw [hadded _ rfl, ← h.inside, ← hinside, hstays]
    rfl
  · rw [List.length_append, h.started, threadsAdded, List.length_replicate, List.filterMap_append,
      List.countP_append, Nat.add_mul, h.count]
    congr 1
    change _ = List.countP _ [e] * _
    rw [List.countP_singleton]
    cases e.adds with
    | true => exact (Nat.one_mul _).symm
    | false => exact (Nat.zero_mul _).symm
  · exact hcount.trans h.count
  · intro _
    refine (h.alive halive).of_quiet rfl ?_ ?_
    · intro i n hseen
      change Seen (s.threads ++ threadsAdded s.service e)[i]? n
      rw [List.getElem?_append]
      split
      · exact hseen
      · next hbeyond =>
        -- a new thread has seen as little as one that was not there
        rw [List.getElem?_eq_none (Nat.le_of_not_lt hbeyond)] at hseen
        cases hadded : (threadsAdded s.service e)[i - s.threads.length]? with
        | none => exact hseen
        | some thread =>
          rw [List.eq_of_mem_replicate (List.mem_of_getElem? hadded)]
          exact hseen
    · rw [List.countP_append]
      exact Nat.le_add_right _ _
  · intro hdead
    exact absurd (halive.symm.trans hdead) Bool.false_ne_true

theorem Behind.threadReturns (h : Behind threadCount es s) {i : Nat} {service : PooledService}
    (halive : s.terminated = false)
    (hinside : s.threads[i]? = some .tried ∨ s.threads[i]? = some .caught)
    (hgoes : s.service.step .threadReturns = some service) :
    Behind threadCount (es ++ [.threadReturns i])
      { s with service, threads := s.threads.set i .returned } := by
  obtain ⟨hcount, hless⟩ := inside_step hgoes
  obtain ⟨thread, hthread, hstays⟩ :
      ∃ thread, s.threads[i]? = some thread ∧ (thread != .returned) = true := by
    rcases hinside with htried | hcaught
    · exact ⟨_, htried, rfl⟩
    · exact ⟨_, hcaught, rfl⟩
  obtain ⟨hi, hat⟩ := List.getElem?_eq_some_iff.1 hthread
  constructor
  · rw [List.filterMap_append]
    exact Runs.run_append_eq_some.2 ⟨_, h.pooled, Runs.run_cons_eq_some.2 ⟨_, hgoes, rfl⟩⟩
  · have hset := List.countP_set (p := (· != PoolThread.returned)) (a := .returned) hi
    rw [hat, if_pos hstays, if_neg (by decide), ← h.inside] at hset
    change service.inside = _
    rw [hset]
    exact Nat.eq_sub_of_add_eq hless
  · rw [List.length_set, h.started, List.filterMap_append, List.countP_append]
    rfl
  · exact hcount.trans h.count
  · intro _
    refine (h.alive halive).of_quiet rfl ?_ ?_
    · intro j n hseen
      change Seen (s.threads.set i .returned)[j]? n
      by_cases hij : i = j
      · subst hij
        rw [List.getElem?_set_self hi]
        exact hseen.le_one
      · rwa [List.getElem?_set_ne hij]
    · rw [List.countP_set hi]
      have hone : (if (s.threads[i] != .tried) = true then 1 else 0) ≤ 1 := by split <;> decide
      change _ ≤ _ - _ + 1
      omega
  · intro hdead
    exact absurd (halive.symm.trans hdead) Bool.false_ne_true

theorem Behind.step (h : Behind threadCount es s) (hstep : s.step e = some s') :
    Behind threadCount (es ++ [e]) s' := by
  obtain ⟨halive, hsteps⟩ := steps_of_step hstep
  have hquiet (i : Nat) (isException : Bool) :
      (es ++ [Event.throws i isException]).filterMap Event.pooled = es.filterMap Event.pooled := by
    rw [List.filterMap_append]
    exact List.append_nil _
  cases hsteps with
  | service hstays hgoes => exact h.service halive hstays hgoes
  | threadReturns hinside hgoes => exact h.threadReturns halive hinside hgoes
  | @catches i hthread =>
    obtain ⟨hi, hat⟩ := List.getElem?_eq_some_iff.1 hthread
    have hset := List.countP_set (p := (· != PoolThread.returned)) (a := .caught) hi
    have hpos : 0 < s.threads.countP (· != .returned) :=
      List.countP_pos_iff.2 ⟨.tried, List.mem_of_getElem? hthread, rfl⟩
    constructor
    · rw [hquiet]
      exact h.pooled
    · rw [hat] at hset
      exact h.inside.trans (hset.trans (Nat.sub_add_cancel hpos)).symm
    · rw [hquiet, List.length_set]
      exact h.started
    · exact h.count
    · exact fun _ => (h.alive halive).catches hthread
    · exact fun hdead => absurd (halive.symm.trans hdead) Bool.false_ne_true
  | @terminates i isException hthread =>
    constructor
    · rw [hquiet]
      exact h.pooled
    · exact h.inside
    · rw [hquiet]
      exact h.started
    · exact h.count
    · intro hsame
      cases hsame
    · intro _
      rcases hthread with hcaught | ⟨-, rfl⟩
      · have hseen := (h.alive halive).seen i
        rw [hcaught] at hseen
        refine Or.inr ⟨i, ?_⟩
        rw [count_append, Event.thrownIn, beq_self_eq_true, if_pos rfl]
        exact Nat.le_of_eq (congrArg (· + 1) (hseen : _ = 1)).symm
      · exact Or.inl ⟨_, List.mem_append_right es (List.mem_singleton_self _), rfl⟩

theorem behind_run
    (hrun : Runs.run ThrowingService.step { service := .new threadCount } es = some t) :
    Behind threadCount es t := by
  refine Runs.run_invariant_history (fun es s e s' h hstep => h.step hstep) ?_ hrun
  constructor
  · rfl
  · rfl
  · exact (Nat.zero_mul _).symm
  · rfl
  · exact fun _ => ⟨fun _ hmem => absurd hmem List.not_mem_nil, fun _ => rfl, Nat.zero_le _⟩
  · intro hdead
    cases hdead

end Runs

/-- **Exceptions.** In every run, the service and the number of threads inside `run()` are those of
the same run without exceptions. The process has been ended exactly if a thread has run two handlers
that throw, or one that throws something else than a `std::exception`; until then, no more were
thrown than threads were started. -/
theorem exceptions_outlived {threadCount : Int} {es : List Event}
    (hrun : Runs.run step { service := .new threadCount } es = some t) :
    Runs.run PooledService.step (.new threadCount) (es.filterMap Event.pooled) = some t.service ∧
      t.service.inside = t.threads.countP (· != .returned) ∧
      (t.terminated = false ↔ (∀ e ∈ es, e.foreign = false) ∧
        ∀ i, es.countP (Event.thrownIn i) ≤ 1) ∧
      (t.terminated = false → es.countP Event.isThrow ≤
        (es.filterMap Event.pooled).countP PooledService.Event.adds * threadCount.toNat) := by
  have h := behind_run hrun
  refine ⟨h.pooled, h.inside, ⟨?_, ?_⟩, ?_⟩
  · intro halive
    exact ⟨(h.alive halive).foreign, fun i => ((h.alive halive).seen i).le_one⟩
  · rintro ⟨hforeign, honce⟩
    rw [← Bool.not_eq_true]
    intro hdead
    rcases h.dead hdead with ⟨e, hmem, he⟩ | ⟨i, htwice⟩
    · exact absurd ((hforeign e hmem).symm.trans he) Bool.false_ne_true
    · exact absurd (honce i) (Nat.not_le.2 htwice)
  · intro halive
    rw [← h.started]
    exact Nat.le_trans (h.alive halive).thrown List.countP_le_length

/-- One thread outlives an exception, and the process ends with the next one. -/
theorem exceptions_outlived_sample :
    (∃ t, Runs.run step { service := .new 1 } [.service (.start true), .throws 0 true] = some t ∧
        t.terminated = false) ∧
      ∃ t, Runs.run step { service := .new 1 }
        [.service (.start true), .throws 0 true, .throws 0 true] = some t ∧
          t.terminated ≠ false := by
  let s : PooledService := { threadCount := 1, inside := 1, attempts := 1 }
  have hcaught : Runs.run step { service := .new 1 } [.service (.start true), .throws 0 true] =
      some { service := s, threads := [.caught] } := by decide
  have hended : Runs.run step { service := .new 1 }
      [.service (.start true), .throws 0 true, .throws 0 true] =
        some { service := s, threads := [.caught], terminated := true } := by decide
  refine ⟨⟨_, hcaught, (exceptions_outlived hcaught).2.2.1.2 ⟨by decide, ?_⟩⟩, _, hended, ?_⟩
  · rintro (_ | i) <;> simp [Event.thrownIn]
  · intro halive
    exact absurd (((exceptions_outlived hended).2.2.1.1 halive).2 0) (by decide)

end ThrowingService

end KeycapRoot.Network
