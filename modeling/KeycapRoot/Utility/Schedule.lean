import Mathlib.Algebra.Group.Nat.Defs
import Mathlib.Data.Finset.Basic
import Mathlib.Data.List.Perm.Basic
import Mathlib.Data.List.Range
import KeycapRoot.Lib.Runs

/-!
# Schedules

A schedule keeps a timer for each callback under a running counter. When the timer expires or is
cancelled, the completion of its wait is queued, and the handler that runs for it calls the callback
if the timer is still there. `cancel` takes the timer away, so the handler does nothing; `cancel_all`
leaves it there, and the handler calls the callback with the error of the cancelled wait.

Over whole runs no callback is called twice, none is called after `cancel`, and one that is due is
called (`callbacks_called`). What `cancel_all` cancelled stays uncalled exactly in the runs in which
somebody has taken the timer away before the handler runs (`swept_uncalled_iff`).
-/

namespace KeycapRoot.Utility

open scoped List

/-- A wait on a timer: the callback, and the counter that the timer is kept under and that the
handler has captured. -/
structure Wait where
  callback : Nat
  counter : UInt32
  deriving DecidableEq, Repr

/-- A wait that has ended, and whether it was cancelled. -/
structure Completion extends Wait where
  aborted : Bool
  deriving DecidableEq, Repr

/-- A schedule with the waits of its timers and the completions that its `io_service` has queued. -/
structure Schedule where
  counter : UInt32 := 0
  timers : Finset UInt32 := ∅
  waits : List Wait := []
  queue : List Completion := []
  stopped : Bool := false

namespace Schedule

/-- The waits end, and their handlers are queued. -/
def completeWaits (s : Schedule) (ends : Wait → Bool) (aborted : Bool) : Schedule :=
  { s with
    waits := s.waits.filter (!ends ·)
    queue := s.queue ++ (s.waits.filter ends).map fun wait => { wait with aborted } }

/-- `add(duration, callback)`. The `scheduled_item` is the counter. -/
def add (s : Schedule) (callback : Nat) : Schedule × UInt32 :=
  let counter := s.counter
  ({ s with
      counter := counter + 1
      timers := insert counter s.timers
      waits := s.waits ++ [{ callback, counter }] },
    counter)

def cancel (s : Schedule) (item : UInt32) : Schedule :=
  if item ∈ s.timers then
    { s.completeWaits (·.counter == item) true with timers := s.timers.erase item }
  else s

def cancelAll (s : Schedule) : Schedule := s.completeWaits (fun wait => wait.counter ∈ s.timers) true

/-- The timer under the counter expires. -/
def expire (s : Schedule) (counter : UInt32) : Schedule :=
  s.completeWaits (·.counter == counter) false

/-- The handler of a completion, with the call that it makes. -/
def runHandler (s : Schedule) (completion : Completion) : Schedule × Option (Nat × Bool) :=
  if completion.counter ∈ s.timers then
    (s.cancel completion.counter, some (completion.callback, completion.aborted))
  else (s, none)

def stop (s : Schedule) : Schedule := { s with stopped := true }

/-- What waits for its handler to run. -/
def pending (s : Schedule) : List Wait := s.waits ++ s.queue.map Completion.toWait

/-- A completed wait still waits for its handler. -/
theorem pending_completeWaits (s : Schedule) (ends : Wait → Bool) (aborted : Bool) :
    (s.completeWaits ends aborted).pending ~ s.pending := by
  have hmap : ((s.waits.filter ends).map fun wait =>
      ({ wait with aborted } : Completion)).map Completion.toWait = s.waits.filter ends := by
    rw [List.map_map]
    exact List.map_id _
  have hqueue : (s.completeWaits ends aborted).pending = s.waits.filter (!ends ·) ++
      (s.queue.map Completion.toWait ++ s.waits.filter ends) := by
    unfold pending completeWaits
    rw [List.map_append, hmap]
  rw [hqueue]
  calc s.waits.filter (!ends ·) ++ (s.queue.map Completion.toWait ++ s.waits.filter ends)
      ~ s.waits.filter (!ends ·) ++ (s.waits.filter ends ++ s.queue.map Completion.toWait) :=
        List.perm_append_comm.append_left _
    _ ~ (s.waits.filter ends ++ s.waits.filter (!ends ·)) ++ s.queue.map Completion.toWait := by
        rw [← List.append_assoc]
        exact List.perm_append_comm.append_right _
    _ ~ s.pending := (List.filter_append_perm ends s.waits).append_right _

@[simp]
theorem counter_cancel (s : Schedule) (item : UInt32) : (s.cancel item).counter = s.counter := by
  unfold cancel
  split <;> rfl

theorem pending_cancel (s : Schedule) (item : UInt32) : (s.cancel item).pending ~ s.pending := by
  unfold cancel
  split
  · exact s.pending_completeWaits _ true
  · exact List.Perm.refl _

theorem pending_add (s : Schedule) (callback : Nat) :
    (s.add callback).1.pending ~ { callback, counter := s.counter } :: s.pending := by
  change (s.waits ++ [_]) ++ s.queue.map Completion.toWait ~ _
  rw [List.append_assoc]
  exact List.perm_middle

theorem mem_timers_cancel {s : Schedule} {item counter : UInt32} :
    counter ∈ (s.cancel item).timers ↔ counter ∈ s.timers ∧ counter ≠ item := by
  unfold cancel
  split
  · exact Finset.mem_erase.trans and_comm
  · next hnot =>
    refine ⟨fun hmem => ⟨hmem, ?_⟩, And.left⟩
    rintro rfl
    exact hnot hmem

/-- Completions are queued behind the others. -/
theorem queue_subset_completeWaits (s : Schedule) (ends : Wait → Bool) (aborted : Bool) :
    s.queue ⊆ (s.completeWaits ends aborted).queue := List.subset_append_left _ _

theorem queue_subset_cancel (s : Schedule) (item : UInt32) : s.queue ⊆ (s.cancel item).queue := by
  unfold cancel
  split
  · exact s.queue_subset_completeWaits _ true
  · exact List.Subset.refl _

/-- A handler that runs is taken from what waits. -/
theorem pending_take {s : Schedule} {i : Nat} {completion : Completion}
    (hqueue : s.queue[i]? = some completion) :
    s.pending ~ completion.toWait :: { s with queue := s.queue.eraseIdx i }.pending := by
  obtain ⟨hi, rfl⟩ := List.getElem?_eq_some_iff.1 hqueue
  have htake := ((List.getElem_cons_eraseIdx_perm hi).symm.map Completion.toWait).append_left s.waits
  rw [List.map_cons] at htake
  exact htake.trans List.perm_middle

end Schedule

/-! ## Runs -/

/-- A schedule with what has happened to it. Callbacks are numbered as they are added; `cancelled`
are those of the items that were passed to `cancel`, and `swept` those that waited for their handler
when `cancel_all` was called. -/
structure ScheduleRun where
  schedule : Schedule := {}
  items : List UInt32 := []
  cancelled : List Nat := []
  swept : List Nat := []
  expired : List Nat := []
  ran : List Completion := []
  called : List (Nat × Bool) := []

namespace ScheduleRun

open Schedule

inductive Event
  | add
  | cancel (callback : Nat)
  | cancelAll
  | expire (counter : UInt32)
  | runHandler (i : Nat)
  | stop

/-- One event. A call is of the callback itself, or of the `post` of the `io_service` that was passed
to `add`. The destructor is `cancelAll` and then `stop`, after which no handler runs. -/
def step (s : ScheduleRun) : Event → Option ScheduleRun
  | .add =>
    let (schedule, item) := s.schedule.add s.items.length
    some { s with schedule, items := s.items ++ [item] }
  | .cancel callback =>
    s.items[callback]?.map fun item =>
      { s with schedule := s.schedule.cancel item, cancelled := s.cancelled ++ [callback] }
  | .cancelAll =>
    some { s with
      schedule := s.schedule.cancelAll
      swept := s.swept ++ s.schedule.pending.map Wait.callback }
  | .expire counter =>
    some { s with
      schedule := s.schedule.expire counter
      expired := s.expired ++
        (s.schedule.waits.filter (·.counter == counter)).map Wait.callback }
  | .runHandler i =>
    match s.schedule.stopped, s.schedule.queue[i]? with
    | false, some completion =>
      let taken := { s.schedule with queue := s.schedule.queue.eraseIdx i }
      let (schedule, call) := taken.runHandler completion
      some { s with schedule, ran := s.ran ++ [completion], called := s.called ++ call.toList }
    | _, _ => none
  | .stop => some { s with schedule := s.schedule.stop }

/-- What a step can do, with the guard under which it does so. -/
inductive Steps (s : ScheduleRun) : Event → ScheduleRun → Prop
  | add : Steps s .add { s with
      schedule := (s.schedule.add s.items.length).1
      items := s.items ++ [s.schedule.counter] }
  | cancel {callback : Nat} {item : UInt32} (hitem : s.items[callback]? = some item) :
      Steps s (.cancel callback) { s with
        schedule := s.schedule.cancel item
        cancelled := s.cancelled ++ [callback] }
  | cancelAll : Steps s .cancelAll { s with
      schedule := s.schedule.cancelAll
      swept := s.swept ++ s.schedule.pending.map Wait.callback }
  | expire (counter : UInt32) : Steps s (.expire counter) { s with
      schedule := s.schedule.expire counter
      expired := s.expired ++
        (s.schedule.waits.filter (·.counter == counter)).map Wait.callback }
  | calls {i : Nat} {completion : Completion} (hqueue : s.schedule.queue[i]? = some completion)
      (hthere : completion.counter ∈ s.schedule.timers) :
      Steps s (.runHandler i) { s with
        schedule := { s.schedule with queue := s.schedule.queue.eraseIdx i }.cancel
          completion.counter
        ran := s.ran ++ [completion]
        called := s.called ++ [(completion.callback, completion.aborted)] }
  | ignores {i : Nat} {completion : Completion} (hqueue : s.schedule.queue[i]? = some completion)
      (hgone : completion.counter ∉ s.schedule.timers) :
      Steps s (.runHandler i) { s with
        schedule := { s.schedule with queue := s.schedule.queue.eraseIdx i }
        ran := s.ran ++ [completion] }
  | stop : Steps s .stop { s with schedule := s.schedule.stop }

theorem steps_of_step {s s' : ScheduleRun} {e : Event} (hstep : step s e = some s') :
    Steps s e s' := by
  cases e with
  | add =>
    cases hstep
    exact .add
  | cancel callback =>
    rw [step, Option.map_eq_some_iff] at hstep
    obtain ⟨item, hitem, rfl⟩ := hstep
    exact .cancel hitem
  | cancelAll =>
    cases hstep
    exact .cancelAll
  | expire counter =>
    cases hstep
    exact .expire counter
  | runHandler i =>
    simp only [step] at hstep
    split at hstep
    · next completion _ hqueue =>
      cases hstep
      by_cases hmem : completion.counter ∈ s.schedule.timers
      · have hcalls := Steps.calls hqueue hmem
        rwa [runHandler, if_pos hmem]
      · have hignores := Steps.ignores hqueue hmem
        rw [runHandler, if_neg hmem, Option.toList_none, List.append_nil]
        exact hignores
    · cases hstep
  | stop =>
    cases hstep
    exact .stop

/-- The callbacks that wait for their handler and those whose handler has run. -/
def tracked (s : ScheduleRun) : List Wait :=
  s.schedule.pending ++ s.ran.map Completion.toWait

/-- Each callback that was added is in one place, and a call was made by its handler. -/
structure Sound (s : ScheduleRun) : Prop where
  places : s.tracked.map Wait.callback ~ List.range s.items.length
  items : ∀ wait ∈ s.tracked, s.items[wait.callback]? = some wait.counter
  called : s.called.map Prod.fst <+ s.ran.map fun completion => completion.callback

variable {s s' : ScheduleRun}

theorem sound_start : Sound {} where
  places := List.Perm.refl _
  items := fun _ h => by cases h
  called := List.Sublist.refl _

/-- A step that adds no callback. -/
theorem Sound.of_perm (h : Sound s) (htracked : s'.tracked ~ s.tracked) (hitems : s'.items = s.items)
    (hcalled : s'.called.map Prod.fst <+ s'.ran.map fun completion => completion.callback) :
    Sound s' where
  places := by
    rw [hitems]
    exact (htracked.map _).trans h.places
  items := by
    intro wait hwait
    rw [hitems]
    exact h.items wait (htracked.mem_iff.1 hwait)
  called := hcalled

/-- The handler of a completion has run. -/
theorem tracked_ran {i : Nat} {completion : Completion}
    (hqueue : s.schedule.queue[i]? = some completion) {pending : List Wait}
    (hpending : pending ~ { s.schedule with queue := s.schedule.queue.eraseIdx i }.pending) :
    pending ++ (s.ran ++ [completion]).map Completion.toWait ~ s.tracked := by
  rw [List.map_append, List.map_singleton, ← List.append_assoc]
  calc pending ++ s.ran.map Completion.toWait ++ [completion.toWait]
      ~ completion.toWait :: (pending ++ s.ran.map Completion.toWait) := List.perm_append_singleton _ _
    _ ~ (completion.toWait :: { s.schedule with
          queue := s.schedule.queue.eraseIdx i }.pending) ++ s.ran.map Completion.toWait :=
        (hpending.cons _).append_right _
    _ ~ s.tracked := (Schedule.pending_take hqueue).symm.append_right _

theorem Sound.step (h : Sound s) {e : Event} (hstep : ScheduleRun.step s e = some s') :
    Sound s' := by
  cases steps_of_step hstep with
  | add =>
    have htracked := (Schedule.pending_add s.schedule s.items.length).append_right
      (s.ran.map Completion.toWait)
    constructor
    · refine (htracked.map Wait.callback).trans ?_
      rw [List.length_append, List.length_singleton, List.range_succ]
      exact (h.places.cons _).trans (List.perm_append_singleton _ _).symm
    · intro wait hwait
      rcases List.mem_cons.1 (htracked.mem_iff.1 hwait) with rfl | hold
      · exact List.getElem?_concat_length
      · have hitem := h.items wait hold
        rw [List.getElem?_append_left (List.getElem?_eq_some_iff.1 hitem).1]
        exact hitem
    · exact h.called
  | cancel hitem =>
    exact h.of_perm ((Schedule.pending_cancel s.schedule _).append_right _) rfl h.called
  | cancelAll =>
    exact h.of_perm ((Schedule.pending_completeWaits s.schedule _ true).append_right _) rfl h.called
  | expire counter =>
    exact h.of_perm ((Schedule.pending_completeWaits s.schedule _ false).append_right _) rfl
      h.called
  | calls hqueue hthere =>
    refine h.of_perm (tracked_ran hqueue (Schedule.pending_cancel _ _)) rfl ?_
    rw [List.map_append, List.map_append]
    exact h.called.append (List.Sublist.refl _)
  | ignores hqueue hgone =>
    refine h.of_perm (tracked_ran hqueue (List.Perm.refl _)) rfl ?_
    rw [List.map_append]
    exact h.called.trans (List.sublist_append_left _ _)
  | stop => exact h.of_perm (List.Perm.refl _) rfl h.called

/-- No callback is in two places. -/
theorem Sound.apart (h : Sound s) :
    (s.schedule.pending.map Wait.callback).Nodup ∧
      (s.ran.map fun completion => completion.callback).Nodup ∧
      ∀ wait ∈ s.schedule.pending,
        wait.callback ∉ s.ran.map fun completion => completion.callback := by
  have hnodup : (s.tracked.map Wait.callback).Nodup := h.places.nodup_iff.2 List.nodup_range
  rw [tracked, List.map_append, List.nodup_append, List.map_map] at hnodup
  obtain ⟨hpending, hran, hdisjoint⟩ := hnodup
  refine ⟨hpending, hran, ?_⟩
  intro wait hwait hmem
  exact hdisjoint _ (List.mem_map_of_mem hwait) _ hmem rfl

/-- A callback whose handler waits has not been called. -/
theorem Sound.not_called (h : Sound s) {wait : Wait} (hwait : wait ∈ s.schedule.pending) :
    wait.callback ∉ s.called.map Prod.fst := by
  intro hcalled
  apply h.apart.2.2 wait hwait
  exact h.called.subset hcalled

/-! ## `cancel_all` -/

/-- What was cancelled by `cancel_all` has not been called. -/
def SweptUncalled (s : ScheduleRun) : Prop := ∀ callback ∈ s.swept, callback ∉ s.called.map Prod.fst

/-- The condition on a step: the handler of what was cancelled by `cancel_all` finds no timer. -/
def TimerGone (s : ScheduleRun) : Event → Prop
  | .runHandler i => ∀ completion, s.schedule.queue[i]? = some completion →
      completion.callback ∈ s.swept → completion.counter ∉ s.schedule.timers
  | _ => True

structure Swept (s : ScheduleRun) : Prop extends Sound s where
  uncalled : SweptUncalled s

theorem swept_start : Swept {} where
  toSound := sound_start
  uncalled := fun _ h => by cases h

theorem Swept.step (h : Swept s) {e : Event} (hgone : s.TimerGone e)
    (hstep : ScheduleRun.step s e = some s') : Swept s' := by
  refine ⟨h.toSound.step hstep, ?_⟩
  cases steps_of_step hstep with
  | cancelAll =>
    intro callback hcallback
    rcases List.mem_append.1 hcallback with hold | hnew
    · exact h.uncalled callback hold
    · obtain ⟨wait, hwait, rfl⟩ := List.mem_map.1 hnew
      exact h.not_called hwait
  | @calls i completion hqueue hthere =>
    intro callback hcallback hcalled
    rw [List.map_append, List.mem_append] at hcalled
    rcases hcalled with hold | hnew
    · exact h.uncalled callback hcallback hold
    · have hsame : callback = completion.callback := List.mem_singleton.1 hnew
      exact hgone completion hqueue (hsame ▸ hcallback) hthere
  | _ => exact h.uncalled

/-- A handler that finds its timer calls what was cancelled. -/
theorem not_sweptUncalled_step {e : Event} (hgone : ¬ s.TimerGone e)
    (hstep : ScheduleRun.step s e = some s') : ¬ SweptUncalled s' := by
  intro hswept
  cases steps_of_step hstep with
  | @calls i completion hqueue hthere =>
    refine hgone ?_
    intro completion' hqueue' hcallback
    cases hqueue.symm.trans hqueue'
    refine absurd ?_ (hswept completion.callback hcallback)
    rw [List.map_append]
    exact List.mem_append_right _ (List.mem_singleton_self _)
  | @ignores i completion hqueue hnone =>
    refine hgone ?_
    intro completion' hqueue' hcallback
    cases hqueue.symm.trans hqueue'
    exact hnone
  | _ => exact hgone trivial

/-! ## `cancel` -/

/-- The timer of the callback has expired: its completion waits for the handler or has been handled. -/
def TimerExpired (s : ScheduleRun) (callback : Nat) : Prop :=
  ∃ completion ∈ s.schedule.queue ++ s.ran,
    completion.callback = callback ∧ completion.aborted = false

/-- What holds as long as the counter has not gone round: an item is the number of its callback, a
timer is taken away by its handler or by a `cancel` of its item, and by nobody else. -/
structure Kept (s : ScheduleRun) : Prop extends Sound s where
  counter : s.schedule.counter = UInt32.ofNat s.items.length
  numbers : ∀ n item, s.items[n]? = some item → item = UInt32.ofNat n
  held : ∀ wait ∈ s.schedule.pending, wait.callback ∉ s.cancelled →
    wait.counter ∈ s.schedule.timers
  served : ∀ completion ∈ s.ran, completion.callback ∉ s.cancelled →
    (completion.callback, completion.aborted) ∈ s.called
  expired : ∀ callback ∈ s.expired, s.TimerExpired callback

theorem kept_start : Kept {} where
  toSound := sound_start
  counter := rfl
  numbers := fun _ _ h => by cases h
  held := fun _ h => by cases h
  served := fun _ h => by cases h
  expired := fun _ h => by cases h

/-- Different callbacks have different items. -/
theorem Kept.items_inj (h : Kept s) (hfew : s.items.length < 2 ^ 32) {m n : Nat} {item : UInt32}
    (hm : s.items[m]? = some item) (hn : s.items[n]? = some item) : m = n := by
  have hsame : UInt32.ofNat m = UInt32.ofNat n :=
    (h.numbers m item hm).symm.trans (h.numbers n item hn)
  have hltm := (List.getElem?_eq_some_iff.1 hm).1
  have hltn := (List.getElem?_eq_some_iff.1 hn).1
  rw [← UInt32.toNat_inj, UInt32.toNat_ofNat_of_lt' (Nat.lt_trans hltm hfew),
    UInt32.toNat_ofNat_of_lt' (Nat.lt_trans hltn hfew)] at hsame
  exact hsame

/-- Only the callback itself is kept under its counter. -/
theorem Kept.callback_inj (h : Kept s) (hfew : s.items.length < 2 ^ 32) {wait : Wait}
    (hwait : wait ∈ s.tracked) {n : Nat} (hn : s.items[n]? = some wait.counter) :
    wait.callback = n :=
  h.items_inj hfew (h.items wait hwait) hn

/-- The callback whose handler runs does not wait again. -/
theorem Sound.callback_ne (h : Sound s) {i : Nat} {completion : Completion}
    (hqueue : s.schedule.queue[i]? = some completion) {wait : Wait}
    (hwait : wait ∈ { s.schedule with queue := s.schedule.queue.eraseIdx i }.pending) :
    wait.callback ≠ completion.callback := by
  have hpending := ((Schedule.pending_take hqueue).map Wait.callback).nodup_iff.1 h.apart.1
  rw [List.map_cons, List.nodup_cons] at hpending
  exact fun hsame => hpending.1 (hsame ▸ List.mem_map_of_mem hwait)

theorem mem_pending_of_take {i : Nat} {completion : Completion}
    (hqueue : s.schedule.queue[i]? = some completion) {wait : Wait}
    (hwait : wait ∈ { s.schedule with queue := s.schedule.queue.eraseIdx i }.pending) :
    wait ∈ s.schedule.pending :=
  (Schedule.pending_take hqueue).mem_iff.2 (List.mem_cons_of_mem _ hwait)

theorem toWait_mem_pending {i : Nat} {completion : Completion}
    (hqueue : s.schedule.queue[i]? = some completion) :
    completion.toWait ∈ s.schedule.pending :=
  (Schedule.pending_take hqueue).mem_iff.2 List.mem_cons_self

theorem TimerExpired.mono {callback : Nat} (h : s.TimerExpired callback)
    (hsub : s.schedule.queue ++ s.ran ⊆ s'.schedule.queue ++ s'.ran) :
    s'.TimerExpired callback := by
  obtain ⟨completion, hmem, hrest⟩ := h
  exact ⟨completion, hsub hmem, hrest⟩

theorem TimerExpired.of_queue {callback : Nat} (h : s.TimerExpired callback)
    (hqueue : s.schedule.queue ⊆ s'.schedule.queue) (hran : s'.ran = s.ran) :
    s'.TimerExpired callback := by
  refine h.mono ?_
  rw [hran]
  exact List.append_subset.2
    ⟨List.subset_append_of_subset_left _ hqueue, List.subset_append_right _ _⟩

/-- A completion whose handler runs is not lost. -/
theorem subset_of_take {i : Nat} {completion : Completion}
    (hqueue : s.schedule.queue[i]? = some completion) {queue : List Completion}
    (hsub : s.schedule.queue.eraseIdx i ⊆ queue) :
    s.schedule.queue ++ s.ran ⊆ queue ++ (s.ran ++ [completion]) := by
  intro other hmem
  obtain ⟨hi, rfl⟩ := List.getElem?_eq_some_iff.1 hqueue
  rcases List.mem_append.1 hmem with hwaits | hran
  · rcases List.mem_cons.1 ((List.getElem_cons_eraseIdx_perm hi).mem_iff.2 hwaits) with rfl | hother
    · exact List.mem_append_right _ (List.mem_append_right _ (List.mem_singleton_self _))
    · exact List.mem_append_left _ (hsub hother)
  · exact List.mem_append_right _ (List.mem_append_left _ hran)

theorem Kept.step (h : Kept s) (hfew : s.items.length < 2 ^ 32) {e : Event}
    (hstep : ScheduleRun.step s e = some s') : Kept s' := by
  have hsound := h.toSound.step hstep
  cases steps_of_step hstep with
  | add =>
    refine ⟨hsound, ?_, ?_, ?_, h.served, h.expired⟩
    · rw [List.length_append, List.length_singleton, UInt32.ofNat_add]
      change s.schedule.counter + 1 = _
      rw [h.counter]
      rfl
    · intro n item hitem
      have hlt := (List.getElem?_eq_some_iff.1 hitem).1
      rw [List.length_append, List.length_singleton] at hlt
      rcases Nat.lt_succ_iff_lt_or_eq.1 hlt with hold | rfl
      · rw [List.getElem?_append_left hold] at hitem
        exact h.numbers n item hitem
      · rw [List.getElem?_concat_length] at hitem
        cases hitem
        exact h.counter
    · intro wait hwait hcancelled
      rcases List.mem_cons.1 ((Schedule.pending_add _ _).mem_iff.1 hwait) with rfl | hold
      · exact Finset.mem_insert_self _ _
      · exact Finset.mem_insert_of_mem (h.held wait hold hcancelled)
  | @cancel callback item hitem =>
    refine ⟨hsound, ?_, h.numbers, ?_, ?_, ?_⟩
    · rw [← h.counter]
      exact Schedule.counter_cancel _ _
    · intro wait hwait hcancelled
      rw [List.mem_append, List.mem_singleton, not_or] at hcancelled
      have hold := (Schedule.pending_cancel _ _).mem_iff.1 hwait
      refine Schedule.mem_timers_cancel.2 ⟨h.held wait hold hcancelled.1, ?_⟩
      rintro rfl
      exact hcancelled.2 (h.callback_inj hfew (List.mem_append_left _ hold) hitem)
    · intro completion hran hcancelled
      exact h.served completion hran fun hmem => hcancelled (List.mem_append_left _ hmem)
    · intro n hn
      exact (h.expired n hn).of_queue (Schedule.queue_subset_cancel _ _) rfl
  | cancelAll =>
    refine ⟨hsound, h.counter, h.numbers, ?_, h.served, ?_⟩
    · intro wait hwait hcancelled
      exact h.held wait ((Schedule.pending_completeWaits _ _ _).mem_iff.1 hwait) hcancelled
    · intro n hn
      exact (h.expired n hn).of_queue (Schedule.queue_subset_completeWaits _ _ _) rfl
  | expire counter =>
    refine ⟨hsound, h.counter, h.numbers, ?_, h.served, ?_⟩
    · intro wait hwait hcancelled
      exact h.held wait ((Schedule.pending_completeWaits _ _ _).mem_iff.1 hwait) hcancelled
    · intro n hn
      rcases List.mem_append.1 hn with hold | hnew
      · exact (h.expired n hold).of_queue (Schedule.queue_subset_completeWaits _ _ _) rfl
      · obtain ⟨wait, hwait, rfl⟩ := List.mem_map.1 hnew
        refine ⟨{ wait with aborted := false }, ?_, rfl, rfl⟩
        exact List.mem_append_left _ (List.mem_append_right _ (List.mem_map_of_mem hwait))
  | @calls i completion hqueue hthere =>
    refine ⟨hsound, ?_, h.numbers, ?_, ?_, ?_⟩
    · rw [← h.counter]
      exact Schedule.counter_cancel _ _
    · intro wait hwait hcancelled
      have hwait := (Schedule.pending_cancel _ _).mem_iff.1 hwait
      have hold := mem_pending_of_take hqueue hwait
      refine Schedule.mem_timers_cancel.2 ⟨h.held wait hold hcancelled, ?_⟩
      -- another callback has another counter
      intro hsame
      have hitem := h.items _ (List.mem_append_left _ (toWait_mem_pending hqueue))
      refine h.callback_ne hqueue hwait (h.callback_inj hfew (List.mem_append_left _ hold) ?_)
      rw [hsame]
      exact hitem
    · intro completion' hran hcancelled
      rcases List.mem_append.1 hran with hold | hnew
      · exact List.mem_append_left _ (h.served completion' hold hcancelled)
      · cases List.mem_singleton.1 hnew
        exact List.mem_append_right _ (List.mem_singleton_self _)
    · intro n hn
      refine (h.expired n hn).mono (subset_of_take hqueue ?_)
      exact Schedule.queue_subset_cancel { s.schedule with queue := _ } _
  | @ignores i completion hqueue hgone =>
    refine ⟨hsound, h.counter, h.numbers, ?_, ?_, ?_⟩
    · intro wait hwait hcancelled
      exact h.held wait (mem_pending_of_take hqueue hwait) hcancelled
    · intro completion' hran hcancelled
      rcases List.mem_append.1 hran with hold | hnew
      · exact h.served completion' hold hcancelled
      · cases List.mem_singleton.1 hnew
        exact absurd (h.held _ (toWait_mem_pending hqueue) hcancelled) hgone
    · intro n hn
      exact (h.expired n hn).mono (subset_of_take hqueue (List.Subset.refl _))
  | stop => exact ⟨hsound, h.counter, h.numbers, h.held, h.served, h.expired⟩

/-- No timer is kept for the callback any more, and it has not been called. -/
structure Gone (s : ScheduleRun) (callback : Nat) : Prop where
  item : ∃ item, s.items[callback]? = some item ∧ item ∉ s.schedule.timers
  uncalled : callback ∉ s.called.map Prod.fst

/-- `cancel` before the handler has run. -/
theorem gone_cancel (h : Sound s) {callback : Nat}
    (hran : callback ∉ s.ran.map fun completion => completion.callback)
    (hstep : ScheduleRun.step s (.cancel callback) = some s') : Gone s' callback := by
  cases steps_of_step hstep with
  | @cancel callback item hitem =>
    refine ⟨⟨item, hitem, ?_⟩, fun hcalled => hran (h.called.subset hcalled)⟩
    intro hmem
    exact (Schedule.mem_timers_cancel.1 hmem).2 rfl

theorem Gone.step {callback : Nat} (hgone : Gone s callback) (h : Kept s)
    (hfew : s'.items.length < 2 ^ 32) {e : Event} (hstep : ScheduleRun.step s e = some s') :
    Gone s' callback := by
  obtain ⟨⟨item, hitem, hnone⟩, huncalled⟩ := hgone
  have hlt := (List.getElem?_eq_some_iff.1 hitem).1
  cases steps_of_step hstep with
  | add =>
    refine ⟨⟨item, ?_, ?_⟩, huncalled⟩
    · rw [List.getElem?_append_left hlt]
      exact hitem
    · intro hmem
      rcases Finset.mem_insert.1 hmem with hsame | hold
      · -- the counter is not back at this item yet
        have hnew : (s.items ++ [s.schedule.counter])[s.items.length]? = some item := by
          rw [hsame]
          exact List.getElem?_concat_length
        have hold : (s.items ++ [s.schedule.counter])[callback]? = some item := by
          rw [List.getElem?_append_left hlt]
          exact hitem
        have hkept : Kept _ := h.step (by rw [List.length_append] at hfew; omega) hstep
        have heq := hkept.items_inj hfew hold hnew
        omega
      · exact hnone hold
  | cancel hother =>
    exact ⟨⟨item, hitem, fun hmem => hnone (Schedule.mem_timers_cancel.1 hmem).1⟩, huncalled⟩
  | cancelAll => exact ⟨⟨item, hitem, hnone⟩, huncalled⟩
  | expire counter => exact ⟨⟨item, hitem, hnone⟩, huncalled⟩
  | @calls i completion hqueue hthere =>
    refine ⟨⟨item, hitem, fun hmem => hnone (Schedule.mem_timers_cancel.1 hmem).1⟩, ?_⟩
    rw [List.map_append, List.mem_append, not_or]
    refine ⟨huncalled, ?_⟩
    intro hcalled
    have hsame : callback = completion.callback := List.mem_singleton.1 hcalled
    have hcounter := h.items _ (List.mem_append_left _ (toWait_mem_pending hqueue))
    rw [← hsame, hitem] at hcounter
    cases hcounter
    exact hnone hthere
  | ignores hqueue hother => exact ⟨⟨item, hitem, hnone⟩, huncalled⟩
  | stop => exact ⟨⟨item, hitem, hnone⟩, huncalled⟩

theorem length_items_step {e : Event} (hstep : ScheduleRun.step s e = some s') :
    s.items.length ≤ s'.items.length := by
  cases steps_of_step hstep with
  | add => exact List.length_append ▸ Nat.le_add_right _ _
  | _ => exact Nat.le_refl _

theorem kept_of_run {es : List Event} (hs : Kept s) (hrun : Runs.run step s es = some s')
    (hfew : s'.items.length < 2 ^ 32) : Kept s' := by
  have hstep : ∀ (s : ScheduleRun) (e : Event) (s' : ScheduleRun),
      (s.items.length < 2 ^ 32 → Kept s) → ScheduleRun.step s e = some s' →
      s'.items.length < 2 ^ 32 → Kept s' := by
    intro s e s' h hstep hn
    have hless := Nat.lt_of_le_of_lt (length_items_step hstep) hn
    exact (h hless).step hless hstep
  exact Runs.run_invariant hstep (fun _ => hs) hrun hfew

theorem gone_of_run {callback : Nat} {es : List Event} (hs : Kept s) (hgone : Gone s callback)
    (hrun : Runs.run step s es = some s') (hfew : s'.items.length < 2 ^ 32) :
    Gone s' callback := by
  have hstep : ∀ (s : ScheduleRun) (e : Event) (s' : ScheduleRun),
      (s.items.length < 2 ^ 32 → Kept s ∧ Gone s callback) → ScheduleRun.step s e = some s' →
      s'.items.length < 2 ^ 32 → Kept s' ∧ Gone s' callback := by
    intro s e s' h hstep hn
    have hless := Nat.lt_of_le_of_lt (length_items_step hstep) hn
    obtain ⟨hkept, hgone⟩ := h hless
    exact ⟨hkept.step hless hstep, hgone.step hkept hn hstep⟩
  exact (Runs.run_invariant hstep (fun _ => ⟨hs, hgone⟩) hrun hfew).2

theorem length_items_run {es : List Event} (hrun : Runs.run step s es = some s') :
    s.items.length ≤ s'.items.length :=
  Runs.run_invariant (fun _ _ _ h hstep => Nat.le_trans h (length_items_step hstep))
    (Nat.le_refl _) hrun

/-- A callback is called at most once. -/
theorem Sound.nodup_called (h : Sound s) : (s.called.map Prod.fst).Nodup :=
  h.called.nodup h.apart.2.1

/-- A callback has one completion, so one whose timer expired was called when its handler ran. -/
theorem Kept.called_of_expired (h : Kept s) {callback : Nat} (hexpired : callback ∈ s.expired)
    (hcancelled : callback ∉ s.cancelled)
    (hran : callback ∈ s.ran.map fun completion => completion.callback) :
    (callback, false) ∈ s.called := by
  obtain ⟨completion, hmem, rfl, haborted⟩ := h.expired callback hexpired
  rcases List.mem_append.1 hmem with hwaits | hdone
  · have hpending : completion.toWait ∈ s.schedule.pending :=
      List.mem_append_right _ (List.mem_map_of_mem hwaits)
    exact absurd hran (h.apart.2.2 _ hpending)
  · rw [← haborted]
    exact h.served completion hdone hcancelled

end ScheduleRun

open ScheduleRun in
/-- **Callbacks.** In every run with fewer than 2^32 callbacks none is called twice, none is called
whose item was cancelled before its handler ran, and one whose timer expired and whose item was not
cancelled has been called, without an error, once its handler has run. -/
theorem callbacks_called {es : List Event} {t : ScheduleRun} (hrun : Runs.run step {} es = some t)
    (hfew : t.items.length < 2 ^ 32) :
    (t.called.map Prod.fst).Nodup ∧
      (∀ before callback after u, es = before ++ .cancel callback :: after →
        Runs.run step {} before = some u →
        callback ∉ (u.ran.map fun completion => completion.callback) →
        callback ∉ t.called.map Prod.fst) ∧
      ∀ callback ∈ t.expired, callback ∉ t.cancelled →
        callback ∈ (t.ran.map fun completion => completion.callback) →
        (callback, false) ∈ t.called := by
  have hkept : Kept t := kept_of_run kept_start hrun hfew
  refine ⟨hkept.nodup_called, ?_, fun callback => hkept.called_of_expired⟩
  rintro before callback after u rfl hu hran
  obtain ⟨u', hu', hrest⟩ := Runs.run_append_eq_some.1 hrun
  cases hu.symm.trans hu'
  obtain ⟨v, hv, hafter⟩ := Runs.run_cons_eq_some.1 hrest
  have hv_few : v.items.length < 2 ^ 32 := Nat.lt_of_le_of_lt (length_items_run hafter) hfew
  have hu_few : u.items.length < 2 ^ 32 := Nat.lt_of_le_of_lt (length_items_step hv) hv_few
  have hu_kept : Kept u := kept_of_run kept_start hu hu_few
  have hgone : Gone v callback := gone_cancel hu_kept.toSound hran hv
  exact (gone_of_run (hu_kept.step hu_few hv) hgone hafter hfew).uncalled

/-- Of two callbacks that are due one is cancelled before its handler runs. -/
theorem callbacks_called_sample :
    ∃ t, Runs.run ScheduleRun.step {}
        [.add, .add, .expire 0, .expire 1, .cancel 0, .runHandler 1, .runHandler 0] = some t ∧
      t.called = [(1, false)] ∧ (t.called.map Prod.fst).Nodup ∧ 0 ∉ t.called.map Prod.fst := by
  have hend : (Runs.run ScheduleRun.step {}
      [.add, .add, .expire 0, .expire 1, .cancel 0, .runHandler 1, .runHandler 0]).map
      (fun t => (t.items.length, t.called)) = some (2, [(1, false)]) := by decide
  obtain ⟨t, hrun, hpair⟩ := Option.map_eq_some_iff.1 hend
  obtain ⟨hitems, hcalled⟩ := Prod.mk.inj hpair
  have hall := callbacks_called hrun (by rw [hitems]; decide)
  refine ⟨t, hrun, hcalled, hall.1, ?_⟩
  exact hall.2.1 [.add, .add, .expire 0, .expire 1] 0 [.runHandler 1, .runHandler 0] _ rfl rfl
    (by decide)

open ScheduleRun in
/-- **Cancelling everything.** In every state that a run reaches no callback has been called that was
waiting for its handler when `cancel_all` was called, if and only if the handlers of such callbacks
always find that their timers have been taken away. -/
theorem swept_uncalled_iff {es : List Event} {t : ScheduleRun}
    (hrun : Runs.run step {} es = some t) :
    (∀ before u, before <+: es → Runs.run step {} before = some u → u.SweptUncalled) ↔
      Runs.Along step TimerGone {} es :=
  Runs.always_iff_along (fun _ h => Swept.uncalled h)
    (fun _ _ _ h hgone hstep => Swept.step h hgone hstep)
    (fun _ _ _ _ hgone hstep => not_sweptUncalled_step hgone hstep) swept_start hrun

/-- A callback is cancelled by `cancel_all`, and then its item is. -/
theorem swept_uncalled_iff_sample :
    ∃ t, Runs.run ScheduleRun.step {} [.add, .cancelAll, .cancel 0, .runHandler 0] = some t ∧
      t.swept = [0] ∧ t.ran.length = 1 ∧ t.SweptUncalled := by
  have hend : (Runs.run ScheduleRun.step {} [.add, .cancelAll, .cancel 0, .runHandler 0]).map
      (fun t => (t.swept, t.ran.length)) = some ([0], 1) := by decide
  obtain ⟨t, hrun, hpair⟩ := Option.map_eq_some_iff.1 hend
  obtain ⟨hswept, hran⟩ := Prod.mk.inj hpair
  refine ⟨t, hrun, hswept, hran, (swept_uncalled_iff hrun).2 ?_ _ t List.prefix_rfl hrun⟩
  refine ⟨trivial, ?_⟩
  rintro _ ⟨⟩
  refine ⟨trivial, ?_⟩
  rintro _ ⟨⟩
  refine ⟨trivial, ?_⟩
  rintro s hs
  refine ⟨?_, fun _ _ => trivial⟩
  have htimers : s.schedule.timers = ∅ := by
    cases hs
    decide
  intro completion _ _
  rw [htimers]
  exact Finset.notMem_empty _

/-- The destructor calls `cancel_all`, and a handler runs before the `io_service` stops: it calls the
callback, with an error. -/
theorem swept_called :
    ∃ t, Runs.run ScheduleRun.step {} [.add, .cancelAll, .runHandler 0, .stop] = some t ∧
      t.swept = [0] ∧ t.called = [(0, true)] ∧ ¬ t.SweptUncalled := by
  have hend : (Runs.run ScheduleRun.step {} [.add, .cancelAll, .runHandler 0, .stop]).map
      (fun t => (t.swept, t.called)) = some ([0], [(0, true)]) := by decide
  obtain ⟨t, hrun, hpair⟩ := Option.map_eq_some_iff.1 hend
  obtain ⟨hswept, hcalled⟩ := Prod.mk.inj hpair
  refine ⟨t, hrun, hswept, hcalled, ?_⟩
  intro huncalled
  refine huncalled 0 ?_ ?_
  · rw [hswept]
    exact List.mem_singleton_self 0
  · rw [hcalled]
    exact List.mem_singleton_self 0

end KeycapRoot.Utility
