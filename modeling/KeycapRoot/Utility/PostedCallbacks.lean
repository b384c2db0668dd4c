import KeycapRoot.Utility.Schedule

/-!
# Callbacks that run elsewhere

`add` takes an `io_service`. With one, the handler of the timer does not call the callback but posts
it there, and so takes the timer away before the callback has run. From then on neither `cancel` nor
`cancel_all` nor the end of the schedule reach it: what was posted runs in its turn, and of what was
cancelled nothing else runs (`posted_beyond_recall`).
-/

namespace KeycapRoot.Utility

open scoped List

namespace ScheduleRun

/-! ## What is settled for a cancelled callback -/

section Settled

variable {s s' t : ScheduleRun} {e : Event}

theorem called_step (hstep : ScheduleRun.step s e = some s') :
    ∃ calls, s'.called = s.called ++ calls := by
  cases steps_of_step hstep with
  | calls hqueue hthere => exact ⟨_, rfl⟩
  | _ => exact ⟨[], (List.append_nil _).symm⟩

/-- The handler of the callback has run. -/
def Handled (s : ScheduleRun) (callback : Nat) : Prop :=
  callback ∈ s.ran.map fun completion => completion.callback

theorem Handled.step {callback : Nat} (hran : Handled s callback) (h : Sound s)
    (hstep : ScheduleRun.step s e = some s') :
    Handled s' callback ∧
      (callback ∈ s'.called.map Prod.fst → callback ∈ s.called.map Prod.fst) := by
  cases steps_of_step hstep with
  | @calls i completion hqueue hthere =>
    constructor
    · change callback ∈ (s.ran ++ [completion]).map _
      rw [List.map_append]
      exact List.mem_append_left _ hran
    · intro hcalled
      rw [List.map_append, List.mem_append] at hcalled
      rcases hcalled with hold | hnew
      · exact hold
      · -- a handler that still waits is another one
        have hsame : callback = completion.callback := List.mem_singleton.1 hnew
        exact absurd (hsame ▸ hran) (h.apart.2.2 _ (toWait_mem_pending hqueue))
  | @ignores i completion hqueue hgone =>
    refine ⟨?_, id⟩
    change callback ∈ (s.ran ++ [completion]).map _
    rw [List.map_append]
    exact List.mem_append_left _ hran
  | _ => exact ⟨hran, id⟩

/-- Nothing will be called for what was cancelled but what has been. -/
structure Settled (s : ScheduleRun) : Prop extends Kept s where
  settled : ∀ callback ∈ s.cancelled, Handled s callback ∨ Gone s callback

theorem settled_start : Settled {} where
  toKept := kept_start
  settled := fun _ h => by cases h

theorem Settled.step (h : Settled s) (hfew : s'.items.length < 2 ^ 32)
    (hstep : ScheduleRun.step s e = some s') :
    Settled s' ∧ ∀ callback ∈ s.cancelled,
      callback ∈ s'.called.map Prod.fst → callback ∈ s.called.map Prod.fst := by
  have hless := Nat.lt_of_le_of_lt (length_items_step hstep) hfew
  have hold : ∀ callback ∈ s.cancelled, (Handled s' callback ∨ Gone s' callback) ∧
      (callback ∈ s'.called.map Prod.fst → callback ∈ s.called.map Prod.fst) := by
    intro callback hcancelled
    rcases h.settled callback hcancelled with hran | hgone
    · obtain ⟨hran', hcalled⟩ := hran.step h.toSound hstep
      exact ⟨Or.inl hran', hcalled⟩
    · have hgone' := hgone.step h.toKept hfew hstep
      exact ⟨Or.inr hgone', fun hcalled => absurd hcalled hgone'.uncalled⟩
  refine ⟨⟨h.toKept.step hless hstep, ?_⟩, fun callback hmem => (hold callback hmem).2⟩
  intro callback hmem
  by_cases hcancelled : callback ∈ s.cancelled
  · exact (hold callback hcancelled).1
  · cases steps_of_step hstep with
    | @cancel last item hitem =>
      rcases List.mem_append.1 hmem with hearlier | hnew
      · exact absurd hearlier hcancelled
      · obtain rfl := List.mem_singleton.1 hnew
        by_cases hran : Handled s callback
        · exact Or.inl hran
        · exact Or.inr (gone_cancel h.toSound hran hstep)
    | _ => exact absurd hmem hcancelled

/-- What has become of a settled schedule later on. -/
structure Since (s t : ScheduleRun) : Prop extends Settled t where
  kept : s.cancelled ⊆ t.cancelled
  earlier : ∀ callback ∈ s.cancelled,
    callback ∈ t.called.map Prod.fst → callback ∈ s.called.map Prod.fst

theorem cancelled_step (hstep : ScheduleRun.step s e = some s') : s.cancelled ⊆ s'.cancelled := by
  cases steps_of_step hstep with
  | cancel hitem => exact List.subset_append_left _ _
  | _ => exact List.Subset.refl _

theorem Since.step (h : Since t s) (hfew : s'.items.length < 2 ^ 32)
    (hstep : ScheduleRun.step s e = some s') : Since t s' := by
  obtain ⟨hsettled, hcalled⟩ := h.toSettled.step hfew hstep
  refine ⟨hsettled, List.Subset.trans h.kept (cancelled_step hstep), ?_⟩
  intro callback hmem hlater
  exact h.earlier callback hmem (hcalled callback (h.kept hmem) hlater)

end Settled

end ScheduleRun

/-! ## Runs -/

/-- A schedule with the `io_service`s that are passed to `add`: the callbacks that were added with
one, the calls that were posted and wait there, and those of a callback itself. -/
structure PostedRun where
  run : ScheduleRun := {}
  external : List Nat := []
  posted : List (Nat × Bool) := []
  invoked : List (Nat × Bool) := []

namespace PostedRun

inductive Event
  | schedule (e : ScheduleRun.Event)
  | addExternal
  | runPosted (i : Nat)

/-- The calls that a step of the schedule makes: a handler posts, or calls the callback itself. -/
def follow (s : PostedRun) (run : ScheduleRun) : PostedRun :=
  let calls := run.called.drop s.run.called.length
  { s with
    run
    posted := s.posted ++ calls.filter fun call => call.1 ∈ s.external
    invoked := s.invoked ++ calls.filter fun call => call.1 ∉ s.external }

/-- An `io_service` runs what was posted to it whether or not the schedule has been stopped. -/
def step (s : PostedRun) : Event → Option PostedRun
  | .schedule e => (s.run.step e).map s.follow
  | .addExternal => (s.run.step .add).map fun run =>
      { s with run, external := s.external ++ [s.run.items.length] }
  | .runPosted i => (s.posted[i]?).map fun call =>
      { s with posted := s.posted.eraseIdx i, invoked := s.invoked ++ [call] }

variable {s s' t : PostedRun}

/-- Each call is in one place. -/
structure Accounted (s : PostedRun) : Prop where
  calls : s.invoked ++ s.posted ~ s.run.called
  external : ∀ call ∈ s.posted, call.1 ∈ s.external

theorem accounted_start : Accounted {} := ⟨.refl _, fun _ h => by cases h⟩

theorem invoked_take {i : Nat} {call : Nat × Bool} (hcall : s.posted[i]? = some call) :
    (s.invoked ++ [call]) ++ s.posted.eraseIdx i ~ s.invoked ++ s.posted := by
  obtain ⟨hi, rfl⟩ := List.getElem?_eq_some_iff.1 hcall
  rw [List.append_assoc]
  exact (List.getElem_cons_eraseIdx_perm hi).append_left _

/-- New calls go to one place or the other. -/
theorem split_calls {invoked posted called calls : List (Nat × Bool)}
    (h : invoked ++ posted ~ called) (external : List Nat) :
    (invoked ++ calls.filter fun call => call.1 ∉ external) ++
      (posted ++ calls.filter fun call => call.1 ∈ external) ~ called ++ calls := by
  have hsplit : (calls.filter fun call => call.1 ∈ external) ++
      (calls.filter fun call => call.1 ∉ external) ~ calls := by
    simp only [decide_not]
    exact List.filter_append_perm _ calls
  generalize (calls.filter fun call => call.1 ∈ external) = there at *
  generalize (calls.filter fun call => call.1 ∉ external) = here at *
  calc (invoked ++ here) ++ (posted ++ there)
      = invoked ++ (here ++ (posted ++ there)) := List.append_assoc _ _ _
    _ ~ invoked ++ ((posted ++ there) ++ here) := List.perm_append_comm.append_left _
    _ = (invoked ++ posted) ++ (there ++ here) := by simp only [List.append_assoc]
    _ ~ called ++ calls := h.append hsplit

theorem Accounted.step (h : Accounted s) {e : Event} (hstep : s.step e = some s') :
    Accounted s' := by
  cases e with
  | schedule e =>
    obtain ⟨run, hrun, rfl⟩ := Option.map_eq_some_iff.1 hstep
    obtain ⟨calls, hcalls⟩ := ScheduleRun.called_step hrun
    have hnew : run.called.drop s.run.called.length = calls := by
      rw [hcalls, List.drop_left]
    constructor
    · change (s.invoked ++ _) ++ (s.posted ++ _) ~ run.called
      rw [hnew, hcalls]
      exact split_calls h.calls _
    · intro call hmem
      rcases List.mem_append.1 hmem with hold | hposted
      · exact h.external call hold
      · exact of_decide_eq_true (List.mem_filter.1 hposted).2
  | addExternal =>
    cases hstep
    exact ⟨h.calls, fun call hmem => List.mem_append_left _ (h.external call hmem)⟩
  | runPosted i =>
    obtain ⟨call, hcall, rfl⟩ := Option.map_eq_some_iff.1 hstep
    refine ⟨(invoked_take hcall).trans h.calls, ?_⟩
    exact fun other hmem => h.external other (List.mem_of_mem_eraseIdx hmem)

/-- A call that was posted waits, or has been made. -/
theorem posted_step {e : Event} (hstep : s.step e = some s') :
    s.invoked ++ s.posted ⊆ s'.invoked ++ s'.posted := by
  cases e with
  | schedule e =>
    obtain ⟨run, -, rfl⟩ := Option.map_eq_some_iff.1 hstep
    intro call hmem
    rcases List.mem_append.1 hmem with hinvoked | hposted
    · exact List.mem_append_left _ (List.mem_append_left _ hinvoked)
    · exact List.mem_append_right _ (List.mem_append_left _ hposted)
  | addExternal =>
    cases hstep
    exact List.Subset.refl _
  | runPosted i =>
    obtain ⟨call, hcall, rfl⟩ := Option.map_eq_some_iff.1 hstep
    exact fun other hmem => (invoked_take hcall).mem_iff.2 hmem

theorem posted_run {es : List Event} (hrun : Runs.run step s es = some t) :
    s.invoked ++ s.posted ⊆ t.invoked ++ t.posted :=
  Runs.run_invariant (fun _ _ _ h hstep => List.Subset.trans h (posted_step hstep))
    (List.Subset.refl _) hrun

/-- A step is one of the schedule, or leaves it. -/
theorem run_step {e : Event} (hstep : s.step e = some s') :
    (∃ e', s.run.step e' = some s'.run) ∨ s'.run = s.run := by
  cases e with
  | schedule e =>
    obtain ⟨run, hrun, rfl⟩ := Option.map_eq_some_iff.1 hstep
    exact Or.inl ⟨e, hrun⟩
  | addExternal =>
    cases hstep
    exact Or.inl ⟨.add, rfl⟩
  | runPosted i =>
    obtain ⟨call, -, rfl⟩ := Option.map_eq_some_iff.1 hstep
    exact Or.inr rfl

theorem length_items_step {e : Event} (hstep : s.step e = some s') :
    s.run.items.length ≤ s'.run.items.length := by
  rcases run_step hstep with ⟨e', hrun⟩ | hsame
  · exact ScheduleRun.length_items_step hrun
  · rw [hsame]

theorem since_run (hsettled : s.run.Settled) {es : List Event} (hrun : Runs.run step s es = some t)
    (hfew : t.run.items.length < 2 ^ 32) : ScheduleRun.Since s.run t.run := by
  have hkeep : ∀ (u : PostedRun) (e : Event) (u' : PostedRun),
      (u.run.items.length < 2 ^ 32 → ScheduleRun.Since s.run u.run) → u.step e = some u' →
      u'.run.items.length < 2 ^ 32 → ScheduleRun.Since s.run u'.run := by
    intro u e u' h hstep hn
    have hsince := h (Nat.lt_of_le_of_lt (length_items_step hstep) hn)
    rcases run_step hstep with ⟨e', hrun⟩ | hsame
    · exact hsince.step hn hrun
    · rwa [hsame]
  have hstart : ScheduleRun.Since s.run s.run :=
    ⟨hsettled, List.Subset.refl _, fun _ _ hcalled => hcalled⟩
  exact Runs.run_invariant hkeep (fun _ => hstart) hrun hfew

theorem accounted_run (h : Accounted s) {es : List Event} (hrun : Runs.run step s es = some t) :
    Accounted t :=
  Runs.run_invariant (fun _ _ _ h hstep => h.step hstep) h hrun

/-- The `io_service`s run what was posted, one after the other. -/
theorem run_posted (s : PostedRun) :
    ∃ t, Runs.run step s (List.replicate s.posted.length (.runPosted 0)) = some t ∧
      t.posted = [] ∧ t.invoked = s.invoked ++ s.posted := by
  generalize hposted : s.posted = posted
  induction posted generalizing s with
  | nil => exact ⟨s, rfl, hposted, (List.append_nil _).symm⟩
  | cons call posted ih =>
    have hstep : s.step (.runPosted 0) =
        some { s with posted := posted, invoked := s.invoked ++ [call] } := by
      rw [step, hposted]
      rfl
    obtain ⟨t, hrun, hnone, hinvoked⟩ :=
      ih { s with posted := posted, invoked := s.invoked ++ [call] } rfl
    refine ⟨t, Runs.run_cons_eq_some.2 ⟨_, hstep, hrun⟩, hnone, ?_⟩
    rw [hinvoked, List.append_assoc, List.singleton_append]

/-- **Beyond recall.** In every run with fewer than 2^32 callbacks no callback is called or posted
twice, and only those that were added with an `io_service` are posted. Whatever happens after a
state of the run, what is posted there waits or is called; of what was cancelled nothing else is.
And at any time, also after the end of the schedule, all that is posted can run. -/
theorem posted_beyond_recall {before later : List Event}
    (hbefore : Runs.run step {} before = some s) (hlater : Runs.run step s later = some t)
    (hfew : t.run.items.length < 2 ^ 32) :
    ((t.invoked ++ t.posted).map Prod.fst).Nodup ∧
      (∀ call ∈ t.posted, call.1 ∈ t.external) ∧
      (∀ call ∈ s.posted, call ∈ t.invoked ++ t.posted) ∧
      (∀ callback ∈ s.run.cancelled, callback ∈ (t.invoked ++ t.posted).map Prod.fst →
        callback ∈ (s.invoked ++ s.posted).map Prod.fst) ∧
      ∃ u, Runs.run step t (List.replicate t.posted.length (.runPosted 0)) = some u ∧
        u.invoked = t.invoked ++ t.posted := by
  have hcounts : s.run.items.length ≤ t.run.items.length :=
    Runs.run_invariant (fun _ _ _ h hstep => Nat.le_trans h (length_items_step hstep))
      (Nat.le_refl _) hlater
  have hsettled := (since_run ScheduleRun.settled_start hbefore
    (Nat.lt_of_le_of_lt hcounts hfew)).toSettled
  have hsince := since_run hsettled hlater hfew
  have hs := accounted_run accounted_start hbefore
  have ht := accounted_run hs hlater
  refine ⟨?_, ht.external, ?_, ?_, ?_⟩
  · exact (ht.calls.map Prod.fst).nodup_iff.2 hsince.toSettled.toKept.toSound.nodup_called
  · exact fun call hmem => posted_run hlater (List.mem_append_right _ hmem)
  · intro callback hcancelled hmem
    have hcalled := hsince.earlier callback hcancelled ((ht.calls.map Prod.fst).mem_iff.1 hmem)
    exact (hs.calls.map Prod.fst).mem_iff.2 hcalled
  · obtain ⟨u, hrun, -, hinvoked⟩ := run_posted t
    exact ⟨u, hrun, hinvoked⟩

/-- Two callbacks are due and then cancelled. The one whose handler had run is called nevertheless,
after the schedule has ended. -/
theorem posted_beyond_recall_sample :
    ∃ s t, Runs.run step {} [.addExternal, .addExternal, .schedule (.expire 0),
        .schedule (.expire 1), .schedule (.runHandler 0), .schedule (.cancel 0),
        .schedule (.cancel 1)] = some s ∧
      Runs.run step s [.schedule (.runHandler 0), .schedule .stop] = some t ∧
      t.posted = [(0, false)] ∧ t.invoked = [] ∧
      ∃ u, Runs.run step t (List.replicate t.posted.length (.runPosted 0)) = some u ∧
        u.invoked = t.invoked ++ t.posted := by
  have hend : (Runs.run step {} [.addExternal, .addExternal, .schedule (.expire 0),
      .schedule (.expire 1), .schedule (.runHandler 0), .schedule (.cancel 0),
      .schedule (.cancel 1)]).map (fun s =>
        (Runs.run step s [.schedule (.runHandler 0), .schedule .stop]).map fun t =>
          (t.run.items.length, t.posted, t.invoked)) = some (some (2, [(0, false)], [])) := by
    decide
  obtain ⟨s, hs, hrest⟩ := Option.map_eq_some_iff.1 hend
  obtain ⟨t, ht, hfacts⟩ := Option.map_eq_some_iff.1 hrest
  simp only [Prod.mk.injEq] at hfacts
  obtain ⟨hitems, hposted, hinvoked⟩ := hfacts
  have hfew : t.run.items.length < 2 ^ 32 := by rw [hitems]; decide
  exact ⟨s, t, hs, ht, hposted, hinvoked, (posted_beyond_recall hs ht hfew).2.2.2.2⟩

end PostedRun

end KeycapRoot.Utility
