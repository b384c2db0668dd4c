import KeycapRoot.Network.LocateFailure

/-!
# Callbacks of located services

For each type of service a locator is in one of three states: the type was never located, a callback
is registered for it, or none is and none ever will be, since only the first `locate` of a type looks
at its callback. What the locator posts is what these small machines announce, one for each type and
whatever becomes of the services (`posts_announced`).
-/

namespace KeycapRoot.Network

namespace Reconnector

variable {ι κ : Type}

/-! ## Watching one type -/

inductive Watch (α : Type)
  | unlocated
  | watched (callback : α)
  | silent
  deriving DecidableEq, Repr

/-- The first `locate` of the type. -/
def Watch.locate {α : Type} (callback : Option α) : Watch α → Watch α
  | .unlocated =>
    match callback with
    | some c => .watched c
    | none => .silent
  | watch => watch

def Watch.remove {α : Type} : Watch α → Watch α
  | .watched _ => .silent
  | watch => watch

/-- What a call makes of the state of a type. -/
def Watch.after (type : ServiceType) (watch : Watch (ι × κ)) : Call ι κ → Watch (ι × κ)
  | .event (.locate type' _ callback _) => if type' = type then watch.locate callback else watch
  | .removeLocatedCallback type' => if type' = type then watch.remove else watch
  | _ => watch

/-- The states of all types. -/
abbrev Watches (ι κ : Type) := ServiceType → Watch (ι × κ)

def Watches.after (watches : Watches ι κ) (call : Call ι κ) : Watches ι κ :=
  fun type => (watches type).after type call

/-- A connection is announced to the callback of its type. -/
def Watches.announced (watches : Watches ι κ) : Call ι κ → List (ι × κ × ServiceType)
  | .event (.connectSucceeds type) =>
    match watches type with
    | .watched (ioService, callback) => [(ioService, callback, type)]
    | _ => []
  | _ => []

/-- What is announced in a run. -/
def Watches.announcements (watches : Watches ι κ) : List (Call ι κ) → List (ι × κ × ServiceType)
  | [] => []
  | call :: calls => watches.announced call ++ (watches.after call).announcements calls

/-- The states behind a run. -/
def Watches.behind (watches : Watches ι κ) (calls : List (Call ι κ)) : Watches ι κ :=
  calls.foldl Watches.after watches

/-! ## The maps of a locator -/

/-- What the maps of a locator hold for a type. -/
inductive Holds (l : Reconnector ι κ) (type : ServiceType) : Watch (ι × κ) → Prop
  | unlocated (hservice : type ∉ l.services) (hcallback : l.locatedCallbacks.lookup type = none) :
      Holds l type .unlocated
  | watched {callback : ι × κ} (hservice : type ∈ l.services)
      (hcallback : l.locatedCallbacks.lookup type = some callback) :
      Holds l type (.watched callback)
  | silent (hservice : type ∈ l.services) (hcallback : l.locatedCallbacks.lookup type = none) :
      Holds l type .silent

variable {l l' : Reconnector ι κ} {type : ServiceType}

/-- What has no effect on the maps of a type. -/
theorem Holds.of_same {watch : Watch (ι × κ)} (h : Holds l type watch)
    (hservices : type ∈ l'.services ↔ type ∈ l.services)
    (hcallbacks : l'.locatedCallbacks.lookup type = l.locatedCallbacks.lookup type) :
    Holds l' type watch := by
  cases h with
  | unlocated hservice hcallback =>
    exact .unlocated (fun hmem => hservice (hservices.1 hmem)) (hcallbacks.trans hcallback)
  | watched hservice hcallback =>
    exact .watched (hservices.2 hservice) (hcallbacks.trans hcallback)
  | silent hservice hcallback =>
    exact .silent (hservices.2 hservice) (hcallbacks.trans hcallback)

theorem lookup_registered_self (callback : Option (ι × κ)) :
    (l.registered type callback).lookup type = (l.locatedCallbacks.lookup type).or callback := by
  cases callback with
  | none =>
    rw [Option.or_none]
    rfl
  | some c =>
    change (ServiceLocator.tryEmplace l.locatedCallbacks type c).lookup type = _
    rw [ServiceLocator.tryEmplace]
    by_cases hmem : type ∈ l.locatedCallbacks
    · obtain ⟨old, hold⟩ := Option.isSome_iff_exists.1 (AList.lookup_isSome.2 hmem)
      rw [if_pos hmem, hold, Option.some_or]
    · rw [if_neg hmem, AList.lookup_insert, AList.lookup_eq_none.2 hmem, Option.none_or]

theorem lookup_registered_ne {type' : ServiceType} (hne : type' ≠ type)
    (callback : Option (ι × κ)) :
    (l.registered type callback).lookup type' = l.locatedCallbacks.lookup type' := by
  cases callback with
  | none => rfl
  | some c =>
    change (ServiceLocator.tryEmplace l.locatedCallbacks type c).lookup type' = _
    rw [ServiceLocator.tryEmplace]
    split
    · rfl
    · exact AList.lookup_insert_ne hne

/-! ## Steps -/

/-- A new type is located, whether its host is resolved or not. -/
theorem Holds.locate_new {type' : ServiceType} {watch : Watch (ι × κ)} (h : Holds l type watch)
    (hnew : type' ∉ l.services) (callback : Option (ι × κ)) (service : ClientService)
    (located : List ServiceType) :
    Holds { l with
        locatedCallbacks := l.registered type' callback
        services := l.services.insert type' service
        located } type
      (if type' = type then watch.locate callback else watch) := by
  by_cases htype : type' = type
  · subst htype
    rw [if_pos rfl]
    cases h with
    | unlocated hservice hcallback =>
      have hlookup : (l.registered type' callback).lookup type' = _ :=
        lookup_registered_self callback
      rw [hcallback, Option.none_or] at hlookup
      cases callback with
      | none => exact .silent ((AList.mem_insert _).2 (Or.inl rfl)) hlookup
      | some c => exact .watched ((AList.mem_insert _).2 (Or.inl rfl)) hlookup
    | watched hservice hcallback => exact absurd hservice hnew
    | silent hservice hcallback => exact absurd hservice hnew
  · rw [if_neg htype]
    refine h.of_same ((AList.mem_insert _).trans (or_iff_right (Ne.symm htype))) ?_
    exact lookup_registered_ne (Ne.symm htype) callback

/-- A locator holds what the watches say for each type. -/
def Shows (l : Reconnector ι κ) (watches : Watches ι κ) : Prop :=
  ∀ type, Holds l type (watches type)

/-- A service that is there gets another state, and nothing is posted. -/
theorem Shows.update {watches : Watches ι κ} (h : Shows l watches) {service : ClientService}
    (hlook : l.services.lookup type = some service) (service' : ClientService)
    (schedule : List ServiceType) :
    Shows { l with services := l.services.insert type service', schedule } watches := by
  have hmem : type ∈ l.services := AList.lookup_isSome.1 (by rw [hlook]; rfl)
  intro type'
  refine (h type').of_same ((AList.mem_insert _).trans (or_iff_right_of_imp ?_)) rfl
  rintro rfl
  exact hmem

theorem Shows.locate {watches : Watches ι κ} (h : Shows l watches) {port : UInt16}
    {callback : Option (ι × κ)} {resolved : Except String Nat}
    (hstep : step l (.locate type port callback resolved) = some l') :
    Shows l' (watches.after (.event (.locate type port callback resolved))) ∧
      l'.posts = l.posts := by
  rw [Reconnector.step] at hstep
  by_cases hmem : type ∈ l.services
  · rw [locate_again hmem] at hstep
    cases hstep
    refine ⟨fun type' => ?_, rfl⟩
    rw [Watches.after, Watch.after]
    by_cases htype : type = type'
    · subst htype
      have hholds := h type
      rw [if_pos rfl]
      cases hwatch : watches type with
      | unlocated =>
        rw [hwatch] at hholds
        cases hholds with
        | unlocated hservice hcallback => exact absurd hmem hservice
      | watched c => exact (hwatch ▸ hholds).of_same Iff.rfl rfl
      | silent => exact (hwatch ▸ hholds).of_same Iff.rfl rfl
    · rw [if_neg htype]
      exact (h type').of_same Iff.rfl rfl
  · cases resolved with
    | ok address =>
      rw [locate_resolved hmem] at hstep
      cases hstep
      exact ⟨fun type' => (h type').locate_new hmem callback _ _, rfl⟩
    | error what =>
      rw [locate_unresolved hmem] at hstep
      cases hstep
      exact ⟨fun type' => (h type').locate_new hmem callback _ _, rfl⟩

theorem Shows.connectSucceeds {watches : Watches ι κ} (h : Shows l watches)
    (hstep : step l (.connectSucceeds type) = some l') :
    Shows l' watches ∧
      l'.posts = l.posts ++ watches.announced (.event (.connectSucceeds type)) := by
  cases steps_of_step hstep with
  | @connectSucceeds _ service hlook hflight =>
    have hupdated := h.update hlook service.handleNewConnection l.schedule
    have hholds := hupdated type
    rw [onLink, Watches.announced]
    cases hwatch : watches type with
    | unlocated =>
      rw [hwatch] at hholds
      cases hholds with
      | unlocated hservice hcallback =>
        simp only [hcallback, List.append_nil]
        exact ⟨hupdated, trivial⟩
    | watched c =>
      rw [hwatch] at hholds
      cases hholds with
      | watched hservice hcallback =>
        simp only [hcallback]
        exact ⟨fun type' => (hupdated type').of_same Iff.rfl rfl, trivial⟩
    | silent =>
      rw [hwatch] at hholds
      cases hholds with
      | silent hservice hcallback =>
        simp only [hcallback, List.append_nil]
        exact ⟨hupdated, trivial⟩

/-- A callback is removed. -/
theorem Shows.remove {watches : Watches ι κ} (h : Shows l watches) (type : ServiceType) :
    Shows (l.removeLocatedCallback type) (watches.after (.removeLocatedCallback type)) := by
  intro type'
  rw [Watches.after, Watch.after]
  by_cases htype : type = type'
  · subst htype
    rw [if_pos rfl]
    have hgone : (l.locatedCallbacks.erase type).lookup type = none :=
      AList.lookup_erase type l.locatedCallbacks
    have hholds := h type
    cases hwatch : watches type with
    | unlocated =>
      rw [hwatch] at hholds
      cases hholds with
      | unlocated hservice hcallback => exact .unlocated hservice hgone
    | watched c =>
      rw [hwatch] at hholds
      cases hholds with
      | watched hservice hcallback => exact .silent hservice hgone
    | silent =>
      rw [hwatch] at hholds
      cases hholds with
      | silent hservice hcallback => exact .silent hservice hgone
  · rw [if_neg htype]
    exact (h type').of_same Iff.rfl (AList.lookup_erase_ne (Ne.symm htype))

theorem Shows.perform {watches : Watches ι κ} (h : Shows l watches) {call : Call ι κ}
    (hperform : l.perform call = some l') :
    Shows l' (watches.after call) ∧ l'.posts = l.posts ++ watches.announced call := by
  cases call with
  | removeLocatedCallback type =>
    cases hperform
    exact ⟨h.remove type, (List.append_nil _).symm⟩
  | event e =>
    change Reconnector.step l e = some l' at hperform
    cases e with
    | locate type port callback resolved =>
      obtain ⟨hshows, hposts⟩ := h.locate hperform
      exact ⟨hshows, hposts.trans (List.append_nil _).symm⟩
    | connectSucceeds type => exact h.connectSucceeds hperform
    | connectFails type =>
      cases steps_of_step hperform with
      | connectFails hlook hflight => exact ⟨h.update hlook _ l.schedule, (List.append_nil _).symm⟩
    | readerEnds type =>
      cases steps_of_step hperform with
      | readerEnds hlook halive => exact ⟨h.update hlook _ _, (List.append_nil _).symm⟩
    | restartFires i =>
      cases steps_of_step hperform with
      | @restartFires _ type hscheduled =>
        rw [Reconnector.restart]
        cases hlook : l.services.lookup type with
        | none =>
          exact ⟨fun type' => (h type').of_same Iff.rfl rfl, (List.append_nil _).symm⟩
        | some service => exact ⟨h.update hlook _ _, (List.append_nil _).symm⟩

/-! ## Runs -/

theorem Shows.run {watches : Watches ι κ} (h : Shows l watches) {calls : List (Call ι κ)}
    (hrun : Runs.run Reconnector.perform l calls = some l') :
    Shows l' (watches.behind calls) ∧ l'.posts = l.posts ++ watches.announcements calls := by
  induction calls generalizing l watches with
  | nil =>
    cases hrun
    exact ⟨h, (List.append_nil _).symm⟩
  | cons call calls ih =>
    obtain ⟨middle, hperform, hrest⟩ := Runs.run_cons_eq_some.1 hrun
    obtain ⟨hshows, hposts⟩ := h.perform hperform
    obtain ⟨hend, hmore⟩ := ih hshows hrest
    exact ⟨hend, by rw [hmore, hposts, List.append_assoc]; rfl⟩

theorem shows_start : Shows ({} : Reconnector ι κ) (fun _ => .unlocated) :=
  fun _ => .unlocated (AList.notMem_empty _) rfl

/-- **Located services.** In every run of a locator, whether its hosts are resolved, its connections
come up and its callbacks are removed or not, what is posted is what the watches announce: each
connection of a type while a callback is registered for it, to the callback of the first `locate` of
the type. And a callback is registered exactly for the types that are watched. -/
theorem posts_announced {calls : List (Call ι κ)} {t : Reconnector ι κ}
    (hrun : Runs.run Reconnector.perform {} calls = some t) :
    let start : Watches ι κ := fun _ => .unlocated
    t.posts = start.announcements calls ∧
      ∀ type c, t.locatedCallbacks.lookup type = some c ↔ start.behind calls type = .watched c := by
  intro start
  obtain ⟨hshows, hposts⟩ := shows_start.run hrun
  refine ⟨hposts, ?_⟩
  intro type c
  cases hwatch : start.behind calls type with
  | unlocated =>
    cases (hwatch ▸ hshows type : Holds t type .unlocated) with
    | unlocated hservice hcallback => simp [hcallback]
  | watched c' =>
    cases (hwatch ▸ hshows type : Holds t type (.watched c')) with
    | watched hservice hcallback => simp [hcallback]
  | silent =>
    cases (hwatch ▸ hshows type : Holds t type .silent) with
    | silent hservice hcallback => simp [hcallback]

/-- A service is located, connected to and lost. -/
def locatedAndLost : List (Call Unit Nat) :=
  [.event (.locate 1 8080 (some ((), 5)) (.ok 7)), .event (.connectSucceeds 1),
    .event (.readerEnds 1)]

theorem posts_announced_sample :
    ∃ t, Runs.run Reconnector.perform {} locatedAndLost = some t ∧ t.posts = [((), 5, 1)] := by
  have hend : (Runs.run Reconnector.perform {} locatedAndLost).isSome = true := by decide
  obtain ⟨t, hrun⟩ := Option.isSome_iff_exists.1 hend
  exact ⟨t, hrun, (posts_announced hrun).1⟩

/-- A type that is silent stays so. -/
theorem Watches.silent_behind {watches : Watches ι κ} {type : ServiceType}
    (h : watches type = .silent) (calls : List (Call ι κ)) :
    watches.behind calls type = .silent ∧
      ∀ post ∈ watches.announcements calls, post.2.2 ≠ type := by
  induction calls generalizing watches with
  | nil => exact ⟨h, fun _ hmem => absurd hmem List.not_mem_nil⟩
  | cons call calls ih =>
    have hnext : watches.after call type = .silent := by
      rw [Watches.after, h]
      cases call with
      | removeLocatedCallback type' => exact ite_self _
      | event e =>
        cases e with
        | locate type' port callback resolved => exact ite_self _
        | _ => rfl
    obtain ⟨hbehind, hrest⟩ := ih hnext
    refine ⟨hbehind, ?_⟩
    intro post hmem
    rcases List.mem_append.1 hmem with hfirst | hlater
    · intro htype
      cases call with
      | removeLocatedCallback type' => cases hfirst
      | event e =>
        cases e with
        | connectSucceeds type' =>
          rw [Watches.announced] at hfirst
          cases hwatch : watches type' with
          | watched c =>
            simp only [hwatch, List.mem_singleton] at hfirst
            rw [hfirst] at htype
            rw [← htype, hwatch] at h
            cases h
          | unlocated => simp [hwatch] at hfirst
          | silent => simp [hwatch] at hfirst
        | _ => cases hfirst
    · exact hrest post hlater

/-- **No second callback.** Once a service has been located and has no callback, since none was given
or it was removed, none is ever registered for it again and nothing more is posted for it, whatever
is called and happens from then on: a later `locate` does not look at the callback that it is
given. -/
theorem silent_for_good {before after : List (Call ι κ)} {l t : Reconnector ι κ}
    {type : ServiceType} (hbefore : Runs.run Reconnector.perform {} before = some l)
    (hservice : type ∈ l.services) (hnone : l.locatedCallbacks.lookup type = none)
    (hafter : Runs.run Reconnector.perform l after = some t) :
    t.locatedCallbacks.lookup type = none ∧
      t.posts.filter (fun post => post.2.2 = type) =
        l.posts.filter (fun post => post.2.2 = type) := by
  obtain ⟨hshows, -⟩ := shows_start.run hbefore
  obtain ⟨hend, hposts⟩ := hshows.run hafter
  have hsilent : Watches.behind (fun _ => .unlocated) before type = Watch.silent (α := ι × κ) := by
    have hholds := hshows type
    revert hholds
    generalize Watches.behind (fun _ => .unlocated) before type = watch
    intro hholds
    cases hholds with
    | unlocated hmissing hcallback => exact absurd hservice hmissing
    | watched hfound hcallback => cases hnone.symm.trans hcallback
    | silent hfound hcallback => rfl
  obtain ⟨hbehind, hothers⟩ := Watches.silent_behind hsilent after
  constructor
  · cases (hbehind ▸ hend type : Holds t type .silent) with
    | silent hfound hcallback => exact hcallback
  · have hnothing := List.filter_eq_nil_iff.2 fun post hmem =>
      mt (of_decide_eq_true (p := post.2.2 = type)) (hothers post hmem)
    rw [hposts, List.filter_append, hnothing, List.append_nil]

-- the callback is removed, and the service is located with another one and connected to again
theorem silent_for_good_sample :
    ∃ l t, Runs.run Reconnector.perform {} (locatedAndLost ++ [.removeLocatedCallback 1]) = some l ∧
      Runs.run Reconnector.perform l [.event (.locate 1 8080 (some ((), 6)) (.ok 7)),
        .event (.restartFires 0), .event (.connectSucceeds 1)] = some t ∧
      t.posts.filter (fun post => post.2.2 = 1) = l.posts.filter (fun post => post.2.2 = 1) := by
  have hbefore : (Runs.run Reconnector.perform {} (locatedAndLost ++
      [.removeLocatedCallback 1])).map (fun l => (l.services.keys,
        l.locatedCallbacks.lookup 1, (Runs.run Reconnector.perform l
          [.event (.locate 1 8080 (some ((), 6)) (.ok 7)), .event (.restartFires 0),
            .event (.connectSucceeds 1)]).isSome)) = some ([1], none, true) := by decide
  obtain ⟨l, hl, hfacts⟩ := Option.map_eq_some_iff.1 hbefore
  simp only [Prod.mk.injEq] at hfacts
  obtain ⟨hkeys, hnone, hsome⟩ := hfacts
  obtain ⟨t, ht⟩ := Option.isSome_iff_exists.1 hsome
  have hservice : 1 ∈ l.services := AList.mem_keys.2 (hkeys ▸ List.mem_singleton_self 1)
  exact ⟨l, t, hl, ht, (silent_for_good hl hservice hnone ht).2⟩

end Reconnector

end KeycapRoot.Network
