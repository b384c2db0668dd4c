import KeycapRoot.Network.Reconnect

/-!
# Locating a host that is not resolved

`locate` puts the callback and the new service into their maps before it starts the service, and
starting resolves the host. When that throws, the maps keep both, and the next `locate` of the type
takes the service for located. So a type that no `locate` has returned for can be located in every
state, exactly in the runs in which no `locate` of a new type fails to resolve its host
(`locate_fails_cleanly_iff`).
-/

namespace KeycapRoot.Network

namespace Reconnector

variable {ι κ : Type}

def removeLocatedCallback (l : Reconnector ι κ) (type : ServiceType) : Reconnector ι κ :=
  { l with locatedCallbacks := l.locatedCallbacks.erase type }

def serviceCount (l : Reconnector ι κ) : Nat := l.services.keys.length

/-- What happens to a locator: an event of the loop, or a call that removes a callback. -/
inductive Call (ι κ : Type)
  | event (event : Event ι κ)
  | removeLocatedCallback (type : ServiceType)

def perform (l : Reconnector ι κ) : Call ι κ → Option (Reconnector ι κ)
  | .event event => step l event
  | .removeLocatedCallback type => some (l.removeLocatedCallback type)

/-- A `locate` with a resolved host starts the service and registers its own callback. -/
def Locates (l : Reconnector ι κ) (type : ServiceType) (port : UInt16)
    (callback : Option (ι × κ)) (address : Nat) : Prop :=
  ∃ l', l.locate type port callback (.ok address) = .ok () l' ∧
    l'.services.lookup type =
      some { endpoint := some { address, port }, running := true, attempts := 1 } ∧
    ∀ c, callback = some c → l'.locatedCallbacks.lookup type = some c

/-- A `locate` that throws leaves the maps and the number of services as they were, and the next one
with a resolved host locates the service. -/
structure FailsCleanly (l : Reconnector ι κ) (type : ServiceType) (port : UInt16)
    (callback : Option (ι × κ)) (resolved : Except String Nat) : Prop where
  unchanged : ∀ fault l', l.locate type port callback resolved = .error fault l' →
    l'.services = l.services ∧ l'.locatedCallbacks = l.locatedCallbacks ∧
      l'.serviceCount = l.serviceCount
  later : ∀ fault l', l.locate type port callback resolved = .error fault l' →
    ∀ port' callback' address, l'.Locates type port' callback' address

/-- The condition on a call: a `locate` of a new type resolves its host. -/
def Resolves (l : Reconnector ι κ) : Call ι κ → Prop
  | .event (.locate type _ _ resolved) => type ∈ l.services ∨ ∃ address, resolved = .ok address
  | _ => True

/-! ## Calls of `locate` -/

/-- The callbacks that `locate` starts the service with. -/
def registered (l : Reconnector ι κ) (type : ServiceType) :
    Option (ι × κ) → AList fun _ : ServiceType => ι × κ
  | some c => ServiceLocator.tryEmplace l.locatedCallbacks type c
  | none => l.locatedCallbacks

variable {l l' : Reconnector ι κ} {type : ServiceType}

theorem locate_again (hmem : type ∈ l.services) (port : UInt16) (callback : Option (ι × κ))
    (resolved : Except String Nat) : l.locate type port callback resolved = .ok () l := by
  unfold locate
  rw [if_pos hmem]

theorem locate_resolved (hnew : type ∉ l.services) (port : UInt16) (callback : Option (ι × κ))
    (address : Nat) :
    l.locate type port callback (.ok address) = .ok () { l with
      locatedCallbacks := l.registered type callback
      services := l.services.insert type
        { endpoint := some { address, port }, running := true, attempts := 1 } } := by
  unfold locate
  rw [if_neg hnew]
  cases callback with
  | none => rfl
  | some c => rfl

theorem locate_unresolved (hnew : type ∉ l.services) (port : UInt16) (callback : Option (ι × κ))
    (what : String) :
    l.locate type port callback (.error what) = .error (.exception what) { l with
      locatedCallbacks := l.registered type callback
      services := l.services.insert type {} } := by
  unfold locate
  rw [if_neg hnew]
  cases callback with
  | none => rfl
  | some c => rfl

/-- A new type is located, with its own callback where none was left for it. -/
theorem Locates.of_new (hnew : type ∉ l.services) (hfree : type ∉ l.locatedCallbacks)
    (port : UInt16) (callback : Option (ι × κ)) (address : Nat) :
    l.Locates type port callback address := by
  refine ⟨_, locate_resolved hnew port callback address, AList.lookup_insert _, ?_⟩
  rintro c rfl
  change (ServiceLocator.tryEmplace l.locatedCallbacks type c).lookup type = some c
  rw [ServiceLocator.tryEmplace, if_neg hfree, AList.lookup_insert]

/-- A service that was left behind is taken for located. -/
theorem not_locates_of_left (hleft : l.services.lookup type = some {}) (port : UInt16)
    (callback : Option (ι × κ)) (address : Nat) : ¬ l.Locates type port callback address := by
  rintro ⟨l', hlocate, hstarted, -⟩
  have hmem : type ∈ l.services := AList.lookup_isSome.1 (by rw [hleft]; rfl)
  rw [locate_again hmem] at hlocate
  cases hlocate
  rw [hleft] at hstarted
  cases hstarted

/-- A `locate` fails cleanly exactly if it does not fail. -/
theorem failsCleanly_iff (port : UInt16) (callback : Option (ι × κ))
    (resolved : Except String Nat) :
    l.FailsCleanly type port callback resolved ↔
      type ∈ l.services ∨ ∃ address, resolved = .ok address := by
  constructor
  · intro h
    by_cases hmem : type ∈ l.services
    · exact Or.inl hmem
    · cases resolved with
      | ok address => exact Or.inr ⟨address, rfl⟩
      | error what =>
        exact absurd (h.later _ _ (locate_unresolved hmem port callback what) port callback 0)
          (not_locates_of_left (AList.lookup_insert _) port callback 0)
  · intro h
    have hreturns : ∀ fault l', l.locate type port callback resolved ≠ .error fault l' := by
      intro fault l' hthrows
      by_cases hmem : type ∈ l.services
      · rw [locate_again hmem] at hthrows
        cases hthrows
      · obtain ⟨address, rfl⟩ := h.resolve_left hmem
        rw [locate_resolved hmem] at hthrows
        cases hthrows
    exact ⟨fun fault l' hthrows => absurd hthrows (hreturns fault l'),
      fun fault l' hthrows => absurd hthrows (hreturns fault l')⟩

/-! ## Runs -/

/-- The services are those that were located, and no callback is left for another. -/
structure Tidy (l : Reconnector ι κ) : Prop where
  services : ∀ type, type ∈ l.services ↔ type ∈ l.located
  callbacks : ∀ type ∈ l.locatedCallbacks, type ∈ l.services

theorem tidy_start : Tidy ({} : Reconnector ι κ) where
  services := fun type => iff_of_false (AList.notMem_empty type) List.not_mem_nil
  callbacks := fun type h => absurd h (AList.notMem_empty type)

theorem Tidy.locates (h : Tidy l) (hnew : type ∉ l.located) (port : UInt16)
    (callback : Option (ι × κ)) (address : Nat) : l.Locates type port callback address := by
  have hservice : type ∉ l.services := fun hmem => hnew ((h.services type).1 hmem)
  exact Locates.of_new hservice (fun hmem => hservice (h.callbacks type hmem)) port callback address

/-- What neither locates a service nor loses one. -/
theorem Tidy.of_same (h : Tidy l) (hservices : ∀ type, type ∈ l'.services ↔ type ∈ l.services)
    (hcallbacks : l'.locatedCallbacks = l.locatedCallbacks) (hlocated : l'.located = l.located) :
    Tidy l' := by
  constructor
  · intro type
    rw [hservices, hlocated, h.services]
  · intro type hmem
    rw [hcallbacks] at hmem
    exact (hservices type).2 (h.callbacks type hmem)

/-- A new link status changes no map and locates nothing. -/
theorem Tidy.onLink (h : Tidy l) (service : ServiceType) (status : LinkStatus) :
    Tidy (l.onLink service status) := by
  unfold Reconnector.onLink
  cases status with
  | up =>
    simp only
    split
    · exact h.of_same (fun _ => Iff.rfl) rfl rfl
    · exact h
  | down => exact h.of_same (fun _ => Iff.rfl) rfl rfl
  | failed => exact h.of_same (fun _ => Iff.rfl) rfl rfl

/-- A service that is there gets another state. -/
theorem Tidy.update (h : Tidy l) {service : ClientService}
    (hlook : l.services.lookup type = some service) (service' : ClientService)
    (schedule : List ServiceType) :
    Tidy { l with services := l.services.insert type service', schedule } := by
  have hmem : type ∈ l.services := AList.lookup_isSome.1 (by rw [hlook]; rfl)
  refine h.of_same (fun type' => ?_) rfl rfl
  refine (AList.mem_insert _).trans (or_iff_right_of_imp ?_)
  rintro rfl
  exact hmem

/-- A type is located that is in the map afterwards. -/
theorem Tidy.locate (h : Tidy l) {services : AList fun _ : ServiceType => ClientService}
    (hservices : ∀ type', type' ∈ services ↔ type' = type ∨ type' ∈ l.services)
    {locatedCallbacks : AList fun _ : ServiceType => ι × κ}
    (hcallbacks : ∀ type' ∈ locatedCallbacks, type' = type ∨ type' ∈ l.locatedCallbacks) :
    Tidy { l with services, locatedCallbacks, located := l.located ++ [type] } := by
  constructor
  · intro type'
    rw [List.mem_append, List.mem_singleton, hservices, h.services, or_comm]
  · intro type' hmem
    rcases hcallbacks type' hmem with rfl | hold
    · exact (hservices type').2 (Or.inl rfl)
    · exact (hservices type').2 (Or.inr (h.callbacks type' hold))

theorem mem_registered {callback : Option (ι × κ)} {type' : ServiceType}
    (h : type' ∈ l.registered type callback) : type' = type ∨ type' ∈ l.locatedCallbacks := by
  cases callback with
  | none => exact Or.inr h
  | some c =>
    change type' ∈ ServiceLocator.tryEmplace l.locatedCallbacks type c at h
    unfold ServiceLocator.tryEmplace at h
    split at h
    · exact Or.inr h
    · exact (AList.mem_insert _).1 h

theorem Tidy.step (h : Tidy l) {e : Event ι κ} (hok : l.Resolves (.event e))
    (hstep : Reconnector.step l e = some l') : Tidy l' := by
  cases e with
  | locate type port callback resolved =>
    rw [Reconnector.step] at hstep
    by_cases hmem : type ∈ l.services
    · rw [locate_again hmem] at hstep
      cases hstep
      refine h.locate (fun type' => (or_iff_right_of_imp ?_).symm) (fun _ => Or.inr)
      rintro rfl
      exact hmem
    · obtain ⟨address, rfl⟩ := hok.resolve_left hmem
      rw [locate_resolved hmem] at hstep
      cases hstep
      exact h.locate (fun _ => AList.mem_insert _) (fun _ => mem_registered)
  | connectSucceeds type =>
    cases steps_of_step hstep with
    | connectSucceeds hlook hflight => exact (h.update hlook _ l.schedule).onLink _ _
  | connectFails type =>
    cases steps_of_step hstep with
    | connectFails hlook hflight => exact h.update hlook _ l.schedule
  | readerEnds type =>
    cases steps_of_step hstep with
    | readerEnds hlook halive => exact (h.update hlook _ l.schedule).onLink _ _
  | restartFires i =>
    cases steps_of_step hstep with
    | @restartFires _ type hscheduled =>
      rw [restart]
      cases hlook : l.services.lookup type with
      | none => exact h.of_same (fun _ => Iff.rfl) rfl rfl
      | some service => exact h.update hlook _ _

theorem Tidy.perform (h : Tidy l) {c : Call ι κ} (hok : l.Resolves c)
    (hperform : l.perform c = some l') : Tidy l' := by
  cases c with
  | event e => exact h.step hok hperform
  | removeLocatedCallback type =>
    cases hperform
    exact ⟨h.services, fun type' hmem => h.callbacks type' (AList.mem_erase.1 hmem).2⟩

/-- A `locate` that throws leaves a type that was not located and cannot be located any more. -/
theorem Tidy.not_locates_perform (h : Tidy l) {c : Call ι κ} (hok : ¬ l.Resolves c)
    (hperform : l.perform c = some l') :
    ¬ ∀ type, type ∉ l'.located → ∀ port callback address,
      l'.Locates type port callback address := by
  intro hall
  cases c with
  | removeLocatedCallback type => exact hok trivial
  | event e =>
    cases e with
    | locate type port callback resolved =>
      obtain ⟨hnew, hunresolved⟩ := not_or.1 hok
      cases resolved with
      | ok address => exact hunresolved ⟨address, rfl⟩
      | error what =>
        change Reconnector.step l (.locate type port callback (.error what)) = some l' at hperform
        rw [Reconnector.step, locate_unresolved hnew] at hperform
        cases hperform
        exact not_locates_of_left (AList.lookup_insert _) port callback 0
          (hall type (fun hlocated => hnew ((h.services type).2 hlocated)) port callback 0)
    | connectSucceeds type => exact hok trivial
    | connectFails type => exact hok trivial
    | readerEnds type => exact hok trivial
    | restartFires i => exact hok trivial

end Reconnector

open Reconnector in
/-- **Failed calls.** In every state that a run reaches, a `locate` leaves the maps as they were
when it throws, and can be repeated, exactly if it does not throw: if the type is in the map or the
host is resolved. And in every state of the run each type that no `locate` has returned for can be
located with its own callback, if and only if every `locate` of a new type in the run resolves its
host. -/
theorem locate_fails_cleanly_iff {ι κ : Type} {calls : List (Reconnector.Call ι κ)}
    {t : Reconnector ι κ} (hrun : Runs.run perform {} calls = some t) :
    (∀ type port callback resolved, t.FailsCleanly type port callback resolved ↔
      type ∈ t.services ∨ ∃ address, resolved = .ok address) ∧
    ((∀ before u, before <+: calls → Runs.run perform ({} : Reconnector ι κ) before = some u →
        ∀ type, type ∉ u.located → ∀ port callback address,
          u.Locates type port callback address) ↔
      Runs.Along perform Resolves {} calls) := by
  refine ⟨fun type port callback resolved => failsCleanly_iff port callback resolved, ?_⟩
  exact Runs.always_iff_along
    (P := fun l => ∀ type, type ∉ l.located → ∀ port callback address,
      l.Locates type port callback address)
    (fun _ h _ hnew => h.locates hnew) (fun _ _ _ h hok hperform => h.perform hok hperform)
    (fun _ _ _ h hok hperform => h.not_locates_perform hok hperform) tidy_start hrun

/-- A service is located and its callback removed. -/
def locatedOnce : List (Reconnector.Call Unit Unit) :=
  [.event (.locate 1 8080 (some ((), ())) (.ok 7)), .removeLocatedCallback 1]

theorem locate_fails_cleanly_iff_sample :
    ∃ t, Runs.run Reconnector.perform {} locatedOnce = some t ∧
      t.FailsCleanly 1 8080 none (.error "host not found") ∧
      t.Locates 2 8080 (some ((), ())) 7 := by
  have hend : (Runs.run Reconnector.perform {} locatedOnce).map
      (fun t => (t.services.keys, t.located)) = some ([1], [1]) := by decide
  obtain ⟨t, hrun, hpair⟩ := Option.map_eq_some_iff.1 hend
  obtain ⟨hkeys, hlocated⟩ := Prod.mk.inj hpair
  obtain ⟨hclean, hruns⟩ := locate_fails_cleanly_iff hrun
  refine ⟨t, hrun, ?_, ?_⟩
  · refine (hclean 1 8080 none _).2 (Or.inl (AList.mem_keys.2 ?_))
    rw [hkeys]
    exact List.mem_singleton_self 1
  · refine hruns.2 ?_ _ t List.prefix_rfl hrun 2 (by rw [hlocated]; decide) 8080 _ 7
    exact ⟨Or.inr ⟨7, rfl⟩, fun _ _ => ⟨trivial, fun _ _ => trivial⟩⟩

/-- The first `locate` throws, and so the service is never started. -/
theorem unresolved_not_clean :
    ¬ ({} : Reconnector Unit Unit).FailsCleanly 1 8080 (some ((), ()))
      (.error "host not found") := by
  intro h
  obtain ⟨hservices, -, -⟩ := h.unchanged _ _
    (Reconnector.locate_unresolved (AList.notMem_empty 1) 8080 (some ((), ())) "host not found")
  have hcount := congrArg (fun services => services.keys.length) hservices
  exact absurd hcount (by decide)

end KeycapRoot.Network
