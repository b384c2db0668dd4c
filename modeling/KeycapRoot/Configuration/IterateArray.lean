import KeycapRoot.Configuration.ConfigFile

/-!
# Iterating over arrays

`iterate_array` has the lookup of `get` written a third time, with a return at each of its ends. It
calls its callback for the elements of the array that `get` finds under the name, in order and up to
the first call that throws; where `get` throws or finds something else, it calls nothing and says
nothing (`iterateArray_calls`).
-/

namespace KeycapRoot.Configuration

def Json.isArray : Json → Bool
  | array _ => true
  | _ => false

section Iterate

variable {σ ε : Type} (callback : ConfigEntry → σ → Except ε Unit × σ)

/-- The loop over the elements; what the callback throws leaves it. -/
def iterateElements : List Json → σ → Except ε Unit × σ
  | [], s => (.ok (), s)
  | i :: elements, s =>
    match callback { json := i } s with
    | (.ok (), s') => iterateElements elements s'
    | (.error e, s') => (.error e, s')

/-- The function `iterate` of `iterate_array`, which is called with arrays only. -/
def iterate (value : Json) (s : σ) : Except ε Unit × σ :=
  match value with
  | .array elements => iterateElements callback elements s
  | _ => (.ok (), s)

/-- `iterate_array(category, value, callback)`, for a callback that reads and writes some state. -/
def ConfigFile.iterateArray (file : ConfigFile) (category value : String) (s : σ) :
    Except ε Unit × σ :=
  match file.json.find category with
  | some itr =>
    if itr.isObject = false then (.ok (), s)
    else
      match itr.find value with
      | none => (.ok (), s)
      | some valueItr =>
        if valueItr.isArray = false then (.ok (), s) else iterate callback valueItr s
  | none =>
    match file.json.find value with
    | none => (.ok (), s)
    | some itr => if itr.isArray = false then (.ok (), s) else iterate callback itr s

/-! ## Calls -/

/-- The callback is called for some elements in turn, and only the last call throws. -/
inductive Calls : σ → List Json → Except ε Unit × σ → Prop
  | done (s : σ) : Calls s [] (.ok (), s)
  | returns {s s' : σ} {i : Json} {visited : List Json} {result : Except ε Unit × σ}
      (hcall : callback { json := i } s = (.ok (), s')) (hrest : Calls s' visited result) :
      Calls s (i :: visited) result
  | throws {s s' : σ} {i : Json} {e : ε} (hcall : callback { json := i } s = (.error e, s')) :
      Calls s [i] (.error e, s')

theorem iterateElements_calls (elements : List Json) (s : σ) :
    ∃ visited, visited <+: elements ∧
      Calls callback s visited (iterateElements callback elements s) ∧
      ((iterateElements callback elements s).1 = .ok () → visited = elements) := by
  induction elements generalizing s with
  | nil => exact ⟨[], List.nil_prefix, .done s, fun _ => rfl⟩
  | cons i elements ih =>
    rw [iterateElements]
    split
    · next s' hcall =>
      obtain ⟨visited, hprefix, hcalls, hall⟩ := ih s'
      refine ⟨i :: visited, List.cons_prefix_cons.2 ⟨rfl, hprefix⟩, .returns hcall hcalls, ?_⟩
      intro hok
      rw [hall hok]
    · next e s' hcall =>
      refine ⟨[i], List.cons_prefix_cons.2 ⟨rfl, List.nil_prefix⟩, .throws hcall, ?_⟩
      intro hok
      cases hok

/-- What is found under the name decides, as it does for `get`. -/
theorem iterateArray_eq (file : ConfigFile) (category value : String) (s : σ) :
    file.iterateArray callback category value s =
      match file.get Except.ok category value with
      | .ok item => iterate callback item s
      | .error _ => (.ok (), s) := by
  have hiterate (item : Json) :
      (if item.isArray = false then (.ok (), s) else iterate callback item s) =
        iterate callback item s := by
    cases item <;> rfl
  unfold ConfigFile.iterateArray ConfigFile.get
  cases file.json.find category with
  | none =>
    cases file.json.find value with
    | none => rfl
    | some item => exact hiterate item
  | some itr =>
    by_cases hobject : itr.isObject = false
    · simp only [if_pos hobject]
    · simp only [if_neg hobject]
      cases itr.find value with
      | none => rfl
      | some item => exact hiterate item

/-- **Arrays.** Where `get` finds an array, `iterate_array` calls the callback for its elements in
order, for all of them unless a call throws, and what that call throws is thrown. Where `get` throws
or finds something else, nothing is called or thrown. -/
theorem iterateArray_calls (file : ConfigFile) (category value : String) (s : σ) :
    let result := file.iterateArray callback category value s
    (∀ elements, file.get Except.ok category value = .ok (.array elements) →
      ∃ visited, visited <+: elements ∧ Calls callback s visited result ∧
        (result.1 = .ok () → visited = elements)) ∧
    ((∀ elements, file.get Except.ok category value ≠ .ok (.array elements)) →
      result = (.ok (), s)) := by
  intro result
  have hresult : result = _ := iterateArray_eq callback file category value s
  rw [hresult]
  refine ⟨?_, ?_⟩
  · intro elements hget
    rw [hget]
    exact iterateElements_calls callback elements s
  · intro hnone
    cases hget : file.get Except.ok category value with
    | error what => rfl
    | ok item =>
      cases item with
      | array elements => exact absurd hget (hnone elements)
      | _ => rfl

end Iterate

end KeycapRoot.Configuration
