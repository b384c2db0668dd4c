import Mathlib.Tactic.Common

/-!
# Configuration

A configuration is a JSON document of categories with values, and of values outside of them. `get`
throws where there is no such value or it is not of the type that is asked for; `get_or_default` has
the same lookup written once more with a default at its ends. Where a value is found it converts it
as `get` does, and so it throws for a value of another type (`getOrDefault_agrees_iff`).
-/

namespace KeycapRoot.Configuration

/-- `nlohmann::json`. A floating-point number is its bits. -/
inductive Json
  | null
  | boolean (value : Bool)
  | numberInteger (value : Int)
  | numberUnsigned (value : Nat)
  | numberFloat (bits : UInt64)
  | string (value : String)
  | array (elements : List Json)
  | object (items : List (String × Json))

namespace Json

def isObject : Json → Bool
  | object _ => true
  | _ => false

/-- `find`; nothing is found in a value that is not an object. -/
def find (json : Json) (key : String) : Option Json :=
  match json with
  | object items => items.lookup key
  | _ => none

def typeName : Json → String
  | null => "null"
  | boolean _ => "boolean"
  | numberInteger _ | numberUnsigned _ | numberFloat _ => "number"
  | string _ => "string"
  | array _ => "array"
  | object _ => "object"

/-- The conversion to `std::string`. -/
def toString : Json → Except String String
  | string value => .ok value
  | json => .error ("[json.exception.type_error.302] type must be string, but is " ++ json.typeName)

end Json

section Get

variable {R : Type} (convert : Json → Except String R)

structure ConfigEntry where
  json : Json

/-- `config_entry::get<ReturnType>(category, value)`, with the conversion to the type. -/
def ConfigEntry.get (entry : ConfigEntry) (category value : String) : Except String R :=
  match entry.json.find category with
  | some itr =>
    if itr.isObject = false then .error (category ++ " does not contain any items!")
    else
      match itr.find value with
      | none => .error ("Category " ++ category ++ " does not contain item " ++ value)
      | some valueItr => convert valueItr
  | none =>
    match entry.json.find value with
    | some itr => convert itr
    | none => .error ("Could not find standalone key " ++ category ++ " " ++ value)

/-- `config_entry::get_or_default<ReturnType>(category, value, default_value)`. -/
def ConfigEntry.getOrDefault (entry : ConfigEntry) (category value : String) (defaultValue : R) :
    Except String R :=
  match entry.json.find category with
  | some itr =>
    if itr.isObject = false then .ok defaultValue
    else
      match itr.find value with
      | none => .ok defaultValue
      | some valueItr => convert valueItr
  | none =>
    match entry.json.find value with
    | some itr => convert itr
    | none => .ok defaultValue

structure ConfigFile where
  json : Json

/-- `config_file::get<ReturnType>(category, value)`. -/
def ConfigFile.get (file : ConfigFile) (category value : String) : Except String R :=
  match file.json.find category with
  | some itr =>
    if itr.isObject = false then .error (category ++ " does not contain any items!")
    else
      match itr.find value with
      | none => .error ("Category " ++ category ++ " does not contain item " ++ value)
      | some valueItr => convert valueItr
  | none =>
    match file.json.find value with
    | some itr => convert itr
    | none => .error ("Could not find standalone key " ++ category ++ " " ++ value)

/-- `config_file::get_or_default<ReturnType>(category, value, default_value)`. -/
def ConfigFile.getOrDefault (file : ConfigFile) (category value : String) (defaultValue : R) :
    Except String R :=
  match file.json.find category with
  | some itr =>
    if itr.isObject = false then .ok defaultValue
    else
      match itr.find value with
      | none => .ok defaultValue
      | some valueItr => convert valueItr
  | none =>
    match file.json.find value with
    | some itr => convert itr
    | none => .ok defaultValue

/-! ## What is looked up -/

/-- The item is the value of that name: it is in the category, or outside of the categories if there
is no such category. -/
inductive Names (document : Json) (category value : String) (item : Json) : Prop
  | inside {items : List (String × Json)}
      (hcategory : document.find category = some (.object items))
      (hvalue : items.lookup value = some item)
  | outside (hcategory : document.find category = none) (hvalue : document.find value = some item)

theorem Names.unique {document item item' : Json} {category value : String}
    (h : Names document category value item) (h' : Names document category value item') :
    item = item' := by
  cases h with
  | inside hcategory hvalue =>
    cases h' with
    | inside hcategory' hvalue' =>
      cases hcategory.symm.trans hcategory'
      exact Option.some.inj (hvalue.symm.trans hvalue')
    | outside hcategory' hvalue' => cases hcategory.symm.trans hcategory'
  | outside hcategory hvalue =>
    cases h' with
    | inside hcategory' hvalue' => cases hcategory.symm.trans hcategory'
    | outside hcategory' hvalue' => exact Option.some.inj (hvalue.symm.trans hvalue')

/-- How the two functions end: an item is found and both convert it, or there is none and one throws
where the other returns the default. -/
inductive LookedUp (document : Json) (category value : String) (defaultValue : R)
    (got gotDefault : Except String R) : Prop
  | found {item : Json} (hitem : Names document category value item)
      (hget : got = convert item) (hdefault : gotDefault = convert item)
  | missing {what : String} (hnone : ∀ item, ¬ Names document category value item)
      (hget : got = .error what) (hdefault : gotDefault = .ok defaultValue)

theorem lookedUp (file : ConfigFile) (category value : String) (defaultValue : R) :
    LookedUp convert file.json category value defaultValue (file.get convert category value)
      (file.getOrDefault convert category value defaultValue) := by
  unfold ConfigFile.get ConfigFile.getOrDefault
  cases hcategory : file.json.find category with
  | none =>
    cases hvalue : file.json.find value with
    | none =>
      refine .missing ?_ rfl rfl
      rintro item (⟨hinside, -⟩ | ⟨-, houtside⟩)
      · cases hcategory.symm.trans hinside
      · cases hvalue.symm.trans houtside
    | some item => exact .found (.outside hcategory hvalue) rfl rfl
  | some itr =>
    cases itr with
    | object items =>
      cases hvalue : items.lookup value with
      | none =>
        simp only [Json.isObject, Json.find, hvalue]
        refine .missing ?_ rfl rfl
        rintro item (⟨hinside, hlookup⟩ | ⟨houtside, -⟩)
        · cases hcategory.symm.trans hinside
          cases hvalue.symm.trans hlookup
        · cases hcategory.symm.trans houtside
      | some item =>
        simp only [Json.isObject, Json.find, hvalue]
        exact .found (.inside hcategory hvalue) rfl rfl
    | _ =>
      refine .missing ?_ rfl rfl
      rintro item (⟨hinside, -⟩ | ⟨houtside, -⟩)
      · cases hcategory.symm.trans hinside
      · cases hcategory.symm.trans houtside

/-! ## Defaults -/

/-- `get_or_default` returns what `get` returns, and the default where `get` throws; and an entry
answers as a file with the same document does. -/
structure DefaultsAgree (document : Json) (category value : String) (defaultValue : R) : Prop where
  returned : ∀ r, (ConfigFile.mk document).get convert category value = .ok r →
    (ConfigFile.mk document).getOrDefault convert category value defaultValue = .ok r
  thrown : ∀ what, (ConfigFile.mk document).get convert category value = .error what →
    (ConfigFile.mk document).getOrDefault convert category value defaultValue = .ok defaultValue
  returns : ∃ r, (ConfigFile.mk document).getOrDefault convert category value defaultValue = .ok r
  entry_get : (ConfigEntry.mk document).get convert category value =
    (ConfigFile.mk document).get convert category value
  entry_getOrDefault : (ConfigEntry.mk document).getOrDefault convert category value defaultValue =
    (ConfigFile.mk document).getOrDefault convert category value defaultValue

theorem entry_get_eq (document : Json) (category value : String) :
    (ConfigEntry.mk document).get convert category value =
      (ConfigFile.mk document).get convert category value := by
  unfold ConfigEntry.get ConfigFile.get
  rfl

theorem entry_getOrDefault_eq (document : Json) (category value : String) (defaultValue : R) :
    (ConfigEntry.mk document).getOrDefault convert category value defaultValue =
      (ConfigFile.mk document).getOrDefault convert category value defaultValue := by
  unfold ConfigEntry.getOrDefault ConfigFile.getOrDefault
  rfl

/-- **Defaults.** `get_or_default` returns what `get` returns and the default where `get` throws,
for files and entries alike, exactly if the value of the name can be converted, or there is none. -/
theorem getOrDefault_agrees_iff (document : Json) (category value : String) (defaultValue : R) :
    DefaultsAgree convert document category value defaultValue ↔
      ∀ item, Names document category value item → ∃ r, convert item = .ok r := by
  have hentry := entry_get_eq convert document category value
  have hentryDefault := entry_getOrDefault_eq convert document category value defaultValue
  cases lookedUp convert (ConfigFile.mk document) category value defaultValue with
  | @found item hitem hget hdefault =>
    constructor
    · intro h item' hitem'
      obtain ⟨r, hr⟩ := h.returns
      rw [hitem'.unique hitem, ← hdefault]
      exact ⟨r, hr⟩
    · intro h
      obtain ⟨r, hr⟩ := h item hitem
      rw [hr] at hget hdefault
      refine ⟨?_, ?_, ⟨r, hdefault⟩, hentry, hentryDefault⟩
      · intro r' hr'
        rw [hdefault, ← hget, hr']
      · intro what hwhat
        cases hget.symm.trans hwhat
  | @missing what hnone hget hdefault =>
    refine iff_of_true ?_ fun item hitem => absurd hitem (hnone item)
    refine ⟨?_, fun _ _ => hdefault, ⟨_, hdefault⟩, hentry, hentryDefault⟩
    intro r hr
    cases hget.symm.trans hr

end Get

/-- A number where an address belongs. -/
def numberAsAddress : Json := .object [("Network", .object [("IP", .numberUnsigned 5)])]

/-- The default is not returned for a number when a string is asked for. -/
theorem number_not_defaulted :
    (ConfigFile.mk numberAsAddress).getOrDefault Json.toString "Network" "IP" "127.0.0.1" =
        .error "[json.exception.type_error.302] type must be string, but is number" ∧
      ¬ DefaultsAgree Json.toString numberAsAddress "Network" "IP" "127.0.0.1" := by
  have hthrows :
      (ConfigFile.mk numberAsAddress).getOrDefault Json.toString "Network" "IP" "127.0.0.1" =
        .error "[json.exception.type_error.302] type must be string, but is number" := by
    rfl
  refine ⟨hthrows, ?_⟩
  intro h
  obtain ⟨r, hr⟩ := h.returns
  cases hthrows.symm.trans hr

end KeycapRoot.Configuration
