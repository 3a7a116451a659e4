import FencePreview.Text.Blank
import FencePreview.Text.Search
import FencePreview.Text.Tokens

/-! Attributes of a preview block: tokens of its info text after the first, each a key with an
optional value. A later token wins over an earlier one of the same key. -/

namespace FencePreview

/-- Keys with their values, each key once. -/
structure Attributes where
  bindings : List (Text × Text)
deriving DecidableEq, Repr

namespace Attributes

def empty : Attributes := ⟨[]⟩

def insert (attributes : Attributes) (key value : Text) : Attributes :=
  ⟨attributes.bindings.filter (fun binding => binding.1 ≠ key) ++ [(key, value)]⟩

def get? (attributes : Attributes) (key : Text) : Option Text := attributes.bindings.lookup key

def has (attributes : Attributes) (key : Text) : Bool := (attributes.get? key).isSome

def ofList (bindings : List (Text × Text)) : Attributes :=
  bindings.foldl (fun attributes binding => attributes.insert binding.1 binding.2) empty

/-- A value without its quotes, if it stands fully between two. -/
def unquoteValue (value : Text) : Text :=
  ((Text.stripStart? ['"'] value).bind (Text.stripEnd? ['"'])).getD value

/-- Key and value of a token, cut at its first equals sign. -/
def ofToken (token : Text) : Text × Text :=
  match Text.splitFirst? ['='] token with
  | some (key, value) => (key, unquoteValue value)
  | none => (token, [])

def ofInfo (info : Text) : Text × Attributes :=
  match Text.tokens Text.isWhite info with
  | [] => ([], empty)
  | language :: options => (language, ofList (options.map ofToken))

theorem lookup_filter_key (bindings : List (Text × Text)) (key sought : Text) :
    (bindings.filter fun binding => binding.1 ≠ key).lookup sought =
      if sought = key then none else bindings.lookup sought := by
  induction bindings with
  | nil => simp
  | cons binding rest ih =>
      obtain ⟨found, content⟩ := binding
      by_cases same : found = key
      · subst same
        by_cases wanted : sought = found
        · simpa [wanted] using ih
        · have unequal : (sought == found) = false := by simpa using wanted
          simpa [wanted, List.lookup_cons, unequal] using ih
      · by_cases wanted : sought = found
        · subst wanted
          simp [same]
        · have unequal : (sought == found) = false := by simpa using wanted
          simpa [same, wanted, List.lookup_cons, unequal] using ih

theorem get?_insert (attributes : Attributes) (key value sought : Text) :
    (attributes.insert key value).get? sought =
      if sought = key then some value else attributes.get? sought := by
  simp only [insert, get?, List.lookup_append, lookup_filter_key]
  by_cases wanted : sought = key
  · simp [wanted]
  · have unequal : (sought == key) = false := by simpa using wanted
    simp [wanted, List.lookup_cons, unequal]

end Attributes

end FencePreview
