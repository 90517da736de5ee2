/-!
# Ordered maps

A list of keyed entries in which a key keeps the place of its first insertion and the value of its
last one.
-/

set_option autoImplicit false

namespace EventSchema

abbrev Entries (α : Type) := List (String × α)

namespace Entries

variable {α β : Type}

/-- The value of the first entry with the key. -/
def get? : Entries α → String → Option α
  | [], _ => none
  | (key, value) :: rest, wanted => if key = wanted then some value else get? rest wanted

def insert : Entries α → String → α → Entries α
  | [], key, value => [(key, value)]
  | (other, old) :: rest, key, value =>
    if other = key then (other, value) :: rest else (other, old) :: insert rest key value

def insertSome (entries : Entries α) (key : String) : Option α → Entries α
  | none => entries
  | some value => entries.insert key value

/-- Inserts the entries of the second map one after the other. -/
def extend (entries more : Entries α) : Entries α :=
  more.foldl (fun map entry ↦ map.insert entry.1 entry.2) entries

def ofList (entries : List (String × α)) : Entries α := extend [] entries

def keys (entries : Entries α) : List String := entries.map Prod.fst

def values (entries : Entries α) : List α := entries.map Prod.snd

def contains (entries : Entries α) (key : String) : Bool := (entries.get? key).isSome

/-- No key has two entries. -/
def Unique (entries : Entries α) : Prop := entries.keys.Nodup

@[simp] theorem get?_nil (key : String) : get? ([] : Entries α) key = none := rfl

theorem get?_cons (entry : String × α) (entries : Entries α) (key : String) :
    get? (entry :: entries) key = if entry.1 = key then some entry.2 else get? entries key := rfl

@[simp] theorem get?_insert (entries : Entries α) (key wanted : String) (value : α) :
    (entries.insert key value).get? wanted = if key = wanted then some value
      else entries.get? wanted := by
  induction entries with
  | nil => simp [insert, get?]
  | cons entry rest ih =>
    obtain ⟨other, old⟩ := entry
    simp only [insert]
    split <;> grind [get?]

theorem keys_insert (entries : Entries α) (key : String) (value : α) :
    (entries.insert key value).keys =
      if key ∈ entries.keys then entries.keys else entries.keys ++ [key] := by
  induction entries with
  | nil => simp [insert, keys]
  | cons entry rest ih =>
    obtain ⟨other, old⟩ := entry
    simp only [keys] at ih
    simp only [insert, keys]
    split <;> grind

end Entries

end EventSchema
