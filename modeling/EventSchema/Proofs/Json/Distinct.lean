import EventSchema.Json.Parser
import EventSchema.Pointer
import EventSchema.Proofs.Entries
import EventSchema.Proofs.Outcome

/-!
# Distinct keys

The keys of every object in a value that was read from a text are distinct (`distinct_of_parse`),
and so are those of every value that a pointer leads to.
-/

set_option autoImplicit false

namespace EventSchema

namespace Json

/-- No object in the value has two entries for a key. -/
inductive Distinct : Json → Prop
  | null : Distinct .null
  | bool (value : Bool) : Distinct (.bool value)
  | number (value : Number) : Distinct (.number value)
  | string (value : String) : Distinct (.string value)
  | array {items : List Json} (hitems : ∀ item ∈ items, Distinct item) : Distinct (.array items)
  | object {members : Fields} (hunique : Entries.Unique members)
    (hmembers : ∀ entry ∈ members, Distinct entry.2) : Distinct (.object members)

namespace Distinct

theorem item {items : List Json} (hdistinct : (Json.array items).Distinct) {value : Json}
    (hmem : value ∈ items) : value.Distinct := by
  cases hdistinct with
  | array hitems => exact hitems value hmem

theorem unique {members : Fields} (hdistinct : (Json.object members).Distinct) :
    Entries.Unique members := by
  cases hdistinct with
  | object hunique _ => exact hunique

theorem member {members : Fields} (hdistinct : (Json.object members).Distinct) {key : String}
    {value : Json} (hmem : (key, value) ∈ members) : value.Distinct := by
  cases hdistinct with
  | object _ hmembers => exact hmembers _ hmem

theorem empty : (Json.object []).Distinct :=
  .object List.nodup_nil fun _ hmem ↦ absurd hmem List.not_mem_nil

theorem insert {members : Fields} (hdistinct : (Json.object members).Distinct) (key : String)
    {value : Json} (hvalue : value.Distinct) :
    (Json.object (Entries.insert members key value)).Distinct := by
  refine .object (hdistinct.unique.insert key value) ?_
  rintro ⟨other, inner⟩ hmem
  rcases Entries.mem_insert hmem with hmem | hentry
  · exact hdistinct.member hmem
  · obtain ⟨rfl, rfl⟩ := Prod.mk.inj hentry
    exact hvalue

theorem insertSome {members : Fields} (hdistinct : (Json.object members).Distinct) (key : String)
    {value : Option Json} (hvalue : ∀ inner, value = some inner → inner.Distinct) :
    (Json.object (Entries.insertSome members key value)).Distinct := by
  cases value with
  | none => exact hdistinct
  | some inner => exact hdistinct.insert key (hvalue inner rfl)

theorem step {root value : Json} (hdistinct : root.Distinct) {segment : String}
    (hstep : Pointer.step root segment = some value) : value.Distinct := by
  cases root with
  | object members => exact hdistinct.member (Entries.mem_of_get? hstep)
  | array items =>
    obtain ⟨index, -, hitem⟩ := Option.bind_eq_some_iff.mp hstep
    exact hdistinct.item (List.mem_of_getElem? hitem)
  | null | bool _ | number _ | string _ => exact absurd hstep (by simp [Pointer.step])

theorem lookup {pointer : Pointer} {root value : Json} (hdistinct : root.Distinct)
    (hlookup : pointer.lookup root = some value) : value.Distinct := by
  obtain ⟨segments⟩ := pointer
  induction segments generalizing root with
  | nil =>
    obtain rfl : root = value := by simpa [Pointer.lookup] using hlookup
    exact hdistinct
  | cons segment rest ih =>
    rw [Pointer.lookup, List.foldlM_cons] at hlookup
    obtain ⟨part, hpart, hrest⟩ := Option.bind_eq_some_iff.mp hlookup
    exact ih (hdistinct.step hpart) hrest

end Distinct

/-! ### Deciding -/

mutual

/-- Computes whether the keys of every object are distinct. -/
def hasDistinctKeys : Json → Bool
  | .array items => allHaveDistinctKeys items
  | .object members => decide (Entries.keys members).Nodup && membersHaveDistinctKeys members
  | _ => true

def allHaveDistinctKeys : List Json → Bool
  | [] => true
  | item :: rest => item.hasDistinctKeys && allHaveDistinctKeys rest

def membersHaveDistinctKeys : List (String × Json) → Bool
  | [] => true
  | (_, value) :: rest => value.hasDistinctKeys && membersHaveDistinctKeys rest

end

mutual

theorem hasDistinctKeys_iff : ∀ value : Json, value.hasDistinctKeys = true ↔ value.Distinct
  | .array items => by
    rw [hasDistinctKeys, allHaveDistinctKeys_iff items]
    exact ⟨.array, fun hdistinct _ ↦ hdistinct.item⟩
  | .object members => by
    rw [hasDistinctKeys, Bool.and_eq_true, decide_eq_true_iff, membersHaveDistinctKeys_iff members]
    exact ⟨fun h ↦ .object h.1 h.2, fun hdistinct ↦ ⟨hdistinct.unique, fun _ ↦ hdistinct.member⟩⟩
  | .null => iff_of_true rfl .null
  | .bool value => iff_of_true rfl (.bool value)
  | .number value => iff_of_true rfl (.number value)
  | .string value => iff_of_true rfl (.string value)

theorem allHaveDistinctKeys_iff : ∀ items : List Json,
    allHaveDistinctKeys items = true ↔ ∀ item ∈ items, item.Distinct
  | [] => by simp [allHaveDistinctKeys]
  | item :: rest => by
    rw [allHaveDistinctKeys, Bool.and_eq_true, hasDistinctKeys_iff item,
      allHaveDistinctKeys_iff rest, List.forall_mem_cons]

theorem membersHaveDistinctKeys_iff : ∀ members : List (String × Json),
    membersHaveDistinctKeys members = true ↔ ∀ entry ∈ members, entry.2.Distinct
  | [] => by simp [membersHaveDistinctKeys]
  | (_, value) :: rest => by
    rw [membersHaveDistinctKeys, Bool.and_eq_true, hasDistinctKeys_iff value,
      membersHaveDistinctKeys_iff rest, List.forall_mem_cons]

end

instance : DecidablePred Distinct := fun value ↦ decidable_of_iff _ (hasDistinctKeys_iff value)

/-! ### Reading -/

theorem distinct_of_readWord {value result : Json} (hdistinct : value.Distinct) :
    ∀ {word text rest : List Char}, readWord value word text = .ok (result, rest) → result.Distinct
  | [], text, rest, hread => by
    obtain ⟨rfl, rfl⟩ := Prod.mk.inj (Except.ok.inj hread)
    exact hdistinct
  | _ :: _, [], rest, hread => by cases hread
  | expected :: more, c :: text, rest, hread => by
    rw [readWord] at hread
    split_ifs at hread with hc
    exact distinct_of_readWord hdistinct hread

theorem advance_eq_ok {α : Type} {text : List Char} {read : α × List Char} {result : α}
    {rest : Rest text} (hread : advance read = .ok (result, rest)) : read = (result, rest.1) := by
  rw [advance] at hread
  split_ifs at hread
  cases hread
  rfl

theorem fst_of_advance {α : Type} {text : List Char} {read : α × List Char} {result : α}
    {rest : Rest text} (hread : advance read = .ok (result, rest)) : result = read.1 :=
  congrArg Prod.fst (advance_eq_ok hread).symm

mutual

theorem distinct_of_readValue (depth : Nat) (text : List Char) {result : Json} {rest : Rest text}
    (hread : readValue depth text = .ok (result, rest)) : result.Distinct := by
  rw [readValue] at hread
  split at hread
  · cases hread
  · rename_i c after hafter hnext
    split at hread
    · obtain ⟨⟨word, more⟩, hword, hadvance⟩ := bind_eq_ok.mp hread
      exact fst_of_advance hadvance ▸ distinct_of_readWord .null hword
    · obtain ⟨⟨word, more⟩, hword, hadvance⟩ := bind_eq_ok.mp hread
      exact fst_of_advance hadvance ▸ distinct_of_readWord (.bool true) hword
    · obtain ⟨⟨word, more⟩, hword, hadvance⟩ := bind_eq_ok.mp hread
      exact fst_of_advance hadvance ▸ distinct_of_readWord (.bool false) hword
    · obtain ⟨⟨n, more⟩, -, hadvance⟩ := bind_eq_ok.mp hread
      exact fst_of_advance hadvance ▸ .number n
    · obtain ⟨⟨content, more⟩, -, hresult⟩ := bind_eq_ok.mp hread
      cases hresult
      exact .string content
    · split at hread
      · cases hread
      · obtain ⟨⟨items, more⟩, hitems, hresult⟩ := bind_eq_ok.mp hread
        cases hresult
        exact .array (distinct_of_readArray _ _ hitems)
    · split at hread
      · cases hread
      · obtain ⟨⟨members, more⟩, hmembers, hresult⟩ := bind_eq_ok.mp hread
        cases hresult
        exact distinct_of_readObject _ _ hmembers
    · split at hread
      · obtain ⟨⟨n, more⟩, -, hadvance⟩ := bind_eq_ok.mp hread
        exact fst_of_advance hadvance ▸ .number n
      · cases hread
termination_by (text.length, 0)

theorem distinct_of_readArray (depth : Nat) (text : List Char) {items : List Json}
    {rest : Rest text} (hread : readArray depth text = .ok (items, rest)) :
    ∀ item ∈ items, item.Distinct := by
  rw [readArray] at hread
  split at hread
  · cases hread
  · cases hread
    exact fun item hitem ↦ absurd hitem List.not_mem_nil
  · exact distinct_of_readItems _ _ _ (fun item hitem ↦ absurd hitem List.not_mem_nil) hread
termination_by (text.length, 2)

theorem distinct_of_readItems (depth : Nat) (before : List Json) (text : List Char)
    {items : List Json} {rest : Rest text} (hbefore : ∀ item ∈ before, item.Distinct)
    (hread : readItems depth before text = .ok (items, rest)) :
    ∀ item ∈ items, item.Distinct := by
  rw [readItems] at hread
  obtain ⟨⟨item, after, hafter⟩, hitem, hnext⟩ := bind_eq_ok.mp hread
  have hitems : ∀ other ∈ item :: before, other.Distinct :=
    List.forall_mem_cons.mpr ⟨distinct_of_readValue depth text hitem, hbefore⟩
  simp only at hnext
  split at hnext
  · cases hnext
  · cases hnext
    intro other hother
    exact hitems other (List.mem_reverse.mp hother)
  · split at hnext
    · cases hnext
    · obtain ⟨⟨more, last⟩, hmore, hresult⟩ := bind_eq_ok.mp hnext
      cases hresult
      exact distinct_of_readItems depth _ _ hitems hmore
  · cases hnext
termination_by (text.length, 1)

theorem distinct_of_readObject (depth : Nat) (text : List Char) {members : Fields}
    {rest : Rest text} (hread : readObject depth text = .ok (members, rest)) :
    (Json.object members).Distinct := by
  rw [readObject] at hread
  split at hread
  · cases hread
  · cases hread
    exact .empty
  · exact distinct_of_readMembers _ _ _ .empty hread
termination_by (text.length, 2)

theorem distinct_of_readMembers (depth : Nat) (before : Fields) (text : List Char)
    {members : Fields} {rest : Rest text} (hbefore : (Json.object before).Distinct)
    (hread : readMembers depth before text = .ok (members, rest)) :
    (Json.object members).Distinct := by
  rw [readMembers] at hread
  obtain ⟨⟨key, rest, hrest⟩, hkey, hread⟩ := bind_eq_ok.mp hread
  obtain ⟨⟨item, after, hafter⟩, hitem, hnext⟩ := bind_eq_ok.mp hread
  have hmembers := hbefore.insert key (distinct_of_readValue depth rest hitem)
  simp only at hnext
  split at hnext
  · cases hnext
  · cases hnext
    exact hmembers
  · split at hnext
    · cases hnext
    · obtain ⟨⟨more, last⟩, hmore, hresult⟩ := bind_eq_ok.mp hnext
      cases hresult
      exact distinct_of_readMembers depth _ _ hmembers hmore
  · cases hnext
termination_by (text.length, 1)

end

theorem distinct_of_parse {text : String} {value : Json} (hparse : parse text = .ok value) :
    value.Distinct := by
  rw [parse] at hparse
  split at hparse
  · rename_i result hchars
    obtain rfl := Except.ok.inj hparse
    obtain ⟨⟨read, rest⟩, hread, hend⟩ := bind_eq_ok.mp hchars
    simp only at hend
    split at hend
    · obtain rfl := Except.ok.inj hend
      exact distinct_of_readValue _ _ hread
    · cases hend
  · cases hparse

end Json

end EventSchema
