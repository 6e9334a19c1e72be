import MessageDedup.Consumer.Lifecycle

/-!
# The documented message id

The header `X-Message-Id`, then the field `message_id` of a JSON object, then its field `id`; and
the records whose id the consumer finds as documented.
-/

namespace MessageDedup

open Coroutine (Proc)

/-! ## Three places -/

/-- The first non-empty value of the header `X-Message-Id`. -/
def idHeader (headers : List (String × Option Bytes)) : Option Bytes :=
  headers.findSome? fun (key, value) => if key = "X-Message-Id" then nonEmpty value else none

namespace Json

/-- Neither null nor the empty string. -/
def isGiven : Json → Bool
  | .null => false
  | .str s => s ≠ ""
  | _ => true

def givenField (fields : List (String × Json)) (key : String) : Option Json :=
  (get fields key).filter isGiven

/-- Given, but false to Python: `false`, a zero, and an empty array or object. -/
def slips (value : Json) : Bool := value.isGiven && !value.truthy

theorem truthy_isGiven {value : Json} (h : value.truthy = true) : value.isGiven = true := by
  cases value <;> simp_all [truthy, isGiven]

end Json

/-- The id that a record carries. -/
def documentedId (py : Python) (record : ConsumerRecord) : Option String :=
  match idHeader record.headers with
  | some bytes => String.fromUTF8? ⟨bytes.toArray⟩
  | none =>
    match (nonEmpty record.value).map py.loads with
    | some (.ok (.obj fields)) =>
      ((Json.givenField fields "message_id").or (Json.givenField fields "id")).map (Json.toStr py)
    | _ => none

/-! ## The headers -/

theorem headerMessageId_eq (py : Python) (headers : List (String × Option Bytes)) :
    headerMessageId py headers =
      match idHeader headers with
      | some bytes => some <$> py.decode bytes
      | none => .ok none := by
  unfold idHeader
  induction headers with
  | nil => rfl
  | cons header headers ih =>
    obtain ⟨key, value⟩ := header
    unfold headerMessageId
    rw [List.findSome?_cons]
    cases hv : nonEmpty value with
    | none =>
      simp only [hv, ite_self]
      exact ih
    | some bytes =>
      by_cases hkey : key = "X-Message-Id"
      · simp only [hv, hkey, if_true]
      · simp only [hkey, if_false]
        exact ih

theorem decode_eq {py : Python} {bytes : Bytes}
    (h : (String.fromUTF8? ⟨bytes.toArray⟩).isSome = true) :
    some <$> py.decode bytes = .ok (String.fromUTF8? ⟨bytes.toArray⟩) := by
  obtain ⟨s, hs⟩ := Option.isSome_iff_exists.mp h
  unfold Python.decode
  rw [hs]
  rfl

/-! ## The fields -/

/-- The field that the code takes is the one that is documented, or prints like it. -/
def FieldsKept (py : Python) (fields : List (String × Json)) : Prop :=
  (∀ a ∈ Json.get fields "message_id", a.slips = true →
    ∃ b ∈ Json.get fields "id", b.truthy = true ∧ b.toStr py = a.toStr py) ∧
  (Json.givenField fields "message_id" = none → ∀ b ∈ Json.get fields "id", b.slips = false)

section

variable {py : Python} {fields : List (String × Json)} {key : String} {a b : Option Json}

theorem map_filter_truthy_iff :
    (b.filter Json.truthy).map (Json.toStr py) = (b.filter Json.isGiven).map (Json.toStr py) ↔
      ∀ value ∈ b, value.slips = false := by
  cases b with
  | none => simp
  | some value =>
    cases htruthy : value.truthy with
    | true => simp [Option.filter, Json.slips, htruthy, Json.truthy_isGiven htruthy]
    | false => cases hgiven : value.isGiven <;> simp [Option.filter, Json.slips, htruthy, hgiven]

theorem payloadMessageId_iff :
    (payloadMessageId fields).map (Json.toStr py) =
        ((Json.givenField fields "message_id").or (Json.givenField fields "id")).map
          (Json.toStr py) ↔
      FieldsKept py fields := by
  unfold payloadMessageId FieldsKept Json.givenField
  generalize Json.get fields "message_id" = a
  generalize Json.get fields "id" = b
  cases a with
  | none => simp [Json.orElse, map_filter_truthy_iff]
  | some value =>
    cases htruthy : value.truthy with
    | true =>
      have hgiven := Json.truthy_isGiven htruthy
      simp [Json.orElse, Option.filter, Json.slips, htruthy, hgiven]
    | false =>
      cases hgiven : value.isGiven with
      | true =>
        -- `message_id` is given, and the code looks at `id` all the same.
        have hid : (b.filter Json.truthy).map (Json.toStr py) = some (value.toStr py) ↔
            ∃ other ∈ b, other.truthy = true ∧ other.toStr py = value.toStr py := by
          simp only [Option.map_eq_some_iff, Option.filter_eq_some_iff, Option.mem_def, and_assoc]
        simp [Json.orElse, Option.filter_some, Json.slips, htruthy, hgiven, hid]
      | false =>
        have hmap : (b.filter Json.truthy).map (Json.toStr py) =
            (b.filter Json.isGiven).map (Json.toStr py) ↔ ∀ other ∈ b, other.slips = false :=
          map_filter_truthy_iff
        simpa [Json.orElse, Option.filter_some, htruthy, hgiven, Json.slips] using hmap

end

/-! ## The extraction -/

/-- Without an id in a header, the value is one whose fields are kept, or that holds no fields, or
that `json.loads` rejects with an exception that the code catches. -/
def ExtractsAsDocumented (py : Python) (record : ConsumerRecord) : Prop :=
  idHeader record.headers = none → ∀ value ∈ nonEmpty record.value,
    match py.loads value with
    | .ok (.obj fields) => FieldsKept py fields
    | .ok _ => True
    | .error exc => exc.kind = .jsonDecodeError ∨ exc.kind = .unicodeDecodeError ∨
        exc.kind = .typeError

def HeadersDecode (record : ConsumerRecord) : Prop :=
  ∀ header ∈ record.headers, ∀ bytes ∈ header.2, (String.fromUTF8? ⟨bytes.toArray⟩).isSome = true

section

variable {V : Type} {py : Python} {record : ConsumerRecord}

theorem idHeader_decodes {bytes : Bytes} (hheaders : HeadersDecode record)
    (hbytes : idHeader record.headers = some bytes) :
    (String.fromUTF8? ⟨bytes.toArray⟩).isSome = true := by
  obtain ⟨header, hmem, hheader⟩ := List.exists_of_findSome?_eq_some hbytes
  dsimp only at hheader
  split at hheader
  · exact hheaders header hmem bytes (Option.filter_eq_some_iff.mp hheader).1
  · simp at hheader

theorem extractMessageId_iff (hheaders : HeadersDecode record) :
    extractMessageId py record = .ok (documentedId py record) ↔
      ExtractsAsDocumented py record := by
  unfold extractMessageId documentedId ExtractsAsDocumented
  rw [headerMessageId_eq]
  cases hheader : idHeader record.headers with
  | some bytes =>
    simp only [decode_eq (idHeader_decodes hheaders hheader)]
    obtain ⟨s, hs⟩ := Option.isSome_iff_exists.mp (idHeader_decodes hheaders hheader)
    simp [hs]
  | none =>
    cases nonEmpty record.value with
    | none => simp
    | some value =>
      cases hloads : py.loads value with
      | ok payload =>
        cases payload with
        | obj fields => simpa [hloads] using payloadMessageId_iff
        | _ => simp [hloads]
      | error exc =>
        cases hkind : exc.kind <;> simp [hloads, hkind]

theorem processRecord_claims (self : DedupConsumer) {m : String}
    (hid : extractMessageId py record = .ok (some m)) :
    ∃ k, (self.processRecord py record : Program V Unit) = .await (.claim m) k := by
  unfold DedupConsumer.processRecord
  rw [hid]
  exact ⟨_, rfl⟩

end

/-- Exactly when the extraction follows the documented order, and deduplicates each record that
carries an id. -/
theorem extraction_documented_iff {V : Type} (py : Python) (self : DedupConsumer)
    (record : ConsumerRecord) (hheaders : HeadersDecode record) :
    (extractMessageId py record = .ok (documentedId py record) ∧
      ∀ m, documentedId py record = some m →
        ∃ k, (self.processRecord py record : Program V Unit) = .await (.claim m) k) ↔
      ExtractsAsDocumented py record := by
  rw [← extractMessageId_iff hheaders]
  constructor
  · exact fun h => h.1
  · intro hextract
    refine ⟨hextract, ?_⟩
    intro m hm
    exact processRecord_claims self (hm ▸ hextract)

/-- A runtime that reads one text. -/
def runtimeOf (text : String) (payload : Json) : Python :=
  { bareRuntime with
    loads := fun bytes => if bytes = encode text then .ok payload else bareRuntime.loads bytes }

theorem runtimeOf_loads (text : String) (payload : Json) :
    (runtimeOf text payload).loads (encode text) = .ok payload := by
  unfold runtimeOf
  exact if_pos rfl

def payloadRecord (text : String) : ConsumerRecord :=
  ⟨"orders", 0, 7, none, some (encode text), []⟩

/-- A null in `message_id`, and a number in `id`. -/
theorem extraction_documented_number :
    let text := "\x7b\"message_id\": null, \"id\": 42\x7d"
    let py := runtimeOf text (.obj [("message_id", .null), ("id", .int 42)])
    documentedId py (payloadRecord text) = some "42" ∧
      extractMessageId py (payloadRecord text) = .ok (documentedId py (payloadRecord text)) := by
  intro text py
  have hkept : ExtractsAsDocumented py (payloadRecord text) := by
    rintro - _ ⟨⟩
    rw [runtimeOf_loads]
    refine ⟨?_, ?_⟩
    · rintro _ ⟨⟩ hslips
      cases hslips
    · rintro - _ ⟨⟩
      rfl
  have hiff := extraction_documented_iff (V := Unit) py ⟨{}, none⟩ (payloadRecord text) nofun
  exact ⟨by decide +kernel, (hiff.mpr hkept).1⟩

/-- A zero in `message_id` is taken for no id at all. -/
theorem extraction_documented_zero :
    let text := "\x7b\"message_id\": 0\x7d"
    let py := runtimeOf text (.obj [("message_id", .int 0)])
    documentedId py (payloadRecord text) = some "0" ∧
      extractMessageId py (payloadRecord text) = .ok none ∧
      extractMessageId py (payloadRecord text) ≠ .ok (documentedId py (payloadRecord text)) := by
  decide +kernel

end MessageDedup
