import MessageDedup.Python

/-! # The Kafka record: its message id and its payload -/

namespace MessageDedup

/-- What `_process_record` reads of an aiokafka `ConsumerRecord`. -/
structure ConsumerRecord where
  topic : String
  partition : Nat
  offset : Nat
  key : Option Bytes
  value : Option Bytes
  headers : List (String × Option Bytes)
  deriving DecidableEq, Repr

/-- `if value` on bytes that may be missing. -/
def nonEmpty (value : Option Bytes) : Option Bytes := value.filter (· ≠ [])

def headerMessageId (py : Python) : List (String × Option Bytes) → Except Exc (Option String)
  | [] => .ok none
  | (key, value) :: headers =>
    match nonEmpty value with
    | some bytes =>
      if key = "X-Message-Id" then some <$> py.decode bytes else headerMessageId py headers
    | none => headerMessageId py headers

/-- `payload.get("message_id") or payload.get("id")`, when it is truthy. -/
def payloadMessageId (fields : List (String × Json)) : Option Json :=
  (Json.orElse (Json.get fields "message_id") (Json.get fields "id")).filter Json.truthy

/-- `_extract_message_id` -/
def extractMessageId (py : Python) (record : ConsumerRecord) : Except Exc (Option String) :=
  match headerMessageId py record.headers with
  | .error exc => .error exc
  | .ok (some messageId) => .ok (some messageId)
  | .ok none =>
    match nonEmpty record.value with
    | none => .ok none
    | some value =>
      match py.loads value with
      | .ok (.obj fields) => .ok ((payloadMessageId fields).map (Json.toStr py))
      | .ok _ => .ok none
      | .error exc =>
        match exc.kind with
        | .jsonDecodeError | .unicodeDecodeError | .typeError => .ok none
        | _ => .error exc

/-! ## An id is never empty -/

/-- `if message_id:` holds of every id that a record has. -/
abbrev MessageId := { m : String // m ≠ "" }

theorem decode_ne_empty {py : Python} {value : Bytes} {s : String} (h : py.decode value = .ok s)
    (hne : value ≠ []) : s ≠ "" := by
  unfold Python.decode at h
  cases hs : String.fromUTF8? ⟨value.toArray⟩ with
  | none => simp [hs] at h
  | some s' =>
    simp only [hs, Except.ok.injEq] at h
    subst h
    unfold String.fromUTF8? at hs
    split at hs
    · simp only [Option.some.injEq] at hs
      rintro rfl
      apply hne
      simpa [String.fromUTF8] using congrArg (fun s => s.toByteArray.data.toList) hs
    · simp at hs

theorem headerMessageId_ne_empty {py : Python} {headers : List (String × Option Bytes)}
    {m : String} (h : headerMessageId py headers = .ok (some m)) : m ≠ "" := by
  induction headers with
  | nil => simp [headerMessageId] at h
  | cons header headers ih =>
    obtain ⟨key, value⟩ := header
    unfold headerMessageId at h
    cases hv : nonEmpty value with
    | none => exact ih (by simpa only [hv] using h)
    | some bytes =>
      simp only [hv] at h
      split at h
      · have hne : bytes ≠ [] := by
          unfold nonEmpty at hv
          rw [Option.filter_eq_some_iff] at hv
          simpa using hv.2
        cases hd : py.decode bytes with
        | error exc => simp [hd] at h
        | ok s =>
          simp only [hd, Except.map_ok, Except.ok.injEq, Option.some.injEq] at h
          exact h ▸ decode_ne_empty hd hne
      · exact ih h

theorem extractMessageId_ne_empty {py : Python} {record : ConsumerRecord} {m : String}
    (h : extractMessageId py record = .ok (some m)) : m ≠ "" := by
  unfold extractMessageId at h
  split at h
  · simp at h
  · rename_i hh
    simp only [Except.ok.injEq, Option.some.injEq] at h
    exact h ▸ headerMessageId_ne_empty hh
  · split at h
    · simp at h
    · split at h
      · simp only [Except.ok.injEq, Option.map_eq_some_iff] at h
        obtain ⟨value, hv, rfl⟩ := h
        unfold payloadMessageId at hv
        rw [Option.filter_eq_some_iff] at hv
        exact Json.toStr_ne_empty py value hv.2
      · simp at h
      · split at h <;> cases h

/-! ## The payload -/

/-- What `handle()` gets: a decoded value, or a dict that holds the raw bytes. -/
inductive Payload where
  | json (value : Json)
  | raw (value : Bytes)

/-- The first `try` of `_execute_and_commit`. -/
def decodePayload (py : Python) (record : ConsumerRecord) : Except Exc Payload :=
  match nonEmpty record.value with
  | none => .ok (.json (.obj []))
  | some value =>
    match py.loads value with
    | .ok payload => .ok (.json payload)
    | .error exc =>
      match exc.kind with
      | .jsonDecodeError | .unicodeDecodeError => .ok (.raw value)
      | _ => .error exc

end MessageDedup
