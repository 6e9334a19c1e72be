import MessageDedup.Consumer.Extraction

/-!
# What a DLQ record tells of its original

The value of a DLQ record is held as the dict that `json.dumps` writes.
-/

namespace MessageDedup

open Coroutine (Proc)

/-! ## Publishing -/

/-- What `send_and_wait` is given. -/
structure DlqRecord where
  topic : String
  value : DlqPayload
  key : Option Bytes

/-- `_send_to_dlq` publishes `d`. -/
def DedupConsumer.Publishes (V : Type) (py : Python) (self : DedupConsumer)
    (record : ConsumerRecord) (error : String) (d : DlqRecord) : Prop :=
  (self.sendToDlq py record error : Program V Unit) = await (.sendAndWait d.topic d.value d.key)

theorem DedupConsumer.Publishes.eq {V : Type} {py : Python} {self : DedupConsumer}
    {record : ConsumerRecord} {error : String} {d : DlqRecord}
    (h : self.Publishes V py record error d) :
    self.dlq = some d.topic ∧ d.value = dlqPayload py record error ∧ d.key = record.key := by
  unfold Publishes sendToDlq at h
  cases hdlq : self.dlq with
  | none => simp [hdlq, await, Proc.call] at h
  | some topic =>
    rw [hdlq] at h
    injection h with hcall
    injection hcall with htopic hvalue hkey
    exact ⟨congrArg some htopic, hvalue.symm, hkey.symm⟩

/-! ## Reading it back -/

/-- `bytes.decode(errors="replace")` replaces nothing in valid UTF-8. -/
def Python.DecodesText (py : Python) : Prop :=
  ∀ bytes s, String.fromUTF8? ⟨bytes.toArray⟩ = some s → py.decodeReplace bytes = s

/-- The value is valid UTF-8, or there is none. -/
def ValueIsText (record : ConsumerRecord) : Prop :=
  ∀ value ∈ nonEmpty record.value, (String.fromUTF8? ⟨value.toArray⟩).isSome = true

/-- The value of the original. -/
def recoverValue (originalValue : Option String) : Option Bytes := originalValue.map encode

/-- The id that a record without headers and with this value is processed under. -/
def recoverId (py : Python) (originalValue : Option String) : Except Exc (Option String) :=
  extractMessageId py ⟨"", 0, 0, none, recoverValue originalValue, []⟩

theorem encode_eq {bytes : Bytes} {s : String}
    (h : String.fromUTF8? ⟨bytes.toArray⟩ = some s) : encode s = bytes := by
  unfold String.fromUTF8? at h
  split at h
  · obtain rfl := Option.some.inj h
    simp [encode, String.fromUTF8]
  · simp at h

section

variable {py : Python} {record : ConsumerRecord}

theorem recoverValue_eq (hpy : py.DecodesText) (htext : ValueIsText record) :
    recoverValue ((nonEmpty record.value).map py.decodeReplace) = nonEmpty record.value := by
  unfold recoverValue
  cases hv : nonEmpty record.value with
  | none => rfl
  | some value =>
    obtain ⟨s, hs⟩ := Option.isSome_iff_exists.mp (htext value hv)
    rw [Option.map_some, Option.map_some, hpy value s hs, encode_eq hs]

theorem extractMessageId_value (hheader : idHeader record.headers = none) {value : Option Bytes}
    (hvalue : value = nonEmpty record.value) :
    extractMessageId py ⟨"", 0, 0, none, value, []⟩ = extractMessageId py record := by
  have htwice : nonEmpty (nonEmpty record.value) = nonEmpty record.value := by
    simp [nonEmpty]
  unfold extractMessageId
  rw [headerMessageId_eq, headerMessageId_eq, hheader, hvalue, htwice]
  rfl

end

/-- From its `original_value` alone, a DLQ record gives back the value of its original, if that is
valid UTF-8, and then the id as well, if it came from no header. -/
theorem dead_letter_recovers (V : Type) (py : Python) (hpy : py.DecodesText) :
    ∃ recover : Option String → Option Bytes × Except Exc (Option String),
      ∀ (self : DedupConsumer) (record : ConsumerRecord) (error : String) (d : DlqRecord),
        self.Publishes V py record error d → ValueIsText record →
          (recover d.value.originalValue).1 = nonEmpty record.value ∧
            (idHeader record.headers = none →
              (recover d.value.originalValue).2 = extractMessageId py record) := by
  refine ⟨fun original => (recoverValue original, recoverId py original), ?_⟩
  intro self record error d hpub htext
  obtain ⟨-, hvalue, -⟩ := hpub.eq
  have hrecovered : recoverValue d.value.originalValue = nonEmpty record.value := by
    rw [hvalue]
    exact recoverValue_eq hpy htext
  exact ⟨hrecovered, fun hheader => extractMessageId_value hheader hrecovered⟩

/-- A runtime for values that are text. -/
def textRuntime (text : String) (payload : Json) : Python :=
  { runtimeOf text payload with
    decodeReplace := fun bytes => (String.fromUTF8? ⟨bytes.toArray⟩).getD "" }

theorem dead_letter_recovers_order :
    let text := "\x7b\"id\": \"order-1\"\x7d"
    let py := textRuntime text (.obj [("id", .str "order-1")])
    extractMessageId py (payloadRecord text) = .ok (some "order-1") ∧
      ∃ recover : Option String → Option Bytes × Except Exc (Option String),
        recover (some text) = (some (encode text), .ok (some "order-1")) := by
  intro text py
  have hpy : py.DecodesText := by
    intro bytes s hs
    change (String.fromUTF8? ⟨bytes.toArray⟩).getD "" = s
    rw [hs]
    rfl
  obtain ⟨recover, hrecover⟩ := dead_letter_recovers Unit py hpy
  have htext : ValueIsText (payloadRecord text) := by
    rintro _ ⟨⟩
    decide +kernel
  have hid : extractMessageId py (payloadRecord text) = .ok (some "order-1") := by
    decide +kernel
  let d : DlqRecord :=
    ⟨"orders.dlq", dlqPayload py (payloadRecord text) "ValueError", none⟩
  have hsent : d.value.originalValue = some text := by
    decide +kernel
  obtain ⟨hbytes, hsame⟩ :=
    hrecover ⟨{}, some "orders.dlq"⟩ (payloadRecord text) "ValueError" d rfl htext
  rw [hsent] at hbytes hsame
  exact ⟨hid, recover, Prod.ext hbytes ((hsame rfl).trans hid)⟩

/-- Two records that differ in the id of their header give the same DLQ record. -/
theorem dead_letter_recovers_no_header :
    ¬ ∃ recover : DlqRecord → Option Bytes × Except Exc (Option String),
      ∀ (record : ConsumerRecord) (error : String) (d : DlqRecord),
        DedupConsumer.Publishes Unit bareRuntime ⟨{}, some "orders.dlq"⟩ record error d →
          recover d = (nonEmpty record.value, extractMessageId bareRuntime record) := by
  rintro ⟨recover, hrecover⟩
  let order (m : String) : ConsumerRecord :=
    ⟨"orders", 0, 7, none, none, [("X-Message-Id", some (encode m))]⟩
  have hfirst := hrecover (order "order-1") "ValueError"
    ⟨"orders.dlq", dlqPayload bareRuntime (order "order-1") "ValueError", none⟩ rfl
  have hsecond := hrecover (order "order-2") "ValueError"
    ⟨"orders.dlq", dlqPayload bareRuntime (order "order-1") "ValueError", none⟩ rfl
  have hids : extractMessageId bareRuntime (order "order-1") ≠
      extractMessageId bareRuntime (order "order-2") := by
    decide +kernel
  exact hids (congrArg Prod.snd (hfirst.symm.trans hsecond))

/-- Decodes text, and a byte that is none. -/
def replacingRuntime : Python :=
  { bareRuntime with
    decodeReplace := fun bytes => (String.fromUTF8? ⟨bytes.toArray⟩).getD "\uFFFD" }

/-- Two records whose values are the bytes 255 and 254 give the same DLQ record. -/
theorem dead_letter_recovers_no_text :
    replacingRuntime.DecodesText ∧
      ¬ ∃ recover : DlqRecord → Option Bytes,
        ∀ (record : ConsumerRecord) (error : String) (d : DlqRecord),
          DedupConsumer.Publishes Unit replacingRuntime ⟨{}, some "orders.dlq"⟩ record error d →
            recover d = nonEmpty record.value := by
  constructor
  · intro bytes s hs
    change (String.fromUTF8? ⟨bytes.toArray⟩).getD "\uFFFD" = s
    rw [hs]
    rfl
  · rintro ⟨recover, hrecover⟩
    let order (byte : UInt8) : ConsumerRecord :=
      ⟨"orders", 0, 7, none, some [byte], [("X-Message-Id", some (encode "order-1"))]⟩
    have hpayload : dlqPayload replacingRuntime (order 255) "ValueError" =
        dlqPayload replacingRuntime (order 254) "ValueError" := by
      decide +kernel
    have hfirst := hrecover (order 255) "ValueError"
      ⟨"orders.dlq", dlqPayload replacingRuntime (order 255) "ValueError", none⟩ rfl
    have hsecond := hrecover (order 254) "ValueError"
      ⟨"orders.dlq", dlqPayload replacingRuntime (order 254) "ValueError", none⟩ rfl
    rw [← hpayload, hfirst] at hsecond
    exact absurd hsecond (by decide)

end MessageDedup
