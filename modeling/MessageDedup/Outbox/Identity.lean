import MessageDedup.Outbox.Relay

/-!
# The message id of a published row

The relay sends `message_id` as the Kafka key. `_extract_message_id` looks in the headers and in the
payload.
-/

namespace MessageDedup

/-- The record of a message. Kafka chooses `partition` and `offset`. -/
def Message.record (message : Message) (partition offset : Nat) : ConsumerRecord where
  topic := message.topic
  partition := partition
  offset := offset
  key := some message.key
  value := some message.value
  headers := []

/-- `text` is what the JSONB column returns for `payload`, with the fields in its order. -/
structure JsonbText (py : Python) (payload : List (String × Json)) (text : String) : Prop where
  ne_empty : text ≠ ""
  loads : py.loads (encode text) = .ok (.obj payload)

/-- The first of `fields["message_id"]` and `fields["id"]` that is truthy prints as `messageId`. -/
def Carries (py : Python) (fields : List (String × Json)) (messageId : String) : Prop :=
  ∃ value, (Json.get fields "message_id" = some value ∨
      (∀ other, Json.get fields "message_id" = some other → other.truthy = false) ∧
        Json.get fields "id" = some value) ∧
    value.truthy = true ∧ value.toStr py = messageId

/-! ## What the consumer reads -/

theorem payloadMessageId_eq_some {fields : List (String × Json)} {value : Json} :
    payloadMessageId fields = some value ↔
      (Json.get fields "message_id" = some value ∨
        (∀ other, Json.get fields "message_id" = some other → other.truthy = false) ∧
          Json.get fields "id" = some value) ∧ value.truthy = true := by
  unfold payloadMessageId
  rw [Option.filter_eq_some_iff]
  cases hfirst : Json.get fields "message_id" with
  | none => simp [Json.orElse]
  | some first =>
    cases htruthy : first.truthy
    · simp only [Json.orElse, htruthy, Bool.false_eq_true, if_false, Option.some.injEq, forall_eq',
        true_and]
      constructor
      · rintro ⟨hid, hvalue⟩
        exact ⟨.inr hid, hvalue⟩
      · rintro ⟨rfl | hid, hvalue⟩
        · rw [htruthy] at hvalue
          simp at hvalue
        · exact ⟨hid, hvalue⟩
    · simp [Json.orElse, htruthy]

theorem encode_ne_nil {text : String} (h : text ≠ "") : encode text ≠ [] := by
  intro hnil
  apply h
  have hbytes : text.toByteArray.data.toList = [] := hnil
  apply String.toByteArray_inj.mp
  apply ByteArray.ext
  apply Array.ext'
  simpa using hbytes

theorem extractMessageId_record {py : Python} {row : OutboxRow} {fields : List (String × Json)}
    (h : JsonbText py fields row.payload) (partition offset : Nat) :
    extractMessageId py (row.message.record partition offset) =
      .ok ((payloadMessageId fields).map (Json.toStr py)) := by
  have hvalue : nonEmpty (row.message.record partition offset).value =
      some (encode row.payload) := by
    unfold nonEmpty
    rw [Option.filter_eq_some_iff]
    exact ⟨rfl, by simpa using encode_ne_nil h.ne_empty⟩
  unfold extractMessageId
  simp only [Message.record, headerMessageId] at hvalue ⊢
  rw [hvalue]
  simp only [h.loads]

theorem extractMessageId_record_iff {py : Python} {row : OutboxRow}
    {fields : List (String × Json)} (h : JsonbText py fields row.payload) {messageId : String}
    (partition offset : Nat) :
    extractMessageId py (row.message.record partition offset) = .ok (some messageId) ↔
      Carries py fields messageId := by
  rw [extractMessageId_record h, Except.ok.injEq, Option.map_eq_some_iff]
  unfold Carries
  simp only [payloadMessageId_eq_some, and_assoc]

/-! ## The row that the writer inserted -/

/-- A conflict leaves the table alone: a row that came with `id` is new in its `message_id` too. -/
theorem fetch_insert {table : Table} {id : Nat} {entry : OutboxEntry} {text : String}
    {locked : List Nat} {limit : Nat} {row : OutboxRow}
    (hid : ∀ stored ∈ table, stored.row.id ≠ id)
    (h : row ∈ (table.insert id entry text).fetch locked limit) (hrow : row.id = id) :
    row = ⟨id, entry.topic, entry.messageId, text⟩ ∧
      ∀ stored ∈ table, stored.row.messageId ≠ entry.messageId := by
  obtain ⟨stored, hstored, rfl, -⟩ := Table.mem_fetch h
  unfold Table.insert at hstored
  split at hstored
  · exact absurd hrow (hid stored hstored)
  · rename_i hnew
    rcases List.mem_append.mp hstored with hold | hlast
    · exact absurd hrow (hid stored hold)
    · rw [List.mem_singleton] at hlast
      refine ⟨by rw [hlast], fun other hother heq => hnew ⟨other, hother, heq⟩⟩

/-- The consumer computes the outbox id of exactly the rows whose payload repeats it. -/
theorem identity_iff_carries (py : Python) (table : Table) (id : Nat) (entry : OutboxEntry)
    (text : String) (locked : List Nat) (limit : Nat) (row : OutboxRow)
    (hjsonb : JsonbText py entry.payload text) (hid : ∀ stored ∈ table, stored.row.id ≠ id)
    (hrow : row ∈ (table.insert id entry text).fetch locked limit ∧ row.id = id) :
    ((∀ partition offset, extractMessageId py (row.message.record partition offset) =
        .ok (some entry.messageId)) ∧
      (∀ partition offset partition' offset',
        extractMessageId py (row.message.record partition offset) =
          extractMessageId py (row.message.record partition' offset')) ∧
      ∀ other ∈ table,
        (∀ partition offset, extractMessageId py (other.row.message.record partition offset) =
          .ok (some other.row.messageId)) →
        ∀ partition offset partition' offset',
          extractMessageId py (other.row.message.record partition offset) ≠
            extractMessageId py (row.message.record partition' offset')) ↔
    Carries py entry.payload entry.messageId := by
  obtain ⟨rfl, hunique⟩ := fetch_insert hid hrow.1 hrow.2
  have hiff : ∀ partition offset,
      extractMessageId py ((OutboxRow.mk id entry.topic entry.messageId text).message.record
        partition offset) = .ok (some entry.messageId) ↔
      Carries py entry.payload entry.messageId :=
    extractMessageId_record_iff hjsonb
  constructor
  · rintro ⟨hsame, -⟩
    exact (hiff 0 0).mp (hsame 0 0)
  · intro hcarries
    have hsame := fun partition offset => (hiff partition offset).mpr hcarries
    refine ⟨hsame, fun _ _ _ _ => by rw [hsame, hsame], ?_⟩
    intro other hother hown partition offset partition' offset' heq
    rw [hown, hsame] at heq
    simp only [Except.ok.injEq, Option.some.injEq] at heq
    exact hunique other hother heq

/-! ## Three entries -/

def orderText : String := "\x7b\"order_id\": 123\x7d"
def labelledText : String := "\x7b\"message_id\": \"order-123\"\x7d"
def otherText : String := "\x7b\"id\": \"order-122\"\x7d"

def orderPayload : List (String × Json) := [("order_id", .int 123)]
def labelledPayload : List (String × Json) := [("message_id", .str "order-123")]
def otherPayload : List (String × Json) := [("id", .str "order-122")]

/-- `json.loads` on the three texts. -/
def outboxRuntime : Python where
  loads := fun value =>
    if value = encode orderText then .ok (.obj orderPayload)
    else if value = encode labelledText then .ok (.obj labelledPayload)
    else if value = encode otherText then .ok (.obj otherPayload)
    else .error ⟨.jsonDecodeError, "Expecting value: line 1 column 1 (char 0)"⟩
  decodeErrorText := fun _ => ""
  decodeReplace := fun _ => ""
  isprintable := fun _ => true

def orderRow (text : String) : OutboxRow := ⟨1, "orders", "order-123", text⟩

theorem orderText_jsonb : JsonbText outboxRuntime orderPayload orderText := ⟨by decide, rfl⟩

theorem labelledText_jsonb : JsonbText outboxRuntime labelledPayload labelledText where
  ne_empty := by decide
  loads := by
    have hne : encode labelledText ≠ encode orderText := by decide
    simp [outboxRuntime, hne]

theorem otherText_jsonb : JsonbText outboxRuntime otherPayload otherText where
  ne_empty := by decide
  loads := by
    have hne : encode otherText ≠ encode orderText := by decide
    have hne' : encode otherText ≠ encode labelledText := by decide
    simp [outboxRuntime, hne, hne']

/-- The entry of the writer's own usage text: its id is in the key alone, and the consumer finds
none. -/
theorem order_id_lost :
    JsonbText outboxRuntime orderPayload orderText ∧
    orderRow orderText ∈
      (Table.insert [] 1 ⟨"orders", "order-123", orderPayload, 0⟩ orderText).fetch [] 100 ∧
    ¬ extractMessageId outboxRuntime ((orderRow orderText).message.record 0 0) =
      .ok (some "order-123") := by
  refine ⟨orderText_jsonb, by decide, ?_⟩
  rw [extractMessageId_record orderText_jsonb]
  simp [payloadMessageId, orderPayload, Json.get, Json.orElse]

/-- Beside a row that the consumer knows by its own id. -/
theorem labelled_id_kept :
    let other : Stored := ⟨⟨7, "orders", "order-122", otherText⟩, .pending, 0, none⟩
    extractMessageId outboxRuntime ((orderRow labelledText).message.record 0 0) =
        .ok (some "order-123") ∧
      extractMessageId outboxRuntime (other.row.message.record 0 1) = .ok (some "order-122") ∧
      extractMessageId outboxRuntime (other.row.message.record 0 1) ≠
        extractMessageId outboxRuntime ((orderRow labelledText).message.record 0 0) := by
  intro other
  have hother : ∀ partition offset, extractMessageId outboxRuntime
      (other.row.message.record partition offset) = .ok (some "order-122") := by
    intro partition offset
    rw [extractMessageId_record otherText_jsonb]
    simp [payloadMessageId, otherPayload, Json.get, Json.orElse, Json.truthy, Json.toStr]
  obtain ⟨hkept, -, hdifferent⟩ := (identity_iff_carries outboxRuntime [other] 1
    ⟨"orders", "order-123", labelledPayload, 0⟩ labelledText [] 100 (orderRow labelledText)
    labelledText_jsonb (by simp [other]) ⟨by decide, rfl⟩).mpr
      ⟨.str "order-123", .inl rfl, by decide, rfl⟩
  exact ⟨hkept 0 0, hother 0 1, hdifferent other (List.mem_singleton_self _) hother 0 1 0 0⟩

end MessageDedup
