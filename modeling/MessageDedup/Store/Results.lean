import MessageDedup.Store.Redis

/-!
# Results on Redis

The way of a result of `mark_completed` through `json.dumps`, the script's `cjson` and the
`json.loads` of `get_status`. Python compares dicts without their order, so Lua's order of the
fields is left out.
-/

namespace MessageDedup

/-! ## Values and texts -/

/-- What JSON can hold, with numbers in `N`. -/
inductive JsonTree (N : Type) where
  | null
  | bool (b : Bool)
  | num (n : N)
  | str (s : String)
  | arr (items : List (JsonTree N))
  | obj (fields : List (String × JsonTree N))

namespace JsonTree

variable {N M : Type} (f : N → M)

mutual

def map : JsonTree N → JsonTree M
  | .null => .null
  | .bool b => .bool b
  | .num n => .num (f n)
  | .str s => .str s
  | .arr items => .arr (mapItems items)
  | .obj fields => .obj (mapFields fields)

def mapItems : List (JsonTree N) → List (JsonTree M)
  | [] => []
  | item :: items => map item :: mapItems items

def mapFields : List (String × JsonTree N) → List (String × JsonTree M)
  | [] => []
  | (key, value) :: fields => (key, map value) :: mapFields fields

end

end JsonTree

abbrev JsonValue := JsonTree Int
abbrev JsonText := JsonTree Numeral

/-! ## cjson -/

/-- The values of the script. A table has items under the keys from 1 on, and fields. -/
inductive Lua where
  | null
  | bool (b : Bool)
  | number (d : Int)
  | str (s : String)
  | table (items : List Lua) (fields : List (String × Lua))

/-- The items of a table that has fields as well. -/
def numbered (items : List JsonText) : List (String × JsonText) :=
  items.zipIdx.map fun (item, i) => (toString (i + 1), item)

namespace Cjson

mutual

def decode : JsonText → Lua
  | .null => .null
  | .bool b => .bool b
  | .num n => .number (double n.value)
  | .str s => .str s
  | .arr items => .table (decodeItems items) []
  | .obj fields => .table [] (decodeFields fields)

def decodeItems : List JsonText → List Lua
  | [] => []
  | item :: items => decode item :: decodeItems items

def decodeFields : List (String × JsonText) → List (String × Lua)
  | [] => []
  | (key, value) :: fields => (key, decode value) :: decodeFields fields

end

/-- A table is an array when it has items and nothing else. -/
def encodeTable : List JsonText → List (String × JsonText) → JsonText
  | item :: items, [] => .arr (item :: items)
  | items, fields => .obj (numbered items ++ fields)

mutual

def encode : Lua → Except Exc JsonText
  | .null => .ok .null
  | .bool b => .ok (.bool b)
  | .number d => if isFinite d then .ok (.num (writeNumber d)) else .error invalidNumber
  | .str s => .ok (.str s)
  | .table items fields => do return encodeTable (← encodeItems items) (← encodeFields fields)

def encodeItems : List Lua → Except Exc (List JsonText)
  | [] => .ok []
  | item :: items => do return (← encode item) :: (← encodeItems items)

def encodeFields : List (String × Lua) → Except Exc (List (String × JsonText))
  | [] => .ok []
  | (key, value) :: fields => do return (key, ← encode value) :: (← encodeFields fields)

end

end Cjson

/-! ## The codec -/

/-- How JSON stands in a string: what `json.dumps` makes of it, and how `cjson` takes it apart. -/
structure JsonSyntax where
  render : JsonText → String
  parse : String → Option JsonText

def dumps (value : JsonValue) : JsonText := value.map .digits

def loads (text : JsonText) : JsonValue := text.map readNumber

def invalidToken : Exc where
  kind := .exception "ResponseError"
  text := "Expected value but found invalid token"

def jsonCodec (json : JsonSyntax) : ResultCodec JsonValue JsonText where
  dumps := fun value => .ok (json.render (dumps value))
  cjson := fun s =>
    match json.parse s with
    | some text => Cjson.encode (Cjson.decode text)
    | none => .error invalidToken
  loads := fun text =>
    match loads text with
    | .null => none
    | value => some value

/-! ## What comes back -/

mutual

/-- No array is empty, and each integer is representable. -/
def Preserved : JsonValue → Prop
  | .num n => Representable n
  | .arr items => items ≠ [] ∧ PreservedItems items
  | .obj fields => PreservedFields fields
  | .null | .bool _ | .str _ => True

def PreservedItems : List JsonValue → Prop
  | [] => True
  | item :: items => Preserved item ∧ PreservedItems items

def PreservedFields : List (String × JsonValue) → Prop
  | [] => True
  | (_, value) :: fields => Preserved value ∧ PreservedFields fields

end

namespace Cjson

theorem encode_table {items : List Lua} {fields : List (String × Lua)} {text : JsonText} :
    encode (.table items fields) = .ok text ↔ ∃ texts fields', encodeItems items = .ok texts ∧
      encodeFields fields = .ok fields' ∧ encodeTable texts fields' = text := by
  rw [encode]
  cases encodeItems items <;> cases encodeFields fields <;>
    simp [bind, Except.bind, pure, Except.pure]

theorem encodeItems_cons {item : Lua} {items : List Lua} {texts : List JsonText} :
    encodeItems (item :: items) = .ok texts ↔
      ∃ text rest, encode item = .ok text ∧ encodeItems items = .ok rest ∧
        text :: rest = texts := by
  rw [encodeItems]
  cases encode item <;> cases encodeItems items <;>
    simp [bind, Except.bind, pure, Except.pure]

theorem encodeFields_cons {key : String} {value : Lua} {fields : List (String × Lua)}
    {texts : List (String × JsonText)} :
    encodeFields ((key, value) :: fields) = .ok texts ↔ ∃ text rest, encode value = .ok text ∧
      encodeFields fields = .ok rest ∧ (key, text) :: rest = texts := by
  rw [encodeFields]
  cases encode value <;> cases encodeFields fields <;>
    simp [bind, Except.bind, pure, Except.pure]

end Cjson

/-- What comes back from `cjson`, read again. -/
def ComesBack (value : JsonValue) : Prop :=
  ∃ text, Cjson.encode (Cjson.decode (dumps value)) = .ok text ∧ loads text = value

def ItemsComeBack (items : List JsonValue) : Prop :=
  ∃ texts, Cjson.encodeItems (Cjson.decodeItems (JsonTree.mapItems .digits items)) = .ok texts ∧
    JsonTree.mapItems readNumber texts = items

def FieldsComeBack (fields : List (String × JsonValue)) : Prop :=
  ∃ texts, Cjson.encodeFields (Cjson.decodeFields (JsonTree.mapFields .digits fields)) =
    .ok texts ∧ JsonTree.mapFields readNumber texts = fields

theorem comesBack_num (n : Int) : ComesBack (.num n) ↔ Representable n := by
  rw [← number_preserved_iff]
  simp only [ComesBack, dumps, JsonTree.map, Cjson.decode, Numeral.value, Cjson.encode]
  split
  · rename_i hfinite
    simp [hfinite, loads, JsonTree.map]
  · rename_i hinfinite
    simp [hinfinite]

/-- An array comes back, unless it is empty: then it is written as an object. -/
theorem comesBack_arr (items : List JsonValue) :
    ComesBack (.arr items) ↔ items ≠ [] ∧ ItemsComeBack items := by
  unfold ComesBack ItemsComeBack dumps
  simp only [JsonTree.map, Cjson.decode, Cjson.encode_table, Cjson.encodeFields]
  constructor
  · rintro ⟨_, ⟨texts, _, hitems, ⟨⟩, rfl⟩, hback⟩
    cases texts with
    | nil => simp [Cjson.encodeTable, numbered, loads, JsonTree.map] at hback
    | cons text texts =>
      have hitems' : JsonTree.mapItems readNumber (text :: texts) = items := JsonTree.arr.inj hback
      refine ⟨?_, text :: texts, hitems, hitems'⟩
      rintro rfl
      simp [JsonTree.mapItems] at hitems'
  · rintro ⟨hne, texts, hitems, rfl⟩
    cases texts with
    | nil => exact absurd rfl hne
    | cons text texts => exact ⟨_, ⟨text :: texts, [], hitems, rfl, rfl⟩, rfl⟩

theorem comesBack_obj (fields : List (String × JsonValue)) :
    ComesBack (.obj fields) ↔ FieldsComeBack fields := by
  unfold ComesBack FieldsComeBack dumps
  simp only [JsonTree.map, Cjson.decode, Cjson.encode_table, Cjson.encodeItems]
  constructor
  · rintro ⟨_, ⟨_, texts, ⟨⟩, hfields, rfl⟩, hback⟩
    exact ⟨texts, hfields, JsonTree.obj.inj hback⟩
  · rintro ⟨texts, hfields, rfl⟩
    exact ⟨_, ⟨[], texts, rfl, hfields, rfl⟩, rfl⟩

theorem itemsComeBack_cons (item : JsonValue) (items : List JsonValue) :
    ItemsComeBack (item :: items) ↔ ComesBack item ∧ ItemsComeBack items := by
  unfold ItemsComeBack ComesBack
  simp only [JsonTree.mapItems, Cjson.decodeItems, Cjson.encodeItems_cons]
  constructor
  · rintro ⟨_, ⟨text, texts, htext, htexts, rfl⟩, hback⟩
    obtain ⟨hitem, hitems⟩ := List.cons.inj hback
    exact ⟨⟨text, htext, hitem⟩, texts, htexts, hitems⟩
  · rintro ⟨⟨text, htext, rfl⟩, texts, htexts, rfl⟩
    exact ⟨_, ⟨text, texts, htext, htexts, rfl⟩, rfl⟩

theorem fieldsComeBack_cons (key : String) (value : JsonValue)
    (fields : List (String × JsonValue)) :
    FieldsComeBack ((key, value) :: fields) ↔ ComesBack value ∧ FieldsComeBack fields := by
  unfold FieldsComeBack ComesBack
  simp only [JsonTree.mapFields, Cjson.decodeFields, Cjson.encodeFields_cons]
  constructor
  · rintro ⟨_, ⟨text, texts, htext, htexts, rfl⟩, hback⟩
    obtain ⟨hfield, hfields⟩ := List.cons.inj hback
    exact ⟨⟨text, htext, (Prod.mk.inj hfield).2⟩, texts, htexts, hfields⟩
  · rintro ⟨⟨text, htext, rfl⟩, texts, htexts, rfl⟩
    exact ⟨_, ⟨text, texts, htext, htexts, rfl⟩, rfl⟩

mutual

theorem comesBack_iff : ∀ value : JsonValue, ComesBack value ↔ Preserved value
  | .null | .bool _ | .str _ => iff_of_true ⟨_, rfl, rfl⟩ trivial
  | .num n => comesBack_num n
  | .arr items => by rw [comesBack_arr, itemsComeBack_iff items, Preserved]
  | .obj fields => by rw [comesBack_obj, fieldsComeBack_iff fields, Preserved]

theorem itemsComeBack_iff : ∀ items : List JsonValue, ItemsComeBack items ↔ PreservedItems items
  | [] => iff_of_true ⟨[], rfl, rfl⟩ trivial
  | item :: items => by
    rw [itemsComeBack_cons, comesBack_iff item, itemsComeBack_iff items, PreservedItems]

theorem fieldsComeBack_iff :
    ∀ fields : List (String × JsonValue), FieldsComeBack fields ↔ PreservedFields fields
  | [] => iff_of_true ⟨[], rfl, rfl⟩ trivial
  | (key, value) :: fields => by
    rw [fieldsComeBack_cons, comesBack_iff value, fieldsComeBack_iff fields, PreservedFields]

end

/-! ## The store -/

theorem jsonCodec_loads (json : JsonSyntax) {text : JsonText} {value : JsonValue}
    (hnull : value ≠ .null) :
    (jsonCodec json).loads text = some value ↔ loads text = value := by
  change (match loads text with | .null => none | value => some value) = some value ↔ _
  cases loads text <;> simp [hnull.symm]

section

variable {config : DeduplicationConfig} {json : JsonSyntax} {keys keys' : RedisState JsonText}
  {now : Int} {m : String} {value : JsonValue}

theorem getStatus_of_get {data : LuaRecord JsonText}
    (hdata : Keyspace.get keys (Redis.nowMs now) (redisKey m) = some data) :
    Redis.getStatus (jsonCodec json) keys now m = some {
      messageId := data.messageId
      status := data.status
      attempts := data.attempts
      result := data.result.bind (jsonCodec json).loads
      error := data.error
      leaseExpiresAt := data.leaseUntilMs.map (· * 1000)
      createdAt := data.createdAt
      updatedAt := data.updatedAt } := by
  unfold Redis.getStatus
  rw [hdata]
  rfl

theorem markCompleted_json {data : LuaRecord JsonText}
    (hdata : Keyspace.get keys (Redis.nowMs now) (redisKey m) = some data)
    (hp : data.status = .processing)
    (hparse : json.parse (json.render (dumps value)) = some (dumps value))
    (hne : json.render (dumps value) ≠ "") :
    Redis.markCompleted .exact (jsonCodec json) keys now m (some value) =
      (Cjson.encode (Cjson.decode (dumps value))).map fun text =>
        Keyspace.setKeepTtl keys (Redis.nowMs now) (redisKey m) { data with
          status := .completed, updatedAt := now, result := some text, leaseUntilMs := none } := by
  have hjson : Redis.resultJson (jsonCodec json) (some value) = .ok (json.render (dumps value)) :=
    rfl
  have hcjson : (jsonCodec json).cjson (json.render (dumps value)) =
      Cjson.encode (Cjson.decode (dumps value)) := by
    simp only [jsonCodec, hparse]
  unfold Redis.markCompleted Redis.luaUpdateStatus Redis.luaResult
  rw [hjson]
  simp only [hdata, hp, hcjson, bind, Except.bind]
  rw [if_neg (not_not.mpr rfl), if_pos hne]
  cases Cjson.encode (Cjson.decode (dumps value)) <;> rfl

theorem claim_processing (hclaim : Redis.claim .exact config keys now m = .ok (keys', true)) :
    ∃ data, Keyspace.get keys' (Redis.nowMs now) (redisKey m) = some data ∧
      data.status = .processing := by
  obtain ⟨-, hcell⟩ := Redis.claim_ok hclaim
  rw [if_pos rfl, Option.map_eq_some_iff] at hcell
  obtain ⟨data, hdata, hclaimed⟩ := hcell
  exact ⟨data, hdata, congrArg Cell.status hclaimed⟩

end

/-- After a claim that was won, a result that is marked comes back from `get_status` exactly when it
has no empty array and each integer in it is the double nearest to a decimal of 14 digits. -/
theorem stored_result_iff (config : DeduplicationConfig) (json : JsonSyntax)
    (keys keys' : RedisState JsonText) (now later last : Int) (m : String) (value : JsonValue)
    (hclaim : (redisStore config (jsonCodec json)).claim keys now m = .ok (keys', true))
    (hlater : now ≤ later) (hlast : later ≤ last)
    (halive : (redisStore config (jsonCodec json)).isDuplicate keys' last m = true)
    (hparse : json.parse (json.render (dumps value)) = some (dumps value))
    (hne : json.render (dumps value) ≠ "") (hnull : value ≠ .null) :
    (∃ keys'' status,
      (redisStore config (jsonCodec json)).markCompleted keys' later m (some value) = .ok keys'' ∧
      (redisStore config (jsonCodec json)).getStatus keys'' last m = some status ∧
      status.status = .completed ∧ status.result = some value) ↔ Preserved value := by
  have hlive : Keyspace.get keys' (Redis.nowMs last) (redisKey m) ≠ none := by
    rw [Option.ne_none_iff_isSome]
    exact halive
  have hms : Redis.nowMs later ≤ Redis.nowMs last := Redis.nowMs_mono hlast
  obtain ⟨data, hdata, hp⟩ := claim_processing hclaim
  have hdata' : Keyspace.get keys' (Redis.nowMs later) (redisKey m) = some data := by
    rw [Keyspace.get_earlier hms hlive,
      ← Keyspace.get_earlier (Redis.nowMs_mono (hlater.trans hlast)) hlive, hdata]
  rw [← comesBack_iff]
  change (∃ keys'' status, Redis.markCompleted .exact (jsonCodec json) keys' later m (some value) =
    .ok keys'' ∧ Redis.getStatus (jsonCodec json) keys'' last m = some status ∧ _) ↔ _
  rw [markCompleted_json hdata' hp hparse hne]
  unfold ComesBack
  cases Cjson.encode (Cjson.decode (dumps value)) with
  | error exc => simp [Except.map]
  | ok text =>
    have hget := Keyspace.get_setKeepTtl_later hms hlive { data with
      status := .completed, updatedAt := later, result := some text, leaseUntilMs := none }
    constructor
    · rintro ⟨_, status, ⟨⟩, hstatus, -, hresult⟩
      rw [getStatus_of_get hget] at hstatus
      obtain rfl := Option.some.inj hstatus
      exact ⟨text, rfl, (jsonCodec_loads json hnull).mp hresult⟩
    · rintro ⟨_, ⟨⟩, hback⟩
      exact ⟨_, _, rfl, getStatus_of_get hget, rfl, (jsonCodec_loads json hnull).mpr hback⟩

/-- The order that a handler may return. -/
def receipt : JsonValue :=
  .obj [("total", .num 129900), ("paid", .bool true), ("items", .arr [.str "a", .str "b"])]

theorem stored_result_iff_receipt :
    let text := "\x7b\"total\": 129900, \"paid\": true, \"items\": [\"a\", \"b\"]\x7d"
    let json : JsonSyntax :=
      ⟨fun _ => text, fun s => if s = text then some (dumps receipt) else none⟩
    let store := redisStore {} (jsonCodec json)
    ∃ keys keys' status, store.claim (fun _ => none) 0 "order-1" = .ok (keys, true) ∧
      store.markCompleted keys 1000000 "order-1" (some receipt) = .ok keys' ∧
      store.getStatus keys' 2000000 "order-1" = some status ∧
      status.status = .completed ∧ status.result = some receipt := by
  intro text json store
  have hpreserved : Preserved receipt := by
    simp [Preserved, PreservedItems, PreservedFields, receipt, representable_of_lt]
  have hparse : json.parse (json.render (dumps receipt)) = some (dumps receipt) := by
    change (if text = text then some (dumps receipt) else none) = _
    exact if_pos rfl
  have hiff := stored_result_iff {} json (fun _ => none) _ 0 1000000 2000000 "order-1" receipt rfl
    (by decide) (by decide) rfl hparse (by decide) nofun
  obtain ⟨keys', status, h⟩ := hiff.mpr hpreserved
  exact ⟨_, keys', status, rfl, h⟩

/-- An empty list comes back as an empty dict. -/
theorem stored_result_empty_list :
    let json : JsonSyntax := ⟨fun _ => "[]", fun s => if s = "[]" then some (.arr []) else none⟩
    let store := redisStore {} (jsonCodec json)
    ∃ keys keys' status, store.claim (fun _ => none) 0 "order-1" = .ok (keys, true) ∧
      store.markCompleted keys 1000000 "order-1" (some (.arr [])) = .ok keys' ∧
      store.getStatus keys' 2000000 "order-1" = some status ∧
      status.result = some (.obj []) ∧ status.result ≠ some (.arr []) := by
  intro json store
  exact ⟨_, _, _, rfl, rfl, rfl, rfl, nofun⟩

end MessageDedup
