import MessageDedup.Consumer.Record

/-!
# handlers/

What `handle()` of the three consumers of `main()` makes of a payload. The log lines are left out.
-/

namespace MessageDedup

/-- `type(value).__name__` -/
def Json.typeName : Json → String
  | .null => "NoneType"
  | .bool _ => "bool"
  | .int _ => "int"
  | .float _ => "float"
  | .str _ => "str"
  | .arr _ => "list"
  | .obj _ => "dict"

def quoted (s : String) : String := String.ofList [quoteMark] ++ s ++ String.ofList [quoteMark]

/-- What `value.get` raises on a value that is no dict. -/
def noGet (value : Json) : Exc where
  kind := .exception "AttributeError"
  text := quoted value.typeName ++ " object has no attribute " ++ quoted "get"

/-- `message.get(key, default)`. The dict around raw bytes has the key `raw` only, which no handler
asks for. -/
def Payload.get (message : Payload) (key : String) (default : Json) : Except Exc Json :=
  match message with
  | .raw _ => .ok default
  | .json (.obj fields) => .ok ((Json.get fields key).getD default)
  | .json value => .error (noGet value)

def OrderHandler.handle (message : Payload) : Except Exc Json := do
  let orderId ← message.get "order_id" (.str "unknown")
  return .obj [("order_id", orderId), ("status", .str "created")]

def PaymentHandler.handle (message : Payload) : Except Exc Json := do
  let paymentId ← message.get "payment_id" (.str "unknown")
  let amount ← message.get "amount" (.int 0)
  return .obj [("payment_id", paymentId), ("charged", amount), ("status", .str "success")]

def ShipmentHandler.handle (message : Payload) : Except Exc Json := do
  let shipmentId ← message.get "shipment_id" (.str "unknown")
  let address ← message.get "address" (.obj [])
  return .obj [("shipment_id", shipmentId), ("tracking_number", .str "TRACK-STUB"),
    ("address", address)]

/-! ## The payloads that a handler takes -/

def Payload.isDict : Payload → Bool
  | .raw _ => true
  | .json (.obj _) => true
  | .json _ => false

theorem Payload.get_cases (message : Payload) :
    (message.isDict = true ∧ ∀ key default, ∃ value, message.get key default = .ok value) ∨
      ∃ value, message = .json value ∧ message.isDict = false ∧
        ∀ key default, message.get key default = .error (noGet value) := by
  cases message with
  | raw value => exact .inl ⟨rfl, fun _ default => ⟨default, rfl⟩⟩
  | json value =>
    cases value with
    | obj fields => exact .inl ⟨rfl, fun key default => ⟨_, rfl⟩⟩
    | null | bool b | int n | float f | str s | arr items =>
      exact .inr ⟨_, rfl, rfl, fun _ _ => rfl⟩

end MessageDedup
