import MessageDedup.Store.Memory
import MessageDedup.Store.Redis

/-! # The two backends -/

namespace MessageDedup

/-- A store as it is built: in memory or on Redis, with its configuration. -/
inductive Backend (V R : Type) where
  | inMemory (config : DeduplicationConfig)
  | redis (config : DeduplicationConfig) (codec : ResultCodec V R)

namespace Backend

variable {V R : Type}

abbrev State : Backend V R → Type
  | .inMemory _ => MemoryState V
  | .redis _ _ => RedisState R

def empty : (backend : Backend V R) → backend.State
  | .inMemory _ => fun _ => none
  | .redis _ _ => fun _ => none

def config : Backend V R → DeduplicationConfig
  | .inMemory config => config
  | .redis config _ => config

/-- Whether `mark_failed` spares a record that is not PROCESSING. -/
def guarded : Backend V R → Bool
  | .inMemory _ => false
  | .redis _ _ => true

/-- Until when the lease of a claim made at `now` runs. -/
def leaseUntil : Backend V R → (now : Int) → Int
  | .inMemory config => InMemory.leaseUntil config
  | .redis config _ => Redis.leaseUntil config

def storeOn (numbers : Numbers) : (backend : Backend V R) → DeduplicationStore backend.State V
  | .inMemory config => inMemoryStore V config
  | .redis config codec => redisStoreOn numbers config codec

def store (backend : Backend V R) : DeduplicationStore backend.State V := backend.storeOn .exact

theorem lawful (backend : Backend V R) :
    backend.store.Lawful backend.config backend.guarded backend.leaseUntil := by
  cases backend with
  | inMemory config => exact inMemoryStore_lawful config
  | redis config codec => exact redisStore_lawful config codec

/-- A claim made at `now` can compute its lease. -/
def TakesLease : Backend V R → (now : Int) → Prop
  | .inMemory config, now => InMemory.TakesLease config now
  | .redis _ _, _ => True

/-- A first claim made at `now` can set its expiry. -/
def TakesTtl : Backend V R → (now : Int) → Prop
  | .inMemory _, _ => True
  | .redis config _, now => ValidExpire (Redis.nowMs now) (Redis.ttlMs .exact config)

variable {backend : Backend V R} {m : String} {s : backend.State} {now : Int}

theorem claim_returns (hlease : backend.TakesLease now)
    (httl : backend.TakesTtl now ∨ backend.store.cell s now m ≠ none) :
    ∃ r, backend.store.claim s now m = .ok r := by
  cases hr : backend.store.claim s now m with
  | ok r => exact ⟨r, rfl⟩
  | error exc =>
    exfalso
    cases backend with
    | inMemory config => exact InMemory.claim_raises.mp ⟨exc, hr⟩ hlease
    | redis config codec =>
      have hraised := (@Redis.claim_raises V R config codec s now m).mp ⟨exc, hr⟩
      rcases httl with hvalid | hsome
      · exact hraised.1 hvalid
      · exact hsome hraised.2

end Backend

end MessageDedup
