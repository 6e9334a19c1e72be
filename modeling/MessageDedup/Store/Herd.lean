import MessageDedup.Store.Comparison
import MessageDedup.Store.StateMachine

/-!
# A herd of claims

Any number of calls of `claim()` for one message, one after the other, with nothing between them
that touches its record. Redis has the numbers of Lua.
-/

namespace MessageDedup

variable {V R : Type}

/-- A call of `claim()`: its time, the store before and after it, and its answer. -/
structure ClaimCall (backend : Backend V R) where
  now : Int
  before : backend.State
  answer : Except Exc Bool
  after : backend.State

theorem InMemory.claim_wins {config : DeduplicationConfig} {store : MemoryState V} {now : Int}
    {m : String} (hlease : InMemory.TakesLease config now)
    (hclaim : Cell.Claimable config now ((store m).map ProcessingStatus.cell)) :
    ∃ store' record lease, InMemory.claim config store now m = .ok (store', true) ∧
      store' m = some record ∧ record.status = .processing ∧
      record.leaseExpiresAt = some lease := by
  cases hold : store m with
  | none =>
    exact ⟨_, _, _, InMemory.claim_none hlease hold, Function.update_self _ _ _, rfl, rfl⟩
  | some existing =>
    rw [hold] at hclaim
    exact ⟨_, _, _, (InMemory.claim_some hlease hold).trans (if_pos hclaim),
      Function.update_self _ _ _, rfl, rfl⟩

section

variable [RedisServer]

namespace Backend

/-- The record of `m`, in a store with the numbers of Lua. -/
def record (backend : Backend V R) (s : backend.State) (now : Int) (m : String) : Option Cell :=
  (backend.storeOn .doubles).cell s now m

/-- A call that raises has written nothing. -/
def claimCall (backend : Backend V R) (m : String) (s : backend.State) (now : Int) :
    ClaimCall backend :=
  match (backend.storeOn .doubles).claim s now m with
  | .ok (s', claimed) => ⟨now, s, .ok claimed, s'⟩
  | .error exc => ⟨now, s, .error exc, s⟩

def herd (backend : Backend V R) (m : String) :
    backend.State → (times : List Int) → List (ClaimCall backend)
  | _, [] => []
  | s, now :: times =>
    backend.claimCall m s now :: herd backend m (backend.claimCall m s now).after times

end Backend

namespace ClaimCall

variable {backend : Backend V R}

def Claimable (m : String) (call : ClaimCall backend) : Prop :=
  Cell.Claimable backend.config call.now (backend.record call.before call.now m)

def Won (call : ClaimCall backend) : Prop := call.answer = .ok true
def Lost (call : ClaimCall backend) : Prop := call.answer = .ok false

end ClaimCall

/-! ## The statement -/

section

variable {backend : Backend V R}

/-- The record of `m` does not expire between two calls. -/
def NoExpiry (m : String) (calls : List (ClaimCall backend)) : Prop :=
  calls.IsChain fun x y => backend.record x.after y.now m = backend.record x.after x.now m

/-- All calls after the first one that wins fall before the end of the lease that it has written. -/
def WithinLease (m : String) (calls : List (ClaimCall backend)) : Prop :=
  ∀ earlier winner later, calls = earlier ++ winner :: later → winner.Won →
    (∀ call ∈ earlier, ¬ call.Won) → ∀ cell lease,
      backend.record winner.after winner.now m = some cell → cell.lease = some lease →
      ∀ call ∈ later, call.now < lease

namespace Backend

/-- A claim made at `now` can compute its lease and, on Redis, write it. -/
def HoldsLease : Backend V R → (now : Int) → Prop
  | .inMemory config, now => InMemory.TakesLease config now
  | .redis config _, now => isFinite (double (Redis.leaseMs .doubles config now))

/-- A first claim made at `now` can set its expiry. -/
def HoldsTtl : Backend V R → (now : Int) → Prop
  | .inMemory _, _ => True
  | .redis config _, now =>
    Numbers.doubles.expires (Redis.nowMs now) (Redis.ttlMs .doubles config) = true

/-- On Redis, Lua has `max_retries` as it is. -/
def HoldsLimit : Backend V R → Prop
  | .inMemory _ => True
  | .redis config _ => double config.maxRetries = config.maxRetries

/-- On Redis, each count is one that a script has written. -/
def Counted : (backend : Backend V R) → backend.State → Prop
  | .inMemory _, _ => True
  | .redis _ _, keys => ∀ key entry, keys key = some entry → entry.value.Counted

end Backend

structure OneWinner (m : String) (calls : List (ClaimCall backend)) : Prop where
  winner : (∃ call ∈ calls, call.Claimable m) →
    ∃ earlier winner later, calls = earlier ++ winner :: later ∧ winner.Won ∧
      winner.Claimable m ∧ (∀ call ∈ earlier, call.Lost ∧ ¬ call.Claimable m) ∧
      ∀ call ∈ later, call.Lost
  nobody : (∀ call ∈ calls, ¬ call.Claimable m) → ∀ call ∈ calls, call.Lost
  losers : ∀ call ∈ calls, ¬ call.Won → call.after = call.before

end

/-! ## One call -/

section

variable {backend : Backend V R} {m : String} {s : backend.State} {now : Int}

@[simp] theorem Backend.claimCall_now : (backend.claimCall m s now).now = now := by
  unfold claimCall
  split <;> rfl

@[simp] theorem Backend.claimCall_before : (backend.claimCall m s now).before = s := by
  unfold claimCall
  split <;> rfl

theorem Backend.claimCall_claimable : (backend.claimCall m s now).Claimable m ↔
    Cell.Claimable backend.config now (backend.record s now m) := by
  unfold ClaimCall.Claimable
  rw [claimCall_now, claimCall_before]

theorem Backend.claimCall_eq {s' : backend.State} {claimed : Bool}
    (h : (backend.storeOn .doubles).claim s now m = .ok (s', claimed)) :
    backend.claimCall m s now = ⟨now, s, .ok claimed, s'⟩ := by
  unfold claimCall
  rw [h]

theorem LuaRecord.claimable_doubles {config : DeduplicationConfig} {data : LuaRecord R}
    (hlimit : double config.maxRetries = config.maxRetries) :
    data.Claimable .doubles config (Redis.nowMs now) ↔
      Cell.Claimable config now (some data.cell) := by
  rw [← Redis.claimable_iff]
  unfold LuaRecord.Claimable
  change (_ ∧ _ ∧ _ < double config.maxRetries) ∨ _ ↔ _
  rw [hlimit]
  rfl

theorem Redis.first_ok {config : DeduplicationConfig}
    (hlease : isFinite (double (Redis.leaseMs .doubles config now))) (m : String) :
    ∃ raw, (LuaRecord.first m now (Redis.leaseMs .doubles config now) : LuaRecord R).written
      .doubles = .ok raw :=
  have hone : Numbers.doubles.written 1 = .ok 1 := Numbers.written_of_lt (by decide)
  ⟨_, LuaRecord.written_of hone rfl (Numbers.written_of_finite hlease)⟩

theorem Redis.reclaimed_ok {config : DeduplicationConfig} {data : LuaRecord R}
    (hlease : isFinite (double (Redis.leaseMs .doubles config now))) (hcount : data.Counted) :
    ∃ raw, (data.reclaimed now (Redis.leaseMs .doubles config now)).written .doubles =
      .ok raw := by
  obtain ⟨n, hcount⟩ := hcount
  exact ⟨_, LuaRecord.written_of (Numbers.written_of_finite (Numbers.isFinite_succ hcount)) rfl
    (Numbers.written_of_finite hlease)⟩

theorem LuaRecord.held_of_written {data raw : LuaRecord R} (h : data.written .doubles = .ok raw)
    (hstatus : data.status = .processing) (hlease : data.leaseUntilMs.isSome) :
    raw.cell.status = .processing ∧ ∃ lease, raw.cell.lease = some lease := by
  have hsome : raw.leaseUntilMs.isSome := by
    rwa [LuaRecord.isSome_of_mapM (LuaRecord.written_iff.mp h).2.1]
  obtain ⟨lease, hraw⟩ := Option.isSome_iff_exists.mp hsome
  exact ⟨(LuaRecord.written_status h).trans hstatus, _, congrArg (Option.map _) hraw⟩

theorem Redis.claim_wins {config : DeduplicationConfig} {keys : RedisState R}
    (hlease : isFinite (double (Redis.leaseMs .doubles config now)))
    (httl : Numbers.doubles.expires (Redis.nowMs now) (Redis.ttlMs .doubles config) = true ∨
      Keyspace.get keys (Redis.nowMs now) (redisKey m) ≠ none)
    (hlimit : double config.maxRetries = config.maxRetries)
    (hcounted : ∀ key entry, keys key = some entry → entry.value.Counted)
    (hclaim : Cell.Claimable config now
      ((Keyspace.get keys (Redis.nowMs now) (redisKey m)).map LuaRecord.cell)) :
    ∃ keys' raw lease, Redis.claim .doubles config keys now m = .ok (keys', true) ∧
      Keyspace.get keys' (Redis.nowMs now) (redisKey m) = some raw ∧
      raw.cell.status = .processing ∧ raw.cell.lease = some lease := by
  rw [Redis.claim_eq]
  cases hget : Keyspace.get keys (Redis.nowMs now) (redisKey m) with
  | none =>
    have hvalid := httl.resolve_right (not_not.mpr hget)
    obtain ⟨raw, hraw⟩ : ∃ raw, (LuaRecord.first m now (Redis.leaseMs .doubles config now) :
      LuaRecord R).written .doubles = .ok raw := Redis.first_ok hlease m
    obtain ⟨hheld, lease, hended⟩ := LuaRecord.held_of_written hraw rfl rfl
    rw [Redis.evalClaim_none hget, hraw]
    exact ⟨_, raw, lease, congrArg (Except.map _) (if_pos hvalid),
      Redis.get_first (RedisServer.valid hvalid), hheld,
      hended⟩
  | some data =>
    rw [hget] at hclaim
    obtain ⟨raw, hraw⟩ := Redis.reclaimed_ok hlease (get_of_entries hcounted hget)
    obtain ⟨hheld, lease, hended⟩ := LuaRecord.held_of_written hraw rfl rfl
    rw [Redis.evalClaim_some hget, if_pos ((LuaRecord.claimable_doubles hlimit).mpr hclaim), hraw]
    exact ⟨_, raw, lease, rfl, Keyspace.get_setKeepTtl_self _ _ _ _, hheld, hended⟩

theorem Backend.claimCall_won (hlease : backend.HoldsLease now)
    (httl : backend.HoldsTtl now ∨ backend.record s now m ≠ none) (hlimit : backend.HoldsLimit)
    (hcounted : backend.Counted s)
    (hclaim : Cell.Claimable backend.config now (backend.record s now m)) :
    (backend.claimCall m s now).Won ∧
      ∃ cell lease, backend.record (backend.claimCall m s now).after now m = some cell ∧
        cell.status = .processing ∧ cell.lease = some lease := by
  cases backend with
  | inMemory config =>
    obtain ⟨s', record, lease, hr, hrecord, hstatus, hended⟩ := InMemory.claim_wins hlease hclaim
    have hwon : claimCall (.inMemory config : Backend V R) m s now = _ := claimCall_eq hr
    rw [hwon]
    exact ⟨rfl, record.cell, lease, congrArg (Option.map ProcessingStatus.cell) hrecord, hstatus,
      hended⟩
  | redis config codec =>
    have hcell : ∀ keys : RedisState R, (Backend.redis config codec).record keys now m =
        (Keyspace.get keys (Redis.nowMs now) (redisKey m)).map LuaRecord.cell :=
      fun keys => Redis.cellOn_eq now
    rw [hcell] at httl hclaim
    have httl' := httl.imp_right fun hsome hnone => hsome (Option.map_eq_none_iff.mpr hnone)
    obtain ⟨s', raw, lease, hr, hget, hstatus, hended⟩ :=
      Redis.claim_wins hlease httl' hlimit hcounted hclaim
    have hwon : claimCall (.redis config codec) m s now = _ := claimCall_eq hr
    rw [hwon, hcell, hget]
    exact ⟨rfl, raw.cell, lease, rfl, hstatus, hended⟩

theorem Backend.claimCall_lost (hlease : backend.HoldsLease now) (hlimit : backend.HoldsLimit)
    (hclaim : ¬ Cell.Claimable backend.config now (backend.record s now m)) :
    backend.claimCall m s now = ⟨now, s, .ok false, s⟩ := by
  cases backend with
  | inMemory config =>
    change ¬ Cell.Claimable config now ((s m).map ProcessingStatus.cell) at hclaim
    apply claimCall_eq
    change InMemory.claim config s now m = _
    cases hold : s m with
    | none =>
      rw [hold] at hclaim
      exact absurd Cell.claimable_none hclaim
    | some existing =>
      rw [hold] at hclaim
      rw [InMemory.claim_some hlease hold]
      exact if_neg hclaim
  | redis config codec =>
    change ¬ Cell.Claimable config now ((redisStoreOn .doubles config codec).cell s now m)
      at hclaim
    rw [Redis.cellOn_eq] at hclaim
    apply claimCall_eq
    change Redis.claim .doubles config s now m = _
    rw [Redis.claim_eq]
    cases hget : Keyspace.get s (Redis.nowMs now) (redisKey m) with
    | none =>
      rw [hget] at hclaim
      exact absurd Cell.claimable_none hclaim
    | some data =>
      rw [hget] at hclaim
      rw [Redis.evalClaim_some hget, if_neg (mt (LuaRecord.claimable_doubles hlimit).mp hclaim)]
      rfl

end

theorem Backend.Counted.claimCall {backend : Backend V R} {s : backend.State}
    (h : backend.Counted s) (m : String) (now : Int) :
    backend.Counted (backend.claimCall m s now).after := by
  cases backend with
  | inMemory config => trivial
  | redis config codec =>
    cases hr : Redis.claim .doubles config s now m with
    | error exc =>
      have heq : Backend.claimCall (.redis config codec) m s now = ⟨now, s, .error exc, s⟩ := by
        unfold Backend.claimCall
        rw [show (storeOn .doubles (.redis config codec)).claim s now m = .error exc from hr]
      rw [heq]
      exact h
    | ok r =>
      obtain ⟨s', claimed⟩ := r
      have heq : Backend.claimCall (.redis config codec) m s now = _ := Backend.claimCall_eq hr
      rw [heq]
      obtain ⟨n, heval, -⟩ := Redis.evalClaim_of_claim hr
      have hran : Redis.Ran .doubles config s now (.claim m : RedisOp V) s' n :=
        @Redis.command_ran V R .doubles config codec s s' now n (.claim m) heval
      intro key entry hentry
      rcases hran.entry hentry with hold | ⟨data, hraw⟩
      · exact h key entry hold
      · exact ⟨_, (LuaRecord.written_iff.mp hraw).1⟩

/-! ## Any number of calls -/

section

variable {backend : Backend V R} {m : String} {s : backend.State} {times : List Int}

theorem NoExpiry.next {call : ClaimCall backend}
    (h : NoExpiry m (call :: backend.herd m s times)) :
    (∀ now ∈ times.head?,
      backend.record call.after now m = backend.record call.after call.now m) ∧
      NoExpiry m (backend.herd m s times) := by
  cases times with
  | nil => exact ⟨nofun, .nil⟩
  | cons now times =>
    obtain ⟨hcell, hrest⟩ := List.isChain_cons_cons.mp h
    refine ⟨?_, hrest⟩
    rintro _ ⟨⟩
    rwa [Backend.claimCall_now] at hcell

theorem Backend.herd_held {cell : Cell} (hstatus : cell.status = .processing) {lease : Int}
    (hlease : cell.lease = some lease) (hholds : ∀ now ∈ times, backend.HoldsLease now)
    (hlimit : backend.HoldsLimit) (hdurable : NoExpiry m (backend.herd m s times))
    (hlive : ∀ call ∈ backend.herd m s times, call.now < lease)
    (hcell : ∀ now ∈ times.head?, backend.record s now m = some cell) :
    ∀ call ∈ backend.herd m s times, call.Lost ∧ call.after = call.before := by
  induction times with
  | nil =>
    intro call hcall
    simp [herd] at hcall
  | cons now times ih =>
    have hnow : backend.record s now m = some cell := hcell now rfl
    have hfirst : backend.claimCall m s now = ⟨now, s, .ok false, s⟩ := by
      apply claimCall_lost (hholds now List.mem_cons_self) hlimit
      rw [hnow]
      apply Cell.not_claimable_of_live hstatus hlease
      have hlt := hlive _ List.mem_cons_self
      rwa [claimCall_now] at hlt
    have hherd : backend.herd m s (now :: times) =
        ⟨now, s, .ok false, s⟩ :: backend.herd m s times := by
      rw [herd, hfirst]
    rw [hherd] at hdurable hlive ⊢
    obtain ⟨hnext, hrest⟩ := hdurable.next
    refine List.forall_mem_cons.mpr ⟨⟨rfl, rfl⟩, ?_⟩
    apply ih (fun now hnow => hholds now (List.mem_cons_of_mem _ hnow)) hrest
      (fun call hcall => hlive call (List.mem_cons_of_mem _ hcall))
    intro now' hnow'
    exact (hnext now' hnow').trans hnow

theorem OneWinner.won {call : ClaimCall backend} {calls : List (ClaimCall backend)}
    (hwon : call.Won) (hclaim : call.Claimable m)
    (hrest : ∀ call ∈ calls, call.Lost ∧ call.after = call.before) :
    OneWinner m (call :: calls) where
  winner := fun _ => ⟨[], call, calls, rfl, hwon, hclaim, nofun, fun y hy => (hrest y hy).1⟩
  nobody := fun hnone => absurd hclaim (hnone call List.mem_cons_self)
  losers := List.forall_mem_cons.mpr ⟨fun hlost => absurd hwon hlost, fun y hy _ => (hrest y hy).2⟩

theorem OneWinner.lost {call : ClaimCall backend} {calls : List (ClaimCall backend)}
    (hlost : call.Lost) (hclaim : ¬ call.Claimable m) (hsame : call.after = call.before)
    (hrest : OneWinner m calls) : OneWinner m (call :: calls) where
  winner := by
    rintro ⟨y, hy, hyclaim⟩
    rcases List.mem_cons.mp hy with rfl | hy
    · exact absurd hyclaim hclaim
    · obtain ⟨earlier, winner, later, rfl, hwon, hwclaim, hearlier, hlater⟩ :=
        hrest.winner ⟨y, hy, hyclaim⟩
      refine ⟨call :: earlier, winner, later, rfl, hwon, hwclaim, ?_, hlater⟩
      exact List.forall_mem_cons.mpr ⟨⟨hlost, hclaim⟩, hearlier⟩
  nobody := fun hnone => List.forall_mem_cons.mpr
    ⟨hlost, hrest.nobody fun y hy => hnone y (List.mem_cons_of_mem _ hy)⟩
  losers := List.forall_mem_cons.mpr ⟨fun _ => hsame, hrest.losers⟩

theorem WithinLease.tail {call : ClaimCall backend} {calls : List (ClaimCall backend)}
    (h : WithinLease m (call :: calls)) (hlost : ¬ call.Won) : WithinLease m calls := by
  rintro earlier winner later rfl hwon hearlier
  exact h (call :: earlier) winner later rfl hwon (List.forall_mem_cons.mpr ⟨hlost, hearlier⟩)

end

end

/-- A herd of one call that finds the message claimable and does not win. -/
def NobodyWins (backend : Backend V R) (m : String) (s : backend.State) : Prop :=
  let calls := backend.herd m s [0]
  0 < backend.config.processingTimeoutSeconds ∧ NoExpiry m calls ∧ WithinLease m calls ∧
    (∃ call ∈ calls, call.Claimable m) ∧ ¬ OneWinner m calls

theorem nobodyWins {backend : Backend V R} {m : String} {s : backend.State}
    (htimeout : 0 < backend.config.processingTimeoutSeconds)
    (hclaim : Cell.Claimable backend.config 0 (backend.record s 0 m))
    (hanswer : (backend.claimCall m s 0).answer ≠ .ok true) : NobodyWins backend m s := by
  have hsome : ∃ call ∈ backend.herd m s [0], call.Claimable m :=
    ⟨_, List.mem_cons_self, Backend.claimCall_claimable.mpr hclaim⟩
  have hlost : ∀ call ∈ backend.herd m s [0], ¬ call.Won := by
    intro call hcall
    rw [List.mem_singleton.mp hcall]
    exact hanswer
  refine ⟨htimeout, List.IsChain.singleton _, ?_, hsome, ?_⟩
  · rintro earlier winner later hsplit hwon
    exact absurd hwon (hlost winner (by simp [hsplit]))
  · intro hone
    obtain ⟨earlier, winner, later, hsplit, hwon, -⟩ := hone.winner hsome
    exact hlost winner (by simp [hsplit]) hwon

end MessageDedup
