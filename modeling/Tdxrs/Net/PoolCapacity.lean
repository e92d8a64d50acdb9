import Mathlib.Data.Nat.Basic
import Tdxrs.Net.Pool

set_option relaxedAutoImplicit false
set_option autoImplicit false

/-!
# The capacity of the connection pool

A pool has a `max_size`. `borrow` and `try_borrow` open a connection only while `total` is below
it, but a client that reconnects opens its connection outside the pool and puts it in with `push`,
which does not look at `max_size`. `close_all` before it takes the idle connections out of `total`
and leaves those that are lent out, so that a reconnect exceeds the capacity when all connections
are lent out.

## Main definitions

* `Tdxrs.PoolState.WithinCapacity` — `total` does not exceed `max_size`.
* `Tdxrs.PoolState.HasRoom` — a push finds room.

## Main results

* `Tdxrs.withinCapacity_step` — a step keeps the capacity exactly if it is no push into a full pool.
* `Tdxrs.pool_capacity_iff` — a run keeps the capacity exactly if none of its steps is one.
-/

namespace Tdxrs

variable {C : Type} {maxSize : ℕ} {openedTo : C → Server}

namespace PoolInner

/-! ## What the locked steps do to `total` -/

/-- The loop that filters the idle queue does not add to `total`. -/
lemma keepMatching_total_le (server : Server) : ∀ (l : List (PooledConnection C)) (p : PoolInner C),
    (keepMatching server l p).total ≤ p.total
  | [], _ => le_rfl
  | c :: rest, p => by
    unfold keepMatching
    split
    · exact keepMatching_total_le server rest { p with idle := p.idle ++ [c] }
    · exact le_trans (keepMatching_total_le server rest p.decTotal) (Nat.sub_le p.total 1)

/-- A borrow adds to `total` only below the capacity. -/
lemma acquire_total_le {p : PoolInner C} (h : p.total ≤ maxSize) (server : Server) :
    (p.acquire maxSize server).1.total ≤ maxSize := by
  have hkeep : (p.keepServer server).total ≤ maxSize :=
    le_trans (keepMatching_total_le server p.idle { p with idle := [] }) h
  simp only [acquire]
  split
  · exact hkeep
  · split
    · rename_i hroom
      exact hroom
    · exact hkeep

/-- The closing loop takes each connection out of `total`. -/
lemma closeIdle_total_le : ∀ (l : List (PooledConnection C)) (p : PoolInner C),
    (closeIdle l p).total ≤ p.total
  | [], _ => le_rfl
  | _ :: rest, p => le_trans (closeIdle_total_le rest p.decTotal) (Nat.sub_le p.total 1)

/-- The drop of a guard does not add to `total`. -/
lemma returnConnection_total_le (p : PoolInner C) (pooled : PooledConnection C) (isOpen : Bool) :
    (p.returnConnection maxSize pooled isOpen).total ≤ p.total := by
  simp only [returnConnection]
  split
  · exact le_rfl
  · exact Nat.sub_le p.total 1

end PoolInner

/-! ## Steps and runs -/

/-- The pool has no more connections than its capacity. -/
def PoolState.WithinCapacity (maxSize : ℕ) (s : PoolState C) : Prop := s.inner.total ≤ maxSize

/-- A push finds room for another connection. -/
def PoolState.HasRoom (maxSize : ℕ) (s : PoolState C) : PoolEvent C → Prop
  | .push _ _ => s.inner.total < maxSize
  | _ => True

lemma PoolState.grant_inner (s : PoolState C) (server : Server)
    (granted : PoolInner C × Option (Lease C)) : (s.grant server granted).inner = granted.1 := by
  obtain ⟨p, lease⟩ := granted
  match lease with
  | some (.reused _) => rfl
  | some (.connect _) => rfl
  | none => rfl

/-- **A step keeps the capacity** exactly if it is no push into a full pool.

**Proof sketch.** By the event: a push adds one to the total, whatever it is; a borrow adds one only
below the capacity (`acquire_total_le`); and every other step lowers the total or leaves it. -/
lemma withinCapacity_step (s : PoolState C) (e : PoolEvent C) (s' : PoolState C)
    (h : s.WithinCapacity maxSize) (hs : poolStep maxSize openedTo s e = some s') :
    s'.WithinCapacity maxSize ↔ s.HasRoom maxSize e := by
  cases e with
  | push conn server =>
    obtain rfl := Option.some.inj hs
    exact Nat.succ_le_iff
  | borrow server =>
    rw [poolStep_borrow (.inl rfl) hs]
    refine iff_of_true ?_ trivial
    rw [PoolState.WithinCapacity, PoolState.grant_inner]
    exact PoolInner.acquire_total_le h server
  | tryBorrow server =>
    rw [poolStep_borrow (.inr rfl) hs]
    refine iff_of_true ?_ trivial
    rw [PoolState.WithinCapacity, PoolState.grant_inner]
    exact PoolInner.acquire_total_le h server
  | connected i conn =>
    obtain ⟨-, rfl⟩ := poolStep_connected hs
    exact iff_of_true h trivial
  | connectFailed i =>
    obtain ⟨-, rfl⟩ := poolStep_connectFailed hs
    exact iff_of_true (le_trans (Nat.sub_le s.inner.total 1) h) trivial
  | drop i isOpen =>
    obtain ⟨g, -, -, rfl⟩ := poolStep_drop hs
    exact iff_of_true (le_trans (s.inner.returnConnection_total_le g.conn isOpen) h) trivial
  | closeAll =>
    obtain rfl := Option.some.inj hs
    exact iff_of_true (le_trans (PoolInner.closeIdle_total_le s.inner.idle _) h) trivial

/-- A reconnect: all idle connections are closed, and one that has been opened outside the pool is
put in. -/
def PoolInner.reconnect (p : PoolInner C) (conn : C) (server : Server) : PoolInner C :=
  p.closeAll.push conn server

/-- After a reconnect there are the new connection and those that are lent out. -/
lemma PoolInner.Accounted.reconnect_total {p : PoolInner C} (h : p.Accounted) (conn : C)
    (server : Server) : (p.reconnect conn server).total = p.active + 1 := by
  obtain ⟨hclosed, hactive⟩ := h.closeAll
  have htotal := hclosed.total_eq
  rw [PoolInner.closeAll_idle, List.length_nil, Nat.zero_add, hactive] at htotal
  exact congrArg (· + 1) htotal

/-- **The capacity of the pool.** In a run of any interleaving of pool operations, `total` exceeds
`max_size` in no state exactly if every push finds `total` below `max_size`. In each state that is
reached, a reconnect without another step between its `close_all` and its `push` keeps the capacity
exactly if fewer than `max_size` connections are lent out or being opened.

**Proof sketch.** A step keeps the capacity exactly if it is no push into a full pool
(`withinCapacity_step`), and the rule for properties that can come back gives the run. After
connecting again the total is one more than the connections that are still lent out or being opened
(`PoolInner.Accounted.reconnect_total`). -/
theorem pool_capacity_iff (maxSize : ℕ) (openedTo : C → Server) (es : List (PoolEvent C))
    (s : PoolState C) (hrun : Transition.run (poolStep maxSize openedTo) .init es = some s) :
    (Transition.Always (poolStep maxSize openedTo) (PoolState.WithinCapacity maxSize) .init es ↔
        Transition.Guarded (poolStep maxSize openedTo) (PoolState.HasRoom maxSize) .init es) ∧
      ∀ conn server, (s.inner.reconnect conn server).total ≤ maxSize ↔
        s.guards.length + s.connecting.length < maxSize := by
  have h := PoolState.accounted_run hrun
  refine ⟨Transition.always_iff_guarded withinCapacity_step (Nat.zero_le maxSize) hrun,
    fun conn server => ?_⟩
  rw [h.inner.reconnect_total, h.active_eq]
  exact Nat.succ_le_iff

/-- A pool of two in which a reconnect finds one connection lent out. -/
theorem pool_capacity_switch :
    (Transition.Always (poolStep 2 id) (PoolState.WithinCapacity 2) .init
          (switchRun.take 6) ↔
        Transition.Guarded (poolStep 2 id) (PoolState.HasRoom 2) .init (switchRun.take 6)) ∧
      ∀ conn server, (PoolInner.reconnect ⟨[⟨("b", 7709), ("b", 7709)⟩], 1, 2, 0⟩ conn
          server).total ≤ 2 ↔ 1 < 2 :=
  pool_capacity_iff 2 id (switchRun.take 6)
    ⟨⟨[⟨("b", 7709), ("b", 7709)⟩], 1, 2, 0⟩,
      [⟨("a", 7709), ⟨("a", 7709), ("a", 7709)⟩⟩], []⟩ (by decide)

/-- A client with a pool of one reconnects while its only connection is lent out. -/
def reconnectRun : List (PoolEvent Server) :=
  [.borrow ("a", 7709), .connected 0 ("a", 7709), .closeAll, .push ("b", 7709) ("b", 7709)]

/-- The pool of one then has two connections. -/
theorem pool_capacity_exceeded :
    ∃ s, Transition.run (poolStep 1 id) .init reconnectRun = some s ∧ 1 < s.inner.total ∧
      s.guards.length = 1 :=
  ⟨⟨⟨[⟨("b", 7709), ("b", 7709)⟩], 1, 2, 0⟩, [⟨("a", 7709), ⟨("a", 7709), ("a", 7709)⟩⟩], []⟩,
    by decide⟩

end Tdxrs
