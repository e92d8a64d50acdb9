import Mathlib.Data.List.Basic
import Tdxrs.Error
import Tdxrs.Library.TransitionSystem

set_option relaxedAutoImplicit false
set_option autoImplicit false

/-!
# The connection pool

`src/net/pool.rs`: a pool keeps a queue of idle connections and two counters, `active` for the
connections lent out or being opened and `total` for all of them. `borrow` and `try_borrow`
hold the lock only to pick an idle connection or to reserve a slot; the connection itself is
opened after the lock is dropped, and a failure takes the reservation back. The steps of any
number of callers therefore interleave, which the second half of this file models as a
transition system over the pool, the guards outstanding and the reservations still connecting.

The pool is generic in the type `C` of its connections. `saturating_sub` is the subtraction of
`ℕ`; the ghost counter `clamps` counts the times it had nothing to subtract from.

## Main definitions

* `Tdxrs.PoolInner` and its operations `push`, `acquire`, `borrow`, `tryBorrow`,
  `connectFailed`, `returnConnection`, `closeAll` — the locked steps of the pool.
* `Tdxrs.PoolState`, `Tdxrs.PoolEvent`, `Tdxrs.poolStep` — the pool with its callers.

## Main results

* `Tdxrs.pool_accounting` — in every reachable state `total = idle + active` and `active` is
  the number of guards and open reservations, no subtraction clamps, and every guard holds a
  connection to the server it was borrowed for.
-/

namespace Tdxrs

/-- The address of a server: host and port. -/
abbrev Server := String × ℕ

/-- A connection in the pool, tagged with the server it belongs to. -/
structure PooledConnection (C : Type) where
  conn : C
  server : Server
deriving DecidableEq

/-- The locked state of the pool. -/
structure PoolInner (C : Type) where
  idle : List (PooledConnection C)
  active : ℕ
  total : ℕ
  /-- Ghost: how often a `saturating_sub` had nothing to subtract from. -/
  clamps : ℕ
deriving DecidableEq

variable {C : Type}

namespace PoolInner

/-- An empty pool. -/
def new : PoolInner C := ⟨[], 0, 0, 0⟩

/-- `total = total.saturating_sub(1)`. -/
def decTotal (p : PoolInner C) : PoolInner C :=
  { p with total := p.total - 1, clamps := if p.total = 0 then p.clamps + 1 else p.clamps }

/-- `active = active.saturating_sub(1)`. -/
def decActive (p : PoolInner C) : PoolInner C :=
  { p with active := p.active - 1, clamps := if p.active = 0 then p.clamps + 1 else p.clamps }

@[simp] lemma decTotal_idle (p : PoolInner C) : p.decTotal.idle = p.idle := rfl
@[simp] lemma decTotal_active (p : PoolInner C) : p.decTotal.active = p.active := rfl
@[simp] lemma decTotal_total (p : PoolInner C) : p.decTotal.total = p.total - 1 := rfl
@[simp] lemma decActive_idle (p : PoolInner C) : p.decActive.idle = p.idle := rfl
@[simp] lemma decActive_active (p : PoolInner C) : p.decActive.active = p.active - 1 := rfl
@[simp] lemma decActive_total (p : PoolInner C) : p.decActive.total = p.total := rfl

/-- A subtraction from a positive `total` does not clamp. -/
lemma decTotal_clamps {p : PoolInner C} (h : 0 < p.total) : p.decTotal.clamps = p.clamps :=
  if_neg (Nat.ne_of_gt h)

/-- A subtraction from a positive `active` does not clamp. -/
lemma decActive_clamps {p : PoolInner C} (h : 0 < p.active) : p.decActive.clamps = p.clamps :=
  if_neg (Nat.ne_of_gt h)

/-- A connection that has completed its handshake joins the idle queue. -/
def push (p : PoolInner C) (conn : C) (server : Server) : PoolInner C :=
  { p with total := p.total + 1, idle := p.idle ++ [⟨conn, server⟩] }

/-- The loop of `keepServer` over the connections popped off the idle queue: those of the
server go back, the others are closed and leave the pool. -/
def keepMatching (server : Server) : List (PooledConnection C) → PoolInner C → PoolInner C
  | [], p => p
  | c :: rest, p =>
    if c.server = server then keepMatching server rest { p with idle := p.idle ++ [c] }
    else keepMatching server rest p.decTotal

/-- The idle queue is filtered by the target server before a connection is taken from it. -/
def keepServer (p : PoolInner C) (server : Server) : PoolInner C :=
  keepMatching server p.idle { p with idle := [] }

end PoolInner

/-- What the locked step of a borrow grants: an idle connection, or a slot in which the
caller has to open one. -/
inductive Lease (C : Type) where
  | reused (conn : PooledConnection C)
  | connect (server : Server)
deriving DecidableEq

namespace PoolInner

/-- The locked step shared by `borrow` and `try_borrow`: an idle connection of the server, else
a reserved slot while the pool has room, else nothing. -/
def acquire (maxSize : ℕ) (p : PoolInner C) (server : Server) :
    PoolInner C × Option (Lease C) :=
  let p := p.keepServer server
  match p.idle with
  | c :: rest => ({ p with idle := rest, active := p.active + 1 }, some (.reused c))
  | [] =>
    if p.total < maxSize then
      ({ p with total := p.total + 1, active := p.active + 1 }, some (.connect server))
    else (p, none)

/-- `borrow`: a full pool is an error. -/
def borrow (maxSize : ℕ) (p : PoolInner C) (server : Server) :
    PoolInner C × Except TdxError (Lease C) :=
  match p.acquire maxSize server with
  | (p, some lease) => (p, .ok lease)
  | (p, none) =>
    (p, .error (ErrorCode.poolExhausted.err s!"active={p.active}, max={maxSize}"))

/-- `try_borrow`: a full pool is `None`. -/
def tryBorrow (maxSize : ℕ) (p : PoolInner C) (server : Server) :
    PoolInner C × Option (Lease C) :=
  p.acquire maxSize server

/-- Opening the connection of a reserved slot failed: both counters are rolled back. -/
def connectFailed (p : PoolInner C) : PoolInner C := p.decTotal.decActive

/-- A guard is dropped: an open connection goes back to the idle queue, another one leaves the
pool. -/
def returnConnection (maxSize : ℕ) (p : PoolInner C) (pooled : PooledConnection C)
    (isOpen : Bool) : PoolInner C :=
  let p := p.decActive
  if isOpen ∧ p.idle.length < maxSize then { p with idle := p.idle ++ [pooled] }
  else p.decTotal

/-- The loop of `closeAll`: every idle connection is popped and closed. -/
def closeIdle : List (PooledConnection C) → PoolInner C → PoolInner C
  | [], p => p
  | _ :: rest, p => closeIdle rest p.decTotal

/-- All idle connections are closed; `active` keeps counting the guards that are out. -/
def closeAll (p : PoolInner C) : PoolInner C := closeIdle p.idle { p with idle := [] }

/-! ## What the locked steps do to the idle queue -/

/-- The filter loop keeps exactly the connections of the server, in their order. -/
lemma keepMatching_idle (server : Server) :
    ∀ (l : List (PooledConnection C)) (p : PoolInner C),
      (keepMatching server l p).idle = p.idle ++ l.filter fun c => c.server = server
  | [], p => (List.append_nil _).symm
  | c :: rest, p => by
    unfold keepMatching
    split
    · rename_i hs
      rw [keepMatching_idle server rest]
      simp [hs]
    · rename_i hs
      rw [keepMatching_idle server rest]
      simp [hs]

/-- Only connections of the server stay idle. -/
lemma keepServer_idle (p : PoolInner C) (server : Server) :
    (p.keepServer server).idle = p.idle.filter fun c => c.server = server := by
  rw [PoolInner.keepServer, keepMatching_idle]
  exact List.nil_append _

/-- What remains idle after the locked step of a borrow was idle before, and so was the
connection it hands out, which belongs to the server asked for.

**Proof sketch.** The step first drops the connections of other servers and then takes the first of
those left, or opens one, or finds the pool full. In no case is a connection idle afterwards that
was not before. -/
lemma acquire_idle {p p' : PoolInner C} {maxSize : ℕ} {server : Server}
    {lease : Option (Lease C)} (hp : p.acquire maxSize server = (p', lease)) :
    (∀ c ∈ p'.idle, c ∈ p.idle) ∧
      ∀ c, lease = some (.reused c) → c ∈ p.idle ∧ c.server = server := by
  have hsub : ∀ c ∈ (p.keepServer server).idle, c ∈ p.idle ∧ c.server = server := by
    intro c hc
    rw [keepServer_idle] at hc
    simpa using List.mem_filter.mp hc
  simp only [PoolInner.acquire] at hp
  split at hp
  · rename_i c rest hcons
    obtain ⟨rfl, rfl⟩ := Prod.mk.inj hp
    rw [hcons] at hsub
    refine ⟨fun d hd => (hsub d (List.mem_cons_of_mem _ hd)).1, fun d hd => ?_⟩
    obtain rfl : c = d := by simpa using hd
    exact hsub c List.mem_cons_self
  · split at hp
    · obtain ⟨rfl, rfl⟩ := Prod.mk.inj hp
      exact ⟨fun d hd => (hsub d hd).1, fun d hd => by simp at hd⟩
    · obtain ⟨rfl, rfl⟩ := Prod.mk.inj hp
      exact ⟨fun d hd => (hsub d hd).1, fun d hd => (nomatch hd)⟩

/-- A connection that becomes idle with the drop of a guard is that guard's, and it is open. -/
lemma returnConnection_idle {p : PoolInner C} {maxSize : ℕ} {pooled : PooledConnection C}
    {isOpen : Bool} {c : PooledConnection C}
    (hc : c ∈ (p.returnConnection maxSize pooled isOpen).idle) :
    c ∈ p.idle ∨ (c = pooled ∧ isOpen) := by
  simp only [PoolInner.returnConnection] at hc
  split at hc
  · rename_i hopen
    exact (List.mem_append.mp hc).imp_right fun hc => ⟨List.mem_singleton.mp hc, hopen.1⟩
  · exact .inl hc

/-- The closing loop leaves the rest of the queue alone. -/
lemma closeIdle_idle : ∀ (l : List (PooledConnection C)) (p : PoolInner C),
    (closeIdle l p).idle = p.idle
  | [], _ => rfl
  | _ :: rest, p => closeIdle_idle rest p.decTotal

/-- No connection stays idle. -/
@[simp] lemma closeAll_idle (p : PoolInner C) : p.closeAll.idle = [] :=
  closeIdle_idle p.idle { p with idle := [] }

/-! ## What the locked steps do to the counters -/

/-- The counters of the pool add up, and no subtraction has clamped. -/
structure Accounted (p : PoolInner C) : Prop where
  total_eq : p.total = p.idle.length + p.active
  unclamped : p.clamps = 0

/-- An empty pool is accounted for. -/
lemma accounted_new : (new : PoolInner C).Accounted := ⟨rfl, rfl⟩

/-- Pushing a connection keeps the counters in order. -/
lemma Accounted.push {p : PoolInner C} (h : p.Accounted) (conn : C) (server : Server) :
    (p.push conn server).Accounted := by
  refine ⟨?_, h.unclamped⟩
  simp only [PoolInner.push, List.length_append, List.length_singleton]
  have := h.total_eq
  omega

/-- While the popped connections are still counted in `total`, no subtraction of the filter
loop clamps. -/
lemma keepMatching_accounted (server : Server) :
    ∀ (l : List (PooledConnection C)) (p : PoolInner C),
      p.total = p.idle.length + l.length + p.active → p.clamps = 0 →
      (keepMatching server l p).Accounted ∧ (keepMatching server l p).active = p.active
  | [], p, ht, hc => ⟨⟨ht, hc⟩, rfl⟩
  | c :: rest, p, ht, hc => by
    rw [List.length_cons] at ht
    unfold keepMatching
    split
    · exact keepMatching_accounted server rest { p with idle := p.idle ++ [c] }
        (by simp only [List.length_append, List.length_singleton]; omega) hc
    · exact keepMatching_accounted server rest p.decTotal
        (by simp only [decTotal_total, decTotal_idle, decTotal_active]; omega)
        ((decTotal_clamps (by omega)).trans hc)

/-- Filtering the idle queue keeps the counters in order. -/
lemma Accounted.keepServer {p : PoolInner C} (h : p.Accounted) (server : Server) :
    (p.keepServer server).Accounted ∧ (p.keepServer server).active = p.active :=
  keepMatching_accounted server p.idle { p with idle := [] }
    (by simpa using h.total_eq) h.unclamped

/-- **The locked step of a borrow.** `active` grows by what it grants, an idle connection or a
slot for the server asked for, and the counters stay in order.

**Proof sketch.** Dropping the connections of other servers keeps the counters in order and `active`
as it is (`Accounted.keepServer`). Then an idle connection becomes an active one, or a new slot is
counted in both, or nothing changes. -/
lemma Accounted.acquire {p p' : PoolInner C} (h : p.Accounted) {maxSize : ℕ} {server : Server}
    {lease : Option (Lease C)} (hp : p.acquire maxSize server = (p', lease)) :
    p'.Accounted ∧
      ((∃ c, lease = some (.reused c) ∧ p'.active = p.active + 1) ∨
        (lease = some (.connect server) ∧ p'.active = p.active + 1) ∨
        (lease = none ∧ p'.active = p.active)) := by
  obtain ⟨hk, hact⟩ := h.keepServer server
  have htotal := hk.total_eq
  simp only [PoolInner.acquire] at hp
  split at hp
  · rename_i c rest hcons
    obtain ⟨rfl, rfl⟩ := Prod.mk.inj hp
    rw [hcons] at htotal
    refine ⟨⟨?_, hk.unclamped⟩, .inl ⟨c, rfl, by simp [hact]⟩⟩
    simp only [List.length_cons] at htotal ⊢
    omega
  · rename_i hnil
    split at hp
    · obtain ⟨rfl, rfl⟩ := Prod.mk.inj hp
      refine ⟨⟨?_, hk.unclamped⟩, .inr (.inl ⟨rfl, by simp [hact]⟩)⟩
      simp only
      omega
    · obtain ⟨rfl, rfl⟩ := Prod.mk.inj hp
      exact ⟨hk, .inr (.inr ⟨rfl, hact⟩)⟩

/-- A borrow grants what the locked step grants. -/
lemma borrow_eq_acquire (maxSize : ℕ) (p : PoolInner C) (server : Server) :
    ((p.borrow maxSize server).1, (p.borrow maxSize server).2.toOption) =
      p.acquire maxSize server := by
  unfold borrow
  split <;> rename_i h <;> rw [h] <;> rfl

/-- A failed connection gives its reservation back: with `active > 0` nothing clamps. -/
lemma Accounted.connectFailed {p : PoolInner C} (h : p.Accounted) (hpos : 0 < p.active) :
    p.connectFailed.Accounted ∧ p.connectFailed.active = p.active - 1 := by
  have htotal := h.total_eq
  refine ⟨⟨?_, ?_⟩, rfl⟩
  · simp only [PoolInner.connectFailed, decActive_total, decTotal_total, decActive_idle,
      decTotal_idle, decActive_active, decTotal_active]
    omega
  · exact (decActive_clamps (p := p.decTotal) hpos).trans
      ((decTotal_clamps (by omega)).trans h.unclamped)

/-- A dropped guard gives its slot back: with `active > 0` nothing clamps.

**Proof sketch.** Both kinds of return take one from the connections in use. One that stays open is
added to the idle ones, so the total is as before; one that is closed is taken from the total, which
is positive since it was in use. -/
lemma Accounted.returnConnection {p : PoolInner C} (h : p.Accounted) (hpos : 0 < p.active)
    (maxSize : ℕ) (pooled : PooledConnection C) (isOpen : Bool) :
    (p.returnConnection maxSize pooled isOpen).Accounted ∧
      (p.returnConnection maxSize pooled isOpen).active = p.active - 1 := by
  have htotal := h.total_eq
  have hclamps := (decActive_clamps hpos).trans h.unclamped
  simp only [PoolInner.returnConnection]
  split
  · refine ⟨⟨?_, hclamps⟩, rfl⟩
    simp only [decActive_total, decActive_idle, decActive_active, List.length_append,
      List.length_singleton]
    omega
  · refine ⟨⟨?_, ?_⟩, rfl⟩
    · simp only [decTotal_total, decTotal_idle, decTotal_active, decActive_total, decActive_idle,
        decActive_active]
      omega
    · exact (decTotal_clamps (by simp only [decActive_total]; omega)).trans hclamps

/-- The closing loop takes every popped connection out of `total`. -/
lemma closeIdle_accounted : ∀ (l : List (PooledConnection C)) (p : PoolInner C),
    p.total = p.idle.length + l.length + p.active → p.clamps = 0 →
    (closeIdle l p).Accounted ∧ (closeIdle l p).active = p.active
  | [], p, ht, hc => ⟨⟨ht, hc⟩, rfl⟩
  | c :: rest, p, ht, hc => by
    rw [List.length_cons] at ht
    exact closeIdle_accounted rest p.decTotal
      (by simp only [decTotal_total, decTotal_idle, decTotal_active]; omega)
      ((decTotal_clamps (by omega)).trans hc)

/-- Closing all idle connections keeps the counters in order. -/
lemma Accounted.closeAll {p : PoolInner C} (h : p.Accounted) :
    p.closeAll.Accounted ∧ p.closeAll.active = p.active :=
  closeIdle_accounted p.idle { p with idle := [] } (by simpa using h.total_eq) h.unclamped

end PoolInner

/-! ## The pool with its callers -/

/-- A borrowed connection: the server its caller asked for and what the guard holds. -/
structure PooledConnGuard (C : Type) where
  asked : Server
  conn : PooledConnection C
deriving DecidableEq

/-- The pool, the guards outstanding and the reservations whose connection is being opened. -/
structure PoolState (C : Type) where
  inner : PoolInner C
  guards : List (PooledConnGuard C)
  connecting : List Server
deriving DecidableEq

/-- No caller has come yet. -/
def PoolState.init : PoolState C := ⟨.new, [], []⟩

/-- The steps of the callers, in any interleaving. `connected i` and `connectFailed i` end the
connection attempt of the `i`-th open reservation, `drop i` drops the `i`-th guard with the
result `isOpen` of the health check on its connection. -/
inductive PoolEvent (C : Type) where
  | push (conn : C) (server : Server)
  | borrow (server : Server)
  | tryBorrow (server : Server)
  | connected (i : ℕ) (conn : C)
  | connectFailed (i : ℕ)
  | drop (i : ℕ) (isOpen : Bool)
  | closeAll

/-- The caller goes on with what the locked step of its borrow granted. -/
def PoolState.grant (s : PoolState C) (server : Server) :
    PoolInner C × Option (Lease C) → PoolState C
  | (p, some (.reused c)) => { s with inner := p, guards := ⟨server, c⟩ :: s.guards }
  | (p, some (.connect srv)) => { s with inner := p, connecting := srv :: s.connecting }
  | (p, none) => { s with inner := p }

/-- One step. A reservation can only be filled with a connection opened to its server: that is
the address handed to `TcpConnection::connect`. -/
def poolStep (maxSize : ℕ) (openedTo : C → Server) (s : PoolState C) :
    PoolEvent C → Option (PoolState C)
  | .push conn server => some { s with inner := s.inner.push conn server }
  | .borrow server =>
    let (p, lease) := s.inner.borrow maxSize server
    some (s.grant server (p, lease.toOption))
  | .tryBorrow server => some (s.grant server (s.inner.tryBorrow maxSize server))
  | .connected i conn =>
    match s.connecting[i]? with
    | none => none
    | some server =>
      if openedTo conn = server then
        some { s with
          guards := ⟨server, ⟨conn, server⟩⟩ :: s.guards
          connecting := s.connecting.eraseIdx i }
      else none
  | .connectFailed i =>
    match s.connecting[i]? with
    | none => none
    | some _ =>
      some { s with inner := s.inner.connectFailed, connecting := s.connecting.eraseIdx i }
  | .drop i isOpen =>
    match s.guards[i]? with
    | none => none
    | some g =>
      some { s with
        inner := s.inner.returnConnection maxSize g.conn isOpen
        guards := s.guards.eraseIdx i }
  | .closeAll => some { s with inner := s.inner.closeAll }

/-- The counters describe what is outstanding. -/
structure PoolState.Accounted (s : PoolState C) : Prop where
  inner : s.inner.Accounted
  active_eq : s.inner.active = s.guards.length + s.connecting.length

/-- Every connection in the pool or lent out was opened to the server it stands for. -/
structure PoolState.Tagged (openedTo : C → Server) (s : PoolState C) : Prop where
  idle : ∀ c ∈ s.inner.idle, openedTo c.conn = c.server
  guards : ∀ g ∈ s.guards, openedTo g.conn.conn = g.asked ∧ g.conn.server = g.asked

/-- `push` is given the server its connection was opened to. -/
def PoolEvent.Tagged (openedTo : C → Server) : PoolEvent C → Prop
  | .push conn server => openedTo conn = server
  | _ => True

variable {maxSize : ℕ} {openedTo : C → Server}

/-! ## What a step can do -/

/-- Both borrows take the locked step and go on with its grant. -/
lemma poolStep_borrow {s s' : PoolState C} {e : PoolEvent C} {server : Server}
    (he : e = .borrow server ∨ e = .tryBorrow server)
    (hs : poolStep maxSize openedTo s e = some s') :
    s' = s.grant server (s.inner.acquire maxSize server) := by
  rcases he with rfl | rfl
  · rw [← PoolInner.borrow_eq_acquire]
    exact (Option.some.inj hs).symm
  · exact (Option.some.inj hs).symm

/-- A connection attempt succeeds for an open reservation, with a connection to its server. -/
lemma poolStep_connected {s s' : PoolState C} {i : ℕ} {conn : C}
    (hs : poolStep maxSize openedTo s (.connected i conn) = some s') :
    i < s.connecting.length ∧
      s' = { s with
        guards := ⟨openedTo conn, ⟨conn, openedTo conn⟩⟩ :: s.guards
        connecting := s.connecting.eraseIdx i } := by
  simp only [poolStep] at hs
  split at hs
  · cases hs
  · rename_i server hi
    split at hs
    · rename_i hopened
      subst hopened
      exact ⟨(List.getElem?_eq_some_iff.mp hi).1, (Option.some.inj hs).symm⟩
    · cases hs

/-- A connection attempt fails for an open reservation. -/
lemma poolStep_connectFailed {s s' : PoolState C} {i : ℕ}
    (hs : poolStep maxSize openedTo s (.connectFailed i) = some s') :
    i < s.connecting.length ∧
      s' = { s with inner := s.inner.connectFailed, connecting := s.connecting.eraseIdx i } := by
  simp only [poolStep] at hs
  split at hs
  · cases hs
  · rename_i server hi
    exact ⟨(List.getElem?_eq_some_iff.mp hi).1, (Option.some.inj hs).symm⟩

/-- A guard that is dropped was outstanding. -/
lemma poolStep_drop {s s' : PoolState C} {i : ℕ} {isOpen : Bool}
    (hs : poolStep maxSize openedTo s (.drop i isOpen) = some s') :
    ∃ g ∈ s.guards, i < s.guards.length ∧
      s' = { s with
        inner := s.inner.returnConnection maxSize g.conn isOpen
        guards := s.guards.eraseIdx i } := by
  simp only [poolStep] at hs
  split at hs
  · cases hs
  · rename_i g hi
    exact ⟨g, List.mem_of_getElem? hi, (List.getElem?_eq_some_iff.mp hi).1,
      (Option.some.inj hs).symm⟩

/-! ## The invariants -/

/-- The locked step of a borrow, taken with what it granted, keeps the accounts. -/
lemma PoolState.Accounted.grant {s : PoolState C} (h : s.Accounted) (server : Server) :
    (s.grant server (s.inner.acquire maxSize server)).Accounted := by
  have hact := h.active_eq
  generalize hp : s.inner.acquire maxSize server = granted
  obtain ⟨p, lease⟩ := granted
  obtain ⟨hacc, ⟨c, rfl, ha⟩ | ⟨rfl, ha⟩ | ⟨rfl, ha⟩⟩ := h.inner.acquire hp
  · exact ⟨hacc, by simp only [PoolState.grant, List.length_cons]; omega⟩
  · exact ⟨hacc, by simp only [PoolState.grant, List.length_cons]; omega⟩
  · exact ⟨hacc, by simp only [PoolState.grant]; omega⟩

/-- The locked step of a borrow hands out connections of the server asked for.

**Proof sketch.** By what is granted. A connection that is taken again was idle for that server, and
is the one that becomes a guard; otherwise no guard is added, and the idle ones are among those
before. -/
lemma PoolState.Tagged.grant {s : PoolState C} (h : s.Tagged openedTo) (server : Server) :
    (s.grant server (s.inner.acquire maxSize server)).Tagged openedTo := by
  generalize hp : s.inner.acquire maxSize server = granted
  obtain ⟨p, lease⟩ := granted
  obtain ⟨hsub, hreused⟩ := PoolInner.acquire_idle hp
  have hidle : ∀ c ∈ p.idle, openedTo c.conn = c.server := fun c hc => h.idle c (hsub c hc)
  match lease with
  | some (.reused c) =>
    obtain ⟨hc, hserver⟩ := hreused c rfl
    refine ⟨hidle, fun g hg => ?_⟩
    rcases List.mem_cons.mp hg with rfl | hg
    · exact ⟨(h.idle c hc).trans hserver, hserver⟩
    · exact h.guards g hg
  | some (.connect _) => exact ⟨hidle, h.guards⟩
  | none => exact ⟨hidle, h.guards⟩

/-- **Step lemma of the accounts.** Every step of every caller keeps the counters in order.

**Proof sketch.** A locked step changes the counters as `PoolInner.Accounted` says, and the
guards and reservations change by the same amount. A guard or a reservation that ends was
counted in `active`, so its subtraction does not clamp. -/
lemma PoolState.Accounted.step (s : PoolState C) (e : PoolEvent C) (s' : PoolState C)
    (h : s.Accounted) (hs : poolStep maxSize openedTo s e = some s') : s'.Accounted := by
  have hact := h.active_eq
  cases e with
  | push conn server =>
    obtain rfl := Option.some.inj hs
    exact ⟨h.inner.push conn server, hact⟩
  | borrow server =>
    rw [poolStep_borrow (.inl rfl) hs]
    exact h.grant server
  | tryBorrow server =>
    rw [poolStep_borrow (.inr rfl) hs]
    exact h.grant server
  | connected i conn =>
    obtain ⟨hlt, rfl⟩ := poolStep_connected hs
    refine ⟨h.inner, ?_⟩
    simp only [List.length_cons, List.length_eraseIdx_of_lt hlt]
    omega
  | connectFailed i =>
    obtain ⟨hlt, rfl⟩ := poolStep_connectFailed hs
    obtain ⟨hacc, ha⟩ := h.inner.connectFailed (by omega)
    refine ⟨hacc, ?_⟩
    simp only [List.length_eraseIdx_of_lt hlt]
    omega
  | drop i isOpen =>
    obtain ⟨g, -, hlt, rfl⟩ := poolStep_drop hs
    obtain ⟨hacc, ha⟩ := h.inner.returnConnection (by omega) maxSize g.conn isOpen
    refine ⟨hacc, ?_⟩
    simp only [List.length_eraseIdx_of_lt hlt]
    omega
  | closeAll =>
    obtain rfl := Option.some.inj hs
    obtain ⟨hacc, ha⟩ := h.inner.closeAll
    exact ⟨hacc, ha.trans hact⟩

/-- **Step lemma of the server tags.** A step whose `push`, if it is one, is given the right
server keeps every connection with the server it was opened to.

**Proof sketch.** By the event. A connection becomes idle by a push, whose tag is right by
assumption, or by a guard that is dropped, whose connection was opened to its server; all other
steps keep or remove idle connections. -/
lemma PoolState.Tagged.step (s : PoolState C) (e : PoolEvent C) (s' : PoolState C)
    (h : s.Tagged openedTo) (he : e.Tagged openedTo)
    (hs : poolStep maxSize openedTo s e = some s') : s'.Tagged openedTo := by
  cases e with
  | push conn server =>
    obtain rfl := Option.some.inj hs
    refine ⟨fun c hc => ?_, h.guards⟩
    rcases List.mem_append.mp hc with hc | hc
    · exact h.idle c hc
    · obtain rfl := List.mem_singleton.mp hc
      exact he
  | borrow server =>
    rw [poolStep_borrow (.inl rfl) hs]
    exact h.grant server
  | tryBorrow server =>
    rw [poolStep_borrow (.inr rfl) hs]
    exact h.grant server
  | connected i conn =>
    obtain ⟨-, rfl⟩ := poolStep_connected hs
    refine ⟨h.idle, fun g hg => ?_⟩
    rcases List.mem_cons.mp hg with rfl | hg
    · exact ⟨rfl, rfl⟩
    · exact h.guards g hg
  | connectFailed i =>
    obtain ⟨-, rfl⟩ := poolStep_connectFailed hs
    exact ⟨h.idle, h.guards⟩
  | drop i isOpen =>
    obtain ⟨g, hg, -, rfl⟩ := poolStep_drop hs
    refine ⟨fun c hc => ?_, fun g' hg' => h.guards g' (List.mem_of_mem_eraseIdx hg')⟩
    rcases PoolInner.returnConnection_idle hc with hc | ⟨rfl, -⟩
    · exact h.idle c hc
    · obtain ⟨h1, h2⟩ := h.guards g hg
      exact h1.trans h2.symm
  | closeAll =>
    obtain rfl := Option.some.inj hs
    refine ⟨fun c hc => ?_, h.guards⟩
    rw [PoolInner.closeAll_idle] at hc
    exact absurd hc List.not_mem_nil

/-- Nothing is outstanding in the empty pool. -/
lemma PoolState.accounted_init : (PoolState.init : PoolState C).Accounted :=
  ⟨PoolInner.accounted_new, rfl⟩

/-- There is no connection in the empty pool. -/
lemma PoolState.tagged_init : (PoolState.init : PoolState C).Tagged openedTo :=
  ⟨fun _ hc => absurd hc List.not_mem_nil, fun _ hg => absurd hg List.not_mem_nil⟩

/-- The counters are in order after every run. -/
lemma PoolState.accounted_run {es : List (PoolEvent C)} {s : PoolState C}
    (hrun : Transition.run (poolStep maxSize openedTo) .init es = some s) : s.Accounted :=
  Transition.run_invariant PoolState.Accounted.step PoolState.accounted_init hrun

/-- The server tags are right after every run that pushes connections under their server. -/
lemma PoolState.tagged_run {es : List (PoolEvent C)} {s : PoolState C}
    (hes : ∀ e ∈ es, e.Tagged openedTo)
    (hrun : Transition.run (poolStep maxSize openedTo) .init es = some s) :
    s.Tagged openedTo :=
  Transition.run_invariant_of_guarded PoolState.Tagged.step PoolState.tagged_init
    (Transition.guarded_of_forall hes _) hrun

/-- **Connection pool accounting.** In every state that any interleaving of pool operations
reaches: `total` counts the idle and the active connections, `active` counts the guards
outstanding and the reservations still connecting, no `saturating_sub` has clamped, and when
nothing is outstanding `total` is the number of idle connections. If moreover every `push` was
given the server its connection was opened to, every guard holds a connection opened to the
server it was borrowed for.

**Proof sketch.** Two invariants, each with a step lemma and a run lemma: the counters are those of
the connections and guards (`PoolState.Accounted.step`), and every connection is with the server it
was opened to (`PoolState.Tagged.step`). The clamps of the counters never take effect, since the
first invariant counts them. -/
theorem pool_accounting (maxSize : ℕ) (openedTo : C → Server) (es : List (PoolEvent C))
    (s : PoolState C)
    (hrun : Transition.run (poolStep maxSize openedTo) .init es = some s) :
    s.inner.total = s.inner.idle.length + s.inner.active ∧
      s.inner.active = s.guards.length + s.connecting.length ∧
      s.inner.clamps = 0 ∧
      (s.guards = [] → s.connecting = [] → s.inner.total = s.inner.idle.length) ∧
      ((∀ e ∈ es, e.Tagged openedTo) → ∀ g ∈ s.guards, openedTo g.conn.conn = g.asked) := by
  have h := PoolState.accounted_run hrun
  have htotal := h.inner.total_eq
  have hact := h.active_eq
  refine ⟨htotal, hact, h.inner.unclamped, fun hg hc => ?_, fun hes g hg => ?_⟩
  · rw [hg, hc] at hact
    simp only [List.length_nil] at hact
    omega
  · exact ((PoolState.tagged_run hes hrun).guards g hg).1

/-- A switch of servers while a guard is out: its connection comes back to the idle queue
behind the new server's, and the next borrow closes it. -/
def switchRun : List (PoolEvent Server) :=
  [.borrow ("a", 7709), .connected 0 ("a", 7709), .borrow ("a", 7709), .connectFailed 0,
    .closeAll, .push ("b", 7709) ("b", 7709), .drop 0 true, .tryBorrow ("b", 7709),
    .borrow ("b", 7709)]

/-- The state after `switchRun` in a pool of two. -/
def switchState : PoolState Server :=
  ⟨⟨[], 2, 2, 0⟩, [⟨("b", 7709), ⟨("b", 7709), ("b", 7709)⟩⟩], [("b", 7709)]⟩

/-- The accounts after a switch of servers. -/
theorem pool_accounting_switch :
    switchState.inner.total = switchState.inner.idle.length + switchState.inner.active ∧
      switchState.inner.active = switchState.guards.length + switchState.connecting.length ∧
      switchState.inner.clamps = 0 ∧
      (switchState.guards = [] → switchState.connecting = [] →
        switchState.inner.total = switchState.inner.idle.length) ∧
      ((∀ e ∈ switchRun, e.Tagged id) →
        ∀ g ∈ switchState.guards, id g.conn.conn = g.asked) :=
  pool_accounting 2 id switchRun switchState (by decide)

end Tdxrs
