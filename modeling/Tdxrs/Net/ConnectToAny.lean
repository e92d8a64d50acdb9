import Tdxrs.Net.SmartExec

set_option relaxedAutoImplicit false
set_option autoImplicit false

/-!
# Connecting to any server

`connect_to_any` tries the server of the last success, then the candidates: the primary servers and
all known ones, except those on the blacklist. If the blacklist has all candidates, it is ignored.
That is decided once, before the candidates are tried, and each lookup in the blacklist reads the
clock itself.

## Main definitions

* `Tdxrs.Tries` — the way through a list of candidates.
* `Tdxrs.SmartState.OffBlacklist`, `OnBlacklist`, `Settled` — the blacklist during a call.
* `Tdxrs.SmartState.Connected` — the client is connected to the server of the last success.

## Main results

* `Tdxrs.tries_connectFirst` — the program goes this way.
* `Tdxrs.connect_to_any_available` — a reachable candidate is found.
* `Tdxrs.connect_to_any_expires` — no reachable candidate is tried, although all candidates were
  blacklisted when the call began.
-/

namespace Tdxrs

/-- The servers that are tried, in this order. -/
def NamedLists.candidates (lists : NamedLists) : List NamedServer := lists.primary ++ lists.allKnown

variable {env : Surroundings} {reachable : Server → Bool} {servers : List NamedServer}
  {s s' : SmartState} {found ignore : Bool} {x : NamedServer}

/-! ## The way through a list -/

namespace SmartState

/-- The server is passed over. -/
def passes (env : Surroundings) (ignore : Bool) (s : SmartState) (server : Server) : Bool :=
  !ignore && s.cache.isBlacklisted (env.clock s.readings) server

/-- After it has been looked up whether a server is passed over. -/
def look (ignore : Bool) (s : SmartState) : SmartState :=
  { s with readings := s.readings + if ignore then 0 else 1 }

@[simp] lemma look_cache : (s.look ignore).cache = s.cache := rfl

@[simp] lemma look_dialled : (s.look ignore).dialled = s.dialled := rfl

lemma readings_le_look : s.readings ≤ (s.look ignore).readings := Nat.le_add_right _ _

/-- The client is connected to the server of the last success, which is reachable. -/
def Connected (reachable : Server → Bool) (s : SmartState) : Prop :=
  ∃ last, s.cache.lastSuccess = some last ∧ reachable last.server = true ∧
    s.currentServer = some ⟨last.name, last.server⟩

/-- A server has no entry that is active at a clock reading from now on. -/
def OffBlacklist (env : Surroundings) (s : SmartState) (server : Server) : Prop :=
  ∀ k, s.readings ≤ k → s.cache.isBlacklisted (env.clock k) server = false

/-- A server has an entry that is active at all clock readings from now on. -/
def OnBlacklist (env : Surroundings) (s : SmartState) (server : Server) : Prop :=
  ∃ e ∈ s.cache.blacklist, e.server = server ∧
    ∀ k, s.readings ≤ k → e.active (env.clock k) = true

/-- From now on entries of the blacklist expire, but none becomes active. -/
def Settled (env : Surroundings) (s : SmartState) : Prop :=
  ∀ e ∈ s.cache.blacklist, ∀ i k, s.readings ≤ i → i ≤ k → e.active (env.clock k) = true →
    e.active (env.clock i) = true

end SmartState

/-- The way through the servers of a list, from a state to the answer and the state at the end. -/
inductive Tries (env : Surroundings) (ignore : Bool) :
    List NamedServer → SmartState → Bool → SmartState → Prop
  /-- There is no server left. -/
  | out (s : SmartState) : Tries env ignore [] s false s
  /-- The server is passed over. -/
  | skip {server : NamedServer} {servers : List NamedServer} {s s' : SmartState} {found : Bool}
      (hpass : s.passes env ignore server.server = true)
      (hrest : Tries env ignore servers (s.look ignore) found s') :
      Tries env ignore (server :: servers) s found s'
  /-- The server is connected to. -/
  | land {server : NamedServer} {servers : List NamedServer} {s : SmartState} {elapsedMs : UInt32}
      (hpass : s.passes env ignore server.server = false)
      (hdial : env.dial s.dialled.length server.server = some elapsedMs) :
      Tries env ignore (server :: servers) s true ((s.look ignore).landed env server elapsedMs)
  /-- The server does not answer. -/
  | miss {server : NamedServer} {servers : List NamedServer} {s s' : SmartState} {found : Bool}
      (hpass : s.passes env ignore server.server = false)
      (hdial : env.dial s.dialled.length server.server = none)
      (hrest : Tries env ignore servers ((s.look ignore).failed env server) found s') :
      Tries env ignore (server :: servers) s found s'

/-- The lookup whether a server is passed over. -/
lemma exec_passesOver (env : Surroundings) (ignore : Bool) (s : SmartState) (server : Server) :
    (SmartProgram.passesOver ignore server).exec env.handle s =
      (s.passes env ignore server, s.look ignore) := by
  cases ignore <;> rfl

/-- **The program goes this way.**

**Proof sketch.** By recursion on the servers: one is skipped, connected to, or tried in vain, and
in the first and the last case the rest of the list follows. -/
theorem tries_connectFirst (env : Surroundings) (ignore : Bool) :
    ∀ (servers : List NamedServer) (s : SmartState),
      Tries env ignore servers s
        ((SmartProgram.connectFirst ignore servers).exec env.handle s).1
        ((SmartProgram.connectFirst ignore servers).exec env.handle s).2
  | [], s => .out s
  | server :: servers, s => by
    have ih := tries_connectFirst env ignore servers
    rw [SmartProgram.connectFirst, Program.exec_bind, exec_passesOver]
    cases hpass : s.passes env ignore server.server with
    | true => exact .skip hpass (ih _)
    | false =>
      simp only [Bool.false_eq_true, if_false, Program.exec_bind, exec_connectAndRecord,
        SmartState.look_dialled]
      cases hdial : env.dial s.dialled.length server.server with
      | some elapsedMs => exact .land hpass hdial
      | none => exact .miss hpass hdial (ih _)

/-! ## What comes of it -/

namespace SmartState

/-- Looking up a server leaves the others off the blacklist. -/
lemma OffBlacklist.look (h : s.OffBlacklist env x.server) :
    (s.look ignore).OffBlacklist env x.server :=
  fun k hk => h k (le_trans readings_le_look hk)

/-- A failure of another server leaves a server off the blacklist. -/
lemma OffBlacklist.failed (h : s.OffBlacklist env x.server) (server : NamedServer)
    (hne : x.server ≠ server.server) : (s.failed env server).OffBlacklist env x.server := by
  intro k hk
  have hoff := h k (le_trans (Nat.le_add_right _ 2) hk)
  rw [Bool.eq_false_iff, ne_eq, ServerCache.isBlacklisted_iff] at hoff ⊢
  rintro ⟨e, he, hserver, hactive⟩
  exact hoff ⟨e, ServerCache.mem_of_mem_failed he (hserver ▸ hne), hserver, hactive⟩

/-- A failure leaves a server on the blacklist. -/
lemma OnBlacklist.failed (h : s.OnBlacklist env x.server) (server : NamedServer) :
    (s.failed env server).OnBlacklist env x.server := by
  obtain ⟨e, he, hserver, hactive⟩ := h
  exact ⟨e, ServerCache.mem_failed_of_mem he (hactive _ (Nat.le_succ _)), hserver,
    fun k hk => hactive k (le_trans (Nat.le_add_right _ 2) hk)⟩

/-- A server that is off the blacklist is not passed over. -/
lemma not_passes (hoff : ignore = true ∨ s.OffBlacklist env x.server) :
    s.passes env ignore x.server = false := by
  rcases hoff with rfl | hoff
  · rfl
  · rw [passes, hoff _ le_rfl, Bool.and_false]

end SmartState

/-- After a success, the client is connected to the server of the last success. -/
lemma SmartState.connected_landed
    (hfixed : ∀ n server, (env.dial n server).isSome = reachable server) {server : NamedServer}
    {n : ℕ} {elapsedMs : UInt32} (hdial : env.dial n server.server = some elapsedMs) :
    (s.landed env server elapsedMs).Connected reachable := by
  have hreach : reachable server.server = true := by
    rw [← hfixed n, hdial]
    rfl
  exact ⟨_, rfl, hreach, rfl⟩

/-- A server that fails is not reachable. -/
lemma ne_of_dial_eq_none (hfixed : ∀ n server, (env.dial n server).isSome = reachable server)
    {n : ℕ} {server : Server} (hdial : env.dial n server = none)
    (hreach : reachable x.server = true) : x.server ≠ server := by
  intro heq
  rw [heq, ← hfixed n, hdial] at hreach
  exact nomatch hreach

namespace Tries

/-- Only more servers are connected to. -/
lemma grows (h : Tries env ignore servers s found s') : s.Grows s' := by
  induction h with
  | out s => exact .refl s
  | skip _ _ ih => exact ih
  | @land server _ _ _ _ _ => exact ⟨[server.server], rfl⟩
  | @miss server _ s _ _ _ _ _ ih =>
    obtain ⟨new, hnew⟩ := ih
    exact ⟨server.server :: new, hnew.trans (List.append_assoc _ _ _)⟩

section

variable (hfixed : ∀ n server, (env.dial n server).isSome = reachable server)

include hfixed

/-- If a server is found, the client is connected to it. -/
lemma connected (h : Tries env ignore servers s found s') (hfound : found = true) :
    s'.Connected reachable := by
  induction h with
  | out s => exact nomatch hfound
  | skip _ _ ih => exact ih hfound
  | land _ hdial => exact SmartState.connected_landed hfixed hdial
  | miss _ _ _ ih => exact ih hfound

/-- **A reachable server is found**, if the blacklist is ignored or the server is off it.

**Proof sketch.** Induction on the way: the servers that fail are not reachable, so that they are
other servers than this one, and none of their entries is about it. -/
lemma found_of_reachable (h : Tries env ignore servers s found s')
    (hreach : reachable x.server = true) (hx : x ∈ servers)
    (hoff : ignore = true ∨ s.OffBlacklist env x.server) : found = true := by
  induction h with
  | out s => exact absurd hx List.not_mem_nil
  | skip hpass _ ih =>
    rcases List.mem_cons.mp hx with rfl | hx
    · exact nomatch hpass.symm.trans (SmartState.not_passes hoff)
    · exact ih hx (hoff.imp_right fun h => h.look)
  | land _ _ => rfl
  | @miss server _ s _ _ _ hdial _ ih =>
    have hne : x.server ≠ server.server := ne_of_dial_eq_none hfixed hdial hreach
    rcases List.mem_cons.mp hx with rfl | hx
    · exact absurd rfl hne
    · exact ih hx (hoff.imp_right fun h => h.look.failed server hne)

end

/-- If no server is found, that of the last success is as before. -/
lemma lastSuccess_eq (h : Tries env ignore servers s found s') (hfound : found = false) :
    s'.cache.lastSuccess = s.cache.lastSuccess := by
  induction h with
  | out s => rfl
  | skip _ _ ih => exact ih hfound
  | land _ _ => exact nomatch hfound
  | miss _ _ _ ih =>
    exact (ih hfound).trans (ServerCache.recordAt_failure_lastSuccess _ _ _ _)

/-- A server of the list is connected to, if the blacklist is ignored or some server of the list is
off it.

**Proof sketch.** By induction on the way. A server that is skipped is on a blacklist that is not
ignored, so it is not the one of the hypothesis; looking at it puts no server on the blacklist. In
both other cases the head of the list is itself connected to. -/
lemma dials_of_off (h : Tries env ignore servers s found s') (hx : x ∈ servers)
    (hoff : ignore = true ∨ s.OffBlacklist env x.server) :
    ∃ y ∈ servers, s.Dials s' y.server := by
  induction h with
  | out s => exact absurd hx List.not_mem_nil
  | skip hpass _ ih =>
    rcases List.mem_cons.mp hx with rfl | hx
    · exact nomatch hpass.symm.trans (SmartState.not_passes hoff)
    · obtain ⟨y, hy, hdials⟩ := ih hx (hoff.imp_right fun h => h.look)
      exact ⟨y, List.mem_cons_of_mem _ hy, hdials⟩
  | @land server _ _ _ _ _ =>
    exact ⟨server, List.mem_cons_self, [server.server], rfl, List.mem_singleton_self _⟩
  | @miss server _ s _ _ _ _ hrest _ =>
    have hhead : s.Dials ((s.look ignore).failed env server) server.server :=
      ⟨[server.server], rfl, List.mem_singleton_self _⟩
    exact ⟨server, List.mem_cons_self, hhead.trans hrest.grows⟩

end Tries

/-! ## The blacklist as a whole -/

/-- If every server is blacklisted at every clock reading from now on, all are. -/
lemma allBlacklistedFrom_eq_true {c : ServerCache} {clock : ℕ → ℕ} {servers : List Server} {k : ℕ}
    (h : ∀ server ∈ servers, ∀ i, k ≤ i → c.isBlacklisted (clock i) server = true) :
    (c.allBlacklistedFrom clock k servers).1 = true := by
  induction servers generalizing k with
  | nil => rfl
  | cons server servers ih =>
    rw [ServerCache.allBlacklistedFrom, if_pos (h server List.mem_cons_self k le_rfl)]
    exact ih fun server hserver i hi =>
      h server (List.mem_cons_of_mem _ hserver) i (le_trans (Nat.le_succ k) hi)

/-- The lookups only take clock readings. -/
lemma le_allBlacklistedFrom {c : ServerCache} {clock : ℕ → ℕ} {servers : List Server} {k : ℕ} :
    k ≤ (c.allBlacklistedFrom clock k servers).2 := by
  induction servers generalizing k with
  | nil => exact le_rfl
  | cons server servers ih =>
    unfold ServerCache.allBlacklistedFrom
    split
    · exact le_trans (Nat.le_succ k) ih
    · exact Nat.le_succ k

/-- If not all are blacklisted, a lookup has found one that is not. -/
lemma exists_of_allBlacklistedFrom {c : ServerCache} {clock : ℕ → ℕ} {servers : List Server} {k : ℕ}
    (h : (c.allBlacklistedFrom clock k servers).1 = false) :
    ∃ server ∈ servers, ∃ i, k ≤ i ∧ i ≤ (c.allBlacklistedFrom clock k servers).2 ∧
      c.isBlacklisted (clock i) server = false := by
  induction servers generalizing k with
  | nil => exact nomatch h
  | cons server servers ih =>
    unfold ServerCache.allBlacklistedFrom at h ⊢
    by_cases hlisted : c.isBlacklisted (clock k) server = true
    · rw [if_pos hlisted] at h ⊢
      obtain ⟨server', hmem, i, hi, hoff⟩ := ih h
      exact ⟨server', List.mem_cons_of_mem _ hmem, i, le_trans (Nat.le_succ k) hi, hoff⟩
    · rw [if_neg hlisted]
      exact ⟨server, List.mem_cons_self, k, le_rfl, Nat.le_succ k, Bool.eq_false_iff.mpr hlisted⟩

/-! ## The call -/

namespace SmartState

/-- Whether the blacklist has all servers, as a lookup of each says. -/
def degrades (env : Surroundings) (s : SmartState) (servers : List NamedServer) : Bool :=
  (s.cache.allBlacklistedFrom env.clock s.readings (servers.map NamedServer.server)).1

/-- After these lookups. -/
def surveyed (env : Surroundings) (s : SmartState) (servers : List NamedServer) : SmartState :=
  { s with
    readings :=
      (s.cache.allBlacklistedFrom env.clock s.readings (servers.map NamedServer.server)).2 }

/-- Without a server of the last success. -/
def cleared (s : SmartState) : SmartState := { s with cache := s.cache.clearLastSuccess }

/-- The state in which the call comes to the candidates: there is no server of the last success, or
it has failed. -/
inductive BeforeLists (env : Surroundings) (s : SmartState) : SmartState → Prop
  | noCached (hnone : s.cache.lastSuccess = none) : BeforeLists env s s
  | cachedFailed (last : ServerCacheEntry) (hlast : s.cache.lastSuccess = some last)
      (hdial : env.dial s.dialled.length last.server = none) :
      BeforeLists env s (s.failed env ⟨last.name, last.server⟩).cleared

end SmartState

/-- The candidates are tried, with a flag that is set beforehand. -/
lemma exec_connectAmong (env : Surroundings) (servers : List NamedServer) (message : String)
    (s : SmartState) :
    ∃ found s', Tries env (s.degrades env servers) servers (s.surveyed env servers) found s' ∧
      (SmartProgram.connectAmong servers message).exec env.handle s =
        (if found then .ok true else .error (ErrorCode.connectionFailed.err message), s') := by
  refine ⟨_, _, tries_connectFirst env (s.degrades env servers) servers
    (s.surveyed env servers), ?_⟩
  show ((SmartProgram.connectFirst (s.degrades env servers) servers >>= _).exec env.handle
    (s.surveyed env servers)) = _
  rw [Program.exec_bind]
  split <;> rfl

/-- **The course of the call.** It connects to the server of the last success, or it tries the
candidates.

**Proof sketch.** By the two questions that the call begins with: whether there is a server of the
last success, and whether it answers. In each of the other cases the candidates are tried from the
state so reached. -/
lemma exec_connectToAny (lists : NamedLists) (env : Surroundings) (s : SmartState) :
    (∃ (last : ServerCacheEntry) (elapsedMs : UInt32), s.cache.lastSuccess = some last ∧
      env.dial s.dialled.length last.server = some elapsedMs ∧
      (SmartProgram.connectToAny lists).exec env.handle s =
        (.ok true, s.landed env ⟨last.name, last.server⟩ elapsedMs)) ∨
    ∃ t, s.BeforeLists env t ∧ t.cache.lastSuccess = none ∧
      ∃ found s', Tries env (t.degrades env lists.candidates) lists.candidates
          (t.surveyed env lists.candidates) found s' ∧
        (SmartProgram.connectToAny lists).exec env.handle s =
          (if found then .ok true
            else .error (ErrorCode.connectionFailed.err "all servers unreachable"), s') := by
  have hasked : SmartProgram.lastSuccess.exec env.handle s = (s.cache.lastSuccess, s) := rfl
  rw [SmartProgram.connectToAny, Program.exec_bind, hasked]
  cases hlast : s.cache.lastSuccess with
  | none =>
    exact .inr ⟨s, .noCached hlast, hlast, exec_connectAmong env lists.candidates _ s⟩
  | some last =>
    simp only [Program.exec_bind, exec_connectAndRecord]
    cases hdial : env.dial s.dialled.length last.server with
    | some elapsedMs => exact .inl ⟨last, elapsedMs, rfl, hdial, rfl⟩
    | none =>
      exact .inr ⟨_, .cachedFailed last hlast hdial, rfl,
        exec_connectAmong env lists.candidates _ (s.failed env ⟨last.name, last.server⟩).cleared⟩

namespace SmartState.BeforeLists

variable {t : SmartState}

/-- No clock reading is undone. -/
lemma readings_le (h : s.BeforeLists env t) : s.readings ≤ t.readings := by
  cases h with
  | noCached => exact le_rfl
  | cachedFailed => exact Nat.le_add_right _ 2

/-- No connect is undone. -/
lemma grows (h : s.BeforeLists env t) : s.Grows t := by
  cases h with
  | noCached => exact .refl s
  | cachedFailed last => exact ⟨[last.server], rfl⟩

/-- A reachable server stays off the blacklist. -/
lemma offBlacklist (hfixed : ∀ n server, (env.dial n server).isSome = reachable server)
    (h : s.BeforeLists env t) (hreach : reachable x.server = true)
    (hoff : s.OffBlacklist env x.server) : t.OffBlacklist env x.server := by
  cases h with
  | noCached => exact hoff
  | cachedFailed last _ hdial =>
    exact hoff.failed ⟨last.name, last.server⟩ (ne_of_dial_eq_none hfixed hdial hreach)

/-- A server stays on the blacklist. -/
lemma onBlacklist (h : s.BeforeLists env t) (hon : s.OnBlacklist env x.server) :
    t.OnBlacklist env x.server := by
  cases h with
  | noCached => exact hon
  | cachedFailed last => exact hon.failed ⟨last.name, last.server⟩

/-- A new entry is about a server that has been connected to. -/
lemma mem_or_dials (h : s.BeforeLists env t) {e : BlacklistEntry} (he : e ∈ t.cache.blacklist) :
    e ∈ s.cache.blacklist ∨ s.Dials t e.server := by
  cases h with
  | noCached => exact .inl he
  | cachedFailed last =>
    by_cases hserver : e.server = last.server
    · exact .inr ⟨[last.server], rfl, hserver ▸ List.mem_singleton_self _⟩
    · exact .inl (ServerCache.mem_of_mem_failed he hserver)

end SmartState.BeforeLists

/-- A server that is on the blacklist is found there by every lookup. -/
lemma SmartState.OnBlacklist.isBlacklisted (h : s.OnBlacklist env x.server) (k : ℕ)
    (hk : s.readings ≤ k) : s.cache.isBlacklisted (env.clock k) x.server = true := by
  obtain ⟨e, he, hserver, hactive⟩ := h
  exact ServerCache.isBlacklisted_iff.mpr ⟨e, he, hserver, hactive k hk⟩

/-- If all servers are on the blacklist, it is ignored. -/
lemma degrades_of_onBlacklist (h : ∀ x ∈ servers, s.OnBlacklist env x.server) :
    s.degrades env servers = true := by
  refine allBlacklistedFrom_eq_true fun server hserver k hk => ?_
  obtain ⟨x, hx, rfl⟩ := List.mem_map.mp hserver
  exact (h x hx).isBlacklisted k hk

/-- **Some candidate is connected to** when the call comes to the candidates, unless an entry of the
blacklist becomes active during the call.

**Proof sketch.** If the blacklist is ignored, the first candidate is. If not, a lookup has found a
candidate off the blacklist. Either it is the server that has failed before, or it has only entries
that were there when the call began, so that it is still off the blacklist when its turn comes. -/
lemma exists_dials {lists : NamedLists} {t : SmartState} (hsettled : s.Settled env)
    (hbefore : s.BeforeLists env t)
    (htries : Tries env (t.degrades env lists.candidates) lists.candidates
      (t.surveyed env lists.candidates) found s') :
    ∃ x ∈ lists.candidates, s.Dials s' x.server := by
  have hgrows : s.Grows (t.surveyed env lists.candidates) := hbefore.grows
  cases hflag : t.degrades env lists.candidates with
  | true =>
    rw [hflag] at htries
    obtain ⟨x, hx, hdials⟩ := htries.dials_of_off
      (show lists.firstPrimary ∈ lists.candidates from List.mem_cons_self) (.inl rfl)
    exact ⟨x, hx, hgrows.trans_dials hdials⟩
  | false =>
    obtain ⟨server, hserver, i, hi, hle, hoff⟩ := exists_of_allBlacklistedFrom hflag
    obtain ⟨x, hx, rfl⟩ := List.mem_map.mp hserver
    by_cases hdials : s.Dials (t.surveyed env lists.candidates) x.server
    · exact ⟨x, hx, hdials.trans htries.grows⟩
    · have hstill : (t.surveyed env lists.candidates).OffBlacklist env x.server := by
        intro k hk
        rw [Bool.eq_false_iff, ne_eq, ServerCache.isBlacklisted_iff] at hoff ⊢
        rintro ⟨e, he, heq, hactive⟩
        have hold : e ∈ s.cache.blacklist :=
          (hbefore.mem_or_dials he).resolve_right (heq ▸ hdials)
        exact hoff ⟨e, he, heq, hsettled e hold i k (le_trans hbefore.readings_le hi)
          (le_trans hle hk) hactive⟩
      obtain ⟨y, hy, hdials⟩ := htries.dials_of_off hx (.inr hstill)
      exact ⟨y, hy, hgrows.trans_dials hdials⟩

/-- **The smart client stays available.** Whatever the lists, the cache and the readings of the
clock, if the reachable servers stay the same during the call, then:

* the call is successful if some reachable candidate is off the blacklist throughout the call;
* it is successful if all candidates are on the blacklist throughout the call, and some candidate is
  reachable;
* it does not fail without having tried a candidate, if no entry of the blacklist becomes active
  during the call;
* after a success, the server of the last success is reachable, and is the current server;
* after a failure there is no server of the last success.

**Proof sketch.** The call either lands on the server of the last success, or it has forgotten it
and then tries the candidates in turn (`exec_connectToAny`). A reachable candidate that is off the
blacklist, or any reachable one when all are on it, is not passed over, and its try succeeds, so
that the tries find a server (`found_of_reachable`). Without a success nothing sets the last success
again; with one it is the server of the successful try. -/
theorem connect_to_any_available (lists : NamedLists) (env : Surroundings)
    (reachable : Server → Bool) (s : SmartState)
    (hfixed : ∀ n server, (env.dial n server).isSome = reachable server) :
    let r := (SmartProgram.connectToAny lists).exec env.handle s
    ((∃ x ∈ lists.candidates, reachable x.server = true ∧ s.OffBlacklist env x.server) →
        r.1 = .ok true) ∧
      ((∀ x ∈ lists.candidates, s.OnBlacklist env x.server) →
        (∃ x ∈ lists.candidates, reachable x.server = true) → r.1 = .ok true) ∧
      (s.Settled env → r.1 ≠ .ok true → ∃ x ∈ lists.candidates, s.Dials r.2 x.server) ∧
      (r.1 = .ok true → r.2.Connected reachable) ∧
      (r.1 ≠ .ok true → r.2.cache.lastSuccess = none) := by
  intro r
  rcases exec_connectToAny lists env s with
    ⟨last, elapsedMs, -, hdial, hr⟩ | ⟨t, hbefore, hnone, found, s', htries, hr⟩
  · have hok : r.1 = .ok true := congrArg Prod.fst hr
    have hlanded : (s.landed env ⟨last.name, last.server⟩ elapsedMs).Connected reachable :=
      SmartState.connected_landed hfixed hdial
    have hconnected : r.2.Connected reachable := by
      show SmartState.Connected reachable (((SmartProgram.connectToAny lists).exec env.handle s).2)
      rwa [hr]
    exact ⟨fun _ => hok, fun _ _ => hok, fun _ h => absurd hok h, fun _ => hconnected,
      fun h => absurd hok h⟩
  · have hs' : r.2 = s' := congrArg Prod.snd hr
    have hok : found = true → r.1 = .ok true := by
      rintro rfl
      exact congrArg Prod.fst hr
    have hfound : r.1 = .ok true → found = true := by
      intro h
      by_contra hfound
      rw [Bool.not_eq_true] at hfound
      subst hfound
      exact nomatch h.symm.trans (congrArg Prod.fst hr)
    rw [hs']
    refine ⟨?_, ?_, ?_, ?_, ?_⟩
    · rintro ⟨x, hx, hreach, hoff⟩
      have hoff : (t.surveyed env lists.candidates).OffBlacklist env x.server := fun k hk =>
        hbefore.offBlacklist hfixed hreach hoff k (le_trans le_allBlacklistedFrom hk)
      exact hok (htries.found_of_reachable hfixed hreach hx (.inr hoff))
    · rintro hon ⟨x, hx, hreach⟩
      rw [degrades_of_onBlacklist fun x hx => hbefore.onBlacklist (hon x hx)] at htries
      exact hok (htries.found_of_reachable hfixed hreach hx (.inl rfl))
    · exact fun hsettled _ => exists_dials hsettled hbefore htries
    · exact fun h => htries.connected hfixed (hfound h)
    · intro h
      have hmissed : found = false := Bool.eq_false_iff.mpr fun hfound => h (hok hfound)
      exact (htries.lastSuccess_eq hmissed).trans hnone

/-! ## Two candidates -/

/-- Lists with one server each. -/
def twoServers : NamedLists := ⟨⟨"a", ("a", 7709)⟩, [], [⟨"b", ("b", 7709)⟩]⟩

/-- Only the second server is reachable. -/
def onlySecond (server : Server) : Bool := server = ("b", 7709)

/-- A clock, and servers of which only the second answers. -/
def surroundings (clock : ℕ → ℕ) : Surroundings where
  clock := clock
  dial _ server := if onlySecond server then some 30 else none
  answer op :=
    match op with
    | .trySendAndRecv _ => .ok []
    | .autoRetry => true
    | .reconnectIfNeeded | .reconnectToAnotherServer => ()

/-- The servers do not change. -/
lemma surroundings_fixed (clock : ℕ → ℕ) (n : ℕ) (server : Server) :
    ((surroundings clock).dial n server).isSome = onlySecond server := by
  show (if onlySecond server then some 30 else none : Option UInt32).isSome = _
  cases onlySecond server <;> rfl

/-- A client that was connected to a third server. Both candidates are blacklisted. -/
def bothBlacklisted : SmartState where
  cache :=
    { ServerCache.empty with
      lastSuccess := some ⟨("c", 7709), "c", 500, 30⟩
      blacklist :=
        [⟨("a", 7709), blacklistReasonStreak, 1000⟩, ⟨("b", 7709), blacklistReasonStreak, 2000⟩] }
  currentServer := none
  healthChecked := false
  readings := 0
  dialled := []

/-- The blacklist is ignored, and the second server is found. -/
theorem connect_to_any_degraded :
    let r := (SmartProgram.connectToAny twoServers).exec (surroundings fun _ => 3000).handle
      bothBlacklisted
    r.1 = .ok true ∧ r.2.Connected onlySecond := by
  have h := connect_to_any_available twoServers (surroundings fun _ => 3000) onlySecond
    bothBlacklisted (surroundings_fixed _)
  have hon : ∀ x ∈ twoServers.candidates,
      bothBlacklisted.OnBlacklist (surroundings fun _ => 3000) x.server := by
    refine List.forall_mem_cons.mpr ⟨?_, List.forall_mem_singleton.mpr ?_⟩
    · exact ⟨⟨("a", 7709), blacklistReasonStreak, 1000⟩, List.mem_cons_self, rfl,
        fun _ _ => decide_eq_true (show elapsed 3000 1000 < 86400 by decide)⟩
    · exact ⟨⟨("b", 7709), blacklistReasonStreak, 2000⟩, List.mem_cons_of_mem _ List.mem_cons_self,
        rfl, fun _ _ => decide_eq_true (show elapsed 3000 2000 < 86400 by decide)⟩
  have hok := h.2.1 hon ⟨⟨"b", ("b", 7709)⟩, by decide, by decide⟩
  exact ⟨hok, h.2.2.2.1 hok⟩

/-- **An entry expires during the call.** Both candidates are blacklisted when the call begins.
While the connect to the third server takes its time, the entry of the first candidate expires. So
the blacklist is not ignored, the first candidate fails, and the second one, which is reachable, is
passed over. -/
theorem connect_to_any_expires :
    let env := surroundings fun k => if k < 2 then 87000 else 87400
    (∀ x ∈ twoServers.candidates,
        bothBlacklisted.cache.isBlacklisted (env.clock 0) x.server = true) ∧
      (∀ n server, (env.dial n server).isSome = onlySecond server) ∧
      (∃ x ∈ twoServers.candidates, onlySecond x.server = true) ∧
      ((SmartProgram.connectToAny twoServers).exec env.handle bothBlacklisted).1 =
        .error (ErrorCode.connectionFailed.err "all servers unreachable") :=
  ⟨by decide, surroundings_fixed _, by decide, rfl⟩

end Tdxrs
