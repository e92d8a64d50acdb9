import Mathlib.Data.List.Sort
import Tdxrs.Net.ConnectToAny

set_option relaxedAutoImplicit false
set_option autoImplicit false

/-!
# Probing servers

`probe_and_cache` connects to the primary servers one after the other. It returns the reachable ones
by latency, but each of them is recorded in the cache as the last success when its turn comes, so
that the next call to `connect_to_any` begins with the last of the list and not with the fastest.

## Main definitions

* `Tdxrs.probed` — the reachable servers of a list, with their latencies.
* `Tdxrs.SmartState.TriesFirst` — the server that a call to `connect_to_any` begins with.

## Main results

* `Tdxrs.exec_probeEach` — what the probes find, and what they leave in the cache.
* `Tdxrs.probe_best_iff` — the best server is kept exactly if it is the last one.
-/

namespace Tdxrs

/-- The reachable servers of a list, with their latencies, in the order of the list. -/
def probed (latency : Server → Option UInt32) (servers : List NamedServer) :
    List (NamedServer × UInt32) :=
  servers.filterMap fun server => (latency server.server).map fun ms => (server, ms)

/-- Whatever is around the client, a call to `connect_to_any` connects to the server before any
other. -/
def SmartState.TriesFirst (lists : NamedLists) (s : SmartState) (server : Server) : Prop :=
  ∀ env : Surroundings, ∃ new,
    ((SmartProgram.connectToAny lists).exec env.handle s).2.dialled = s.dialled ++ server :: new

/-- The cache names the server of a probe as that of the last success. -/
def SmartState.Keeps (s : SmartState) (probe : NamedServer × UInt32) : Prop :=
  ∃ last, s.cache.lastSuccess = some last ∧ last.server = probe.1.server

variable {lists : NamedLists} {env : Surroundings} {s : SmartState}

/-- A call to `connect_to_any` begins with the server of the last success.

**Proof sketch.** By the course of the call. Either the server answers and is the only one that is
connected to, or it was tried in vain and the candidates come behind it. -/
lemma triesFirst_of_lastSuccess {last : ServerCacheEntry}
    (h : s.cache.lastSuccess = some last) (lists : NamedLists) :
    s.TriesFirst lists last.server := by
  intro env
  rcases exec_connectToAny lists env s with
    ⟨last', elapsedMs, hlast, -, hr⟩ | ⟨t, hbefore, -, found, s', htries, hr⟩
  · obtain rfl : last = last' := Option.some.inj (h.symm.trans hlast)
    rw [hr]
    exact ⟨[], rfl⟩
  · rw [hr]
    obtain ⟨new, hnew⟩ := htries.grows
    cases hbefore with
    | noCached hnone => exact nomatch h.symm.trans hnone
    | cachedFailed last' hlast =>
      obtain rfl : last = last' := Option.some.inj (h.symm.trans hlast)
      exact ⟨new, hnew.trans (List.append_assoc s.dialled [last.server] new)⟩

/-! ## The probes -/

/-- The probe of a server, and those of the servers after it.

**Proof sketch.** The program of the first server is its dial, and then what depends on the result:
the record of a success and a disconnect, or the record of a failure; both go on with the servers
behind it. -/
lemma exec_probeEach_cons (env : Surroundings) (server : NamedServer) (servers : List NamedServer)
    (s : SmartState) :
    (SmartProgram.probeEach (server :: servers)).exec env.handle s =
      match env.dial s.dialled.length server.server with
      | some latency =>
        let r := (SmartProgram.probeEach servers).exec env.handle
          (s.recorded env (.recordSuccess server.server server.name latency))
        ((server, latency) :: r.1, r.2)
      | none => (SmartProgram.probeEach servers).exec env.handle (s.failed env server) := by
  have hexec : (SmartProgram.probeEach (server :: servers)).exec env.handle s =
      (match env.dial s.dialled.length server.server with
        | some latency =>
          SmartProgram.record (.recordSuccess server.server server.name latency) >>= fun _ =>
            SmartProgram.disconnect >>= fun _ =>
              SmartProgram.probeEach servers >>= fun results =>
                (pure ((server, latency) :: results) :
                  SmartProgram (List (NamedServer × UInt32)))
        | none =>
          SmartProgram.record (.recordFailure server.server) >>= fun _ =>
            SmartProgram.probeEach servers).exec env.handle
              { s with dialled := s.dialled ++ [server.server] } := rfl
  rw [hexec]
  cases env.dial s.dialled.length server.server with
  | some latency =>
    simp only [Program.exec_bind]
    rfl
  | none => rfl

/-- A probe that is found has the latency of its server. -/
lemma latency_of_mem_probed {latency : Server → Option UInt32} {servers : List NamedServer}
    {probe : NamedServer × UInt32} (h : probe ∈ probed latency servers) :
    latency probe.1.server = some probe.2 := by
  obtain ⟨server, -, hprobe⟩ := List.mem_filterMap.mp h
  obtain ⟨ms, hms, rfl⟩ := Option.map_eq_some_iff.mp hprobe
  exact hms

section

variable {latency : Server → Option UInt32}
  (hlatency : ∀ n server, env.dial n server = latency server)

include hlatency

/-- **What the probes find**: the reachable servers. -/
lemma exec_probeEach (servers : List NamedServer) :
    ∀ s : SmartState,
      ((SmartProgram.probeEach servers).exec env.handle s).1 = probed latency servers := by
  induction servers with
  | nil => exact fun _ => rfl
  | cons server servers ih =>
    intro s
    rw [exec_probeEach_cons, hlatency, probed, List.filterMap_cons]
    cases latency server.server with
    | some ms => exact congrArg ((server, ms) :: ·) (ih _)
    | none => exact ih _

/-- Probes that find no server leave that of the last success.

**Proof sketch.** By induction on the servers. None of them answers, so each probe is recorded as a
failure, which does not touch the server of the last success. -/
lemma lastSuccess_probeEach_of_nil {servers : List NamedServer}
    (hnone : probed latency servers = []) :
    ∀ s : SmartState, ((SmartProgram.probeEach servers).exec env.handle s).2.cache.lastSuccess =
      s.cache.lastSuccess := by
  induction servers with
  | nil => exact fun _ => rfl
  | cons server servers ih =>
    intro s
    rw [exec_probeEach_cons, hlatency]
    rw [probed, List.filterMap_cons] at hnone
    cases hms : latency server.server with
    | some ms =>
      rw [hms] at hnone
      exact nomatch hnone
    | none =>
      rw [hms] at hnone
      exact (ih hnone _).trans (ServerCache.recordAt_failure_lastSuccess _ _ _ _)

/-- **What the probes leave in the cache**: the last reachable server of the list.

**Proof sketch.** Induction on the servers. If none behind this one is reachable, the success of
this one is the last (`lastSuccess_probeEach_of_nil`); otherwise the last reachable server is one of
those behind, and the induction hypothesis says that it is kept. -/
lemma keeps_probeEach {servers : List NamedServer} {last : NamedServer × UInt32}
    (hlast : (probed latency servers).getLast? = some last) :
    ∀ s : SmartState, ((SmartProgram.probeEach servers).exec env.handle s).2.Keeps last := by
  induction servers with
  | nil => exact nomatch hlast
  | cons server servers ih =>
    intro s
    rw [exec_probeEach_cons, hlatency]
    rw [probed, List.filterMap_cons] at hlast
    cases hms : latency server.server with
    | none =>
      rw [hms] at hlast
      exact ih hlast _
    | some ms =>
      rw [hms] at hlast
      by_cases hrest : probed latency servers = []
      · -- no server after this one is reachable
        obtain rfl : (server, ms) = last := by
          have hsingle : ((server, ms) :: probed latency servers).getLast? = some last := hlast
          rw [hrest] at hsingle
          exact Option.some.inj hsingle
        exact ⟨_, lastSuccess_probeEach_of_nil hlatency hrest _, rfl⟩
      · have htail : (probed latency servers).getLast? = some last := by
          rw [← hlast]
          exact (List.getLast?_cons_of_ne_nil hrest).symm
        exact ih htail _

end

/-- The results are ordered at the end. -/
lemma exec_probeAndCache (lists : NamedLists) (env : Surroundings) (s : SmartState) :
    (SmartProgram.probeAndCache lists).exec env.handle s =
      (((SmartProgram.probeEach lists.primary).exec env.handle s).1.insertionSort
          fun a b => a.2 ≤ b.2,
        ((SmartProgram.probeEach lists.primary).exec env.handle s).2) := by
  rw [SmartProgram.probeAndCache, Program.exec_bind]
  rfl

/-- **Probing keeps the best server** exactly if it is the last one. Whatever the lists, which
servers are reachable and with which latencies, `probe_and_cache` returns the reachable primary
servers ordered by latency. If there are any, the cache names one of least latency as the last
success, and the next call to `connect_to_any` begins with it, exactly if the last reachable server
in the order of the list has least latency.

**Proof sketch.** The results are the reachable servers, sorted by latency. The cache keeps the one
that was probed last (`keeps_probeEach`). If it is also a best one, the last has the least latency;
conversely a last one of least latency is in the results, is kept, and is tried first
(`triesFirst_of_lastSuccess`). -/
theorem probe_best_iff (lists : NamedLists) (env : Surroundings)
    (latency : Server → Option UInt32) (s : SmartState)
    (hlatency : ∀ n server, env.dial n server = latency server) :
    let r := (SmartProgram.probeAndCache lists).exec env.handle s
    let found := probed latency lists.primary
    r.1.Perm found ∧ r.1.Pairwise (fun a b => a.2 ≤ b.2) ∧
      ((r.1 ≠ [] → ∃ best ∈ r.1, (∀ q ∈ r.1, best.2 ≤ q.2) ∧ r.2.Keeps best ∧
          r.2.TriesFirst lists best.1.server) ↔
        ∀ last ∈ found.getLast?, ∀ q ∈ found, last.2 ≤ q.2) := by
  intro r found
  have hresults : r.1 = found.insertionSort fun a b => a.2 ≤ b.2 := by
    show ((SmartProgram.probeAndCache lists).exec env.handle s).1 = _
    rw [exec_probeAndCache, exec_probeEach hlatency]
  have hstate : r.2 = ((SmartProgram.probeEach lists.primary).exec env.handle s).2 := by
    show ((SmartProgram.probeAndCache lists).exec env.handle s).2 = _
    rw [exec_probeAndCache]
  have hperm : r.1.Perm found := hresults ▸ List.perm_insertionSort _ found
  refine ⟨hperm, hresults ▸ List.pairwise_insertionSort _ found, ?_, ?_⟩
  · intro hkept last hlast q hq
    have hne : r.1 ≠ [] := fun hnil => List.not_mem_nil (hnil ▸ hperm.mem_iff.mpr hq)
    obtain ⟨best, hbest, hleast, ⟨e, he, hserver⟩, -⟩ := hkept hne
    obtain ⟨e', he', hserver'⟩ := keeps_probeEach hlatency hlast s
    -- the server in the cache is both the best and the last
    obtain rfl : e = e' := Option.some.inj (he.symm.trans (hstate ▸ he'))
    have hsame : some last.2 = some best.2 := by
      rw [← latency_of_mem_probed (List.mem_of_getLast? hlast),
        ← latency_of_mem_probed (hperm.mem_iff.mp hbest), ← hserver, ← hserver']
    rw [Option.some.inj hsame]
    exact hleast q (hperm.mem_iff.mpr hq)
  · intro hleast hne
    have hfound : found ≠ [] := fun hnil => hne (List.perm_nil.mp (hnil ▸ hperm))
    have hlast : found.getLast? = some (found.getLast hfound) :=
      List.getLast?_eq_some_getLast hfound
    obtain ⟨e, he, hserver⟩ := keeps_probeEach hlatency hlast s
    rw [← hstate] at he
    refine ⟨found.getLast hfound, hperm.mem_iff.mpr (List.getLast_mem hfound), ?_,
      ⟨e, he, hserver⟩, ?_⟩
    · exact fun q hq => hleast _ hlast q (hperm.mem_iff.mp hq)
    · exact hserver ▸ triesFirst_of_lastSuccess he lists

/-! ## Two primary servers -/

/-- Primary servers of which the second is faster, or slower, than the first. -/
def twoPrimary (first second : UInt32) : NamedLists × (Server → Option UInt32) :=
  (⟨⟨"a", ("a", 7709)⟩, [⟨"b", ("b", 7709)⟩], []⟩,
    fun server => if server = ("a", 7709) then some first else some second)

/-- The servers as they are probed. -/
def probeSurroundings (latency : Server → Option UInt32) : Surroundings :=
  { surroundings fun _ => 3000 with dial := fun _ => latency }

/-- The faster server comes last, and is kept. -/
theorem probe_best_last :
    let r := (SmartProgram.probeAndCache (twoPrimary 80 20).1).exec
      (probeSurroundings (twoPrimary 80 20).2).handle bothBlacklisted
    ∃ best ∈ r.1, (∀ q ∈ r.1, best.2 ≤ q.2) ∧ r.2.Keeps best ∧
      r.2.TriesFirst (twoPrimary 80 20).1 best.1.server :=
  (probe_best_iff (twoPrimary 80 20).1 (probeSurroundings (twoPrimary 80 20).2) (twoPrimary 80 20).2
    bothBlacklisted fun _ _ => rfl).2.2.mpr (by decide) (by decide)

/-- **The faster server comes first, and is lost.** The cache names the slower one, with which the
next call to `connect_to_any` begins. -/
theorem probe_best_lost :
    let r := (SmartProgram.probeAndCache (twoPrimary 20 80).1).exec
      (probeSurroundings (twoPrimary 20 80).2).handle bothBlacklisted
    r.1 = [(⟨"a", ("a", 7709)⟩, 20), (⟨"b", ("b", 7709)⟩, 80)] ∧
      r.2.cache.lastSuccess.map ServerCacheEntry.server = some ("b", 7709) ∧
      ((SmartProgram.connectToAny (twoPrimary 20 80).1).exec
        (probeSurroundings (twoPrimary 20 80).2).handle r.2).2.dialled =
          r.2.dialled ++ [("b", 7709)] := by
  decide

end Tdxrs
