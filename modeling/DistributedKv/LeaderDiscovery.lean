import DistributedKv.Membership

/-!
# Leader discovery in the client

`dkvctl` asks the node it was given for the servers of the raft
configuration (`MembershipAPIHandler.GetServers`) and picks the endpoint its
leader clients talk to (`findEndpoint`): the RPC address of the first
candidate marked leader, else the RPC address of a candidate drawn by
`rand.Intn`; `Before` keeps the endpoint it was given when that is `""`.

The candidates are built by appending the servers that advertise an RPC
address to `make([]*Server, len(servers))`, so they start with
`len(servers)` nil servers, whose getters give `false` and `""`. A leader
that advertises an address is still found, whatever the draw
(`findEndpoint_leader`); without one, a draw that falls among the nil
servers gives `""` even when some server advertises an address
(`findEndpoint_draws_placeholder`).
-/

set_option autoImplicit false

namespace DistributedKv.LeaderDiscovery

open DistributedKv.BigEndian DistributedKv.Types DistributedKv.Membership

structure ProtoServer where
  id : Bytes
  raftAddress : Bytes
  rpcAddress : Bytes
  isLeader : Bool
  deriving DecidableEq, Repr

/-- The generated getter reads a nil `*Server` as the empty message. -/
def getRpcAddress : Option ProtoServer → Bytes
  | some server => server.rpcAddress
  | none => []

def getIsLeader : Option ProtoServer → Bool
  | some server => server.isLeader
  | none => false

/-- `MembershipAPIHandler.GetServers` over `Store.GetServers` and
`Store.GetLeader`: the servers of the raft configuration, each with the RPC
address advertised for its ID (`""` for an ID with none), marked leader when
both its ID and its address are those raft reports for the leader. -/
def getServers {ρ : Type} (rf : Raft ρ) (leaderWithID : ρ → ServerAddress × ServerID)
    (advertiseNodes : GoMap) (r : ρ) : Except Error (List ProtoServer) :=
  match rf.getConfiguration r with
  | .error err => .error err
  | .ok srvs =>
    let (leaderAddr, leaderID) := leaderWithID r
    .ok (srvs.map fun node =>
      { id := node.id
        raftAddress := node.address
        rpcAddress := (advertiseNodes.lookup node.id).getD []
        isLeader := node.id == leaderID && node.address == leaderAddr })

/-- The candidates of `findEndpoint`: `make([]*dkvv1.Server, len(servers))`,
then every server whose RPC address is not `""` appended. -/
def advertisedServers (servers : List ProtoServer) : List (Option ProtoServer) :=
  servers.foldl (fun acc server => if getRpcAddress (some server) ≠ [] then acc++[some server] else acc)
    (List.replicate servers.length none)

/-- `findEndpoint`, given what the `GetServers` call returned and `rand.Intn`
as a function of its bound. -/
def findEndpoint (servers : Except Error (List ProtoServer)) (intn : ℕ → ℕ) : Except Error Bytes :=
  match servers with
  | .error _ => .ok []
  | .ok servers =>
    if servers.length = 0 then .ok []
    else if (advertisedServers servers).length = 0 then .ok []
    else
      match (advertisedServers servers).find? getIsLeader with
      | some server => .ok (getRpcAddress server)
      | none =>
        match (advertisedServers servers)[intn (advertisedServers servers).length]? with
        | some server => .ok (getRpcAddress server)
        | none => .error (.panic (.new "index out of range"))

/-- The endpoint `Before` gives the leader clients: the one `findEndpoint`
found, or the one given when it found `""`. -/
def leaderEndpoint (endpoint : Bytes) (servers : Except Error (List ProtoServer)) (intn : ℕ → ℕ) :
    Except Error Bytes :=
  match findEndpoint servers intn with
  | .ok found => .ok (if found = [] then endpoint else found)
  | .error err => .error err

def advertised (servers : List ProtoServer) : List ProtoServer :=
  servers.filter fun server => server.rpcAddress ≠ []

theorem foldl_advertise (servers : List ProtoServer) (acc : List (Option ProtoServer)) :
    servers.foldl (fun acc server => if getRpcAddress (some server) ≠ [] then acc++[some server] else acc) acc =
      acc++(advertised servers).map some := by
  induction servers generalizing acc with
  | nil => simp [advertised]
  | cons server servers ih =>
    rw [List.foldl_cons, ih]
    by_cases h : server.rpcAddress = [] <;> simp [getRpcAddress, advertised, h]

theorem advertisedServers_eq (servers : List ProtoServer) :
    advertisedServers servers = List.replicate servers.length none++(advertised servers).map some :=
  foldl_advertise servers _

theorem length_advertisedServers (servers : List ProtoServer) :
    (advertisedServers servers).length = servers.length+(advertised servers).length := by
  simp [advertisedServers_eq]

theorem find_advertisedServers (servers : List ProtoServer) :
    (advertisedServers servers).find? getIsLeader = ((advertised servers).find? (·.isLeader)).map some := by
  simp [advertisedServers_eq, List.find?_append, List.find?_map, getIsLeader, Function.comp_def]

theorem getElem_advertisedServers (servers : List ProtoServer) (i : ℕ) :
    (advertisedServers servers)[i]? =
      if i < servers.length then some none else ((advertised servers)[i-servers.length]?).map some := by
  rw [advertisedServers_eq, List.getElem?_append, List.length_replicate]
  by_cases h : i < servers.length
  · simp [h]
  · simp [h, List.getElem?_map]

theorem find_advertised (servers : List ProtoServer) :
    (advertised servers).find? (·.isLeader) =
      servers.find? (fun server => server.isLeader && server.rpcAddress ≠ []) := by
  simp [advertised, List.find?_filter, and_comm]

theorem findEndpoint_ok (servers : List ProtoServer) (intn : ℕ → ℕ) (hne : servers ≠ []) :
    findEndpoint (.ok servers) intn =
      match (advertised servers).find? (·.isLeader) with
      | some server => .ok server.rpcAddress
      | none =>
        match (advertisedServers servers)[intn (servers.length+(advertised servers).length)]? with
        | some server => .ok (getRpcAddress server)
        | none => .error (.panic (.new "index out of range")) := by
  have hlen : servers.length ≠ 0 := by simpa using hne
  have hcand : (advertisedServers servers).length ≠ 0 := by
    rw [length_advertisedServers]
    omega
  rw [findEndpoint, if_neg hlen, if_neg hcand, find_advertisedServers, ← length_advertisedServers]
  cases (advertised servers).find? (·.isLeader) <;> rfl

theorem findEndpoint_of_no_leader (servers : List ProtoServer) (intn : ℕ → ℕ) (hne : servers ≠ [])
    (hleader : ∀ server ∈ servers, server.rpcAddress ≠ [] → server.isLeader = false) :
    findEndpoint (.ok servers) intn =
      match (advertisedServers servers)[intn (servers.length+(advertised servers).length)]? with
      | some server => .ok (getRpcAddress server)
      | none => .error (.panic (.new "index out of range")) := by
  have hnone : (advertised servers).find? (·.isLeader) = none := by
    rw [List.find?_eq_none]
    intro server hs
    obtain ⟨hmem, hrpc⟩ := List.mem_filter.mp hs
    simpa using hleader server hmem (of_decide_eq_true hrpc)
  rw [findEndpoint_ok servers intn hne, hnone]

/-- Whatever `rand.Intn` draws, `findEndpoint` returns the RPC address of the
first server marked leader among those with one. -/
theorem findEndpoint_leader (S : List ProtoServer) (s : ProtoServer)
    (h : S.find? (fun server => server.isLeader && server.rpcAddress ≠ []) = some s) (intn : ℕ → ℕ) :
    findEndpoint (.ok S) intn = .ok s.rpcAddress := by
  have hne : S ≠ [] := by
    rintro rfl
    simp at h
  rw [findEndpoint_ok S intn hne, find_advertised, h]

theorem findEndpoint_leader_one_node :
    [(⟨[110, 48], [114, 48], [97], true⟩ : ProtoServer)].find?
        (fun server => server.isLeader && server.rpcAddress ≠ []) = some ⟨[110, 48], [114, 48], [97], true⟩ ∧
      findEndpoint (.ok [⟨[110, 48], [114, 48], [97], true⟩]) (fun _ => 0) = .ok [97] := by
  have h : [(⟨[110, 48], [114, 48], [97], true⟩ : ProtoServer)].find?
      (fun server => server.isLeader && server.rpcAddress ≠ []) = some ⟨[110, 48], [114, 48], [97], true⟩ := by
    decide
  exact ⟨h, findEndpoint_leader _ _ h _⟩

/-- With no advertised leader, a draw of `rand.Intn` below `len(S)` falls on a
nil candidate, and `findEndpoint` returns `""`, whatever servers advertise an
RPC address. -/
theorem findEndpoint_draws_placeholder (S : List ProtoServer) (intn : ℕ → ℕ)
    (hleader : ∀ s ∈ S, s.rpcAddress ≠ [] → s.isLeader = false)
    (hdraw : intn (S.length+(advertised S).length) < S.length) :
    findEndpoint (.ok S) intn = .ok [] := by
  have hne : S ≠ [] := by
    rintro rfl
    simp at hdraw
  rw [findEndpoint_of_no_leader S intn hne hleader, getElem_advertisedServers, if_pos hdraw]
  rfl

theorem findEndpoint_draws_placeholder_one_node :
    let S : List ProtoServer := [⟨[110, 48], [114, 48], [97], false⟩]
    getServers listRaft (fun _ => ([], [])) ((∅ : GoMap).insert [110, 48] [97])
        [⟨.voter, [110, 48], [114, 48]⟩] = .ok S ∧
      (∀ s ∈ S, s.rpcAddress ≠ [] → s.isLeader = false) ∧
      (fun _ => 0 : ℕ → ℕ) (S.length+(advertised S).length) < S.length ∧
      (∃ s ∈ S, s.rpcAddress ≠ []) ∧ findEndpoint (.ok S) (fun _ => 0) = .ok [] := by
  intro S
  have hleader : ∀ s ∈ S, s.rpcAddress ≠ [] → s.isLeader = false := by decide
  have hdraw : (fun _ => 0 : ℕ → ℕ) (S.length+(advertised S).length) < S.length := by decide
  exact ⟨rfl, hleader, hdraw, by decide, findEndpoint_draws_placeholder S _ hleader hdraw⟩

/-- With no advertised leader and a draw of `rand.Intn` below its bound,
`findEndpoint` returns `""` for a draw among the `len(S)` nil candidates, and
the RPC address of the advertised server drawn otherwise. -/
theorem findEndpoint_no_leader (S : List ProtoServer) (intn : ℕ → ℕ)
    (hleader : ∀ s ∈ S, s.rpcAddress ≠ [] → s.isLeader = false)
    (hintn : intn (S.length+(advertised S).length) < S.length+(advertised S).length) :
    findEndpoint (.ok S) intn =
      .ok (if intn (S.length+(advertised S).length) < S.length then []
        else getRpcAddress (advertised S)[intn (S.length+(advertised S).length)-S.length]?) := by
  have hne : S ≠ [] := by
    rintro rfl
    simp [advertised] at hintn
  rw [findEndpoint_of_no_leader S intn hne hleader, getElem_advertisedServers]
  split_ifs with hdraw
  · rfl
  · -- the draw lands past the nil candidates, on an advertised server
    have hlt : intn (S.length+(advertised S).length)-S.length < (advertised S).length := by omega
    rw [List.getElem?_eq_getElem hlt]
    rfl

theorem findEndpoint_no_leader_one_node :
    let S : List ProtoServer := [⟨[110, 48], [114, 48], [97], false⟩]
    (∀ s ∈ S, s.rpcAddress ≠ [] → s.isLeader = false) ∧
      (fun _ => 1 : ℕ → ℕ) (S.length+(advertised S).length) < S.length+(advertised S).length ∧
      findEndpoint (.ok S) (fun _ => 1) =
        .ok (if (fun _ => 1 : ℕ → ℕ) (S.length+(advertised S).length) < S.length then []
          else getRpcAddress (advertised S)[(fun _ => 1 : ℕ → ℕ) (S.length+(advertised S).length)-S.length]?) := by
  intro S
  have hleader : ∀ s ∈ S, s.rpcAddress ≠ [] → s.isLeader = false := by decide
  have hintn : (fun _ => 1 : ℕ → ℕ) (S.length+(advertised S).length) < S.length+(advertised S).length := by
    decide
  exact ⟨hleader, hintn, findEndpoint_no_leader S _ hleader hintn⟩

def protoServer (advertiseNodes : GoMap) (leaderAddr : ServerAddress) (leaderID : ServerID) (node : Server) :
    ProtoServer :=
  { id := node.id
    raftAddress := node.address
    rpcAddress := (advertiseNodes.lookup node.id).getD []
    isLeader := node.id == leaderID && node.address == leaderAddr }

theorem getServers_ok {ρ : Type} {rf : Raft ρ} {leaderWithID : ρ → ServerAddress × ServerID}
    {advertiseNodes : GoMap} {r : ρ} {srvs : Configuration} {leaderAddr : ServerAddress} {leaderID : ServerID}
    (hconf : rf.getConfiguration r = .ok srvs) (hlead : leaderWithID r = (leaderAddr, leaderID)) :
    getServers rf leaderWithID advertiseNodes r = .ok (srvs.map (protoServer advertiseNodes leaderAddr leaderID)) := by
  rw [getServers, hconf, hlead]
  rfl

section Leader

variable {advertiseNodes : GoMap} {leaderAddr : ServerAddress} {leaderID : ServerID} {a : Bytes}

theorem rpcAddress_of_isLeader (ha : advertiseNodes.lookup leaderID = some a) (node : Server)
    (hl : (protoServer advertiseNodes leaderAddr leaderID node).isLeader = true) :
    (protoServer advertiseNodes leaderAddr leaderID node).rpcAddress = a := by
  simp only [protoServer, Bool.and_eq_true, beq_iff_eq] at hl ⊢
  rw [hl.1, ha, Option.getD_some]

theorem find_getServers_leader {srvs : Configuration} {sf : Suffrage} (hmem : ⟨sf, leaderID, leaderAddr⟩ ∈ srvs)
    (ha : advertiseNodes.lookup leaderID = some a) (hne : a ≠ []) :
    ∃ s, (srvs.map (protoServer advertiseNodes leaderAddr leaderID)).find?
        (fun server => server.isLeader && server.rpcAddress ≠ []) = some s ∧ s.rpcAddress = a := by
  -- the leader's own message is a candidate, so the search finds one
  obtain ⟨s, hs⟩ : ∃ s, (srvs.map (protoServer advertiseNodes leaderAddr leaderID)).find?
      (fun server => server.isLeader && server.rpcAddress ≠ []) = some s := by
    apply Option.isSome_iff_exists.mp
    rw [List.find?_isSome]
    refine ⟨_, List.mem_map_of_mem hmem, ?_⟩
    simp [protoServer, ha, hne]
  -- and whichever it finds is marked leader
  have hp := List.find?_some hs
  simp only [Bool.and_eq_true] at hp
  obtain ⟨node, -, rfl⟩ := List.mem_map.mp (List.mem_of_find?_eq_some hs)
  exact ⟨_, hs, rpcAddress_of_isLeader ha node hp.1⟩

end Leader

/-- When raft reports a leader that the configuration holds and that
advertises an RPC address `a`, `Before` connects the leader clients to `a`,
whatever `rand.Intn` draws. -/
theorem leaderEndpoint_getServers {ρ : Type} (rf : Raft ρ) (leaderWithID : ρ → ServerAddress × ServerID)
    (advertiseNodes : GoMap) (r : ρ) (srvs : Configuration) (leaderAddr : ServerAddress) (leaderID : ServerID)
    (hconf : rf.getConfiguration r = .ok srvs) (hlead : leaderWithID r = (leaderAddr, leaderID))
    (sf : Suffrage) (hmem : ⟨sf, leaderID, leaderAddr⟩ ∈ srvs)
    (a : Bytes) (ha : advertiseNodes.lookup leaderID = some a) (hne : a ≠ [])
    (endpoint : Bytes) (intn : ℕ → ℕ) :
    leaderEndpoint endpoint (getServers rf leaderWithID advertiseNodes r) intn = .ok a := by
  obtain ⟨s, hs, hsa⟩ := find_getServers_leader hmem ha hne
  have hSne : srvs.map (protoServer advertiseNodes leaderAddr leaderID) ≠ [] :=
    List.ne_nil_of_mem (List.mem_of_find?_eq_some hs)
  rw [getServers_ok hconf hlead, leaderEndpoint, findEndpoint_ok _ intn hSne, find_advertised, hs]
  simp [hsa, hne]

theorem leaderEndpoint_getServers_one_node :
    let ad : GoMap := (∅ : GoMap).insert [110, 48] [97]
    listRaft.getConfiguration [⟨.voter, [110, 48], [114, 48]⟩] = .ok [⟨.voter, [110, 48], [114, 48]⟩] ∧
      (fun _ => ([114, 48], [110, 48]) : Configuration → ServerAddress × ServerID) [⟨.voter, [110, 48], [114, 48]⟩] =
        ([114, 48], [110, 48]) ∧
      (⟨.voter, [110, 48], [114, 48]⟩ : Server) ∈ [(⟨.voter, [110, 48], [114, 48]⟩ : Server)] ∧
      ad.lookup [110, 48] = some [97] ∧ ([97] : Bytes) ≠ [] ∧
      leaderEndpoint [104] (getServers listRaft (fun _ => ([114, 48], [110, 48])) ad
        [⟨.voter, [110, 48], [114, 48]⟩]) (fun _ => 0) = .ok [97] := by
  intro ad
  have hmem : (⟨.voter, [110, 48], [114, 48]⟩ : Server) ∈ [(⟨.voter, [110, 48], [114, 48]⟩ : Server)] :=
    List.mem_singleton_self _
  have ha : ad.lookup [110, 48] = some [97] := by decide
  have hne : ([97] : Bytes) ≠ [] := by decide
  exact ⟨rfl, rfl, hmem, ha, hne,
    leaderEndpoint_getServers listRaft _ ad _ _ _ _ rfl rfl .voter hmem _ ha hne _ _⟩

end DistributedKv.LeaderDiscovery
