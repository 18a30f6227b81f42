import DistributedKv.LeaderDiscovery
import DistributedKv.Bootstrap
import DistributedKv.GoStrings
import DistributedKv.Overwrite

/-!
# The `--initial-cluster` and `--advertise-nodes` flags

`bootstrapDStore` reads `--initial-cluster` as `id=addr` entries, cut at the
first `=`: the ID of the first entry is the node that bootstraps a new
cluster, and every entry is assigned to `advertizedPeers`, which gives the
node its advertised raft address and the join ticker its peers. An empty
list, or an entry without `=`, is refused. `Action` reads `--advertise-nodes`
the same way into the RPC addresses `GetServers` reports, but skips an entry
without `=`.

Entries written as `id=addr` with no `=` in an ID come back from the parse,
each ID with the address of its last entry. On a list both accept, the two
loops build the same map.
-/

set_option autoImplicit false

namespace DistributedKv.InitialCluster

open DistributedKv.BigEndian DistributedKv.Types DistributedKv.Fsm DistributedKv.Membership DistributedKv.LeaderDiscovery
  DistributedKv.GoStrings DistributedKv.Bootstrap

/-- The errors `bootstrapDStore` returns before it opens the store, each with
the value its `fmt.Errorf` formats. -/
inductive ConfigError where
  | noNodes (nodes : List Bytes)
  | invalidCluster (nodes : List Bytes)
  | invalidNode (node : Bytes)
  deriving DecidableEq, Repr

def advertizedPeersLoop : GoMap → List Bytes → Except ConfigError GoMap
  | advertizedPeers, [] => .ok advertizedPeers
  | advertizedPeers, node::nodes =>
    match cut 61 node with
    | (id, addr, true) => advertizedPeersLoop (advertizedPeers.insert id addr) nodes
    | (_, _, false) => .error (.invalidNode node)

/-- What `bootstrapDStore` configures once the flags parse: the raft address
`NewStore` advertises for the node (`""` for a name with no entry), the
argument of `Open`, and the peers the join ticker ranges over. -/
structure Bootstrapped where
  raftAdvertisedAddr : ServerAddress
  bootstrap : Bool
  advertizedPeers : GoMap

/-- `bootstrapDStore` up to `Open`, given the values of `--initial-cluster`,
`--initial-cluster-state` and `--name`. -/
def bootstrapDStore (nodes : List Bytes) (initialClusterState : Bytes) (name : ServerID) :
    Except ConfigError Bootstrapped :=
  match nodes with
  | [] => .error (.noNodes nodes)
  | node::_ =>
    match cut 61 node with
    | (_, _, false) => .error (.invalidCluster nodes)
    | (bootstrapNode, _, true) =>
      match advertizedPeersLoop ∅ nodes with
      | .error err => .error err
      | .ok advertizedPeers =>
        .ok { raftAdvertisedAddr := (advertizedPeers.lookup name).getD []
              bootstrap := initialClusterState == [110, 101, 119] && bootstrapNode == name
              advertizedPeers }

/-- The loop of `Action` that fills the RPC addresses of `--advertise-nodes`. -/
def advertiseNodesLoop : GoMap → List Bytes → GoMap
  | nodes, [] => nodes
  | nodes, node::rest =>
    match cut 61 node with
    | (id, addr, true) => advertiseNodesLoop (nodes.insert id addr) rest
    | (_, _, false) => advertiseNodesLoop nodes rest

def advertiseNodesMap (advertiseNodes : List Bytes) : GoMap := advertiseNodesLoop ∅ advertiseNodes

def entry (node : Bytes) : ServerID × ServerAddress := ((cut 61 node).1, (cut 61 node).2.1)

def assign (m : GoMap) (entries : List (ServerID × ServerAddress)) : GoMap :=
  entries.foldl (fun m p => m.insert p.1 p.2) m

def writes (entries : List (ServerID × ServerAddress)) : List (ServerID × Option ServerAddress) :=
  entries.map fun p => (p.1, some p.2)

theorem lookup_assign (entries : List (ServerID × ServerAddress)) (k : ServerID) :
    (assign ∅ entries).lookup k = Overwrite.replay (fun _ => none) (writes entries) k :=
  Overwrite.lookup_foldl_insert ∅ entries k

theorem cut_eq_entry {node : Bytes} (h : 61 ∈ node) : cut 61 node = ((entry node).1, (entry node).2, true) := by
  obtain ⟨_, _, _, _, hcut⟩ := cut_of_mem h
  simp [entry, hcut]

theorem cut_of_invalid {node : Bytes} (h : 61 ∉ node) : cut 61 node = (node, [], false) := cut_of_not_mem h

theorem advertizedPeersLoop_of_valid (m : GoMap) {nodes : List Bytes} (h : ∀ node ∈ nodes, 61 ∈ node) :
    advertizedPeersLoop m nodes = .ok (assign m (nodes.map entry)) := by
  induction nodes generalizing m with
  | nil => rfl
  | cons node nodes ih =>
    rw [advertizedPeersLoop, cut_eq_entry (h node List.mem_cons_self)]
    exact ih _ fun n hn => h n (List.mem_cons_of_mem node hn)

theorem advertizedPeersLoop_of_invalid (m : GoMap) {nodes : List Bytes} (h : ∃ node ∈ nodes, 61 ∉ node) :
    ∃ node, 61 ∉ node ∧ advertizedPeersLoop m nodes = .error (.invalidNode node) := by
  induction nodes generalizing m with
  | nil => simp at h
  | cons node nodes ih =>
    by_cases hn : 61 ∈ node
    · obtain ⟨bad, hbad, hbadn⟩ := h
      rcases List.mem_cons.mp hbad with rfl | hbad
      · exact absurd hn hbadn
      rw [advertizedPeersLoop, cut_eq_entry hn]
      exact ih _ ⟨bad, hbad, hbadn⟩
    · rw [advertizedPeersLoop, cut_of_invalid hn]
      exact ⟨node, hn, rfl⟩

theorem advertiseNodesLoop_eq (m : GoMap) (nodes : List Bytes) :
    advertiseNodesLoop m nodes = assign m ((nodes.filter fun node => 61 ∈ node).map entry) := by
  induction nodes generalizing m with
  | nil => rfl
  | cons node nodes ih =>
    by_cases hn : 61 ∈ node
    · rw [advertiseNodesLoop, cut_eq_entry hn]
      simp only [ih, List.filter_cons, hn, decide_true, if_true, List.map_cons]
      rfl
    · rw [advertiseNodesLoop, cut_of_invalid hn]
      simp only [ih, List.filter_cons, hn, decide_false, Bool.false_eq_true, if_false]

theorem bootstrapDStore_of_valid {node : Bytes} {nodes : List Bytes} (h : ∀ n ∈ node::nodes, 61 ∈ n)
    (initialClusterState : Bytes) (name : ServerID) :
    bootstrapDStore (node::nodes) initialClusterState name =
      .ok { raftAdvertisedAddr := ((assign ∅ ((node::nodes).map entry)).lookup name).getD []
            bootstrap := initialClusterState == [110, 101, 119] && (entry node).1 == name
            advertizedPeers := assign ∅ ((node::nodes).map entry) } := by
  rw [bootstrapDStore, cut_eq_entry (h node List.mem_cons_self)]
  simp only [advertizedPeersLoop_of_valid ∅ h]

theorem entry_render {p : ServerID × ServerAddress} (hp : 61 ∉ p.1) : entry (p.1++61::p.2) = p := by
  simp [entry, cut_append 61 hp]

theorem bootstrapDStore_render (p : ServerID × ServerAddress) (ps : List (ServerID × ServerAddress))
    (hid : ∀ q ∈ p::ps, 61 ∉ q.1) (initialClusterState : Bytes) (name : ServerID) :
    bootstrapDStore ((p::ps).map fun q => q.1++61::q.2) initialClusterState name =
      .ok { raftAdvertisedAddr := ((assign ∅ (p::ps)).lookup name).getD []
            bootstrap := initialClusterState == [110, 101, 119] && p.1 == name
            advertizedPeers := assign ∅ (p::ps) } := by
  -- rendering then cutting every entry gives the entries back
  have hentries : ((p.1++61::p.2)::ps.map fun q => q.1++61::q.2).map entry = p::ps := by
    show ((p::ps).map fun q => q.1++61::q.2).map entry = p::ps
    rw [List.map_map]
    exact List.map_congr_left (fun q hq => entry_render (hid q hq)) |>.trans (List.map_id _)
  have hvalid : ∀ n ∈ (p.1++61::p.2)::ps.map (fun q => q.1++61::q.2), 61 ∈ n := by
    intro n hn
    rcases List.mem_cons.mp hn with rfl | hn
    · exact List.mem_append_right _ List.mem_cons_self
    · obtain ⟨q, -, rfl⟩ := List.mem_map.mp hn
      exact List.mem_append_right _ List.mem_cons_self
  rw [List.map_cons, bootstrapDStore_of_valid hvalid, hentries, entry_render (hid p List.mem_cons_self)]

/-- Entries written as `id=addr`, with no `=` in an ID, come back from the
parse: each ID has the address of its last entry, the node's own raft
address is the one of its last entry, and only the first ID bootstraps a
new cluster. -/
theorem bootstrapDStore_round_trip (ps : List (ServerID × ServerAddress)) (hps : ps ≠ [])
    (hid : ∀ p ∈ ps, 61 ∉ p.1) (initialClusterState : Bytes) (name : ServerID) :
    ∃ cfg, bootstrapDStore (ps.map fun p => p.1++61::p.2) initialClusterState name = .ok cfg ∧
      (∀ id, cfg.advertizedPeers.lookup id = Overwrite.replay (fun _ => none) (writes ps) id) ∧
      cfg.raftAdvertisedAddr = (Overwrite.replay (fun _ => none) (writes ps) name).getD [] ∧
      (cfg.bootstrap = true ↔ initialClusterState = [110, 101, 119] ∧ name = (ps.head hps).1) := by
  obtain ⟨p, ps', rfl⟩ := List.exists_cons_of_ne_nil hps
  refine ⟨_, bootstrapDStore_render p ps' hid initialClusterState name, fun id => lookup_assign _ id, ?_, ?_⟩
  · show ((assign ∅ (p::ps')).lookup name).getD [] = _
    rw [lookup_assign]
  · simp only [Bool.and_eq_true, beq_iff_eq, List.head_cons]
    exact and_congr Iff.rfl eq_comm

theorem bootstrapDStore_round_trip_three_nodes :
    let ps : List (ServerID × ServerAddress) := [([110, 48], [97, 48]), ([110, 49], [97, 49]), ([110, 48], [97, 50])]
    (∀ p ∈ ps, 61 ∉ p.1) ∧
      ∃ cfg, bootstrapDStore (ps.map fun p => p.1++61::p.2) [110, 101, 119] [110, 48] = .ok cfg ∧
        (∀ id, cfg.advertizedPeers.lookup id = Overwrite.replay (fun _ => none) (writes ps) id) ∧
        cfg.raftAdvertisedAddr = (Overwrite.replay (fun _ => none) (writes ps) [110, 48]).getD [] ∧
        (cfg.bootstrap = true ↔
          ([110, 101, 119] : Bytes) = [110, 101, 119] ∧ [110, 48] = (ps.head (List.cons_ne_nil _ _)).1) := by
  intro ps
  have hid : ∀ p ∈ ps, 61 ∉ p.1 := by decide
  exact ⟨hid, bootstrapDStore_round_trip ps (List.cons_ne_nil _ _) hid [110, 101, 119] [110, 48]⟩

theorem valid_of_bootstrapDStore_ok {nodes : List Bytes} {initialClusterState : Bytes} {name : ServerID}
    {cfg : Bootstrapped} (h : bootstrapDStore nodes initialClusterState name = .ok cfg) :
    nodes ≠ [] ∧ ∀ node ∈ nodes, 61 ∈ node := by
  cases nodes with
  | nil => simp [bootstrapDStore] at h
  | cons node nodes =>
    refine ⟨List.cons_ne_nil _ _, ?_⟩
    by_contra hinv
    push Not at hinv
    -- the first entry is checked on its own before the loop checks them all
    by_cases hn : 61 ∈ node
    · obtain ⟨bad, -, hbad⟩ := advertizedPeersLoop_of_invalid ∅ hinv
      simp [bootstrapDStore, cut_eq_entry hn, hbad] at h
    · simp [bootstrapDStore, cut_of_invalid hn] at h

/-- The two loops differ on an entry without `=` alone: `bootstrapDStore`
refuses the list, `Action` skips the entry. A list `bootstrapDStore`
accepts is one with an entry and `=` in each, and on it the two build the
same map. -/
theorem initialCluster_refuses_what_advertiseNodes_skips (nodes : List Bytes) (initialClusterState : Bytes)
    (name : ServerID) :
    ((∃ cfg, bootstrapDStore nodes initialClusterState name = .ok cfg) ↔ nodes ≠ [] ∧ ∀ node ∈ nodes, 61 ∈ node) ∧
      (∀ cfg, bootstrapDStore nodes initialClusterState name = .ok cfg → cfg.advertizedPeers = advertiseNodesMap nodes) ∧
      advertiseNodesMap nodes = advertiseNodesMap (nodes.filter fun node => 61 ∈ node) := by
  refine ⟨⟨fun ⟨_, hcfg⟩ => valid_of_bootstrapDStore_ok hcfg, ?_⟩, ?_, ?_⟩
  · rintro ⟨hne, hvalid⟩
    obtain ⟨node, nodes, rfl⟩ := List.exists_cons_of_ne_nil hne
    exact ⟨_, bootstrapDStore_of_valid hvalid initialClusterState name⟩
  · intro cfg hcfg
    obtain ⟨hne, hvalid⟩ := valid_of_bootstrapDStore_ok hcfg
    obtain ⟨node, nodes, rfl⟩ := List.exists_cons_of_ne_nil hne
    rw [bootstrapDStore_of_valid hvalid, Except.ok.injEq] at hcfg
    -- every entry holds `=`, so `Action`'s filter keeps them all
    rw [← hcfg, advertiseNodesMap, advertiseNodesLoop_eq,
      List.filter_eq_self.mpr fun n hn => decide_eq_true (hvalid n hn)]
  · rw [advertiseNodesMap, advertiseNodesMap, advertiseNodesLoop_eq, advertiseNodesLoop_eq, List.filter_filter]
    simp only [Bool.and_self]

/-- `GetServers` reports for each server of the configuration the RPC
address of the last `--advertise-nodes` entry of its ID that holds `=`, and
`""` for an ID with none. -/
theorem getServers_rpcAddress_advertised {ρ : Type} {rf : Raft ρ} {leaderWithID : ρ → ServerAddress × ServerID}
    {r : ρ} {srvs : Configuration} (hconf : rf.getConfiguration r = .ok srvs) (advertiseNodes : List Bytes) :
    ∃ servers, getServers rf leaderWithID (advertiseNodesMap advertiseNodes) r = .ok servers ∧
      servers.map ProtoServer.rpcAddress = srvs.map fun s =>
        (Overwrite.replay (fun _ => none) (writes ((advertiseNodes.filter fun node => 61 ∈ node).map entry)) s.id).getD [] := by
  refine ⟨_, getServers_ok hconf rfl, ?_⟩
  rw [List.map_map]
  refine List.map_congr_left fun s _ => ?_
  simp only [Function.comp_apply, protoServer, advertiseNodesMap, advertiseNodesLoop_eq, lookup_assign]

theorem getServers_rpcAddress_advertised_listRaft :
    let c : Configuration := [⟨.voter, [110, 48], [97, 48]⟩, ⟨.voter, [110, 49], [97, 49]⟩]
    let advertiseNodes : List Bytes := [[110, 48, 61, 114, 48], [98], [110, 48, 61, 114, 49]]
    listRaft.getConfiguration c = .ok c ∧
      ∃ servers, getServers listRaft (fun _ => ([97, 48], [110, 48])) (advertiseNodesMap advertiseNodes) c = .ok servers ∧
        servers.map ProtoServer.rpcAddress = c.map fun s =>
          (Overwrite.replay (fun _ => none) (writes ((advertiseNodes.filter fun node => 61 ∈ node).map entry)) s.id).getD [] := by
  intro c advertiseNodes
  have hconf : listRaft.getConfiguration c = .ok c := rfl
  exact ⟨hconf, getServers_rpcAddress_advertised hconf advertiseNodes⟩

/-- The configuration `Open` bootstraps: the node alone, a voter at the
address of its transport. -/
def bootstrapConfiguration (localID : ServerID) (localAddr : ServerAddress) : Configuration :=
  [⟨.voter, localID, localAddr⟩]

theorem lookup_assign_of_mem {ps : List (ServerID × ServerAddress)} (hids : (ps.map Prod.fst).Nodup)
    {p : ServerID × ServerAddress} (hp : p ∈ ps) : (assign ∅ ps).lookup p.1 = some p.2 := by
  rw [lookup_assign, Overwrite.replay_apply]
  obtain ⟨x, hx⟩ : ∃ x, Overwrite.lastWrite (writes ps) p.1 = some x :=
    Option.isSome_iff_exists.mp ((Overwrite.lastWrite_isSome_iff _ _).mpr ⟨(p.1, some p.2), List.mem_map_of_mem hp, rfl⟩)
  obtain ⟨q, hq, hqx⟩ := List.mem_map.mp (Overwrite.mem_of_lastWrite_eq_some hx)
  -- the last write to the ID is an entry with that ID, so `p` itself
  have hqp : q = p := List.inj_on_of_nodup_map hids hq hp (Prod.mk.inj hqx).1
  simp only [hx, Option.getD_some]
  rw [← (Prod.mk.inj hqx).2, hqp]

theorem mem_of_mem_pairs_assign {ps : List (ServerID × ServerAddress)} {k v : Bytes}
    (h : (k, v) ∈ GoMap.pairs (assign ∅ ps)) : (k, v) ∈ ps := by
  rw [GoMap.mem_pairs, lookup_assign] at h
  rcases Overwrite.replay_eq_some h with h | h
  · exact absurd h (by simp)
  · obtain ⟨q, hq, hqkv⟩ := List.mem_map.mp h
    obtain ⟨rfl, hv⟩ := Prod.mk.inj hqkv
    rw [← Option.some.inj hv]
    exact hq

theorem nodup_addresses_assign {ps : List (ServerID × ServerAddress)} (haddrs : (ps.map Prod.snd).Nodup) :
    ((GoMap.pairs (assign ∅ ps)).map Prod.snd).Nodup := by
  have hnodup : (GoMap.pairs (assign ∅ ps)).Nodup :=
    (GoMap.pairs_pairwise _).imp fun h he => h (congrArg Prod.fst he)
  refine hnodup.map_on fun x hx y hy hxy => ?_
  exact List.inj_on_of_nodup_map haddrs (mem_of_mem_pairs_assign hx) (mem_of_mem_pairs_assign hy) hxy

/-- A new cluster forms in one tick on hashicorp/raft. Every node is started
with the same `--initial-cluster`, written from entries with IDs and addresses,
distinct IDs and distinct addresses; the first entry's node bootstraps alone
at the address of its transport, and once raft reports it as leader, its first
tick, in whatever order the range takes, keeps the configuration checked and
joins every other entry as a voter at its advertised address. -/
theorem new_cluster_joins_every_peer {ρ : Type} {rf : Raft ρ} {config : ρ → Configuration} (hrf : rf.Checking config)
    (p : ServerID × ServerAddress) (ps : List (ServerID × ServerAddress)) (hid : ∀ q ∈ p::ps, 61 ∉ q.1)
    (hids : ((p::ps).map Prod.fst).Nodup) (haddrs : ((p::ps).map Prod.snd).Nodup) (hname : p.1 ≠ [])
    (hnamed : ∀ q ∈ ps, q.1 ≠ [] ∧ q.2 ≠ []) {localAddr : ServerAddress} (hlocalAddr : localAddr ≠ [])
    (hlocal : ∀ q ∈ ps, q.2 ≠ localAddr) {cfg : Bootstrapped}
    (hcfg : bootstrapDStore ((p::ps).map fun q => q.1++61::q.2) [110, 101, 119] p.1 = .ok cfg) {r : ρ}
    (hr : config r = bootstrapConfiguration p.1 localAddr) {leaderAddr : ServerAddress} (hleader : leaderAddr ≠ [])
    {order : List (ServerID × ServerAddress)} (horder : order.Perm (GoMap.pairs cfg.advertizedPeers)) :
    cfg.bootstrap = true ∧ Checked (config (joinTick rf p.1 (leaderAddr, p.1) order r)) ∧
      ⟨.voter, p.1, localAddr⟩ ∈ config (joinTick rf p.1 (leaderAddr, p.1) order r) ∧
      ∀ q ∈ ps, ⟨.voter, q.1, q.2⟩ ∈ config (joinTick rf p.1 (leaderAddr, p.1) order r) := by
  rw [bootstrapDStore_render p ps hid, Except.ok.injEq] at hcfg
  subst hcfg
  have hc : Checked (config r) := by
    rw [hr]
    exact ⟨by simp [bootstrapConfiguration, hname, hlocalAddr], by simp [Distinct, bootstrapConfiguration],
      ⟨_, List.mem_singleton_self _, rfl⟩⟩
  have htick := joinTick_of_leader_checked hrf p.1 hleader (nodup_ids_of_perm horder) r hc
  refine ⟨by simp, checked_joinTick hrf p.1 _ order r hc, ?_, fun q hq => ?_⟩
  · rw [htick]
    exact (Greedy.prefix_foldl _ _).subset (by simp [hr, bootstrapConfiguration])
  -- every other entry is in the pass, and the bootstrap configuration knows
  -- neither its ID nor its address
  have hqne : q.1 ≠ p.1 := fun h => (List.nodup_cons.mp hids).1 (h ▸ List.mem_map_of_mem hq)
  have hq' : q ∈ order :=
    horder.symm.subset (GoMap.mem_pairs.mpr (lookup_assign_of_mem hids (List.mem_cons_of_mem p hq)))
  have hfree : ¬Covered (config r) q := by
    rintro ⟨s, hs, hsq⟩
    rw [hr, bootstrapConfiguration, List.mem_singleton] at hs
    subst hs
    rcases hsq with h | h
    · exact hqne h.symm
    · exact hlocal q hq h.symm
  rw [htick]
  exact voterOf_mem_joinPass_named (nodup_ids_of_perm horder)
    ((horder.map Prod.snd).nodup_iff.mpr (nodup_addresses_assign haddrs)) hq' (hnamed q hq) hqne hfree

theorem new_cluster_joins_every_peer_checkedRaft :
    let p : ServerID × ServerAddress := ([110, 48], [97, 48])
    let ps : List (ServerID × ServerAddress) := [([110, 49], [97, 49]), ([110, 50], [97, 50])]
    let localAddr : ServerAddress := [58, 50, 51, 56, 48]
    let cfg : Bootstrapped :=
      { raftAdvertisedAddr := ((assign ∅ (p::ps)).lookup p.1).getD []
        bootstrap := ([110, 101, 119] : Bytes) == [110, 101, 119] && p.1 == p.1
        advertizedPeers := assign ∅ (p::ps) }
    (∀ q ∈ p::ps, 61 ∉ q.1) ∧ ((p::ps).map Prod.fst).Nodup ∧ ((p::ps).map Prod.snd).Nodup ∧ p.1 ≠ [] ∧
      (∀ q ∈ ps, q.1 ≠ [] ∧ q.2 ≠ []) ∧ localAddr ≠ [] ∧ (∀ q ∈ ps, q.2 ≠ localAddr) ∧
      bootstrapDStore ((p::ps).map fun q => q.1++61::q.2) [110, 101, 119] p.1 = .ok cfg ∧
      ([97, 48] : ServerAddress) ≠ [] ∧
      cfg.bootstrap = true ∧
      Checked (joinTick checkedRaft p.1 ([97, 48], p.1) (GoMap.pairs cfg.advertizedPeers)
        (bootstrapConfiguration p.1 localAddr)) ∧
      ⟨.voter, p.1, localAddr⟩ ∈
        joinTick checkedRaft p.1 ([97, 48], p.1) (GoMap.pairs cfg.advertizedPeers) (bootstrapConfiguration p.1 localAddr) ∧
      ∀ q ∈ ps, ⟨.voter, q.1, q.2⟩ ∈
        joinTick checkedRaft p.1 ([97, 48], p.1) (GoMap.pairs cfg.advertizedPeers) (bootstrapConfiguration p.1 localAddr) := by
  intro p ps localAddr cfg
  have hid : ∀ q ∈ p::ps, 61 ∉ q.1 := by decide
  have hids : ((p::ps).map Prod.fst).Nodup := by decide
  have haddrs : ((p::ps).map Prod.snd).Nodup := by decide
  have hname : p.1 ≠ [] := by decide
  have hnamed : ∀ q ∈ ps, q.1 ≠ [] ∧ q.2 ≠ [] := by decide
  have hlocalAddr : localAddr ≠ [] := by decide
  have hlocal : ∀ q ∈ ps, q.2 ≠ localAddr := by decide
  have hcfg := bootstrapDStore_render p ps hid [110, 101, 119] p.1
  have hleader : ([97, 48] : ServerAddress) ≠ [] := by decide
  exact ⟨hid, hids, haddrs, hname, hnamed, hlocalAddr, hlocal, hcfg, hleader, new_cluster_joins_every_peer
    checkedRaft_checking p ps hid hids haddrs hname hnamed hlocalAddr hlocal hcfg rfl hleader (List.Perm.refl _)⟩

end DistributedKv.InitialCluster
