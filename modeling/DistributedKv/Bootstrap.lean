import DistributedKv.Membership
import DistributedKv.FsmSnapshot
import DistributedKv.Greedy

/-!
# The join ticker of `bootstrapDStore`

Every five seconds each node asks raft for the leader; the node that raft
reports as leader reads the servers of the configuration once, then ranges
over the advertised peers of `--initial-cluster`, in whatever order Go's map
range takes, skipping itself and every peer whose ID one of the servers it
read has, and calls `Join` for the others, logging their errors.

On a raft that behaves as `Raft.Lawful` says, the tick of a leader is the
greedy pass `joinPass`: each peer that is not the leader and whose ID and
address no server holds yet joins as a voter at its address, in the order of
the range. Over any interleaving of ticks and of the membership API's `Join`
and `Leave`, the configuration keeps distinct IDs and addresses. Ticks
alone only append advertised voters, and a peer whose address a server of
another ID holds never joins.

On hashicorp/raft (`Raft.Checking`) the tick of a leader is the same pass
over the peers that have an ID and an address; raft refuses the others.
After one tick of a leader that is a member, no later tick changes the
configuration, and a peer that `Leave` removed is joined again by the next
tick of a leader.
-/

set_option autoImplicit false

namespace DistributedKv.Bootstrap

open DistributedKv.BigEndian DistributedKv.Types DistributedKv.Fsm DistributedKv.Membership

variable {ρ : Type}

section Ticker

variable (rf : Raft ρ) (name : ServerID)

/-- The body of the `peers` loop for one advertised peer, against the
servers `members` read at the start of the tick. -/
def joinPeer (members : Configuration) (r : ρ) : ServerID × ServerAddress → ρ
  | (id, addr) =>
    if id = name then r
    else if members.any (fun member => member.id = id) then r
    else (join rf id addr r).1

def joinPeers (members : Configuration) (r : ρ) (advertizedPeers : List (ServerID × ServerAddress)) : ρ :=
  advertizedPeers.foldl (joinPeer rf name members) r

/-- One tick of the ticker of node `name`, given what `GetLeader` returned
and the order the range over `advertizedPeers` takes. `GetServers` is the
raft configuration. -/
def joinTick (leader : ServerAddress × ServerID) (advertizedPeers : List (ServerID × ServerAddress))
    (r : ρ) : ρ :=
  let (leaderAddr, leaderID) := leader
  if leaderAddr = [] then r
  else if leaderID ≠ name then r
  else
    match rf.getConfiguration r with
    | .error _ => r
    | .ok members => joinPeers rf name members r advertizedPeers

end Ticker

inductive Event where
  | tick (name : ServerID) (leader : ServerAddress × ServerID) (order : List (ServerID × ServerAddress))
  | call (c : Call)
  deriving DecidableEq, Repr

def clusterStep (rf : Raft ρ) (r : ρ) : Event → ρ
  | .tick name leader order => joinTick rf name leader order r
  | .call c => (exec rf r c).1

def cluster (rf : Raft ρ) (r : ρ) (evs : List Event) : ρ := evs.foldl (clusterStep rf) r

def Event.TicksOver (peers : GoMap) : Event → Prop
  | .tick _ _ order => order.Perm (GoMap.pairs peers)
  | .call _ => False

instance (peers : GoMap) (e : Event) : Decidable (e.TicksOver peers) := by
  cases e <;> unfold Event.TicksOver <;> infer_instance

def Covered (c : Configuration) (p : ServerID × ServerAddress) : Prop :=
  ∃ s ∈ c, s.id = p.1 ∨ s.address = p.2

def Blocked (name : ServerID) (c : Configuration) (p : ServerID × ServerAddress) : Prop :=
  p.1 = name ∨ Covered c p

instance (c : Configuration) (p : ServerID × ServerAddress) : Decidable (Covered c p) := by
  unfold Covered; infer_instance

instance (name : ServerID) (c : Configuration) (p : ServerID × ServerAddress) : Decidable (Blocked name c p) := by
  unfold Blocked; infer_instance

def voterOf (p : ServerID × ServerAddress) : Server := ⟨.voter, p.1, p.2⟩

/-- The tick of the leader `name`, as a greedy pass over the peers. -/
def joinPass (name : ServerID) (c : Configuration) (peers : List (ServerID × ServerAddress)) : Configuration :=
  peers.foldl (Greedy.offer (Blocked name) voterOf) c

/-- A tick on the configuration alone: the pass of `name` when raft reports
it as leader, nothing otherwise. -/
def tickSpec (name : ServerID) (leader : ServerAddress × ServerID) (c : Configuration)
    (order : List (ServerID × ServerAddress)) : Configuration :=
  if leader.1 ≠ [] ∧ leader.2 = name then joinPass name c order else c

theorem covered_mono {c d : Configuration} (hcd : c <+: d) {p : ServerID × ServerAddress}
    (h : Covered c p) : Covered d p := by
  obtain ⟨s, hs, hsp⟩ := h
  exact ⟨s, hcd.subset hs, hsp⟩

theorem blocked_monotone (name : ServerID) : Greedy.Monotone (Blocked name) := by
  rintro c d p (h | h)
  · exact Or.inl h
  · exact Or.inr (covered_mono (List.prefix_append c d) h)

theorem blocked_selfBlocking (name : ServerID) : Greedy.SelfBlocking (Blocked name) voterOf :=
  fun c p => Or.inr ⟨voterOf p, List.mem_append_right c (List.mem_singleton_self _), Or.inl rfl⟩

theorem distinct_append_voterOf {c : Configuration} (hd : Distinct c) {p : ServerID × ServerAddress}
    (h : ¬Covered c p) : Distinct (c++[voterOf p]) := by
  have hid : ∀ s ∈ c, s.id ≠ (voterOf p).id := fun s hs he => h ⟨s, hs, Or.inl he⟩
  have haddr : ∀ s ∈ c, s.address ≠ (voterOf p).address := fun s hs he => h ⟨s, hs, Or.inr he⟩
  exact ⟨nodup_map_concat hd.1 hid, nodup_map_concat hd.2 haddr⟩

theorem distinct_offer {name : ServerID} {c : Configuration} (hd : Distinct c) (p : ServerID × ServerAddress) :
    Distinct (Greedy.offer (Blocked name) voterOf c p) := by
  by_cases h : Blocked name c p
  · rwa [Greedy.offer_of_blocked h]
  · rw [Greedy.offer_of_not_blocked h]
    exact distinct_append_voterOf hd fun hc => h (Or.inr hc)

theorem distinct_joinPass {name : ServerID} {c : Configuration} (hd : Distinct c)
    (peers : List (ServerID × ServerAddress)) : Distinct (joinPass name c peers) :=
  Greedy.foldl_invariant (I := Distinct) (fun _ _ hc hp => distinct_append_voterOf hc fun h => hp (Or.inr h)) peers c hd

theorem exists_id_offer {B : Configuration → ServerID × ServerAddress → Prop} [∀ c p, Decidable (B c p)]
    {c : Configuration} {p : ServerID × ServerAddress} {x : ServerID}
    (hx : p.1 ≠ x) : (∃ s ∈ Greedy.offer B voterOf c p, s.id = x) ↔ ∃ s ∈ c, s.id = x := by
  by_cases h : B c p
  · rw [Greedy.offer_of_blocked h]
  · rw [Greedy.offer_of_not_blocked h]
    simp only [List.mem_append, List.mem_singleton, or_and_right, exists_or, exists_eq_left]
    exact or_iff_left hx

theorem mem_joinPass {name : ServerID} {c : Configuration} {peers : List (ServerID × ServerAddress)} {s : Server}
    (hs : s ∈ joinPass name c peers) : s ∈ c ∨ ∃ p ∈ peers, ¬Blocked name c p ∧ s = voterOf p :=
  Greedy.mem_foldl (blocked_monotone name) hs

theorem covered_joinPass (name : ServerID) (c : Configuration) {peers : List (ServerID × ServerAddress)}
    {p : ServerID × ServerAddress} (hp : p ∈ peers) : p.1 = name ∨ Covered (joinPass name c peers) p :=
  Greedy.blocked_foldl (blocked_monotone name) (blocked_selfBlocking name) c peers p hp

theorem joinPass_of_covered (name : ServerID) {c : Configuration} {peers : List (ServerID × ServerAddress)}
    (h : ∀ p ∈ peers, Covered c p) : joinPass name c peers = c :=
  Greedy.foldl_of_blocked fun p hp => Or.inr (h p hp)

theorem voterOf_mem_joinPass {name : ServerID} {c : Configuration} {peers : List (ServerID × ServerAddress)}
    (hids : (peers.map Prod.fst).Nodup) (haddrs : (peers.map Prod.snd).Nodup) {p : ServerID × ServerAddress}
    (hp : p ∈ peers) (hname : p.1 ≠ name) (hfree : ¬Covered c p) : voterOf p ∈ joinPass name c peers := by
  -- at the end `p` is blocked, and only its own voter can block it
  rcases covered_joinPass name c hp with h | ⟨s, hs, hsp⟩
  · exact absurd h hname
  rcases mem_joinPass hs with hs' | ⟨q, hq, -, rfl⟩
  · exact absurd ⟨s, hs', hsp⟩ hfree
  have hqp : q = p := by
    rcases hsp with h | h
    · exact List.inj_on_of_nodup_map hids hq hp h
    · exact List.inj_on_of_nodup_map haddrs hq hp h
  exact hqp ▸ hs

theorem voterOf_mem_joinPass_named {name : ServerID} {c : Configuration} {order : List (ServerID × ServerAddress)}
    (hids : (order.map Prod.fst).Nodup) (haddrs : (order.map Prod.snd).Nodup) {p : ServerID × ServerAddress}
    (hp : p ∈ order) (hnamed : p.1 ≠ [] ∧ p.2 ≠ []) (hname : p.1 ≠ name) (hfree : ¬Covered c p) :
    voterOf p ∈ joinPass name c (order.filter fun p => p.1 ≠ [] ∧ p.2 ≠ []) := by
  have hsub : (order.filter fun p => p.1 ≠ [] ∧ p.2 ≠ []).Sublist order := List.filter_sublist
  exact voterOf_mem_joinPass (hids.sublist (hsub.map _)) (haddrs.sublist (hsub.map _))
    (List.mem_filter.mpr ⟨hp, decide_eq_true hnamed⟩) hname hfree

theorem nodup_ids_of_perm {peers : GoMap} {order : List (ServerID × ServerAddress)}
    (horder : order.Perm (GoMap.pairs peers)) : (order.map Prod.fst).Nodup :=
  (horder.map Prod.fst).nodup_iff.mpr (List.pairwise_map.mpr (GoMap.pairs_pairwise peers))

section Offer

variable {rf : Raft ρ} (config : ρ → Configuration) (name : ServerID)
  (B : Configuration → ServerID × ServerAddress → Prop) [∀ c p, Decidable (B c p)]

theorem joinPeer_config_of {members : Configuration} {r : ρ} {p : ServerID × ServerAddress}
    (hp : (∃ s ∈ members, s.id = p.1) ↔ ∃ s ∈ config r, s.id = p.1)
    (hB : p.1 = name ∨ (∃ s ∈ config r, s.id = p.1) → B (config r) p)
    (hjoin : p.1 ≠ name → (∀ s ∈ config r, s.id ≠ p.1) →
      config (join rf p.1 p.2 r).1 = Greedy.offer B voterOf (config r) p) :
    config (joinPeer rf name members r p) = Greedy.offer B voterOf (config r) p := by
  obtain ⟨id, addr⟩ := p
  have hany : members.any (fun member => member.id = id) = true ↔ ∃ s ∈ config r, s.id = id := by
    simpa only [List.any_eq_true, decide_eq_true_eq] using hp
  by_cases hself : id = name
  · rw [Greedy.offer_of_blocked (hB (Or.inl hself))]
    simp only [joinPeer, if_pos hself]
  by_cases hmem : ∃ s ∈ config r, s.id = id
  · rw [Greedy.offer_of_blocked (hB (Or.inr hmem))]
    simp only [joinPeer, if_neg hself, if_pos (hany.mpr hmem)]
  · simp only [joinPeer, if_neg hself, if_neg (mt hany.mp hmem)]
    exact hjoin hself fun s hs he => hmem ⟨s, hs, he⟩

theorem joinPeers_config_of (I : Configuration → Prop) (hI : ∀ c p, I c → I (Greedy.offer B voterOf c p))
    (hB : ∀ c p, p.1 = name ∨ (∃ s ∈ c, s.id = p.1) → B c p)
    (hjoin : ∀ r p, I (config r) → p.1 ≠ name → (∀ s ∈ config r, s.id ≠ p.1) →
      config (join rf p.1 p.2 r).1 = Greedy.offer B voterOf (config r) p)
    {members : Configuration} {peers : List (ServerID × ServerAddress)} (hnd : (peers.map Prod.fst).Nodup)
    (r : ρ) (hr : I (config r)) (hmem : ∀ p ∈ peers, (∃ s ∈ members, s.id = p.1) ↔ ∃ s ∈ config r, s.id = p.1) :
    config (joinPeers rf name members r peers) = peers.foldl (Greedy.offer B voterOf) (config r) := by
  induction peers generalizing r with
  | nil => rfl
  | cons p peers ih =>
    rw [List.map_cons, List.nodup_cons] at hnd
    have hstep := joinPeer_config_of config name B (hmem p List.mem_cons_self) (hB _ p) (hjoin r p hr)
    -- the peers still to come have other IDs, so the step keeps their agreement
    have hmem' : ∀ q ∈ peers, (∃ s ∈ members, s.id = q.1) ↔
        ∃ s ∈ config (joinPeer rf name members r p), s.id = q.1 := by
      intro q hq
      have hne : p.1 ≠ q.1 := fun he => hnd.1 (he ▸ List.mem_map_of_mem hq)
      rw [hstep, exists_id_offer hne]
      exact hmem q (List.mem_cons_of_mem p hq)
    exact (ih hnd.2 _ (hstep ▸ hI _ p hr) hmem').trans (congrArg (fun c => peers.foldl (Greedy.offer B voterOf) c) hstep)

end Offer

theorem joinPeers_invariant {rf : Raft ρ} (I : ρ → Prop) (hjoin : ∀ r id addr, I r → I (join rf id addr r).1)
    (name : ServerID) (members : Configuration) (peers : List (ServerID × ServerAddress)) (r : ρ) (hr : I r) :
    I (joinPeers rf name members r peers) := by
  induction peers generalizing r with
  | nil => exact hr
  | cons p peers ih =>
    refine ih _ ?_
    obtain ⟨id, addr⟩ := p
    simp only [joinPeer]
    split_ifs
    · exact hr
    · exact hr
    · exact hjoin r id addr hr

theorem joinTick_invariant {rf : Raft ρ} (I : ρ → Prop) (hjoin : ∀ r id addr, I r → I (join rf id addr r).1)
    (name : ServerID) (leader : ServerAddress × ServerID) (order : List (ServerID × ServerAddress)) (r : ρ)
    (hr : I r) : I (joinTick rf name leader order r) := by
  obtain ⟨leaderAddr, leaderID⟩ := leader
  simp only [joinTick]
  split_ifs
  · exact hr
  · exact hr
  · split
    · exact hr
    · exact joinPeers_invariant I hjoin name _ order r hr

section Lawful

variable {rf : Raft ρ} {config : ρ → Configuration} (hrf : rf.Lawful config)
include hrf

theorem join_of_absent {id : ServerID} {addr : ServerAddress} {r : ρ} (hd : Distinct (config r))
    (hid : ∀ s ∈ config r, s.id ≠ id) :
    config (join rf id addr r).1 =
      if ∃ s ∈ config r, s.address = addr then config r else config r++[⟨.voter, id, addr⟩] := by
  have hnox : ∀ t ∈ config r, ¬(t.address = addr ∧ t.id = id) := fun t ht hx => hid t ht hx.2
  obtain ⟨h1, h2⟩ := joinLoop_of_no_exact hrf id addr (config r) r hnox
  obtain ⟨r', hr'⟩ : ∃ r', joinLoop rf id addr r (config r) = (r', none) := ⟨_, Prod.ext rfl h1⟩
  -- removing the absent ID, if the walk does, keeps every server
  have hc' : config r' = config r := by
    simp only [hr'] at h2
    rw [h2]
    split_ifs
    · exact List.filter_eq_self.mpr fun s hs => decide_eq_true (hid s hs)
    · rfl
  rw [join_of_joinLoop_none hrf hr']
  by_cases haddr : ∃ s ∈ config r, s.address = addr
  · obtain ⟨s, hs, hsaddr⟩ := haddr
    obtain ⟨e, he⟩ := hrf.addVoter_taken r' id addr ⟨s, by rw [hc']; exact hs, hid s hs, hsaddr⟩
    rw [he, if_pos ⟨s, hs, hsaddr⟩]
    exact hc'
  · have hfree : ¬AddressTaken (config r') id addr := by
      rintro ⟨s, hs, -, hsaddr⟩
      exact haddr ⟨s, by rw [← hc']; exact hs, hsaddr⟩
    rw [(hrf.addVoter_ok r' id addr (hc' ▸ hd) hfree).2, hc', upsertVoter_of_forall_ne addr hid, if_neg haddr]

theorem join_offer (name : ServerID) {r : ρ} (hd : Distinct (config r)) {p : ServerID × ServerAddress}
    (hname : p.1 ≠ name) (hid : ∀ s ∈ config r, s.id ≠ p.1) :
    config (join rf p.1 p.2 r).1 = Greedy.offer (Blocked name) voterOf (config r) p := by
  -- the peer is blocked by its address alone, which is what raft checks
  have hblocked : Blocked name (config r) p ↔ ∃ s ∈ config r, s.address = p.2 := by
    simp only [Blocked, Covered, hname, false_or]
    exact ⟨fun ⟨s, hs, h⟩ => ⟨s, hs, h.resolve_left (hid s hs)⟩, fun ⟨s, hs, h⟩ => ⟨s, hs, Or.inr h⟩⟩
  rw [join_of_absent hrf hd hid, Greedy.offer, if_congr hblocked rfl rfl]
  rfl

theorem joinPeers_config (name : ServerID) {members : Configuration} {peers : List (ServerID × ServerAddress)}
    (hnd : (peers.map Prod.fst).Nodup) (r : ρ) (hd : Distinct (config r))
    (hmem : ∀ p ∈ peers, (∃ s ∈ members, s.id = p.1) ↔ ∃ s ∈ config r, s.id = p.1) :
    config (joinPeers rf name members r peers) = joinPass name (config r) peers :=
  joinPeers_config_of config name (Blocked name) Distinct (fun _ p hc => distinct_offer hc p)
    (fun _ _ h => h.imp id fun ⟨s, hs, hsid⟩ => ⟨s, hs, Or.inl hsid⟩)
    (fun _ _ hd' hname hid => join_offer hrf name hd' hname hid) hnd r hd hmem

theorem joinTick_of_leader (name : ServerID) {leaderAddr : ServerAddress} (hleader : leaderAddr ≠ [])
    {order : List (ServerID × ServerAddress)} (hnd : (order.map Prod.fst).Nodup) (r : ρ) (hd : Distinct (config r)) :
    config (joinTick rf name (leaderAddr, name) order r) = joinPass name (config r) order := by
  simp only [joinTick, if_neg hleader, ne_eq, not_true_eq_false, if_false, hrf.getConfiguration_ok]
  exact joinPeers_config hrf name hnd r hd fun _ _ => Iff.rfl

omit hrf in
theorem joinTick_of_not_leader (name : ServerID) {leader : ServerAddress × ServerID} (h : leader.1 = [] ∨ leader.2 ≠ name)
    (order : List (ServerID × ServerAddress)) (r : ρ) : joinTick rf name leader order r = r := by
  obtain ⟨leaderAddr, leaderID⟩ := leader
  rcases h with h | h
  · simp only [joinTick, if_pos h]
  · by_cases haddr : leaderAddr = []
    · simp only [joinTick, if_pos haddr]
    · simp only [joinTick, if_neg haddr, if_pos h]

theorem joinTick_cases (name : ServerID) (leader : ServerAddress × ServerID) {order : List (ServerID × ServerAddress)}
    (hnd : (order.map Prod.fst).Nodup) (r : ρ) (hd : Distinct (config r)) :
    joinTick rf name leader order r = r ∨ config (joinTick rf name leader order r) = joinPass name (config r) order := by
  obtain ⟨leaderAddr, leaderID⟩ := leader
  by_cases h : leaderAddr = [] ∨ leaderID ≠ name
  · exact Or.inl (joinTick_of_not_leader name h order r)
  · push Not at h
    obtain ⟨hleader, rfl⟩ := h
    exact Or.inr (joinTick_of_leader hrf leaderID hleader hnd r hd)

end Lawful

/-- A tick of the code refines the tick on configurations, whatever order
the range over the advertised map takes. -/
theorem joinTick_refines_tickSpec {rf : Raft ρ} {config : ρ → Configuration} (hrf : rf.Lawful config)
    (peers : GoMap) (name : ServerID) (leader : ServerAddress × ServerID) {order : List (ServerID × ServerAddress)}
    (horder : order.Perm (GoMap.pairs peers)) (r : ρ) (hd : Distinct (config r)) :
    config (joinTick rf name leader order r) = tickSpec name leader (config r) order := by
  by_cases h : leader.1 ≠ [] ∧ leader.2 = name
  · obtain ⟨leaderAddr, leaderID⟩ := leader
    obtain ⟨hleader, rfl⟩ := h
    rw [tickSpec, if_pos ⟨hleader, rfl⟩]
    exact joinTick_of_leader hrf leaderID hleader (nodup_ids_of_perm horder) r hd
  · rw [tickSpec, if_neg h, joinTick_of_not_leader name (by tauto) order r]

theorem joinTick_refines_tickSpec_listRaft :
    let peers : GoMap := (((∅ : GoMap).insert [110, 48] [97, 48]).insert [110, 49] [97, 49]).insert [110, 50] [97, 49]
    let c : Configuration := [⟨.voter, [110, 48], [97, 48]⟩]
    (GoMap.pairs peers).reverse.Perm (GoMap.pairs peers) ∧ Distinct c ∧
      joinTick listRaft [110, 48] ([97, 48], [110, 48]) (GoMap.pairs peers).reverse c =
        tickSpec [110, 48] ([97, 48], [110, 48]) c (GoMap.pairs peers).reverse := by
  intro peers c
  have hd : Distinct c := by decide
  have horder : (GoMap.pairs peers).reverse.Perm (GoMap.pairs peers) := List.reverse_perm _
  exact ⟨horder, hd, joinTick_refines_tickSpec listRaft_lawful peers [110, 48] ([97, 48], [110, 48]) horder c hd⟩

structure Grown (peers : GoMap) (c₀ c : Configuration) : Prop where
  distinct : Distinct c
  extends_start : c₀ <+: c
  advertised : ∀ s ∈ c, s ∈ c₀ ∨ s.suffrage = .voter ∧ peers.lookup s.id = some s.address

theorem Grown.start {peers : GoMap} {c : Configuration} (hd : Distinct c) : Grown peers c c :=
  ⟨hd, List.prefix_refl c, fun _ hs => Or.inl hs⟩

section Runs

variable {rf : Raft ρ} {config : ρ → Configuration} (hrf : rf.Lawful config)
include hrf

theorem grown_joinTick {peers : GoMap} {c₀ : Configuration} {r : ρ} (hg : Grown peers c₀ (config r))
    (name : ServerID) (leader : ServerAddress × ServerID) {order : List (ServerID × ServerAddress)}
    (horder : order.Perm (GoMap.pairs peers)) : Grown peers c₀ (config (joinTick rf name leader order r)) := by
  rcases joinTick_cases hrf name leader (nodup_ids_of_perm horder) r hg.distinct with h | h
  · rw [h]
    exact hg
  rw [h]
  refine ⟨distinct_joinPass hg.distinct order, hg.extends_start.trans (Greedy.prefix_foldl _ order), ?_⟩
  intro s hs
  rcases mem_joinPass hs with hs | ⟨⟨id, addr⟩, hp, -, rfl⟩
  · exact hg.advertised s hs
  · exact Or.inr ⟨rfl, GoMap.mem_pairs.mp (horder.subset hp)⟩

theorem grown_cluster {peers : GoMap} {c₀ : Configuration} (evs : List Event) (hevs : ∀ e ∈ evs, e.TicksOver peers)
    (r : ρ) (hg : Grown peers c₀ (config r)) : Grown peers c₀ (config (cluster rf r evs)) := by
  induction evs generalizing r with
  | nil => exact hg
  | cons e evs ih =>
    refine ih (fun e he => hevs e (List.mem_cons_of_mem _ he)) _ ?_
    have he := hevs e List.mem_cons_self
    cases e with
    | tick name leader order => exact grown_joinTick hrf hg name leader he
    | call c => exact he.elim

end Runs

/-- Ticks over the advertised map only append servers, each a voter at the
address advertised for its ID. -/
theorem ticks_append_advertised_voters {rf : Raft ρ} {config : ρ → Configuration} (hrf : rf.Lawful config)
    (peers : GoMap) (r : ρ) (hd : Distinct (config r)) (evs : List Event)
    (hevs : ∀ e ∈ evs, e.TicksOver peers) :
    config r <+: config (cluster rf r evs) ∧
      ∀ s ∈ config (cluster rf r evs), s ∈ config r ∨ s.suffrage = .voter ∧ peers.lookup s.id = some s.address := by
  have hg := grown_cluster hrf evs hevs r (Grown.start hd)
  exact ⟨hg.extends_start, hg.advertised⟩

theorem ticks_append_advertised_voters_listRaft :
    let peers : GoMap := ((∅ : GoMap).insert [110, 48] [97, 48]).insert [110, 49] [97, 49]
    let c : Configuration := [⟨.voter, [110, 48], [97, 48]⟩]
    let evs : List Event := [.tick [110, 49] ([97, 48], [110, 48]) (GoMap.pairs peers),
      .tick [110, 48] ([97, 48], [110, 48]) (GoMap.pairs peers)]
    Distinct c ∧ (∀ e ∈ evs, e.TicksOver peers) ∧ c <+: cluster listRaft c evs ∧
      ∀ s ∈ cluster listRaft c evs, s ∈ c ∨ s.suffrage = .voter ∧ peers.lookup s.id = some s.address := by
  intro peers c evs
  have hd : Distinct c := by decide
  have hevs : ∀ e ∈ evs, e.TicksOver peers := by decide
  exact ⟨hd, hevs, ticks_append_advertised_voters listRaft_lawful peers c hd evs hevs⟩

/-- A peer whose advertised address a server of another ID holds never
joins through ticks: raft refuses the duplicate address at every attempt. -/
theorem ticks_never_join_held_address {rf : Raft ρ} {config : ρ → Configuration} (hrf : rf.Lawful config)
    (peers : GoMap) (r : ρ) (hd : Distinct (config r)) {id : ServerID}
    {addr : ServerAddress} (hpeer : peers.lookup id = some addr) (hheld : AddressTaken (config r) id addr)
    (habsent : ∀ s ∈ config r, s.id ≠ id) (evs : List Event) (hevs : ∀ e ∈ evs, e.TicksOver peers) :
    ∀ s ∈ config (cluster rf r evs), s.id ≠ id := by
  have hg := grown_cluster hrf evs hevs r (Grown.start hd)
  obtain ⟨t, ht, htid, htaddr⟩ := hheld
  intro s hs hsid
  rcases hg.advertised s hs with hs0 | ⟨-, hlook⟩
  · exact habsent s hs0 hsid
  -- the only server that can have `id` sits at `addr`, where `t` still is
  have hsaddr : s.address = addr := Option.some.inj (hlook.symm.trans (hsid ▸ hpeer))
  have hts : t = s := hg.distinct.eq_of_address (hg.extends_start.subset ht) hs (htaddr.trans hsaddr.symm)
  exact htid (hts ▸ hsid)

theorem ticks_never_join_held_address_listRaft :
    let peers : GoMap := (((∅ : GoMap).insert [110, 48] [97, 48]).insert [110, 49] [97, 49]).insert [110, 50] [97, 49]
    let c : Configuration := [⟨.voter, [110, 48], [97, 48]⟩, ⟨.voter, [110, 49], [97, 49]⟩]
    let evs : List Event := [.tick [110, 48] ([97, 48], [110, 48]) (GoMap.pairs peers),
      .tick [110, 48] ([97, 48], [110, 48]) (GoMap.pairs peers).reverse]
    Distinct c ∧ peers.lookup [110, 50] = some [97, 49] ∧ AddressTaken c [110, 50] [97, 49] ∧
      (∀ s ∈ c, s.id ≠ [110, 50]) ∧ (∀ e ∈ evs, e.TicksOver peers) ∧
      ∀ s ∈ cluster listRaft c evs, s.id ≠ [110, 50] := by
  intro peers c evs
  have hd : Distinct c := by decide
  have hpeer : peers.lookup [110, 50] = some [97, 49] := by decide
  have hheld : AddressTaken c [110, 50] [97, 49] := by decide
  have habsent : ∀ s ∈ c, s.id ≠ [110, 50] := by decide
  have hevs : ∀ e ∈ evs, e.TicksOver peers := by decide
  exact ⟨hd, hpeer, hheld, habsent, hevs,
    ticks_never_join_held_address listRaft_lawful peers c hd hpeer hheld habsent evs hevs⟩

/-- What the tick of a leader on hashicorp/raft leaves alone: a peer without
an ID or an address, whose voter raft refuses, or one the pass blocks. -/
def CheckBlocked (name : ServerID) (c : Configuration) (p : ServerID × ServerAddress) : Prop :=
  ¬(p.1 ≠ [] ∧ p.2 ≠ []) ∨ Blocked name c p

instance (name : ServerID) (c : Configuration) (p : ServerID × ServerAddress) : Decidable (CheckBlocked name c p) := by
  unfold CheckBlocked; infer_instance

theorem checked_offer (name : ServerID) {c : Configuration} (hc : Checked c) (p : ServerID × ServerAddress) :
    Checked (Greedy.offer (CheckBlocked name) voterOf c p) := by
  by_cases h : CheckBlocked name c p
  · rwa [Greedy.offer_of_blocked h]
  · rw [Greedy.offer_of_not_blocked h]
    have hnamed : p.1 ≠ [] ∧ p.2 ≠ [] := not_not.mp fun hn => h (Or.inl hn)
    refine ⟨fun s hs => ?_, distinct_append_voterOf hc.distinct fun hcov => h (Or.inr (Or.inr hcov)), ?_⟩
    · rcases List.mem_append.mp hs with hs | hs
      · exact hc.named s hs
      · rw [List.mem_singleton.mp hs]
        exact hnamed
    · exact ⟨voterOf p, List.mem_append_right c (List.mem_singleton_self _), rfl⟩

theorem joinPass_checked (name : ServerID) (c : Configuration) (peers : List (ServerID × ServerAddress)) :
    peers.foldl (Greedy.offer (CheckBlocked name) voterOf) c = joinPass name c (peers.filter fun p => p.1 ≠ [] ∧ p.2 ≠ []) := by
  unfold CheckBlocked joinPass
  exact @Greedy.foldl_of_refused _ _ (Blocked name) _ voterOf (fun p => p.1 ≠ [] ∧ p.2 ≠ []) _ c peers

section Checking

variable {rf : Raft ρ} {config : ρ → Configuration} (hrf : rf.Checking config)
include hrf

theorem join_offer_checked (name : ServerID) {r : ρ} (hc : Checked (config r)) {p : ServerID × ServerAddress}
    (hname : p.1 ≠ name) (hid : ∀ s ∈ config r, s.id ≠ p.1) :
    config (join rf p.1 p.2 r).1 = Greedy.offer (CheckBlocked name) voterOf (config r) p := by
  rw [join_of_absent_checked hrf hc hid]
  split_ifs with hgood
  · -- named, absent, and at a free address: the pass appends it too
    obtain ⟨hid', haddr', hfree⟩ := hgood
    have hnb : ¬CheckBlocked name (config r) p := by
      rintro (hn | hn | ⟨s, hs, hsid | hsaddr⟩)
      · exact hn ⟨hid', haddr'⟩
      · exact hname hn
      · exact hid s hs hsid
      · exact hfree ⟨s, hs, hsaddr⟩
    rw [Greedy.offer_of_not_blocked hnb]
    rfl
  · have hb : CheckBlocked name (config r) p := by
      by_cases hnamed : p.1 ≠ [] ∧ p.2 ≠ []
      · obtain ⟨s, hs, hsaddr⟩ : ∃ s ∈ config r, s.address = p.2 := by tauto
        exact Or.inr (Or.inr ⟨s, hs, Or.inr hsaddr⟩)
      · exact Or.inl hnamed
    rw [Greedy.offer_of_blocked hb]

theorem joinPeers_config_checked (name : ServerID) {members : Configuration} {peers : List (ServerID × ServerAddress)}
    (hnd : (peers.map Prod.fst).Nodup) (r : ρ) (hc : Checked (config r))
    (hmem : ∀ p ∈ peers, (∃ s ∈ members, s.id = p.1) ↔ ∃ s ∈ config r, s.id = p.1) :
    config (joinPeers rf name members r peers) = joinPass name (config r) (peers.filter fun p => p.1 ≠ [] ∧ p.2 ≠ []) := by
  rw [joinPeers_config_of config name (CheckBlocked name) Checked (fun _ p hc => checked_offer name hc p)
    (fun _ _ h => Or.inr (h.imp id fun ⟨s, hs, hsid⟩ => ⟨s, hs, Or.inl hsid⟩))
    (fun _ _ hc' hname hid => join_offer_checked hrf name hc' hname hid) hnd r hc hmem]
  exact joinPass_checked name (config r) peers

theorem joinTick_of_leader_checked (name : ServerID) {leaderAddr : ServerAddress} (hleader : leaderAddr ≠ [])
    {order : List (ServerID × ServerAddress)} (hnd : (order.map Prod.fst).Nodup) (r : ρ) (hc : Checked (config r)) :
    config (joinTick rf name (leaderAddr, name) order r) =
      joinPass name (config r) (order.filter fun p => p.1 ≠ [] ∧ p.2 ≠ []) := by
  simp only [joinTick, if_neg hleader, ne_eq, not_true_eq_false, if_false, hrf.getConfiguration_ok]
  exact joinPeers_config_checked hrf name hnd r hc fun _ _ => Iff.rfl

theorem joinTick_cases_checked (name : ServerID) (leader : ServerAddress × ServerID)
    {order : List (ServerID × ServerAddress)} (hnd : (order.map Prod.fst).Nodup) (r : ρ) (hc : Checked (config r)) :
    joinTick rf name leader order r = r ∨
      config (joinTick rf name leader order r) = joinPass name (config r) (order.filter fun p => p.1 ≠ [] ∧ p.2 ≠ []) := by
  obtain ⟨leaderAddr, leaderID⟩ := leader
  by_cases h : leaderAddr = [] ∨ leaderID ≠ name
  · exact Or.inl (joinTick_of_not_leader name h order r)
  · push Not at h
    obtain ⟨hleader, rfl⟩ := h
    exact Or.inr (joinTick_of_leader_checked hrf leaderID hleader hnd r hc)

theorem checked_joinTick (name : ServerID) (leader : ServerAddress × ServerID) (order : List (ServerID × ServerAddress))
    (r : ρ) (hc : Checked (config r)) : Checked (config (joinTick rf name leader order r)) :=
  joinTick_invariant (fun r => Checked (config r)) (fun r id addr => checked_join hrf id addr r) name leader order r hc

theorem cluster_of_covered_checked {peers : GoMap} (evs : List Event) (hevs : ∀ e ∈ evs, e.TicksOver peers) (r : ρ)
    (hc : Checked (config r)) (hcov : ∀ p ∈ GoMap.pairs peers, p.1 ≠ [] → p.2 ≠ [] → Covered (config r) p) :
    config (cluster rf r evs) = config r := by
  induction evs generalizing r with
  | nil => rfl
  | cons e evs ih =>
    have he := hevs e List.mem_cons_self
    cases e with
    | call c => exact he.elim
    | tick name leader order =>
      have hstep : config (joinTick rf name leader order r) = config r := by
        rcases joinTick_cases_checked hrf name leader (nodup_ids_of_perm he) r hc with h | h
        · rw [h]
        · rw [h]
          refine joinPass_of_covered name fun p hp => ?_
          obtain ⟨hp, hnamed⟩ := List.mem_filter.mp hp
          have hnamed : p.1 ≠ [] ∧ p.2 ≠ [] := of_decide_eq_true hnamed
          exact hcov p (he.subset hp) hnamed.1 hnamed.2
      exact (ih (fun e he => hevs e (List.mem_cons_of_mem _ he)) _ (hstep ▸ hc) (hstep ▸ hcov)).trans hstep

end Checking

/-- On hashicorp/raft, a tick of the code refines the tick on configurations
over the advertised peers that have an ID and an address, whatever order the
range over the advertised map takes: raft refuses the voter of every other
peer, and the configuration stays as it was. -/
theorem joinTick_checked_refines_tickSpec {rf : Raft ρ} {config : ρ → Configuration} (hrf : rf.Checking config)
    (peers : GoMap) (name : ServerID) (leader : ServerAddress × ServerID) {order : List (ServerID × ServerAddress)}
    (horder : order.Perm (GoMap.pairs peers)) (r : ρ) (hc : Checked (config r)) :
    config (joinTick rf name leader order r) = tickSpec name leader (config r) (order.filter fun p => p.1 ≠ [] ∧ p.2 ≠ []) := by
  by_cases h : leader.1 ≠ [] ∧ leader.2 = name
  · obtain ⟨leaderAddr, leaderID⟩ := leader
    obtain ⟨hleader, rfl⟩ := h
    rw [tickSpec, if_pos ⟨hleader, rfl⟩]
    exact joinTick_of_leader_checked hrf leaderID hleader (nodup_ids_of_perm horder) r hc
  · rw [tickSpec, if_neg h, joinTick_of_not_leader name (by tauto) order r]

theorem joinTick_checked_refines_tickSpec_checkedRaft :
    let peers : GoMap := (((∅ : GoMap).insert [110, 48] [97, 48]).insert [110, 49] []).insert [110, 50] [97, 50]
    let c : Configuration := [⟨.voter, [110, 48], [97, 48]⟩]
    (GoMap.pairs peers).reverse.Perm (GoMap.pairs peers) ∧ Checked c ∧
      joinTick checkedRaft [110, 48] ([97, 48], [110, 48]) (GoMap.pairs peers).reverse c =
        tickSpec [110, 48] ([97, 48], [110, 48]) c ((GoMap.pairs peers).reverse.filter fun p => p.1 ≠ [] ∧ p.2 ≠ []) := by
  intro peers c
  have hc : Checked c := by decide
  have horder : (GoMap.pairs peers).reverse.Perm (GoMap.pairs peers) := List.reverse_perm _
  exact ⟨horder, hc, joinTick_checked_refines_tickSpec checkedRaft_checking peers [110, 48] ([97, 48], [110, 48]) horder c hc⟩

/-- On hashicorp/raft, after one tick of a leader that is a member, every
advertised peer with an ID and an address is known by ID or by address, and
no later tick changes the configuration. -/
theorem ticks_settle_after_member_leader {rf : Raft ρ} {config : ρ → Configuration} (hrf : rf.Checking config)
    (peers : GoMap) (name : ServerID) {leaderAddr : ServerAddress}
    (hleader : leaderAddr ≠ []) {order : List (ServerID × ServerAddress)} (horder : order.Perm (GoMap.pairs peers))
    (r : ρ) (hc : Checked (config r)) (hmember : ∃ s ∈ config r, s.id = name) (evs : List Event)
    (hevs : ∀ e ∈ evs, e.TicksOver peers) :
    (∀ p ∈ GoMap.pairs peers, p.1 ≠ [] → p.2 ≠ [] → Covered (config (joinTick rf name (leaderAddr, name) order r)) p) ∧
      config (cluster rf (joinTick rf name (leaderAddr, name) order r) evs) =
        config (joinTick rf name (leaderAddr, name) order r) := by
  have htick := joinTick_of_leader_checked hrf name hleader (nodup_ids_of_perm horder) r hc
  have hcov : ∀ p ∈ GoMap.pairs peers, p.1 ≠ [] → p.2 ≠ [] →
      Covered (config (joinTick rf name (leaderAddr, name) order r)) p := by
    intro p hp hid haddr
    have hp' : p ∈ order.filter fun p => p.1 ≠ [] ∧ p.2 ≠ [] :=
      List.mem_filter.mpr ⟨horder.symm.subset hp, decide_eq_true ⟨hid, haddr⟩⟩
    rw [htick]
    rcases covered_joinPass name (config r) hp' with h | h
    · -- the leader's own entry is known by the leader's ID
      obtain ⟨s, hs, hsid⟩ := hmember
      exact covered_mono (Greedy.prefix_foldl _ _) ⟨s, hs, Or.inl (hsid.trans h.symm)⟩
    · exact h
  exact ⟨hcov, cluster_of_covered_checked hrf evs hevs _ (checked_joinTick hrf name _ order r hc) hcov⟩

theorem ticks_settle_after_member_leader_checkedRaft :
    let peers : GoMap := (((∅ : GoMap).insert [110, 48] [97, 48]).insert [110, 49] [97, 49]).insert [110, 50] []
    let c : Configuration := [⟨.voter, [110, 48], [97, 48]⟩]
    let evs : List Event := [.tick [110, 49] ([97, 49], [110, 49]) (GoMap.pairs peers).reverse,
      .tick [110, 48] ([97, 48], [110, 48]) (GoMap.pairs peers).reverse]
    ([97, 48] : ServerAddress) ≠ [] ∧ Checked c ∧ (∃ s ∈ c, s.id = [110, 48]) ∧ (∀ e ∈ evs, e.TicksOver peers) ∧
      (∀ p ∈ GoMap.pairs peers, p.1 ≠ [] → p.2 ≠ [] →
        Covered (joinTick checkedRaft [110, 48] ([97, 48], [110, 48]) (GoMap.pairs peers) c) p) ∧
      cluster checkedRaft (joinTick checkedRaft [110, 48] ([97, 48], [110, 48]) (GoMap.pairs peers) c) evs =
        joinTick checkedRaft [110, 48] ([97, 48], [110, 48]) (GoMap.pairs peers) c := by
  intro peers c evs
  have hleader : ([97, 48] : ServerAddress) ≠ [] := by decide
  have hc : Checked c := by decide
  have hmember : ∃ s ∈ c, s.id = [110, 48] := by decide
  have hevs : ∀ e ∈ evs, e.TicksOver peers := by decide
  exact ⟨hleader, hc, hmember, hevs,
    ticks_settle_after_member_leader checkedRaft_checking peers [110, 48] hleader (List.Perm.refl _) c hc hmember evs hevs⟩

/-- On hashicorp/raft, `Leave` of an advertised peer with an ID and an
address, other than the leader, returns nil when a voter of another ID is
left, and the next tick of the leader joins the peer again, when no other
server holds its address and the advertised addresses are distinct. -/
theorem leave_undone_by_leader_tick {rf : Raft ρ} {config : ρ → Configuration} (hrf : rf.Checking config)
    (peers : GoMap) (name : ServerID) {leaderAddr : ServerAddress}
    (hleader : leaderAddr ≠ []) {order : List (ServerID × ServerAddress)} (horder : order.Perm (GoMap.pairs peers))
    (haddrs : ((GoMap.pairs peers).map Prod.snd).Nodup) (r : ρ) (hc : Checked (config r)) {id : ServerID}
    {addr : ServerAddress} (hpeer : peers.lookup id = some addr) (hid : id ≠ []) (haddr : addr ≠ [])
    (hname : id ≠ name) (hfree : ¬AddressTaken (config r) id addr)
    (hvoter : ∃ s ∈ config r, s.suffrage = .voter ∧ s.id ≠ id) :
    (leave rf id r).2 = none ∧
      ⟨.voter, id, addr⟩ ∈ config (joinTick rf name (leaderAddr, name) order (leave rf id r).1) := by
  have hleft := hc.filter_ne hvoter
  obtain ⟨r', hr', hc'⟩ := removeServer_of_checked hrf hleft
  have hleave : leave rf id r = (r', none) := by rw [leave, hr']
  -- after `Leave` no server has the ID, and no other server has the address
  have hunknown : ¬Covered (config r') (id, addr) := by
    rintro ⟨s, hs, hsp⟩
    rw [hc', List.mem_filter, decide_eq_true_eq] at hs
    rcases hsp with h | h
    · exact hs.2 h
    · exact hfree ⟨s, hs.1, hs.2, h⟩
  rw [hleave, joinTick_of_leader_checked hrf name hleader (nodup_ids_of_perm horder) r' (hc' ▸ hleft)]
  exact ⟨rfl, voterOf_mem_joinPass_named (nodup_ids_of_perm horder) ((horder.map Prod.snd).nodup_iff.mpr haddrs)
    (horder.symm.subset (GoMap.mem_pairs.mpr hpeer)) ⟨hid, haddr⟩ hname hunknown⟩

theorem leave_undone_by_leader_tick_checkedRaft :
    let peers : GoMap := ((∅ : GoMap).insert [110, 48] [97, 48]).insert [110, 49] [97, 49]
    let c : Configuration := [⟨.voter, [110, 48], [97, 48]⟩, ⟨.voter, [110, 49], [97, 49]⟩]
    ([97, 48] : ServerAddress) ≠ [] ∧ ((GoMap.pairs peers).map Prod.snd).Nodup ∧ Checked c ∧
      peers.lookup [110, 49] = some [97, 49] ∧ ([110, 49] : ServerID) ≠ [] ∧ ([97, 49] : ServerAddress) ≠ [] ∧
      ([110, 49] : ServerID) ≠ [110, 48] ∧ ¬AddressTaken c [110, 49] [97, 49] ∧
      (∃ s ∈ c, s.suffrage = .voter ∧ s.id ≠ [110, 49]) ∧
      (leave checkedRaft [110, 49] c).2 = none ∧
      ⟨.voter, [110, 49], [97, 49]⟩ ∈
        joinTick checkedRaft [110, 48] ([97, 48], [110, 48]) (GoMap.pairs peers) (leave checkedRaft [110, 49] c).1 := by
  intro peers c
  have hleader : ([97, 48] : ServerAddress) ≠ [] := by decide
  have haddrs : ((GoMap.pairs peers).map Prod.snd).Nodup := by decide
  have hc : Checked c := by decide
  have hpeer : peers.lookup [110, 49] = some [97, 49] := by decide
  have hid : ([110, 49] : ServerID) ≠ [] := by decide
  have haddr : ([97, 49] : ServerAddress) ≠ [] := by decide
  have hname : ([110, 49] : ServerID) ≠ [110, 48] := by decide
  have hfree : ¬AddressTaken c [110, 49] [97, 49] := by decide
  have hvoter : ∃ s ∈ c, s.suffrage = .voter ∧ s.id ≠ [110, 49] := by decide
  exact ⟨hleader, haddrs, hc, hpeer, hid, haddr, hname, hfree, hvoter, leave_undone_by_leader_tick checkedRaft_checking
    peers [110, 48] hleader (List.Perm.refl _) haddrs c hc hpeer hid haddr hname hfree hvoter⟩

end DistributedKv.Bootstrap
