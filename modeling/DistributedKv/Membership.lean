import DistributedKv.Types
import DistributedKv.Machine

/-!
# Joining and leaving the raft cluster

`Store.Join` reads the raft configuration, walks its servers, and for every
server that has the joining ID or the joining address either returns (when
it has both) or removes the joining ID; then it adds the joining node as a
voter. `Store.Leave` removes an ID. Raft is a parameter, at two levels.
`Raft.Lawful` is a raft that accepts every removal, and every voter that
keeps the addresses distinct. `Raft.Checking` is hashicorp/raft: a change is
taken exactly when the next configuration passes `checkConfiguration` (an ID
and an address for every server, none shared, a voter left), and a refused
change leaves the configuration as it was.

The walk removes the joining ID, not the ID of the server that holds the
joining address; when another server holds that address, the final
`AddVoter` is refused. On hashicorp/raft, a `Join` with an empty address
fails after it has removed the joining ID.
-/

set_option autoImplicit false

namespace DistributedKv.Membership

open DistributedKv.BigEndian DistributedKv.Types

inductive Suffrage where
  | voter
  | nonvoter
  | staging
  deriving DecidableEq, Repr

structure Server where
  suffrage : Suffrage
  id : ServerID
  address : ServerAddress
  deriving DecidableEq, Repr

abbrev Configuration := List Server

/-- The calls of `*raft.Raft` that `Join` and `Leave` make, each waited on with `Error()`. -/
structure Raft (ρ : Type) where
  getConfiguration : ρ → Except Error Configuration
  removeServer : ρ → ServerID → ρ × Option Error
  addVoter : ρ → ServerID → ServerAddress → ρ × Option Error

/-- The configuration after adding `id` at `addr` as a voter: the server with
that ID is updated in place, or a new one is appended. -/
def upsertVoter (c : Configuration) (id : ServerID) (addr : ServerAddress) : Configuration :=
  if c.any (fun s => s.id = id) then
    c.map fun s => if s.id = id then ⟨.voter, id, addr⟩ else s
  else c++[⟨.voter, id, addr⟩]

def Distinct (c : Configuration) : Prop :=
  (c.map Server.id).Nodup ∧ (c.map Server.address).Nodup

def AddressTaken (c : Configuration) (id : ServerID) (addr : ServerAddress) : Prop :=
  ∃ s ∈ c, s.id ≠ id ∧ s.address = addr

instance (c : Configuration) : Decidable (Distinct c) := by
  unfold Distinct; infer_instance

instance (c : Configuration) (id : ServerID) (addr : ServerAddress) : Decidable (AddressTaken c id addr) := by
  unfold AddressTaken; infer_instance

theorem Distinct.eq_of_id {c : Configuration} (hd : Distinct c) {s t : Server} (hs : s ∈ c) (ht : t ∈ c)
    (h : s.id = t.id) : s = t :=
  List.inj_on_of_nodup_map hd.1 hs ht h

theorem Distinct.eq_of_address {c : Configuration} (hd : Distinct c) {s t : Server} (hs : s ∈ c) (ht : t ∈ c)
    (h : s.address = t.address) : s = t :=
  List.inj_on_of_nodup_map hd.2 hs ht h

theorem Distinct.filter {c : Configuration} (hd : Distinct c) (p : Server → Bool) : Distinct (c.filter p) :=
  ⟨hd.1.sublist ((List.filter_sublist).map _), hd.2.sublist ((List.filter_sublist).map _)⟩

theorem Distinct.of_eq_or_filter {c c' : Configuration} (hd : Distinct c) {p : Server → Bool}
    (h : c' = c ∨ c' = c.filter p) : Distinct c' := by
  rcases h with rfl | rfl
  · exact hd
  · exact hd.filter p

theorem mem_upsertVoter_self (c : Configuration) (id : ServerID) (addr : ServerAddress) :
    ⟨.voter, id, addr⟩ ∈ upsertVoter c id addr := by
  unfold upsertVoter
  split_ifs with h
  · obtain ⟨s, hs, hid⟩ := List.any_eq_true.mp h
    exact List.mem_map.mpr ⟨s, hs, if_pos (of_decide_eq_true hid)⟩
  · simp

theorem mem_upsertVoter_of_ne {c : Configuration} {id : ServerID} {addr : ServerAddress} {s : Server}
    (hs : s ∈ c) (hid : s.id ≠ id) : s ∈ upsertVoter c id addr := by
  unfold upsertVoter
  split_ifs
  · exact List.mem_map.mpr ⟨s, hs, if_neg hid⟩
  · exact List.mem_append_left _ hs

theorem upsertVoter_of_forall_ne {c : Configuration} {id : ServerID} (addr : ServerAddress)
    (h : ∀ s ∈ c, s.id ≠ id) : upsertVoter c id addr = c++[⟨.voter, id, addr⟩] := by
  have hany : c.any (fun s => s.id = id) = false :=
    List.any_eq_false.mpr fun s hs hid => h s hs (of_decide_eq_true hid)
  simp only [upsertVoter, hany, Bool.false_eq_true, if_false]

theorem nodup_map_concat {f : Server → Bytes} {c : Configuration} (hc : (c.map f).Nodup) {s : Server}
    (hs : ∀ t ∈ c, f t ≠ f s) : ((c++[s]).map f).Nodup := by
  have hmem : f s ∉ c.map f := fun h => by
    obtain ⟨t, ht, he⟩ := List.mem_map.mp h
    exact hs t ht he
  rw [List.map_append, List.map_singleton, ← List.concat_eq_append]
  exact hc.concat hmem

theorem upsertVoter_distinct {c : Configuration} {id : ServerID} {addr : ServerAddress}
    (hd : Distinct c) (hfree : ¬AddressTaken c id addr) : Distinct (upsertVoter c id addr) := by
  by_cases hany : c.any (fun s => s.id = id)
  · -- updated in place: IDs are unchanged, and only the server `id` moves to `addr`
    have hids : (upsertVoter c id addr).map Server.id = c.map Server.id := by
      simp only [upsertVoter, hany, if_true, List.map_map]
      exact List.map_congr_left fun s _ => by by_cases h : s.id = id <;> simp [h]
    have hinj : ∀ s ∈ c, ∀ t ∈ c, (if s.id = id then addr else s.address) =
        (if t.id = id then addr else t.address) → s = t := by
      intro s hs t ht h
      by_cases hsid : s.id = id <;> by_cases htid : t.id = id <;> simp only [hsid, htid, if_true, if_false] at h
      · exact hd.eq_of_id hs ht (hsid.trans htid.symm)
      · exact absurd ⟨t, ht, htid, h.symm⟩ hfree
      · exact absurd ⟨s, hs, hsid, h⟩ hfree
      · exact hd.eq_of_address hs ht h
    refine ⟨hids ▸ hd.1, ?_⟩
    simp only [upsertVoter, hany, if_true, List.map_map]
    refine List.Nodup.map_on (fun s hs t ht h => hinj s hs t ht ?_) (hd.1.of_map _)
    simpa [apply_ite Server.address] using h
  · -- appended: neither `id` nor `addr` occurs in `c`
    have hnot : ∀ s ∈ c, s.id ≠ id := fun s hs hid =>
      hany (List.any_eq_true.mpr ⟨s, hs, decide_eq_true hid⟩)
    have hnoaddr : ∀ s ∈ c, s.address ≠ addr := fun s hs haddr => hfree ⟨s, hs, hnot s hs, haddr⟩
    rw [upsertVoter_of_forall_ne addr hnot]
    exact ⟨nodup_map_concat hd.1 hnot, nodup_map_concat hd.2 hnoaddr⟩

theorem upsertVoter_not_distinct {c : Configuration} {id : ServerID} {addr : ServerAddress}
    (h : AddressTaken c id addr) : ¬Distinct (upsertVoter c id addr) := by
  obtain ⟨s, hs, hsid, hsaddr⟩ := h
  intro hd
  have hst := hd.eq_of_address (mem_upsertVoter_of_ne hs hsid) (mem_upsertVoter_self c id addr) hsaddr
  exact hsid (by rw [hst])

variable {ρ : Type}

section Join

variable (rf : Raft ρ) (id : ServerID) (addr : ServerAddress)

/-- The loop of `Join` over the configuration it read. `none`: the loop ran to
its end; `some err`: `Join` returned `err` from inside it. -/
def joinLoop : ρ → List Server → ρ × Option (Option Error)
  | r, [] => (r, none)
  | r, srv::srvs =>
    if srv.id = id ∨ srv.address = addr then
      if srv.address = addr ∧ srv.id = id then (r, some none)
      else
        match rf.removeServer r id with
        | (r, some e) => (r, some (some (.removingNode id addr e)))
        | (r, none) => joinLoop r srvs
    else joinLoop r srvs

def join (r : ρ) : ρ × Option Error :=
  match rf.getConfiguration r with
  | .error e => (r, some e)
  | .ok c =>
    match joinLoop rf id addr r c with
    | (r, some err) => (r, err)
    | (r, none) => rf.addVoter r id addr

def leave (r : ρ) : ρ × Option Error := rf.removeServer r id

end Join

inductive Call where
  | join (id : ServerID) (addr : ServerAddress)
  | leave (id : ServerID)
  deriving DecidableEq, Repr

def exec (rf : Raft ρ) (r : ρ) : Call → ρ × Option Error
  | .join id addr => join rf id addr r
  | .leave id => leave rf id r

def Call.touches (x : ServerID) : Call → Bool
  | .join id _ => id == x
  | .leave id => id == x

/-- An idealised raft on the leader, seen through its configuration: every
removal is accepted, and a new voter is accepted exactly when the
configuration it leads to has no duplicate address. hashicorp/raft refuses
more (`Raft.Checking`): a server without an ID or an address, and a
configuration without a voter. -/
structure Raft.Lawful (rf : Raft ρ) (config : ρ → Configuration) : Prop where
  getConfiguration_ok : ∀ r, rf.getConfiguration r = .ok (config r)
  removeServer_ok : ∀ r x, (rf.removeServer r x).2 = none
  config_removeServer : ∀ r x, config (rf.removeServer r x).1 = (config r).filter (fun s => s.id ≠ x)
  addVoter_taken : ∀ r id addr, AddressTaken (config r) id addr →
    ∃ e, rf.addVoter r id addr = (r, some e)
  addVoter_ok : ∀ r id addr, Distinct (config r) → ¬AddressTaken (config r) id addr →
    (rf.addVoter r id addr).2 = none ∧ config (rf.addVoter r id addr).1 = upsertVoter (config r) id addr

theorem joinLoop_of_exact (rf : Raft ρ) (id : ServerID) (addr : ServerAddress) (l : List Server) (r : ρ)
    (hl : ∀ s ∈ l, s.id = id ∨ s.address = addr → s.address = addr ∧ s.id = id)
    (h : ∃ s ∈ l, s.address = addr ∧ s.id = id) : joinLoop rf id addr r l = (r, some none) := by
  induction l with
  | nil => simp at h
  | cons srv l ih =>
    by_cases hm : srv.id = id ∨ srv.address = addr
    · simp only [joinLoop, if_pos hm, if_pos (hl srv List.mem_cons_self hm)]
    · simp only [joinLoop, if_neg hm]
      refine ih (fun s hs => hl s (List.mem_cons_of_mem _ hs)) ?_
      obtain ⟨s, hs, hex⟩ := h
      rcases List.mem_cons.mp hs with rfl | hs
      · exact absurd (Or.inl hex.2) hm
      · exact ⟨s, hs, hex⟩

section Read

variable {rf : Raft ρ} {id : ServerID} {addr : ServerAddress} {r : ρ} {c : Configuration}
  (hget : rf.getConfiguration r = .ok c)
include hget

theorem join_of_loop_none {r' : ρ} (h : joinLoop rf id addr r c = (r', none)) :
    join rf id addr r = rf.addVoter r' id addr := by
  simp only [join, hget, h]

theorem join_of_loop_some {r' : ρ} {err : Option Error} (h : joinLoop rf id addr r c = (r', some err)) :
    join rf id addr r = (r', err) := by
  simp only [join, hget, h]

theorem join_of_exact (hd : Distinct c) {s : Server} (hs : s ∈ c) (hsid : s.id = id) (hsaddr : s.address = addr) :
    join rf id addr r = (r, none) := by
  -- it is the only server with either, and the loop stops at it
  have hl : ∀ t ∈ c, t.id = id ∨ t.address = addr → t.address = addr ∧ t.id = id := by
    intro t ht hm
    have hts : t = s := by
      rcases hm with h | h
      · exact hd.eq_of_id ht hs (h.trans hsid.symm)
      · exact hd.eq_of_address ht hs (h.trans hsaddr.symm)
    rw [hts]
    exact ⟨hsaddr, hsid⟩
  exact join_of_loop_some hget (joinLoop_of_exact rf id addr c r hl ⟨s, hs, hsaddr, hsid⟩)

end Read

section Removals

variable {rf : Raft ρ} {config : ρ → Configuration} {id : ServerID} {addr : ServerAddress} (P : ρ → Prop)
  (hrm : ∀ r, P r → ∃ r', rf.removeServer r id = (r', none) ∧
    config r' = (config r).filter (fun s => s.id ≠ id) ∧ P r')
include hrm

theorem joinLoop_of_removals (l : List Server) (r : ρ) (hr : P r) (hl : ∀ s ∈ l, ¬(s.address = addr ∧ s.id = id)) :
    ∃ r', joinLoop rf id addr r l = (r', none) ∧ P r' ∧
      config r' = if ∃ s ∈ l, s.id = id ∨ s.address = addr then (config r).filter (fun s => s.id ≠ id) else config r := by
  induction l generalizing r with
  | nil => exact ⟨r, rfl, hr, by simp⟩
  | cons srv l ih =>
    have hl' : ∀ s ∈ l, ¬(s.address = addr ∧ s.id = id) := fun s hs => hl s (List.mem_cons_of_mem _ hs)
    by_cases hm : srv.id = id ∨ srv.address = addr
    · -- `id` is removed here; removing it again further on changes nothing
      obtain ⟨r₁, hr₁, hc₁, hP₁⟩ := hrm r hr
      obtain ⟨r', hloop, hP', hc'⟩ := ih r₁ hP₁ hl'
      refine ⟨r', ?_, hP', ?_⟩
      · simp only [joinLoop, if_pos hm, if_neg (hl srv List.mem_cons_self), hr₁, hloop]
      · rw [if_pos ⟨srv, List.mem_cons_self, hm⟩, hc', hc₁]
        split_ifs <;> simp [List.filter_filter]
    · have hiff : (∃ s ∈ srv::l, s.id = id ∨ s.address = addr) ↔ ∃ s ∈ l, s.id = id ∨ s.address = addr := by
        rw [List.exists_mem_cons_iff]
        exact or_iff_right hm
      obtain ⟨r', hloop, hP', hc'⟩ := ih r hr hl'
      refine ⟨r', ?_, hP', ?_⟩
      · simp only [joinLoop, if_neg hm, hloop]
      · simp only [hiff, hc']

theorem joinLoop_of_free_removals {r : ρ} (hr : P r) (hfree : ¬AddressTaken (config r) id addr)
    (hex : ¬∃ s ∈ config r, s.id = id ∧ s.address = addr) :
    ∃ r', joinLoop rf id addr r (config r) = (r', none) ∧ P r' ∧
      config r' = (config r).filter (fun s => ¬(s.id = id ∨ s.address = addr)) := by
  have hnox : ∀ t ∈ config r, ¬(t.address = addr ∧ t.id = id) := fun t ht hx => hex ⟨t, ht, hx.2, hx.1⟩
  obtain ⟨r', hloop, hP', hc'⟩ := joinLoop_of_removals P hrm (config r) r hr hnox
  refine ⟨r', hloop, hP', ?_⟩
  -- the servers at `addr` have ID `id`, so removing `id` removes them too
  have hfilter : (config r).filter (fun s => s.id ≠ id) =
      (config r).filter (fun s => ¬(s.id = id ∨ s.address = addr)) := by
    refine List.filter_congr fun s hs => ?_
    by_cases hsid : s.id = id
    · simp [hsid]
    · have haddr : s.address ≠ addr := fun h => hfree ⟨s, hs, hsid, h⟩
      simp [hsid, haddr]
  rw [hc', ← hfilter]
  split_ifs with hm
  · rfl
  · refine (List.filter_eq_self.mpr fun s hs => ?_).symm
    exact decide_eq_true fun h => hm ⟨s, hs, Or.inl h⟩

end Removals

section Lawful

variable {rf : Raft ρ} {config : ρ → Configuration} (hrf : rf.Lawful config)
include hrf

theorem removeServer_spec (r : ρ) (x : ServerID) :
    ∃ r', rf.removeServer r x = (r', none) ∧ config r' = (config r).filter (fun s => s.id ≠ x) :=
  ⟨_, Prod.ext rfl (hrf.removeServer_ok r x), hrf.config_removeServer r x⟩

theorem removals_lawful (x : ServerID) : ∀ r, True → ∃ r', rf.removeServer r x = (r', none) ∧
    config r' = (config r).filter (fun s => s.id ≠ x) ∧ True :=
  fun r _ => (removeServer_spec hrf r x).imp fun _ h => ⟨h.1, h.2, trivial⟩

theorem joinLoop_of_no_exact (id : ServerID) (addr : ServerAddress) (l : List Server) (r : ρ)
    (hl : ∀ s ∈ l, ¬(s.address = addr ∧ s.id = id)) :
    (joinLoop rf id addr r l).2 = none ∧
      config (joinLoop rf id addr r l).1 =
        if ∃ s ∈ l, s.id = id ∨ s.address = addr then (config r).filter (fun s => s.id ≠ id) else config r := by
  obtain ⟨r', hloop, -, hc⟩ := joinLoop_of_removals (fun _ => True) (removals_lawful hrf id) l r trivial hl
  rw [hloop]
  exact ⟨rfl, hc⟩

theorem join_of_joinLoop_none {id : ServerID} {addr : ServerAddress} {r r' : ρ}
    (h : joinLoop rf id addr r (config r) = (r', none)) : join rf id addr r = rf.addVoter r' id addr :=
  join_of_loop_none (hrf.getConfiguration_ok r) h

theorem join_of_joinLoop_some {id : ServerID} {addr : ServerAddress} {r r' : ρ} {err : Option Error}
    (h : joinLoop rf id addr r (config r) = (r', some err)) : join rf id addr r = (r', err) :=
  join_of_loop_some (hrf.getConfiguration_ok r) h

theorem joinLoop_config (id : ServerID) (addr : ServerAddress) (l : List Server) (r : ρ) :
    config (joinLoop rf id addr r l).1 = config r ∨
      config (joinLoop rf id addr r l).1 = (config r).filter (fun s => s.id ≠ id) := by
  induction l generalizing r with
  | nil => exact Or.inl rfl
  | cons srv l ih =>
    by_cases hm : srv.id = id ∨ srv.address = addr
    · by_cases hex : srv.address = addr ∧ srv.id = id
      · simp only [joinLoop, if_pos hm, if_pos hex, true_or]
      · -- `id` is removed here; removing it again further on changes nothing
        obtain ⟨r', hr', hc⟩ := removeServer_spec hrf r id
        simp only [joinLoop, if_pos hm, if_neg hex, hr']
        rcases ih r' with h | h <;> rw [h, hc]
        · exact Or.inr rfl
        · exact Or.inr (by simp [List.filter_filter])
    · simp only [joinLoop, if_neg hm]
      exact ih r

theorem join_config_cases (id : ServerID) (addr : ServerAddress) (r : ρ) (hd : Distinct (config r)) :
    ∃ c', (c' = config r ∨ c' = (config r).filter (fun s => s.id ≠ id)) ∧
      (config (join rf id addr r).1 = c' ∨
        ¬AddressTaken c' id addr ∧ config (join rf id addr r).1 = upsertVoter c' id addr) := by
  rcases hl : joinLoop rf id addr r (config r) with ⟨r', res⟩
  have hc' : config r' = config r ∨ config r' = (config r).filter (fun s => s.id ≠ id) := by
    have h := joinLoop_config hrf id addr (config r) r
    rw [hl] at h
    exact h
  refine ⟨config r', hc', ?_⟩
  cases res with
  | some err =>
    rw [join_of_joinLoop_some hrf hl]
    exact Or.inl rfl
  | none =>
    rw [join_of_joinLoop_none hrf hl]
    by_cases ht : AddressTaken (config r') id addr
    · obtain ⟨e, he⟩ := hrf.addVoter_taken r' id addr ht
      rw [he]
      exact Or.inl rfl
    · exact Or.inr ⟨ht, (hrf.addVoter_ok r' id addr (hd.of_eq_or_filter hc') ht).2⟩

theorem join_distinct (id : ServerID) (addr : ServerAddress) (r : ρ) (hd : Distinct (config r)) :
    Distinct (config (join rf id addr r).1) := by
  obtain ⟨c', hc', h⟩ := join_config_cases hrf id addr r hd
  rcases h with h | ⟨ht, h⟩ <;> rw [h]
  · exact hd.of_eq_or_filter hc'
  · exact upsertVoter_distinct (hd.of_eq_or_filter hc') ht

theorem join_keeps_other (id : ServerID) (addr : ServerAddress) (r : ρ) (hd : Distinct (config r))
    {s : Server} (hs : s ∈ config r) (hsid : s.id ≠ id) : s ∈ config (join rf id addr r).1 := by
  obtain ⟨c', hc', h⟩ := join_config_cases hrf id addr r hd
  have hs' : s ∈ c' := by
    rcases hc' with rfl | rfl
    · exact hs
    · exact List.mem_filter.mpr ⟨hs, decide_eq_true hsid⟩
  rcases h with h | ⟨-, h⟩ <;> rw [h]
  · exact hs'
  · exact mem_upsertVoter_of_ne hs' hsid

theorem exec_distinct (r : ρ) (c : Call) (hd : Distinct (config r)) : Distinct (config (exec rf r c).1) := by
  cases c with
  | join id addr => exact join_distinct hrf id addr r hd
  | leave id =>
    obtain ⟨r', hr', hc⟩ := removeServer_spec hrf r id
    simp only [exec, leave, hr']
    exact hc ▸ hd.filter _

theorem exec_keeps_other (r : ρ) (c : Call) (hd : Distinct (config r)) {s : Server} (hs : s ∈ config r)
    (hc : c.touches s.id = false) : s ∈ config (exec rf r c).1 := by
  cases c with
  | join id addr => exact join_keeps_other hrf id addr r hd hs fun h => by simp [Call.touches, h] at hc
  | leave id =>
    obtain ⟨r', hr', hc'⟩ := removeServer_spec hrf r id
    simp only [exec, leave, hr']
    rw [hc']
    exact List.mem_filter.mpr ⟨hs, decide_eq_true fun h => by simp [Call.touches, h] at hc⟩

theorem join_of_member {id : ServerID} {addr : ServerAddress} {r : ρ} (hd : Distinct (config r))
    {s : Server} (hs : s ∈ config r) (hsid : s.id = id) (hsaddr : s.address = addr) :
    join rf id addr r = (r, none) :=
  join_of_exact (hrf.getConfiguration_ok r) hd hs hsid hsaddr

theorem joinLoop_of_free {id : ServerID} {addr : ServerAddress} {r : ρ}
    (hfree : ¬AddressTaken (config r) id addr) (hex : ¬∃ s ∈ config r, s.id = id ∧ s.address = addr) :
    ∃ r', joinLoop rf id addr r (config r) = (r', none) ∧
      config r' = (config r).filter (fun s => ¬(s.id = id ∨ s.address = addr)) := by
  obtain ⟨r', hloop, -, hc⟩ := joinLoop_of_free_removals (fun _ => True) (removals_lawful hrf id) trivial hfree hex
  exact ⟨r', hloop, hc⟩

theorem join_of_free {id : ServerID} {addr : ServerAddress} {r : ρ} (hd : Distinct (config r))
    (hfree : ¬AddressTaken (config r) id addr) (hex : ¬∃ s ∈ config r, s.id = id ∧ s.address = addr) :
    (join rf id addr r).2 = none ∧
      config (join rf id addr r).1 = (config r).filter (fun s => ¬(s.id = id ∨ s.address = addr))++[⟨.voter, id, addr⟩] := by
  obtain ⟨r', hr', hc'⟩ := joinLoop_of_free hrf hfree hex
  -- what is left is still without duplicates, without `id`, and without `addr`
  have hd' : Distinct (config r') := hc' ▸ hd.filter _
  have hfree' : ¬AddressTaken (config r') id addr := by
    rintro ⟨s, hs, hsid, hsaddr⟩
    rw [hc'] at hs
    exact hfree ⟨s, (List.mem_filter.mp hs).1, hsid, hsaddr⟩
  have hnoid : ∀ s ∈ config r', s.id ≠ id := by
    intro s hs hsid
    rw [hc'] at hs
    simp [List.mem_filter, hsid] at hs
  obtain ⟨h3, h4⟩ := hrf.addVoter_ok r' id addr hd' hfree'
  rw [join_of_joinLoop_none hrf hr', ← hc']
  exact ⟨h3, h4.trans (upsertVoter_of_forall_ne addr hnoid)⟩

end Lawful

/-- A raft whose state is its configuration, checked after every change. -/
def listRaft : Raft Configuration where
  getConfiguration c := .ok c
  removeServer c x := (c.filter (fun s => s.id ≠ x), none)
  addVoter c id addr :=
    if Distinct (upsertVoter c id addr) then (upsertVoter c id addr, none)
    else (c, some (.new "duplicate ID or address in configuration"))

theorem listRaft_lawful : listRaft.Lawful (fun c => c) where
  getConfiguration_ok _ := rfl
  removeServer_ok _ _ := rfl
  config_removeServer _ _ := rfl
  addVoter_taken c id addr h := by
    refine ⟨.new "duplicate ID or address in configuration", ?_⟩
    simp only [listRaft, if_neg (upsertVoter_not_distinct h)]
  addVoter_ok c id addr hd h := by
    simp only [listRaft, if_pos (upsertVoter_distinct hd h), and_self]

/-- When the joining address is held by a server with another ID, `Join`
fails: it removes only the joining ID, and raft refuses the voter that would
share the address. The configuration is left without the joining ID. -/
theorem join_address_held_fails {rf : Raft ρ} {config : ρ → Configuration} (hrf : rf.Lawful config)
    (r : ρ) (id : ServerID) (addr : ServerAddress) (hd : Distinct (config r))
    (h : AddressTaken (config r) id addr) :
    (join rf id addr r).2 ≠ none ∧ config (join rf id addr r).1 = (config r).filter (fun s => s.id ≠ id) := by
  obtain ⟨s, hs, hsid, hsaddr⟩ := h
  -- `s` is the only server at `addr`, so no server holds both
  have hnox : ∀ t ∈ config r, ¬(t.address = addr ∧ t.id = id) := by
    intro t ht hx
    have hst := hd.eq_of_address hs ht (hsaddr.trans hx.1.symm)
    exact hsid (by rw [hst]; exact hx.2)
  obtain ⟨h1, h2⟩ := joinLoop_of_no_exact hrf id addr (config r) r hnox
  obtain ⟨r', hr'⟩ : ∃ r', joinLoop rf id addr r (config r) = (r', none) := ⟨_, Prod.ext rfl h1⟩
  simp only [hr'] at h2
  rw [if_pos ⟨s, hs, Or.inr hsaddr⟩] at h2
  -- `s` survives the removal of `id`, so `AddVoter` still finds `addr` taken
  have htaken : AddressTaken (config r') id addr :=
    ⟨s, by rw [h2]; exact List.mem_filter.mpr ⟨hs, decide_eq_true hsid⟩, hsid, hsaddr⟩
  obtain ⟨e, he⟩ := hrf.addVoter_taken r' id addr htaken
  rw [join_of_joinLoop_none hrf hr', he]
  exact ⟨by simp, h2⟩

theorem join_address_held_fails_listRaft :
    let c : Configuration := [⟨.voter, [110, 48], [97, 48]⟩, ⟨.voter, [110, 49], [97, 49]⟩]
    Distinct c ∧ AddressTaken c [110, 50] [97, 49] ∧
      (join listRaft [110, 50] [97, 49] c).2 ≠ none ∧
      (join listRaft [110, 50] [97, 49] c).1 = c.filter (fun s => s.id ≠ [110, 50]) := by
  intro c
  have hd : Distinct c := by decide
  have ht : AddressTaken c [110, 50] [97, 49] := by decide
  exact ⟨hd, ht, join_address_held_fails listRaft_lawful c [110, 50] [97, 49] hd ht⟩

/-- When no server holds the joining address under another ID, `Join`
returns nil: the configuration is unchanged when a server already has both
the ID and the address, and otherwise loses the servers with that ID or that
address and gains the joining node as a voter. -/
theorem join_reconciles_configuration {rf : Raft ρ} {config : ρ → Configuration} (hrf : rf.Lawful config)
    (r : ρ) (id : ServerID) (addr : ServerAddress) (hd : Distinct (config r))
    (hfree : ¬AddressTaken (config r) id addr) :
    (join rf id addr r).2 = none ∧
      config (join rf id addr r).1 =
        if ∃ s ∈ config r, s.id = id ∧ s.address = addr then config r
        else (config r).filter (fun s => ¬(s.id = id ∨ s.address = addr))++[⟨.voter, id, addr⟩] := by
  by_cases hex : ∃ s ∈ config r, s.id = id ∧ s.address = addr
  · obtain ⟨s, hs, hsid, hsaddr⟩ := hex
    rw [join_of_member hrf hd hs hsid hsaddr, if_pos ⟨s, hs, hsid, hsaddr⟩]
    exact ⟨rfl, rfl⟩
  · rw [if_neg hex]
    exact join_of_free hrf hd hfree hex

theorem join_reconciles_configuration_listRaft :
    let c : Configuration := [⟨.voter, [110, 48], [97, 48]⟩, ⟨.voter, [110, 49], [97, 49]⟩]
    Distinct c ∧ ¬AddressTaken c [110, 49] [97, 50] ∧
      (join listRaft [110, 49] [97, 50] c).2 = none ∧
      (join listRaft [110, 49] [97, 50] c).1 =
        if ∃ s ∈ c, s.id = [110, 49] ∧ s.address = [97, 50] then c
        else c.filter (fun s => ¬(s.id = [110, 49] ∨ s.address = [97, 50]))++[⟨.voter, [110, 49], [97, 50]⟩] := by
  intro c
  have hd : Distinct c := by decide
  have hfree : ¬AddressTaken c [110, 49] [97, 50] := by decide
  exact ⟨hd, hfree, join_reconciles_configuration listRaft_lawful c [110, 49] [97, 50] hd hfree⟩

/-- From a configuration without duplicates, a server stays through every
sequence of `Join` and `Leave` calls that do not name its ID, whatever each
call returns: no call evicts another node. -/
theorem membership_calls_keep_untouched {rf : Raft ρ} {config : ρ → Configuration} (hrf : rf.Lawful config)
    (r : ρ) (calls : List Call) (hd : Distinct (config r)) {s : Server} (hs : s ∈ config r)
    (hcalls : ∀ c ∈ calls, c.touches s.id = false) : s ∈ config (Machine.run (exec rf) r calls) := by
  have h := Machine.run_invariant_on (exec rf) (I := fun r => Distinct (config r) ∧ s ∈ config r)
    (P := fun c => c.touches s.id = false)
    (fun r c hc h => ⟨exec_distinct hrf r c h.1, exec_keeps_other hrf r c h.1 h.2 hc⟩) calls r hcalls ⟨hd, hs⟩
  exact h.2

theorem membership_calls_keep_untouched_listRaft :
    let c : Configuration := [⟨.voter, [110, 48], [97, 48]⟩, ⟨.voter, [110, 49], [97, 49]⟩]
    let calls : List Call := [.join [110, 50] [97, 49], .join [110, 49] [97, 50], .leave [110, 49], .join [110, 51] [97, 51]]
    Distinct c ∧ ⟨.voter, [110, 48], [97, 48]⟩ ∈ c ∧ (∀ a ∈ calls, a.touches [110, 48] = false) ∧
      ⟨.voter, [110, 48], [97, 48]⟩ ∈ Machine.run (exec listRaft) c calls := by
  intro c calls
  have hd : Distinct c := by decide
  have hs : (⟨.voter, [110, 48], [97, 48]⟩ : Server) ∈ c := by decide
  have hcalls : ∀ a ∈ calls, a.touches [110, 48] = false := by decide
  exact ⟨hd, hs, hcalls, membership_calls_keep_untouched listRaft_lawful c calls hd hs hcalls⟩

/-- `checkConfiguration` of hashicorp/raft. -/
structure Checked (c : Configuration) : Prop where
  named : ∀ s ∈ c, s.id ≠ [] ∧ s.address ≠ []
  distinct : Distinct c
  voter : ∃ s ∈ c, s.suffrage = .voter

instance (c : Configuration) : Decidable (Checked c) :=
  decidable_of_iff ((∀ s ∈ c, s.id ≠ [] ∧ s.address ≠ []) ∧ Distinct c ∧ ∃ s ∈ c, s.suffrage = .voter)
    ⟨fun ⟨h1, h2, h3⟩ => ⟨h1, h2, h3⟩, fun h => ⟨h.named, h.distinct, h.voter⟩⟩

/-- Raft on the leader as hashicorp/raft has it: `RemoveServer` and `AddVoter`
compute the next configuration (the removal drops the first server with the
ID, which on a checked configuration is every one) and raft takes it when it
passes `checkConfiguration`; otherwise the call fails and raft stays as it was. -/
structure Raft.Checking (rf : Raft ρ) (config : ρ → Configuration) : Prop where
  getConfiguration_ok : ∀ r, rf.getConfiguration r = .ok (config r)
  removeServer_checked : ∀ r x, Checked ((config r).filter (fun s => s.id ≠ x)) →
    (rf.removeServer r x).2 = none ∧ config (rf.removeServer r x).1 = (config r).filter (fun s => s.id ≠ x)
  removeServer_refused : ∀ r x, ¬Checked ((config r).filter (fun s => s.id ≠ x)) →
    ∃ e, rf.removeServer r x = (r, some e)
  addVoter_checked : ∀ r id addr, Checked (upsertVoter (config r) id addr) →
    (rf.addVoter r id addr).2 = none ∧ config (rf.addVoter r id addr).1 = upsertVoter (config r) id addr
  addVoter_refused : ∀ r id addr, ¬Checked (upsertVoter (config r) id addr) →
    ∃ e, rf.addVoter r id addr = (r, some e)

theorem Checked.filter {c : Configuration} (hc : Checked c) (p : Server → Bool)
    (hv : ∃ s ∈ c, s.suffrage = .voter ∧ p s = true) : Checked (c.filter p) := by
  obtain ⟨s, hs, hsv, hps⟩ := hv
  refine ⟨fun t ht => hc.named t (List.mem_filter.mp ht).1, hc.distinct.filter p, ?_⟩
  exact ⟨s, List.mem_filter.mpr ⟨hs, hps⟩, hsv⟩

theorem Checked.filter_ne {c : Configuration} (hc : Checked c) {x : ServerID}
    (hv : ∃ s ∈ c, s.suffrage = .voter ∧ s.id ≠ x) : Checked (c.filter (fun s => s.id ≠ x)) := by
  obtain ⟨s, hs, hsv, hsid⟩ := hv
  exact hc.filter _ ⟨s, hs, hsv, decide_eq_true hsid⟩

theorem mem_upsertVoter {c : Configuration} {id : ServerID} {addr : ServerAddress} {s : Server}
    (h : s ∈ upsertVoter c id addr) : s ∈ c ∨ s = ⟨.voter, id, addr⟩ := by
  unfold upsertVoter at h
  split_ifs at h
  · obtain ⟨t, ht, rfl⟩ := List.mem_map.mp h
    by_cases htid : t.id = id
    · exact Or.inr (if_pos htid)
    · exact Or.inl (by rw [if_neg htid]; exact ht)
  · rcases List.mem_append.mp h with h | h
    · exact Or.inl h
    · exact Or.inr (List.mem_singleton.mp h)

theorem checked_upsertVoter {c : Configuration} (hc : Checked c) {id : ServerID} {addr : ServerAddress}
    (hid : id ≠ []) (haddr : addr ≠ []) (hfree : ¬AddressTaken c id addr) : Checked (upsertVoter c id addr) := by
  refine ⟨fun s hs => ?_, upsertVoter_distinct hc.distinct hfree, ⟨_, mem_upsertVoter_self c id addr, rfl⟩⟩
  rcases mem_upsertVoter hs with hs | rfl
  · exact hc.named s hs
  · exact ⟨hid, haddr⟩

theorem not_checked_upsertVoter {c : Configuration} {id : ServerID} {addr : ServerAddress}
    (h : id = [] ∨ addr = []) : ¬Checked (upsertVoter c id addr) := fun hc =>
  have hnamed := hc.named _ (mem_upsertVoter_self c id addr)
  h.elim hnamed.1 hnamed.2

section Checking

variable {rf : Raft ρ} {config : ρ → Configuration} (hrf : rf.Checking config)
include hrf

theorem removeServer_of_checked {r : ρ} {x : ServerID} (h : Checked ((config r).filter (fun s => s.id ≠ x))) :
    ∃ r', rf.removeServer r x = (r', none) ∧ config r' = (config r).filter (fun s => s.id ≠ x) :=
  ⟨_, Prod.ext rfl (hrf.removeServer_checked r x h).1, (hrf.removeServer_checked r x h).2⟩

theorem checked_removeServer (r : ρ) (x : ServerID) (hc : Checked (config r)) :
    Checked (config (rf.removeServer r x).1) := by
  by_cases h : Checked ((config r).filter (fun s => s.id ≠ x))
  · rw [(hrf.removeServer_checked r x h).2]
    exact h
  · obtain ⟨e, he⟩ := hrf.removeServer_refused r x h
    rw [he]
    exact hc

theorem checked_addVoter (r : ρ) (id : ServerID) (addr : ServerAddress) (hc : Checked (config r)) :
    Checked (config (rf.addVoter r id addr).1) := by
  by_cases h : Checked (upsertVoter (config r) id addr)
  · rw [(hrf.addVoter_checked r id addr h).2]
    exact h
  · obtain ⟨e, he⟩ := hrf.addVoter_refused r id addr h
    rw [he]
    exact hc

theorem checked_joinLoop (id : ServerID) (addr : ServerAddress) (l : List Server) (r : ρ)
    (hc : Checked (config r)) : Checked (config (joinLoop rf id addr r l).1) := by
  induction l generalizing r with
  | nil => exact hc
  | cons srv l ih =>
    have hr' := checked_removeServer hrf r id hc
    simp only [joinLoop]
    split_ifs
    · exact hc
    · rcases hrm : rf.removeServer r id with ⟨r', _ | e⟩ <;> rw [hrm] at hr'
      · exact ih r' hr'
      · exact hr'
    · exact ih r hc

theorem checked_join (id : ServerID) (addr : ServerAddress) (r : ρ) (hc : Checked (config r)) :
    Checked (config (join rf id addr r).1) := by
  have hl := checked_joinLoop hrf id addr (config r) r hc
  rcases hloop : joinLoop rf id addr r (config r) with ⟨r', _ | err⟩ <;> rw [hloop] at hl
  · rw [join_of_loop_none (hrf.getConfiguration_ok r) hloop]
    exact checked_addVoter hrf r' id addr hl
  · rw [join_of_loop_some (hrf.getConfiguration_ok r) hloop]
    exact hl

theorem join_of_absent_checked {id : ServerID} {addr : ServerAddress} {r : ρ} (hc : Checked (config r))
    (hid : ∀ s ∈ config r, s.id ≠ id) :
    config (join rf id addr r).1 =
      if id ≠ [] ∧ addr ≠ [] ∧ ¬∃ s ∈ config r, s.address = addr then config r++[⟨.voter, id, addr⟩]
      else config r := by
  -- removing the absent ID keeps the configuration, which stays checked
  have hkeep : (config r).filter (fun s => s.id ≠ id) = config r :=
    List.filter_eq_self.mpr fun s hs => decide_eq_true (hid s hs)
  have hrm : ∀ r₁, config r₁ = config r → ∃ r', rf.removeServer r₁ id = (r', none) ∧
      config r' = (config r₁).filter (fun s => s.id ≠ id) ∧ config r' = config r := by
    intro r₁ h₁
    obtain ⟨r', hr', hc'⟩ := removeServer_of_checked hrf (show Checked ((config r₁).filter _) by rwa [h₁, hkeep])
    exact ⟨r', hr', hc', by rw [hc', h₁, hkeep]⟩
  have hnox : ∀ t ∈ config r, ¬(t.address = addr ∧ t.id = id) := fun t ht hx => hid t ht hx.2
  obtain ⟨r', hloop, hr', -⟩ := joinLoop_of_removals (fun r₁ => config r₁ = config r) hrm (config r) r rfl hnox
  rw [join_of_loop_none (hrf.getConfiguration_ok r) hloop]
  have hup : upsertVoter (config r') id addr = config r++[⟨.voter, id, addr⟩] := by
    rw [hr', upsertVoter_of_forall_ne addr hid]
  split_ifs with hgood
  · obtain ⟨hid', haddr', hfree⟩ := hgood
    have hchecked : Checked (upsertVoter (config r') id addr) := by
      rw [hr']
      exact checked_upsertVoter hc hid' haddr' fun ⟨s, hs, _, hsaddr⟩ => hfree ⟨s, hs, hsaddr⟩
    rw [(hrf.addVoter_checked r' id addr hchecked).2, hup]
  · -- without an ID or an address, or at a held address, the voter fails the check
    have hrefused : ¬Checked (upsertVoter (config r') id addr) := by
      intro hchecked
      by_cases hnamed : id = [] ∨ addr = []
      · exact not_checked_upsertVoter hnamed hchecked
      · obtain ⟨s, hs, hsaddr⟩ : ∃ s ∈ config r, s.address = addr := by tauto
        rw [hr'] at hchecked
        exact upsertVoter_not_distinct ⟨s, hs, hid s hs, hsaddr⟩ hchecked.distinct
    obtain ⟨e, he⟩ := hrf.addVoter_refused r' id addr hrefused
    rw [he]
    exact hr'

end Checking

/-- A raft whose state is its configuration, checked as hashicorp/raft checks
every change. -/
def checkedRaft : Raft Configuration where
  getConfiguration c := .ok c
  removeServer c x :=
    if Checked (c.filter (fun s => s.id ≠ x)) then (c.filter (fun s => s.id ≠ x), none)
    else (c, some (.new "configuration refused"))
  addVoter c id addr :=
    if Checked (upsertVoter c id addr) then (upsertVoter c id addr, none)
    else (c, some (.new "configuration refused"))

theorem checkedRaft_checking : checkedRaft.Checking (fun c => c) where
  getConfiguration_ok _ := rfl
  removeServer_checked c x h := by simp only [checkedRaft, if_pos h, and_self]
  removeServer_refused c x h := ⟨.new "configuration refused", by simp only [checkedRaft, if_neg h]⟩
  addVoter_checked c id addr h := by simp only [checkedRaft, if_pos h, and_self]
  addVoter_refused c id addr h := ⟨.new "configuration refused", by simp only [checkedRaft, if_neg h]⟩

end DistributedKv.Membership
