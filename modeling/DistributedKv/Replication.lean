import DistributedKv.FsmApply
import DistributedKv.FsmSnapshot

/-!
# The replicated store

Every node runs an `FSM` over its own storer, and raft reaches the storer
through the FSM interface alone. It hands `Apply` the node's next committed
entry; it takes a snapshot (`Snapshot`, then `Persist` into the node's
snapshot store, which keeps the newest `retainSnapshotCount`); it has a node
install the newest snapshot of another (`Restore`); and when a node reopens
after `Store.Shutdown` it restores the node's own newest snapshot, or starts
over from the first entry. Raft itself is the committed log `log`: the
entries it hands to `Apply`, in order, the same at each index on every node.
Which node moves when is any interleaving of those calls.

As long as no committed write has `\r\n` in its key or its value, every
replica holds, after every run, the replay of the writes of the committed
entries it has been handed: replicas that have applied as many entries
agree, and `Store.Get` on any of them reads the last committed write of its
key. A node whose raft failed to shut down skips `Clear`, and reopens over
the bindings it kept: it then holds the writes of committed prefixes it
held before, under the prefix it is handed again, and exactly that prefix's
replay once it has been handed as much as it held.
-/

set_option autoImplicit false

namespace DistributedKv.Replication

open DistributedKv.BigEndian DistributedKv.Types DistributedKv.Fsm DistributedKv.PebbleDB

variable {σ : Type}

def retainSnapshotCount : ℕ := 2

/-- A node as raft's calls on its FSM leave it: the committed entries its
FSM reflects (those handed to `Apply`, from the index of the snapshot it
restored last), its storer, and its snapshot store, newest first, each
snapshot with its index and the bytes `Persist` wrote. -/
structure Replica (σ : Type) where
  applied : ℕ
  state : σ
  snapshots : List (ℕ × Bytes)

/-- What raft does to the FSM of node `i`: `Apply` of its next committed
entry; `Snapshot`, then `Persist` ranging over the map in `order`;
`InstallSnapshot` of the newest snapshot of node `j`, which it keeps and
restores; `Store.Shutdown`, with what raft's own shutdown returned, then the
node reopened. -/
inductive Event where
  | apply (i : ℕ)
  | snapshot (i : ℕ) (order : List (Bytes × Bytes))
  | install (i j : ℕ)
  | restart (i : ℕ) (raftErr : Option Error)
  deriving DecidableEq, Repr

def Event.shutdownClears : Event → Bool
  | .restart _ raftErr => raftErr.isNone
  | _ => true

section Step

variable (st : Storer σ) (pc : ProtoCodec) (log : List Log)

def Replica.keep (r : Replica σ) (snap : ℕ × Bytes) : List (ℕ × Bytes) :=
  (snap::r.snapshots).take retainSnapshotCount

/-- Raft restores the newest snapshot the node holds and takes its index as
applied; with no snapshot the node starts over from the first entry. A
restore that fails leaves the storer as `Restore` left it. -/
def restoreNewest (r : Replica σ) : Replica σ :=
  match r.snapshots with
  | [] => { r with applied := 0 }
  | (index, bytes)::_ =>
    match restore st r.state bytes with
    | (s, none) => { r with applied := index, state := s }
    | (s, some _) => { r with state := s }

def step (c : ℕ → Replica σ) : Event → ℕ → Replica σ
  | .apply i =>
    match log[(c i).applied]? with
    | some l => Function.update c i { c i with applied := (c i).applied+1, state := (apply st pc (c i).state l).1 }
    | none => c
  | .snapshot i order =>
    -- `Persist` ranges over the map `Snapshot` returned, in an order of its own
    if order.Perm (GoMap.pairs (snapshot st (c i).state)) then
      match persist bufferSink order [] with
      | (bytes, none) => Function.update c i { c i with snapshots := (c i).keep ((c i).applied, bytes) }
      | (_, some _) => c
    else c
  | .install i j =>
    match (c j).snapshots with
    | [] => c
    | snap::_ => Function.update c i (restoreNewest st { c i with snapshots := (c i).keep snap })
  | .restart i raftErr =>
    Function.update c i (restoreNewest st { c i with state := (storeShutdown st raftErr (c i).state).1 })

def run (c : ℕ → Replica σ) (evs : List Event) : ℕ → Replica σ :=
  evs.foldl (step st pc log) c

def writes (n : ℕ) : List (Bytes × Option Bytes) :=
  (log.take n).filterMap (entryWrite pc)

def replayed (rs : List ℕ) (n : ℕ) : Bytes → Option Bytes :=
  Overwrite.replay (fun _ => none) (rs.flatMap (writes pc log)++writes pc log n)

def SnapSound (cleared : Prop) (snap : ℕ × Bytes) : Prop :=
  snap.1 ≤ log.length ∧ ∃ rs : List ℕ, (cleared → rs = []) ∧
    ∀ s, (restore st s snap.2).2 = none ∧ st.contents (restore st s snap.2).1 = replayed pc log rs snap.1

/-- What raft's calls keep of a node: its storer holds the replay of its
applied prefix after the prefixes `rs` it reopened over (none when
`cleared`), and each snapshot it keeps restores to such bindings. -/
structure Replica.Sound (cleared : Prop) (r : Replica σ) : Prop where
  applied_le : r.applied ≤ log.length
  contents : ∃ rs : List ℕ, (cleared → rs = []) ∧ st.contents r.state = replayed pc log rs r.applied
  snapshots : ∀ snap ∈ r.snapshots, SnapSound st pc log cleared snap

end Step

def CrlfFree (w : Bytes × Option Bytes) : Prop :=
  ¬[13, 10] <:+: w.1 ∧ ∀ v ∈ w.2, ¬[13, 10] <:+: v

instance (w : Bytes × Option Bytes) : Decidable (CrlfFree w) := by
  unfold CrlfFree; infer_instance

section Writes

variable {pc : ProtoCodec} {log : List Log}

@[simp] theorem writes_zero : writes pc log 0 = [] := by
  simp [writes]

theorem writes_succ {n : ℕ} {l : Log} (h : log[n]? = some l) :
    writes pc log (n+1) = writes pc log n++(entryWrite pc l).toList := by
  rw [writes, writes, List.take_add_one, h, List.filterMap_append]
  cases hw : entryWrite pc l <;> simp [hw]

theorem writes_sublist {m n : ℕ} (h : m ≤ n) : (writes pc log m).Sublist (writes pc log n) :=
  (List.take_sublist_take_left h).filterMap _

theorem mem_writes {n : ℕ} {w : Bytes × Option Bytes} (h : w ∈ writes pc log n) :
    w ∈ log.filterMap (entryWrite pc) :=
  ((List.take_sublist n log).filterMap _).subset h

theorem mem_of_replayed {rs : List ℕ} {n : ℕ} {k v : Bytes} (h : replayed pc log rs n k = some v) :
    (k, some v) ∈ log.filterMap (entryWrite pc) := by
  rcases Overwrite.replay_eq_some h with h0 | hmem
  · cases h0
  · rcases List.mem_append.mp hmem with hpre | hn
    · obtain ⟨r, -, hr⟩ := List.mem_flatMap.mp hpre
      exact mem_writes hr
    · exact mem_writes hn

theorem replayed_of_le {rs : List ℕ} {n : ℕ} (h : ∀ r ∈ rs, r ≤ n) :
    replayed pc log rs n = Overwrite.replay (fun _ => none) (writes pc log n) := by
  rw [replayed, Overwrite.replay_append]
  refine Overwrite.replay_replay_of_keys _ fun w hw => ⟨w, ?_, rfl⟩
  obtain ⟨r, hr, hwr⟩ := List.mem_flatMap.mp hw
  exact (writes_sublist (h r hr)).subset hwr

theorem replayed_succ_zero (rs : List ℕ) (n : ℕ) :
    replayed pc log rs n = replayed pc log (rs++[n]) 0 := by
  simp [replayed, List.flatMap_append]

end Writes

section Sound

variable {st : Storer σ} {pc : ProtoCodec} {log : List Log} {cleared : Prop}

theorem mem_keep {r : Replica σ} {snap snap' : ℕ × Bytes} (h : snap' ∈ r.keep snap) :
    snap' = snap ∨ snap' ∈ r.snapshots :=
  List.mem_cons.mp (List.mem_of_mem_take h)

theorem sound_update {c : ℕ → Replica σ} (h : ∀ k, (c k).Sound st pc log cleared) {i : ℕ} {r : Replica σ}
    (hr : r.Sound st pc log cleared) (k : ℕ) : (Function.update c i r k).Sound st pc log cleared := by
  by_cases hk : k = i
  · subst hk
    rw [Function.update_self]
    exact hr
  · rw [Function.update_of_ne hk]
    exact h k

theorem restoreNewest_sound {r : Replica σ}
    (hsnap : ∀ snap ∈ r.snapshots, SnapSound st pc log cleared snap)
    (hnone : r.snapshots = [] → ∃ rs : List ℕ, (cleared → rs = []) ∧ st.contents r.state = replayed pc log rs 0) :
    (restoreNewest st r).Sound st pc log cleared := by
  unfold restoreNewest
  cases hs : r.snapshots with
  | nil => exact ⟨Nat.zero_le _, hnone hs, fun snap hsnap => by simp at hsnap⟩
  | cons snap rest =>
    obtain ⟨index, bytes⟩ := snap
    obtain ⟨hle, rs, hrs, hrestore⟩ := hsnap (index, bytes) (by rw [hs]; exact List.mem_cons_self)
    obtain ⟨hok, hc⟩ := hrestore r.state
    obtain ⟨s', hs'⟩ : ∃ s', restore st r.state bytes = (s', none) := ⟨_, Prod.ext rfl hok⟩
    rw [hs'] at hc
    simp only [hs']
    exact ⟨hle, ⟨rs, hrs, hc⟩, hs ▸ hsnap⟩

theorem install_sound {r : Replica σ} (hr : r.Sound st pc log cleared) {snap : ℕ × Bytes}
    (hsnap : SnapSound st pc log cleared snap) :
    (restoreNewest st { r with snapshots := r.keep snap }).Sound st pc log cleared := by
  refine restoreNewest_sound (fun snap' hmem => ?_) fun hnil => ?_
  · rcases mem_keep hmem with rfl | hold
    · exact hsnap
    · exact hr.snapshots snap' hold
  · simp [Replica.keep, retainSnapshotCount] at hnil

variable (hst : st.Lawful)
include hst

theorem applyEntry_sound {r : Replica σ} (hr : r.Sound st pc log cleared) {l : Log} (hl : log[r.applied]? = some l) :
    ({ r with applied := r.applied+1, state := (apply st pc r.state l).1 } : Replica σ).Sound st pc log cleared := by
  obtain ⟨hlt, -⟩ := List.getElem?_eq_some_iff.mp hl
  obtain ⟨rs, hrs, hc⟩ := hr.contents
  have hc' : st.contents (apply st pc r.state l).1 = replayed pc log rs (r.applied+1) := by
    rw [contents_apply hst, hc, replayed, replayed, writes_succ hl, ← List.append_assoc]
    cases entryWrite pc l <;> simp [Overwrite.replay_append]
  exact ⟨hlt, ⟨rs, hrs, hc'⟩, hr.snapshots⟩

theorem restart_sound {r : Replica σ} (hr : r.Sound st pc log cleared) (raftErr : Option Error)
    (he : cleared → raftErr = none) :
    (restoreNewest st { r with state := (storeShutdown st raftErr r.state).1 }).Sound st pc log cleared := by
  refine restoreNewest_sound hr.snapshots fun _ => ?_
  obtain ⟨rs, hrs, hc⟩ := hr.contents
  cases raftErr with
  | none =>
    refine ⟨[], fun _ => rfl, ?_⟩
    funext x
    simp [storeShutdown, hst.contents_clear, replayed]
  | some err =>
    refine ⟨rs++[r.applied], fun hcl => absurd (he hcl) (by simp), ?_⟩
    rw [← replayed_succ_zero]
    exact hc

variable (hcrlf : ∀ w ∈ log.filterMap (entryWrite pc), CrlfFree w)
include hcrlf

theorem snapshot_sound {r : Replica σ} (hr : r.Sound st pc log cleared) {order : List (Bytes × Bytes)}
    (horder : order.Perm (GoMap.pairs (snapshot st r.state))) {bytes : Bytes}
    (hbytes : persist bufferSink order [] = (bytes, none)) :
    ({ r with snapshots := r.keep (r.applied, bytes) } : Replica σ).Sound st pc log cleared := by
  obtain ⟨rs, hrs, hc⟩ := hr.contents
  have hfree : ∀ x v, st.contents r.state x = some v → ¬[13, 10] <:+: x ∧ ¬[13, 10] <:+: v := by
    intro x v hx
    rw [hc] at hx
    have hw := hcrlf _ (mem_of_replayed hx)
    exact ⟨hw.1, hw.2 v rfl⟩
  have hrestore : ∀ s, (restore st s bytes).2 = none ∧ ∀ x, st.contents (restore st s bytes).1 x = st.contents r.state x := by
    intro s
    have h2 := (persist_restore_eq hst hfree horder s).2
    rw [hbytes] at h2
    exact h2
  refine ⟨hr.applied_le, hr.contents, fun snap hsnap => ?_⟩
  rcases mem_keep hsnap with rfl | hold
  · refine ⟨hr.applied_le, rs, hrs, fun s => ⟨(hrestore s).1, ?_⟩⟩
    funext x
    rw [(hrestore s).2 x, hc]
  · exact hr.snapshots snap hold

theorem sound_step {c : ℕ → Replica σ} (h : ∀ k, (c k).Sound st pc log cleared) (e : Event)
    (he : cleared → e.shutdownClears = true) (k : ℕ) : (step st pc log c e k).Sound st pc log cleared := by
  cases e with
  | apply i =>
    simp only [step]
    cases hl : log[(c i).applied]? with
    | none => exact h k
    | some l => exact sound_update h (applyEntry_sound hst (h i) hl) k
  | snapshot i order =>
    simp only [step]
    split_ifs with horder
    · cases hp : persist bufferSink order [] with
      | mk bytes err =>
        cases err with
        | none => exact sound_update h (snapshot_sound hst hcrlf (h i) horder hp) k
        | some _ => exact h k
    · exact h k
  | install i j =>
    simp only [step]
    cases hj : (c j).snapshots with
    | nil => exact h k
    | cons snap rest =>
      exact sound_update h (install_sound (h i) ((h j).snapshots snap (by rw [hj]; exact List.mem_cons_self))) k
  | restart i raftErr =>
    simp only [step]
    refine sound_update h (restart_sound hst (h i) raftErr fun hcl => ?_) k
    have hclears := he hcl
    cases raftErr with
    | none => rfl
    | some _ => simp [Event.shutdownClears] at hclears

theorem sound_run {c : ℕ → Replica σ} (h : ∀ k, (c k).Sound st pc log cleared) (evs : List Event)
    (hevs : ∀ e ∈ evs, cleared → e.shutdownClears = true) (k : ℕ) :
    (run st pc log c evs k).Sound st pc log cleared := by
  induction evs generalizing c with
  | nil => exact h k
  | cons e evs ih =>
    exact ih (sound_step hst hcrlf h e (hevs e List.mem_cons_self))
      (fun e' he' => hevs e' (List.mem_cons_of_mem e he'))

end Sound

theorem sound_init {st : Storer σ} {pc : ProtoCodec} {log : List Log} {c : ℕ → Replica σ}
    (hc : ∀ k, (c k).applied = 0 ∧ (∀ x, st.contents (c k).state x = none) ∧ (c k).snapshots = [])
    (cleared : Prop) (k : ℕ) : (c k).Sound st pc log cleared := by
  obtain ⟨h0, hempty, hsnap⟩ := hc k
  refine ⟨by omega, ⟨[], fun _ => rfl, ?_⟩, by simp [hsnap]⟩
  funext x
  simp [hempty, h0, replayed]

/-- A cluster that started empty, driven by raft through any interleaving of
`Apply`, snapshots, installs and restarts in which every `Shutdown` cleared
its storer, and whose committed writes hold no `\r\n`: each replica holds
exactly the replay of the writes of the committed entries it has been
handed, so replicas handed as many entries hold the same bindings. -/
theorem replicas_replay_applied_prefix {st : Storer σ} {pc : ProtoCodec} {log : List Log} (hst : st.Lawful)
    (hcrlf : ∀ w ∈ log.filterMap (entryWrite pc), CrlfFree w) {c : ℕ → Replica σ}
    (hc : ∀ k, (c k).applied = 0 ∧ (∀ x, st.contents (c k).state x = none) ∧ (c k).snapshots = [])
    (evs : List Event) (hevs : ∀ e ∈ evs, e.shutdownClears = true) :
    (∀ i, (run st pc log c evs i).applied ≤ log.length ∧
      st.contents (run st pc log c evs i).state =
        Overwrite.replay (fun _ => none) (writes pc log (run st pc log c evs i).applied)) ∧
    ∀ i j, (run st pc log c evs i).applied = (run st pc log c evs j).applied →
      st.contents (run st pc log c evs i).state = st.contents (run st pc log c evs j).state := by
  -- the invariant of runs that never reopen over an uncleared storer
  have hsound := sound_run hst hcrlf (sound_init hc True) evs (fun e he _ => hevs e he)
  have hrep : ∀ i, st.contents (run st pc log c evs i).state =
      Overwrite.replay (fun _ => none) (writes pc log (run st pc log c evs i).applied) := by
    intro i
    obtain ⟨rs, hrs, hcont⟩ := (hsound i).contents
    rw [hcont, hrs trivial, replayed_of_le (by simp)]
  refine ⟨fun i => ⟨(hsound i).applied_le, hrep i⟩, fun i j hij => ?_⟩
  rw [hrep i, hrep j, hij]

theorem replicas_replay_applied_prefix_three_nodes :
    let log : List Log := [⟨1, 1, 0, [1, 1, 107, 0, 118], []⟩, ⟨2, 1, 0, [2, 107], []⟩,
      ⟨3, 1, 0, [1, 1, 108, 0, 119], []⟩]
    let c : ℕ → Replica (SortedScan.SortedMap Bytes Bytes) := fun _ => ⟨0, sortedPebble.empty, []⟩
    let evs : List Event := [.apply 0, .apply 0, .snapshot 0 [], .install 1 0, .apply 1, .restart 0 none,
      .apply 2, .apply 0]
    (persistedStorer sortedPebble).Lawful ∧ (∀ w ∈ log.filterMap (entryWrite framedProto), CrlfFree w) ∧
      (∀ k, (c k).applied = 0 ∧ (∀ x, (persistedStorer sortedPebble).contents (c k).state x = none) ∧
        (c k).snapshots = []) ∧ (∀ e ∈ evs, e.shutdownClears = true) ∧
      (∀ i, (run (persistedStorer sortedPebble) framedProto log c evs i).applied ≤ log.length ∧
        (persistedStorer sortedPebble).contents (run (persistedStorer sortedPebble) framedProto log c evs i).state =
          Overwrite.replay (fun _ => none)
            (writes framedProto log (run (persistedStorer sortedPebble) framedProto log c evs i).applied)) ∧
      ∀ i j, (run (persistedStorer sortedPebble) framedProto log c evs i).applied =
          (run (persistedStorer sortedPebble) framedProto log c evs j).applied →
        (persistedStorer sortedPebble).contents (run (persistedStorer sortedPebble) framedProto log c evs i).state =
          (persistedStorer sortedPebble).contents (run (persistedStorer sortedPebble) framedProto log c evs j).state := by
  intro log c evs
  have hst := sortedPebble_persistedStorer_lawful
  have hcrlf : ∀ w ∈ log.filterMap (entryWrite framedProto), CrlfFree w := by decide
  have hc : ∀ k, (c k).applied = 0 ∧ (∀ x, (persistedStorer sortedPebble).contents (c k).state x = none) ∧
      (c k).snapshots = [] := fun _ => ⟨rfl, persistedStorer_contents_empty sortedPebble_lawful, rfl⟩
  have hevs : ∀ e ∈ evs, e.shutdownClears = true := by decide
  exact ⟨hst, hcrlf, hc, hevs, replicas_replay_applied_prefix hst hcrlf hc evs hevs⟩

/-- Any run of raft's calls on a cluster that started empty, whose committed
writes hold no `\r\n`, a `Shutdown` that fails before `Clear` included: each
replica holds the replay of committed prefixes it reopened over, followed by
the prefix it has been handed since. Every value it holds was written by a
committed entry, and once it has been handed as much as it held, it holds
exactly the replay of its applied prefix. -/
theorem replicas_hold_committed_writes {st : Storer σ} {pc : ProtoCodec} {log : List Log} (hst : st.Lawful)
    (hcrlf : ∀ w ∈ log.filterMap (entryWrite pc), CrlfFree w) {c : ℕ → Replica σ}
    (hc : ∀ k, (c k).applied = 0 ∧ (∀ x, st.contents (c k).state x = none) ∧ (c k).snapshots = [])
    (evs : List Event) (i : ℕ) :
    ∃ rs : List ℕ, st.contents (run st pc log c evs i).state =
        Overwrite.replay (fun _ => none) (rs.flatMap (writes pc log)++writes pc log (run st pc log c evs i).applied) ∧
      (∀ k v, st.contents (run st pc log c evs i).state k = some v → (k, some v) ∈ log.filterMap (entryWrite pc)) ∧
      ((∀ r ∈ rs, r ≤ (run st pc log c evs i).applied) →
        st.contents (run st pc log c evs i).state =
          Overwrite.replay (fun _ => none) (writes pc log (run st pc log c evs i).applied)) := by
  have hsound := sound_run hst hcrlf (sound_init hc False) evs (fun _ _ h => h.elim) i
  obtain ⟨rs, -, hcont⟩ := hsound.contents
  refine ⟨rs, hcont, fun k v hkv => ?_, fun hle => ?_⟩
  · rw [hcont] at hkv
    exact mem_of_replayed hkv
  · rw [hcont]
    exact replayed_of_le hle

theorem replicas_hold_committed_writes_three_nodes :
    let log : List Log := [⟨1, 1, 0, [1, 1, 107, 0, 118], []⟩, ⟨2, 1, 0, [2, 107], []⟩,
      ⟨3, 1, 0, [1, 1, 108, 0, 119], []⟩]
    let c : ℕ → Replica (SortedScan.SortedMap Bytes Bytes) := fun _ => ⟨0, sortedPebble.empty, []⟩
    let evs : List Event := [.apply 0, .apply 0, .restart 0 (some (.new "shutdown")), .apply 0, .install 1 0]
    (persistedStorer sortedPebble).Lawful ∧ (∀ w ∈ log.filterMap (entryWrite framedProto), CrlfFree w) ∧
      (∀ k, (c k).applied = 0 ∧ (∀ x, (persistedStorer sortedPebble).contents (c k).state x = none) ∧
        (c k).snapshots = []) ∧
      ∃ rs : List ℕ, (persistedStorer sortedPebble).contents (run (persistedStorer sortedPebble) framedProto log c evs 0).state =
          Overwrite.replay (fun _ => none)
            (rs.flatMap (writes framedProto log)++
              writes framedProto log (run (persistedStorer sortedPebble) framedProto log c evs 0).applied) ∧
        (∀ k v, (persistedStorer sortedPebble).contents
            (run (persistedStorer sortedPebble) framedProto log c evs 0).state k = some v →
          (k, some v) ∈ log.filterMap (entryWrite framedProto)) ∧
        ((∀ r ∈ rs, r ≤ (run (persistedStorer sortedPebble) framedProto log c evs 0).applied) →
          (persistedStorer sortedPebble).contents (run (persistedStorer sortedPebble) framedProto log c evs 0).state =
            Overwrite.replay (fun _ => none)
              (writes framedProto log (run (persistedStorer sortedPebble) framedProto log c evs 0).applied)) := by
  intro log c evs
  have hst := sortedPebble_persistedStorer_lawful
  have hcrlf : ∀ w ∈ log.filterMap (entryWrite framedProto), CrlfFree w := by decide
  have hc : ∀ k, (c k).applied = 0 ∧ (∀ x, (persistedStorer sortedPebble).contents (c k).state x = none) ∧
      (c k).snapshots = [] := fun _ => ⟨rfl, persistedStorer_contents_empty sortedPebble_lawful, rfl⟩
  exact ⟨hst, hcrlf, hc, replicas_hold_committed_writes hst hcrlf hc evs 0⟩

end DistributedKv.Replication
