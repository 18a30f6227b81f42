import DistributedKv.Fsm

/-!
# Applying the replicated log

Each entry `FSM.Apply` takes is, to a lawful storer, one write to a map or
nothing: a command with its case set writes its key, and data that does not
unmarshal, or a command without a case, leaves the storer as it was. So a
run of entries replays the list of their writes (`contents_run`).
`Store.apply` submits exactly the calls whose strings are UTF-8 made while a
leader is reported, and its payloads unmarshal to the very commands it was
given, which makes the run replay those calls; and since a replay depends on
the last write to each key alone, replaying a log over the state a prefix of
it already produced gives the state of one replay.
-/

set_option autoImplicit false

namespace DistributedKv.Fsm

open DistributedKv.BigEndian DistributedKv.Types DistributedKv.PebbleDB DistributedKv.SortedScan

variable {σ : Type}

def entryWrite (pc : ProtoCodec) (l : Log) : Option (Bytes × Option Bytes) :=
  match pc.unmarshal l.data with
  | .ok ⟨some (.set c)⟩ => some (c.key, some c.value)
  | .ok ⟨some (.delete c)⟩ => some (c.key, none)
  | _ => none

/-- The calls whose `Store.apply` submitted a payload, each with that payload. -/
def submitted (pc : ProtoCodec) (raftID : ServerID)
    (calls : List (Request × (ServerAddress × ServerID))) : List (Request × Bytes) :=
  calls.filterMap fun c => ((c.1.send pc raftID c.2).toOption).map fun sub => (c.1, sub.payload)

section Storer

variable {st : Storer σ} (hst : st.Lawful) (pc : ProtoCodec)
include hst

theorem contents_set_eq (s : σ) (k v : Bytes) :
    st.contents (st.set s k v).1 = Overwrite.write (st.contents s) (k, some v) := by
  funext k'
  rw [hst.contents_set, Overwrite.write_apply]

theorem contents_delete_eq (s : σ) (k : Bytes) :
    st.contents (st.delete s k).1 = Overwrite.write (st.contents s) (k, none) := by
  funext k'
  rw [hst.contents_delete, Overwrite.write_apply]

theorem contents_apply (s : σ) (l : Log) :
    st.contents (apply st pc s l).1 =
      match entryWrite pc l with
      | some w => Overwrite.write (st.contents s) w
      | none => st.contents s := by
  unfold apply entryWrite
  rcases pc.unmarshal l.data with e | ⟨_ | (c | c)⟩
  · rfl
  · rfl
  · exact contents_set_eq hst s c.key c.value
  · exact contents_delete_eq hst s c.key

theorem apply_ok_iff (s : σ) (l : Log) : (apply st pc s l).2 = none ↔ (entryWrite pc l).isSome := by
  unfold apply entryWrite
  rcases pc.unmarshal l.data with e | ⟨_ | (c | c)⟩
  · simp
  · simp
  · simp [hst.set_ok]
  · simp [hst.delete_ok]

theorem contents_run (s : σ) (L : List Log) :
    st.contents (Machine.run (apply st pc) s L) = Overwrite.replay (st.contents s) (L.filterMap (entryWrite pc)) := by
  induction L generalizing s with
  | nil => rfl
  | cons l L ih =>
    rw [Machine.run_cons, ih, contents_apply hst pc s l]
    cases hw : entryWrite pc l with
    | none => simp [hw]
    | some w => simp [hw]

theorem succeeds_of_writes (L : List Log) (hL : ∀ l ∈ L, (entryWrite pc l).isSome) (s : σ) :
    Machine.Succeeds (apply st pc) s L := by
  induction L generalizing s with
  | nil => trivial
  | cons l L ih =>
    exact ⟨(apply_ok_iff hst pc s l).mpr (hL l List.mem_cons_self),
      ih (fun l' hl' => hL l' (List.mem_cons_of_mem l hl')) _⟩

end Storer

/-- Replaying the log `L` over the state a prefix of it produced gives the
state that applying `L` once produces: the storer holds the same bindings. -/
theorem apply_replay_idempotent {st : Storer σ} (hst : st.Lawful) (pc : ProtoCodec) (s0 : σ)
    (L : List Log) (m : ℕ) :
    st.contents (Machine.run (apply st pc) (Machine.run (apply st pc) s0 (L.take m)) L) =
      st.contents (Machine.run (apply st pc) s0 L) := by
  have hsub : ((L.take m).filterMap (entryWrite pc)).Sublist (L.filterMap (entryWrite pc)) :=
    (List.take_sublist m L).filterMap _
  rw [contents_run hst, contents_run hst, contents_run hst]
  exact Overwrite.replay_replay_of_sublist _ hsub

theorem apply_replay_idempotent_sorted :
    let pc := framedProto
    let L : List Log := [⟨1, 1, 0, [1, 0, 7], []⟩, ⟨2, 1, 0, [9], []⟩, ⟨3, 1, 0, [2], []⟩,
      ⟨4, 1, 0, [1, 1, 5, 0, 6], []⟩, ⟨5, 1, 0, [], []⟩]
    (persistedStorer sortedPebble).Lawful ∧
    (persistedStorer sortedPebble).contents
        (Machine.run (apply (persistedStorer sortedPebble) pc)
          (Machine.run (apply (persistedStorer sortedPebble) pc) sortedPebble.empty (L.take 3)) L) =
      (persistedStorer sortedPebble).contents
        (Machine.run (apply (persistedStorer sortedPebble) pc) sortedPebble.empty L) :=
  ⟨sortedPebble_persistedStorer_lawful,
    apply_replay_idempotent sortedPebble_persistedStorer_lawful _ _ _ 3⟩

theorem send_command (pc : ProtoCodec) (raftID : ServerID) (leader : ServerAddress × ServerID) (r : Request) :
    r.send pc raftID leader = storeApply pc raftID leader r.command := by
  cases r <;> rfl

section Send

variable {pc : ProtoCodec} (hpc : pc.Lawful) (raftID : ServerID)
include hpc

theorem unmarshal_send {leader : ServerAddress × ServerID} {r : Request} {sub : Submission}
    (h : r.send pc raftID leader = .ok sub) : pc.unmarshal sub.payload = .ok r.command := by
  rw [send_command, storeApply] at h
  cases hm : pc.marshal r.command with
  | error e => simp [hm] at h
  | ok b =>
    rw [hm] at h
    have hb : sub.payload = b := by
      split_ifs at h <;> cases h <;> rfl
    rw [hb]
    exact hpc.unmarshal_marshal _ _ hm

theorem entryWrite_send {leader : ServerAddress × ServerID} {r : Request} {sub : Submission}
    (h : r.send pc raftID leader = .ok sub) (l : Log) (hl : l.data = sub.payload) :
    entryWrite pc l = some r.write := by
  rw [entryWrite, hl, unmarshal_send hpc raftID h]
  cases r <;> rfl

theorem send_invalid_utf8 (leader : ServerAddress × ServerID) (r : Request)
    (hr : r.command.ValidUtf8 = false) :
    ∃ e, pc.marshal r.command = .error e ∧ r.send pc raftID leader = .error e := by
  cases hm : pc.marshal r.command with
  | ok b =>
    have hv := (hpc.marshal_ok_iff r.command).mp ⟨b, hm⟩
    rw [hr] at hv
    cases hv
  | error e => exact ⟨e, rfl, by rw [send_command, storeApply, hm]⟩

theorem send_ok_iff (leader : ServerAddress × ServerID) (r : Request) :
    (∃ sub, r.send pc raftID leader = .ok sub) ↔ r.command.ValidUtf8 = true ∧ leader.1 ≠ [] ∧ leader.2 ≠ [] := by
  rw [send_command, storeApply]
  rcases hm : pc.marshal r.command with e | b
  · -- `Marshal` fails exactly on a string that is not UTF-8
    have hv : r.command.ValidUtf8 ≠ true := fun hv => by
      obtain ⟨b, hb⟩ := (hpc.marshal_ok_iff r.command).mpr hv
      rw [hm] at hb
      cases hb
    simp [hv]
  · have hv := (hpc.marshal_ok_iff r.command).mp ⟨b, hm⟩
    by_cases hl : leader.1 = [] ∨ leader.2 = []
    · simp only [if_pos hl, reduceCtorEq, exists_false, false_iff]
      tauto
    · have hsome : ∃ sub, (if leader.2 ≠ raftID then .ok (.forward leader.2 leader.1 b) else .ok (.apply b) :
          Except Error Submission) = .ok sub := by
        split_ifs <;> exact ⟨_, rfl⟩
      simp only [if_neg hl]
      exact ⟨fun _ => ⟨hv, by tauto⟩, fun _ => hsome⟩

theorem submitted_calls (calls : List (Request × (ServerAddress × ServerID))) :
    (submitted pc raftID calls).map Prod.fst =
      (calls.filter fun c => c.1.command.ValidUtf8 = true ∧ c.2.1 ≠ [] ∧ c.2.2 ≠ []).map Prod.fst := by
  induction calls with
  | nil => rfl
  | cons c calls ih =>
    by_cases hc : c.1.command.ValidUtf8 = true ∧ c.2.1 ≠ [] ∧ c.2.2 ≠ []
    · obtain ⟨sub, hsub⟩ := (send_ok_iff hpc raftID c.2 c.1).mpr hc
      have hcons : submitted pc raftID (c::calls) = (c.1, sub.payload)::submitted pc raftID calls := by
        simp [submitted, hsub, Except.toOption]
      rw [hcons, List.filter_cons, if_pos (decide_eq_true hc), List.map_cons, List.map_cons, ih]
    · have hnone : ∀ sub, c.1.send pc raftID c.2 ≠ .ok sub := fun sub h =>
        hc ((send_ok_iff hpc raftID c.2 c.1).mp ⟨sub, h⟩)
      have hcons : submitted pc raftID (c::calls) = submitted pc raftID calls := by
        cases hs : c.1.send pc raftID c.2 with
        | error e => simp [submitted, hs, Except.toOption]
        | ok sub => exact absurd hs (hnone sub)
      rw [hcons, List.filter_cons, if_neg (by simpa using hc), ih]

theorem entries_writes (calls : List (Request × (ServerAddress × ServerID))) (entries : List Log)
    (hentries : entries.map Log.data = (submitted pc raftID calls).map Prod.snd) :
    entries.map (entryWrite pc) = (submitted pc raftID calls).map fun c => some c.1.write := by
  induction calls generalizing entries with
  | nil =>
    rw [submitted, List.filterMap_nil, List.map_nil, List.map_eq_nil_iff] at hentries
    rw [hentries]
    rfl
  | cons c calls ih =>
    cases hs : c.1.send pc raftID c.2 with
    | error e =>
      have hsub : submitted pc raftID (c::calls) = submitted pc raftID calls := by
        simp [submitted, hs, Except.toOption]
      rw [hsub] at hentries ⊢
      exact ih entries hentries
    | ok sub =>
      have hsub : submitted pc raftID (c::calls) = (c.1, sub.payload)::submitted pc raftID calls := by
        simp [submitted, hs, Except.toOption]
      rw [hsub] at hentries ⊢
      cases entries with
      | nil => simp at hentries
      | cons l ls =>
        simp only [List.map_cons, List.cons.injEq] at hentries ⊢
        exact ⟨entryWrite_send hpc raftID hs l hentries.1, ih ls hentries.2⟩

end Send

theorem filterMap_of_map_some {α β : Type} (f : α → Option β) (l : List α) (ws : List β)
    (h : l.map f = ws.map some) : l.filterMap f = ws := by
  induction l generalizing ws with
  | nil =>
    cases ws with
    | nil => rfl
    | cons w ws => simp at h
  | cons a l ih =>
    cases ws with
    | nil => simp at h
    | cons w ws =>
      simp only [List.map_cons, List.cons.injEq] at h
      rw [List.filterMap_cons, h.1, ih ws h.2]

/-- The payloads `Store.apply` submits for a sequence of `Set` and `Delete`
calls, applied in order by `FSM.Apply`, all succeed and leave the storer
holding the left fold of the map writes of the submitted calls over its initial
contents; a call with a string that is not UTF-8 fails in `Marshal` and submits
nothing; and an entry whose data does not unmarshal, or unmarshals to a command
with no case set, makes `Apply` return an error and leaves the storer as it was. -/
theorem fsm_apply_replays_requests {st : Storer σ} {pc : ProtoCodec} (hst : st.Lawful) (hpc : pc.Lawful)
    (raftID : ServerID) (calls : List (Request × (ServerAddress × ServerID))) (s0 : σ)
    (entries : List Log) (hentries : entries.map Log.data = (submitted pc raftID calls).map Prod.snd) :
    Machine.Succeeds (apply st pc) s0 entries ∧
    st.contents (Machine.run (apply st pc) s0 entries) =
      Overwrite.replay (st.contents s0) ((submitted pc raftID calls).map fun c => c.1.write) ∧
    (submitted pc raftID calls).map Prod.fst =
      (calls.filter fun c => c.1.command.ValidUtf8 = true ∧ c.2.1 ≠ [] ∧ c.2.2 ≠ []).map Prod.fst ∧
    (∀ (r : Request) (leader : ServerAddress × ServerID), r.command.ValidUtf8 = false →
      ∃ e, pc.marshal r.command = .error e ∧ r.send pc raftID leader = .error e) ∧
    (∀ (s : σ) (l : Log), (∃ e, pc.unmarshal l.data = .error e) ∨ pc.unmarshal l.data = .ok ⟨none⟩ →
      (apply st pc s l).2 ≠ none ∧ (apply st pc s l).1 = s) := by
  have hw := entries_writes hpc raftID calls entries hentries
  refine ⟨?_, ?_, submitted_calls hpc raftID calls, fun r leader hr => send_invalid_utf8 hpc raftID leader r hr, ?_⟩
  · -- every entry makes a write, so every `Apply` returns nil
    refine succeeds_of_writes hst pc entries (fun l hl => ?_) s0
    have hmem : entryWrite pc l ∈ entries.map (entryWrite pc) := List.mem_map_of_mem hl
    rw [hw] at hmem
    obtain ⟨c, -, hc⟩ := List.mem_map.mp hmem
    rw [← hc]
    rfl
  · rw [contents_run hst, filterMap_of_map_some _ _ _ (by rw [hw, List.map_map]; rfl)]
  · rintro s l (⟨e, he⟩ | hn)
    · simp [apply, he]
    · simp [apply, hn]

theorem fsm_apply_replays_requests_sorted :
    let st := persistedStorer sortedPebble
    let calls : List (Request × (ServerAddress × ServerID)) :=
      [(.set [107] [118], ([97], [1])), (.delete [107], ([], [])), (.set [0xFF] [1], ([97], [1])),
        (.set [108] [119], ([98], [2])), (.delete [107], ([97], [1]))]
    let entries : List Log := (submitted framedProto [1] calls).map fun c => ⟨0, 1, 0, c.2, []⟩
    st.Lawful ∧ framedProto.Lawful ∧
    entries.map Log.data = (submitted framedProto [1] calls).map Prod.snd ∧
    Machine.Succeeds (apply st framedProto) sortedPebble.empty entries ∧
    st.contents (Machine.run (apply st framedProto) sortedPebble.empty entries) =
      Overwrite.replay (st.contents sortedPebble.empty)
        ((submitted framedProto [1] calls).map fun c => c.1.write) ∧
    (submitted framedProto [1] calls).map Prod.fst =
      (calls.filter fun c => c.1.command.ValidUtf8 = true ∧ c.2.1 ≠ [] ∧ c.2.2 ≠ []).map Prod.fst ∧
    (∀ (r : Request) (leader : ServerAddress × ServerID), r.command.ValidUtf8 = false →
      ∃ e, framedProto.marshal r.command = .error e ∧ r.send framedProto [1] leader = .error e) ∧
    (∀ (s : SortedMap Bytes Bytes) (l : Log),
      (∃ e, framedProto.unmarshal l.data = .error e) ∨ framedProto.unmarshal l.data = .ok ⟨none⟩ →
      (apply st framedProto s l).2 ≠ none ∧ (apply st framedProto s l).1 = s) := by
  intro st calls entries
  have hentries : entries.map Log.data = (submitted framedProto [1] calls).map Prod.snd := by decide
  exact ⟨sortedPebble_persistedStorer_lawful, framedProto_lawful, hentries,
    fsm_apply_replays_requests sortedPebble_persistedStorer_lawful framedProto_lawful [1] calls
      sortedPebble.empty entries hentries⟩

end DistributedKv.Fsm
