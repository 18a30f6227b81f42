import DistributedKv.RaftPebbleStep

/-!
# `FirstIndex` and `LastIndex` against `GetLog`

The iterator of `FirstIndex` and `LastIndex` visits the keys in
`[prefixLog, prefixConf)`, the keys whose first byte is `0x00`. Every call
keeps the invariant that each such key is a log key (nine bytes) whose value
decodes: log writes store encodings under log keys, stable writes land under
`0x01`, and deletions only remove. Under it a log key is present exactly when
`GetLog` of its index succeeds, and since big-endian keys order as their
indices, the first and the last key the iterator visits are those of the least
and the greatest index `GetLog` finds.
-/

set_option autoImplicit false

namespace DistributedKv.RaftPebble

open DistributedKv.BigEndian DistributedKv.SortedScan
open DistributedKv.Types DistributedKv.PebbleDB

/-- Every present key with first byte `0x00` is a log key whose value decodes. -/
def ValidLogKeys (cd : Codec) (found : Bytes → Option Bytes) : Prop :=
  ∀ k v, found k = some v → inBounds (some prefixLog) (some prefixConf) k = true →
    ∃ i, k = logKey i ∧ ∃ l, cd.decode v = .ok l

section Written

variable {cd : Codec} (hcd : cd.Lawful)
include hcd

theorem decode_of_toOption {l : Log} {v : Bytes} (h : (cd.encode l).toOption = some v) :
    ∃ l', cd.decode v = .ok l' := by
  cases he : cd.encode l with
  | error e => simp [he, Except.toOption] at h
  | ok b =>
    simp only [he, Except.toOption, Option.some.injEq] at h
    exact ⟨l, h ▸ hcd.decode_encode l b he⟩

theorem written_valid {found : Bytes → Option Bytes} (h : ValidLogKeys cd found) (c : Call) :
    ValidLogKeys cd (c.written cd found) := by
  intro k v hv hk
  cases c with
  | storeLog log =>
    simp only [Call.written] at hv
    split_ifs at hv with he
    · exact ⟨log.index, he, decode_of_toOption hcd hv⟩
    · exact h k v hv hk
  | storeLogs logs =>
    simp only [Call.written] at hv
    cases hf : logs.reverse.find? (fun l => logKey l.index = k) with
    | some l =>
      rw [hf] at hv
      have hkey : logKey l.index = k := by simpa using List.find?_some hf
      exact ⟨l.index, hkey.symm, decode_of_toOption hcd hv⟩
    | none =>
      rw [hf] at hv
      exact h k v hv hk
  | deleteRange mini maxi =>
    simp only [Call.written] at hv
    split_ifs at hv
    exact h k v hv hk
  | set key val | setUint64 key val =>
    simp only [Call.written] at hv
    split_ifs at hv with he
    · simp [he] at hk
    · exact h k v hv hk

end Written

section Store

variable {DB B : Type} {pb : Pebble DB B} {cd : Codec} (hpb : pb.Lawful) (hcd : cd.Lawful)
include hpb hcd

theorem exec_valid {db : DB} (h : ValidLogKeys cd (pb.find db)) (c : Call) :
    ValidLogKeys cd (pb.find (exec pb cd db c).1) := by
  cases he : (exec pb cd db c).2 with
  | none =>
    rw [funext (exec_find cd hpb he)]
    exact written_valid hcd h c
  | some e =>
    rw [exec_error cd hpb he]
    exact h

theorem runCalls_valid (calls : List Call) : ValidLogKeys cd (pb.find (runCalls pb cd calls)) := by
  have hempty : ValidLogKeys cd (pb.find pb.empty) := by
    intro k v hv
    rw [hpb.find_eq_some, hpb.get_empty] at hv
    cases hv
  exact Machine.run_invariant (exec pb cd) (I := fun db => ValidLogKeys cd (pb.find db))
    (fun db c h => exec_valid hpb hcd h c) calls pb.empty hempty

omit hcd in
theorem getLog_ok_of_find {db : DB} (h : ValidLogKeys cd (pb.find db)) {i : UInt64} {v : Bytes}
    (hv : pb.find db (logKey i) = some v) : ∃ l, getLog pb cd db i = .ok l := by
  obtain ⟨j, -, l, hl⟩ := h _ v hv (logKey_inBounds i)
  refine ⟨l, ?_⟩
  rw [getLog_eq hpb, hv]
  exact hl

omit hcd in
theorem find_of_getLog_ok {db : DB} {i : UInt64} {l : Log} (h : getLog pb cd db i = .ok l) :
    ∃ v, pb.find db (logKey i) = some v := by
  rw [getLog_eq hpb] at h
  cases hv : pb.find db (logKey i) with
  | none => simp [hv] at h
  | some v => exact ⟨v, rfl⟩

omit hcd in
theorem iter_key {db : DB} (h : ValidLogKeys cd (pb.find db)) {k v : Bytes}
    (hkv : (k, v) ∈ pb.newIter db (some prefixLog) (some prefixConf)) :
    ∃ i, k = logKey i ∧ ∃ l, getLog pb cd db i = .ok l := by
  have hm := ((hpb.newIter_scans db _ _).mem_iff k v).mp hkv
  obtain ⟨i, rfl, -⟩ := h k v hm.1 hm.2
  exact ⟨i, rfl, getLog_ok_of_find hpb h hm.1⟩

end Store

theorem bytesToUint64_logKey_drop (i : UInt64) : bytesToUint64 ((logKey i).drop prefixLog.length) = .ok i := by
  simp [logKey, prefixLog, bytesToUint64, uint64ToBytes]

def storedIndices {DB B : Type} (pb : Pebble DB B) (cd : Codec) (db : DB) : Set UInt64 :=
  {i | ∃ l, getLog pb cd db i = .ok l}

section Index

variable {DB B : Type} {pb : Pebble DB B} {cd : Codec} (hpb : pb.Lawful)
include hpb

theorem storedIndices_eq_empty {db : DB}
    (hnil : pb.newIter db (some prefixLog) (some prefixConf) = []) : storedIndices pb cd db = ∅ := by
  rw [Set.eq_empty_iff_forall_notMem]
  rintro i ⟨l, hl⟩
  obtain ⟨v, hv⟩ := find_of_getLog_ok hpb hl
  have hn := ((hpb.newIter_scans db _ _).eq_nil_iff).mp hnil (logKey i) (logKey_inBounds i)
  rw [hv] at hn
  cases hn

theorem firstIndex_isLeast {db : DB} (h : ValidLogKeys cd (pb.find db)) :
    ∃ f, firstIndex pb db = .ok f ∧
      (IsLeast (storedIndices pb cd db) f ∨ storedIndices pb cd db = ∅ ∧ f = 0) := by
  have hs := hpb.newIter_scans db (some prefixLog) (some prefixConf)
  cases hl : pb.newIter db (some prefixLog) (some prefixConf) with
  | nil =>
    exact ⟨0, by rw [firstIndex, hl], .inr ⟨storedIndices_eq_empty hpb hl, rfl⟩⟩
  | cons kv rest =>
    obtain ⟨k, v⟩ := kv
    rw [hl] at hs
    obtain ⟨i, rfl, hi⟩ := iter_key hpb h (hl ▸ List.mem_cons_self)
    have hf : firstIndex pb db = .ok i := by
      rw [firstIndex, hl]
      exact bytesToUint64_logKey_drop i
    refine ⟨i, hf, .inl ⟨hi, ?_⟩⟩
    rintro j ⟨l, hj⟩
    obtain ⟨w, hw⟩ := find_of_getLog_ok hpb hj
    have hle := hs.head_le.2.2 (logKey j) w hw (logKey_inBounds j)
    exact (logKey_le_logKey i j).mp hle

theorem lastIndex_isGreatest {db : DB} (h : ValidLogKeys cd (pb.find db)) :
    ∃ g, lastIndex pb db = .ok g ∧
      (IsGreatest (storedIndices pb cd db) g ∨ storedIndices pb cd db = ∅ ∧ g = 0) := by
  have hs := hpb.newIter_scans db (some prefixLog) (some prefixConf)
  cases hl : (pb.newIter db (some prefixLog) (some prefixConf)).getLast? with
  | none =>
    have hnil := List.getLast?_eq_none_iff.mp hl
    exact ⟨0, by rw [lastIndex, hl], .inr ⟨storedIndices_eq_empty hpb hnil, rfl⟩⟩
  | some kv =>
    obtain ⟨k, v⟩ := kv
    obtain ⟨front, hfront⟩ := List.getLast?_eq_some_iff.mp hl
    rw [hfront] at hs
    obtain ⟨i, rfl, hi⟩ := iter_key hpb h (hfront ▸ List.mem_append_right front List.mem_cons_self)
    have hg : lastIndex pb db = .ok i := by
      rw [lastIndex, hl]
      exact bytesToUint64_logKey_drop i
    refine ⟨i, hg, .inl ⟨hi, ?_⟩⟩
    rintro j ⟨l, hj⟩
    obtain ⟨w, hw⟩ := find_of_getLog_ok hpb hj
    have hle := hs.le_last.2.2 (logKey j) w hw (logKey_inBounds j)
    exact (logKey_le_logKey j i).mp hle

theorem iter_key_length {db : DB} (h : ValidLogKeys cd (pb.find db)) :
    ∀ kv ∈ pb.newIter db (some prefixLog) (some prefixConf), kv.1.length = 9 := by
  rintro ⟨k, v⟩ hkv
  obtain ⟨i, rfl, -⟩ := iter_key hpb h hkv
  simp [logKey, prefixLog, uint64ToBytes]

end Index

/-- In every database that calls reach from the empty one, whichever they
returned, `FirstIndex` and `LastIndex` return the least and the greatest index
whose `GetLog` succeeds, and 0 when there is none; every key they can slice is
nine bytes long. -/
theorem firstIndex_lastIndex_agree_getLog {DB B : Type} {pb : Pebble DB B} {cd : Codec}
    (hpb : pb.Lawful) (hcd : cd.Lawful) (calls : List Call) :
    (∀ kv ∈ pb.newIter (runCalls pb cd calls) (some prefixLog) (some prefixConf), kv.1.length = 9) ∧
    (∃ f, firstIndex pb (runCalls pb cd calls) = .ok f ∧
      (IsLeast (storedIndices pb cd (runCalls pb cd calls)) f ∨
        storedIndices pb cd (runCalls pb cd calls) = ∅ ∧ f = 0)) ∧
    (∃ g, lastIndex pb (runCalls pb cd calls) = .ok g ∧
      (IsGreatest (storedIndices pb cd (runCalls pb cd calls)) g ∨
        storedIndices pb cd (runCalls pb cd calls) = ∅ ∧ g = 0)) := by
  have hv := runCalls_valid hpb hcd calls
  exact ⟨iter_key_length hpb hv, firstIndex_isLeast hpb hv, lastIndex_isGreatest hpb hv⟩

theorem firstIndex_lastIndex_agree_getLog_sorted :
    let calls := [.storeLog ⟨5, 1, 0, [1, 2], []⟩, .set [0] [9],
      .storeLogs [⟨7, 1, 0, [], []⟩, ⟨3, 2, 0, [3], []⟩], .deleteRange 7 7]
    sortedPebble.Lawful ∧ framedCodec.Lawful ∧
    (∀ kv ∈ sortedPebble.newIter (runCalls sortedPebble framedCodec calls) (some prefixLog)
      (some prefixConf), kv.1.length = 9) ∧
    (∃ f, firstIndex sortedPebble (runCalls sortedPebble framedCodec calls) = .ok f ∧
      (IsLeast (storedIndices sortedPebble framedCodec (runCalls sortedPebble framedCodec calls)) f ∨
        storedIndices sortedPebble framedCodec (runCalls sortedPebble framedCodec calls) = ∅ ∧ f = 0)) ∧
    (∃ g, lastIndex sortedPebble (runCalls sortedPebble framedCodec calls) = .ok g ∧
      (IsGreatest (storedIndices sortedPebble framedCodec (runCalls sortedPebble framedCodec calls)) g ∨
        storedIndices sortedPebble framedCodec (runCalls sortedPebble framedCodec calls) = ∅ ∧ g = 0)) :=
  ⟨sortedPebble_lawful, framedCodec_lawful,
    firstIndex_lastIndex_agree_getLog sortedPebble_lawful framedCodec_lawful _⟩

end DistributedKv.RaftPebble
