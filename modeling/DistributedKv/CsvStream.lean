import DistributedKv.Csv

/-!
# Reading back what the writer wrote

`Writer.Write` of two-field records, read back with `ReadAll`, gives the
records back with each field passed through `crlfToLf`: the reader's line
normalisation turns every `\r\n` of the stream into `\n`, and a `\r\n` can
only stand inside a quoted field. The proof follows the stream a field at a
time: what the normalisation leaves of a written field
(`normalize_writeField_append`), the automaton across those bytes from the
start of a field (`foldl_normalizedField`), across the separator after it,
and then across a record (`foldl_write_pair`) and a run of records.

Whatever the input, the records `ReadAll` returns all have the field count
of the first, and at least one field (`readAll_rectangular`): the reader
keeps that as an invariant of every step.
-/

set_option autoImplicit false

namespace DistributedKv.Csv

open DistributedKv.BigEndian (Bytes)

/-- What the reader's normalisation does to a field: each `\r\n` becomes `\n`. -/
def crlfToLf : Bytes → Bytes
  | [] => []
  | 13::10::t => 10::crlfToLf t
  | c::t => c::crlfToLf t

theorem crlfToLf_cons_of_ne {c : UInt8} (hc : c ≠ 13) (t : Bytes) : crlfToLf (c::t) = c::crlfToLf t :=
  crlfToLf.eq_3 c t fun _ h _ => hc h

theorem crlfToLf_of_forall_ne {f : Bytes} (h : ∀ c ∈ f, c ≠ 13) : crlfToLf f = f := by
  induction f with
  | nil => rfl
  | cons c t ih =>
    rw [crlfToLf_cons_of_ne (h c List.mem_cons_self), ih fun d hd => h d (List.mem_cons_of_mem _ hd)]

theorem crlfToLf_of_not_infix {f : Bytes} (h : ¬[13, 10] <:+: f) : crlfToLf f = f := by
  induction f using crlfToLf.induct with
  | case1 => rfl
  | case2 t _ => exact absurd (List.prefix_append [13, 10] t).isInfix h
  | case3 c t hne ih => rw [crlfToLf.eq_3 c t hne, ih fun h' => h (List.infix_cons h')]

theorem length_crlfToLf_le (f : Bytes) : (crlfToLf f).length ≤ f.length := by
  induction f using crlfToLf.induct with
  | case1 => exact le_refl 0
  | case2 t ih =>
    rw [crlfToLf.eq_2]
    simp only [List.length_cons]
    omega
  | case3 c t hne ih =>
    rw [crlfToLf.eq_3 c t hne]
    simp only [List.length_cons]
    omega

theorem length_crlfToLf_lt {f : Bytes} (h : [13, 10] <:+: f) : (crlfToLf f).length < f.length := by
  induction f using crlfToLf.induct with
  | case1 => exact absurd (List.infix_nil.mp h) (by simp)
  | case2 t _ =>
    have hle := length_crlfToLf_le t
    rw [crlfToLf.eq_2]
    simp only [List.length_cons]
    omega
  | case3 c t hne ih =>
    rw [crlfToLf.eq_3 c t hne]
    rcases List.infix_cons_iff.mp h with ⟨u, hu⟩ | h
    · -- `\r\n` at the front is the other equation of `crlfToLf`
      simp only [List.cons_append, List.nil_append, List.cons.injEq] at hu
      exact absurd hu.2.symm (hne u hu.1.symm)
    · simp only [List.length_cons]
      have := ih h
      omega

theorem crlfToLf_ne_of_infix {f : Bytes} (h : [13, 10] <:+: f) : crlfToLf f ≠ f := fun heq =>
  (length_crlfToLf_lt h).ne (congrArg List.length heq)

theorem normalize_cons_of_ne {c : UInt8} (hc : c ≠ 13) (t : Bytes) : normalize (c::t) = c::normalize t :=
  normalize.eq_4 c t (fun h _ => hc h) (fun _ h _ => hc h)

theorem normalize_cr_cons {x : Bytes} (hx : ∀ t, x ≠ 10::t) (hne : x ≠ []) :
    normalize (13::x) = 13::normalize x :=
  normalize.eq_4 13 x (fun _ h => hne h) (fun t _ h => hx t h)

theorem normalize_append_of_forall_ne {f : Bytes} (h : ∀ c ∈ f, c ≠ 13) (rest : Bytes) :
    normalize (f++rest) = f++normalize rest := by
  induction f with
  | nil => rfl
  | cons c t ih =>
    rw [List.cons_append, normalize_cons_of_ne (h c List.mem_cons_self),
      ih fun d hd => h d (List.mem_cons_of_mem _ hd), List.cons_append]

theorem quoteField_cons (c : UInt8) (t : Bytes) :
    quoteField (c::t) = (if c = 34 then [34, 34] else [c])++quoteField t := by
  by_cases h34 : c = 34
  · subst h34
    rfl
  by_cases h13 : c = 13
  · subst h13
    rfl
  by_cases h10 : c = 10
  · subst h10
    rfl
  rw [quoteField.eq_5 c t h34 h13 h10, if_neg h34]
  rfl

theorem quoteField_append_ne_lf {t : Bytes} (ht : ∀ u, t ≠ 10::u) (rest u : Bytes) :
    quoteField t++34::rest ≠ 10::u := by
  cases t with
  | nil => simp [quoteField]
  | cons d t =>
    have hd : d ≠ 10 := fun h => ht t (by rw [h])
    rw [quoteField_cons]
    split_ifs <;> simp [hd]

theorem normalize_quoteField (f rest : Bytes) :
    normalize (quoteField f++34::rest) = quoteField (crlfToLf f)++34::normalize rest := by
  induction f using crlfToLf.induct with
  | case1 => exact normalize_cons_of_ne (by decide) rest
  | case2 t ih =>
    show normalize (13::10::(quoteField t++34::rest)) = 10::(quoteField (crlfToLf t)++34::normalize rest)
    rw [normalize.eq_3, ih]
  | case3 c t hne ih =>
    rw [crlfToLf.eq_3 c t hne, quoteField_cons, quoteField_cons]
    by_cases h13 : c = 13
    · -- a `\r` not followed by `\n` stays
      subst h13
      have hx : ∀ u, t ≠ 10::u := fun u h => hne u rfl h
      simp only [if_neg (by decide : (13 : UInt8) ≠ 34), List.cons_append, List.nil_append]
      rw [normalize_cr_cons (quoteField_append_ne_lf hx rest) (by simp), ih]
    · have hpre : ∀ d ∈ (if c = 34 then [34, 34] else [c] : Bytes), d ≠ 13 := by
        split_ifs with h34
        · simp
        · simpa using h13
      rw [List.append_assoc, normalize_append_of_forall_ne hpre, ih, List.append_assoc]

theorem forall_ne_of_fieldNeedsQuotes {f : Bytes} (h : fieldNeedsQuotes f = false) :
    ∀ c ∈ f, c ≠ 10 ∧ c ≠ 13 ∧ c ≠ 34 ∧ c ≠ 44 := by
  intro c hc
  unfold fieldNeedsQuotes at h
  rw [if_neg (List.ne_nil_of_mem hc)] at h
  split_ifs at h with h1 h2
  have hany := List.any_eq_false.mp (Bool.not_eq_true _ ▸ h2) c hc
  simpa [and_assoc] using hany

def normalizedField (f : Bytes) : Bytes :=
  if fieldNeedsQuotes f then 34::quoteField (crlfToLf f)++[34] else f

theorem normalize_writeField_append (f : Bytes) {c : UInt8} (hc : c ≠ 13) (rest : Bytes) :
    normalize (writeField f++c::rest) = normalizedField f++c::normalize rest := by
  unfold writeField normalizedField
  split_ifs with hq
  · have hs : (34::quoteField f++[34])++c::rest = 34::(quoteField f++34::c::rest) := by simp
    rw [hs, normalize_cons_of_ne (by decide), normalize_quoteField, normalize_cons_of_ne hc]
    simp
  · have h := forall_ne_of_fieldNeedsQuotes (Bool.not_eq_true _ ▸ hq)
    rw [normalize_append_of_forall_ne (fun d hd => (h d hd).2.1), normalize_cons_of_ne hc]

theorem normalize_write_pair (k v rest : Bytes) :
    normalize (write [k, v]++rest) = normalizedField k++44::(normalizedField v++10::normalize rest) := by
  have hs : write [k, v]++rest = writeField k++44::(writeField v++10::rest) := by
    simp [write, List.intercalate]
  rw [hs, normalize_writeField_append k (by decide), normalize_writeField_append v (by decide)]

namespace Reader

theorem foldl_quoteField (g fld : Bytes) (rec : List Bytes) (n : ℕ) (rs : List (List Bytes)) :
    (quoteField g).foldl step ⟨.quoted, fld, rec, n, rs, none⟩ = ⟨.quoted, fld++g, rec, n, rs, none⟩ := by
  induction g generalizing fld with
  | nil => simp [quoteField]
  | cons c t ih =>
    rw [quoteField_cons, List.foldl_append]
    by_cases h34 : c = 34
    · subst h34
      simp [step, stepAt, ih]
    · simp [h34, step, stepAt, ih]

theorem foldl_unquoted (t fld : Bytes) (ht : ∀ c ∈ t, c ≠ 10 ∧ c ≠ 13 ∧ c ≠ 34 ∧ c ≠ 44)
    (rec : List Bytes) (n : ℕ) (rs : List (List Bytes)) :
    t.foldl step ⟨.unquoted, fld, rec, n, rs, none⟩ = ⟨.unquoted, fld++t, rec, n, rs, none⟩ := by
  induction t generalizing fld with
  | nil => simp
  | cons c t ih =>
    obtain ⟨h10, -, h34, h44⟩ := ht c List.mem_cons_self
    simp only [List.foldl_cons, step, stepAt, Option.isSome_none, Bool.false_eq_true, if_false,
      if_neg h44, if_neg h10, if_neg h34]
    rw [ih (fld++[c]) fun d hd => ht d (List.mem_cons_of_mem _ hd)]
    simp

def fieldEnd (f : Bytes) (p : Pos) : Pos :=
  if fieldNeedsQuotes f then .quote else if f = [] then p else .unquoted

theorem foldl_normalizedField (f : Bytes) {p : Pos} (hp : p = .recordStart ∨ p = .fieldStart)
    (rec : List Bytes) (n : ℕ) (rs : List (List Bytes)) :
    (normalizedField f).foldl step ⟨p, [], rec, n, rs, none⟩ = ⟨fieldEnd f p, crlfToLf f, rec, n, rs, none⟩ := by
  unfold normalizedField fieldEnd
  split_ifs with hq hnil
  · -- quoted: the opening quote, the body, the closing quote
    have hopen : step ⟨p, [], rec, n, rs, none⟩ 34 = ⟨.quoted, [], rec, n, rs, none⟩ := by
      rcases hp with rfl | rfl <;> rfl
    simp only [List.foldl_append, List.foldl_cons, hopen, foldl_quoteField, List.foldl_nil]
    rfl
  · subst hnil
    rfl
  · -- unquoted: its first byte opens the field, the others join it
    obtain ⟨c, t, rfl⟩ := List.exists_cons_of_ne_nil hnil
    have h := forall_ne_of_fieldNeedsQuotes (Bool.not_eq_true _ ▸ hq)
    obtain ⟨h10, -, h34, h44⟩ := h c List.mem_cons_self
    have hopen : step ⟨p, [], rec, n, rs, none⟩ c = ⟨.unquoted, [c], rec, n, rs, none⟩ := by
      rcases hp with rfl | rfl <;>
        simp [step, stepAt, startField, h10, h34, h44]
    rw [List.foldl_cons, hopen, foldl_unquoted t [c] fun d hd => h d (List.mem_cons_of_mem _ hd),
      crlfToLf_of_forall_ne fun d hd => (h d hd).2.1]
    rfl

theorem step_comma_fieldEnd (f : Bytes) {p : Pos} (hp : p = .recordStart ∨ p = .fieldStart)
    (rec : List Bytes) (n : ℕ) (rs : List (List Bytes)) :
    step ⟨fieldEnd f p, crlfToLf f, rec, n, rs, none⟩ 44 = ⟨.fieldStart, [], rec++[crlfToLf f], n, rs, none⟩ := by
  unfold fieldEnd
  split_ifs with hq hnil
  · rfl
  · subst hnil
    rcases hp with rfl | rfl <;> rfl
  · rfl

theorem step_newline_fieldEnd (f : Bytes) (rec : List Bytes) (n : ℕ) (rs : List (List Bytes)) :
    step ⟨fieldEnd f .fieldStart, crlfToLf f, rec, n, rs, none⟩ 10 =
      endRecord ⟨fieldEnd f .fieldStart, [], rec++[crlfToLf f], n, rs, none⟩ := by
  unfold fieldEnd
  split_ifs <;> rfl

theorem endRecord_pair (p : Pos) (a b : Bytes) {n : ℕ} (hn : n = 0 ∨ n = 2) (rs : List (List Bytes)) :
    endRecord ⟨p, [], [a, b], n, rs, none⟩ = ⟨.recordStart, [], [], 2, rs++[[a, b]], none⟩ := by
  rcases hn with rfl | rfl <;> rfl

end Reader

theorem foldl_write_pair (k v rest : Bytes) {n : ℕ} (hn : n = 0 ∨ n = 2) (rs : List (List Bytes)) :
    (normalize (write [k, v]++rest)).foldl Reader.step ⟨.recordStart, [], [], n, rs, none⟩ =
      (normalize rest).foldl Reader.step ⟨.recordStart, [], [], 2, rs++[[crlfToLf k, crlfToLf v]], none⟩ := by
  rw [normalize_write_pair, List.foldl_append, Reader.foldl_normalizedField k (Or.inl rfl), List.foldl_cons,
    Reader.step_comma_fieldEnd k (Or.inl rfl), List.foldl_append, Reader.foldl_normalizedField v (Or.inr rfl),
    List.foldl_cons, Reader.step_newline_fieldEnd,
    show ([]++[crlfToLf k]++[crlfToLf v] : List Bytes) = [crlfToLf k, crlfToLf v] from rfl,
    Reader.endRecord_pair _ _ _ hn]

theorem foldl_write_pairs (pairs : List (Bytes × Bytes)) {n : ℕ} (hn : n = 0 ∨ n = 2)
    (rs : List (List Bytes)) :
    (normalize (pairs.flatMap fun kv => write [kv.1, kv.2])).foldl Reader.step ⟨.recordStart, [], [], n, rs, none⟩ =
      ⟨.recordStart, [], [], if pairs = [] then n else 2,
        rs++pairs.map (fun kv => [crlfToLf kv.1, crlfToLf kv.2]), none⟩ := by
  induction pairs generalizing n rs with
  | nil => simp [normalize]
  | cons kv pairs ih =>
    rw [List.flatMap_cons, foldl_write_pair _ _ _ hn, ih (Or.inr rfl)]
    by_cases hp : pairs = [] <;> simp [hp]

theorem readAll_write_pairs (pairs : List (Bytes × Bytes)) :
    readAll (pairs.flatMap fun kv => write [kv.1, kv.2]) =
      (pairs.map (fun kv => [crlfToLf kv.1, crlfToLf kv.2]), none) := by
  have h := foldl_write_pairs pairs (Or.inl rfl) []
  simp only [readAll, Reader.init]
  rw [h]
  simp [Reader.finish]

namespace Reader

@[simp] theorem endField_records (r : Reader) : r.endField.records = r.records := rfl
@[simp] theorem endField_fieldsPerRecord (r : Reader) : r.endField.fieldsPerRecord = r.fieldsPerRecord := rfl
@[simp] theorem endField_record (r : Reader) : r.endField.record = r.record++[r.field] := rfl

def Rectangular (r : Reader) : Prop :=
  ∀ rec ∈ r.records, rec.length = r.fieldsPerRecord ∧ 0 < rec.length

theorem stepAt_records (r : Reader) (c : UInt8) :
    ((r.stepAt c).records = r.records ∧ (r.stepAt c).fieldsPerRecord = r.fieldsPerRecord) ∨
      r.stepAt c = r.endField.endRecord := by
  obtain ⟨pos, field, record, n, records, err⟩ := r
  cases pos <;> simp only [stepAt, startField] <;> split_ifs <;> simp [endField]

theorem rectangular_endRecord_endField {r : Reader} (h : r.Rectangular) : r.endField.endRecord.Rectangular := by
  unfold endRecord
  by_cases hbad : 0 < r.endField.fieldsPerRecord ∧ r.endField.record.length ≠ r.endField.fieldsPerRecord
  · rw [if_pos hbad]
    exact h
  · rw [if_neg hbad]
    simp only [endField_fieldsPerRecord, endField_record, List.length_append, List.length_singleton] at hbad
    intro rec hrec
    simp only [endField_records, endField_record, List.mem_append, List.mem_singleton] at hrec
    rcases hrec with hrec | rfl
    · -- an old record: the count it fixed is positive and stays
      obtain ⟨hlen, hpos⟩ := h rec hrec
      have hn : r.fieldsPerRecord ≠ 0 := by omega
      simp only [endField_fieldsPerRecord, hn, ↓reduceIte]
      exact ⟨hlen, hpos⟩
    · -- the new record has the count it fixes, or the count it was checked against
      by_cases hn : r.fieldsPerRecord = 0
      · simp [hn]
      · simp only [endField_fieldsPerRecord, hn, ↓reduceIte, List.length_append, List.length_singleton]
        omega

theorem rectangular_step {r : Reader} (h : r.Rectangular) (c : UInt8) : (r.step c).Rectangular := by
  unfold step
  split_ifs
  · exact h
  · rcases stepAt_records r c with ⟨hrs, hn⟩ | he
    · intro rec hrec
      rw [hrs] at hrec
      rw [hn]
      exact h rec hrec
    · rw [he]
      exact rectangular_endRecord_endField h

theorem rectangular_foldl {r : Reader} (h : r.Rectangular) (input : Bytes) :
    (input.foldl step r).Rectangular := by
  induction input generalizing r with
  | nil => exact h
  | cons c t ih => exact ih (rectangular_step h c)

theorem rectangular_finish {r : Reader} (h : r.Rectangular) : r.finish.Rectangular := by
  unfold finish
  split_ifs
  · exact h
  · split
    · exact h
    all_goals first | exact rectangular_endRecord_endField h | exact h

end Reader

theorem readAll_rectangular (input : Bytes) :
    ∀ rec ∈ (readAll input).1, 0 < rec.length ∧ ∀ rec' ∈ (readAll input).1, rec'.length = rec.length := by
  have hinit : Reader.init.Rectangular := fun rec h => absurd h (by simp [Reader.init])
  have h := Reader.rectangular_finish (Reader.rectangular_foldl hinit (normalize input))
  intro rec hrec
  obtain ⟨hlen, hpos⟩ := h rec hrec
  exact ⟨hpos, fun rec' hrec' => (h rec' hrec').1.trans hlen.symm⟩

theorem readAll_exists_length_iff (input : Bytes) (p : ℕ → Prop) :
    (∃ rec ∈ (readAll input).1, p rec.length) ↔
      ∃ rec recs, (readAll input).1 = rec::recs ∧ p rec.length := by
  have hrect := readAll_rectangular input
  constructor
  · rintro ⟨rec, hrec, hp⟩
    obtain ⟨first, recs, hfirst⟩ := List.exists_cons_of_ne_nil (List.ne_nil_of_mem hrec)
    have hmem : first ∈ (readAll input).1 := by
      rw [hfirst]
      exact List.mem_cons_self
    -- the record has the field count of the first
    rw [(hrect first hmem).2 rec hrec] at hp
    exact ⟨first, recs, hfirst, hp⟩
  · rintro ⟨rec, recs, hrecs, hp⟩
    refine ⟨rec, ?_, hp⟩
    rw [hrecs]
    exact List.mem_cons_self

end DistributedKv.Csv
