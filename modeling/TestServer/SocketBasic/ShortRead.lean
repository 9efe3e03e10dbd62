import TestServer.SocketBasic.RoundTrip

/-! # `read_chars` on the beginning of what was sent

    TCP may hand `read` any beginning of the bytes `write_chars` produced. The
    rest of the buffer is NULs, and `read_chars` takes these for what is missing
    of the last record: of a record that is cut behind its length field it prints
    the text that has come, of one that is cut inside that field an empty text.

    * `Extracts`: the strings `read_chars` prints.
    * `extracts_whole`, `extracts_cut`: what it prints when the bytes end between
      two records, and when they end inside a record.
    * `extracts_iff`: it prints nothing that was not sent when the bytes end
      between two records or inside the length field of an empty text.
-/

open CInt CMemory LengthPrefixed Loop

namespace SocketBasic

/-! ### Whole records, and more -/

/-- When one `read` returns the bytes `bs`, `read_chars` prints the strings `out`, whatever stands
    behind its rows. -/
def Extracts (bs : List UInt8) (out : List (List UInt8)) : Prop :=
  ∀ behind, ∃ s, Returns (readCharsPass behind (received bs)) (.start bs.length) (some s) ∧
    s.printed.map CharsLine.text = out

theorem Extracts.unique {bs : List UInt8} {out out' : List (List UInt8)} (h : Extracts bs out)
    (h' : Extracts bs out') : out = out' := by
  obtain ⟨s, hs, rfl⟩ := h fun _ => []
  obtain ⟨s', hs', rfl⟩ := h' fun _ => []
  rw [Option.some.inj (Returns.unique hs hs')]

/-- The records of the texts, one after the other. -/
def stream (ts : List Text) : List UInt8 := code.encodeAll (ts.map Text.record)

/-- What is printed of the records `rs` when none of them fills its row. -/
theorem CharsState.texts_after (behind : Nat → Mem) (count : Nat) {rs : List Record}
    (hshort : ∀ r ∈ rs, r.bytes.length < col) :
    (CharsState.after behind count rs).printed.map CharsLine.text
      = rs.map fun r => beforeNul r.bytes := by
  apply List.ext_getElem?
  intro i
  simp only [after, List.getElem?_map, List.getElem?_mapIdx, Option.map_map]
  apply Option.map_congr
  intro r hr
  exact beforeNul_padded (hshort r (List.mem_of_getElem? hr)) (behind i)

theorem map_beforeNul_record (ts : List Text) :
    ((ts.map Text.record).map fun r => beforeNul r.bytes) = ts.map Text.bytes := by
  rw [List.map_map]
  exact List.map_congr_left fun t _ => beforeNul_of_notMem t.nul_free

/-- Whole records of texts are printed. -/
theorem extracts_whole {ts : List Text} (hne : ts ≠ []) (hten : ts.length ≤ row)
    (hcount : (stream ts).length ≤ bufferLength) : Extracts (stream ts) (ts.map Text.bytes) := by
  intro behind
  have hshort := short_records ts
  have hreturns := returns_chars behind hcount rfl (by simpa using hne) hshort
  rw [List.take_of_length_le (by simpa using hten)] at hreturns
  exact ⟨_, hreturns, by rw [CharsState.texts_after behind _ hshort, map_beforeNul_record]⟩

/-! ### A record that is cut -/

/-- The length field of a text, and what stands behind it. -/
theorem Text.frame_eq (t : Text) :
    t.record.frame = UInt8.ofNat t.bytes.length :: (List.replicate 3 0 ++ t.bytes) := by
  have hshort : t.bytes.length < 100 := t.short
  show toLE 4 t.bytes.length ++ t.bytes = _
  rw [toLE_small (by omega), List.cons_append]

/-- What `read_chars` finds where the record of `t` was cut behind `k` bytes: NULs stand for what is
    missing. -/
def Text.cutRecord (t : Text) (k : Nat) : Record where
  bytes := t.bytes.take (k - 4) ++ List.replicate (t.bytes.length - (k - 4)) 0
  small := by
    have hshort : t.bytes.length < 100 := t.short
    rw [List.length_append, List.length_take, List.length_replicate]
    omega

theorem Text.cutRecord_length (t : Text) (k : Nat) :
    (t.cutRecord k).bytes.length = t.bytes.length := by
  show (t.bytes.take (k - 4) ++ List.replicate (t.bytes.length - (k - 4)) 0).length = _
  rw [List.length_append, List.length_take, List.length_replicate]
  omega

/-- The first byte of the field is all there is to it, so a record that is cut keeps its length. -/
theorem Text.cut_frame (t : Text) {k : Nat} (hpos : 0 < k) (hk : k ≤ t.record.frame.length) :
    t.record.frame.take k ++ List.replicate (t.record.frame.length - k) 0
      = (t.cutRecord k).frame := by
  have hshort : t.bytes.length < 100 := t.short
  have hlen : t.record.frame.length = 4 + t.bytes.length := t.record.frame_length
  obtain ⟨k, rfl⟩ : ∃ k', k = k' + 1 := ⟨k - 1, by omega⟩
  have hframe : (t.cutRecord (k + 1)).frame = UInt8.ofNat t.bytes.length :: (List.replicate 3 0
      ++ (t.bytes.take (k - 3) ++ List.replicate (t.bytes.length - (k - 3)) 0)) := by
    rw [Record.frame, t.cutRecord_length, toLE_small (by omega), List.cons_append]
    rfl
  rw [hframe, t.frame_eq, List.take_succ_cons, List.cons_append, List.take_append,
    List.length_replicate, List.take_replicate, List.append_assoc]
  congr 1
  by_cases hfield : 3 ≤ k
  · -- the cut is behind the field
    have hzeros : (UInt8.ofNat t.bytes.length :: (List.replicate 3 0 ++ t.bytes)).length - (k + 1)
        = t.bytes.length - (k - 3) := by
      simp only [List.length_cons, List.length_append, List.length_replicate]
      omega
    rw [hzeros, Nat.min_eq_right hfield]
  · -- the cut is inside the field, and nothing of the text is there
    have hnone : k - 3 = 0 := by omega
    rw [hnone, List.take_zero, List.nil_append, List.nil_append, ← List.replicate_add,
      ← List.replicate_add]
    congr 1
    simp only [List.length_cons, List.length_append, List.length_replicate]
    omega

/-- The buffer when the record of `t` was cut: there is room for all of it. -/
theorem received_cut {ts : List Text} {t : Text} {k : Nat} (hpos : 0 < k)
    (hk : k < t.record.frame.length)
    (hcount : (stream ts ++ t.record.frame).length ≤ bufferLength) :
    ∃ n, received (stream ts ++ t.record.frame.take k)
      = stream ts ++ ((t.cutRecord k).frame ++ List.replicate n 0) := by
  let bs := stream ts ++ t.record.frame.take k
  have hlen : bs.length = (stream ts).length + k := by
    rw [List.length_append, List.length_take_of_le hk.le]
  rw [List.length_append] at hcount
  have hzeros : bufferLength - bs.length = (t.record.frame.length - k)
      + (bufferLength - bs.length - (t.record.frame.length - k)) := by omega
  refine ⟨bufferLength - bs.length - (t.record.frame.length - k), ?_⟩
  rw [← t.cut_frame hpos hk.le, List.append_assoc (List.take k _), ← List.replicate_add, ← hzeros]
  exact received_append _ _

/-- The record that was cut is the last one. -/
theorem readCharsPass_cut (behind : Nat → Mem) {ts : List Text} {t : Text} {k : Nat}
    (hten : ts.length < row) (hpos : 0 < k) (hk : k < t.record.frame.length)
    (hcount : (stream ts ++ t.record.frame).length ≤ bufferLength) :
    let bs := stream ts ++ t.record.frame.take k
    let rs := ts.map Text.record
    readCharsPass behind (received bs) (.after behind bs.length rs)
      = .leave (some (.after behind bs.length (rs ++ [t.cutRecord k]))) := by
  intro bs rs
  obtain ⟨n, hbuffer⟩ := received_cut hpos hk hcount
  have hlen : bs.length = (stream ts).length + k := by
    rw [List.length_append, List.length_take_of_le hk.le]
  have hfits : (t.cutRecord k).bytes.length < col := t.cutRecord_length k ▸ t.short
  rw [List.length_append, bufferLength] at hcount
  have hrows : rs.length < row := by
    rw [List.length_map]
    exact hten
  have hpass : readCharsPass behind (received bs) (.after behind bs.length rs)
      = (CharsState.after behind bs.length (rs ++ [t.cutRecord k])).next := by
    rw [hbuffer, stream,
      readCharsPass_frame (by omega) (hlen ▸ Nat.le_add_right _ k) hrows hfits.le,
      if_pos (List.mem_append_left _ (zero_mem_padded hfits))]
  apply hpass.trans
  -- more bytes were taken than had come
  have hremain : ¬ 0 < (CharsState.after behind bs.length
      (rs ++ [t.cutRecord k])).cursor.remain_length := by
    have hall : (code.encodeAll (rs ++ [t.cutRecord k])).length
        = (stream ts).length + t.record.frame.length := by
      rw [PrefixCode.encodeAll_append, List.length_append, PrefixCode.encodeAll_cons,
        PrefixCode.encodeAll_nil, List.append_nil]
      show (stream ts).length + (t.cutRecord k).frame.length = _
      rw [Record.frame_length, t.cutRecord_length, Record.frame_length]
      rfl
    show ¬ (0 : Int) < (bs.length : Int) - ((code.encodeAll (rs ++ [t.cutRecord k])).length : Nat)
    omega
  exact if_neg fun hgo => hremain hgo.2

/-- Of a record that is cut, what has come of the text is printed. -/
theorem extracts_cut (ts : List Text) {t : Text} {k : Nat} (hten : ts.length < row) (hpos : 0 < k)
    (hk : k < t.record.frame.length)
    (hcount : (stream ts ++ t.record.frame).length ≤ bufferLength) :
    Extracts (stream ts ++ t.record.frame.take k)
      (ts.map Text.bytes ++ [t.bytes.take (k - 4)]) := by
  let rs := ts.map Text.record
  let bs := stream ts ++ t.record.frame.take k
  have hlen : (t.record.frame.take k).length = k := List.length_take_of_le hk.le
  have hfew : bs.length ≤ bufferLength := by
    rw [List.length_append] at hcount ⊢
    omega
  have hleft : t.record.frame.take k ≠ [] := List.ne_nil_of_length_pos (by rw [hlen]; exact hpos)
  have hrows : rs.length < row := by
    rw [List.length_map]
    exact hten
  intro behind
  have hvisits := visits_chars behind hfew [] rfl hleft (short_records ts) hrows
  rw [List.nil_append] at hvisits
  have hreturns := hvisits.returns.mpr
    (Returns.leave (readCharsPass_cut behind hten hpos hk hcount))
  rw [← CharsState.start_eq] at hreturns
  refine ⟨_, hreturns, ?_⟩
  have hnul : 0 ∉ t.bytes.take (k - 4) := fun h => t.nul_free (List.mem_of_mem_take h)
  have htext : beforeNul (t.cutRecord k).bytes = t.bytes.take (k - 4) := by
    rw [Text.cutRecord, beforeNul_append_replicate, beforeNul_of_notMem hnul]
  have hshort : ∀ r ∈ rs ++ [t.cutRecord k], r.bytes.length < col := by
    intro r hr
    rcases List.mem_append.mp hr with hwhole | hlast
    · exact short_records ts r hwhole
    · rw [List.mem_singleton.mp hlast, t.cutRecord_length]
      exact t.short
  rw [CharsState.texts_after behind _ hshort, List.map_append, map_beforeNul_record, List.map_cons,
    List.map_nil, htext]

/-! ### Exactly where nothing is cut -/

/-- The bytes `p` of the records of `ts` end between two records, or inside the length field of an
    empty text. -/
def EndsWell (ts : List Text) (p : List UInt8) : Prop :=
  ∃ done todo, ts = done ++ todo ∧
    (p = stream done ∨ ∃ t rest j, todo = t :: rest ∧ t.bytes = [] ∧ 0 < j ∧ j < 4 ∧
      p = stream done ++ List.replicate j 0)

theorem stream_append (ts us : List Text) : stream (ts ++ us) = stream ts ++ stream us := by
  rw [stream, List.map_append, PrefixCode.encodeAll_append]
  rfl

theorem stream_cons (t : Text) (ts : List Text) : stream (t :: ts) = t.record.frame ++ stream ts :=
  rfl

/-- Few texts make few bytes. -/
theorem stream_length_le (ts : List Text) : (stream ts).length ≤ 104 * ts.length := by
  induction ts with
  | nil => exact le_refl 0
  | cons t ts ih =>
    have hshort : t.bytes.length < 100 := t.short
    have hlen : t.record.frame.length = 4 + t.bytes.length := t.record.frame_length
    rw [stream_cons, List.length_append, List.length_cons, hlen]
    omega

/-- The record of an empty text is its length field. -/
theorem frame_take_of_empty {t : Text} (ht : t.bytes = []) {j : Nat} (hj : j ≤ 4) :
    t.record.frame.take j = List.replicate j 0 := by
  have hframe : t.record.frame = List.replicate 4 0 := by
    rw [t.frame_eq, ht, List.append_nil]
    rfl
  rw [hframe, List.take_replicate, Nat.min_eq_left hj]

/-- What is printed of a record that is cut was sent only if the text is empty. -/
theorem empty_of_isPrefix {done rest : List Text} {t : Text} {k : Nat}
    (hk : k < t.record.frame.length)
    (h : done.map Text.bytes ++ [t.bytes.take (k - 4)] <+: (done ++ t :: rest).map Text.bytes) :
    t.bytes = [] := by
  have hlen : t.record.frame.length = 4 + t.bytes.length := t.record.frame_length
  rw [List.map_append, List.prefix_append_right_inj, List.map_cons, List.cons_prefix_cons] at h
  have htake := congrArg List.length h.1
  rw [List.length_take] at htake
  exact List.length_eq_zero_iff.mp (by omega)

/-- The bytes of at most ten texts fit in the buffer. -/
theorem stream_fits {ts : List Text} (hten : ts.length ≤ row) :
    (stream ts).length ≤ bufferLength := by
  have hbound := stream_length_le ts
  rw [row] at hten
  rw [bufferLength]
  omega

/-- The same when the last text is written as its record. -/
theorem stream_frame_fits {done rest : List Text} {t : Text}
    (hten : (done ++ t :: rest).length ≤ row) :
    (stream done ++ t.record.frame).length ≤ bufferLength := by
  have hfits := stream_fits hten
  rw [stream_append, stream_cons, ← List.append_assoc, List.length_append] at hfits
  exact (Nat.le_add_right _ _).trans hfits

/-- When nothing is printed that was not sent, the bytes end well. -/
theorem endsWell_of_extracts {ts : List Text} (hten : ts.length ≤ row) {p : List UInt8}
    (hp : p <+: stream ts) {out : List (List UInt8)} (hout : Extracts p out)
    (hsent : out <+: ts.map Text.bytes) : EndsWell ts p := by
  obtain ⟨done', todo', left, hsplit, hs, hleft⟩ := PrefixCode.splits_of_isPrefix hp
  obtain ⟨done, todo, rfl, rfl, rfl⟩ := List.map_eq_append_iff.mp hsplit
  have hpdone : p = stream done ++ left := hs.eq
  by_cases hnil : left = []
  · exact ⟨done, todo, rfl, Or.inl (by rw [hpdone, hnil, List.append_nil])⟩
  · -- the bytes end inside the record of `t`
    obtain ⟨r, rest', htodo, hpre, hlt⟩ := hleft.resolve_left hnil
    obtain ⟨t, rest, rfl, rfl, rfl⟩ := List.map_eq_cons_iff.mp htodo
    have htake : left = t.record.frame.take left.length := List.prefix_iff_eq_take.mp hpre
    have hpos : 0 < left.length := List.length_pos_iff.mpr hnil
    have hfits := stream_frame_fits hten
    rw [List.length_append, List.length_cons] at hten
    have hcut := extracts_cut done (t := t) (by omega) hpos hlt hfits
    rw [← htake, ← hpdone] at hcut
    have hempty : t.bytes = [] := empty_of_isPrefix hlt (hout.unique hcut ▸ hsent)
    have hfour : left.length < 4 := by
      have hlen : (code.encode t.record).length = 4 + t.bytes.length := t.record.frame_length
      rwa [hlen, hempty] at hlt
    refine ⟨done, t :: rest, rfl, Or.inr ⟨t, rest, left.length, rfl, hempty, hpos, hfour, ?_⟩⟩
    rw [hpdone, ← frame_take_of_empty hempty hfour.le, ← htake]

/-- When the bytes end well, what is printed was sent. -/
theorem extracts_of_endsWell {ts : List Text} (hten : ts.length ≤ row) {p : List UInt8}
    (hne : p ≠ []) (h : EndsWell ts p) : ∃ out, Extracts p out ∧ out <+: ts.map Text.bytes := by
  obtain ⟨done, todo, rfl, rfl | ⟨t, rest, j, rfl, hempty, hpos, hfour, rfl⟩⟩ := h
  · have hdone : done ≠ [] := by
      intro hnil
      rw [hnil] at hne
      exact hne rfl
    rw [List.length_append] at hten
    have hfew : done.length ≤ row := by omega
    refine ⟨_, extracts_whole hdone hfew (stream_fits hfew), ?_⟩
    rw [List.map_append]
    exact List.prefix_append _ _
  · -- the record of the empty text is printed as an empty text
    have hlen : t.record.frame.length = 4 := by
      rw [t.record.frame_length]
      exact congrArg (4 + List.length ·) hempty
    have hfits := stream_frame_fits hten
    rw [List.length_append, List.length_cons] at hten
    have hcut := extracts_cut done (t := t) (k := j) (by omega) hpos (by omega) hfits
    rw [frame_take_of_empty hempty hfour.le, hempty, List.take_nil] at hcut
    refine ⟨_, hcut, ?_⟩
    rw [List.map_append, List.prefix_append_right_inj, List.map_cons, hempty]
    exact ⟨rest.map Text.bytes, rfl⟩

/-- Of any beginning of what `write_chars` produces for at most ten strings, `read_chars` prints the
    first of these strings, and nothing else, exactly when it ends between two records or inside
    the length field of an empty one. -/
theorem extracts_iff (ts : List Text) (hten : ts.length ≤ 10) (e : List UInt8)
    (he : WritesChars (ts.map Text.bytes) e) (p : List UInt8) (hne : p ≠ []) (hp : p <+: e) :
    (∃ out, Extracts p out ∧ out <+: ts.map Text.bytes) ↔ EndsWell ts p := by
  obtain rfl : e = stream ts := (writesChars_iff ts e).mp he
  constructor
  · intro hextracts
    obtain ⟨out, hout, hsent⟩ := hextracts
    exact endsWell_of_extracts hten hp hout hsent
  · exact extracts_of_endsWell hten hne

/-- Two records in whole. -/
theorem extracts_iff_two : ∃ out, Extracts [2, 0, 0, 0, 104, 105, 0, 0, 0, 0] out ∧
    out <+: [[104, 105], [], [33]] := by
  let t : Text := { bytes := [104, 105], nul_free := by decide, short := by decide }
  let u : Text := { bytes := [], nul_free := by decide, short := by decide }
  let v : Text := { bytes := [33], nul_free := by decide, short := by decide }
  exact (extracts_iff [t, u, v] (by decide) _ ((writesChars_iff [t, u, v] _).mpr rfl)
    [2, 0, 0, 0, 104, 105, 0, 0, 0, 0] (by decide) (by decide)).mpr
      ⟨[t, u], [v], rfl, Or.inl (by decide)⟩

/-- The string `hi`, cut behind its first byte: `h` is printed. -/
theorem cut_text_printed :
    ¬ ∀ (ts : List Text) (e p : List UInt8), ts.length ≤ 10 → WritesChars (ts.map Text.bytes) e →
      p ≠ [] → p <+: e → ∃ out, Extracts p out ∧ out <+: ts.map Text.bytes := by
  intro hall
  let t : Text := { bytes := [104, 105], nul_free := by decide, short := by decide }
  obtain ⟨out, hout, hsent⟩ := hall [t] [2, 0, 0, 0, 104, 105] [2, 0, 0, 0, 104] (by decide)
    ((writesChars_iff [t] _).mpr (by decide)) (by decide) (by decide)
  have hcut := extracts_cut [] (t := t) (k := 5) (by decide) (by decide) (by decide)
    (by decide)
  have hp : stream [] ++ t.record.frame.take 5 = [2, 0, 0, 0, 104] := by decide
  rw [hp] at hcut
  rw [hout.unique hcut] at hsent
  exact absurd hsent (by decide)

end SocketBasic
