import CovioFirmware.Queue.Durable

/-!
# Adopting what is on flash

When the checkpoint has gone backwards, the queue finds out how far a segment is
good by scanning it: `adoptValidRows_` reads chunks of 32 rows and stops at the
first row that fails its check.  `wp_scan` says what it returns, for arbitrary file
contents and reads that may come back short: the end of the run of intact rows.

For a flash that is laid out for some position the scan of the highest segment
finds that position again, or one row more if the bytes behind it happen to be an
intact row (`Layout.adopt`).
-/

namespace CovioFirmware
namespace Device

open Crash Bytes

variable {ε : Type} {E : Env ε} {C : World ε → Prop} {w : World ε}

/-- The intact rows of a file from an offset on, up to the first row that is not
intact. -/
def goodRows (b : Data) (off : ℕ) : List QRow :=
  (QRow.codec.rowsIn b off b.length).takeWhile QRow.intact

namespace EventQueue

/-- What a read of `len` bytes at `off` may hand out: a row or more of the true
contents. -/
structure ReadOf (b : Data) (off len : ℕ) (buf : Data) : Prop where
  contents : buf <+: b.drop off
  row_le : 36 ≤ buf.length
  le_len : buf.length ≤ len

/-- The rows a chunk holds are the next rows of the file, and its intact prefix is the
run as far as it is in the chunk. -/
theorem takeWhile_rowsIn_chunk {b buf : Data} {off size : ℕ}
    (hbuf : ReadOf b off (size - off) buf) (hoff : off ≤ size) :
    ((QRow.codec.rowsIn b off size).takeWhile QRow.intact).length =
      if validPrefix buf < buf.length / 36 then validPrefix buf
      else buf.length / 36 +
        ((QRow.codec.rowsIn b (off + 36 * (buf.length / 36)) size).takeWhile QRow.intact).length := by
  set n := buf.length / 36 with hn
  set rows := QRow.codec.rowsIn b off size with hrows
  have hbuf' : buf = (b.drop off).take buf.length := List.prefix_iff_eq_take.mp hbuf.contents
  have hin : buf.length ≤ b.length - off := by
    have hle := hbuf.contents.length_le
    rwa [List.length_drop] at hle
  have hlen := hbuf.le_len
  have hrow := hbuf.row_le
  have hdiv : 36 * n ≤ buf.length := Nat.mul_div_le _ _
  have hend : off + QRow.codec.size * n ≤ min size b.length := by
    rw [QRow.codec_size]
    omega
  have hdrop : rows.drop n = QRow.codec.rowsIn b (off + 36 * n) size :=
    QRow.codec.drop_rowsIn b size n off hend
  -- the first rows, and those of the chunk, are read out of the same bytes
  have htake : rows.take n = QRow.codec.rowsIn buf 0 buf.length := by
    have hself : (QRow.codec.rowsIn buf 0 buf.length).take n =
        QRow.codec.rowsIn ((buf.drop 0).take (QRow.codec.size * n)) 0 (QRow.codec.size * n) :=
      QRow.codec.take_rowsIn buf (by rw [QRow.codec_size, min_self]; omega)
    have hall : (QRow.codec.rowsIn buf 0 buf.length).length ≤ n := by
      rw [QRow.codec.length_rowsIn, min_self, Nat.sub_zero, QRow.codec_size]
    have hbytes : (buf.drop 0).take (QRow.codec.size * n) =
        (b.drop off).take (QRow.codec.size * n) := by
      conv_lhs => rw [List.drop_zero, hbuf', List.take_take]
      rw [Nat.min_eq_left (by rw [QRow.codec_size]; exact hdiv)]
    rw [List.take_of_length_le hall, hbytes] at hself
    rw [hself]
    exact QRow.codec.take_rowsIn b hend
  have hcount : (rows.take n).length = n := by
    rw [htake, QRow.codec.length_rowsIn, min_self, Nat.sub_zero, QRow.codec_size]
  have hprefix : validPrefix buf = ((rows.take n).takeWhile QRow.intact).length := by
    rw [validPrefix, htake]
  have hle : ((rows.take n).takeWhile QRow.intact).length ≤ n :=
    (List.takeWhile_prefix _).length_le.trans hcount.le
  rw [← List.take_append_drop n rows, List.takeWhile_append, hcount, hprefix, hdrop]
  by_cases hall : ((rows.take n).takeWhile QRow.intact).length = n
  · rw [if_pos hall, if_neg (by omega), List.length_append, hcount]
  · rw [if_neg hall, if_pos (by omega)]

/-- **The scan**, under any semantics whose reads hand out true contents: it returns the
end of the run of intact rows.  Where the offset is so near 2^32 that the test of the
loop wraps, a read of no bytes is asked for. -/
theorem wp_scan {σ : Type} {M : Sem Call Call.Reply σ} {I C : σ → Prop} {p : Path} {b : Data}
    {size : ℕ} (hsize : size < 2 ^ 32) (hI : ∀ s, I s → C s)
    (hcut : ∀ s off len s', I s → M.cut (.readAt p off len) s s' → C s')
    (hread : ∀ s off len r s', I s → M.post (.readAt p off len) s r s' → off ≤ size →
      2 ^ 32 ≤ off + 36 ∨ off + 36 ≤ size ∧ 36 ≤ len ∧ len ≤ size - off →
      I s' ∧ ∃ buf, r = some buf ∧ ReadOf b off len buf) :
    ∀ fuel off s, off ≤ size → (size - off) / 36 < fuel → I s →
      wp M (adoptValidRows p size fuel off) (fun m s' => I s' ∧
        m = off + 36 * ((QRow.codec.rowsIn b off size).takeWhile QRow.intact).length) C s := by
  intro fuel
  induction fuel with
  | zero => exact fun off s _ hf _ => absurd hf (Nat.not_lt_zero _)
  | succ fuel ih =>
    intro off s hoff hf hs
    have hroom : u32 (size + 2 ^ 32 - off) = size - off := by
      unfold u32
      omega
    rw [adoptValidRows, hroom]
    by_cases hwrap : 2 ^ 32 ≤ off + 36
    · have htest : u32 (off + 36) ≤ size := by
        unfold u32
        omega
      rw [if_pos htest, Fw.readAt_bind]
      refine wp_call (hI s hs) (fun s' => hcut s _ _ s' hs) fun r s' hpost => ?_
      obtain ⟨-, buf, -, hbuf⟩ := hread s off _ r s' hs hpost hoff (.inl hwrap)
      have hrow := hbuf.row_le
      have hlen := hbuf.le_len
      omega
    · rw [u32_of_lt (by omega)]
      by_cases hfit : off + 36 ≤ size
      · rw [if_pos hfit, Fw.readAt_bind]
        refine wp_call (hI s hs) (fun s' => hcut s _ _ s' hs) fun r s' hpost => ?_
        obtain ⟨hs', buf, rfl, hbuf⟩ := hread s off _ r s' hs hpost hoff
          (.inr ⟨hfit, by omega, by omega⟩)
        have hrow := hbuf.row_le
        have hlen : buf.length ≤ size - off := hbuf.le_len.trans (by omega)
        have hchunk := takeWhile_rowsIn_chunk ⟨hbuf.contents, hrow, hlen⟩ hoff
        have hdiv := Nat.mul_div_le buf.length 36
        simp only [Prog.pure_eq_ret]
        rw [if_neg (Nat.not_lt.mpr hrow)]
        by_cases hstop : validPrefix buf < buf.length / 36
        · rw [if_pos hstop] at hchunk ⊢
          rw [u32_of_lt (by omega), hchunk]
          exact ⟨hI s' hs', hs', rfl⟩
        · rw [if_neg hstop] at hchunk ⊢
          rw [u32_of_lt (by omega), hchunk, Nat.mul_add, ← Nat.add_assoc]
          exact ih _ s' (by omega) (by omega) hs'
      · rw [if_neg hfit, QRow.codec.rowsIn_of_lt (by rw [QRow.codec_size]; omega)]
        exact ⟨hI s hs, hs, rfl⟩

/-- **The scan returns the end of the run of intact rows.** -/
theorem wp_adoptValidRows (hE : E.Reads) {Q : ℕ → World ε → Prop} {p : Path} {b : Data}
    (hb : w.file p = some b) (hsize : b.length + 36 < 2 ^ 32) (hC : C w) :
    ∀ fuel off, off ≤ b.length → (b.length - off) / 36 < fuel →
      Q (off + 36 * (goodRows b off).length) w →
      wp (sem E) (adoptValidRows p b.length fuel off) Q C w := by
  intro fuel off hoff hf hQ
  have hscan := wp_scan (M := sem E) (I := fun w' => w' = w) (C := C) (p := p) (b := b)
    (by omega) (fun w' h => h ▸ hC) ?_ ?_ fuel off w hoff hf rfl
  · refine wp_mono hscan ?_ fun _ h => h
    rintro m _ ⟨rfl, rfl⟩
    exact hQ
  · rintro _ off len _ rfl rfl
    exact hC
  · rintro _ off len r _ rfl ⟨rfl, hpost⟩ hoff hcase
    obtain ⟨hfit, hge, hle⟩ := hcase.resolve_left (by omega)
    rcases hpost with ⟨-, rfl⟩ | ⟨hf, -⟩
    · refine ⟨rfl, (b.drop off).take len, by rw [hb]; rfl, List.take_prefix _ _, ?_, ?_⟩
      · rw [List.length_take, List.length_drop]
        omega
      · exact List.length_take_le _ _
    · exact absurd hf (hE _ _ _ _)

end EventQueue

/-- Rows that are intact, with at most a row's worth of bytes behind them. -/
theorem goodRows_encAll {rows : List QRow} (h : ∀ r ∈ rows, r.intact = true) (tail : Data) :
    goodRows (QRow.codec.encAll rows ++ tail) 0 = rows ++ goodRows tail 0 := by
  rw [goodRows, RowCodec.rowsIn_encAll_append, List.takeWhile_append_of_pos h, goodRows]

/-- What can stand in a row's worth of bytes: nothing intact, or one row. -/
theorem goodRows_short {b : Data} (h : b.length ≤ 36) :
    goodRows b 0 = [] ∨ ∃ x : QRow, x.intact = true ∧ b = QRow.kind.bytes x ∧ goodRows b 0 = [x] := by
  rcases QRow.codec.rowsIn_short h with hnil | ⟨hlen, hone⟩
  · exact .inl (by rw [goodRows, hnil]; rfl)
  · by_cases hx : (QRow.codec.dec b).intact = true
    · refine .inr ⟨QRow.codec.dec b, hx, (QRow.codec.enc_dec b hlen).symm, ?_⟩
      rw [goodRows, hone, List.takeWhile_cons, hx]
      rfl
    · refine .inl ?_
      rw [goodRows, hone, List.takeWhile_cons, if_neg hx]

namespace Layout

variable {fs : Path → Option Data} {A O cs co : ℕ} {acked : UInt32} {log : List QRow}

/-- The position moves to the start of a segment that a rollover has created. -/
theorem advance (h : Layout fs A O cs co acked log) (hnext : fs (.seg (A + 1)) ≠ none) :
    Layout fs (A + 1) 0 cs co acked log := by
  obtain ⟨hfull, hshort⟩ := h.next hnext
  have hcA := h.cursor_le
  refine ⟨h.intact, by omega, by omega, by omega, fun i hi => ?_, ⟨_, ?_, hshort, fun hc => ?_⟩,
    fun hne => ?_, fun i hi => h.above i (by omega), .inr hnext, by omega, h.cursor⟩
  · by_cases hiA : i < A
    · exact h.closed i hiA
    · have heq : i = A := by omega
      subst heq
      exact .inl (h.file_full hfull)
  · rw [chunk_eq_nil (by omega)]
    rfl
  · omega
  · exact absurd (h.above (A + 1 + 1) (by omega)) hne

/-- **The scan of the highest segment finds the position again**, or one row
more. -/
theorem adopt (h : Layout fs A O cs co acked log) {M : ℕ} {b : Data} (hM : fs (.seg M) = some b)
    (htop : ∀ i, fs (.seg i) ≠ none → i ≤ M) :
    ∃ log', (log' = log ∨ ∃ x, log' = log ++ [x]) ∧
      Layout fs M (36 * (goodRows b 0).length) cs co acked log' := by
  have hle : M ≤ A + 1 := by
    by_contra hc
    rw [h.above M (by omega)] at hM
    cases hM
  have hge : A ≤ M := by
    rcases h.rooted with h0 | hA
    · omega
    · exact htop A hA
  by_cases hMA : M = A
  · -- the highest segment is the active one
    subst hMA
    obtain ⟨tail, hfile, htail, hfull⟩ := h.active
    rw [hM, Option.getD_some] at hfile
    have hgood : goodRows b 0 = chunk log M ++ goodRows tail 0 := by
      rw [hfile]
      exact goodRows_encAll (fun r hr => h.intact r (mem_of_mem_chunk hr)) tail
    rcases goodRows_short htail with hnil | ⟨x, hx, hbytes, hone⟩
    · refine ⟨log, .inl rfl, ?_⟩
      rw [hgood, hnil, List.append_nil, ← h.offset_eq]
      exact h
    · refine ⟨log ++ [x], .inr ⟨x, rfl⟩, ?_⟩
      have hroom : log.length < 5000 * (M + 1) := by
        have hup := h.upper
        by_contra hc
        have hempty := hfull (by omega)
        rw [hempty] at hbytes
        have hlen : (QRow.kind.bytes x).length = 36 := QRow.kind.length_bytes x
        rw [← hbytes, List.length_nil] at hlen
        omega
      have hoff : 36 * (goodRows b 0).length = O + 36 := by
        rw [hgood, hone, List.length_append, List.length_singleton, h.offset_eq]
        ring
      rw [hoff]
      exact h.append_here hroom hx (by rw [hM, hfile, hbytes])
  · -- the highest segment is the one a rollover had just created
    have hMeq : M = A + 1 := by omega
    subst hMeq
    have hnext : fs (.seg (A + 1)) ≠ none := by rw [hM]; simp
    obtain ⟨hfull, hshort⟩ := h.next hnext
    rw [hM, Option.getD_some] at hshort
    rcases goodRows_short hshort with hnil | ⟨x, hx, hbytes, hone⟩
    · refine ⟨log, .inl rfl, ?_⟩
      rw [hnil, List.length_nil, Nat.mul_zero]
      exact h.advance hnext
    · refine ⟨log ++ [x], .inr ⟨x, rfl⟩, ?_⟩
      rw [hone, List.length_singleton, Nat.mul_one]
      exact h.append_next hfull hx (by rw [hM, hbytes])

end Layout

end Device
end CovioFirmware
