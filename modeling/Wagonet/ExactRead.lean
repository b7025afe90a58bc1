import Wagonet.Library.Delivery
import Wagonet.ServerTransport

/-!
Reading a frame from a peer that delivers it piece by piece.

`read_exact_or_closed` gets a slice and reads into the part of it that is not filled
yet. Here the slice is the state, and each piece is put behind those that came before.
What the call does depends on the bytes that arrive and on whether the peer has closed
its end, and not on how the bytes are cut; and it is what the server does with its
buffer.
-/

namespace Wagonet

open Library

variable {C : Interface}

/-- What a read has put into `buf[filled..]` -/
def putAt (buf : List UInt8) (filled : Nat) (chunk : List UInt8) : List UInt8 :=
  buf.take filled ++ chunk ++ buf.drop (filled + chunk.length)

/-- The error of a stream that has ended after `filled` of `n` bytes. -/
def closedError (filled n : Nat) : Error :=
  if filled = 0 then .connectionClosed else .connectionClosedMidFrame filled n

/-- The loop of `read_exact_or_closed`; every iteration but the last brings a byte. -/
def readWindow : Nat → Nat → Async (Net C) (List UInt8) Error Unit
  | 0, _ => pure ()
  | fuel + 1, filled => do
      let buf ← Async.get
      if filled < buf.length then
        match ← Async.wait (A := Stream) (.read (buf.length - filled)) with
        | .error e => Async.fail (.io e)
        | .ok chunk =>
            if chunk.val.length = 0 then
              Async.fail (closedError filled buf.length)
            else do
              Async.modify fun buf => putAt buf filled chunk.val
              readWindow fuel (filled + chunk.val.length)
      else
        pure ()

/-- `read_exact_or_closed` of a slice. -/
def readExactOrClosedInto (buf : List UInt8) : Task (Net C) (List UInt8) (Except Error Unit) :=
  readWindow buf.length 0 buf

section

variable {buf a b : List UInt8} {fuel filled : Nat}

theorem putAt_nil (buf : List UInt8) (filled : Nat) : putAt buf filled [] = buf := by
  rw [putAt, List.append_nil]
  exact List.take_append_drop filled buf

theorem putAt_length (h : filled + a.length ≤ buf.length) :
    (putAt buf filled a).length = buf.length := by
  simp only [putAt, List.length_append, List.length_take, List.length_drop]
  omega

/-- Two pieces one behind the other are one piece. -/
theorem putAt_putAt (h : filled ≤ buf.length) :
    putAt (putAt buf filled a) (filled + a.length) b = putAt buf filled (a ++ b) := by
  have hlen : (buf.take filled ++ a).length = filled + a.length := by
    simp only [List.length_append, List.length_take]
    omega
  have htake : (putAt buf filled a).take (filled + a.length) = buf.take filled ++ a := by
    rw [putAt, ← hlen]
    exact List.take_left
  have hdrop : (putAt buf filled a).drop (filled + a.length + b.length) =
      buf.drop (filled + (a ++ b).length) := by
    rw [putAt, ← hlen, List.drop_length_add_append, List.drop_drop, hlen, List.length_append,
      Nat.add_assoc]
  rw [putAt, htake, hdrop, putAt, List.append_assoc (buf.take filled)]

theorem readWindow_of_lt (h : filled < buf.length) :
    (readWindow (fuel + 1) filled buf : Task (Net C) _ _) =
      .await buf (.wait [] (.read (buf.length - filled))) fun r =>
        match r with
        | .inl i => i.elim0
        | .inr (.error e) => .done buf (.error (.io e))
        | .inr (.ok chunk) =>
            if chunk.val.length = 0 then .done buf (.error (closedError filled buf.length))
            else readWindow fuel (filled + chunk.val.length) (putAt buf filled chunk.val) := by
  simp only [readWindow, Async.get_bind_apply, h, if_true]
  refine congrArg _ (funext fun r => ?_)
  match r with
  | .inl i => exact i.elim0
  | .inr (.error e) => rfl
  | .inr (.ok chunk) =>
      by_cases hc : chunk.val.length = 0
      · simp only [Task.bind_done, hc, if_true]
        rfl
      · simp only [Task.bind_done, hc, if_false]
        rfl

theorem readWindow_awaits {room : Nat} (h : filled < buf.length)
    (hroom : buf.length - filled = room) :
    ∃ k, (readWindow (fuel + 1) filled buf : Task (Net C) _ _) =
      .await buf (.wait [] (.read room)) k := by
  subst hroom
  exact ⟨_, readWindow_of_lt h⟩

theorem readWindow_of_full (h : buf.length ≤ filled) :
    (readWindow fuel filled buf : Task (Net C) _ _) = .done buf (.ok ()) := by
  cases fuel with
  | zero => rfl
  | succ fuel =>
      simp only [readWindow, Async.get_bind_apply, Nat.not_lt.mpr h, if_false]
      rfl

/-- The loop takes what it wants of the bytes, in the order in which they arrive, and
leaves the rest; the end of the stream fails it if bytes are missing. -/
theorem serve_readWindow {closed : Bool} {chunks : List (List UInt8)}
    (hfuel : buf.length ≤ filled + fuel) (hfilled : filled ≤ buf.length)
    (hne : ∀ c ∈ chunks, c ≠ []) :
    ∃ got rest fuel',
      got = chunks.flatten.take (buf.length - filled) ∧
      rest.flatten = chunks.flatten.drop (buf.length - filled) ∧
      (readWindow fuel filled buf : Task (Net C) _ _).serve closed chunks =
        (if buf.length ≤ filled + got.length then
            .done (putAt buf filled got) (.ok ())
          else if closed then
            .done (putAt buf filled got) (.error (closedError (filled + got.length) buf.length))
          else
            readWindow (fuel' + 1) (filled + got.length) (putAt buf filled got), rest) := by
  induction fuel generalizing filled buf chunks with
  | zero =>
      have hfull : buf.length - filled = 0 := by omega
      refine ⟨[], chunks, 0, by rw [hfull, List.take_zero], by rw [hfull, List.drop_zero], ?_⟩
      rw [readWindow_of_full (by omega), Task.serve_done, putAt_nil, if_pos (by omega)]
  | succ fuel ih =>
      rcases Nat.lt_or_ge filled buf.length with hlt | hge
      · cases chunks with
        | nil =>
            refine ⟨[], [], fuel, List.take_nil.symm, List.drop_nil.symm, ?_⟩
            simp only [putAt_nil, List.length_nil, Nat.add_zero, Nat.not_le.mpr hlt, if_false]
            rw [readWindow_of_lt hlt, Task.serve]
            cases closed with
            | true => rfl
            | false => rfl
        | cons chunk chunks =>
            obtain ⟨room, hroom⟩ : ∃ room, buf.length - filled = room := ⟨_, rfl⟩
            obtain ⟨piece, hpiece⟩ : ∃ piece, chunk.take room = piece := ⟨_, rfl⟩
            have hlen : piece.length ≤ room := hpiece ▸ List.length_take_le room chunk
            have hsome : ¬piece.length = 0 := by
              intro hzero
              rw [← hpiece, List.length_take] at hzero
              have hchunk := List.length_pos_iff.mpr (hne chunk (.head _))
              omega
            obtain ⟨left, hleft⟩ : ∃ left, left =
              (if chunk.length ≤ room then chunks else chunk.drop room :: chunks) := ⟨_, rfl⟩
            have hbytes : (chunk :: chunks).flatten = piece ++ left.flatten := by
              rw [hleft, ← hpiece, Task.flatten_left]
            have hbuf : (putAt buf filled piece).length = buf.length :=
              putAt_length (by omega)
            obtain ⟨got, rest, fuel', hgot, hrest, hserve⟩ :=
              @ih (putAt buf filled piece) (filled + piece.length) left (by omega) (by omega)
                (hleft ▸ Task.ne_nil_left hne)
            rw [hbuf, show buf.length - (filled + piece.length) = room - piece.length by omega]
              at hgot hrest
            rw [hbuf, putAt_putAt hfilled, Nat.add_assoc, ← List.length_append] at hserve
            refine ⟨piece ++ got, rest, fuel', ?_, ?_, ?_⟩
            · rw [hroom, hbytes, List.take_append, List.take_of_length_le hlen, hgot]
            · rw [hroom, hbytes, List.drop_append, List.drop_of_length_le hlen, hrest,
                List.nil_append]
            · rw [← hserve, readWindow_of_lt hlt, Task.serve]
              dsimp only
              rw [hroom, ← hleft]
              simp only [hpiece, hsome, if_false]
      · have hfull : buf.length - filled = 0 := by omega
        refine ⟨[], chunks, 0, by rw [hfull, List.take_zero], by rw [hfull, List.drop_zero], ?_⟩
        rw [readWindow_of_full (by omega), Task.serve_done, putAt_nil, if_pos (by omega)]

/-- Reading on is putting the new bytes behind those that were read. -/
theorem fill_append {s : FramedServer} {start chunk : List UInt8}
    (hbuf : buf.length = s.buffer.bytes.length) (hstart : buf.take start.length = start)
    (hroom : start.length + chunk.length ≤ buf.length) :
    FramedServer.fill (start ++ chunk) (FramedServer.fill buf s) =
      FramedServer.fill (putAt buf start.length chunk) s := by
  have hwhole : (s.buffer.overwrite buf).bytes = buf := ByteVec.overwrite_all hbuf
  have hput : (s.buffer.overwrite (putAt buf start.length chunk)).bytes =
      putAt buf start.length chunk :=
    ByteVec.overwrite_all ((putAt_length hroom).trans hbuf)
  have hbytes : ((s.buffer.overwrite buf).overwrite (start ++ chunk)).bytes =
      putAt buf start.length chunk := by
    rw [ByteVec.overwrite_bytes, hwhole, List.length_append, putAt, hstart]
    apply List.take_of_length_le
    simp only [List.length_append, List.length_drop]
    omega
  have hvec : (s.buffer.overwrite buf).overwrite (start ++ chunk) =
      s.buffer.overwrite (putAt buf start.length chunk) :=
    ByteVec.ext (hbytes.trans hput.symm) rfl rfl
  simp only [FramedServer.fill, FramedServer.withBuffer, hvec]

/-- The read loop over the server's buffer is the loop over the slice that is the buffer. -/
theorem readLoop_fill_eq {s : FramedServer} {start : List UInt8}
    (hbuf : buf.length = s.buffer.bytes.length) (hstart : buf.take start.length = start)
    (hfuel : buf.length ≤ start.length + fuel) :
    (readLoop buf.length FramedServer.fill (fun filled => closedError filled buf.length) .io fuel
        start (FramedServer.fill buf s) : Task (Net C) _ _) =
      ((readWindow fuel start.length buf).embed id (fun _ r => r)
        (fun buf => FramedServer.fill buf s)).bind
          fun s' r => .done s' (r.map fun _ => s'.buffer.bytes) := by
  have hfull (h : buf.length ≤ start.length) :
      start = (FramedServer.fill buf s).buffer.bytes := by
    rw [← hstart, List.take_of_length_le h]
    exact (ByteVec.overwrite_all hbuf).symm
  induction fuel generalizing buf start with
  | zero =>
      rw [readWindow_of_full (by omega), readLoop_of_full (by omega)]
      exact congrArg (fun bytes => Task.done _ (Except.ok bytes)) (hfull (by omega))
  | succ fuel ih =>
      rcases Nat.lt_or_ge start.length buf.length with hlt | hge
      · rw [readWindow_of_lt hlt, readLoop_of_lt hlt]
        refine congrArg _ (funext fun r => ?_)
        match r with
        | .inl i => exact i.elim0
        | .inr (.error e) => rfl
        | .inr (.ok ⟨chunk, hroom⟩) =>
            by_cases hc : chunk = []
            · subst hc
              rfl
            · have hpos := List.length_pos_iff.mpr hc
              have hlen : (putAt buf start.length chunk).length = buf.length :=
                putAt_length (by omega)
              have htake : (putAt buf start.length chunk).take (start ++ chunk).length =
                  start ++ chunk := by
                rw [putAt, hstart]
                exact List.take_left
              have hstep := ih (hlen.trans hbuf) htake
                (by rw [hlen, List.length_append]; omega)
                (fun h => by
                  rw [← htake, List.take_of_length_le h]
                  exact (ByteVec.overwrite_all (hlen.trans hbuf)).symm)
              rw [hlen, List.length_append] at hstep
              have hne : ¬chunk.length = 0 := by omega
              simp only [hc, hne, if_false]
              rw [fill_append hbuf hstart (by omega)]
              exact hstep
      · rw [readWindow_of_full (by omega), readLoop_of_full (by omega)]
        exact congrArg (fun bytes => Task.done _ (Except.ok bytes)) (hfull hge)

/-- `read_exact_or_closed` of the whole buffer of a server: the slice is the buffer. -/
theorem readExactOrClosed_eq (s : FramedServer) :
    (readExactOrClosed s.buffer.bytes.length FramedServer.fill s : Task (Net C) _ _) =
      ((readExactOrClosedInto s.buffer.bytes).embed id (fun _ r => r)
        (fun buf => FramedServer.fill buf s)).bind
          fun s' r => .done s' (r.map fun _ => s'.buffer.bytes) := by
  have hself : FramedServer.fill s.buffer.bytes s = s := by
    have hvec : s.buffer.overwrite s.buffer.bytes = s.buffer :=
      ByteVec.ext (ByteVec.overwrite_all rfl) rfl rfl
    simp only [FramedServer.fill, hvec]
    rfl
  have heq := @readLoop_fill_eq C s.buffer.bytes s.buffer.bytes.length s [] rfl rfl (by simp)
  rw [hself] at heq
  exact heq

/-- The result of a call that has got `k` bytes of `n` wanted, and no more if the stream is
closed. -/
def readResult (k n : Nat) (closed : Bool) : Option (Except Error Unit) :=
  if n ≤ k then some (.ok ()) else if closed then some (.error (closedError k n)) else none

theorem readResult_ok_iff {k n : Nat} {closed : Bool} :
    readResult k n closed = some (.ok ()) ↔ n ≤ k := by
  rw [readResult]
  split
  · rename_i hle
    exact ⟨fun _ => hle, fun _ => rfl⟩
  · rename_i hnot
    cases closed <;> exact ⟨nofun, fun hle => absurd hle hnot⟩

theorem readResult_closed_iff {k n : Nat} {closed : Bool} :
    readResult k n closed = some (.error .connectionClosed) ↔ 0 < n ∧ closed = true ∧ k = 0 := by
  rw [readResult, closedError]
  split
  · refine ⟨nofun, fun ⟨hpos, _, hzero⟩ => ?_⟩
    omega
  · cases closed with
    | false => exact ⟨nofun, nofun⟩
    | true =>
        by_cases hzero : k = 0
        · subst hzero
          exact ⟨fun _ => ⟨by omega, rfl, rfl⟩, fun _ => rfl⟩
        · simp [hzero]

theorem readResult_midFrame_iff {k n i j : Nat} {closed : Bool} :
    readResult k n closed = some (.error (.connectionClosedMidFrame i j)) ↔
      closed = true ∧ i = k ∧ j = n ∧ 0 < i ∧ i < j := by
  rw [readResult, closedError]
  split
  · refine ⟨nofun, ?_⟩
    rintro ⟨_, rfl, rfl, _, hlt⟩
    omega
  · rename_i hnot
    cases closed with
    | false => exact ⟨nofun, nofun⟩
    | true =>
        by_cases hzero : k = 0
        · simp only [hzero, if_true]
          refine ⟨nofun, ?_⟩
          rintro ⟨_, rfl, _, hpos, _⟩
          omega
        · simp only [hzero, if_false, if_true, Option.some.injEq, Except.error.injEq,
            Error.connectionClosedMidFrame.injEq, true_and]
          omega

variable {stream : List UInt8} {closed : Bool} {chunks rest : List (List UInt8)}
  {t : Task (Net C) (List UInt8) (Except Error Unit)}

/-- What the whole call makes of the bytes that arrive. -/
theorem readExactOrClosedInto_served
    (h : (readExactOrClosedInto buf).serve closed chunks = (t, rest))
    (hne : ∀ c ∈ chunks, c ≠ []) (hstream : chunks.flatten = stream) :
    rest.flatten = stream.drop buf.length ∧ ∃ fuel,
      t = if buf.length ≤ stream.length then .done (stream.take buf.length) (.ok ())
        else if closed then
          .done (stream ++ buf.drop stream.length)
            (.error (closedError stream.length buf.length))
        else readWindow (fuel + 1) stream.length (stream ++ buf.drop stream.length) := by
  obtain ⟨got, rest', fuel, hgot, hrest, hserve⟩ :=
    @serve_readWindow C buf buf.length 0 closed chunks (by omega) (by omega) hne
  have hput : putAt buf 0 got = got ++ buf.drop got.length := by
    rw [putAt, List.take_zero, List.nil_append, Nat.zero_add]
  rw [hstream, Nat.sub_zero] at hgot hrest
  rw [hput, Nat.zero_add] at hserve
  cases h.symm.trans hserve
  refine ⟨hrest, fuel, ?_⟩
  rcases Nat.lt_or_ge stream.length buf.length with hlt | hge
  · rw [List.take_of_length_le (Nat.le_of_lt hlt)] at hgot
    rw [hgot, if_neg (Nat.not_le.mpr hlt), if_neg (Nat.not_le.mpr hlt)]
  · have hlen : got.length = buf.length := by
      rw [hgot, List.length_take]
      exact Nat.min_eq_left hge
    rw [if_pos (Nat.le_of_eq hlen.symm), if_pos hge, hlen, List.drop_length, List.append_nil, hgot]

/-- The end of the call and the contents of the buffer. -/
theorem readExactOrClosedInto_result
    (h : (readExactOrClosedInto buf).serve closed chunks = (t, rest))
    (hne : ∀ c ∈ chunks, c ≠ []) (hstream : chunks.flatten = stream) :
    t.result = readResult stream.length buf.length closed ∧
      t.left = stream.take buf.length ++ buf.drop stream.length := by
  obtain ⟨-, fuel, rfl⟩ := readExactOrClosedInto_served h hne hstream
  rcases Nat.lt_or_ge stream.length buf.length with hlt | hge
  · have hnot : ¬buf.length ≤ stream.length := Nat.not_le.mpr hlt
    rw [readResult, if_neg hnot, if_neg hnot, List.take_of_length_le (Nat.le_of_lt hlt)]
    cases closed with
    | true => exact ⟨rfl, rfl⟩
    | false =>
        have hlen : stream.length < (stream ++ buf.drop stream.length).length := by
          rw [List.length_append, List.length_drop]
          omega
        obtain ⟨k, hk⟩ := @readWindow_awaits C _ fuel _ _ hlen rfl
        simp only [Bool.false_eq_true, if_false, hk]
        exact ⟨rfl, rfl⟩
  · rw [readResult, if_pos hge, if_pos hge, List.drop_of_length_le hge, List.append_nil]
    exact ⟨rfl, rfl⟩

/-- `read_exact_or_closed` over every way to deliver a stream of bytes in chunks: it reads
the first bytes of the stream into the buffer, and how it ends depends on the stream alone.
A chunk that is longer than the free space is read in parts. -/
theorem readExactOrClosed_chunks
    (h : (readExactOrClosedInto buf).serve closed chunks = (t, rest))
    (hne : ∀ c ∈ chunks, c ≠ []) (hstream : chunks.flatten = stream) :
    -- all bytes have come, or the end of the stream, or neither
    (buf.length ≤ stream.length →
      t = .done (stream.take buf.length) (.ok ()) ∧ rest.flatten = stream.drop buf.length) ∧
    (stream.length < buf.length → closed = true →
      t = .done (stream ++ buf.drop stream.length)
          (.error (if stream = [] then .connectionClosed
            else .connectionClosedMidFrame stream.length buf.length)) ∧
        rest.flatten = []) ∧
    (stream.length < buf.length → closed = false →
      (∃ k, t = .await (stream ++ buf.drop stream.length)
          (.wait [] (.read (buf.length - stream.length))) k) ∧
        rest.flatten = []) ∧
    -- the ends the call can have
    (t.result = some (.ok ()) ↔ buf.length ≤ stream.length) ∧
    (t.result = some (.error .connectionClosed) ↔
      0 < buf.length ∧ closed = true ∧ stream = []) ∧
    (∀ k n, t.result = some (.error (.connectionClosedMidFrame k n)) ↔
      closed = true ∧ k = stream.length ∧ n = buf.length ∧ 0 < k ∧ k < n) ∧
    (buf.length = 0 → (readExactOrClosedInto buf : Task (Net C) _ _) = .done buf (.ok ())) ∧
    -- what was read on the way there
    (∃ es, (readExactOrClosedInto buf).Partial es t ∧ sent es = [] ∧
      received es = stream.take buf.length) ∧
    -- another delivery of the same bytes
    (∀ chunks' rest', ∀ t' : Task (Net C) _ _,
      (readExactOrClosedInto buf).serve closed chunks' = (t', rest') →
      (∀ c ∈ chunks', c ≠ []) → chunks'.flatten = stream →
        t'.result = t.result ∧ t'.left = t.left ∧ rest'.flatten = rest.flatten) := by
  obtain ⟨hrest, fuel, ht⟩ := readExactOrClosedInto_served h hne hstream
  obtain ⟨hresult, hleft⟩ := readExactOrClosedInto_result h hne hstream
  have hshort (hlt : stream.length < buf.length) : rest.flatten = [] := by
    rw [hrest, List.drop_of_length_le (Nat.le_of_lt hlt)]
  refine ⟨fun hge => ?_, fun hlt hclosed => ⟨?_, hshort hlt⟩,
    fun hlt hclosed => ⟨?_, hshort hlt⟩, ?_, ?_, fun k n => ?_, fun hzero => ?_, ?_, ?_⟩
  · rw [ht, if_pos hge]
    exact ⟨rfl, hrest⟩
  · rw [ht, if_neg (Nat.not_le.mpr hlt), hclosed]
    simp only [if_true, closedError, List.length_eq_zero_iff]
  · have hbuf : (stream ++ buf.drop stream.length).length = buf.length := by
      rw [List.length_append, List.length_drop]
      omega
    rw [ht, if_neg (Nat.not_le.mpr hlt), hclosed]
    exact readWindow_awaits (hbuf.symm ▸ hlt) (by rw [hbuf])
  · rw [hresult]
    exact readResult_ok_iff
  · rw [hresult]
    rw [readResult_closed_iff, List.length_eq_zero_iff]
  · rw [hresult]
    exact readResult_midFrame_iff
  · exact readWindow_of_full (Nat.le_of_eq hzero)
  · obtain ⟨es, hpartial, hsent, hbytes⟩ :=
      Task.partial_serve closed (readExactOrClosedInto buf) chunks
    rw [h] at hpartial hbytes
    refine ⟨es, hpartial, hsent, ?_⟩
    rw [hstream, hrest] at hbytes
    exact List.append_cancel_right (hbytes.trans (List.take_append_drop _ _).symm)
  · intro chunks' rest' t' h' hne' hstream'
    obtain ⟨hrest', -⟩ := readExactOrClosedInto_served h' hne' hstream'
    obtain ⟨hresult', hleft'⟩ := readExactOrClosedInto_result h' hne' hstream'
    exact ⟨hresult'.trans hresult.symm, hleft'.trans hleft.symm, hrest'.trans hrest.symm⟩

end

theorem readExactOrClosed_chunks_twoPieces :
    ((readExactOrClosedInto [0, 0, 0] : Task (Net .empty) _ _).serve true [[1], [2, 3, 4]]).1 =
        .done [1, 2, 3] (.ok ()) ∧
      ((readExactOrClosedInto [0, 0, 0] : Task (Net .empty) _ _).serve true
        [[1], [2, 3, 4]]).2.flatten = [4] :=
  (readExactOrClosed_chunks rfl (by decide) rfl).1 (by decide)

end Wagonet
