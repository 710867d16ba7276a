import OpenDmcn.Relay.ChunkedStore

/-! Bodies on the wire (`relay.go`): a body is written as frames with a length in front of each, and
read frame by frame until the declared number of bytes is there. A frame may be empty, and then
nothing is gained by reading it. -/

namespace Dmcn

open Go Guard

abbrev ByteStream := ℕ → Option UInt8

namespace ByteStream

def HasAt (s : ByteStream) (pos : ℕ) (b : Bytes) : Prop :=
  ∀ i (h : i < b.length), s (pos + i) = some b[i]

def readFull (s : ByteStream) : ℕ → ℕ → Option Bytes
  | _, 0 => some []
  | pos, n + 1 => do
    let b ← s pos
    let rest ← s.readFull (pos + 1) n
    return b :: rest

def writeFrame (data : Bytes) : Bytes := bigEndian32 data.length ++ data

def readFrame (s : ByteStream) (pos : ℕ) : Except FrameError (Bytes × ℕ) := do
  let len ← need (s.readFull pos 4) .closed
  let n := readBigEndian32 len
  refuse (n > maxMessageSize) .chunkTooLarge
  let data ← need (s.readFull (pos + 4) n) .closed
  return (data, pos + 4 + n)

def readLoop (s : ByteStream) (total : ℕ) : ℕ → ℕ → Bytes → Option (Except FrameError (Bytes × ℕ))
  | fuel, pos, buf =>
    if total ≤ buf.length then some (.ok (buf, pos))
    else
      match fuel with
      | 0 => none
      | fuel + 1 =>
        match s.readFrame pos with
        | .error e => some (.error e)
        | .ok (frame, pos') =>
          if buf.length + frame.length > total then some (.error .chunkOverflow)
          else s.readLoop total fuel pos' (buf ++ frame)

def readChunked (s : ByteStream) (total : UInt64) (pos fuel : ℕ) :
    Option (Except FrameError (Bytes × ℕ)) :=
  if total.toNat > maxBodySize then some (.error .bodyTooLarge) else s.readLoop total.toNat fuel pos
    []

def chunkedBytes (body : Bytes) : Bytes := (writeChunked body).flatMap writeFrame

def ReturnsWithin (s : ByteStream) (total : UInt64) (pos fuel : ℕ) : Prop :=
  (s.readChunked total pos fuel).isSome

def emptyFrames (s : ByteStream) : ℕ → ℕ → ℕ
  | 0, _ => 0
  | k + 1, pos =>
    match s.readFrame pos with
    | .error _ => 0
    | .ok (frame, pos') => (if frame = [] then 1 else 0) + s.emptyFrames k pos'

section RoundTrip

variable {s : ByteStream} {pos : ℕ}

theorem HasAt.append {a b : Bytes} (h : s.HasAt pos (a ++ b)) : s.HasAt pos a ∧
    s.HasAt (pos + a.length) b := by
  constructor
  · intro i hi
    have hread := h i (by rw [List.length_append]; omega)
    rwa [List.getElem_append_left hi] at hread
  · intro i hi
    have hread := h (a.length + i) (by rw [List.length_append]; omega)
    rw [List.getElem_append_right (Nat.le_add_right _ _)] at hread
    simpa [Nat.add_assoc] using hread

theorem HasAt.readFull {b : Bytes} (h : s.HasAt pos b) : s.readFull pos b.length = some b := by
  induction b generalizing pos with
  | nil => rfl
  | cons x b ih =>
    have hx : s pos = some x := h 0 (Nat.succ_pos _)
    have hb : s.HasAt (pos + 1) b := (HasAt.append (a := [x]) h).2
    rw [List.length_cons, ByteStream.readFull, hx, ih hb]
    rfl

theorem length_writeFrame (data : Bytes) : (writeFrame data).length = 4 + data.length := by
  rw [writeFrame, List.length_append, length_bigEndian32]

theorem HasAt.readFrame_eq {data : Bytes} (h : s.HasAt pos (writeFrame data))
    (hlt : data.length < 2 ^ 32) :
    s.readFrame pos = if data.length > maxMessageSize then .error .chunkTooLarge
      else .ok (data, pos + (writeFrame data).length) := by
  obtain ⟨hlen, hdata⟩ := h.append
  rw [length_bigEndian32] at hdata
  have hhead : s.readFull pos 4 = some (bigEndian32 data.length) := hlen.readFull
  have hn : readBigEndian32 (bigEndian32 data.length) = data.length := by
    have hread := readBigEndian32_append data.length []
    rw [List.append_nil, Nat.mod_eq_of_lt hlt] at hread
    exact hread
  unfold ByteStream.readFrame
  rw [hhead, need, ok_bind]
  dsimp only
  rw [hn, refuse]
  split
  · rfl
  · rw [ok_bind, hdata.readFull, length_writeFrame, ← Nat.add_assoc]
    rfl

theorem HasAt.readFrame {data : Bytes} (h : s.HasAt pos (writeFrame data))
    (hsize : data.length ≤ maxMessageSize) :
    s.readFrame pos = .ok (data, pos + (writeFrame data).length) := by
  rw [h.readFrame_eq (hsize.trans_lt (by decide)), if_neg (Nat.not_lt.mpr hsize)]

theorem HasAt.readLoop {frames : List Bytes} (h : s.HasAt pos (frames.flatMap writeFrame))
    (hsize : ∀ frame ∈ frames, frame.length ≤ maxMessageSize) (hfull : ∀ frame ∈ frames, frame ≠ [])
    (buf : Bytes) :
    s.readLoop (buf.length + frames.flatten.length) frames.length pos buf =
      some (.ok (buf ++ frames.flatten, pos + (frames.flatMap writeFrame).length)) := by
  induction frames generalizing pos buf with
  | nil =>
    unfold ByteStream.readLoop
    rw [if_pos (by simp), List.flatten_nil, List.append_nil, List.flatMap_nil]
    rfl
  | cons frame frames ih =>
    rw [List.flatMap_cons] at h
    obtain ⟨hframe, hrest⟩ := h.append
    have hpos : 0 < frame.length := List.length_pos_of_ne_nil (hfull frame List.mem_cons_self)
    have hread := hframe.readFrame (hsize frame List.mem_cons_self)
    have hlater := ih hrest (fun f hf => hsize f (List.mem_cons_of_mem _ hf))
      (fun f hf => hfull f (List.mem_cons_of_mem _ hf)) (buf ++ frame)
    have htotal : buf.length + (frame :: frames).flatten.length = (buf ++ frame).length +
        frames.flatten.length := by
      rw [List.flatten_cons, List.length_append, List.length_append, Nat.add_assoc]
    unfold ByteStream.readLoop
    rw [htotal, if_neg (by rw [List.length_append]; omega), List.length_cons]
    dsimp only
    rw [hread]
    dsimp only
    rw [if_neg (by rw [List.length_append]; omega), hlater, List.append_assoc, List.flatten_cons,
      List.flatMap_cons, List.length_append, Nat.add_assoc]

theorem ne_nil_of_mem_chunksOf {n : ℕ} {data chunk : Bytes} (h : chunk ∈ chunksOf n data) :
    chunk ≠ [] := by
  induction data using (measure List.length).wf.induction with
  | h data ih =>
    rw [chunksOf] at h
    split at h
    · exact absurd h List.not_mem_nil
    · next hdata =>
      have hpos := List.length_pos_of_ne_nil (show data ≠ [] by tauto)
      rcases List.mem_cons.mp h with rfl | h
      · apply List.ne_nil_of_length_pos
        rw [List.length_take]
        omega
      · apply ih (data.drop n) _ h
        change (data.drop n).length < data.length
        rw [List.length_drop]
        omega

theorem readChunked_chunkedBytes {body : Bytes} (hbody : body.length ≤ maxBodySize)
    (h : s.HasAt pos (chunkedBytes
    body)) :
    s.readChunked (UInt64.ofNat body.length) pos (writeChunked body).length =
      some (.ok (body, pos + (chunkedBytes body).length)) := by
  have htotal : (UInt64.ofNat body.length).toNat = body.length := by
    rw [UInt64.toNat_ofNat']
    unfold maxBodySize at hbody
    omega
  have hsize : ∀ frame ∈ writeChunked body, frame.length ≤ maxMessageSize := by
    intro frame hframe
    exact (length_le_of_mem_chunksOf hframe).trans (by decide)
  have hfull : ∀ frame ∈ writeChunked body, frame ≠ [] := fun frame => ne_nil_of_mem_chunksOf
  have hflatten : (writeChunked body).flatten = body := flatten_chunksOf (by decide) body
  have hread := HasAt.readLoop h hsize hfull []
  rw [hflatten, List.length_nil, Nat.zero_add, List.nil_append] at hread
  unfold ByteStream.readChunked
  rw [htotal, if_neg (Nat.not_lt.mpr hbody), hread]
  rfl

end RoundTrip

section Frames

variable {s : ByteStream} {total pos : ℕ}

theorem readFull_of_end (h : s pos = none) (n : ℕ) : s.readFull pos (n + 1) = none := by
  rw [readFull, h]
  rfl

theorem readFrame_of_end (h : s pos = none) : s.readFrame pos = .error .closed := by
  unfold readFrame
  rw [readFull_of_end h 3]
  rfl

/-- On a stream that holds these frames and ends, the loop returns what the loop over the frames
does. -/
theorem HasAt.readLoop_eq {frames : List Bytes} (h : s.HasAt pos (frames.flatMap writeFrame))
    (hend : s (pos + (frames.flatMap writeFrame).length) = none)
    (hlen : ∀ frame ∈ frames, frame.length < 2 ^ 32) (buf : Bytes) :
    (s.readLoop total (frames.length + 1) pos buf).map (Except.map Prod.fst) =
      some (readChunks total frames buf) := by
  induction frames generalizing pos buf with
  | nil =>
    have hstop : s pos = none := hend
    unfold ByteStream.readLoop readChunks
    split
    · rfl
    · dsimp only
      rw [readFrame_of_end hstop]
      rfl
  | cons frame frames ih =>
    rw [List.flatMap_cons] at h hend
    rw [List.length_append, ← Nat.add_assoc] at hend
    obtain ⟨hframe, hrest⟩ := h.append
    have hread := hframe.readFrame_eq (hlen frame List.mem_cons_self)
    have hlater := ih hrest hend fun f hf => hlen f (List.mem_cons_of_mem _ hf)
    rw [List.length_cons]
    unfold ByteStream.readLoop readChunks
    split
    · rfl
    · dsimp only
      rw [hread]
      by_cases hlarge : frame.length > maxMessageSize
      · rw [if_pos hlarge, if_pos hlarge]
        rfl
      · rw [if_neg hlarge, if_neg hlarge]
        dsimp only
        by_cases hover : buf.length + frame.length > total
        · rw [if_pos hover, if_pos hover]
          rfl
        · rw [if_neg hover, if_neg hover]
          exact hlater _

/-- Reading the bytes of frames that their lengths fit is reading the frames. -/
theorem readChunked_frames (total : UInt64) {frames : List Bytes}
    (hlen : ∀ frame ∈ frames, frame.length < 2 ^ 32) :
    (readChunked (fun i => (frames.flatMap writeFrame)[i]?) total 0 (frames.length + 1)).map
      (Except.map Prod.fst) = some (Dmcn.readChunked total frames) := by
  have hat : HasAt (fun i => (frames.flatMap writeFrame)[i]?) 0 (frames.flatMap writeFrame) := by
    intro i hi
    rw [Nat.zero_add]
    exact List.getElem?_eq_getElem hi
  have hend : (frames.flatMap writeFrame)[0 + (frames.flatMap writeFrame).length]? = none := by
    rw [Nat.zero_add]
    exact List.getElem?_eq_none le_rfl
  unfold readChunked Dmcn.readChunked
  split
  · rfl
  · exact hat.readLoop_eq hend hlen []

end Frames

section Progress

variable {s : ByteStream} {total pos fuel : ℕ} {buf : Bytes}

theorem readLoop_isSome (h : total - buf.length + s.emptyFrames fuel pos ≤ fuel) :
    (s.readLoop total fuel pos buf).isSome := by
  induction fuel generalizing pos buf with
  | zero =>
    unfold readLoop
    rw [if_pos (by omega)]
    rfl
  | succ fuel ih =>
    unfold readLoop
    split
    · rfl
    · next hmore =>
      dsimp only
      unfold emptyFrames at h
      cases hframe : s.readFrame pos with
      | error e => rfl
      | ok read =>
        obtain ⟨frame, pos'⟩ := read
        rw [hframe] at h
        dsimp only at h ⊢
        split
        · rfl
        · apply ih
          rw [List.length_append]
          split at h
          · next hempty =>
            rw [hempty, List.length_nil]
            omega
          · next hfull =>
            have hpos := List.length_pos_of_ne_nil hfull
            omega

theorem readFrame_zeros (pos : ℕ) : readFrame (fun _ => some 0) pos = .ok ([], pos + 4) := by
  have hlen : readFull (fun _ => some 0) pos 4 = some [0, 0, 0, 0] := rfl
  have hn : readBigEndian32 [0, 0, 0, 0] = 0 := by decide
  unfold readFrame
  rw [hlen, need, ok_bind]
  dsimp only
  rw [hn, refuse, if_neg (Nat.not_lt_zero _)]
  rfl

theorem readLoop_zeros (h : buf.length < total) :
    readLoop (fun _ => some 0) total fuel pos buf = none := by
  induction fuel generalizing pos with
  | zero =>
    unfold readLoop
    rw [if_neg (Nat.not_le.mpr h)]
  | succ fuel ih =>
    unfold readLoop
    rw [if_neg (Nat.not_le.mpr h)]
    dsimp only
    rw [readFrame_zeros]
    dsimp only
    rw [List.length_nil, Nat.add_zero, if_neg (Nat.not_lt.mpr (Nat.le_of_lt h)), List.append_nil]
    exact ih

end Progress

/-- Whatever follows a body on its stream, the body is read and nothing of what follows. And the
frames that are read are bounded by the declared total alone exactly if nothing is to be read, or
too much is declared; otherwise by the total and the number of empty frames that the peer sends. -/
theorem chunked_spec (total : UInt64) :
    (∀ (body : Bytes) (s : ByteStream) (pos : ℕ), body.length ≤ maxBodySize →
      UInt64.ofNat body.length = total → s.HasAt pos (chunkedBytes body) →
        s.readChunked total pos (writeChunked body).length =
        some (.ok (body, pos + (chunkedBytes body).length))) ∧
      ((∃ bound, ∀ (s : ByteStream) (pos : ℕ), s.ReturnsWithin total pos bound) ↔
        total = 0 ∨ total.toNat > maxBodySize) ∧
      ∀ (s : ByteStream) (pos extra : ℕ), (∀ k, s.emptyFrames k pos ≤ extra) →
        s.ReturnsWithin total pos (total.toNat + extra) := by
  refine ⟨fun body s pos hbody htotal hat => ?_, ?_, fun s pos extra hextra => ?_⟩
  · rw [← htotal]
    exact readChunked_chunkedBytes hbody hat
  · constructor
    · rintro ⟨bound, hbound⟩
      by_contra hnone
      rw [not_or] at hnone
      have hpos : 0 < total.toNat := by
        apply Nat.pos_of_ne_zero
        intro hzero
        exact hnone.1 (UInt64.toNat_inj.mp hzero)
      have hreturns := hbound (fun _ => some 0) 0
      unfold ReturnsWithin ByteStream.readChunked at hreturns
      rw [if_neg hnone.2, readLoop_zeros (by simpa using hpos)] at hreturns
      exact Bool.noConfusion hreturns
    · intro hcase
      refine ⟨0, fun s pos => ?_⟩
      unfold ReturnsWithin ByteStream.readChunked
      rcases hcase with rfl | hlarge
      · rw [if_neg (by decide), ByteStream.readLoop, if_pos (by decide)]
        rfl
      · rw [if_pos hlarge]
        rfl
  · unfold ReturnsWithin ByteStream.readChunked
    split
    · rfl
    · apply readLoop_isSome
      have hempty := hextra (total.toNat + extra)
      rw [List.length_nil]
      omega

/-- A peer that declares one byte and sends zeros keeps the loop going. -/
theorem zeros_keep_looping : ¬ ∃ bound : UInt64 → ℕ, ∀ (total : UInt64) (s : ByteStream) (pos : ℕ),
    s.ReturnsWithin total pos (bound total) := by
  rintro ⟨bound, hbound⟩
  have hreturns := hbound 1 (fun _ => some 0) 0
  unfold ReturnsWithin ByteStream.readChunked at hreturns
  rw [if_neg (by decide), readLoop_zeros (by decide)] at hreturns
  exact Bool.noConfusion hreturns

end ByteStream

end Dmcn
