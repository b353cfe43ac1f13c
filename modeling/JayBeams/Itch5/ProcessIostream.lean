import JayBeams.Itch5.MoldUdpPacket
import JayBeams.Itch5.ProcessBuffer

/-!
# Processing of a stream

`processIostreamMlist` reads the records of a stream, the length of a message in two bytes and then the
message, and dispatches each of them. `records` is the format of a stream on its own: the complete
records, and the bytes after them, which are too few for one more.

The loop tests the stream after it reads a length and not after it reads a message. A message that the
end of the stream cuts short is still dispatched, with whatever its buffer held before, and the numbers
of unknown messages are 32-bit integers; `invocations_iff` says that nothing else goes wrong.
-/

set_option autoImplicit false

namespace JayBeams.Itch5

open Bytes MoldUdpPacket

/-! ## The format -/

/-- The complete records at the start of a stream, and the bytes after them. -/
def records : List UInt8 → List (List UInt8) × List UInt8
  | hi :: lo :: rest =>
      if blockSize hi lo ≤ rest.length then
        let after := records (rest.drop (blockSize hi lo))
        (rest.take (blockSize hi lo) :: after.1, after.2)
      else ([], hi :: lo :: rest)
  | bytes => ([], bytes)
  termination_by bytes => bytes.length
  decreasing_by
    simp only [List.length_drop, List.length_cons]
    omega

/-- The end of a stream cuts a record short in its payload. -/
def CutPayload (bytes : List UInt8) : Prop := 2 ≤ (records bytes).2.length

instance (bytes : List UInt8) : Decidable (CutPayload bytes) :=
  inferInstanceAs (Decidable (2 ≤ _))

section Records

variable {hi lo : UInt8} {rest bytes : List UInt8}

theorem records_short (h : bytes.length < 2) : records bytes = ([], bytes) := by
  rcases bytes with _ | ⟨hi, _ | ⟨lo, rest⟩⟩
  · rw [records]
    nofun
  · rw [records]
    nofun
  · rw [List.length_cons, List.length_cons] at h
    omega

theorem records_cut (h : rest.length < blockSize hi lo) :
    records (hi :: lo :: rest) = ([], hi :: lo :: rest) := by
  rw [records, if_neg (Nat.not_le.2 h)]

theorem records_complete (h : blockSize hi lo ≤ rest.length) :
    records (hi :: lo :: rest) =
      (rest.take (blockSize hi lo) :: (records (rest.drop (blockSize hi lo))).1,
        (records (rest.drop (blockSize hi lo))).2) := by
  rw [records, if_pos h]

theorem blockSize_lt (hi lo : UInt8) : blockSize hi lo < 65536 :=
  (hi.toUInt16 <<< 8 ||| lo.toUInt16).toNat_lt

theorem blockSize_eq (hi lo : UInt8) : blockSize hi lo = hi.toNat * 256 + lo.toNat := by
  have hhi := hi.toNat_lt
  have hlo := lo.toNat_lt
  have hmod : hi.toNat <<< 8 % 2 ^ 16 = hi.toNat <<< 8 := by
    rw [Nat.shiftLeft_eq]
    omega
  simp only [blockSize, UInt16.toNat_or, UInt16.toNat_shiftLeft, UInt8.toNat_toUInt16,
    UInt16.reduceToNat, Nat.reduceMod, hmod]
  rw [← Nat.shiftLeft_add_eq_or_of_lt hlo, Nat.shiftLeft_eq]

theorem bytes16_blockSize (hi lo : UInt8) :
    bytes16 (UInt16.ofNat (blockSize hi lo)) = [hi, lo] := by
  have hhi := hi.toNat_lt
  have hlo := lo.toNat_lt
  rw [bytes16, List.cons.injEq, List.cons.injEq]
  refine ⟨UInt8.toNat_inj.1 ?_, UInt8.toNat_inj.1 ?_, rfl⟩
  · simp only [UInt16.toNat_toUInt8, UInt16.toNat_shiftRight, UInt16.toNat_ofNat', blockSize_eq,
      UInt16.reduceToNat, Nat.reduceMod, Nat.shiftRight_eq_div_pow]
    omega
  · have hand : ∀ n : Nat, n &&& 255 = n % 2 ^ 8 := fun n => Nat.and_two_pow_sub_one_eq_mod n 8
    simp only [UInt16.toNat_toUInt8, UInt16.toNat_and, UInt16.toNat_ofNat', blockSize_eq,
      UInt16.reduceToNat, hand]
    omega

/-- The records of a stream, one after the other, and the bytes after them are the stream. -/
theorem encodeBlocks_records (bytes : List UInt8) :
    encodeBlocks (records bytes).1 ++ (records bytes).2 = bytes := by
  fun_induction records bytes with
  | case1 hi lo rest hle after ih =>
      have hlength : (rest.take (blockSize hi lo)).length = blockSize hi lo := by
        rw [List.length_take, Nat.min_eq_left hle]
      rw [encodeBlocks, List.flatMap_cons, encodeBlock, hlength, bytes16_blockSize]
      rw [encodeBlocks] at ih
      simp only [List.cons_append, List.nil_append, List.append_assoc, after, ih,
        List.take_append_drop]
  | case2 hi lo rest hlt => rfl
  | case3 bytes hshort => rfl

/-- The bytes after the records are not another one. -/
theorem records_tail_incomplete {hi lo : UInt8} {rest : List UInt8}
    (h : (records bytes).2 = hi :: lo :: rest) : rest.length < blockSize hi lo := by
  fun_induction records bytes with
  | case1 hi lo rest hle after ih => exact ih h
  | case2 hi lo rest hlt =>
      cases h
      exact Nat.not_le.1 hlt
  | case3 bytes hshort => exact absurd h (hshort hi lo rest)

/-- A stream of complete records reads back as these records. -/
theorem records_encodeBlocks {messages : List (List UInt8)}
    (h : ∀ message ∈ messages, message.length < 65536) :
    records (encodeBlocks messages) = (messages, []) := by
  induction messages with
  | nil => exact records_short Nat.two_pos
  | cons message messages ih =>
      have hsize := blockSize_bytes16 (h message List.mem_cons_self)
      have ih := ih fun m hm => h m (List.mem_cons_of_mem message hm)
      rw [encodeBlocks] at ih
      simp only [encodeBlocks, List.flatMap_cons, encodeBlock, bytes16, List.cons_append,
        List.nil_append]
      rw [records_complete (by rw [hsize]; simp), hsize, List.drop_left, List.take_left, ih]

end Records

/-! ## Streams and handlers -/

/-- `std::istream`: the bytes not read yet, and its state bits. -/
structure IStream where
  data : List UInt8
  eof : Bool
  fail : Bool

namespace IStream

/-- A stream at its start. -/
def ofBytes (bytes : List UInt8) : IStream := ⟨bytes, false, false⟩

/-- `good` -/
def good (is : IStream) : Bool := !is.eof && !is.fail

/-- `read`: the bytes that it stores, and the stream after it. -/
def read (is : IStream) (n : Nat) : List UInt8 × IStream :=
  if is.good then
    if n ≤ is.data.length then (is.data.take n, { is with data := is.data.drop n })
    else (is.data, ⟨[], true, true⟩)
  else ([], { is with fail := true })

@[simp] theorem good_ofBytes (bytes : List UInt8) : (ofBytes bytes).good = true := rfl

@[simp] theorem fail_ofBytes (bytes : List UInt8) : (ofBytes bytes).fail = false := rfl

theorem read_ofBytes {bytes : List UInt8} {n : Nat} (h : n ≤ bytes.length) :
    (ofBytes bytes).read n = (bytes.take n, ofBytes (bytes.drop n)) := by
  rw [read]
  exact (if_pos rfl).trans (if_pos h)

theorem read_ofBytes_cut {bytes : List UInt8} {n : Nat} (h : bytes.length < n) :
    (ofBytes bytes).read n = (bytes, ⟨[], true, true⟩) := by
  rw [read]
  exact (if_pos rfl).trans (if_neg (Nat.not_le.2 h))

theorem length_read_le (is : IStream) (n : Nat) : (is.read n).2.data.length ≤ is.data.length := by
  rw [read]
  split
  · split
    · exact List.length_drop ▸ Nat.sub_le is.data.length n
    · exact Nat.zero_le _
  · exact Nat.le_refl _

/-- A read that succeeds takes bytes from the stream. -/
theorem length_read_lt {is : IStream} {n : Nat} (hn : 0 < n) (h : (is.read n).2.fail = false) :
    (is.read n).2.data.length < is.data.length := by
  rw [read] at h ⊢
  split at h
  · next hgood =>
      rw [if_pos hgood]
      split at h
      · next hle =>
          rw [if_pos hle, List.length_drop]
          omega
      · cases h
  · cases h

end IStream

/-- A message handler: its clock, and what it does when it is called. -/
structure MessageHandler (σ τ : Type) where
  now : EStateM Failure σ τ
  handle : Wire.Call τ → EStateM Failure σ Unit

/-- Parse the message in a buffer and call the handler. -/
def MessageHandler.deliver {σ τ : Type} (handler : MessageHandler σ τ)
    (types : List Wire.MessageType) (msgcnt msgoffset : UInt64) (msgbuf : Memory) (msglen : Nat) :
    EStateM Failure σ Unit := do
  let recvTs ← handler.now
  let call ← liftExcept (Wire.process recvTs msgcnt msgoffset.toNat msgbuf msglen types)
  handler.handle call

/-- `process_iostream_mlist<message_handler, message_types...>`, from a message count and an offset on.
The buffer of a message is not initialized: `leftover` is what it holds before the message is read
from the rest of the stream. -/
def processIostreamMlist {σ τ : Type} (types : List Wire.MessageType) (handler : MessageHandler σ τ)
    (leftover : IStream → Memory) (msgcnt msgoffset : UInt64) (is : IStream) :
    EStateM Failure σ Unit :=
  if is.good then do
    let _ ← handler.now
    -- an error other than the end of the stream is logged
    if hread : (is.read 2).2.fail then return ()
    else
      let msglen ← liftExcept (Decoder.uint16 true 2 (Memory.ofList (is.read 2).1) 0)
      let msgbuf := (leftover (is.read 2).2).write 0 ((is.read 2).2.read msglen.toNat).1
      -- the state of the stream is not tested after the message was read
      handler.deliver types msgcnt (msgoffset + 2) msgbuf msglen.toNat
      processIostreamMlist types handler leftover (msgcnt + 1) (msgoffset + 2 + msglen.toUInt64)
        ((is.read 2).2.read msglen.toNat).2
  else return ()
  termination_by is.data.length
  decreasing_by
    have hlt := IStream.length_read_lt Nat.two_pos (Bool.eq_false_iff.2 hread)
    exact Nat.lt_of_le_of_lt (IStream.length_read_le _ _) hlt

section Loop

variable {σ τ : Type} {types : List Wire.MessageType} {handler : MessageHandler σ τ}
variable {leftover : IStream → Memory} {msgcnt msgoffset : UInt64}
variable {hi lo : UInt8} {rest bytes : List UInt8}

theorem processIostreamMlist_end (is : IStream) (h : is.good = false) :
    processIostreamMlist types handler leftover msgcnt msgoffset is = return () := by
  rw [processIostreamMlist, if_neg (Bool.eq_false_iff.1 h)]

/-- Too few bytes for a length end the loop. -/
theorem processIostreamMlist_short (h : bytes.length < 2) :
    processIostreamMlist types handler leftover msgcnt msgoffset (.ofBytes bytes) =
      (do let _ ← handler.now; return ()) := by
  rw [processIostreamMlist, if_pos (IStream.good_ofBytes bytes), IStream.read_ofBytes_cut h]
  rfl

/-- After the length of a message the message is read and delivered. -/
theorem processIostreamMlist_length (hi lo : UInt8) (rest : List UInt8) :
    processIostreamMlist types handler leftover msgcnt msgoffset (.ofBytes (hi :: lo :: rest)) =
      (do
        let _ ← handler.now
        handler.deliver types msgcnt (msgoffset + 2)
          ((leftover (.ofBytes rest)).write 0 ((IStream.ofBytes rest).read (blockSize hi lo)).1)
          (blockSize hi lo)
        processIostreamMlist types handler leftover (msgcnt + 1)
          (msgoffset + 2 + UInt64.ofNat (blockSize hi lo))
          ((IStream.ofBytes rest).read (blockSize hi lo)).2) := by
  have hread : (IStream.ofBytes (hi :: lo :: rest)).read 2 = ([hi, lo], .ofBytes rest) :=
    IStream.read_ofBytes (by simp)
  have hlength : Decoder.uint16 true 2 (Memory.ofList [hi, lo]) 0 =
      .ok (hi.toUInt16 <<< 8 ||| lo.toUInt16) :=
    Decoder.uint16_ok true _ (Nat.le_refl 2)
  rw [processIostreamMlist, if_pos (IStream.good_ofBytes _), hread]
  simp only [hlength, IStream.fail_ofBytes, Bool.false_eq_true, dite_false, liftExcept, pure_bind,
    blockSize, UInt64.ofNat_uInt16ToNat]

/-- A complete record is delivered. -/
theorem processIostreamMlist_record (h : blockSize hi lo ≤ rest.length) :
    processIostreamMlist types handler leftover msgcnt msgoffset (.ofBytes (hi :: lo :: rest)) =
      (do
        let _ ← handler.now
        handler.deliver types msgcnt (msgoffset + 2)
          ((leftover (.ofBytes rest)).write 0 (rest.take (blockSize hi lo))) (blockSize hi lo)
        processIostreamMlist types handler leftover (msgcnt + 1)
          (msgoffset + 2 + UInt64.ofNat (blockSize hi lo))
          (.ofBytes (rest.drop (blockSize hi lo)))) := by
  rw [processIostreamMlist_length, IStream.read_ofBytes h]

/-- The first of some messages is delivered. -/
theorem processIostreamMlist_message {message : List UInt8} {messages : List (List UInt8)}
    (h : message.length < 65536) :
    processIostreamMlist types handler leftover msgcnt msgoffset
        (.ofBytes (encodeBlocks (message :: messages))) =
      (do
        let _ ← handler.now
        handler.deliver types msgcnt (msgoffset + 2)
          ((leftover (.ofBytes (message ++ encodeBlocks messages))).write 0 message) message.length
        processIostreamMlist types handler leftover (msgcnt + 1)
          (msgoffset + 2 + UInt64.ofNat message.length) (.ofBytes (encodeBlocks messages))) := by
  have hsize := blockSize_bytes16 h
  have hle : blockSize (UInt16.ofNat message.length >>> 8).toUInt8
      (UInt16.ofNat message.length &&& 0xff).toUInt8 ≤ (message ++ encodeBlocks messages).length := by
    rw [hsize, List.length_append]
    exact Nat.le_add_right _ _
  have hcons : encodeBlocks (message :: messages) =
      (UInt16.ofNat message.length >>> 8).toUInt8 ::
        (UInt16.ofNat message.length &&& 0xff).toUInt8 :: (message ++ encodeBlocks messages) := rfl
  rw [hcons, processIostreamMlist_record hle, hsize, List.take_left, List.drop_left]

/-- A record that the end of the stream cuts short is delivered too, and ends the loop. -/
theorem processIostreamMlist_cut (h : rest.length < blockSize hi lo) :
    processIostreamMlist types handler leftover msgcnt msgoffset (.ofBytes (hi :: lo :: rest)) =
      (do
        let _ ← handler.now
        handler.deliver types msgcnt (msgoffset + 2) ((leftover (.ofBytes rest)).write 0 rest)
          (blockSize hi lo)) := by
  rw [processIostreamMlist_length, IStream.read_ofBytes_cut h]
  simp only [processIostreamMlist_end ⟨[], true, true⟩ rfl, bind_pure_unit]

end Loop

/-! ## Invocations of a handler that does not raise -/

/-- What `handle_unknown` is invoked with. -/
structure Invocation where
  msgcnt : Nat
  msgoffset : Nat
  bytes : List UInt8
  deriving DecidableEq

/-- A message handler that does not raise. -/
structure QuietHandler (σ τ : Type) where
  now : σ → τ × σ
  handle : Wire.Call τ → σ → σ

/-- A handler that keeps what `handle_unknown` is invoked with. -/
def QuietHandler.recording {σ τ : Type} (handler : QuietHandler σ τ) :
    MessageHandler (σ × List Invocation) τ where
  now := modifyGet fun s => ((handler.now s.1).1, ((handler.now s.1).2, s.2))
  handle := fun call => modify fun s =>
    match call with
    | .handleUnknown _ msg =>
        (handler.handle call s.1, s.2 ++ [⟨msg.count.toNat, msg.offset, msg.bytes⟩])
    | .handleMessage _ _ _ _ => (handler.handle call s.1, s.2)

/-- The invocations for complete records: the records from the `i`-th one on, at a position in the
stream. -/
def invocations : Nat → Nat → List (List UInt8) → List Invocation
  | _, _, [] => []
  | i, position, record :: rest =>
      ⟨i, position + 2, record⟩ :: invocations (i + 1) (position + 2 + record.length) rest

/-- The invocations as the counters of the loop number them. -/
def countedInvocations : UInt64 → UInt64 → List (List UInt8) → List Invocation
  | _, _, [] => []
  | msgcnt, msgoffset, record :: rest =>
      ⟨msgcnt.toUInt32.toNat, (msgoffset + 2).toNat, record⟩ ::
        countedInvocations (msgcnt + 1) (msgoffset + 2 + UInt64.ofNat record.length) rest

section Invocations

variable {σ τ : Type} {handler : QuietHandler σ τ} {leftover : IStream → Memory}

theorem now_run (s : σ) (log : List Invocation) :
    handler.recording.now.run (s, log) = .ok (handler.now s).1 ((handler.now s).2, log) := rfl

theorem deliver_run (handler : QuietHandler σ τ) (msgcnt msgoffset : UInt64) (msgbuf : Memory)
    (msglen : Nat) (s : σ) (log : List Invocation) :
    ∃ s', (handler.recording.deliver [] msgcnt msgoffset msgbuf msglen).run (s, log) =
      .ok () (s', log ++ [⟨msgcnt.toUInt32.toNat, msgoffset.toNat, msgbuf.read 0 msglen⟩]) :=
  ⟨_, rfl⟩

/-- The loop invokes the handler for each record, and once more for a payload that is cut short. -/
theorem processIostreamMlist_run (handler : QuietHandler σ τ) (leftover : IStream → Memory)
    (msgcnt msgoffset : UInt64) (bytes : List UInt8) (s : σ) (log : List Invocation) :
    ∃ s' cut, (processIostreamMlist [] handler.recording leftover msgcnt msgoffset
        (.ofBytes bytes)).run (s, log) =
        .ok () (s', log ++ (countedInvocations msgcnt msgoffset (records bytes).1 ++ cut)) ∧
      (cut = [] ↔ ¬ CutPayload bytes) := by
  fun_induction records bytes generalizing msgcnt msgoffset s log with
  | case1 hi lo rest hle after ih =>
      -- A whole record: the buffer holds its payload and nothing of what it held before is seen.
      have hlength : (rest.take (blockSize hi lo)).length = blockSize hi lo := by
        rw [List.length_take, Nat.min_eq_left hle]
      have hread := Memory.read_write_self (leftover (.ofBytes rest)) 0
        (rest.take (blockSize hi lo))
      rw [hlength] at hread
      obtain ⟨s₁, hdeliver⟩ := deliver_run handler msgcnt (msgoffset + 2)
        ((leftover (.ofBytes rest)).write 0 (rest.take (blockSize hi lo))) (blockSize hi lo)
        (handler.now s).2 log
      obtain ⟨s', cut, hrun, hcut⟩ := ih (msgcnt + 1)
        (msgoffset + 2 + UInt64.ofNat (blockSize hi lo)) s₁ _
      refine ⟨s', cut, ?_, ?_⟩
      · rw [processIostreamMlist_record hle]
        simp only [EStateM.run_bind, now_run, hdeliver]
        rw [hrun, countedInvocations, hlength, hread]
        simp only [List.append_assoc, List.cons_append, List.nil_append, after]
      · rw [hcut, CutPayload, CutPayload, records_complete hle]
  | case2 hi lo rest hlt =>
      -- The last record is cut short, and the rest of the buffer is what it held before.
      have hcut := Nat.not_le.1 hlt
      obtain ⟨s', hdeliver⟩ := deliver_run handler msgcnt (msgoffset + 2)
        ((leftover (.ofBytes rest)).write 0 rest) (blockSize hi lo) (handler.now s).2 log
      refine ⟨s', [⟨msgcnt.toUInt32.toNat, (msgoffset + 2).toNat,
        ((leftover (.ofBytes rest)).write 0 rest).read 0 (blockSize hi lo)⟩], ?_, ?_⟩
      · rw [processIostreamMlist_cut hcut]
        simp only [EStateM.run_bind, now_run, hdeliver, countedInvocations, List.nil_append]
      · simp [CutPayload, records_cut hcut]
  | case3 bytes hshort =>
      -- Not even a length is left.
      have hlt : bytes.length < 2 := by
        rcases bytes with _ | ⟨hi, _ | ⟨lo, rest⟩⟩
        · exact Nat.two_pos
        · exact Nat.one_lt_two
        · exact absurd rfl (hshort hi lo rest)
      refine ⟨(handler.now s).2, [], ?_, ?_⟩
      · rw [processIostreamMlist_short hlt]
        simp only [EStateM.run_bind, now_run, countedInvocations, List.append_nil]
        rfl
      · rw [CutPayload, records_short hlt]
        exact iff_of_true rfl (Nat.not_le.2 hlt)

/-! ## Counters -/

theorem length_countedInvocations (msgcnt msgoffset : UInt64) (rs : List (List UInt8)) :
    (countedInvocations msgcnt msgoffset rs).length = rs.length := by
  induction rs generalizing msgcnt msgoffset with
  | nil => rfl
  | cons r rs ih => rw [countedInvocations, List.length_cons, ih, List.length_cons]

theorem length_invocations (i position : Nat) (rs : List (List UInt8)) :
    (invocations i position rs).length = rs.length := by
  induction rs generalizing i position with
  | nil => rfl
  | cons r rs ih => rw [invocations, List.length_cons, ih, List.length_cons]

/-- Messages that are numbered in 32 bits are numbered as they come, and the offset of such a message
fits in 64 bits. -/
theorem countedInvocations_eq {i position : Nat} {rs : List (List UInt8)}
    (hcount : i + rs.length ≤ 4294967296) (hposition : position ≤ 65537 * i)
    (hsize : ∀ r ∈ rs, r.length < 65536) :
    countedInvocations (UInt64.ofNat i) (UInt64.ofNat position) rs = invocations i position rs := by
  induction rs generalizing i position with
  | nil => rfl
  | cons r rs ih =>
      rw [List.forall_mem_cons] at hsize
      rw [List.length_cons] at hcount
      have hnumber : (UInt64.ofNat i).toUInt32.toNat = i := by
        simp only [UInt64.toNat_toUInt32, UInt64.toNat_ofNat']
        omega
      have hoffset : (UInt64.ofNat position + 2).toNat = position + 2 := by
        simp only [UInt64.toNat_add, UInt64.toNat_ofNat', UInt64.reduceToNat]
        omega
      have hnext : countedInvocations (UInt64.ofNat (i + 1))
          (UInt64.ofNat (position + 2 + r.length)) rs =
          invocations (i + 1) (position + 2 + r.length) rs :=
        ih (by omega) (by omega) hsize.2
      rw [UInt64.ofNat_add, UInt64.ofNat_add, UInt64.ofNat_add] at hnext
      rw [countedInvocations, invocations, hnumber, hoffset, ← hnext]
      rfl

/-- The number of a message is that of its record modulo the range of a 32-bit integer. -/
theorem msgcnt_countedInvocations (msgcnt msgoffset : UInt64) (rs : List (List UInt8)) {j : Nat}
    (h : j < (countedInvocations msgcnt msgoffset rs).length) :
    (countedInvocations msgcnt msgoffset rs)[j].msgcnt = (msgcnt.toNat + j) % 4294967296 := by
  induction rs generalizing msgcnt msgoffset j with
  | nil => exact absurd h (Nat.not_lt_zero j)
  | cons r rs ih =>
      simp only [countedInvocations]
      cases j with
      | zero =>
          rw [List.getElem_cons_zero, UInt64.toNat_toUInt32]
          rfl
      | succ j =>
          rw [List.getElem_cons_succ, ih, UInt64.toNat_add]
          have hone : (1 : UInt64).toNat = 1 := rfl
          rw [hone]
          omega

theorem msgcnt_invocations (i position : Nat) (rs : List (List UInt8)) {j : Nat}
    (h : j < (invocations i position rs).length) : (invocations i position rs)[j].msgcnt = i + j := by
  induction rs generalizing i position j with
  | nil => exact absurd h (Nat.not_lt_zero j)
  | cons r rs ih =>
      simp only [invocations]
      cases j with
      | zero => rfl
      | succ j =>
          rw [List.getElem_cons_succ, ih]
          omega

/-- The counters of the loop number the records as they come exactly when there are no more records
than 32-bit integers. -/
theorem countedInvocations_eq_iff {rs : List (List UInt8)} (hsize : ∀ r ∈ rs, r.length < 65536) :
    countedInvocations 0 0 rs = invocations 0 0 rs ↔ rs.length ≤ 4294967296 := by
  constructor
  · intro heq
    by_contra hmany
    have hj : 4294967296 < (countedInvocations 0 0 rs).length := by
      rw [length_countedInvocations]
      exact Nat.not_le.1 hmany
    have hj' : 4294967296 < (invocations 0 0 rs).length := heq ▸ hj
    have hcounted := msgcnt_countedInvocations 0 0 rs hj
    have hplain := msgcnt_invocations 0 0 rs hj'
    simp only [heq, hplain] at hcounted
    exact absurd hcounted (by decide)
  · intro hcount
    exact countedInvocations_eq (by rwa [Nat.zero_add]) (Nat.le_refl 0) hsize

theorem length_lt_of_mem_records {r : List UInt8} {bytes : List UInt8}
    (h : r ∈ (records bytes).1) : r.length < 65536 := by
  fun_induction records bytes with
  | case1 hi lo rest hle after ih =>
      rcases List.mem_cons.1 h with rfl | h
      · rw [List.length_take, Nat.min_eq_left hle]
        exact blockSize_lt hi lo
      · exact ih h
  | case2 hi lo rest hlt => cases h
  | case3 bytes hshort => cases h

/-- The handler is invoked for the complete records of a stream, once for each of them, in order, with
its bytes, its number and its position, exactly when the end of the stream cuts no payload short and
there are no more records than 32-bit integers. -/
theorem invocations_iff (handler : QuietHandler σ τ) (leftover : IStream → Memory)
    (bytes : List UInt8) (s : σ) :
    (∃ s', (processIostreamMlist [] handler.recording leftover 0 0 (.ofBytes bytes)).run (s, []) =
        .ok () (s', invocations 0 0 (records bytes).1)) ↔
      ¬ CutPayload bytes ∧ (records bytes).1.length ≤ 4294967296 := by
  obtain ⟨s', cut, hrun, hcut⟩ := processIostreamMlist_run handler leftover 0 0 bytes s []
  rw [hrun, List.nil_append, ← hcut,
    ← countedInvocations_eq_iff fun r hr => length_lt_of_mem_records hr]
  constructor
  · rintro ⟨s₁, h⟩
    have hlog : countedInvocations 0 0 (records bytes).1 ++ cut =
        invocations 0 0 (records bytes).1 :=
      (Prod.mk.inj (EStateM.Result.ok.inj h).2).2
    have hnone : cut = [] := by
      have hlength := congrArg List.length hlog
      rw [List.length_append, length_countedInvocations, length_invocations] at hlength
      exact List.length_eq_zero_iff.1 (Nat.left_eq_add.1 hlength.symm)
    rw [hnone, List.append_nil] at hlog
    exact ⟨hnone, hlog⟩
  · rintro ⟨rfl, heq⟩
    exact ⟨s', by rw [List.append_nil, heq]⟩

/-- A stream that announces three bytes and holds one. -/
def cutStream : List UInt8 := [0, 3, 65]

/-- The handler is invoked for the cut record, with bytes that are not in the stream. -/
theorem cutStream_invokes :
    (records cutStream).1 = [] ∧
      (processIostreamMlist [] (QuietHandler.recording ⟨fun s => ((), s), fun _ s => s⟩)
        (fun _ _ => 0) 0 0 (.ofBytes cutStream)).run ((), []) =
        .ok () ((), [⟨0, 2, [65, 0, 0]⟩]) := by
  have hcut : [65].length < blockSize 0 3 := by decide
  constructor
  · rw [cutStream, records_cut hcut]
  · rw [cutStream, processIostreamMlist_cut hcut]
    rfl

end Invocations

end JayBeams.Itch5
