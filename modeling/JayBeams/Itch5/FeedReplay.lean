import JayBeams.Itch5.BookFeed
import JayBeams.Itch5.MoldRoundTrip

/-!
# Books from a replayed feed

`itch5moldreplay` reads a file, and its pacer sends the messages as MoldUDP64 packets. `mold2inside`
receives the packets, and its channel hands each message to the books. In between the messages lose
their place in the file, their numbers change, and they are read from a buffer of packets.

The books do not notice: packets received in order leave them as the messages in these packets do
when they are read from a file (`replayed_books`). The replay never flushes its pacer, so what it
sends is the file without the messages of its last packet, and there is always at least one of these.
-/

set_option autoImplicit false

namespace JayBeams.Itch5

open Bytes Containers Machines Machines.Machine MoldUdpProtocol MoldUdpPacket

/-! ## The replay -/

namespace Replayer

/-- The session id of the packets -/
def sessionId : ShortStringField sessionIdSize :=
  .ofString ("ITCH/RPLY".toList.map fun c => UInt8.ofNat c.toNat)

/-- `replayer`, whose socket is the sink of its pacer. The pacer does not use the time at which a
message was received, and the messages are all unknown to an empty list of types. -/
def handler : MessageHandler MoldUdpPacer Unit where
  now := return ()
  handle := fun call =>
    match call with
    | .handleUnknown _ msg => MoldUdpPacer.handleMessage msg
    | .handleMessage _ _ _ _ => return ()

/-- `main`, on the contents of the input file -/
def replay (cfg : MoldUdpPacerConfig) (leftover : IStream → Memory) (input : List UInt8) :
    EStateM.Result Failure MoldUdpPacer Unit :=
  (processIostreamMlist [] handler leftover 0 0 (.ofBytes input)).run (.make cfg sessionId)

/-- The packets that were sent. -/
def packets (cfg : MoldUdpPacerConfig) (leftover : IStream → Memory) (input : List UInt8) :
    List (List UInt8) :=
  (finalState (replay cfg leftover input)).sent

section Batches

open MoldUdpPacer

variable {session : List UInt8} {mtu : Int} {p : MoldUdpPacer} {batches : List (List (List UInt8))}
  {waiting : List (List UInt8)}

/-- The messages of a file are sent in batches or wait, and the last one waits. -/
theorem replay_batched (h : Batched session mtu p batches waiting) (leftover : IStream → Memory)
    {messages : List (List UInt8)} {k : Nat} (hk : k = (batches.flatten ++ waiting).length)
    (hfew : k + messages.length ≤ 4294967296)
    (hsize : ∀ message ∈ messages,
      11 ≤ message.length ∧ (message.length : Int) + 2 < mtu - headerSize) (msgoffset : UInt64) :
    ∃ p' batches' waiting',
      (processIostreamMlist [] handler leftover (UInt64.ofNat k) msgoffset
        (.ofBytes (encodeBlocks messages))).run p = .ok () p' ∧
      Batched session mtu p' batches' waiting' ∧
      batches'.flatten ++ waiting' = batches.flatten ++ waiting ++ messages ∧
      (waiting ++ messages ≠ [] → waiting' ≠ []) := by
  induction messages generalizing p batches waiting k msgoffset with
  | nil =>
      refine ⟨p, batches, waiting, ?_, h, (List.append_nil _).symm, fun hne => ?_⟩
      · rw [processIostreamMlist_short (show (encodeBlocks []).length < 2 from Nat.two_pos)]
        rfl
      · rwa [List.append_nil] at hne
  | cons message messages ih =>
      rw [List.forall_mem_cons] at hsize
      rw [List.length_cons] at hfew
      have hlt := h.mtu_lt
      have hheader : ((headerSize : Nat) : Int) = 20 := rfl
      have hlength : message.length < 65536 := by omega
      let msg : UnknownMessage := ⟨(UInt64.ofNat k).toUInt32, (msgoffset + 2).toNat, message.length,
        (leftover (.ofBytes (message ++ encodeBlocks messages))).write 0 message⟩
      have hbytes : msg.bytes = message := Memory.read_write_self _ 0 message
      have hcount : msg.count = UInt32.ofNat (batches.flatten ++ waiting).length := by
        rw [← hk, ← UInt32.toNat_inj]
        simp only [msg, UInt64.toNat_toUInt32, UInt64.toNat_ofNat', UInt32.toNat_ofNat']
        omega
      have hsend : Sendable mtu msg := hsize.1
      obtain ⟨q, sentBatches, waiting₁, hrun, hq, hsame⟩ := handleMessage_sends h hsend hcount
      rw [hbytes] at hq
      have hnext : k + 1 = (sentBatches.flatten ++ (waiting₁ ++ [message])).length := by
        rw [← List.append_assoc, hsame, List.length_append, hk]
        rfl
      obtain ⟨p', batches', waiting', hrest, hp', hflat, hwaits⟩ := ih hq
        hnext (by omega) hsize.2 (msgoffset + 2 + UInt64.ofNat message.length)
      refine ⟨p', batches', waiting', ?_, hp', ?_, fun _ => hwaits (by simp)⟩
      · have hdeliver : (handler.deliver [] (UInt64.ofNat k) (msgoffset + 2)
            ((leftover (.ofBytes (message ++ encodeBlocks messages))).write 0 message)
            message.length).run p = .ok () q := hrun
        have hnow : handler.now = (return () : EStateM Failure MoldUdpPacer Unit) := rfl
        rw [processIostreamMlist_message hlength]
        simp only [hnow, pure_bind, EStateM.run_bind, hdeliver]
        rw [← UInt64.ofNat_one, ← UInt64.ofNat_add]
        exact hrest
      · rw [hflat, ← List.append_assoc, hsame, List.append_assoc]
        rfl

/-- The packets sent for a file carry its messages up to those of the last packet, which waits. -/
theorem packets_eq {cfg : MoldUdpPacerConfig} (hcfg : cfg.validate = .ok ())
    {messages : List (List UInt8)} (hfew : messages.length ≤ 4294967296)
    (hsize : ∀ message ∈ messages, 11 ≤ message.length ∧
      (message.length : Int) + 2 < cfg.maximumTransmissionUnit - headerSize)
    (leftover : IStream → Memory) :
    ∃ session batches waiting, session.length = sessionIdSize ∧ (∀ batch ∈ batches, Fits batch) ∧
      packets cfg leftover (encodeBlocks messages) = packetsOf session 0 batches ∧
      messages = batches.flatten ++ waiting ∧ (waiting = [] ↔ messages = []) ∧
      ((headerSize + (encodeBlocks waiting).length : Nat) : Int) ≤ cfg.maximumTransmissionUnit := by
  obtain ⟨p, batches, waiting, hrun, hp, hflat, hwaits⟩ := replay_batched (batched_make hcfg sessionId)
    leftover (k := 0) rfl (by rwa [Nat.zero_add]) hsize 0
  rw [List.flatten_nil, List.nil_append, List.nil_append] at hflat
  refine ⟨_, batches, waiting, hp.length_session, hp.batchFits, ?_, hflat.symm,
    ⟨fun hnil => ?_, fun hnil => ?_⟩, ?_⟩
  · have hreplay : replay cfg leftover (encodeBlocks messages) = .ok () p := hrun
    rw [packets, hreplay]
    exact hp.sent
  · by_contra hne
    exact hwaits hne hnil
  · rw [hnil] at hflat
    exact (List.append_eq_nil_iff.1 hflat).2
  · have hsizeFits := hp.sizeFits
    rwa [hp.size] at hsizeFits

end Batches

end Replayer

/-! ## The receiving program -/

namespace MoldUdpChannel

/-- A message of a call lies in the buffer where the call says. -/
theorem message_of_mem_blockCalls {recvTs : Int} {number : UInt64} {size block offset : Nat}
    {m : Memory} {messageOffset : UInt64} {call : HandlerCall}
    (h : call ∈ blockCalls recvTs number size m block messageOffset offset) :
    call.message = m.read call.start call.message.length := by
  induction block generalizing messageOffset offset with
  | zero => cases h
  | succ block ih =>
      rw [blockCalls] at h
      split at h
      · rcases List.mem_cons.1 h with rfl | h
        · rw [Memory.length_read]
        · exact ih h
      · cases h

theorem message_of_mem_packetCalls {ch : MoldUdpChannel} {recvTs : Int} {packet : List UInt8}
    {call : HandlerCall} (h : call ∈ ch.packetCalls recvTs packet) :
    call.message = (ch.loaded packet).buffer.read call.start call.message.length := by
  rw [packetCalls] at h
  split at h
  · cases h
  · exact message_of_mem_blockCalls h

/-- A well-formed packet is received without an exception. -/
theorem receive_wellFormed (ch : MoldUdpChannel) (recvTs : Int) {packet : List UInt8}
    (h : WellFormed packet) :
    (receive ⟨recvTs, 0, packet⟩).run ch = .ok () (ch.after ⟨recvTs, 0, packet⟩) := by
  have hlen := ch.length_packetCalls recvTs h
  rw [packetCalls, if_neg (Nat.not_lt.2 h.1)] at hlen
  rw [after_eq, receive_run ch recvTs packet h.1,
    handleBlocks_ok recvTs packet.length (ch.loaded packet) _ headerSize hlen]
  rfl

end MoldUdpChannel

namespace Mold2Inside

variable {σ : Type}

/-- `process_buffer`, with the buffer that a call of the channel points into -/
def processBuffer (handler : MessageHandler σ Int) (buffer : Memory) (call : HandlerCall) :
    EStateM Failure σ Unit := do
  let c ← liftExcept (Wire.process call.recvTs call.sequenceNumber call.messageOffset.toNat
    (fun i => buffer (call.start + i)) call.message.length Wire.knownItch5Messages)
  handler.handle c

/-- A reception of the channel whose handler is `process_buffer`. An exception of the handler ends
the program, so it does not matter that the channel finishes its packet first. -/
def receive (handler : MessageHandler σ Int) (r : Reception) :
    EStateM Failure (MoldUdpChannel × σ) Unit := do
  let s ← get
  let result := (MoldUdpChannel.receive r).run s.1
  set (finalState result, s.2)
  onSnd ((s.1.delivered r).forM (processBuffer handler (finalState result).buffer))
  match result with
  | .ok _ _ => return ()
  | .error e _ => throw e

/-- `io_service.run`, as long as the channel registers for the next packet -/
def run (handler : MessageHandler σ Int) (rs : List Reception) :
    EStateM Failure (MoldUdpChannel × σ) Unit :=
  rs.forM (receive handler)

section Simulation

open ComputeBook

variable {β : Side → Type} [BookType β] {υ ω : Type} {Q : υ → ω → Prop}
  {callback : Callback Wire.StockT β → EStateM Failure υ Unit}
  {callback' : Callback Wire.StockT β → EStateM Failure ω Unit}

theorem processBuffer_simulates (hcallback : SameCallbacks Q callback callback')
    (now : EStateM Failure υ Int) {buffer : Memory} {call : HandlerCall}
    (hbuffer : call.message = buffer.read call.start call.message.length)
    (h : Wire.Decisive call.message) :
    Simulates Failure.exceptionClass (SameFeed Q) (fun _ _ => True)
      (processBuffer (messageHandler now callback) buffer call)
      (handleBuffer callback' 0 0 0 (Memory.ofList call.message) call.message.length) := by
  refine handleBuffer_simulates hcallback h now call.recvTs call.sequenceNumber _ fun i hi => ?_
  rw [Memory.ofList, List.getD_eq_getElem _ _ hi, List.getElem_of_eq hbuffer hi, Memory.getElem_read]

/-- The messages of a packet, in the order in which the channel hands them on. -/
theorem receive_simulates (hcallback : SameCallbacks Q callback callback')
    (now : EStateM Failure υ Int) {r : Reception} (hec : r.ec = 0)
    (hheader : headerSize ≤ r.bytes.length) {batch : List (List UInt8)}
    (hblocks : blocks? (blockCount r.bytes).toNat (r.bytes.drop headerSize) = some batch)
    (hdecisive : ∀ message ∈ batch, Wire.Decisive message) :
    Simulates Failure.exceptionClass (fun s t => SameFeed Q s.2 t) (fun _ _ => True)
      (receive (messageHandler now callback) r) (handleRecords callback' batch) := by
  constructor
  rintro ⟨ch, s⟩ t hst
  obtain ⟨recvTs, ec, packet⟩ := r
  simp only at hec hheader hblocks
  subst hec
  have hwf : WellFormed packet := ⟨hheader, by rw [hblocks]; rfl⟩
  have hmessages := ch.packetCalls_messages recvTs hheader hblocks
  have hbuffer : (ch.after ⟨recvTs, 0, packet⟩).buffer = (ch.loaded packet).buffer := by
    rw [MoldUdpChannel.after_wellFormed ch recvTs hwf]
    rfl
  -- the calls of the channel are those of the messages
  have hcalls : Simulates Failure.exceptionClass (SameFeed Q) (fun _ _ => True)
      ((ch.delivered ⟨recvTs, 0, packet⟩).forM
        (processBuffer (messageHandler now callback) (ch.after ⟨recvTs, 0, packet⟩).buffer))
      (handleRecords callback' batch) := by
    rw [MoldUdpChannel.delivered_eq, hbuffer, ← hmessages]
    rw [← hmessages] at hdecisive
    refine Simulates.forM (P := fun call message => message = call.message ∧
      Wire.Decisive call.message ∧
        call.message = (ch.loaded packet).buffer.read call.start call.message.length) ?_ ?_
    · rintro call _ ⟨rfl, hdecided, hread⟩
      exact processBuffer_simulates hcallback now hread hdecided
    · rw [List.forall₂_map_right_iff, List.forall₂_same]
      intro call hcall
      exact ⟨rfl, hdecisive _ (List.mem_map_of_mem hcall),
        MoldUdpChannel.message_of_mem_packetCalls hcall⟩
  have hrun : (receive (messageHandler now callback) ⟨recvTs, 0, packet⟩).run (ch, s) =
      (onSnd ((ch.delivered ⟨recvTs, 0, packet⟩).forM
        (processBuffer (messageHandler now callback) (ch.after ⟨recvTs, 0, packet⟩).buffer))).run
        (ch.after ⟨recvTs, 0, packet⟩, s) := by
    rw [receive]
    simp only [EStateM.run_bind, EStateM.run_get, ch.receive_wellFormed recvTs hwf, EStateM.run_set,
      finalState]
    cases (onSnd _).run _ <;> rfl
  rw [hrun]
  exact hcalls.onSnd_left.ends _ t hst

/-- What a reception brings: the messages of its packet, or none when no bytes came. -/
inductive Carries : Reception → List (List UInt8) → Prop
  | packet {r : Reception} {batch : List (List UInt8)} (hec : r.ec = 0)
      (hheader : headerSize ≤ r.bytes.length)
      (hblocks : blocks? (blockCount r.bytes).toNat (r.bytes.drop headerSize) = some batch) :
      Carries r batch
  | nothing {r : Reception} (hec : r.ec = 0) (hbytes : r.bytes = []) : Carries r []

theorem Carries.receive_simulates {r : Reception} {batch : List (List UInt8)} (h : Carries r batch)
    (hcallback : SameCallbacks Q callback callback') (now : EStateM Failure υ Int)
    (hdecisive : ∀ message ∈ batch, Wire.Decisive message) :
    Simulates Failure.exceptionClass (fun s t => SameFeed Q s.2 t) (fun _ _ => True)
      (receive (messageHandler now callback) r) (handleRecords callback' batch) := by
  cases h with
  | packet hec hheader hblocks =>
      exact Mold2Inside.receive_simulates hcallback now hec hheader hblocks hdecisive
  | nothing hec hbytes =>
      obtain ⟨recvTs, ec, packet⟩ := r
      simp only at hec hbytes
      subst hec hbytes
      constructor
      rintro ⟨ch, s⟩ t hst
      have hnone : ch.delivered ⟨recvTs, 0, []⟩ = [] := by
        rw [MoldUdpChannel.delivered_eq]
        rfl
      rw [receive]
      simp only [EStateM.run_bind, EStateM.run_get, hnone]
      exact ⟨trivial, hst⟩

/-- What is received, one after the other -/
theorem run_simulates (hcallback : SameCallbacks Q callback callback') (now : EStateM Failure υ Int)
    {rs : List Reception} {batches : List (List (List UInt8))} (h : List.Forall₂ Carries rs batches)
    (hdecisive : ∀ message ∈ batches.flatten, Wire.Decisive message) :
    Simulates Failure.exceptionClass (fun s t => SameFeed Q s.2 t) (fun _ _ => True)
      (run (messageHandler now callback) rs) (handleRecords callback' batches.flatten) := by
  induction h with
  | nil => exact .pure trivial
  | cons hr _ ih =>
      rw [List.flatten_cons, List.forall_mem_append] at hdecisive
      rw [List.flatten_cons, handleRecords_append]
      exact (hr.receive_simulates hcallback now hdecisive.1).bind fun _ _ _ => ih hdecisive.2

end Simulation

theorem carries_encodePacket {session : List UInt8} (hsession : session.length = sessionIdSize)
    {batch : List (List UInt8)} (hfits : Fits batch) (number : UInt64) {r : Reception} (hec : r.ec = 0)
    (hr : r.bytes = encodePacket session number batch) : Carries r batch := by
  have hwf := MoldUdpChannel.wellFormed_encodePacket hsession hfits number
  have hblocks := blocks?_encodePacket number batch hsession hfits.1 hfits.2
  rw [← hr] at hwf hblocks
  exact .packet hec hwf.1 hblocks

/-- The packets of batches, received in order -/
theorem carries_packetsOf {session : List UInt8} (hsession : session.length = sessionIdSize) {k : Nat}
    {batches : List (List (List UInt8))} (hfits : ∀ batch ∈ batches, Fits batch) {rs : List Reception}
    (hec : ∀ r ∈ rs, r.ec = 0) (hrs : rs.map Reception.bytes = packetsOf session k batches) :
    List.Forall₂ Carries rs batches := by
  induction batches generalizing k rs with
  | nil =>
      rw [packetsOf, List.map_eq_nil_iff] at hrs
      subst hrs
      exact .nil
  | cons batch batches ih =>
      rw [packetsOf] at hrs
      obtain ⟨r, rest, rfl, hr, hrest⟩ := List.map_eq_cons_iff.1 hrs
      rw [List.forall_mem_cons] at hfits hec
      exact .cons (carries_encodePacket hsession hfits.1 _ hec.1 hr) (ih hfits.2 hec.2 hrest)

end Mold2Inside

/-! ## Replayed books -/

section Replayed

open ComputeBook

variable {β : Side → Type} [BookType β] {χ ρ : Type}

/-- A callback that does not look at the time of receipt. -/
def TimeBlind (callback : Callback Wire.StockT β → EStateM Failure ρ Unit) : Prop :=
  ∀ (call : Callback Wire.StockT β) recvts, callback (call.receivedAt recvts) = callback call

omit [BookType β] in
theorem TimeBlind.same {callback : Callback Wire.StockT β → EStateM Failure ρ Unit}
    (h : TimeBlind callback) : SameCallbacks Eq callback callback := by
  intro call recvts recvts'
  rw [h, h]
  exact (Simulates.refl _ _).imp fun _ _ _ => trivial

omit [BookType β] in
/-- The callback of a program that has a clock besides. -/
theorem TimeBlind.same_clocked {callback : Callback Wire.StockT β → EStateM Failure ρ Unit}
    (h : TimeBlind callback) :
    SameCallbacks (fun (s : χ × ρ) t => s.2 = t) (fun call => onSnd (callback call)) callback :=
  fun call recvts recvts' => (h.same call recvts recvts').onSnd_left

/-- The packets of a replayed file, received in order, leave the books and the callback as a part of
the file does when it is read: all of it but the messages of the last packet, at least one of them
when there are any. -/
theorem replayed_books {cfg : MoldUdpPacerConfig} (hcfg : cfg.validate = .ok ())
    {callback : Callback Wire.StockT β → EStateM Failure ρ Unit} (hblind : TimeBlind callback)
    {now : EStateM Failure χ Int} (hnow : ∀ c, ∃ t c', now.run c = .ok t c')
    {messages : List (List UInt8)} (hfew : messages.length ≤ 4294967296)
    (hsize : ∀ message ∈ messages, 11 ≤ message.length ∧
      (message.length : Int) + 2 < cfg.maximumTransmissionUnit - headerSize)
    (hdecisive : ∀ message ∈ messages, Wire.Decisive message) (leftover leftover' : IStream → Memory)
    {rs : List Reception} (hec : ∀ r ∈ rs, r.ec = 0)
    (hrs : rs.map Reception.bytes = Replayer.packets cfg leftover (encodeBlocks messages))
    (ch : MoldUdpChannel) (cb : ComputeBook Wire.StockT β) (c : χ) (u : ρ) :
    ∃ sent lost, messages = sent ++ lost ∧ (lost = [] ↔ messages = []) ∧
      ((headerSize + (encodeBlocks lost).length : Nat) : Int) ≤ cfg.maximumTransmissionUnit ∧
      Ends Failure.exceptionClass (fun s t => s.2 = (t.1, t.2.2)) (fun _ _ => True)
        ((Mold2Inside.run (messageHandler (return 0) callback) rs).run (ch, cb, u))
        ((processIostreamMlist Wire.knownItch5Messages
          (messageHandler (onFst now) fun call => onSnd (callback call)) leftover' 0 0
          (.ofBytes (encodeBlocks sent))).run (cb, c, u)) := by
  obtain ⟨session, batches, waiting, hsession, hfits, hpackets, rfl, hwaits, hwaiting⟩ :=
    Replayer.packets_eq hcfg hfew hsize leftover
  refine ⟨batches.flatten, waiting, rfl, hwaits, hwaiting, ?_⟩
  rw [List.forall_mem_append] at hsize hdecisive
  have hlengths : ∀ message ∈ batches.flatten, message.length < 65536 ∧ Wire.Decisive message := by
    intro message hmem
    obtain ⟨batch, hbatch, hmessage⟩ := List.mem_flatten.1 hmem
    exact ⟨(hfits batch hbatch).2 message hmessage, hdecisive.1 message hmem⟩
  have hclock : QuietClock (fun (s : χ × ρ) t => s.2 = t) (onFst now) := by
    intro s t hst
    obtain ⟨a, c', hread⟩ := hnow s.1
    exact ⟨a, (c', s.2), onFst_run_ok hread, hst⟩
  have hcarries := Mold2Inside.carries_packetsOf hsession hfits hec (hrs.trans hpackets)
  have hnetwork := Mold2Inside.run_simulates hblind.same (return 0) hcarries hdecisive.1
  have hfile := processIostream_simulates hblind.same_clocked hclock leftover' hlengths 0 0
  refine (hnetwork.join hfile (s := (ch, cb, u)) (t := (cb, u)) (m := (cb, c, u))
    ⟨rfl, rfl⟩ ⟨rfl, rfl⟩).imp ?_ fun _ _ _ => trivial
  rintro s m ⟨t, hst, hmt⟩
  exact Prod.ext (hst.1.trans hmt.1.symm) (hst.2.trans hmt.2.symm)

/-- An order to buy 100 shares at 10.00, as its bytes. -/
def buyOrder (id : UInt8) : List UInt8 :=
  [65, 0, 1, 0, 0, 0, 0, 0, 0, 0, 1, 0, 0, 0, 0, 0, 0, 0, id, 66, 0, 0, 0, 100] ++
    [72, 83, 65, 82, 84, 32, 32, 32] ++ [0, 1, 134, 160]

theorem decisive_buyOrder (id : UInt8) : Wire.Decisive (buyOrder id) := by
  refine Wire.decisive_of_complete (by simp [buyOrder]) ?_
  have hlength : (buyOrder id).length = 36 := rfl
  have hfirst : Memory.ofList (buyOrder id) 0 = 65 := rfl
  simp only [Wire.MessageType.Matches, hfirst, hlength]
  decide

/-- Two orders, of which the second is lost. -/
theorem replayed_books_two_orders :
    ∃ sent lost, [buyOrder 1, buyOrder 2] = sent ++ lost ∧
      (lost = [] ↔ [buyOrder 1, buyOrder 2] = []) ∧
      ((headerSize + (encodeBlocks lost).length : Nat) : Int) ≤ 508 ∧
      Ends Failure.exceptionClass (fun s t => s.2 = (t.1, t.2.2)) (fun _ _ => True)
        ((Mold2Inside.run (messageHandler (return 0) fun call => modify (call.header :: ·))
          (MoldUdpPacer.receptionsOf (Replayer.packets .defaults (fun _ _ => 0)
            (encodeBlocks [buyOrder 1, buyOrder 2])))).run
          (.make fun _ => 0, (make (fun _ => 0) () : ComputeBook Wire.StockT MapBasedBookSide), []))
        ((processIostreamMlist Wire.knownItch5Messages
          (messageHandler (onFst (return 0)) fun call => onSnd (modify (call.header :: ·)))
          (fun _ _ => 0) 0 0 (.ofBytes (encodeBlocks sent))).run (make (fun _ => 0) (), (), [])) := by
  have hmessages : ∀ message ∈ [buyOrder 1, buyOrder 2],
      (11 ≤ message.length ∧ (message.length : Int) + 2 < 508 - headerSize) ∧
        Wire.Decisive message := by
    rw [List.forall_mem_cons, List.forall_mem_singleton]
    exact ⟨⟨by decide, decisive_buyOrder 1⟩, ⟨by decide, decisive_buyOrder 2⟩⟩
  exact replayed_books MoldUdpPacerConfig.validate_defaults (fun _ _ => rfl)
    (fun c => ⟨0, c, rfl⟩) (by decide) (fun message h => (hmessages message h).1)
    (fun message h => (hmessages message h).2) (fun _ _ => 0) (fun _ _ => 0)
    (MoldUdpPacer.ec_receptionsOf _) (MoldUdpPacer.map_bytes_receptionsOf _) _ _ _ _

end Replayed

end JayBeams.Itch5
