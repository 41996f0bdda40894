import OneBase.Model.Protocol

/-! # Message framing

However the calls of `read` and `write` cut the stream into pieces, `WriteExact` appends its buffer and
`ReadExact` takes as many bytes as it asks for, or finds the end of the stream. So a message is its
frame on the stream, a sequence of messages is the sequence of frames, and reading stays aligned with
it up to the frame that is cut off.
-/

namespace OneBase.Protocol

variable {source : Source} {sink : Sink} {message : Message} {messages : List Message}

/-- Every call of `read` finds something, except at the end of the stream. -/
def Source.Reliable (source : Source) : Prop := ∀ call, 0 < source.arrived call

/-- Every call of `write` makes progress. -/
def Sink.Reliable (sink : Sink) : Prop := ∀ call, 0 < sink.accepted call

/-- A source and what is left of it. -/
def Source.Leaves (source rest : Source) (bytes : List UInt8) : Prop :=
  rest.bytes = bytes ∧ rest.arrived = source.arrived

theorem Source.Leaves.reliable {rest : Source} {bytes : List UInt8} (leaves : source.Leaves rest bytes)
    (reliable : source.Reliable) : rest.Reliable := by
  rw [Source.Reliable, leaves.2]
  exact reliable

/-- One call takes a piece off the front, an empty one only at the end of the stream. -/
theorem Source.read_eq (reliable : source.Reliable) (len : ℕ) : ∃ k, k ≤ len ∧ k ≤ source.bytes.length ∧
    (0 < len → 0 < source.bytes.length → 0 < k) ∧ (source.read len).1 = source.bytes.take k ∧
    source.Leaves (source.read len).2 (source.bytes.drop k) := by
  have moves := reliable source.calls
  refine ⟨min (min len (source.arrived source.calls)) source.bytes.length, ?_, ?_, ?_, ?_, ?_⟩
  · omega
  · omega
  · omega
  · simp [read]
  · simp [read, Leaves]

/-- `ReadExact` over any pieces. -/
theorem readExact_eq (reliable : source.Reliable) (len : ℕ) :
    (readExact source len).1 = (if len ≤ source.bytes.length then some (source.bytes.take len) else none) ∧
      source.Leaves (readExact source len).2 (source.bytes.drop len) := by
  fun_induction readExact source len with
  | case1 source => simp [Source.Leaves]
  | case2 source len asks got rest read empty =>
    obtain ⟨k, -, inside, moves, isPiece, leaves⟩ := source.read_eq reliable len
    rw [read] at isPiece leaves
    change got = source.bytes.take k at isPiece
    have nothing : source.bytes.length = 0 := by
      rw [isPiece, List.length_take] at empty
      omega
    have ended : source.bytes = [] := List.length_eq_zero_iff.mp nothing
    rw [ended, List.drop_nil] at leaves ⊢
    simp [asks, leaves]
  | case3 source len asks got source' read progress rest source'' more ih =>
    obtain ⟨k, small, inside, -, isPiece, leaves⟩ := source.read_eq reliable len
    rw [read] at isPiece leaves
    change got = source.bytes.take k at isPiece
    obtain ⟨filled, left⟩ := ih (leaves.reliable reliable)
    have piece : got.length = k := by
      rw [isPiece, List.length_take]
      omega
    rw [more, piece, leaves.1, List.length_drop] at filled
    rw [more, piece, leaves.1, List.drop_drop, show k + (len - k) = len by omega] at left
    refine ⟨?_, left.1, left.2.trans leaves.2⟩
    dsimp only at filled ⊢
    rw [filled]
    by_cases fits : len ≤ source.bytes.length
    · rw [if_pos fits, if_pos (by omega), Option.map_some, isPiece]
      rw [← List.take_add, show k + (len - k) = len by omega]
    · rw [if_neg fits, if_neg (by omega), Option.map_none]

theorem readExact_of_append {bytes rest : List UInt8} (reliable : source.Reliable)
    (stream : source.bytes = bytes ++ rest) :
    ∃ left, readExact source bytes.length = (some bytes, left) ∧ source.Leaves left rest := by
  obtain ⟨filled, leaves⟩ := readExact_eq reliable bytes.length
  rw [stream, if_pos (by simp), List.take_left] at filled
  rw [stream, List.drop_left] at leaves
  exact ⟨_, Prod.ext filled rfl, leaves⟩

theorem readExact_of_lt {len : ℕ} (reliable : source.Reliable) (short : source.bytes.length < len) :
    ∃ left, readExact source len = (none, left) := by
  have filled := (readExact_eq reliable len).1
  rw [if_neg (by omega)] at filled
  exact ⟨_, Prod.ext filled rfl⟩

/-- A sink after some bytes more. -/
def Sink.Gets (sink rest : Sink) (bytes : List UInt8) : Prop :=
  rest.bytes = sink.bytes ++ bytes ∧ rest.accepted = sink.accepted

theorem Sink.Gets.reliable {rest : Sink} {bytes : List UInt8} (gets : sink.Gets rest bytes)
    (reliable : sink.Reliable) : rest.Reliable := by
  rw [Sink.Reliable, gets.2]
  exact reliable

theorem Sink.Gets.trans {next rest : Sink} {a b : List UInt8} (first : sink.Gets next a) (second : next.Gets rest b) :
    sink.Gets rest (a ++ b) :=
  ⟨by rw [second.1, first.1, List.append_assoc], second.2.trans first.2⟩

/-- `WriteExact` over any pieces. -/
theorem writeExact_eq (reliable : sink.Reliable) (data : List UInt8) :
    ∃ rest, writeExact sink data = (true, rest) ∧ sink.Gets rest data := by
  fun_induction writeExact sink data with
  | case1 sink data empty =>
    rw [List.length_eq_zero_iff] at empty
    exact ⟨sink, rfl, by simp [empty], rfl⟩
  | case2 sink data asks rest wrote =>
    have moves := reliable sink.calls
    simp only [Sink.write, Prod.mk.injEq] at wrote
    omega
  | case3 sink data asks n rest wrote progress ih =>
    simp only [Sink.write, Prod.mk.injEq] at wrote
    obtain ⟨rfl, rfl⟩ := wrote
    obtain ⟨last, written, gets⟩ := ih reliable
    refine ⟨last, written, ?_, gets.2⟩
    rw [gets.1]
    simp

/-- A message on the stream: the length in network order, the type byte and the data. -/
def frame (message : Message) : List UInt8 := htonl (message.2.length + 1) ++ message.1 :: message.2

/-- A message whose length fits into the length field with the type byte. -/
def Message.Fits (message : Message) : Prop := message.2.length < 2 ^ 32 - 1

theorem htonl_length (x : ℕ) : (htonl x).length = 4 := by simp [htonl]

theorem ntohl_htonl {x : ℕ} (small : x < 2 ^ 32) : ntohl (htonl x) = x := by
  rw [ntohl, htonl, List.reverse_reverse]
  exact Bytes.decode_encode_of_lt small

theorem frame_length (message : Message) : (frame message).length = message.2.length + 5 := by
  simp only [frame, List.length_append, htonl_length, List.length_cons]
  omega

theorem sendMessage_eq (reliable : sink.Reliable) (fits : Message.Fits message) :
    ∃ rest, sendMessage sink message = (true, rest) ∧ sink.Gets rest (frame message) := by
  have small : message.2.length + 1 < 2 ^ 32 := by
    rw [Message.Fits] at fits
    omega
  obtain ⟨afterLen, sentLen, getsLen⟩ := writeExact_eq reliable (htonl (message.2.length + 1))
  obtain ⟨afterType, sentType, getsType⟩ := writeExact_eq (getsLen.reliable reliable) [message.1]
  obtain ⟨afterData, sentData, getsData⟩ :=
    writeExact_eq (getsType.reliable (getsLen.reliable reliable)) message.2
  simp only [sendMessage, Nat.mod_eq_of_lt small, sentLen, sentType]
  have typed := getsLen.trans getsType
  split
  · next empty =>
    rw [List.isEmpty_iff] at empty
    refine ⟨afterType, rfl, ?_⟩
    rw [frame, empty]
    rwa [empty] at typed
  · refine ⟨afterData, sentData, ?_⟩
    rw [frame, ← List.singleton_append, ← List.append_assoc]
    exact typed.trans getsData

/-- A sequence of messages is the sequence of their frames. -/
theorem sendMessages_eq (reliable : sink.Reliable) (fit : ∀ message ∈ messages, Message.Fits message) :
    ∃ rest, sendMessages sink messages = (messages.map fun _ => true, rest) ∧
      sink.Gets rest (messages.map frame).flatten := by
  induction messages generalizing sink with
  | nil => exact ⟨sink, rfl, by simp, rfl⟩
  | cons message more ih =>
    rw [List.forall_mem_cons] at fit
    obtain ⟨next, sent, gets⟩ := sendMessage_eq reliable fit.1
    obtain ⟨rest, sentMore, getsMore⟩ := ih (gets.reliable reliable) fit.2
    refine ⟨rest, ?_, gets.trans getsMore⟩
    simp only [sendMessages, sent, sentMore, List.map_cons]

/-- A whole frame at the front of the stream is received. -/
theorem recvMessage_frame {rest : List UInt8} (reliable : source.Reliable) (fits : Message.Fits message)
    (stream : source.bytes = frame message ++ rest) :
    ∃ left, recvMessage source = (some message, left) ∧ source.Leaves left rest := by
  have small : message.2.length + 1 < 2 ^ 32 := by
    rw [Message.Fits] at fits
    omega
  rw [frame, List.append_assoc, List.cons_append, ← List.singleton_append] at stream
  obtain ⟨afterLen, readLen, leavesLen⟩ := readExact_of_append reliable stream
  rw [htonl_length] at readLen
  have reliable' := leavesLen.reliable reliable
  obtain ⟨afterType, readType, leavesType⟩ := readExact_of_append reliable' leavesLen.1
  rw [List.length_singleton] at readType
  obtain ⟨afterData, readData, leavesData⟩ :=
    readExact_of_append (leavesType.reliable reliable') leavesType.1
  simp only [recvMessage, readLen, ntohl_htonl small, readType, Nat.add_sub_cancel, readData]
  rw [if_neg (Nat.succ_ne_zero _)]
  split
  · next empty =>
    rw [List.length_eq_zero_iff] at empty
    have nothing : afterType.bytes = rest := by rw [leavesType.1, empty, List.nil_append]
    refine ⟨afterType, ?_, nothing, leavesType.2.trans leavesLen.2⟩
    rw [List.headD_cons, ← empty]
  · refine ⟨afterData, ?_, leavesData.1, leavesData.2.trans (leavesType.2.trans leavesLen.2)⟩
    simp

/-- A frame that is cut off is not received. -/
theorem recvMessage_cut {n : ℕ} (reliable : source.Reliable) (fits : Message.Fits message)
    (short : n < (frame message).length) (stream : source.bytes = (frame message).take n) :
    ∃ left, recvMessage source = (none, left) := by
  have small : message.2.length + 1 < 2 ^ 32 := by
    rw [Message.Fits] at fits
    omega
  have len : source.bytes.length = n := by
    rw [stream, List.length_take]
    omega
  rw [frame_length] at short
  by_cases inLength : n < 4
  · obtain ⟨left, failed⟩ := readExact_of_lt reliable (len.trans_lt inLength)
    exact ⟨left, by simp only [recvMessage, failed]⟩
  rw [frame, List.take_append, htonl_length, List.take_of_length_le (by rw [htonl_length]; omega)] at stream
  obtain ⟨afterLen, readLen, leavesLen⟩ := readExact_of_append reliable stream
  rw [htonl_length] at readLen
  have reliable' := leavesLen.reliable reliable
  have lenLeft : afterLen.bytes.length = n - 4 := by
    rw [leavesLen.1, List.length_take, List.length_cons]
    omega
  simp only [recvMessage, readLen, ntohl_htonl small]
  rw [if_neg (Nat.succ_ne_zero _)]
  by_cases inType : n - 4 < 1
  · obtain ⟨left, failed⟩ := readExact_of_lt reliable' (lenLeft.trans_lt inType)
    exact ⟨left, by simp only [failed]⟩
  have typed : afterLen.bytes = [message.1] ++ message.2.take (n - 5) := by
    rw [leavesLen.1, List.take_cons (by omega), show n - 4 - 1 = n - 5 by omega]
    rfl
  obtain ⟨afterType, readType, leavesType⟩ := readExact_of_append reliable' typed
  rw [List.length_singleton] at readType
  have lenData : afterType.bytes.length < message.2.length := by
    rw [leavesType.1, List.length_take]
    omega
  obtain ⟨left, failed⟩ := readExact_of_lt (leavesType.reliable reliable') lenData
  simp only [readType, Nat.add_sub_cancel, failed, Option.map_none]
  rw [if_neg (by omega)]
  exact ⟨left, rfl⟩

/-- Whole frames at the front of the stream are received one by one. -/
theorem recvMessages_frames {rest : List UInt8} (reliable : source.Reliable)
    (fit : ∀ message ∈ messages, Message.Fits message)
    (stream : source.bytes = (messages.map frame).flatten ++ rest) :
    ∃ left, recvMessages messages.length source = (messages.map some, left) ∧ source.Leaves left rest := by
  induction messages generalizing source with
  | nil => exact ⟨source, rfl, stream, rfl⟩
  | cons message more ih =>
    rw [List.forall_mem_cons] at fit
    rw [List.map_cons, List.flatten_cons, List.append_assoc] at stream
    obtain ⟨next, received, leaves⟩ := recvMessage_frame reliable fit.1 stream
    obtain ⟨left, receivedMore, leavesMore⟩ := ih (leaves.reliable reliable) fit.2 leaves.1
    refine ⟨left, ?_, leavesMore.1, leavesMore.2.trans leaves.2⟩
    simp only [List.length_cons, recvMessages, received, receivedMore, List.map_cons]

theorem recvMessages_add (a b : ℕ) (source : Source) : recvMessages (a + b) source =
    ((recvMessages a source).1 ++ (recvMessages b (recvMessages a source).2).1,
      (recvMessages b (recvMessages a source).2).2) := by
  induction a generalizing source with
  | zero => simp [recvMessages]
  | succ a ih => simp [Nat.succ_add, recvMessages, ih]

/-- A stream that ends inside a sequence of frames ends inside one of them. -/
theorem exists_cut_frame {n : ℕ} (inside : n < (messages.map frame).flatten.length) :
    ∃ before message after cut, messages = before ++ message :: after ∧ cut < (frame message).length ∧
      n = (before.map frame).flatten.length + cut ∧
      (messages.map frame).flatten.take n = (before.map frame).flatten ++ (frame message).take cut := by
  induction messages generalizing n with
  | nil => simp at inside
  | cons message more ih =>
    rw [List.map_cons, List.flatten_cons, List.length_append] at inside
    rw [List.map_cons, List.flatten_cons, List.take_append]
    by_cases here : n < (frame message).length
    · refine ⟨[], message, more, n, rfl, here, by simp, ?_⟩
      simp [show n - (frame message).length = 0 by omega]
    · obtain ⟨before, last, after, cut, split, short, place, front⟩ :=
        ih (n := n - (frame message).length) (by omega)
      refine ⟨message :: before, last, after, cut, by rw [split]; rfl, short, ?_, ?_⟩
      · rw [List.map_cons, List.flatten_cons, List.length_append]
        omega
      rw [front, List.take_of_length_le (by omega), List.map_cons, List.flatten_cons, List.append_assoc]

/-- The messages sent are received, whatever follows them; from a stream that ends before the last byte of
them the messages in front of the cut are received, and the call that reaches the end fails. -/
theorem recvMessages_sendMessages (accepted arrived : ℕ → ℕ) (writes : ∀ call, 0 < accepted call)
    (reads : ∀ call, 0 < arrived call) (fit : ∀ message ∈ messages, Message.Fits message) :
    ∃ sink, sendMessages { accepted } messages = (messages.map fun _ => true, sink) ∧
      (∀ after, ∃ left, recvMessages messages.length { bytes := sink.bytes ++ after, arrived } =
        (messages.map some, left) ∧ left.bytes = after) ∧
      ∀ n < sink.bytes.length, ∃ before message after left, messages = before ++ message :: after ∧
        (before.map frame).flatten.length ≤ n ∧ n < ((before ++ [message]).map frame).flatten.length ∧
        recvMessages (before.length + 1) { bytes := sink.bytes.take n, arrived } =
          (before.map some ++ [none], left) := by
  obtain ⟨sink, sent, stream, -⟩ := sendMessages_eq (show Sink.Reliable { accepted } from writes) fit
  rw [List.nil_append] at stream
  refine ⟨sink, sent, fun after => ?_, fun n inside => ?_⟩
  · have reliable : Source.Reliable { bytes := sink.bytes ++ after, arrived } := reads
    obtain ⟨left, received, leaves⟩ := recvMessages_frames reliable fit (by rw [stream])
    exact ⟨left, received, leaves.1⟩
  · rw [stream] at inside
    obtain ⟨before, message, after, cut, split, short, place, front⟩ := exists_cut_frame inside
    rw [split, List.forall_mem_append, List.forall_mem_cons] at fit
    have reliable : Source.Reliable { bytes := sink.bytes.take n, arrived } := reads
    obtain ⟨next, received, leaves⟩ := recvMessages_frames reliable fit.1 (by rw [stream, front])
    obtain ⟨left, failed⟩ := recvMessage_cut (leaves.reliable reliable) fit.2.1 short leaves.1
    refine ⟨before, message, after, left, split, by omega, ?_, ?_⟩
    · simp only [List.map_append, List.flatten_append, List.length_append, List.map_singleton, List.flatten_singleton]
      omega
    · rw [recvMessages_add, received]
      simp only [recvMessages, failed]

/-- A query and an empty message, written byte by byte and read two bytes at a time. -/
theorem recvMessages_sendMessages_sample :
    ∃ sink, sendMessages { accepted := fun _ => 1 } [(81, ascii "SELECT 1"), (88, [])] = ([true, true], sink) ∧
      (∀ after, ∃ left, recvMessages 2 { bytes := sink.bytes ++ after, arrived := fun _ => 2 } =
        ([some (81, ascii "SELECT 1"), some (88, [])], left) ∧ left.bytes = after) ∧
      ∀ n < sink.bytes.length, ∃ before message after left,
        [(81, ascii "SELECT 1"), (88, [])] = before ++ message :: after ∧
        (before.map frame).flatten.length ≤ n ∧ n < ((before ++ [message]).map frame).flatten.length ∧
        recvMessages (before.length + 1) { bytes := sink.bytes.take n, arrived := fun _ => 2 } =
          (before.map some ++ [none], left) :=
  recvMessages_sendMessages (fun _ => 1) (fun _ => 2) (by simp) (by simp) (by simp [Message.Fits, ascii])

end OneBase.Protocol
