import TensorFlowOnSpark.Lib.BigEndian

/-!
# Messages over a socket

`MessageSocket` of `reservation.py`: a message is pickled, and its length goes before it
as four bytes.
-/

namespace TensorFlowOnSpark.Reservation

open BigEndian List

def bufSize : Nat := 1024

/-- The module `pickle`, for messages that it gives back as they were. -/
structure Pickle (M : Type) where
  dumps : M → List UInt8
  loads : List UInt8 → M
  loads_dumps : ∀ msg, loads (dumps msg) = msg

inductive ReceiveError where
  | socketClosed | structError
  deriving DecidableEq, Repr

/-- A message with the results of `recv` that were not asked for, an exception, or a call of `recv`
that has no result yet. -/
inductive Received (M : Type) where
  | returned (msg : M) (rest : List (List UInt8))
  | raised (error : ReceiveError)
  | waiting
  deriving DecidableEq, Repr

namespace MessageSocket

variable {M : Type}

def unpack (bytes : List UInt8) : Except ReceiveError Int :=
  if bytes.length = 4 then .ok (fromBytes bytes) else .error .structError

def pack (n : Nat) : Except ReceiveError (List UInt8) :=
  if n < 2 ^ 32 then .ok (bigEndian 4 n) else .error .structError

/-- The loop of `receive`, with `data` and `recv_len`. -/
def receiveLoop (loads : List UInt8 → M) (data : List UInt8) (recvLen : Int) :
    List (List UInt8) → Received M
  | [] => .waiting
  | buf :: rest =>
    if buf.length = 0 then .raised .socketClosed
    else if recvLen = -1 then
      match unpack (buf.take 4) with
      | .error error => .raised error
      | .ok length =>
        let data := data ++ buf.drop 4
        let recvLen := length - data.length
        if recvLen = 0 then .returned (loads data) rest else receiveLoop loads data recvLen rest
    else
      let data := data ++ buf
      let recvLen := recvLen - buf.length
      if recvLen = 0 then .returned (loads data) rest else receiveLoop loads data recvLen rest

def receive (pickle : Pickle M) (chunks : List (List UInt8)) : Received M :=
  receiveLoop pickle.loads [] (-1) chunks

def send (pickle : Pickle M) (msg : M) : Except ReceiveError (List UInt8) := do
  let data := pickle.dumps msg
  let header ← pack data.length
  .ok (header ++ data)

/-- The ways in which `recv` can give the bytes of a stream. -/
structure Splits (stream : List UInt8) (chunks : List (List UInt8)) : Prop where
  flatten : chunks.flatten = stream
  nonempty : ∀ chunk ∈ chunks, chunk ≠ []
  small : ∀ chunk ∈ chunks, chunk.length ≤ bufSize

variable {pickle : Pickle M} {msg : M} {stream : List UInt8} {chunks : List (List UInt8)}

theorem send_ok (h : send pickle msg = .ok stream) :
    (pickle.dumps msg).length < 2 ^ 32 ∧
      stream = bigEndian 4 (pickle.dumps msg).length ++ pickle.dumps msg := by
  rw [send, pack] at h
  split at h
  · rename_i hFits
    exact ⟨hFits, (Except.ok.inj h).symm⟩
  · cases h

theorem flatten_length_pos (hNonempty : ∀ chunk ∈ chunks, chunk ≠ []) (hSome : chunks ≠ []) :
    0 < chunks.flatten.length := by
  obtain ⟨chunk, rest, rfl⟩ := exists_cons_of_ne_nil hSome
  have hPos := length_pos_of_ne_nil (hNonempty chunk mem_cons_self)
  rw [flatten_cons, length_append]
  omega

theorem receiveLoop_eq (loads : List UInt8 → M) (data : List UInt8)
    (hNonempty : ∀ chunk ∈ chunks, chunk ≠ []) (hSome : chunks ≠ []) :
    receiveLoop loads data chunks.flatten.length chunks =
      .returned (loads (data ++ chunks.flatten)) [] := by
  induction chunks generalizing data with
  | nil => exact absurd rfl hSome
  | cons buf rest ih =>
    have hBuf := length_pos_of_ne_nil (hNonempty buf mem_cons_self)
    have hRest : ∀ chunk ∈ rest, chunk ≠ [] := fun chunk h =>
      hNonempty chunk (mem_cons_of_mem _ h)
    have hLeft : ((buf ++ rest.flatten).length : Int) - buf.length = rest.flatten.length := by
      rw [length_append]
      omega
    rw [receiveLoop, if_neg (by omega), if_neg (by omega), flatten_cons]
    simp only [hLeft]
    cases rest with
    | nil =>
      rw [flatten_nil, append_nil]
      rfl
    | cons buf' rest =>
      have hPos := flatten_length_pos hRest (cons_ne_nil _ _)
      rw [if_neg (by omega), ih _ hRest (cons_ne_nil _ _), append_assoc]

theorem receive_of_header {buf : List UInt8} {rest : List (List UInt8)}
    (hFits : (pickle.dumps msg).length < 2 ^ 32)
    (hSplits : Splits (bigEndian 4 (pickle.dumps msg).length ++ pickle.dumps msg) (buf :: rest))
    (hHeader : 4 ≤ buf.length) : receive pickle (buf :: rest) = .returned msg [] := by
  have hFlatten := hSplits.flatten
  rw [flatten_cons] at hFlatten
  have hTake : buf.take 4 = bigEndian 4 (pickle.dumps msg).length := by
    have hFirst := congrArg (take 4) hFlatten
    rwa [take_append_of_le_length hHeader, take_left' (length_bigEndian _ _)] at hFirst
  have hDrop : buf.drop 4 ++ rest.flatten = pickle.dumps msg := by
    have hLast := congrArg (drop 4) hFlatten
    rwa [drop_append_of_le_length hHeader, drop_left' (length_bigEndian _ _)] at hLast
  have hUnpack : unpack (buf.take 4) = .ok ((pickle.dumps msg).length : Int) := by
    rw [hTake, unpack, if_pos (length_bigEndian _ _), fromBytes_bigEndian]
    exact hFits
  have hLeft : ((pickle.dumps msg).length : Int) - (buf.drop 4).length = rest.flatten.length := by
    rw [← hDrop, length_append]
    omega
  rw [receive, receiveLoop, if_neg (by omega), if_pos rfl, hUnpack]
  simp only [nil_append, hLeft]
  cases rest with
  | nil =>
    rw [flatten_nil, append_nil] at hDrop
    rw [flatten_nil, length_nil, if_pos Nat.cast_zero, hDrop, pickle.loads_dumps]
  | cons buf' rest =>
    have hRest : ∀ chunk ∈ buf' :: rest, chunk ≠ [] := fun chunk h =>
      hSplits.nonempty chunk (mem_cons_of_mem _ h)
    have hPos := flatten_length_pos hRest (cons_ne_nil _ _)
    rw [if_neg (by omega), receiveLoop_eq _ _ hRest (cons_ne_nil _ _), hDrop,
      pickle.loads_dumps]

/-- A message arrives unless its header is cut by the first call of `recv`. -/
theorem receive_send_iff (pickle : Pickle M) (msg : M) (stream : List UInt8)
    (chunks : List (List UInt8)) (hSend : send pickle msg = .ok stream)
    (hSplits : Splits stream chunks) :
    receive pickle chunks = .returned msg [] ↔ ∀ first ∈ chunks.head?, 4 ≤ first.length := by
  obtain ⟨hFits, rfl⟩ := send_ok hSend
  cases chunks with
  | nil =>
    have hNone := congrArg length hSplits.flatten
    rw [flatten_nil, length_append, length_bigEndian] at hNone
    rw [length_nil] at hNone
    omega
  | cons buf rest =>
    constructor
    · rintro hReceived _ ⟨⟩
      by_contra hShort
      have hBuf := length_pos_of_ne_nil (hSplits.nonempty buf mem_cons_self)
      rw [receive, receiveLoop, if_neg (by omega), if_pos rfl, unpack,
        if_neg (by rw [length_take]; omega)] at hReceived
      cases hReceived
    · intro hHeader
      exact receive_of_header hFits hSplits (hHeader buf rfl)

inductive Reply where
  | ok | err
  deriving DecidableEq

def Reply.dumps : Reply → List UInt8
  -- S'OK', p0 and a full stop, on three lines
  | .ok => [0x53, 0x27, 0x4f, 0x4b, 0x27, 0x0a, 0x70, 0x30, 0x0a, 0x2e]
  | .err => [0x53, 0x27, 0x45, 0x52, 0x52, 0x27, 0x0a, 0x70, 0x30, 0x0a, 0x2e]

def replyPickle : Pickle Reply where
  dumps := Reply.dumps
  loads data := if data = Reply.ok.dumps then .ok else .err
  loads_dumps msg := by cases msg <;> decide

theorem ok_received : receive replyPickle
      [[0, 0, 0, 10], [0x53, 0x27, 0x4f], [0x4b, 0x27, 0x0a, 0x70, 0x30, 0x0a], [0x2e]] =
    .returned .ok [] :=
  (receive_send_iff replyPickle .ok ([0, 0, 0, 10] ++ Reply.ok.dumps) _ (by decide)
    ⟨by decide, by decide, by decide⟩).mpr (by decide)

/-- Two bytes of the header come first. -/
theorem cut_header_raises :
    ¬∀ (M : Type) (pickle : Pickle M) (msg : M) (stream : List UInt8) (chunks : List (List UInt8)),
      pickle.dumps msg ≠ [] → send pickle msg = .ok stream → Splits stream chunks →
      receive pickle chunks = .returned msg [] := by
  intro hAll
  have hReceived := hAll Reply replyPickle .ok ([0, 0, 0, 10] ++ Reply.ok.dumps)
    [[0, 0], [0, 10] ++ Reply.ok.dumps] (by decide) (by decide) ⟨by decide, by decide, by decide⟩
  exact absurd hReceived (by decide)

end MessageSocket

end TensorFlowOnSpark.Reservation
