import Xos.Ipc.Channel

/-!
# Messages on a channel

Both sides send and receive messages of one size. When it does not divide the size of the buffer, a full pipe ends in a
piece of a message.
-/
namespace Xos.Ipc

open Lib Scheduler Relation List Received

variable {s s' : State} {c n : Nat} {side : Fin 2}

def Received.whole (n : Nat) : Received → List (List Byte)
  | .bytes read => if read.length = n then [read] else []
  | .closed => []

structure FrameLedger where
  state : State
  sent : List (List Byte)
  got : List (List Byte)

/-- A send of `n` bytes by the end `side` of the channel at `c`, a receive of `n` bytes by the other end,
or anything else that leaves this direction alone. -/
inductive FrameStep (c : Nat) (side : Fin 2) (n : Nat) : FrameLedger → FrameLedger → Prop
  | send {l : FrameLedger} {s' : State} {h : Int} {data : Nat → Byte} (endpoint : l.state.Endpoint h c side)
      (returned : channelSend l.state h data n = .ok s') :
      FrameStep c side n l ⟨s', l.sent ++ [(List.range n).map data], l.got⟩
  | recv {l : FrameLedger} {s' : State} {h : Int} {received : Received} (endpoint : l.state.Endpoint h c (peer side))
      (returned : channelRecv l.state h n = .ok (s', received)) :
      FrameStep c side n l ⟨s', l.sent, l.got ++ received.whole n⟩
  | other {l : FrameLedger} {s' : State} (ends : s'.ends c side = l.state.ends c side)
      (same : (s'.pipes (l.state.ends c side)).map Pipe.ring = (l.state.pipes (l.state.ends c side)).map Pipe.ring) :
      FrameStep c side n l ⟨s', l.sent, l.got⟩

theorem toUint_natCast (small : n < 2 ^ 32) : toUint n = n := by
  simp only [toUint]
  omega

/-- A send of `n` bytes puts as much of the message into the pipe as there is room for. -/
theorem send_holds {h : Int} {data : Nat → Byte} {items : List Byte} (small : n < 2 ^ 32)
    (holds : s.Holds (s.ends c side) items) (endpoint : s.Endpoint h c side) (ret : channelSend s h data n = .ok s') :
    s'.Holds (s'.ends c side) (items ++ ((List.range n).map data).take (pipeBufSize - items.length)) := by
  obtain ⟨same, mid, written, pipes⟩ := channelSend_ok endpoint ret
  obtain ⟨pipe, found, sound, rfl⟩ := holds
  have held : s.Holds (s.ends c side) pipe.items := ⟨pipe, found, sound, rfl⟩
  rw [same.ends]
  apply ((held.write found written).congr (by rw [pipes])).imp
  rw [Pipe.length_items, ← map_take, take_range, Nat.min_comm, toUint_natCast small]
  exact fun _ => id

/-- A receive of `n` bytes takes them from the front of the pipe, or it is told that the peer has closed. -/
theorem recv_holds {h : Int} {received : Received} {items : List Byte} (small : n < 2 ^ 32)
    (holds : s.Holds (s.ends c side) items) (endpoint : s.Endpoint h c (peer side)) (ret : channelRecv s h n = .ok (s', received)) :
    s' = s ∧ received = .closed ∨ received = .bytes (items.take n) ∧ s'.Holds (s'.ends c side) (items.drop n) := by
  obtain ⟨channel, -, ⟨-, rfl, rfl⟩ | ⟨-, read, rfl, fetched⟩⟩ := channelRecv_ok endpoint ret
  · exact .inl ⟨rfl, rfl⟩
  · rw [peer_peer, toUint_natCast small] at fetched
    obtain ⟨rfl, left⟩ := holds.read fetched
    obtain ⟨pipe, -, -, rfl⟩ := pipeRead_ok fetched
    exact .inr ⟨rfl, left⟩

section Whole

variable {l l' : FrameLedger}

/-- The pipe holds whole messages, which are the ones sent and not received, but for those that were
dropped as a whole. -/
def FrameLedger.Framed (l : FrameLedger) (c : Nat) (side : Fin 2) (n : Nat) : Prop :=
  ∃ queue : List (List Byte), l.state.Holds (l.state.ends c side) queue.flatten ∧ (∀ m ∈ queue, m.length = n) ∧
    (l.got ++ queue).Sublist l.sent

theorem length_flatten_of_size {queue : List (List Byte)} (size : ∀ m ∈ queue, m.length = n) :
    queue.flatten.length = n * queue.length := by
  induction queue with
  | nil => simp
  | cons m rest ih =>
    simp only [forall_mem_cons] at size
    simp only [flatten_cons, length_append, length_cons, size.1, ih size.2]
    rw [Nat.mul_succ, Nat.add_comm]

theorem room_of_dvd {queue : List (List Byte)} (divides : n ∣ pipeBufSize) (size : ∀ m ∈ queue, m.length = n) :
    pipeBufSize - queue.flatten.length = 0 ∨ n ≤ pipeBufSize - queue.flatten.length := by
  have multiple : n ∣ pipeBufSize - queue.flatten.length := by
    rw [length_flatten_of_size size]
    exact Nat.dvd_sub divides (Nat.dvd_mul_right ..)
  rcases Nat.eq_zero_or_pos (pipeBufSize - queue.flatten.length) with none | some
  · exact .inl none
  · exact .inr (Nat.le_of_dvd some multiple)

theorem FrameStep.framed (pos : 1 ≤ n) (small : n < 2 ^ 32) (divides : n ∣ pipeBufSize) (framed : l.Framed c side n)
    (step : FrameStep c side n l l') : l'.Framed c side n := by
  obtain ⟨queue, holds, size, order⟩ := framed
  cases step with
  | @send s' h data endpoint ret =>
    have after := send_holds small holds endpoint ret
    rcases room_of_dvd divides size with none | room
    · -- the message is dropped
      rw [none, take_zero, append_nil] at after
      exact ⟨queue, after, size, order.trans (sublist_append_left ..)⟩
    · rw [take_of_length_le (by simpa using room)] at after
      refine ⟨queue ++ [(List.range n).map data], by simpa using after, ?_, ?_⟩
      · simpa [or_imp, forall_and] using size
      · rw [← append_assoc]
        exact order.append_right _
  | recv endpoint ret =>
    rcases recv_holds small holds endpoint ret with ⟨rfl, rfl⟩ | ⟨rfl, after⟩
    · exact ⟨queue, holds, size, by simpa [whole] using order⟩
    · cases queue with
      | nil =>
        -- nothing is returned, which is no message
        have short : ¬0 = n := by omega
        refine ⟨[], by simpa using after, size, ?_⟩
        simpa [whole, short] using order
      | cons m rest =>
        simp only [forall_mem_cons] at size
        refine ⟨rest, ?_, size.2, ?_⟩
        · simpa [drop_append, ← size.1] using after
        · simpa [whole, take_append, ← size.1] using order
  | other ends same =>
    refine ⟨queue, ?_, size, order⟩
    rw [ends]
    exact holds.congr same

theorem FrameStep.none_got (small : n < 2 ^ 32) (large : pipeBufSize < n)
    (kept : (∃ items, l.state.Holds (l.state.ends c side) items) ∧ l.got = []) (step : FrameStep c side n l l') :
    (∃ items, l'.state.Holds (l'.state.ends c side) items) ∧ l'.got = [] := by
  obtain ⟨⟨items, holds⟩, none⟩ := kept
  cases step with
  | send endpoint ret => exact ⟨⟨_, send_holds small holds endpoint ret⟩, none⟩
  | recv endpoint ret =>
    rcases recv_holds small holds endpoint ret with ⟨rfl, rfl⟩ | ⟨rfl, after⟩
    · exact ⟨⟨items, holds⟩, by simpa [whole] using none⟩
    · obtain ⟨pipe, -, sound, rfl⟩ := holds
      have short : ¬min n pipe.count = n := by
        have := sound.count
        omega
      exact ⟨⟨_, after⟩, by simpa [whole, short] using none⟩
  | other ends same =>
    rw [ends]
    exact ⟨⟨items, holds.congr same⟩, none⟩

end Whole

section Torn

def Reaches (n : Nat) (pipe : Pipe) (sent got : List (List Byte)) : Prop :=
  ReflTransGen (FrameStep 0x60 clientEnd n) ⟨talkers 0x20 false emptyPipe, [], []⟩ ⟨talkers 0x20 false pipe, sent, got⟩ ∧
    pipe.listener = 0 ∧ pipe.Sound

variable {pipe : Pipe} {sent got : List (List Byte)}

private theorem Reaches.send (small : n < 2 ^ 32) (reaches : Reaches n pipe sent got) (b : Byte) :
    ∃ pipe', Reaches n pipe' (sent ++ [List.replicate n b]) got ∧
      pipe'.items = pipe.items ++ List.replicate (min n (pipeBufSize - pipe.count)) b := by
  obtain ⟨run, silent, sound⟩ := reaches
  have step : FrameStep 0x60 clientEnd n ⟨talkers 0x20 false pipe, sent, got⟩
      ⟨talkers 0x20 false (pipe.store (fun _ => b) (toUint n) 0), sent ++ [(List.range n).map fun _ => b], got⟩ :=
    .send talkers_client (talkers_send silent (fun _ => b) n)
  obtain ⟨kept, items⟩ := sound.write (fun _ => b) (toUint n)
  rw [toUint_natCast small] at step kept items
  refine ⟨_, ⟨run.tail ?_, (Pipe.store_listener ..).trans silent, kept⟩, items.trans ?_⟩
  · simpa using step
  · simp [Pipe.accepts]

private theorem Reaches.recv (small : n < 2 ^ 32) (reaches : Reaches n pipe sent got) :
    ∃ pipe', Reaches n pipe' sent (got ++ (bytes (pipe.items.take n)).whole n) ∧ pipe'.items = pipe.items.drop n := by
  obtain ⟨run, silent, sound⟩ := reaches
  have step : FrameStep 0x60 clientEnd n ⟨talkers 0x50 false pipe, sent, got⟩
      ⟨talkers 0x50 false (pipe.fetch (toUint n)).1, sent, got ++ (bytes (pipe.fetch (toUint n)).2).whole n⟩ :=
    .recv talkers_server (talkers_recv n)
  obtain ⟨kept, taken, items⟩ := sound.read (toUint n)
  rw [taken] at step
  rw [toUint_natCast small] at step kept items
  -- the server runs for one receive
  refine ⟨_, ⟨((run.tail ?_).tail step).tail ?_, (Pipe.fetch_listener ..).trans silent, kept⟩, items⟩
  · exact .other rfl rfl
  · exact .other rfl rfl

theorem reaches_zeros (small : n < 2 ^ 32) (i : Nat) : ∃ pipe, Reaches n pipe (List.replicate i (List.replicate n 0)) [] ∧
    pipe.items = List.replicate (min (n * i) pipeBufSize) 0 := by
  induction i with
  | zero => exact ⟨emptyPipe, ⟨.refl, rfl, emptyPipe_sound⟩, rfl⟩
  | succ i ih =>
    obtain ⟨pipe, reaches, items⟩ := ih
    obtain ⟨pipe', reaches', items'⟩ := reaches.send small 0
    refine ⟨pipe', by simpa [replicate_succ'] using reaches', ?_⟩
    have count : pipe.count = min (n * i) pipeBufSize := by
      rw [← Pipe.length_items, items, length_replicate]
    rw [items', items, count, ← replicate_add, Nat.mul_succ]
    congr 1
    omega

theorem Reaches.recvs (small : n < 2 ^ 32) {held : Nat} (reaches : Reaches n pipe sent got)
    (items : pipe.items = List.replicate held 0) (j : Nat) :
    ∃ pipe' got', Reaches n pipe' sent got' ∧ pipe'.items = List.replicate (held - n * j) 0 := by
  induction j with
  | zero => exact ⟨pipe, got, reaches, items⟩
  | succ j ih =>
    obtain ⟨pipe', got', reaches', items'⟩ := ih
    obtain ⟨pipe'', reaches'', items''⟩ := reaches'.recv small
    refine ⟨pipe'', _, reaches'', ?_⟩
    rw [items'', items', drop_replicate, Nat.mul_succ, Nat.sub_add_eq]

/-- The client sends messages of zeros until the pipe ends in a piece of one, the server takes the whole
ones, and the next message is taken for the rest of the piece. -/
theorem torn_message (pos : 1 ≤ n) (small : n ≤ pipeBufSize) (odd : ¬n ∣ pipeBufSize) :
    ∃ l, ReflTransGen (FrameStep 0x60 clientEnd n) ⟨talkers 0x20 false emptyPipe, [], []⟩ l ∧ ¬l.got.Sublist l.sent := by
  have int : n < 2 ^ 32 := Nat.lt_of_le_of_lt small (by decide)
  have shorter : pipeBufSize % n < n := Nat.mod_lt _ pos
  have parts := Nat.div_add_mod pipeBufSize n
  obtain ⟨full, reaches, items⟩ := reaches_zeros int (pipeBufSize / n + 1)
  rw [Nat.mul_succ, Nat.min_eq_right (by omega)] at items
  obtain ⟨rest, got, reaches, items⟩ := reaches.recvs int items (pipeBufSize / n)
  rw [Nat.sub_eq_of_eq_add (by omega : pipeBufSize = pipeBufSize % n + n * (pipeBufSize / n))] at items
  -- there is room for the next message behind the piece
  have count : rest.count = pipeBufSize % n := by
    rw [← Pipe.length_items, items, length_replicate]
  have room : n ≤ pipeBufSize - rest.count := by
    have once : n * 1 ≤ n * (pipeBufSize / n) := Nat.mul_le_mul_left n (Nat.div_pos small pos)
    omega
  obtain ⟨behind, reaches, items'⟩ := reaches.send int 1
  rw [items, Nat.min_eq_left room] at items'
  obtain ⟨last, reaches, -⟩ := reaches.recv int
  have mixed : behind.items.take n = List.replicate (pipeBufSize % n) 0 ++ List.replicate (n - pipeBufSize % n) 1 := by
    rw [items', take_append, length_replicate, take_replicate, take_replicate,
      Nat.min_eq_right shorter.le, Nat.min_eq_left (Nat.sub_le ..)]
  have whole : (bytes (behind.items.take n)).whole n = [behind.items.take n] := by
    have size : (behind.items.take n).length = n := by
      rw [mixed, length_append, length_replicate, length_replicate]
      omega
    rw [whole, if_pos size]
  refine ⟨_, reaches.1, fun order => ?_⟩
  rw [whole] at order
  have sent := order.subset (mem_append_right _ (mem_singleton_self _))
  have zero : (0 : Byte) ∈ behind.items.take n := by
    rw [mixed]
    exact mem_append_left _ (mem_replicate.mpr ⟨by omega, rfl⟩)
  have one : (1 : Byte) ∈ behind.items.take n := by
    rw [mixed]
    exact mem_append_right _ (mem_replicate.mpr ⟨by omega, rfl⟩)
  -- every message that was sent is made of one byte
  rcases mem_append.mp sent with zeros | ones
  · rw [eq_of_mem_replicate zeros] at one
    exact absurd (eq_of_mem_replicate one) (by decide)
  · rw [mem_singleton.mp ones] at zero
    exact absurd (eq_of_mem_replicate zero) (by decide)

end Torn

/-- Messages of a size arrive whole and in order in every run just when the size divides that of the
buffer, or no message fits into it and none is ever returned. A size is an `int`. -/
theorem messages_whole_iff (n : Nat) (positive : 1 ≤ n) (int : n < 2 ^ 31) :
    (∀ (s : State) (c : Nat) (side : Fin 2) (l : FrameLedger), s.Holds (s.ends c side) [] →
      ReflTransGen (FrameStep c side n) ⟨s, [], []⟩ l → l.got.Sublist l.sent) ↔ n ∣ pipeBufSize ∨ pipeBufSize < n := by
  have small : n < 2 ^ 32 := int.trans (by decide)
  constructor
  · intro whole
    by_contra neither
    simp only [not_or, Nat.not_lt] at neither
    obtain ⟨l, run, torn⟩ := torn_message positive neither.2 neither.1
    exact torn (whole _ _ _ l (talkers_accepted.pipes clientEnd) run)
  · rintro (divides | large) s c side l empty run
    · have start : FrameLedger.Framed ⟨s, [], []⟩ c side n := ⟨[], empty, by simp, by simp⟩
      obtain ⟨queue, -, -, order⟩ := invariant_of_run (fun l => l.Framed c side n)
        (fun _ _ framed step => step.framed positive small divides framed) run start
      exact (sublist_append_left ..).trans order
    · have none := (invariant_of_run (fun l : FrameLedger => (∃ items, l.state.Holds (l.state.ends c side) items) ∧ l.got = [])
        (fun _ _ kept step => step.none_got small large kept) run ⟨⟨[], empty⟩, rfl⟩).2
      rw [none]
      exact nil_sublist _

/-- The size of a `window_event` is 24, which does not divide 4096. -/
theorem window_event_torn : ∃ l, ReflTransGen (FrameStep 0x60 clientEnd 24) ⟨talkers 0x20 false emptyPipe, [], []⟩ l ∧
    ¬l.got.Sublist l.sent :=
  torn_message (by decide) (by decide) (by decide)

/-- A message of 8 bytes arrives whole. -/
theorem eight_bytes_whole : ∃ l, ReflTransGen (FrameStep 0x60 clientEnd 8) ⟨talkers 0x20 false emptyPipe, [], []⟩ l ∧
    l.got = [List.replicate 8 0] ∧ l.got.Sublist l.sent := by
  have whole := (messages_whole_iff 8 (by decide) (by decide)).mpr (.inl (by decide))
  obtain ⟨one, sends, items⟩ := reaches_zeros (n := 8) (by decide) 1
  obtain ⟨last, receives, -⟩ := sends.recv (by decide)
  have message : (bytes (one.items.take 8)).whole 8 = [List.replicate 8 0] := by
    rw [items]
    decide
  refine ⟨_, receives.1, message, ?_⟩
  exact whole _ 0x60 clientEnd _ (talkers_accepted.pipes clientEnd) receives.1

end Xos.Ipc
