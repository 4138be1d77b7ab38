import Xos.Ipc.Model
import Xos.Lib.Fifo
import Xos.Lib.Pool
import Xos.Scheduler.Ring

/-!
# A pipe is a bounded queue (`pipe.c`)

A queue of at most 4096 bytes. `pipe_write` appends what there is room for and drops the rest; the lengths that the
system calls report add up as long as nothing is dropped.
-/
namespace Xos.Ipc

open Lib Memory Scheduler Word Relation Outcome Function List Except Option

variable {s s' : State} {q : Nat}

namespace Pipe

def items (pipe : Pipe) : List Byte := circular pipe.buf pipeBufSize pipe.readPos pipe.count

def accepts (pipe : Pipe) (data : Nat → Byte) (len : Nat) : List Byte :=
  (range (min len (pipeBufSize - pipe.count))).map data

structure Sound (pipe : Pipe) : Prop where
  count : pipe.count ≤ pipeBufSize
  readPos : pipe.readPos < pipeBufSize
  writePos : pipe.writePos = (pipe.readPos + pipe.count) % pipeBufSize

variable {pipe : Pipe}

@[simp] theorem length_items : pipe.items.length = pipe.count := length_circular

/-- The loop of `pipe_write` appends the bytes from byte `i` on. -/
theorem Sound.store (sound : pipe.Sound) (data : Nat → Byte) (left i : Nat) : (pipe.store data left i).Sound ∧
    (pipe.store data left i).items = pipe.items ++ ((range' i left).map data).take (pipeBufSize - pipe.count) := by
  induction left generalizing pipe i with
  | zero => exact ⟨sound, by simp [Pipe.store]⟩
  | succ left ih =>
    rw [Pipe.store]
    split
    next full =>
      have none : pipeBufSize - pipe.count = 0 := Nat.sub_eq_zero_of_le full
      exact ⟨sound, by simp [none]⟩
    next room =>
      have room : pipe.count < pipeBufSize := Nat.lt_of_not_le room
      obtain ⟨count, readPos, writePos⟩ := sound
      have written : Sound { pipe with
          buf := update pipe.buf pipe.writePos (data i)
          writePos := (pipe.writePos + 1) % pipeBufSize
          count := pipe.count + 1 } := by
        refine ⟨room, readPos, ?_⟩
        simp only [writePos, Nat.mod_add_mod, Nat.add_assoc]
      obtain ⟨kept, items⟩ := ih written (i + 1)
      refine ⟨kept, items.trans ?_⟩
      -- the first byte is appended here, the others by the rest of the loop
      have left' : pipeBufSize - pipe.count = (pipeBufSize - (pipe.count + 1)) + 1 := by omega
      simp only [Pipe.items, writePos, circular_push room, left', range'_succ, map_cons, take_succ_cons,
        append_assoc, singleton_append]

theorem Sound.write (sound : pipe.Sound) (data : Nat → Byte) (len : Nat) :
    (pipe.store data len 0).Sound ∧ (pipe.store data len 0).items = pipe.items ++ pipe.accepts data len := by
  obtain ⟨kept, items⟩ := sound.store data len 0
  refine ⟨kept, items.trans ?_⟩
  rw [accepts, ← range_eq_range', ← map_take, take_range, Nat.min_comm]

theorem Sound.read (sound : pipe.Sound) (most : Nat) : (pipe.fetch most).1.Sound ∧ (pipe.fetch most).2 = pipe.items.take most ∧
      (pipe.fetch most).1.items = pipe.items.drop most := by
  induction most generalizing pipe with
  | zero => exact ⟨sound, by simp [fetch], by simp [fetch]⟩
  | succ most ih =>
    rw [fetch]
    split
    next empty =>
      have none : pipe.items = [] := by simp [items, empty]
      exact ⟨sound, by simp [none], by simp [none]⟩
    next some =>
      obtain ⟨count, readPos, writePos⟩ := sound
      obtain ⟨rest, counted⟩ := Nat.exists_eq_add_one_of_ne_zero some
      have taken : Sound { pipe with readPos := (pipe.readPos + 1) % pipeBufSize, count := pipe.count - 1 } := by
        refine ⟨by simp only; omega, Nat.mod_lt _ (by decide), ?_⟩
        simp only [writePos, counted, Nat.mod_add_mod]
        congr 1
        omega
      obtain ⟨kept, read, items⟩ := ih taken
      have front : pipe.items = pipe.buf pipe.readPos ::
          Pipe.items { pipe with readPos := (pipe.readPos + 1) % pipeBufSize, count := pipe.count - 1 } := by
        simp only [Pipe.items, counted, circular_pop, Nat.mod_eq_of_lt readPos, Nat.add_sub_cancel]
      refine ⟨kept, ?_, ?_⟩
      · rw [front, take_succ_cons, ← read]
      · rw [front, drop_succ_cons, ← items]

theorem store_listener (data : Nat → Byte) (left i : Nat) : (pipe.store data left i).listener = pipe.listener := by
  induction left generalizing pipe i with
  | zero => rfl
  | succ left ih =>
    rw [store]
    split
    · rfl
    · exact ih ..

theorem no_listener (silent : pipe.listener = 0) : { pipe with listener := 0 } = pipe := by
  rw [← silent]

theorem fetch_listener (most : Nat) : (pipe.fetch most).1.listener = pipe.listener := by
  induction most generalizing pipe with
  | zero => rfl
  | succ most ih =>
    rw [fetch]
    split
    · rfl
    · exact ih ..

end Pipe
theorem State.pipe_eq_ok {pipe : Pipe} : s.pipe q = .ok pipe ↔ s.pipes q = some pipe := by
  unfold State.pipe
  cases s.pipes q <;> simp

theorem State.taskSetReady_eq_ok {t : Nat} : s.taskSetReady t = .ok s' ↔
    ∃ k, Scheduler.taskSetReady s.kernel t = .ok k ∧ s' = s.withKernel k := by
  rw [State.taskSetReady, bind_eq_ok]
  simp only [pure_eq_ok, ok.injEq, eq_comm (a := s')]

theorem pipeWrite_ok {data : Nat → Byte} {len : Nat} (ret : pipeWrite s q data len = .ok s') :
    ∃ pipe k, s.pipes q = some pipe ∧ s' = (s.withKernel k).setPipe q { pipe.store data len 0 with listener := 0 } ∧
      (pipe.listener = 0 ∧ k = s.kernel ∨ Scheduler.taskSetReady s.kernel pipe.listener = .ok k) := by
  obtain ⟨pipe, found, ret⟩ := of_bind ret
  have found := State.pipe_eq_ok.mp found
  split at ret
  next listening =>
    obtain ⟨woken, wake, ret⟩ := of_bind ret
    obtain ⟨k, ready, rfl⟩ := State.taskSetReady_eq_ok.mp wake
    obtain ⟨pipe', found', ret⟩ := of_bind ret
    have same := State.pipe_eq_ok.mp found'
    simp only [State.withKernel_pipes, State.setPipe_pipes, update_self, some.injEq] at same
    refine ⟨pipe, k, found, ?_, .inr ready⟩
    rw [← ok.inj ret, ← same]
    simp [State.setPipe, State.withKernel]
  next silent =>
    have silent : pipe.listener = 0 := by simpa using silent
    refine ⟨pipe, s.kernel, found, ?_, .inl ⟨silent, rfl⟩⟩
    rw [← ok.inj ret]
    rw [Pipe.no_listener ((Pipe.store_listener data len 0).trans silent)]
    rfl

theorem pipeWrite_eq {pipe : Pipe} (found : s.pipes q = some pipe) (silent : pipe.listener = 0) (data : Nat → Byte) (len : Nat) :
    pipeWrite s q data len = .ok (s.setPipe q (pipe.store data len 0)) := by
  rw [pipeWrite, State.pipe_eq_ok.mpr found, ok_bind]
  rw [if_neg (not_not_intro silent)]
  rfl

theorem pipeRead_ok {most : Nat} {read : List Byte} (ret : pipeRead s q most = .ok (s', read)) :
    ∃ pipe, s.pipes q = some pipe ∧ read = (pipe.fetch most).2 ∧ s' = s.setPipe q (pipe.fetch most).1 := by
  obtain ⟨pipe, found, ret⟩ := of_bind ret
  obtain ⟨rfl, rfl⟩ := ok_inj ret
  exact ⟨pipe, State.pipe_eq_ok.mp found, rfl, rfl⟩

theorem pipeRead_eq {pipe : Pipe} (found : s.pipes q = some pipe) (most : Nat) :
    pipeRead s q most = .ok (s.setPipe q (pipe.fetch most).1, (pipe.fetch most).2) := by
  rw [pipeRead, State.pipe_eq_ok.mpr found, ok_bind]
  rfl

def Pipe.ring (pipe : Pipe) : Bytes × Nat × Nat × Nat := (pipe.buf, pipe.readPos, pipe.writePos, pipe.count)

structure PipeLedger where
  state : State
  accepted : List Byte
  returned : List Byte

/-- A call on the pipe at `q`, or anything else that leaves its queue alone. -/
inductive PipeStep (q : Nat) : PipeLedger → PipeLedger → Prop
  | write {l : PipeLedger} {s' : State} {pipe : Pipe} {data : Nat → Byte} {len : Nat} (found : l.state.pipes q = some pipe)
      (returned : pipeWrite l.state q data len = .ok s') :
      PipeStep q l ⟨s', l.accepted ++ pipe.accepts data len, l.returned⟩
  | read {l : PipeLedger} {s' : State} {most : Nat} {read : List Byte}
      (returned : pipeRead l.state q most = .ok (s', read)) : PipeStep q l ⟨s', l.accepted, l.returned ++ read⟩
  | other {l : PipeLedger} {s' : State} (same : (s'.pipes q).map Pipe.ring = (l.state.pipes q).map Pipe.ring) :
      PipeStep q l ⟨s', l.accepted, l.returned⟩

/-- The pipe at `q` is in a proper state and holds these bytes. -/
def State.Holds (s : State) (q : Nat) (items : List Byte) : Prop :=
  ∃ pipe, s.pipes q = some pipe ∧ pipe.Sound ∧ pipe.items = items

section Holds

variable {items : List Byte}

theorem State.Holds.congr (holds : s.Holds q items)
    (same : (s'.pipes q).map Pipe.ring = (s.pipes q).map Pipe.ring) : s'.Holds q items := by
  obtain ⟨pipe, found, ⟨count, readPos, writePos⟩, rfl⟩ := holds
  rw [found, map_some, map_eq_some_iff] at same
  obtain ⟨pipe', found', ring⟩ := same
  simp only [Pipe.ring, Prod.mk.injEq] at ring
  obtain ⟨buf, read, write, number⟩ := ring
  refine ⟨pipe', found', ⟨number ▸ count, read ▸ readPos, ?_⟩, ?_⟩
  · rw [write, read, number, writePos]
  · rw [Pipe.items, buf, read, number, Pipe.items]

theorem State.Holds.write {data : Nat → Byte} {len : Nat} {pipe : Pipe} (holds : s.Holds q items) (found : s.pipes q = some pipe)
    (ret : pipeWrite s q data len = .ok s') : s'.Holds q (items ++ pipe.accepts data len) := by
  obtain ⟨_, found', sound, rfl⟩ := holds
  obtain rfl := mem_unique found found'
  obtain ⟨_, k, found', rfl, -⟩ := pipeWrite_ok ret
  obtain rfl := mem_unique found found'
  obtain ⟨⟨count, readPos, writePos⟩, items⟩ := sound.write data len
  exact ⟨_, update_self .., ⟨count, readPos, writePos⟩, items⟩

theorem State.Holds.read {most : Nat} {read : List Byte} (holds : s.Holds q items)
    (ret : pipeRead s q most = .ok (s', read)) : read = items.take most ∧ s'.Holds q (items.drop most) := by
  obtain ⟨pipe, found, sound, rfl⟩ := holds
  obtain ⟨_, found', rfl, rfl⟩ := pipeRead_ok ret
  obtain rfl := mem_unique found found'
  obtain ⟨kept, taken, left⟩ := sound.read most
  exact ⟨taken, _, update_self .., kept, left⟩

theorem pipeCreate_pipe (s : State) (q : Nat) (buf : Bytes) : (pipeCreate s q buf).pipes q = some ⟨buf, 0, 0, 0, 1, 0⟩ :=
  update_self ..

theorem pipeCreate_holds (s : State) (q : Nat) (buf : Bytes) : (pipeCreate s q buf).Holds q [] :=
  ⟨_, pipeCreate_pipe s q buf, ⟨Nat.zero_le _, Nat.zero_lt_succ _, rfl⟩, rfl⟩

end Holds

def PipeLedger.Streams (l : PipeLedger) (q : Nat) : Prop :=
  ∃ stream : Stream Byte, stream.accepted = l.accepted ∧ stream.returned = l.returned ∧ l.state.Holds q stream.items

theorem PipeStep.streams {l l' : PipeLedger} (streams : l.Streams q) (step : PipeStep q l l') : l'.Streams q := by
  obtain ⟨stream, accepted, ret, holds⟩ := streams
  cases step with
  | @write s' pipe data len found written =>
    have room : pipe.accepts data len = ((range len).map data).take (pipeBufSize - stream.items.length) := by
      obtain ⟨_, found', -, same⟩ := holds
      obtain rfl := mem_unique found found'
      rw [← same, Pipe.length_items, Pipe.accepts, ← map_take, take_range, Nat.min_comm]
    refine ⟨stream.write pipeBufSize ((range len).map data), ?_, ret, ?_⟩
    · simp only [Stream.write, accepted, room]
    · simp only [Stream.write, ← room]
      exact holds.write found written
  | @read s' most read fetched =>
    obtain ⟨rfl, left⟩ := holds.read fetched
    refine ⟨stream.read most, accepted, ?_, left⟩
    simp only [Stream.read, ret]
  | other same => exact ⟨stream, accepted, ret, holds.congr same⟩

/-- In every run from the creation of a pipe on, the bytes returned so far and behind them the bytes
in the buffer are the accepted bytes of all writes. -/
theorem pipe_is_bounded_fifo (s : State) (q : Nat) (buf : Bytes) (l : PipeLedger)
    (run : ReflTransGen (PipeStep q) ⟨pipeCreate s q buf, [], []⟩ l) :
    ∃ pipe, l.state.pipes q = some pipe ∧ l.returned ++ pipe.items = l.accepted ∧ pipe.count ≤ pipeBufSize ∧
      pipe.writePos = (pipe.readPos + pipe.count) % pipeBufSize := by
  have start : PipeLedger.Streams ⟨pipeCreate s q buf, [], []⟩ q := ⟨⟨[], [], [], rfl⟩, rfl, rfl, pipeCreate_holds s q buf⟩
  obtain ⟨stream, accepted, returned, pipe, found, sound, items⟩ :=
    invariant_of_run (fun l => l.Streams q) (fun _ _ streams step => step.streams streams) run start
  refine ⟨pipe, found, ?_, sound.count, sound.writePos⟩
  rw [← accepted, ← returned, items, stream.balance]

def emptyState : State where
  kernel := emptyKernel
  pipes := fun _ => none
  ends := fun _ _ => 0
  servers := fun _ => ⟨0, 0, fun _ => 0, 0, 0, 0⟩

/-- Three bytes are written and two are read. -/
theorem third_byte_buffered : ∃ l, ReflTransGen (PipeStep 0x100) ⟨pipeCreate emptyState 0x100 fun _ => 0, [], []⟩ l ∧
    l.accepted = [1, 2, 3] ∧ l.returned = [1, 2] ∧ ∃ pipe, l.state.pipes 0x100 = some pipe ∧ pipe.items = [3] := by
  have returns : ∃ s, pipeWrite (pipeCreate emptyState 0x100 fun _ => 0) 0x100 (fun i => BitVec.ofNat 8 (i + 1)) 3 = .ok s ∧
      ∃ s', pipeRead s 0x100 2 = .ok (s', [1, 2]) := ⟨_, rfl, _, rfl⟩
  obtain ⟨s, written, s', read⟩ := returns
  have steps : ReflTransGen (PipeStep 0x100) ⟨pipeCreate emptyState 0x100 fun _ => 0, [], []⟩ ⟨s', [1, 2, 3], [1, 2]⟩ :=
    .tail (.single (.write rfl written)) (.read read)
  obtain ⟨pipe, found, balance, -, -⟩ := pipe_is_bounded_fifo emptyState 0x100 (fun _ => 0) _ steps
  have items : pipe.items = [3] := by simpa using balance
  exact ⟨_, steps, rfl, rfl, pipe, found, items⟩

theorem State.block_ok (ret : s.block = .ok s') : ∃ k mid, taskSetBlocked s.kernel s.kernel.currentTask = .ok mid ∧
    schedule mid = .ok k ∧ s' = s.withKernel k := by
  obtain ⟨mid, k, blocked, scheduled, ret⟩ := of_bind₂ ret
  exact ⟨k, mid, blocked, scheduled, (ok.inj ret).symm⟩

theorem sysWriteFd_ok {fd len : Nat} {data : Nat → Byte} {res : Option Nat}
    (handle : pipeHandle s .pipeWrite fd = .ok (some q)) (ret : sysWriteFd s fd data len = .ok (s', res)) :
    res = some len ∧ pipeWrite s q data (u32 len) = .ok s' := by
  rw [sysWriteFd, handle, ok_bind] at ret
  obtain ⟨after, written, ret⟩ := of_bind ret
  obtain ⟨rfl, rfl⟩ := ok_inj ret
  exact ⟨rfl, written⟩

theorem sysWriteFd_eq {fd len : Nat} {data : Nat → Byte} (handle : pipeHandle s .pipeWrite fd = .ok (some q))
    (written : pipeWrite s q data (u32 len) = .ok s') : sysWriteFd s fd data len = .ok (s', some len) := by
  rw [sysWriteFd, handle, ok_bind]
  dsimp only
  rw [written, ok_bind]
  rfl

theorem sysReadFd_ok {fd len : Nat} {res : Progress (Option (List Byte))}
    (handle : pipeHandle s .pipeRead fd = .ok (some q)) (ret : sysReadFd s fd len = .ok (s', res)) :
    ∃ mid read, pipeRead s q (u32 len) = .ok (mid, read) ∧
      (s' = mid ∧ res = .returned (some read) ∨
        read = [] ∧ res = .blocked ∧ ∃ listening, pipeAddListener mid q mid.kernel.currentTask = .ok (listening, true) ∧
          listening.block = .ok s') := by
  rw [sysReadFd, handle, ok_bind] at ret
  obtain ⟨⟨mid, read⟩, fetched, ret⟩ := of_bind ret
  refine ⟨mid, read, fetched, ?_⟩
  dsimp only at ret
  split at ret
  next some =>
    obtain ⟨rfl, rfl⟩ := ok_inj ret
    exact .inl ⟨rfl, rfl⟩
  next none =>
    have none : read = [] := by simpa using none
    obtain ⟨⟨after, listening⟩, registered, ret⟩ := of_bind ret
    cases listening with
    | false =>
      obtain ⟨rfl, rfl⟩ := ok_inj ret
      -- the slot of the listener is taken, so nothing is written
      obtain ⟨pipe, -, registered⟩ := of_bind registered
      split at registered
      · obtain ⟨rfl, -⟩ := ok_inj registered
        exact .inl ⟨rfl, by rw [none]⟩
      · cases (ok_inj registered).2
    | true =>
      obtain ⟨final, blocked, ret⟩ := of_bind ret
      obtain ⟨rfl, rfl⟩ := ok_inj ret
      exact .inr ⟨none, rfl, after, registered, blocked⟩

theorem pipeAddListener_ring {t : Nat} {added : Bool} (ret : pipeAddListener s q t = .ok (s', added)) (r : Nat) :
    (s'.pipes r).map Pipe.ring = (s.pipes r).map Pipe.ring := by
  obtain ⟨pipe, found, ret⟩ := of_bind ret
  split at ret
  · obtain ⟨rfl, -⟩ := ok_inj ret
    rfl
  · obtain ⟨rfl, -⟩ := ok_inj ret
    by_cases here : r = q
    · simp [here, State.pipe_eq_ok.mp found, Pipe.ring]
    · simp [here]

/-- The state, the sums of the lengths that writes and reads have returned, and whether a write asked
for more than there was room for. -/
structure LengthLedger where
  state : State
  written : Nat
  read : Nat
  cut : Bool

/-- A system call on the pipe at `q`, by any task with a handle for it. A read that blocks goes on with
`resume`. -/
inductive LengthStep (q : Nat) : LengthLedger → LengthLedger → Prop
  | write {l : LengthLedger} {s' : State} {pipe : Pipe} {fd len result : Nat} {data : Nat → Byte}
      (handle : pipeHandle l.state .pipeWrite fd = .ok (some q)) (found : l.state.pipes q = some pipe)
      (returned : sysWriteFd l.state fd data len = .ok (s', some result)) :
      LengthStep q l ⟨s', l.written + result, l.read, l.cut || decide (pipeBufSize - pipe.count < len)⟩
  | read {l : LengthLedger} {s' : State} {fd len : Nat} {read : List Byte}
      (handle : pipeHandle l.state .pipeRead fd = .ok (some q))
      (returned : sysReadFd l.state fd len = .ok (s', .returned (some read))) :
      LengthStep q l ⟨s', l.written, l.read + read.length, l.cut⟩
  | block {l : LengthLedger} {s' : State} {fd len : Nat} (handle : pipeHandle l.state .pipeRead fd = .ok (some q))
      (returned : sysReadFd l.state fd len = .ok (s', .blocked)) : LengthStep q l ⟨s', l.written, l.read, l.cut⟩
  | resume {l : LengthLedger} {s' : State} {len : Nat} {read : List Byte}
      (returned : pipeRead l.state q (u32 len) = .ok (s', read)) :
      LengthStep q l ⟨s', l.written, l.read + read.length, l.cut⟩
  | other {l : LengthLedger} {s' : State} (same : (s'.pipes q).map Pipe.ring = (l.state.pipes q).map Pipe.ring) :
      LengthStep q l ⟨s', l.written, l.read, l.cut⟩

/-- What the writes have returned beyond what the reads have returned and the buffer holds has been
dropped, and something has been dropped just when a write did not fit. -/
def LengthLedger.Balanced (l : LengthLedger) (q : Nat) : Prop :=
  ∃ items dropped, l.state.Holds q items ∧ l.written = l.read + items.length + dropped ∧ (dropped = 0 ↔ l.cut = false)

private theorem Balanced.read {l : LengthLedger} {most : Nat} {read : List Byte} (balanced : l.Balanced q)
    (fetched : pipeRead l.state q most = .ok (s', read)) : LengthLedger.Balanced ⟨s', l.written, l.read + read.length, l.cut⟩ q := by
  obtain ⟨items, dropped, holds, sum, cut⟩ := balanced
  obtain ⟨rfl, left⟩ := holds.read fetched
  refine ⟨_, dropped, left, ?_, cut⟩
  simp only [sum, length_take, length_drop]
  omega

private theorem LengthStep.balanced {l l' : LengthLedger} (balanced : l.Balanced q) (step : LengthStep q l l') : l'.Balanced q := by
  cases step with
  | @write s' pipe fd len res data handle found ret =>
    obtain ⟨items, dropped, holds, sum, cut⟩ := balanced
    obtain ⟨same, written⟩ := sysWriteFd_ok handle ret
    obtain rfl := some.inj same
    have accepted : (pipe.accepts data (u32 res)).length = min (u32 res) (pipeBufSize - pipe.count) := by
      simp [Pipe.accepts]
    -- what is accepted is the whole length just when that fits
    have fits : min (u32 res) (pipeBufSize - pipe.count) ≤ res ∧
        (min (u32 res) (pipeBufSize - pipe.count) = res ↔ res ≤ pipeBufSize - pipe.count) := by
      unfold u32 pipeBufSize
      omega
    refine ⟨_, dropped + (res - min (u32 res) (pipeBufSize - pipe.count)), holds.write found written, ?_, ?_⟩
    · simp only [sum, length_append, accepted]
      omega
    · simp only [Bool.or_eq_false_iff, ← cut, decide_eq_false_iff_not]
      omega
  | read handle ret =>
    obtain ⟨mid, read, fetched, outcome⟩ := sysReadFd_ok handle ret
    rcases outcome with ⟨rfl, same⟩ | ⟨-, same, -⟩
    · obtain rfl := some.inj (Progress.returned.inj same)
      exact Balanced.read balanced fetched
    · cases same
  | block handle ret =>
    obtain ⟨mid, read, fetched, outcome⟩ := sysReadFd_ok handle ret
    rcases outcome with ⟨-, same⟩ | ⟨rfl, -, listening, registered, blocked⟩
    · cases same
    · obtain ⟨items, dropped, holds, sum, cut⟩ := Balanced.read balanced fetched
      obtain ⟨k, -, -, -, rfl⟩ := State.block_ok blocked
      exact ⟨items, dropped, holds.congr (pipeAddListener_ring registered q), sum, cut⟩
  | resume ret => exact Balanced.read balanced ret
  | other same =>
    obtain ⟨items, dropped, holds, sum, cut⟩ := balanced
    exact ⟨items, dropped, holds.congr same, sum, cut⟩

/-- In every run from the creation of a pipe on, the lengths add up just when no write asked for more
than there was room for. -/
theorem lengths_add_up_iff (s : State) (q : Nat) (buf : Bytes) (l : LengthLedger)
    (run : ReflTransGen (LengthStep q) ⟨pipeCreate s q buf, 0, 0, false⟩ l) :
    ∃ pipe, l.state.pipes q = some pipe ∧ (l.written = l.read + pipe.count ↔ l.cut = false) := by
  have start : LengthLedger.Balanced ⟨pipeCreate s q buf, 0, 0, false⟩ q :=
    ⟨[], 0, pipeCreate_holds s q buf, rfl, ⟨fun _ => rfl, fun _ => rfl⟩⟩
  obtain ⟨items, dropped, ⟨pipe, found, -, rfl⟩, sum, cut⟩ :=
    invariant_of_run (fun l => l.Balanced q) (fun _ _ balanced step => step.balanced balanced) run start
  refine ⟨pipe, found, ?_⟩
  rw [← cut, sum, Pipe.length_items]
  omega

/-- A process with the two ends of the pipe at 0x100. -/
def pipeOwner : State :=
  let handles (i : Nat) : HandleEntry := if i = 0 then ⟨.pipeRead, 0x100⟩ else if i = 1 then ⟨.pipeWrite, 0x100⟩ else ⟨.none, 0⟩
  let kernel := (emptyKernel.setProcess 0x10 { plainProcess 1 0x20 with handles := handles }).setTask 0x20 (plainTask 1 0x10)
  emptyState.withKernel { kernel with currentTask := 0x20 }

theorem pipeOwner_writes (len : Nat) : ∃ s' pipe, s'.pipes 0x100 = some pipe ∧
    pipe.count = min (u32 len) pipeBufSize ∧ LengthStep 0x100 ⟨pipeCreate pipeOwner 0x100 fun _ => 0, 0, 0, false⟩
      ⟨s', len, 0, decide (pipeBufSize < len)⟩ := by
  have handle : pipeHandle (pipeCreate pipeOwner 0x100 fun _ => 0) .pipeWrite 1 = .ok (some 0x100) := by decide +kernel
  have created : (pipeCreate pipeOwner 0x100 fun _ => 0).pipes 0x100 = some _ := pipeCreate_pipe ..
  have written := pipeWrite_eq created rfl (fun _ => 7) (u32 len)
  obtain ⟨pipe, found, -, items⟩ := (pipeCreate_holds pipeOwner 0x100 fun _ => 0).write created written
  refine ⟨_, pipe, found, ?_, ?_⟩
  · rw [← Pipe.length_items, items]
    simp [Pipe.accepts]
  · have step := LengthStep.write (l := ⟨pipeCreate pipeOwner 0x100 fun _ => 0, 0, 0, false⟩) handle created
      (sysWriteFd_eq handle written)
    simpa using step

/-- A write of 4097 bytes on a new pipe returns 4097, and 4096 bytes are there to be read. -/
theorem full_ring_overreported : ∃ l, ReflTransGen (LengthStep 0x100) ⟨pipeCreate pipeOwner 0x100 fun _ => 0, 0, 0, false⟩ l ∧
    ∃ pipe, l.state.pipes 0x100 = some pipe ∧ l.written ≠ l.read + pipe.count := by
  obtain ⟨s', pipe, found, count, step⟩ := pipeOwner_writes 4097
  refine ⟨_, .single step, pipe, found, ?_⟩
  rw [count, u32_of_lt (by decide)]
  simp [pipeBufSize]

/-- A write of 4096 bytes fits. -/
theorem whole_ring_reported : ∃ l, ReflTransGen (LengthStep 0x100) ⟨pipeCreate pipeOwner 0x100 fun _ => 0, 0, 0, false⟩ l ∧
    l.written = 4096 ∧ ∃ pipe, l.state.pipes 0x100 = some pipe ∧ l.written = l.read + pipe.count := by
  obtain ⟨s', -, -, -, step⟩ := pipeOwner_writes 4096
  obtain ⟨pipe, found, adds⟩ := lengths_add_up_iff pipeOwner 0x100 (fun _ => 0) _ (.single step)
  exact ⟨_, .single step, rfl, pipe, found, adds.mpr rfl⟩

end Xos.Ipc
