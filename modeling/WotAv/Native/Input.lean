import WotAv.Lib.Transition
import WotAv.Media.IpcLaws

/-!
# The worker's command input (`native-media/src/ipc.c`)

`media_input_read` hands on the command at the front of a buffer of fixed
size, or reads from the pipe into what is left of it. The buffer holds what
follows the commands handed on, and then zeros; when it is full there is a
whole command in it.
-/

namespace WotAv.Native

open WotAv.Lib WotAv.Media
open WotAv.Media.IpcFrameDecoder (headerOf headerOf_fields Encodes encode_ok length_headerOf)

/-- `sizeof(input->bytes)`. -/
def INPUT_BYTES : Nat := MEDIA_HEADER_BYTES + MEDIA_CONTROL_MAX

structure MediaInput where
  bytes : Bytes := List.replicate INPUT_BYTES 0
  length : Nat := 0
  incompleteSince : Int := 0

/-- What `PeekNamedPipe` finds. -/
inductive Peek
  | available (bytes : Nat)
  | broken
  | failed

/-- What `media_input_read` returns: 1 with the command, 0, -1 or -2. -/
inductive InputResult
  | command (frame : IpcFrame)
  | nothing
  | ended
  | invalid

def store (offset : Nat) (block memory : Bytes) : Bytes :=
  memory.take offset ++ block ++ memory.drop (offset + block.length)

namespace MediaInput

def total (input : MediaInput) : Nat := MEDIA_HEADER_BYTES + readBE 4 20 input.bytes

def complete (input : MediaInput) : Prop := MEDIA_HEADER_BYTES ≤ input.length ∧ input.total ≤ input.length

instance (input : MediaInput) : Decidable input.complete := inferInstanceAs (Decidable (_ ∧ _))

def take (now : Int) (input : MediaInput) : MediaInput × InputResult :=
  let head := input.bytes
  let left := input.length - input.total
  let moved := store 0 ((head.drop input.total).take left) head
  ({ bytes := store left (List.replicate input.total 0) moved
     length := left
     incompleteSince := if left = 0 then 0 else now },
    .command ⟨readBE 2 6 head, readBE 4 8 head, readBE 4 12 head, readBE 4 16 head,
      (head.drop MEDIA_HEADER_BYTES).take (readBE 4 20 head)⟩)

def late (now : Int) (input : MediaInput) : Bool :=
  input.incompleteSince ≠ 0 && now - input.incompleteSince > 2000000

/-- From the deadline on; `readFile` has the bytes that `ReadFile` copies. -/
def fill (now : Int) (peek : Peek) (readFile : Nat → Option Bytes) (input : MediaInput) : MediaInput × InputResult :=
  if input.late now then (input, .invalid)
  else match peek with
    | .broken => (input, if input.length = 0 then .ended else .invalid)
    | .failed => (input, .invalid)
    | .available available =>
      if available = 0 then (input, .nothing)
      else
        let available := min available (INPUT_BYTES - input.length)
        if available = 0 then (input, .invalid)
        else match readFile available with
          | none | some [] => (input, .invalid)
          | some received =>
            ({ bytes := store input.length received input.bytes
               length := input.length + received.length
               incompleteSince := if input.length = 0 then now else input.incompleteSince }, .nothing)

def read (now : Int) (peek : Peek) (readFile : Nat → Option Bytes) (input : MediaInput) : MediaInput × InputResult :=
  if MEDIA_HEADER_BYTES ≤ input.length then
    if input.bytes.take 4 ≠ magic ∨ readBE 2 4 input.bytes ≠ MEDIA_PROTOCOL_VERSION then (input, .invalid)
    else if readBE 4 20 input.bytes > MEDIA_CONTROL_MAX then (input, .invalid)
    else if input.total ≤ input.length then input.take now
    else input.fill now peek readFile
  else input.fill now peek readFile

end MediaInput

/-- The client's stream, the pipe and the worker's end of it. -/
structure CommandPipe where
  unwritten : Bytes
  pipe : Bytes := []
  closed : Bool := false
  input : MediaInput := {}
  returned : List IpcFrame := []

inductive PipeLabel
  | write (count : Nat)
  | close
  /-- A call of `media_input_read`; `ReadFile` copies `received` bytes, or as
  many as there are and there is room for. -/
  | read (now : Int) (received : Nat)

namespace CommandPipe

def peek (s : CommandPipe) : Peek := if s.closed ∧ s.pipe = [] then .broken else .available s.pipe.length

def call (now : Int) (received : Nat) (s : CommandPipe) : MediaInput × InputResult :=
  s.input.read now s.peek fun room => some (s.pipe.take (max 1 (min received room)))

def step (s : CommandPipe) : PipeLabel → CommandPipe
  | .write count =>
    if s.closed then s
    else { s with pipe := s.pipe ++ s.unwritten.take count, unwritten := s.unwritten.drop count }
  | .close => { s with closed := true }
  | .read now received =>
    let (input, result) := s.call now received
    { s with
      input
      pipe := s.pipe.drop (input.length - s.input.length)
      returned := match result with
        | .command frame => s.returned ++ [frame]
        | _ => s.returned }

def system (stream : Bytes) : System CommandPipe PipeLabel := .ofFun (· = { unwritten := stream }) step

/-- No call for an incomplete command comes after its deadline. -/
def timely (s : CommandPipe) : PipeLabel → Prop
  | .read now _ => ¬s.input.complete → s.input.late now = false
  | _ => True

instance (s : CommandPipe) (label : PipeLabel) : Decidable (s.timely label) := by
  unfold timely
  split <;> infer_instance

end CommandPipe

-- The buffer

structure MediaInput.Holds (input : MediaInput) (data : Bytes) : Prop where
  bytes : input.bytes = data ++ List.replicate (INPUT_BYTES - data.length) 0
  length : input.length = data.length
  room : data.length ≤ INPUT_BYTES

theorem holds_initial : MediaInput.Holds {} [] := ⟨rfl, rfl, Nat.zero_le _⟩

theorem store_received (data received : Bytes) :
    store data.length received (data ++ List.replicate (INPUT_BYTES - data.length) 0) =
      data ++ received ++ List.replicate (INPUT_BYTES - (data ++ received).length) 0 := by
  unfold store
  rw [List.take_left, List.drop_append, List.drop_eq_nil_of_le (Nat.le_add_right _ _), List.nil_append,
    Nat.add_sub_cancel_left, List.drop_replicate, List.length_append, Nat.sub_sub]

theorem store_moved {part data : Bytes} (h : (part ++ data).length ≤ INPUT_BYTES) :
    let head := part ++ data ++ List.replicate (INPUT_BYTES - (part ++ data).length) 0
    store data.length (List.replicate part.length 0) (store 0 ((head.drop part.length).take data.length) head) =
      data ++ List.replicate (INPUT_BYTES - data.length) 0 := by
  intro head
  rw [List.length_append] at h
  have hmoved : (head.drop part.length).take data.length = data := by
    simp only [head, List.append_assoc, List.drop_left, List.take_left]
  have hrest : head.drop (data.length + part.length) = List.replicate (INPUT_BYTES - (part ++ data).length) 0 := by
    rw [Nat.add_comm, ← List.length_append]
    exact List.drop_left
  rw [hmoved]
  unfold store
  rw [List.take_zero, List.nil_append, Nat.zero_add, List.take_left, List.length_replicate, ← List.drop_drop,
    List.drop_left, List.drop_drop, hrest, List.append_assoc, List.replicate_append_replicate, List.length_append]
  congr 2
  omega

variable {input : MediaInput} {data tail : Bytes} {rest : List IpcFrame}

theorem MediaInput.Holds.front (hi : input.Holds data) (he : Encodes rest (data ++ tail))
    (hl : MEDIA_HEADER_BYTES ≤ data.length) :
    ∃ f rest' after, rest = f :: rest' ∧ Encodes rest' after ∧ data ++ tail = headerOf f ++ f.payload ++ after ∧
      input.bytes.take 4 = magic ∧ readBE 2 4 input.bytes = MEDIA_PROTOCOL_VERSION ∧
      readBE 2 6 input.bytes = f.kind ∧ readBE 4 8 input.bytes = f.session ∧
      readBE 4 12 input.bytes = f.generation ∧ readBE 4 16 input.bytes = f.sequence ∧
      readBE 4 20 input.bytes = f.payload.length := by
  generalize hb : data ++ tail = bytes at he
  cases he with
  | nil =>
    rw [(List.append_eq_nil_iff.mp hb).1] at hl
    cases hl
  | @cons rest' after f part hf he =>
    obtain ⟨-, -, -, -, -, rfl⟩ := encode_ok.mp hf
    have hhead : data.take MEDIA_HEADER_BYTES = headerOf f := by
      have := congrArg (List.take MEDIA_HEADER_BYTES) hb
      rwa [List.take_append_of_le_length hl, List.append_assoc, List.take_left' (length_headerOf f)] at this
    have hbytes : input.bytes = headerOf f ++ (data.drop MEDIA_HEADER_BYTES ++
        List.replicate (INPUT_BYTES - data.length) 0) := by
      rw [hi.bytes, ← hhead, ← List.append_assoc, List.take_append_drop]
    have hfields := headerOf_fields hf (data.drop MEDIA_HEADER_BYTES ++ List.replicate (INPUT_BYTES - data.length) 0)
    rw [← hbytes] at hfields
    exact ⟨f, rest', after, rfl, he, rfl, hfields⟩

theorem MediaInput.Holds.read (hi : input.Holds data) (he : Encodes rest (data ++ tail))
    (hp : ∀ f ∈ rest, f.payload.length ≤ MEDIA_CONTROL_MAX) (now : Int) (peek : Peek)
    (readFile : Nat → Option Bytes) :
    (input.complete ∧ ∃ f rest' left, rest = f :: rest' ∧ Encodes rest' (left ++ tail) ∧ left.length < data.length ∧
      (input.read now peek readFile).1.Holds left ∧ (input.read now peek readFile).2 = .command f) ∨
    ¬input.complete ∧ data.length < INPUT_BYTES ∧ input.read now peek readFile = input.fill now peek readFile := by
  by_cases hl : MEDIA_HEADER_BYTES ≤ data.length
  · obtain ⟨f, rest', after, rfl, he', hb, hmagic, hversion, hkind, hsession, hgeneration, hsequence, hlength⟩ :=
      hi.front he hl
    have hmax := hp f List.mem_cons_self
    have hread : input.read now peek readFile =
        if input.total ≤ input.length then input.take now else input.fill now peek readFile := by
      unfold MediaInput.read
      rw [if_pos (hi.length ▸ hl), if_neg (by simp [hmagic, hversion]), if_neg (by omega)]
    have htotal : input.total = (headerOf f ++ f.payload).length := by
      rw [MediaInput.total, hlength, List.length_append, length_headerOf]
    rw [hread]
    by_cases hc : input.total ≤ input.length
    · refine .inl ⟨⟨hi.length ▸ hl, hc⟩, f, rest', data.drop (headerOf f ++ f.payload).length, rfl, ?_⟩
      rw [if_pos hc]
      have hdata : data = headerOf f ++ f.payload ++ data.drop (headerOf f ++ f.payload).length := by
        have := congrArg (List.take (headerOf f ++ f.payload).length) hb
        rw [List.take_append_of_le_length (by rw [← htotal, ← hi.length]; exact hc), List.take_left] at this
        conv_lhs => rw [← List.take_append_drop (headerOf f ++ f.payload).length data, this]
      generalize data.drop (headerOf f ++ f.payload).length = left at hdata
      subst hdata
      have hleft : input.length - input.total = left.length := by
        rw [hi.length, htotal, List.length_append, Nat.add_sub_cancel_left]
      have hpayload : (input.bytes.drop MEDIA_HEADER_BYTES).take f.payload.length = f.payload := by
        rw [hi.bytes, List.append_assoc, List.append_assoc, List.drop_left' (length_headerOf f), List.take_left]
      rw [List.append_assoc, List.append_cancel_left_eq] at hb
      refine ⟨hb ▸ he', ?_, ⟨?_, hleft, ?_⟩, ?_⟩
      · rw [List.length_append, ← htotal, MediaInput.total, MEDIA_HEADER_BYTES]
        omega
      · unfold MediaInput.take
        dsimp only
        rw [hleft, htotal, hi.bytes]
        exact store_moved hi.room
      · have := hi.room
        rw [List.length_append] at this
        omega
      · simp only [MediaInput.take, hkind, hsession, hgeneration, hsequence, hlength, hpayload]
    · refine .inr ⟨fun h => hc h.2, ?_, if_neg hc⟩
      rw [hi.length, htotal, List.length_append, length_headerOf] at hc
      unfold INPUT_BYTES
      omega
  · refine .inr ⟨fun h => hl (hi.length ▸ h.1), ?_, ?_⟩
    · unfold INPUT_BYTES
      omega
    · unfold MediaInput.read
      rw [if_neg (hi.length ▸ hl)]

theorem MediaInput.Holds.whole (hi : input.Holds data) (he : Encodes rest data) (hne : rest ≠ []) :
    input.complete := by
  have hl : MEDIA_HEADER_BYTES ≤ data.length := by
    cases he with
    | nil => exact absurd rfl hne
    | cons hf _ =>
      obtain ⟨-, -, -, -, -, rfl⟩ := encode_ok.mp hf
      simp only [List.length_append, length_headerOf]
      omega
  rw [← List.append_nil data] at he
  obtain ⟨f, _, after, -, -, hb, -, -, -, -, -, -, hlength⟩ := hi.front he hl
  have hlen := congrArg List.length hb
  simp only [List.length_append, length_headerOf, List.length_nil] at hlen
  rw [← hi.length] at hl hlen
  refine ⟨hl, ?_⟩
  rw [MediaInput.total, hlength]
  omega

namespace CommandPipe

variable {frames : List IpcFrame} {stream : Bytes} {s : CommandPipe}

/-- The buffer, the pipe and what is still to be written are the commands that
have not been returned. -/
def Inv (frames : List IpcFrame) (s : CommandPipe) : Prop := ∃ data rest, s.input.Holds data ∧
  frames = s.returned ++ rest ∧ Encodes rest (data ++ (s.pipe ++ s.unwritten))

theorem call_cases (h : Inv frames s) (hp : ∀ f ∈ frames, f.payload.length ≤ MEDIA_CONTROL_MAX) {now : Int}
    (ht : ¬s.input.complete → s.input.late now = false) (received : Nat) :
    (s.input.complete ∧ ∃ f left rest, frames = s.returned ++ f :: rest ∧ (s.call now received).2 = .command f ∧
      (s.call now received).1.Holds left ∧ left.length < s.input.length ∧
      Encodes rest (left ++ (s.pipe ++ s.unwritten))) ∨
    (¬s.input.complete ∧ s.pipe = [] ∧ s.call now received =
      (s.input, if s.closed then if s.input.length = 0 then .ended else .invalid else .nothing)) ∨
    (¬s.input.complete ∧ ∃ count data rest, 0 < count ∧ count ≤ s.pipe.length ∧ frames = s.returned ++ rest ∧
      (s.call now received).2 = .nothing ∧ s.input.length = data.length ∧
      (s.call now received).1.Holds (data ++ s.pipe.take count) ∧ Encodes rest (data ++ (s.pipe ++ s.unwritten))) := by
  obtain ⟨data, rest, hi, hframes, he⟩ := h
  have hrest : ∀ f ∈ rest, f.payload.length ≤ MEDIA_CONTROL_MAX := fun f hf =>
    hp f (hframes ▸ List.mem_append_right _ hf)
  unfold call
  rcases hi.read he hrest now s.peek _ with ⟨hc, f, rest', left, rfl, he', hless, hleft, hf⟩ | ⟨hc, hroom, hread⟩
  · exact .inl ⟨hc, f, left, rest', hframes, hf, hleft, hi.length ▸ hless, he'⟩
  · rw [hread]
    unfold MediaInput.fill
    rw [ht hc]
    by_cases hpipe : s.pipe = []
    · refine .inr (.inl ⟨hc, hpipe, ?_⟩)
      unfold peek
      cases s.closed with
      | true => simp [hpipe]
      | false => simp [hpipe]
    · have hpos : 0 < s.pipe.length := List.length_pos_of_ne_nil hpipe
      have hpeek : s.peek = .available s.pipe.length := if_neg fun hb => hpipe hb.2
      have hlength := hi.length
      have havailable : min s.pipe.length (INPUT_BYTES - s.input.length) ≠ 0 := by omega
      obtain ⟨count, hcount⟩ : ∃ count, count = max 1 (min received (min s.pipe.length (INPUT_BYTES - s.input.length))) :=
        ⟨_, rfl⟩
      have htake : (s.pipe.take count).length = count := List.length_take_of_le (by omega)
      obtain ⟨b, bs, hb⟩ : ∃ b bs, s.pipe.take count = b :: bs :=
        List.exists_cons_of_ne_nil fun hn => by rw [hn, List.length_nil] at htake; omega
      refine .inr (.inr ⟨hc, count, data, rest, by omega, by omega, hframes, ?_⟩)
      simp only [hpeek, hpos.ne', havailable, if_false, Bool.false_eq_true, ← hcount, hb]
      refine ⟨trivial, hlength, ⟨?_, ?_, ?_⟩, he⟩
      · rw [hi.bytes, hlength, ← hb]
        exact store_received _ _
      · rw [hlength, List.length_append]
      · rw [← hb, List.length_append, htake]
        omega

theorem step_read (h : Inv frames s) (hp : ∀ f ∈ frames, f.payload.length ≤ MEDIA_CONTROL_MAX) {now : Int}
    (ht : ¬s.input.complete → s.input.late now = false) (received : Nat) :
    Inv frames (s.step (.read now received)) ∧
      ((s.step (.read now received)).pipe.length + s.returned.length <
          s.pipe.length + (s.step (.read now received)).returned.length ∨
        ¬s.input.complete ∧ s.pipe = [] ∧ (s.step (.read now received)).pipe = [] ∧
          (s.step (.read now received)).returned = s.returned) := by
  unfold step
  dsimp only
  rcases call_cases h hp ht received with ⟨-, f, left, rest, hframes, hf, hleft, hless, he⟩ | ⟨hc, hpipe, hcall⟩ |
    ⟨-, count, data, rest, hpos, hcount, hframes, hn, hlength, hread, he⟩
  · have hpipe : s.pipe.drop ((s.call now received).1.length - s.input.length) = s.pipe := by
      rw [hleft.length, Nat.sub_eq_zero_of_le hless.le, List.drop_zero]
    rw [hpipe, hf]
    refine ⟨⟨left, rest, hleft, ?_, he⟩, .inl ?_⟩
    · rw [List.append_assoc]
      exact hframes
    · rw [List.length_append]
      exact Nat.lt_succ_self _
  · obtain ⟨data, rest, hi, hframes, he⟩ := h
    have hreturned : (match (s.call now received).2 with
        | .command frame => s.returned ++ [frame]
        | _ => s.returned) = s.returned := by
      rw [hcall]
      cases s.closed <;> by_cases hl : s.input.length = 0 <;> simp [hl]
    rw [hreturned, hcall, Nat.sub_self, List.drop_zero]
    exact ⟨⟨data, rest, hi, hframes, he⟩, .inr ⟨hc, hpipe, hpipe, rfl⟩⟩
  · have htake : (s.pipe.take count).length = count := List.length_take_of_le hcount
    rw [hn, hread.length, hlength, List.length_append, Nat.add_sub_cancel_left, htake]
    refine ⟨⟨_, rest, hread, hframes, ?_⟩, .inl ?_⟩
    · rw [List.append_assoc, ← List.append_assoc (s.pipe.take count), List.take_append_drop]
      exact he
    · rw [List.length_drop]
      dsimp only
      omega

theorem inv_step (h : Inv frames s) (hp : ∀ f ∈ frames, f.payload.length ≤ MEDIA_CONTROL_MAX) (label : PipeLabel)
    (ht : s.timely label) : Inv frames (s.step label) := by
  cases label with
  | write count =>
    unfold step
    dsimp only
    split
    · exact h
    · obtain ⟨data, rest, hi, hframes, he⟩ := h
      refine ⟨data, rest, hi, hframes, ?_⟩
      dsimp only
      rwa [List.append_assoc s.pipe, List.take_append_drop]
  | close => exact h
  | read now received => exact (step_read h hp ht received).1

theorem inv_reachable (he : Encodes frames stream) (hp : ∀ f ∈ frames, f.payload.length ≤ MEDIA_CONTROL_MAX)
    (h : ((system stream).when timely).Reachable s) : Inv frames s := by
  refine h.invariant (P := Inv frames) ?_ ?_
  · rintro _ rfl
    exact ⟨[], frames, holds_initial, rfl, he⟩
  · rintro s label _ hs ⟨ht, rfl⟩
    exact inv_step hs hp label ht

-- Runs of calls

def reads (calls : List (Int × Nat)) : List PipeLabel := calls.map fun (now, received) => .read now received

def atEnd (s : CommandPipe) : Prop := s.closed ∧ s.pipe = [] ∧ ¬s.input.complete

/-- Every call returns a command or takes from the pipe, until all are
returned. -/
theorem reads_return (hp : ∀ f ∈ frames, f.payload.length ≤ MEDIA_CONTROL_MAX) (calls : List (Int × Nat)) :
    ∀ s, Inv frames s → s.unwritten = [] → System.follows step timely s (reads calls) →
      s.pipe.length + frames.length ≤ s.returned.length + calls.length →
      ((reads calls).foldl step s).returned = frames := by
  induction calls with
  | nil =>
    rintro s ⟨data, rest, -, hframes, -⟩ - - hn
    have hlen := congrArg List.length hframes
    rw [List.length_append] at hlen
    rw [List.length_nil] at hn
    have hrest : rest = [] := List.eq_nil_of_length_eq_zero (by omega)
    rw [hframes, hrest, List.append_nil]
    rfl
  | cons call calls ih =>
    intro s h hu hf hn
    rw [reads, List.map_cons, System.follows, Bool.and_eq_true, decide_eq_true_eq] at hf
    rw [List.length_cons] at hn
    obtain ⟨hi, hgo⟩ := step_read h hp hf.1 call.2
    refine ih _ hi hu hf.2 ?_
    dsimp only
    rcases hgo with hgo | ⟨hc, hpipe, hnone, hsame⟩
    · omega
    · obtain ⟨data, rest, hi, hframes, he⟩ := h
      rw [hpipe, hu, List.append_nil, List.append_nil] at he
      have hrest : rest = [] := by
        by_contra hne
        exact hc (hi.whole he hne)
      rw [hnone, hsame, hframes, hrest, List.append_nil, List.length_nil]
      omega

theorem commands_framed (he : Encodes frames stream) (hp : ∀ f ∈ frames, f.payload.length ≤ MEDIA_CONTROL_MAX)
    (h : ((system stream).when timely).Reachable s) :
    (s.input.length ≤ INPUT_BYTES ∧ (s.input.length = INPUT_BYTES → s.input.complete)) ∧
    (∃ data rest, frames = s.returned ++ rest ∧ Encodes rest (data ++ (s.pipe ++ s.unwritten)) ∧
      s.input.length = data.length ∧ s.input.bytes = data ++ List.replicate (INPUT_BYTES - data.length) 0) ∧
    (∀ now received, s.timely (.read now received) →
      ((s.call now received).2 = .ended ↔ s.atEnd ∧ s.input.length = 0) ∧
      ((s.call now received).2 = .invalid ↔ s.atEnd ∧ s.input.length ≠ 0)) ∧
    ∀ calls, s.unwritten = [] → System.follows step timely s (reads calls) →
      s.pipe.length + frames.length ≤ s.returned.length + calls.length →
      ((reads calls).foldl step s).returned = frames := by
  have hinv := inv_reachable he hp h
  refine ⟨?_, ?_, ?_, fun calls => reads_return hp calls s hinv⟩
  · obtain ⟨data, rest, hi, hframes, he⟩ := hinv
    refine ⟨hi.length ▸ hi.room, fun hfull => ?_⟩
    have hrest : ∀ f ∈ rest, f.payload.length ≤ MEDIA_CONTROL_MAX := fun f hf =>
      hp f (hframes ▸ List.mem_append_right _ hf)
    rcases hi.read he hrest 0 .failed fun _ => none with ⟨hc, -⟩ | ⟨-, hroom, -⟩
    · exact hc
    · rw [← hi.length, hfull] at hroom
      exact absurd hroom (Nat.lt_irrefl _)
  · obtain ⟨data, rest, hi, hframes, he⟩ := hinv
    exact ⟨data, rest, hframes, he, hi.length, hi.bytes⟩
  · intro now received ht
    rcases call_cases hinv hp ht received with ⟨hc, f, _, _, -, hf, -⟩ | ⟨hc, hpipe, hcall⟩ |
      ⟨-, count, _, _, hpos, hcount, -, hn, -⟩
    · rw [hf]
      exact ⟨⟨nofun, fun he => absurd hc he.1.2.2⟩, nofun, fun he => absurd hc he.1.2.2⟩
    · rw [hcall]
      unfold atEnd
      cases s.closed <;> by_cases hl : s.input.length = 0 <;> simp [hl, hpipe, hc]
    · have hne : ¬s.atEnd := fun he => by
        rw [he.2.1, List.length_nil] at hcount
        omega
      rw [hn]
      exact ⟨⟨nofun, fun he => absurd he.1 hne⟩, nofun, fun he => absurd he.1 hne⟩

theorem commands_framed_hello :
    ((reads (List.replicate 27 (0, 11))).foldl step { unwritten := [], pipe := [0x4f, 0x4d, 0x50, 0x47, 0, 2, 0x80, 1,
      0, 0, 0, 0, 0, 0, 0, 0, 0, 0, 0, 1, 0, 0, 0, 2, 0x7b, 0x7d] }).returned =
      [⟨IpcKind.HELLO, 0, 0, 1, [0x7b, 0x7d]⟩] := by
  have hf : IpcFrame.encode ⟨IpcKind.HELLO, 0, 0, 1, [0x7b, 0x7d]⟩ = .ok [0x4f, 0x4d, 0x50, 0x47, 0, 2, 0x80, 1,
    0, 0, 0, 0, 0, 0, 0, 0, 0, 0, 0, 1, 0, 0, 0, 2, 0x7b, 0x7d] := rfl
  have hs (stream : Bytes) : ((system stream).when timely).Reachable (step { unwritten := stream } (.write 26)) :=
    (System.Reachable.start rfl).next (i := PipeLabel.write 26) ⟨trivial, rfl⟩
  refine (commands_framed (.cons hf .nil) ?_ (hs _)).2.2.2 _ rfl (by decide +kernel) (by decide)
  simp only [List.mem_singleton, forall_eq]
  decide

end CommandPipe

end WotAv.Native
