import WotAv.Media.Ipc

/-!
# Framing does not depend on the chunks

The decoder as a machine that takes one byte at a time (`feed`), and `push`
as that machine run over its chunk (`push_eq_feedAll`). The laws of the
framing are then laws of the byte machine: the bytes fed are the encodings
of the frames emitted, followed by the bytes still buffered.
-/

namespace WotAv.Media.IpcFrameDecoder

open WotAv.Lib WotAv.Binding

variable {c : Channel}

theorem checkHeader_ok {limit : Nat} {head : Bytes} :
    checkHeader c limit head = .ok size ↔ head.take 4 = magic ∧
      readBE 2 4 head = MEDIA_PROTOCOL_VERSION ∧ c.admits (readBE 2 6 head) ∧
      readBE 4 20 head = size ∧ 0 < size ∧ size ≤ limit := by
  unfold checkHeader invalidValue
  constructor
  · intro h
    split at h
    · cases h
    · split at h
      · cases h
      · split at h
        · cases h
        · split at h
          · cases h
          · rename_i hm hv hk hl
            obtain rfl := Except.ok.inj h
            rw [not_not] at hm hv
            exact ⟨hm, hv, by simpa using hk, rfl, by omega, by omega⟩
  · rintro ⟨hm, hv, hk, rfl, hpos, hmax⟩
    have hl : ¬(readBE 4 20 head = 0 ∨ readBE 4 20 head > limit) := by omega
    simp [hm, hv, hk, hl]

structure WellFormed (d : IpcFrameDecoder) : Prop where
  live : d.ended = false
  bound : d.maximum ≤ d.channel.limit
  header : d.header.length ≤ MEDIA_HEADER_BYTES
  idle : d.payload = none → d.received = []
  room : ∀ size, d.payload = some size → d.header.length = MEDIA_HEADER_BYTES ∧
    checkHeader d.channel d.maximum d.header = .ok size ∧ d.received.length < size

variable {maximum : Option Number}

theorem make_ok (h : make c maximum = .ok d) :
    d = { channel := c, maximum := d.maximum } ∧ 0 < d.maximum ∧ d.maximum ≤ c.limit := by
  unfold make at h
  cases hp : positiveInteger (maximum.getD c.limit) "IPC payload limit" c.limit with
  | error e => rw [hp] at h; cases h
  | ok n =>
    rw [hp] at h
    obtain rfl := Except.ok.inj h
    obtain ⟨_, hpos, hmax, _⟩ := positiveInteger_ok.mp hp
    exact ⟨rfl, hpos, hmax⟩

theorem wellFormed_make (h : make c maximum = .ok d) :
    d.WellFormed := by
  obtain ⟨hd, _, hb⟩ := make_ok h
  rw [hd]
  exact ⟨rfl, hb, by simp, fun _ => rfl, fun size hs => nomatch hs⟩

variable {d : IpcFrameDecoder}

theorem bufferedBytes_le (hd : d.WellFormed) :
    d.bufferedBytes ≤ MEDIA_HEADER_BYTES + d.maximum := by
  have hh := hd.header
  unfold bufferedBytes
  cases hp : d.payload with
  | none => rw [hd.idle hp, List.length_nil]; omega
  | some size =>
    obtain ⟨_, hc, hlt⟩ := hd.room size hp
    obtain ⟨_, _, _, _, _, hmax⟩ := checkHeader_ok.mp hc
    omega

-- One byte at a time

def feed (now : Nat) (d : IpcFrameDecoder) (b : UInt8) : Fed IpcFrameDecoder IpcFrame OnvifError :=
  let d := d.touch now
  if d.header.length < MEDIA_HEADER_BYTES then
    let d := { d with header := d.header ++ [b] }
    if d.header.length < MEDIA_HEADER_BYTES then .done d
    else match checkHeader d.channel d.maximum d.header with
      | .error e => ⟨d, [], some e⟩
      | .ok size => .done { d with payload := some size }
  else match d.payload with
    | none => ⟨d, [], some ⟨.invalidValue, "Native IPC parser lost its frame descriptor", .notSent⟩⟩
    | some size =>
      let d := { d with received := d.received ++ [b] }
      if d.received.length ≠ size then .done d
      else ⟨d.reset, [frameOf d.header d.received], none⟩

inductive FeedCase (now : Nat) (d : IpcFrameDecoder) (b : UInt8) : Prop
  | header (hlt : d.header.length + 1 < MEDIA_HEADER_BYTES)
      (h : feed now d b = .done { d.touch now with header := d.header ++ [b] })
  | rejected (heq : d.header.length + 1 = MEDIA_HEADER_BYTES)
      (hc : checkHeader d.channel d.maximum (d.header ++ [b]) = .error e)
      (h : feed now d b = ⟨{ d.touch now with header := d.header ++ [b] }, [], some e⟩)
  | admitted (heq : d.header.length + 1 = MEDIA_HEADER_BYTES)
      (hc : checkHeader d.channel d.maximum (d.header ++ [b]) = .ok size)
      (h : feed now d b = .done { d.touch now with header := d.header ++ [b], payload := some size })
  | lost (hge : MEDIA_HEADER_BYTES ≤ d.header.length) (hp : d.payload = none)
      (h : feed now d b = ⟨d.touch now, [],
        some ⟨.invalidValue, "Native IPC parser lost its frame descriptor", .notSent⟩⟩)
  | payload (hge : MEDIA_HEADER_BYTES ≤ d.header.length) (hp : d.payload = some size)
      (hne : d.received.length + 1 ≠ size)
      (h : feed now d b = .done { d.touch now with received := d.received ++ [b] })
  | complete (hge : MEDIA_HEADER_BYTES ≤ d.header.length) (hp : d.payload = some size)
      (heq : d.received.length + 1 = size)
      (h : feed now d b = ⟨d.reset, [frameOf d.header (d.received ++ [b])], none⟩)

theorem feed_cases (now : Nat) (d : IpcFrameDecoder) (b : UInt8) : FeedCase now d b := by
  by_cases hlt : d.header.length < MEDIA_HEADER_BYTES
  · by_cases hlt' : d.header.length + 1 < MEDIA_HEADER_BYTES
    · exact .header hlt' (by simp [feed, touch, hlt, hlt'])
    · have heq : d.header.length + 1 = MEDIA_HEADER_BYTES := by omega
      cases hc : checkHeader d.channel d.maximum (d.header ++ [b]) with
      | error e => exact .rejected heq hc (by simp [feed, touch, hlt, hlt', hc])
      | ok size => exact .admitted heq hc (by simp [feed, touch, hlt, hlt', hc])
  · have hge : MEDIA_HEADER_BYTES ≤ d.header.length := by omega
    cases hp : d.payload with
    | none => exact .lost hge hp (by simp [feed, touch, hlt, hp])
    | some size =>
      by_cases heq : d.received.length + 1 = size
      · exact .complete hge hp heq (by simp [feed, touch, reset, hlt, hp, heq])
      · exact .payload hge hp heq (by simp [feed, touch, hlt, hp, heq])

theorem wellFormed_feed (hd : d.WellFormed) (now : Nat) (b : UInt8) :
    (feed now d b).state.WellFormed := by
  cases feed_cases now d b with
  | header hlt h =>
    rw [h]
    refine ⟨hd.live, hd.bound, by simp [Fed.done]; omega, hd.idle, fun size hs => ?_⟩
    have := (hd.room size hs).1
    omega
  | rejected heq hc h =>
    rw [h]
    refine ⟨hd.live, hd.bound, by simp [heq], hd.idle, fun size hs => ?_⟩
    have := (hd.room size hs).1
    omega
  | @admitted size heq hc h =>
    have hidle : d.payload = none := by
      cases hp : d.payload with
      | none => rfl
      | some size' => have := (hd.room size' hp).1; omega
    obtain ⟨_, _, _, _, hpos, _⟩ := checkHeader_ok.mp hc
    rw [h]
    refine ⟨hd.live, hd.bound, by simp [Fed.done, heq], (nomatch ·), fun size' hs => ?_⟩
    obtain rfl := Option.some.inj hs
    exact ⟨by simp [Fed.done]; omega, hc, by simp [Fed.done, touch, hd.idle hidle, hpos]⟩
  | lost hge hp h =>
    rw [h]
    exact ⟨hd.live, hd.bound, hd.header, hd.idle, hd.room⟩
  | @payload size hge hp hne h =>
    obtain ⟨hl, hc, hlt⟩ := hd.room size hp
    rw [h]
    refine ⟨hd.live, hd.bound, hd.header, fun hs => ?_, fun size' hs => ?_⟩
    · rw [show d.payload = none from hs] at hp; cases hp
    · obtain rfl := Option.some.inj (hp.symm.trans hs)
      exact ⟨hl, hc, by simp [Fed.done]; omega⟩
  | complete hge hp heq h =>
    rw [h]
    exact ⟨hd.live, hd.bound, by simp [reset], fun _ => rfl, fun size hs => nomatch hs⟩

theorem turn_header (h : d.header.length < MEDIA_HEADER_BYTES)
    (now : Nat) (chunk : Bytes) :
    turn now d chunk =
      let head := d.header ++ chunk.take (MEDIA_HEADER_BYTES - d.header.length)
      let d' := { d.touch now with header := head }
      let rest := chunk.drop (MEDIA_HEADER_BYTES - d.header.length)
      if head.length < MEDIA_HEADER_BYTES then .next d' rest
      else match checkHeader d.channel d.maximum head with
        | .error e => .throw d' e
        | .ok size => payloadTurn { d' with payload := some size } rest := by
  simp only [turn, touch, h, if_true, ← List.take_eq_take_min, ← List.drop_eq_drop_min] <;> rfl

theorem turn_payload (h : MEDIA_HEADER_BYTES ≤ d.header.length)
    (now : Nat) (chunk : Bytes) : turn now d chunk = payloadTurn (d.touch now) chunk := by
  simp [turn, touch, Nat.not_lt.mpr h]

theorem payloadTurn_some (h : d.payload = some size) (chunk : Bytes) :
    payloadTurn d chunk =
      let received := d.received ++ chunk.take (size - d.received.length)
      let rest := chunk.drop (size - d.received.length)
      if received.length ≠ size then .next { d with received := received } rest
      else .accept d.reset (frameOf d.header received) rest := by
  simp only [payloadTurn, h, ← List.take_eq_take_min, ← List.drop_eq_drop_min]
  rfl

theorem payloadTurn_nil (h : d.payload = some size)
    (hr : d.received.length < size) : payloadTurn d [] = .next d [] := by
  rw [payloadTurn_some h]
  simp [Nat.ne_of_lt hr]

theorem turn_cons (hd : d.WellFormed) (now : Nat) (b : UInt8) (rest : Bytes) :
    (∃ d', feed now d b = .done d' ∧
      turn now d (b :: rest) = if rest = [] then .next d' [] else turn now d' rest) ∨
    (∃ d' f, feed now d b = ⟨d', [f], none⟩ ∧ turn now d (b :: rest) = .accept d' f rest) ∨
    (∃ d' e, feed now d b = ⟨d', [], some e⟩ ∧ turn now d (b :: rest) = .throw d' e) := by
  cases feed_cases now d b with
  | header hlt h =>
    obtain ⟨k, hk⟩ : ∃ k, MEDIA_HEADER_BYTES - d.header.length = k + 1 :=
      ⟨_, (Nat.succ_pred (by omega)).symm⟩
    have hk' : MEDIA_HEADER_BYTES - (d.header.length + 1) = k := by omega
    refine .inl ⟨_, h, ?_⟩
    rw [turn_header (by omega), hk]
    cases rest with
    | nil => simp [hlt]
    | cons b' rest =>
      rw [if_neg (List.cons_ne_nil _ _), turn_header (by simpa using hlt)]
      simp [hk', touch]
  | rejected heq hc h =>
    refine .inr (.inr ⟨_, _, h, ?_⟩)
    rw [turn_header (by omega), show MEDIA_HEADER_BYTES - d.header.length = 1 by omega]
    simp [heq, hc]
  | @admitted size heq hc h =>
    have hidle : d.received = [] := by
      cases hp : d.payload with
      | none => exact hd.idle hp
      | some size' => have := (hd.room size' hp).1; omega
    obtain ⟨_, _, _, _, hpos, _⟩ := checkHeader_ok.mp hc
    refine .inl ⟨_, h, ?_⟩
    rw [turn_header (by omega), show MEDIA_HEADER_BYTES - d.header.length = 1 by omega]
    simp only [List.take_succ_cons, List.take_zero, List.drop_succ_cons, List.drop_zero,
      List.length_append, List.length_cons, List.length_nil, Nat.zero_add, heq, lt_irrefl, if_false, hc]
    cases rest with
    | nil => rw [payloadTurn_nil rfl (by simpa [touch, hidle] using hpos)]; rfl
    | cons b' rest =>
      rw [if_neg (List.cons_ne_nil _ _), turn_payload (by simp [heq])]
      simp [touch]
  | lost hge hp h =>
    refine .inr (.inr ⟨_, _, h, ?_⟩)
    rw [turn_payload hge]
    simp [payloadTurn, touch, hp]
  | @payload size hge hp hne h =>
    obtain ⟨_, _, hlt⟩ := hd.room size hp
    obtain ⟨k, hk⟩ : ∃ k, size - d.received.length = k + 1 := ⟨_, (Nat.succ_pred (by omega)).symm⟩
    have hk' : size - (d.received.length + 1) = k := by omega
    refine .inl ⟨_, h, ?_⟩
    rw [turn_payload hge, payloadTurn_some (d := d.touch now) hp]
    cases rest with
    | nil => simp [touch, hk, hne]
    | cons b' rest =>
      have hp' : ({ d.touch now with received := d.received ++ [b] }.touch now).payload = some size := hp
      rw [if_neg (List.cons_ne_nil _ _), turn_payload (by exact hge), payloadTurn_some hp']
      simp [touch, hk, hk', reset]
  | complete hge hp heq h =>
    refine .inr (.inl ⟨_, _, h, ?_⟩)
    rw [turn_payload hge, payloadTurn_some (d := d.touch now) hp]
    simp [touch, reset, ← heq]

theorem pushLoop_nil (now fuel : Nat) (d : IpcFrameDecoder) : pushLoop now fuel d [] = .done d := by
  cases fuel <;> rfl

/-- A well-formed decoder does not run out of turns. -/
theorem pushLoop_eq_feedAll (now : Nat) (chunk : Bytes) : ∀ (fuel : Nat) (d : IpcFrameDecoder),
    d.WellFormed → chunk.length ≤ fuel → pushLoop now fuel d chunk = feedAll (feed now) d chunk := by
  induction chunk with
  | nil => intro fuel d _ _; exact pushLoop_nil now fuel d
  | cons b rest ih =>
    intro fuel d hd hl
    obtain ⟨fuel, rfl⟩ : ∃ k, fuel = k + 1 := ⟨fuel - 1, by simp at hl; omega⟩
    have hl' : rest.length ≤ fuel := by simpa using hl
    have hd' := wellFormed_feed hd now b
    rw [feedAll_cons, pushLoop]
    rcases turn_cons hd now b rest with ⟨d', hf, ht⟩ | ⟨d', f, hf, ht⟩ | ⟨d', e, hf, ht⟩
    · rw [hf] at hd' ⊢
      rw [ht, Fed.done_andThen]
      cases rest with
      | nil => simp [pushLoop_nil]
      | cons b' rest =>
        -- the turn goes on as if it had started at the second byte
        rw [if_neg (List.cons_ne_nil _ _), ← ih (fuel + 1) d' hd' (by omega), pushLoop]
    · rw [hf] at hd' ⊢
      rw [ht]
      simp only [ih fuel d' hd' hl', Fed.andThen]
    · rw [hf, ht]
      rfl

theorem push_eq_feedAll (hd : d.WellFormed) (now : Nat) (chunk : Bytes) :
    push now d chunk = feedAll (feed now) d chunk := by
  rw [push, hd.live]
  exact pushLoop_eq_feedAll now chunk _ d hd le_rfl

-- Any chunks, at any times

/-- The calls of `push`, each with its `Date.now()`, up to the first that throws. -/
def pushAll (d : IpcFrameDecoder) (chunks : List (Nat × Bytes)) :
    Fed IpcFrameDecoder IpcFrame OnvifError :=
  feedAll (fun d chunk => push chunk.1 d chunk.2) d chunks

def timeless (d : IpcFrameDecoder) : IpcFrameDecoder := { d with partialAt := none }

def feedByte (d : IpcFrameDecoder) (b : UInt8) : Fed IpcFrameDecoder IpcFrame OnvifError :=
  (feed 0 d b).map timeless

theorem feed_timeless (now : Nat) (d : IpcFrameDecoder) (b : UInt8) :
    (feed now d b).map timeless = feedByte d.timeless b := by
  cases feed_cases now d b with
  | header hlt h => simp [feedByte, feed, touch, timeless, Fed.map, Fed.done, hlt, Nat.lt_of_succ_lt hlt]
  | rejected heq hc h =>
    rw [h]
    simp [feedByte, feed, touch, timeless, Fed.map, hc, ← heq]
  | admitted heq hc h =>
    rw [h]
    simp [feedByte, feed, touch, timeless, Fed.map, Fed.done, hc, ← heq]
  | lost hge hp h =>
    rw [h]
    simp [feedByte, feed, touch, timeless, Fed.map, Nat.not_lt.mpr hge, hp]
  | payload hge hp hne h =>
    rw [h]
    simp [feedByte, feed, touch, timeless, Fed.map, Fed.done, Nat.not_lt.mpr hge, hp, hne]
  | complete hge hp heq h =>
    rw [h]
    simp [feedByte, feed, touch, timeless, Fed.map, reset, Nat.not_lt.mpr hge, hp, heq]

theorem wellFormed_push (hd : d.WellFormed) (now : Nat) (chunk : Bytes) :
    (push now d chunk).state.WellFormed := by
  rw [push_eq_feedAll hd]
  exact feedAll_keeps _ (P := WellFormed) (fun s b hs => wellFormed_feed hs now b) chunk d hd

theorem push_timeless (hd : d.WellFormed) (now : Nat) (chunk : Bytes) :
    (push now d chunk).map timeless = feedAll feedByte d.timeless chunk := by
  rw [push_eq_feedAll hd, feedAll_map (P := fun _ => True) (g := id) (fun _ _ _ => trivial)
    (fun s b _ => feed_timeless now s b) chunk d trivial, List.map_id]

/-- How the bytes were cut into chunks and when they came does not matter. -/
theorem pushAll_timeless (hd : d.WellFormed) (chunks : List (Nat × Bytes)) :
    (pushAll d chunks).map timeless = feedAll feedByte d.timeless (chunks.map Prod.snd).flatten := by
  unfold pushAll
  rw [feedAll_map (P := WellFormed) (fun s c hs => wellFormed_push hs c.1 c.2)
    (fun s c hs => push_timeless hs c.1 c.2) chunks d hd]
  exact feedAll_chunks feedByte (P := fun _ => True) (fun _ _ _ => trivial) (fun _ _ _ => rfl) _ _ trivial

-- Frames and their bytes

theorem uint_natCast (n : Nat) (h : m ≤ maxSafeInteger) :
    uint (n : Number) m = if n ≤ m then .ok n else invalidValue "Invalid native IPC integer" := by
  unfold uint
  split
  · rename_i k hk
    obtain ⟨hn, _, hle, _⟩ := integerWithin_some.mp hk
    obtain rfl : n = k := by simpa using hn
    rw [if_pos hle]
  · rename_i hk
    rw [if_neg]
    intro hle
    rw [integerWithin_natCast ⟨Nat.zero_le n, hle, by omega⟩] at hk
    cases hk

def headerOf (f : IpcFrame) : Bytes :=
  magic ++ (beBytes 2 MEDIA_PROTOCOL_VERSION ++ (beBytes 2 f.kind ++ (beBytes 4 f.session ++
    (beBytes 4 f.generation ++ (beBytes 4 f.sequence ++ beBytes 4 f.payload.length)))))

@[simp] theorem length_headerOf (f : IpcFrame) : (headerOf f).length = MEDIA_HEADER_BYTES := by
  simp [headerOf, magic, MEDIA_HEADER_BYTES]

theorem encode_ok {f : IpcFrame} :
    f.encode = .ok bytes ↔ f.payload.length ≤ MEDIA_DATA_MAX ∧ f.kind ≤ 0xffff ∧
      f.session ≤ 0xffffffff ∧ f.generation ≤ 0xffffffff ∧ f.sequence ≤ 0xffffffff ∧
      headerOf f ++ f.payload = bytes := by
  have h16 : 0xffff ≤ maxSafeInteger := by decide
  have h32 : 0xffffffff ≤ maxSafeInteger := by decide
  simp only [IpcFrame.encode, encodeEnvelope, uint_natCast _ h16, uint_natCast _ h32, invalidValue]
  by_cases hp : f.payload.length > MEDIA_DATA_MAX
  · simp [hp, Nat.not_le.mpr hp]
  · rw [if_neg hp]
    split_ifs <;> simp_all [bind, Except.bind, pure, Except.pure, headerOf]

theorem headerOf_frameOf {limit : Nat} {head payload : Bytes}
    (hl : head.length = MEDIA_HEADER_BYTES) (hc : checkHeader c limit head = .ok payload.length) :
    headerOf (frameOf head payload) = head := by
  obtain ⟨hm, hv, _, hp, _, _⟩ := checkHeader_ok.mp hc
  have hl' : head.length = 24 := hl
  have hend : (head.drop 20).take 4 = head.drop 20 := List.take_of_length_le (by simp; omega)
  rw [headerOf, frameOf, ← hm, ← hv]
  dsimp only
  rw [← hp, beBytes_readBE (by omega), beBytes_readBE (by omega), beBytes_readBE (by omega),
    beBytes_readBE (by omega), beBytes_readBE (by omega), beBytes_readBE (by omega), hend,
    field_append 4 16, field_append 4 12, field_append 4 8, field_append 2 6, field_append 2 4,
    List.take_append_drop]

theorem encode_frameOf {limit : Nat} {head payload : Bytes}
    (hl : head.length = MEDIA_HEADER_BYTES) (hc : checkHeader c limit head = .ok payload.length)
    (hlimit : limit ≤ c.limit) : (frameOf head payload).encode = .ok (head ++ payload) := by
  obtain ⟨_, _, _, _, _, hmax⟩ := checkHeader_ok.mp hc
  have hdata : c.limit ≤ MEDIA_DATA_MAX := by cases c <;> decide
  have h2 := readBE_lt 2 6 head
  have h8 := readBE_lt 4 8 head
  have h12 := readBE_lt 4 12 head
  have h16 := readBE_lt 4 16 head
  refine encode_ok.mpr ⟨?_, ?_, ?_, ?_, ?_, by rw [headerOf_frameOf hl hc]; rfl⟩
  · exact (hmax.trans hlimit).trans hdata
  · exact Nat.le_of_lt_succ h2
  · exact Nat.le_of_lt_succ h8
  · exact Nat.le_of_lt_succ h12
  · exact Nat.le_of_lt_succ h16

theorem headerOf_fields {f : IpcFrame} (he : f.encode = .ok bytes) (tail : Bytes) :
    (headerOf f ++ tail).take 4 = magic ∧ readBE 2 4 (headerOf f ++ tail) = MEDIA_PROTOCOL_VERSION ∧
      readBE 2 6 (headerOf f ++ tail) = f.kind ∧ readBE 4 8 (headerOf f ++ tail) = f.session ∧
      readBE 4 12 (headerOf f ++ tail) = f.generation ∧ readBE 4 16 (headerOf f ++ tail) = f.sequence ∧
      readBE 4 20 (headerOf f ++ tail) = f.payload.length := by
  obtain ⟨hp, hk, hs, hg, hq, _⟩ := encode_ok.mp he
  have hp' : f.payload.length < 256 ^ 4 := lt_of_le_of_lt hp (by decide)
  simp only [headerOf, List.append_assoc]
  refine ⟨List.take_left' rfl, ?_, ?_, ?_, ?_, ?_, ?_⟩ <;> rw [readBE_skip_left (by decide)]
  · exact readBE_here (by decide)
  · rw [readBE_skip (by decide)]
    exact readBE_here (by omega)
  · rw [readBE_skip (by decide), readBE_skip (by decide)]
    exact readBE_here (by omega)
  · rw [readBE_skip (by decide), readBE_skip (by decide), readBE_skip (by decide)]
    exact readBE_here (by omega)
  · rw [readBE_skip (by decide), readBE_skip (by decide), readBE_skip (by decide), readBE_skip (by decide)]
    exact readBE_here (by omega)
  · rw [readBE_skip (by decide), readBE_skip (by decide), readBE_skip (by decide), readBE_skip (by decide),
      readBE_skip (by decide)]
    exact readBE_here hp'

/-- A frame the decoder takes: a kind of its channel and a payload within its bound. -/
structure Admits (d : IpcFrameDecoder) (f : IpcFrame) : Prop where
  kind : d.channel.admits f.kind
  nonempty : 1 ≤ f.payload.length
  fits : f.payload.length ≤ d.maximum

theorem checkHeader_headerOf {f : IpcFrame} (ha : d.Admits f)
    (he : f.encode = .ok bytes) :
    checkHeader d.channel d.maximum (headerOf f) = .ok f.payload.length ∧
      frameOf (headerOf f) f.payload = f := by
  have hfields := headerOf_fields he []
  rw [List.append_nil] at hfields
  obtain ⟨hmagic, hversion, hkind, hsession, hgeneration, hsequence, hlength⟩ := hfields
  refine ⟨checkHeader_ok.mpr ⟨hmagic, hversion, ?_, hlength, ha.nonempty, ha.fits⟩, ?_⟩
  · rw [hkind]; exact ha.kind
  · simp only [frameOf, hkind, hsession, hgeneration, hsequence]

inductive Encodes : List IpcFrame → Bytes → Prop
  | nil : Encodes [] []
  | cons : f.encode = .ok part → Encodes frames bytes → Encodes (f :: frames) (part ++ bytes)

theorem Encodes.append (h : Encodes frames bytes) (h' : Encodes frames' bytes') :
    Encodes (frames ++ frames') (bytes ++ bytes') := by
  induction h with
  | nil => exact h'
  | cons he _ ih =>
    rw [List.append_assoc]
    exact .cons he ih

-- What the bytes fed are

def buffered (d : IpcFrameDecoder) : Bytes := d.header ++ d.received

/-- No complete header waits for its checks: it has failed none. -/
def Clean (d : IpcFrameDecoder) : Prop := d.payload = none → d.header.length < MEDIA_HEADER_BYTES

/-- The bytes `bytes` fed to `d` are the frames emitted and what is still buffered. -/
structure Parsed (d : IpcFrameDecoder) (bytes : Bytes) (r : Fed IpcFrameDecoder IpcFrame OnvifError) :
    Prop where
  clean : r.state.Clean
  channel : r.state.channel = d.channel
  maximum : r.state.maximum = d.maximum
  admits : ∀ f ∈ r.emitted, d.Admits f
  bytes : ∃ whole, Encodes r.emitted whole ∧ d.buffered ++ bytes = whole ++ r.state.buffered

def Rejected (d : IpcFrameDecoder) : Prop :=
  d.header.length = MEDIA_HEADER_BYTES ∧ d.received = []

theorem feedByte_parsed (hd : d.WellFormed) (hc : d.Clean) (b : UInt8) :
    ((feedByte d b).error = none → Parsed d [b] (feedByte d b)) ∧
    ((feedByte d b).error ≠ none → (feedByte d b).state.Rejected) := by
  have hnone : d.header.length < MEDIA_HEADER_BYTES → d.payload = none := by
    intro hlt
    cases hp : d.payload with
    | none => rfl
    | some size => have := (hd.room size hp).1; omega
  unfold feedByte
  cases feed_cases 0 d b with
  | header hlt h =>
    rw [h]
    refine ⟨fun _ => ⟨fun _ => by simpa [timeless] using hlt, rfl, rfl, by simp, [], .nil, ?_⟩, by simp⟩
    simp [buffered, hd.idle (hnone (by omega)), touch, timeless]
  | rejected heq hcheck h =>
    rw [h]
    exact ⟨by simp [Fed.map], fun _ => ⟨by simp [Fed.map, timeless, heq], hd.idle (hnone (by omega))⟩⟩
  | admitted heq hcheck h =>
    rw [h]
    refine ⟨fun _ => ⟨fun hp => absurd hp (by simp [timeless]), rfl, rfl, by simp, [], .nil, ?_⟩, by simp⟩
    simp [buffered, hd.idle (hnone (by omega)), touch, timeless]
  | lost hge hp h => exact absurd (hc hp) (Nat.not_lt.mpr hge)
  | @payload size hge hp hne h =>
    rw [h]
    refine ⟨fun _ => ⟨hc, rfl, rfl, by simp, [], .nil, ?_⟩, by simp⟩
    simp [buffered, touch, timeless]
  | @complete size hge hp heq h =>
    obtain ⟨hl, hcheck, _⟩ := hd.room size hp
    have hsize : (d.received ++ [b]).length = size := by simpa using heq
    rw [← hsize] at hcheck
    obtain ⟨_, _, hkind, _, hpos, hmax⟩ := checkHeader_ok.mp hcheck
    rw [h]
    refine ⟨fun _ => ⟨fun _ => by simp [Fed.map, timeless, reset, MEDIA_HEADER_BYTES], rfl, rfl, ?_, _,
      .cons (encode_frameOf hl hcheck hd.bound) .nil, ?_⟩, by simp⟩
    · intro f hf
      obtain rfl := List.mem_singleton.mp hf
      exact ⟨hkind, hpos, hmax⟩
    · simp [buffered, timeless, reset]

theorem wellFormed_feedByte (hd : d.WellFormed) (b : UInt8) :
    (feedByte d b).state.WellFormed := by
  obtain ⟨hlive, hbound, hheader, hidle, hroom⟩ := wellFormed_feed hd 0 b
  exact ⟨hlive, hbound, hheader, hidle, hroom⟩

theorem feedAll_parsed (bytes : Bytes) : ∀ d : IpcFrameDecoder, d.WellFormed → d.Clean →
    ((feedAll feedByte d bytes).error = none → Parsed d bytes (feedAll feedByte d bytes)) ∧
    ((feedAll feedByte d bytes).error ≠ none → (feedAll feedByte d bytes).state.Rejected) := by
  induction bytes with
  | nil =>
    intro d _ hc
    exact ⟨fun _ => ⟨hc, rfl, rfl, by simp, [], .nil, by simp⟩, by simp [Fed.done]⟩
  | cons b bytes ih =>
    intro d hd hc
    obtain ⟨hok, hfail⟩ := feedByte_parsed hd hc b
    have hd' := wellFormed_feedByte hd b
    rw [feedAll_cons]
    cases he : (feedByte d b).error with
    | some e =>
      simp only [Fed.andThen, he]
      exact ⟨by simp, fun _ => hfail (by simp [he])⟩
    | none =>
      obtain ⟨hc', hch, hmax, hadm, whole, henc, hbytes⟩ := hok he
      obtain ⟨hok', hfail'⟩ := ih _ hd' hc'
      rw [Fed.andThen_ok he]
      refine ⟨fun h => ?_, hfail'⟩
      obtain ⟨hc'', hch', hmax', hadm', whole', henc', hbytes'⟩ := hok' h
      refine ⟨hc'', hch'.trans hch, hmax'.trans hmax, ?_, _, henc.append henc', ?_⟩
      · intro f hf
        rcases List.mem_append.mp hf with hf | hf
        · exact hadm f hf
        · obtain ⟨hk, hn, hf⟩ := hadm' f hf
          exact ⟨hch ▸ hk, hn, hmax ▸ hf⟩
      · have : d.buffered ++ b :: bytes = (d.buffered ++ [b]) ++ bytes := by simp
        rw [this, hbytes, List.append_assoc, hbytes', List.append_assoc]

-- What frames and their beginnings do

theorem feedAll_push (hd : d.WellFormed) (bytes : Bytes) :
    feedAll feedByte d.timeless bytes = (push 0 d bytes).map timeless :=
  (push_timeless hd 0 bytes).symm

theorem push_of_turn {d d' : IpcFrameDecoder} (hd : d.WellFormed) (hb : bytes ≠ [])
    (ht : turn now d bytes = .next d' []) : push now d bytes = .done d' := by
  cases bytes with
  | nil => exact absurd rfl hb
  | cons b bytes => simp [push, hd.live, pushLoop, ht, pushLoop_nil]

theorem push_encoded (hd : d.WellFormed) (hidle : d.header = [])
    (ha : d.Admits f) (he : f.encode = .ok bytes) : push now d bytes = ⟨d.reset, [f], none⟩ := by
  obtain ⟨hc, hf⟩ := checkHeader_headerOf ha he
  obtain ⟨_, _, _, _, _, rfl⟩ := encode_ok.mp he
  have hrec : d.received = [] := by
    refine hd.idle ?_
    cases hp : d.payload with
    | none => rfl
    | some size => have := (hd.room size hp).1; rw [hidle] at this; cases this
  have hl := length_headerOf f
  have hturn : turn now d (headerOf f ++ f.payload) = .accept d.reset f [] := by
    rw [turn_header (by simp [hidle, MEDIA_HEADER_BYTES])]
    simp only [hidle, List.length_nil, Nat.sub_zero, List.nil_append, List.take_left' hl,
      List.drop_left' hl, hl, lt_irrefl, if_false, hc]
    rw [payloadTurn_some rfl]
    simp [touch, reset, hrec, hf]
  obtain ⟨b, rest, hcons⟩ : ∃ b rest, headerOf f ++ f.payload = b :: rest :=
    ⟨_, _, rfl⟩
  rw [push, hd.live, hcons]
  rw [hcons] at hturn
  simp [pushLoop, hturn, pushLoop_nil, Fed.andThen, Fed.done]

/-- The decoder a constructor makes, and that a complete frame leaves. -/
structure Idle (d : IpcFrameDecoder) : Prop where
  wellFormed : d.WellFormed
  reset : d.reset = d

theorem Idle.header (h : d.Idle) : d.header = [] := by
  rw [← h.reset]
  rfl

theorem Idle.timeless (h : d.Idle) : d.timeless = d := by
  rw [← h.reset]
  rfl

theorem Idle.clean (h : d.Idle) : d.Clean := by
  intro _
  rw [h.header]
  decide

theorem Idle.buffered (h : d.Idle) : d.buffered = [] := by
  rw [← h.reset]
  rfl

theorem idle_make (h : make c maximum = .ok d) : d.Idle := by
  refine ⟨wellFormed_make h, ?_⟩
  rw [(make_ok h).1]
  rfl

theorem feedAll_encodes (hd : d.Idle) (hadm : ∀ f ∈ frames, d.Admits f)
    (he : Encodes frames bytes) : feedAll feedByte d bytes = ⟨d, frames, none⟩ := by
  induction he with
  | nil => rfl
  | @cons frames bytes f part hf _ ih =>
    have hone : feedAll feedByte d part = ⟨d, [f], none⟩ := by
      have := feedAll_push hd.wellFormed part
      rw [hd.timeless, push_encoded hd.wellFormed hd.header (hadm f (by simp)) hf] at this
      rw [this, Fed.map, hd.reset, hd.timeless]
    rw [feedAll_append, hone, Fed.andThen_ok rfl, ih fun f' hf' => hadm f' (by simp [hf'])]
    rfl

/-- A proper prefix of a frame: a part of a header, or a header that passes
its checks and less than the payload it announces. -/
def Incomplete (d : IpcFrameDecoder) (bytes : Bytes) : Prop :=
  bytes ≠ [] ∧ (bytes.length < MEDIA_HEADER_BYTES ∨
    ∃ size, checkHeader d.channel d.maximum (bytes.take MEDIA_HEADER_BYTES) = .ok size ∧
      bytes.length < MEDIA_HEADER_BYTES + size)

theorem feedAll_incomplete (hd : d.Idle) (hb : d.Incomplete bytes) :
    (feedAll feedByte d bytes).error = none ∧ (feedAll feedByte d bytes).emitted = [] ∧
      (feedAll feedByte d bytes).state.bufferedBytes = bytes.length := by
  obtain ⟨hne, hb⟩ := hb
  have hheader := hd.header
  have hrec : d.received = [] := by
    rw [← hd.reset]
    rfl
  have hpush := feedAll_push hd.wellFormed bytes
  rw [hd.timeless] at hpush
  rw [hpush]
  by_cases hlt : bytes.length < MEDIA_HEADER_BYTES
  · have hturn : turn 0 d bytes = .next { d.touch 0 with header := bytes } [] := by
      rw [turn_header (by simp [hheader, MEDIA_HEADER_BYTES])]
      simp [hheader, List.take_of_length_le hlt.le, List.drop_of_length_le hlt.le, hlt]
    rw [push_of_turn hd.wellFormed hne hturn]
    simp [bufferedBytes, timeless, touch, hrec]
  · obtain ⟨size, hc, hsize⟩ := hb.resolve_left hlt
    have hl : (bytes.take MEDIA_HEADER_BYTES).length = MEDIA_HEADER_BYTES := by
      rw [List.length_take]; omega
    have hturn : turn 0 d bytes = .next { d.touch 0 with
        header := bytes.take MEDIA_HEADER_BYTES, payload := some size,
        received := bytes.drop MEDIA_HEADER_BYTES } [] := by
      have hle : (bytes.drop MEDIA_HEADER_BYTES).length ≤ size := by rw [List.length_drop]; omega
      have hne : bytes.length - MEDIA_HEADER_BYTES ≠ size := by omega
      rw [turn_header (by simp [hheader, MEDIA_HEADER_BYTES])]
      simp only [hheader, List.length_nil, Nat.sub_zero, List.nil_append, hl, lt_irrefl, if_false, hc]
      rw [payloadTurn_some rfl]
      simp [touch, hrec, List.take_of_length_le hle, List.drop_of_length_le hle, hne]
    rw [push_of_turn hd.wellFormed hne hturn]
    simp [bufferedBytes, timeless, touch]
    omega

theorem incomplete_buffered (hd : d.WellFormed) (hc : d.Clean)
    (hne : d.bufferedBytes ≠ 0) : d.Incomplete d.buffered := by
  have hlen : d.buffered.length = d.bufferedBytes := by simp [buffered, bufferedBytes]
  refine ⟨fun h => hne (by rw [← hlen, h]; rfl), ?_⟩
  cases hp : d.payload with
  | none => exact .inl (by simpa [buffered, hd.idle hp] using hc hp)
  | some size =>
    obtain ⟨hl, hcheck, hlt⟩ := hd.room size hp
    refine .inr ⟨size, ?_, by rw [hlen, bufferedBytes]; omega⟩
    rwa [buffered, List.take_left' hl]

theorem end_fails : (∃ e, d.end_.2 = .error e) ↔ d.bufferedBytes ≠ 0 := by
  unfold end_
  by_cases h : d.bufferedBytes = 0 <;> simp [h]

theorem end_succeeds : d.end_.2 = .ok () ↔ d.bufferedBytes = 0 := by
  unfold end_
  by_cases h : d.bufferedBytes = 0 <;> simp [h]

def joined (chunks : List (Nat × Bytes)) : Bytes := (chunks.map Prod.snd).flatten

theorem pushAll_idle (hd : d.Idle) (chunks : List (Nat × Bytes)) :
    (pushAll d chunks).map timeless = feedAll feedByte d (joined chunks) := by
  rw [pushAll_timeless hd.wellFormed, hd.timeless]
  rfl

theorem feed_maximum (now : Nat) (d : IpcFrameDecoder) (b : UInt8) :
    (feed now d b).state.maximum = d.maximum := by
  cases feed_cases now d b with
  | header hlt h => rw [h]; rfl
  | rejected heq hc h => rw [h]; rfl
  | admitted heq hc h => rw [h]; rfl
  | lost hge hp h => rw [h]; rfl
  | payload hge hp hne h => rw [h]; rfl
  | complete hge hp heq h => rw [h]; rfl

theorem pushAll_bounded (hd : d.WellFormed) (chunks : List (Nat × Bytes)) :
    (pushAll d chunks).state.bufferedBytes ≤ MEDIA_HEADER_BYTES + d.maximum := by
  have h : (pushAll d chunks).state.WellFormed ∧ (pushAll d chunks).state.maximum = d.maximum := by
    refine feedAll_keeps _ (P := fun s => s.WellFormed ∧ s.maximum = d.maximum) ?_ chunks d ⟨hd, rfl⟩
    rintro s ⟨now, chunk⟩ ⟨hs, hm⟩
    refine ⟨wellFormed_push hs now chunk, ?_⟩
    dsimp only
    rw [push_eq_feedAll hs]
    exact feedAll_keeps _ (P := fun s => s.maximum = d.maximum)
      (fun s b hs => (feed_maximum now s b).trans hs) chunk s hm
  rw [← h.2]
  exact bufferedBytes_le h.1

/-- Framing inverts `encodeEnvelope` and depends on the bytes alone. -/
theorem push_framing {c : Channel} {maximum : Option Number} (hd : make c maximum = .ok d)
    (chunks : List (Nat × Bytes)) :
    (∀ frames, (∀ f ∈ frames, d.Admits f) → Encodes frames (joined chunks) →
      (pushAll d chunks).emitted = frames ∧ (pushAll d chunks).error = none ∧
      (pushAll d chunks).state.bufferedBytes = 0 ∧ (pushAll d chunks).state.end_.2 = .ok ()) ∧
    (∀ chunks', joined chunks' = joined chunks →
      (pushAll d chunks').emitted = (pushAll d chunks).emitted ∧
      (pushAll d chunks').error = (pushAll d chunks).error ∧
      (pushAll d chunks').state.bufferedBytes = (pushAll d chunks).state.bufferedBytes) ∧
    (pushAll d chunks).state.bufferedBytes ≤ MEDIA_HEADER_BYTES + d.maximum ∧
    ((pushAll d chunks).error = none →
      ((∃ e, (pushAll d chunks).state.end_.2 = .error e) ↔
        ∃ frames whole rest, (∀ f ∈ frames, d.Admits f) ∧ Encodes frames whole ∧
          d.Incomplete rest ∧ joined chunks = whole ++ rest)) ∧
    ((pushAll d chunks).error ≠ none → (pushAll d chunks).state.Rejected ∧
      ∃ e, (pushAll d chunks).state.end_.2 = .error e) := by
  have hidle := idle_make hd
  have hrun := pushAll_idle hidle chunks
  have hwf : (pushAll d chunks).state.WellFormed :=
    feedAll_keeps _ (P := WellFormed) (fun s c hs => wellFormed_push hs c.1 c.2) chunks d
      hidle.wellFormed
  obtain ⟨hok, hfail⟩ := feedAll_parsed (joined chunks) d hidle.wellFormed hidle.clean
  rw [← hrun] at hok hfail
  refine ⟨?_, ?_, pushAll_bounded hidle.wellFormed chunks, ?_, ?_⟩
  · intro frames hadm henc
    have h := feedAll_encodes hidle hadm henc
    rw [← hrun] at h
    have hbuf : (pushAll d chunks).state.bufferedBytes = 0 := by
      have hstate : (pushAll d chunks).state.timeless = d := congrArg Fed.state h
      have hlen : d.bufferedBytes = 0 := by
        rw [← hidle.reset]
        rfl
      rw [← hstate] at hlen
      exact hlen
    exact ⟨congrArg Fed.emitted h, congrArg Fed.error h, hbuf, end_succeeds.mpr hbuf⟩
  · intro chunks' hj
    have h : (pushAll d chunks').map timeless = (pushAll d chunks).map timeless := by
      rw [hrun, pushAll_idle hidle, hj]
    have hout := congrArg Fed.emitted h
    have herr := congrArg Fed.error h
    have hbuf := congrArg (fun r => r.state.bufferedBytes) h
    exact ⟨hout, herr, hbuf⟩
  · intro hnone
    obtain ⟨hclean, hchannel, hmax, hadm, whole, henc, hbytes⟩ := hok hnone
    rw [hidle.buffered, List.nil_append] at hbytes
    rw [end_fails]
    constructor
    · intro hne
      refine ⟨_, whole, _, hadm, henc, ?_, hbytes⟩
      obtain ⟨hne', hi⟩ := incomplete_buffered hwf hclean hne
      refine ⟨hne', hi.imp id ?_⟩
      rintro ⟨size, hcheck, hlt⟩
      exact ⟨size, hchannel ▸ hmax ▸ hcheck, hlt⟩
    · rintro ⟨frames, whole', rest, hadm', henc', hrest, hj⟩
      have h := feedAll_append feedByte d whole' rest
      rw [← hj, feedAll_encodes hidle hadm' henc', Fed.andThen_ok rfl, ← hrun] at h
      have hbuf : (pushAll d chunks).state.bufferedBytes = rest.length :=
        (congrArg (fun r => r.state.bufferedBytes) h).trans (feedAll_incomplete hidle hrest).2.2
      rw [hbuf]
      exact fun h0 => hrest.1 (List.length_eq_zero_iff.mp h0)
  · intro herr
    have hrej := hfail herr
    refine ⟨hrej, end_fails.mpr ?_⟩
    have hl : (pushAll d chunks).state.header.length = MEDIA_HEADER_BYTES := hrej.1
    rw [bufferedBytes, hl]
    exact Nat.ne_of_gt (Nat.add_pos_left (by decide) _)

theorem push_framing_hello :
    (pushAll { channel := .control, maximum := 4 }
      [(3, [0x4f, 0x4d, 0x50, 0x47, 0, 2, 0x80]), (5, []),
        (8, [1, 0, 0, 0, 0, 0, 0, 0, 0, 0, 0, 0, 1, 0, 0, 0, 2, 0x7b]), (9, [0x7d])]).emitted =
      [⟨IpcKind.HELLO, 0, 0, 1, [0x7b, 0x7d]⟩] :=
  ((push_framing (show make .control (some (4 : Nat)) = .ok { channel := .control, maximum := 4 } from rfl)
    _).1 [⟨IpcKind.HELLO, 0, 0, 1, [0x7b, 0x7d]⟩]
    (by simp only [List.mem_singleton, forall_eq]; exact ⟨rfl, by decide, by decide⟩)
    (.cons (show IpcFrame.encode _ = .ok [0x4f, 0x4d, 0x50, 0x47, 0, 2, 0x80, 1, 0, 0, 0, 0, 0, 0, 0, 0, 0, 0, 0, 1,
      0, 0, 0, 2, 0x7b, 0x7d] from rfl) .nil)).1

end WotAv.Media.IpcFrameDecoder
