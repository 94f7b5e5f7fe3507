import WotAv.Native.Jpeg

/-!
# What the rewritten JPEG is made of

A header stream is read as its parts: one for each table, and one for each
other segment. The rewritten stream has the native parts that no part of the
extension overrides, the parts of the extension and the native scan, whose
selectors name the same components as before.
-/

namespace WotAv.Native

open WotAv.Lib

-- Reads that stay inside

/-- What is returned is a `Q`, and nothing was read outside the buffer. -/
def Reads (Q : α → Prop) : Reading α → Prop
  | .ok a => Q a
  | .error fault => fault ≠ .outside

namespace Reads

variable {α β : Type} {P : α → Prop} {Q : β → Prop}

theorem bind {x : Reading α} {f : α → Reading β} (hx : Reads P x) (hf : ∀ a, P a → Reads Q (f a)) :
    Reads Q (x >>= f) := by
  cases x with
  | ok a => exact hf a hx
  | error fault => exact hx

theorem stop (status : MediaJpegStatus) : Reads P (stop status) := JpegFault.noConfusion

theorem mono {P' : α → Prop} {x : Reading α} (h : Reads P x) (hp : ∀ a, P a → P' a) : Reads P' x := by
  cases x with
  | ok a => exact hp a h
  | error fault => exact h

theorem copy {bytes : Bytes} (h : offset + length ≤ bytes.length) :
    Reads (fun read => read = (bytes.drop offset).take length) (copy bytes offset length) := by
  unfold Native.copy
  rw [if_pos h]
  rfl

theorem read8 {bytes : Bytes} (h : offset + 1 ≤ bytes.length) :
    Reads (fun n => n = readBE 1 offset bytes) (read8 bytes offset) :=
  (Reads.copy h).bind fun _ hr => congrArg beNat hr

theorem read16 {bytes : Bytes} (h : offset + 2 ≤ bytes.length) :
    Reads (fun n => n = readBE 2 offset bytes) (read16 bytes offset) :=
  (Reads.copy h).bind fun _ hr => congrArg beNat hr

end Reads

-- Parts

structure JpegPart where
  marker : Nat
  table : Nat
  body : Bytes

def JpegPart.segment (part : JpegPart) : JpegSegment := addSegment part.marker part.table part.body

def JpegPart.bytes (part : JpegPart) : Bytes :=
  beBytes 1 0xff ++ (beBytes 1 part.marker ++ (beBytes 2 (part.body.length + 2) ++ part.body))

/-- The table says itself how long it is: 64 values of one or two bytes, or
the codes that its 16 counts announce. -/
structure JpegPart.IsTable (part : JpegPart) : Prop where
  marker : part.marker = 0xdb ∨ part.marker = 0xc4
  quantization : part.marker = 0xdb → part.table = readBE 1 0 part.body &&& 15 ∧
    part.body.length = 1 + 64 * (1 + readBE 1 0 part.body >>> 4)
  huffman : part.marker = 0xc4 → part.table = readBE 1 0 part.body ∧
    part.body.length = 17 + (((part.body.drop 1).take 16).map UInt8.toNat).sum

inductive Splits (marker : Nat) : Bytes → List JpegPart → Prop
  | whole (h : marker ≠ 0xdb ∧ marker ≠ 0xc4) : Splits marker body [⟨marker, 0, body⟩]
  | tables (hne : parts ≠ []) (h : ∀ part ∈ parts, part.marker = marker ∧ part.IsTable) :
      Splits marker (parts.flatMap JpegPart.body) parts

/-- A stream of segments, each after one byte 0xff or more, and its parts. -/
inductive HeaderStream : Bytes → List JpegPart → Prop
  | nil : HeaderStream [] []
  | snoc (fill : Nat) (h : HeaderStream bytes parts) (hs : Splits marker body more) (hmarker : marker < 256)
      (hsize : body.length + 2 < 65536) :
      HeaderStream (bytes ++ (.replicate fill 0xff ++ (beBytes 1 0xff ++ (beBytes 1 marker ++
        (beBytes 2 (body.length + 2) ++ body))))) (parts ++ more)

structure FrameOf (parts : List JpegPart) (frame : JpegPart) (width height : Nat) : Prop where
  only : parts.filter (·.marker = 0xc0) = [frame]
  length : frame.body.length = 15
  width : readBE 2 3 frame.body = width ∧ 0 < width
  height : readBE 2 1 frame.body = height ∧ 0 < height
  distinct : readBE 1 6 frame.body ≠ readBE 1 9 frame.body ∧ readBE 1 6 frame.body ≠ readBE 1 12 frame.body ∧
    readBE 1 9 frame.body ≠ readBE 1 12 frame.body

-- Tables

variable {bytes : Bytes}

theorem tableCount_reads {code : Nat} (hcode : code = 0xdb ∨ code = 0xc4) (left : Nat)
    (hleft : offset + left ≤ bytes.length) :
    Reads (fun count => (code = 0xdb → count = 1 + 64 * (1 + index >>> 4)) ∧
      (code = 0xc4 → 17 ≤ left ∧ count = 17 + (((bytes.drop (offset + 1)).take 16).map UInt8.toNat).sum))
      (tableCount bytes code offset left index) := by
  unfold tableCount
  rcases hcode with rfl | rfl
  · exact ⟨fun _ => rfl, nofun⟩
  · rw [if_neg (by decide)]
    split
    · exact .stop _
    · refine (Reads.copy (by omega)).bind fun counts hc => ?_
      subst hc
      dsimp only
      split
      · exact .stop _
      · exact ⟨nofun, fun _ => ⟨by omega, rfl⟩⟩

theorem readBE_take {buffer : Bytes} (h : offset + width ≤ n) :
    readBE width offset (buffer.take n) = readBE width offset buffer := by
  unfold readBE
  rw [List.drop_take, List.take_take, Nat.min_eq_left (by omega)]

structure TablesAt (bytes : Bytes) (code body consumed : Nat) (parts : List JpegPart) : Prop where
  tables : ∀ part ∈ parts, part.marker = code ∧ part.IsTable
  bytes : parts.flatMap JpegPart.body = (bytes.drop body).take consumed
  some : 0 < consumed → parts ≠ []

theorem TablesAt.next (h : TablesAt bytes code body consumed parts) (hcode : code = 0xdb ∨ code = 0xc4)
    (hquantization : code = 0xdb → count = 1 + 64 * (1 + readBE 1 (body + consumed) bytes >>> 4))
    (hhuffman : code = 0xc4 → count = 17 + (((bytes.drop (body + consumed + 1)).take 16).map UInt8.toNat).sum)
    (hend : body + consumed + count ≤ bytes.length) :
    TablesAt bytes code body (consumed + count) (parts ++ [⟨code,
      if code = 0xdb then readBE 1 (body + consumed) bytes &&& 15 else readBE 1 (body + consumed) bytes,
      (bytes.drop (body + consumed)).take count⟩]) := by
  have hlength : ((bytes.drop (body + consumed)).take count).length = count := by
    rw [List.length_take, List.length_drop]
    omega
  have hindex (hc : 0 < count) : readBE 1 0 ((bytes.drop (body + consumed)).take count) = readBE 1 (body + consumed) bytes := by
    rw [readBE_take (by omega), readBE_drop, Nat.add_zero]
  refine ⟨fun part hm => ?_, ?_, fun _ => by simp⟩
  · rcases List.mem_append.mp hm with hm | hm
    · exact h.tables part hm
    · obtain rfl := List.mem_singleton.mp hm
      refine ⟨rfl, hcode, fun hq => ?_, fun hh => ?_⟩
      · have hcount := hquantization hq
        dsimp only at hq ⊢
        rw [hindex (by omega), if_pos hq, hlength]
        exact ⟨rfl, hcount⟩
      · have hcount := hhuffman hh
        dsimp only at hh ⊢
        rw [hindex (by omega), if_neg (by omega), hlength]
        refine ⟨rfl, hcount.trans ?_⟩
        rw [List.drop_take, List.drop_drop, List.take_take, Nat.min_eq_left (by omega)]
  · rw [List.flatMap_append, h.bytes, List.take_add, List.drop_drop]
    simp

theorem tables_reads {code : Nat} (hcode : code = 0xdb ∨ code = 0xc4) (hbody : body + size ≤ bytes.length)
    (hlength : bytes.length < 2 ^ 32) (out : List JpegSegment) : ∀ (fuel consumed : Nat) (parts : List JpegPart),
    TablesAt bytes code body consumed parts → consumed ≤ size → size - consumed < fuel →
    Reads (fun out' => ∃ parts, out' = out ++ parts.map JpegPart.segment ∧ Splits code ((bytes.drop body).take size) parts)
      (tables bytes code body size fuel consumed (out ++ parts.map JpegPart.segment)) := by
  intro fuel
  induction fuel with
  | zero => intro consumed parts _ _ hfuel; omega
  | succ fuel ih =>
    intro consumed parts h hle hfuel
    unfold tables
    split
    · rename_i hlt
      have hleft : guintSub size consumed = size - consumed := guintSub_of_le hle (by omega)
      refine (Reads.read8 (by omega)).bind fun index hindex => ?_
      subst hindex
      dsimp only
      split
      · exact .stop _
      · refine (tableCount_reads hcode (guintSub size consumed) (by omega)).bind fun count hcount => ?_
        split
        · exact .stop _
        · rename_i hfits
          refine (Reads.copy (by omega)).bind fun table htable => ?_
          subst htable
          have hnext := h.next hcode hcount.1 (fun hc => (hcount.2 hc).2) (by omega)
          have hpos : 0 < count := by
            rcases hcode with hc | hc
            · rw [hcount.1 hc]; omega
            · rw [(hcount.2 hc).2]; omega
          have hrest := ih (consumed + count) _ hnext (by omega) (by omega)
          simpa [JpegPart.segment] using hrest
    · split
      · exact .stop _
      · obtain rfl : consumed = size := by omega
        refine ⟨parts, rfl, ?_⟩
        rw [← h.bytes]
        exact .tables (h.some (by omega)) h.tables

-- Segments

structure Knows (h : JpegHeaders) (parts : List JpegPart) : Prop where
  out : h.out = parts.map JpegPart.segment
  frame : h.haveSof = true → ∃ frame, FrameOf parts frame h.width h.height
  none : h.haveSof = false → parts.filter (·.marker = 0xc0) = [] ∧ h.width = 0 ∧ h.height = 0

variable {parts : List JpegPart}

theorem Knows.more {h : JpegHeaders} (hk : Knows h parts) (more : List JpegPart)
    (hm : ∀ part ∈ more, part.marker ≠ 0xc0) :
    Knows { h with out := h.out ++ more.map JpegPart.segment } (parts ++ more) := by
  have hfilter : more.filter (·.marker = 0xc0) = [] := by simpa [List.filter_eq_nil_iff] using hm
  refine ⟨by simp [hk.out], fun hs => ?_, fun hs => ?_⟩
  · obtain ⟨frame, hframe⟩ := hk.frame hs
    exact ⟨frame, by rw [List.filter_append, hfilter, hframe.only, List.append_nil], hframe.length, hframe.width,
      hframe.height, hframe.distinct⟩
  · obtain ⟨hnone, hw, hh⟩ := hk.none hs
    exact ⟨by rw [List.filter_append, hfilter, hnone, List.append_nil], hw, hh⟩

theorem Splits.markers {body : Bytes} (h : Splits marker body parts) : ∀ part ∈ parts, part.marker = marker ∧ part.table < 256 := by
  intro part hm
  cases h with
  | whole _ =>
    obtain rfl := List.mem_singleton.mp hm
    exact ⟨rfl, Nat.zero_lt_succ _⟩
  | tables _ hall =>
    obtain ⟨hmarker, htable⟩ := hall part hm
    refine ⟨hmarker, ?_⟩
    have hbyte : readBE 1 0 part.body < 256 := readBE_lt 1 0 part.body
    rcases htable.marker with hq | hh
    · rw [(htable.quantization hq).1]
      exact lt_of_le_of_lt Nat.and_le_right (by decide)
    · rw [(htable.huffman hh).1]
      exact hbyte

theorem frameHeader_reads {h : JpegHeaders} (hk : Knows h parts) (hbody : body + size ≤ bytes.length) :
    Reads (fun h' => ∃ more, Splits 0xc0 ((bytes.drop body).take size) more ∧ Knows h' (parts ++ more))
      (frameHeader bytes body size h) := by
  unfold frameHeader
  split
  · exact .stop _
  · rename_i hstart
    rw [not_or, Bool.not_eq_true] at hstart
    refine (Reads.read8 (by omega)).bind fun precision _ => (Reads.read8 (by omega)).bind fun components _ => ?_
    split
    · exact .stop _
    · rename_i hsize
      have hsize : size = 15 := by omega
      subst hsize
      refine (Reads.read16 (by omega)).bind fun height hheight => (Reads.read16 (by omega)).bind fun width hwidth =>
        (Reads.read8 (by omega)).bind fun first hfirst => (Reads.read8 (by omega)).bind fun second hsecond =>
        (Reads.read8 (by omega)).bind fun third hthird => ?_
      split
      · exact .stop _
      · rename_i hvalid
        refine (Reads.copy (by omega)).bind fun header hheader => ?_
        subst hheader
        obtain ⟨hnone, _, _⟩ := hk.none hstart.1
        have hfield (width offset : Nat) (ho : offset + width ≤ 15) :
            readBE width offset ((bytes.drop body).take 15) = readBE width (body + offset) bytes := by
          rw [readBE_take ho, readBE_drop]
        refine ⟨[⟨0xc0, 0, (bytes.drop body).take 15⟩], .whole (by decide), by simp [hk.out, JpegPart.segment], fun _ => ?_, nofun⟩
        refine ⟨⟨0xc0, 0, (bytes.drop body).take 15⟩, by rw [List.filter_append, hnone]; rfl, ?_, ?_, ?_, ?_⟩
        · rw [List.length_take, List.length_drop]
          omega
        · rw [hfield 2 3 (by decide), ← hwidth]
          exact ⟨rfl, Nat.pos_of_ne_zero fun hz => hvalid (.inl hz)⟩
        · rw [hfield 2 1 (by decide), ← hheight]
          exact ⟨rfl, Nat.pos_of_ne_zero fun hz => hvalid (.inr (.inl hz))⟩
        · rw [hfield 1 6 (by decide), hfield 1 9 (by decide), hfield 1 12 (by decide), ← hfirst, ← hsecond, ← hthird]
          omega

theorem segment_reads {h : JpegHeaders} (hk : Knows h parts) (hbody : body + size ≤ bytes.length)
    (hlength : bytes.length < 2 ^ 32) (code : Nat) :
    Reads (fun h' => ∃ more, Splits code ((bytes.drop body).take size) more ∧ Knows h' (parts ++ more))
      (segment bytes code body size h) := by
  unfold segment
  split
  · rename_i hcode
    have hstart : TablesAt bytes code body 0 [] := ⟨nofun, rfl, nofun⟩
    have htables := tables_reads hcode hbody hlength h.out (size + 1) 0 [] hstart (Nat.zero_le _) (by omega)
    simp only [List.map_nil, List.append_nil] at htables
    refine htables.bind fun out hout => ?_
    obtain ⟨more, rfl, hsplits⟩ := hout
    refine ⟨more, hsplits, hk.more more fun part hm => ?_⟩
    rw [(hsplits.markers part hm).1]
    omega
  · split
    · rename_i hcode
      subst hcode
      exact frameHeader_reads hk hbody
    · split
      · rename_i htable hframe _
        refine (Reads.copy hbody).bind fun content hcontent => ?_
        subst hcontent
        refine ⟨_, .whole (by omega), hk.more [⟨code, 0, (bytes.drop body).take size⟩] fun part hm => ?_⟩
        rw [List.mem_singleton.mp hm]
        exact hframe
      · exact .stop _

-- Streams

theorem take_fill (bytes : Bytes) (offset : Nat) :
    (bytes.drop offset).take (fillBytes bytes bytes.length offset) = .replicate (fillBytes bytes bytes.length offset) 0xff ∧
      offset + fillBytes bytes bytes.length offset ≤ max offset bytes.length := by
  unfold fillBytes
  rw [List.take_length]
  constructor
  · rw [← List.prefix_iff_eq_take.mp (List.takeWhile_prefix _)]
    refine List.eq_replicate_iff.mpr ⟨rfl, fun b hb => ?_⟩
    simpa using List.all_eq_true.mp List.all_takeWhile b hb
  · have hle := (List.takeWhile_prefix (fun b : UInt8 => decide (b = 0xff)) (l := bytes.drop offset)).length_le
    rw [List.length_drop] at hle
    omega

theorem fill_pos (hlt : offset < bytes.length) (h : readBE 1 offset bytes = 0xff) :
    0 < fillBytes bytes bytes.length offset := by
  unfold fillBytes
  rw [List.take_length]
  have hdrop : bytes.drop offset = bytes[offset] :: bytes.drop (offset + 1) := List.drop_eq_getElem_cons hlt
  have hbyte : bytes[offset] = 0xff := by
    rw [readBE, hdrop, List.take_succ_cons, List.take_zero] at h
    have hnat : bytes[offset].toNat = 255 := by simpa [beNat] using h
    exact UInt8.toNat_inj.mp hnat
  rw [hdrop, hbyte]
  simp

theorem drop_take_add (hs : start ≤ offset) (ho : offset ≤ bytes.length) (n : Nat) :
    (bytes.take (offset + n)).drop start = (bytes.take offset).drop start ++ (bytes.drop offset).take n := by
  rw [List.take_add, List.drop_append_of_le_length]
  rw [List.length_take]
  omega

theorem take_segment (n size : Nat) (hn : 0 < n) (hfill : (bytes.drop offset).take n = .replicate n 0xff)
    (hsize : 2 ≤ size) (hend : offset + n + 1 + size ≤ bytes.length) (hread : readBE 2 (offset + n + 1) bytes = size) :
    (bytes.drop offset).take (n + 1 + size) = .replicate (n - 1) 0xff ++ (beBytes 1 0xff ++
      (beBytes 1 (readBE 1 (offset + n) bytes) ++ (beBytes 2 (((bytes.drop (offset + n + 3)).take (size - 2)).length + 2) ++
        (bytes.drop (offset + n + 3)).take (size - 2)))) := by
  have hbody : ((bytes.drop (offset + n + 3)).take (size - 2)).length + 2 = size := by
    rw [List.length_take, List.length_drop]
    omega
  have hreplicate : (List.replicate n 0xff : Bytes) = .replicate (n - 1) 0xff ++ beBytes 1 0xff := by
    obtain ⟨n, rfl⟩ := Nat.exists_eq_succ_of_ne_zero (Nat.ne_of_gt hn)
    rw [List.replicate_succ']
    rfl
  have hsplit : size = 2 + (size - 2) := by omega
  rw [hbody, beBytes_readBE (by omega), List.take_add, List.take_add, hfill, hreplicate]
  nth_rewrite 1 [hsplit]
  rw [List.take_add, List.drop_drop, List.drop_drop, List.drop_drop, ← hread, beBytes_readBE (by omega)]
  simp [Nat.add_assoc]

theorem drop_scan (hn : 0 < n) (hfill : (bytes.drop offset).take n = .replicate n 0xff)
    (hlt : offset + n < bytes.length) (hmarker : readBE 1 (offset + n) bytes = 0xda) :
    bytes.drop offset = .replicate (n - 1) 0xff ++ bytes.drop (offset + n - 1) ∧
      (bytes.drop (offset + n - 1)).take 2 = [0xff, 0xda] := by
  obtain ⟨n, rfl⟩ := Nat.exists_eq_succ_of_ne_zero (Nat.ne_of_gt hn)
  have hrest : bytes.drop offset = .replicate n 0xff ++ (0xff :: bytes.drop (offset + (n + 1))) := by
    rw [← List.take_append_drop (n + 1) (bytes.drop offset), List.drop_drop, hfill, List.replicate_succ', List.append_assoc]
    rfl
  have hscan : bytes.drop (offset + n) = 0xff :: bytes.drop (offset + (n + 1)) := by
    rw [← List.drop_drop, hrest, List.drop_left' List.length_replicate]
  have hda : (bytes.drop (offset + (n + 1))).take 1 = [0xda] := by
    rw [← beBytes_readBE (by omega), hmarker]
    rfl
  refine ⟨?_, ?_⟩
  · simp only [Nat.succ_sub_one, Nat.succ_eq_add_one, ← Nat.add_assoc]
    rw [hrest, hscan]
  · simp only [Nat.succ_eq_add_one, ← Nat.add_assoc, Nat.add_sub_cancel]
    rw [hscan, List.take_succ_cons, hda]

/-- What `segments` returns for an extension or, from its scan on, for a JPEG. -/
structure Parsed (bytes : Bytes) (start : Nat) (extension : Bool) (h : JpegHeaders) (parts : List JpegPart) : Prop where
  knows : Knows h parts
  stream : ∃ stream fill, HeaderStream stream parts ∧
    bytes.drop start = stream ++ (.replicate fill 0xff ++ if extension then [] else bytes.drop h.tail)
  scan : extension = false → h.haveSof ∧ (bytes.drop h.tail).take 2 = [0xff, 0xda] ∧ h.tail + 2 ≤ bytes.length

theorem segmentsFrom_reads (hlength : bytes.length < 2 ^ 32) (extension : Bool)
    (start : Nat) : ∀ (fuel offset : Nat) (h : JpegHeaders) (parts : List JpegPart), start ≤ offset → offset ≤ bytes.length →
    bytes.length - offset < fuel → HeaderStream ((bytes.take offset).drop start) parts → Knows h parts →
    Reads (fun h' => ∃ parts, Parsed bytes start extension h' parts)
      (segmentsFrom bytes bytes.length extension fuel offset h) := by
  intro fuel
  induction fuel with
  | zero => intro offset h parts _ _ hfuel; omega
  | succ fuel ih =>
    intro offset h parts hstart hoffset hfuel hstream hk
    have hwhole : bytes.drop start = (bytes.take offset).drop start ++ bytes.drop offset := by
      conv_lhs => rw [← List.take_append_drop offset bytes]
      rw [List.drop_append_of_le_length]
      rw [List.length_take]
      omega
    unfold segmentsFrom
    split
    · rename_i hlt
      refine (Reads.read8 hlt).bind fun first hfirst => ?_
      subst hfirst
      split
      · exact .stop _
      · rename_i hff
        rw [not_not] at hff
        have hpos := fill_pos hlt hff
        obtain ⟨hfill, hend⟩ := take_fill bytes offset
        rw [max_eq_right hoffset] at hend
        generalize fillBytes bytes bytes.length offset = n at hpos hfill hend
        dsimp only
        have hrest : bytes.drop offset = .replicate n 0xff ++ bytes.drop (offset + n) := by
          rw [← hfill, ← List.drop_drop, List.take_append_drop]
        split
        · rename_i hlast
          cases extension with
          | false => exact .stop _
          | true =>
            refine ⟨parts, hk, ⟨_, n, hstream, ?_⟩, nofun⟩
            rw [hwhole, hrest, hlast, List.drop_length]
            rfl
        · rename_i hlast
          refine (Reads.read8 (by omega)).bind fun code hcode => ?_
          subst hcode
          split
          · rename_i hscan
            obtain rfl : extension = false := by simpa using hscan.2
            split
            · rename_i hsof
              obtain ⟨hdrop, htake⟩ := drop_scan hpos hfill (by omega) hscan.1
              refine ⟨parts, ⟨hk.out, hk.frame, hk.none⟩, ⟨_, n - 1, hstream, ?_⟩, fun _ => ⟨hsof, htake, by dsimp only; omega⟩⟩
              rw [hwhole, hdrop]
              rfl
            · exact .stop _
          · have hsub : guintSub bytes.length (offset + n + 1) = bytes.length - (offset + n + 1) :=
              guintSub_of_le (by omega) hlength
            rw [hsub]
            split
            · exact .stop _
            · refine (Reads.read16 (by omega)).bind fun size hsize => ?_
              split
              · exact .stop _
              · rename_i hfits
                rw [not_or, Nat.not_lt, Nat.not_lt] at hfits
                refine (segment_reads hk (by omega) hlength _).bind fun h' hh' => ?_
                obtain ⟨more, hsplits, hk'⟩ := hh'
                split
                · exact .stop _
                · have hnext : HeaderStream ((bytes.take (offset + n + 1 + size)).drop start) (parts ++ more) := by
                    rw [show offset + n + 1 + size = offset + (n + 1 + size) by omega, drop_take_add hstart hoffset,
                      take_segment n size hpos hfill hfits.1 (by omega) hsize.symm]
                    refine .snoc (n - 1) hstream hsplits (readBE_lt 1 _ _) ?_
                    have hlt : readBE 2 (offset + n + 1) bytes < 65536 := readBE_lt 2 _ _
                    rw [List.length_take, List.length_drop]
                    omega
                  exact ih (offset + n + 1 + size) h' (parts ++ more) (by omega) (by omega) (by omega) hnext hk'
    · split
      · rename_i hextension
        subst hextension
        have hend : offset = bytes.length := by omega
        refine ⟨parts, hk, ⟨_, 0, hstream, ?_⟩, nofun⟩
        rw [hwhole, hend, List.drop_length]
        rfl
      · exact .stop _

theorem segments_reads (hlength : bytes.length < 2 ^ 32) (extension : Bool) :
    Reads (fun h => ∃ parts, Parsed bytes (if extension then 0 else 2) extension h parts ∧
      (extension = false → bytes.take 2 = [0xff, 0xd8])) (segments bytes bytes.length extension) := by
  have hk : Knows {} [] := ⟨rfl, nofun, fun _ => ⟨rfl, rfl, rfl⟩⟩
  unfold segments
  split
  · rename_i hextension
    subst hextension
    have hreads := segmentsFrom_reads hlength true 0 (bytes.length + 1) 0 {} [] le_rfl (Nat.zero_le _) (by omega)
      (by simpa using HeaderStream.nil) hk
    exact hreads.mono fun h ⟨parts, hp⟩ => ⟨parts, hp, nofun⟩
  · rename_i hextension
    obtain rfl : extension = false := by simpa using hextension
    split
    · exact .stop _
    · refine (Reads.read16 (by omega)).bind fun soi hsoi => ?_
      split
      · exact .stop _
      · rename_i hmarker
        rw [not_not, hsoi] at hmarker
        have htake : bytes.take 2 = [0xff, 0xd8] := by
          have hfield : beBytes 2 (readBE 2 0 bytes) = bytes.take 2 := beBytes_readBE (by omega)
          rw [hmarker] at hfield
          exact hfield.symm
        have hreads := segmentsFrom_reads hlength false 2 (bytes.length + 1) 2 {} [] le_rfl (by omega) (by omega)
          (by rw [htake]; exact .nil) hk
        exact hreads.mono fun h ⟨parts, hp⟩ => ⟨parts, hp, fun _ => htake⟩

-- Keys

/-- A marker and a table number of one byte each; a frame header has no table. -/
structure JpegPart.Keyed (part : JpegPart) : Prop where
  marker : part.marker < 256
  table : part.table < 256
  frame : part.marker = 0xc0 → part.table = 0

theorem Splits.keyed {body : Bytes} (h : Splits marker body parts) (hmarker : marker < 256) : ∀ part ∈ parts, part.Keyed := by
  intro part hm
  obtain ⟨hp, ht⟩ := h.markers part hm
  refine ⟨hp ▸ hmarker, ht, fun hframe => ?_⟩
  cases h with
  | whole _ =>
    obtain rfl := List.mem_singleton.mp hm
    rfl
  | tables _ hall =>
    have hmark := (hall part hm).2.marker
    omega

theorem HeaderStream.keyed (h : HeaderStream bytes parts) : ∀ part ∈ parts, part.Keyed := by
  induction h with
  | nil => exact nofun
  | snoc fill _ hs hmarker _ ih =>
    intro part hm
    rcases List.mem_append.mp hm with hm | hm
    · exact ih part hm
    · exact hs.keyed hmarker part hm

theorem JpegPart.Keyed.key {part : JpegPart} (h : part.Keyed) : part.segment.key = part.marker * 256 + part.table := by
  have hkey : part.marker <<< 8 ||| part.table = part.marker <<< 8 + part.table :=
    (Nat.shiftLeft_add_eq_or_of_lt h.table part.marker).symm
  change part.marker <<< 8 ||| part.table = _
  rw [hkey, Nat.shiftLeft_eq]

theorem JpegPart.Keyed.key_inj {a b : JpegPart} (ha : a.Keyed) (hb : b.Keyed) :
    a.segment.key = b.segment.key ↔ a.marker = b.marker ∧ a.table = b.table := by
  have h₁ := ha.table
  have h₂ := hb.table
  rw [ha.key, hb.key]
  omega

theorem JpegPart.Keyed.key_marker {part : JpegPart} (h : part.Keyed) : part.segment.key >>> 8 = part.marker := by
  have h₁ := h.table
  rw [h.key, Nat.shiftRight_eq_div_pow]
  omega

-- Assembling

theorem overrideKeys_reads (overrides : List JpegSegment) : ∀ keys : List Nat,
    Reads (fun keys' => keys' = keys ++ overrides.map JpegSegment.key ∧
      (∀ s ∈ overrides, s.key >>> 8 < 0xe0 → s.key ∉ keys) ∧
      overrides.Pairwise fun a b => b.key >>> 8 < 0xe0 → a.key ≠ b.key) (overrideKeys overrides keys) := by
  induction overrides with
  | nil => intro keys; exact ⟨by simp, nofun, .nil⟩
  | cons segment overrides ih =>
    intro keys
    unfold overrideKeys
    split
    · exact .stop _
    · rename_i hfree
      refine (ih (keys ++ [segment.key])).mono fun keys' ⟨hkeys, hnew, hpair⟩ => ⟨by simp [hkeys], ?_, ?_⟩
      · intro s hm hlow hin
        rcases List.mem_cons.mp hm with rfl | hm
        · exact hfree ⟨hin, hlow⟩
        · exact hnew s hm hlow (List.mem_append_left _ hin)
      · refine List.pairwise_cons.mpr ⟨fun s hm hlow heq => ?_, hpair⟩
        exact hnew s hm hlow (List.mem_append_right _ (by simp [heq]))

theorem appendSegments_reads {maximum : Nat} (hmaximum : maximum < 2 ^ 32) (keys : List Nat)
    (segments : List (JpegSegment × Bool)) : ∀ result : Bytes, result.length ≤ maximum →
    Reads (fun r => r = result ++ (segments.filter fun s => !(s.2 && decide (s.1.key ∈ keys))).flatMap (fun s => s.1.bytes) ∧
      r.length ≤ maximum) (appendSegments maximum keys segments result) := by
  induction segments with
  | nil => intro result h; exact ⟨by simp, h⟩
  | cons s segments ih =>
    intro result h
    obtain ⟨segment, isNative⟩ := s
    unfold appendSegments
    split
    · rename_i hover
      refine (ih result h).mono fun r hr => ?_
      simpa [hover.1, hover.2] using hr
    · rename_i hover
      rw [guintSub_of_le h hmaximum]
      split
      · exact .stop _
      · refine (ih (result ++ segment.bytes) (by rw [List.length_append]; omega)).mono fun r ⟨hr, hle⟩ => ⟨?_, hle⟩
        have hkeep : (!(isNative && decide (segment.key ∈ keys))) = true := by
          cases isNative <;> simp_all
        rw [hr, List.filter_cons_of_pos (by simpa using hkeep), List.flatMap_cons, List.append_assoc]

theorem copy_one (h : offset < bytes.length) : (bytes.drop offset).take 1 = [bytes[offset]] := by
  rw [List.drop_eq_getElem_cons h, List.take_succ_cons, List.take_zero]

theorem selectors_reads {nativeIds outputIds : Bytes} (hn : nativeIds.length = 3) (ho : outputIds.length = 3) (scan : Nat)
    (positions : List Nat) : ∀ result : Bytes, positions.Nodup → (∀ i ∈ positions, scan + 5 + 2 * i < result.length) →
    Reads (fun r => r.length = result.length ∧ (∀ k, (∀ i ∈ positions, k ≠ scan + 5 + 2 * i) → r[k]? = result[k]?) ∧
      ∀ i ∈ positions, ∃ component < 3, result[scan + 5 + 2 * i]? = nativeIds[component]? ∧
        r[scan + 5 + 2 * i]? = outputIds[component]?)
      (selectors nativeIds outputIds scan positions result) := by
  induction positions with
  | nil => intro result _ _; exact ⟨rfl, fun _ _ => rfl, nofun⟩
  | cons i positions ih =>
    intro result hnodup hinside
    obtain ⟨hi, hnodup⟩ := List.nodup_cons.mp hnodup
    have hlt := hinside i List.mem_cons_self
    unfold selectors
    refine (Reads.copy (by omega)).bind fun selector hselector => ?_
    subst hselector
    split
    · exact .stop _
    · rename_i component hfind
      have hmem := List.mem_range.mp (List.mem_of_find?_eq_some hfind)
      have hequal : (nativeIds.drop component).take 1 = (result.drop (scan + 5 + 2 * i)).take 1 := by
        simpa using List.find?_some hfind
      rw [copy_one (by omega), copy_one hlt] at hequal
      refine (Reads.copy (by omega)).bind fun id hid => ?_
      rw [copy_one (by omega)] at hid
      subst hid
      have hset : result.take (scan + 5 + 2 * i) ++ ([outputIds[component]] ++ result.drop (scan + 5 + 2 * i + 1)) =
          result.set (scan + 5 + 2 * i) outputIds[component] := by
        rw [List.set_eq_take_append_cons_drop, if_pos hlt]
        rfl
      rw [hset]
      refine (ih _ hnodup fun j hj => by simpa using hinside j (List.mem_cons_of_mem _ hj)).mono fun r ⟨hl, hsame, hids⟩ => ?_
      refine ⟨by simpa using hl, fun k hk => ?_, fun j hj => ?_⟩
      · rw [hsame k fun j hj => hk j (List.mem_cons_of_mem _ hj), List.getElem?_set_ne]
        exact (hk i List.mem_cons_self).symm
      · rcases List.mem_cons.mp hj with rfl | hj
        · refine ⟨component, hmem, ?_, ?_⟩
          · rw [List.getElem?_eq_getElem hlt, List.getElem?_eq_getElem (by omega)]
            simpa using hequal.symm
          · rw [hsame _ fun k hk he => hi (by
              obtain rfl : j = k := by omega
              exact hk), List.getElem?_set_self hlt, List.getElem?_eq_getElem (by omega)]
        · obtain ⟨other, hother, hold, hnew⟩ := hids j hj
          refine ⟨other, hother, ?_, hnew⟩
          rw [← hold, List.getElem?_set_ne]
          intro he
          exact hi (by
            obtain rfl : i = j := by omega
            exact hj)

def JpegPart.ids (frame : JpegPart) : Bytes :=
  (frame.body.drop 6).take 1 ++ ((frame.body.drop 9).take 1 ++ (frame.body.drop 12).take 1)

theorem frameOf_ids (h : FrameOf parts frame width height) : frame.ids.length = 3 ∧
    ∀ component < 3, frame.ids[component]? = frame.body[6 + 3 * component]? := by
  have hl := h.length
  have hids : frame.ids = [frame.body[6], frame.body[9], frame.body[12]] := by
    rw [JpegPart.ids, copy_one (by omega), copy_one (by omega), copy_one (by omega)]
    rfl
  refine ⟨by rw [hids]; rfl, fun component hc => ?_⟩
  rw [hids]
  obtain rfl | rfl | rfl : component = 0 ∨ component = 1 ∨ component = 2 := by omega
  · exact (List.getElem?_eq_getElem (by omega)).symm
  · exact (List.getElem?_eq_getElem (by omega)).symm
  · exact (List.getElem?_eq_getElem (by omega)).symm

section
variable (hk : ∀ part ∈ parts, part.Keyed)
include hk

theorem find_frame :
    (parts.map JpegPart.segment).find? (·.key = 0xc000) = (parts.filter (·.marker = 0xc0)).head?.map JpegPart.segment := by
  induction parts with
  | nil => rfl
  | cons part parts ih =>
    have hpart := hk part List.mem_cons_self
    have ih := ih fun p hp => hk p (List.mem_cons_of_mem _ hp)
    have htable := hpart.table
    by_cases hm : part.marker = 0xc0
    · have hkey : part.segment.key = 0xc000 := by rw [hpart.key, hm, hpart.frame hm]
      simp [hkey, hm]
    · have hkey : part.segment.key ≠ 0xc000 := by rw [hpart.key]; omega
      simpa [hkey, hm] using ih

theorem componentIds_frame
    (h : FrameOf parts frame width height) :
    Reads (fun ids => ids = some frame.ids) (componentIds (parts.map JpegPart.segment)) := by
  have hl := h.length
  have hbytes : frame.segment.bytes = beBytes 1 0xff ++ (beBytes 1 frame.marker ++ (beBytes 2 (frame.body.length + 2) ++ frame.body)) := rfl
  have hlength : frame.segment.bytes.length = 19 := by
    rw [hbytes]
    simp [hl]
  unfold componentIds
  rw [find_frame hk, h.only]
  refine (Reads.copy (by rw [hlength]; decide)).bind fun first hfirst =>
    (Reads.copy (by rw [hlength]; decide)).bind fun second hsecond =>
    (Reads.copy (by rw [hlength]; decide)).bind fun third hthird => ?_
  subst hfirst hsecond hthird
  change some _ = some _
  rw [hbytes]
  simp [JpegPart.ids]

theorem componentIds_none
    (h : parts.filter (·.marker = 0xc0) = []) : componentIds (parts.map JpegPart.segment) = .ok none := by
  unfold componentIds
  rw [find_frame hk, h]
  rfl

end

-- The rewritten stream

def JpegPart.overridden (overrides : List JpegPart) (part : JpegPart) : Bool :=
  overrides.any fun other => other.marker = part.marker && other.table = part.table

/-- The frame header in force: that of the extension, else the native one. -/
def InForce (native overrides : List JpegPart) (frame : JpegPart) (width height : Nat) : Prop :=
  FrameOf overrides frame width height ∨
    overrides.filter (·.marker = 0xc0) = [] ∧ FrameOf native frame width height

theorem flatMap_kept {native overrides : List JpegPart} (hn : ∀ part ∈ native, part.Keyed) (ho : ∀ part ∈ overrides, part.Keyed) :
    ((((native.map JpegPart.segment).map (·, true) ++ (overrides.map JpegPart.segment).map (·, false)).filter fun s =>
      !(s.2 && decide (s.1.key ∈ [] ++ (overrides.map JpegPart.segment).map JpegSegment.key))).flatMap fun s => s.1.bytes) =
    (native.filter fun part => !part.overridden overrides).flatMap JpegPart.bytes ++ overrides.flatMap JpegPart.bytes := by
  have hsame : ∀ part ∈ native, (decide (part.segment.key ∈ [] ++ (overrides.map JpegPart.segment).map JpegSegment.key)) =
      part.overridden overrides := by
    intro part hm
    rw [Bool.eq_iff_iff]
    simp only [List.nil_append, List.map_map, List.mem_map, decide_eq_true_eq, JpegPart.overridden, List.any_eq_true,
      Bool.and_eq_true]
    refine exists_congr fun other => and_congr_right fun hother => ?_
    exact (ho other hother).key_inj (hn part hm)
  have hnative : ((native.map JpegPart.segment).map (·, true)).filter (fun s =>
      !(s.2 && decide (s.1.key ∈ [] ++ (overrides.map JpegPart.segment).map JpegSegment.key))) =
      ((native.filter fun part => !part.overridden overrides).map JpegPart.segment).map (·, true) := by
    rw [List.filter_map, List.filter_map]
    refine congrArg (List.map (·, true)) (congrArg (List.map JpegPart.segment) (List.filter_congr fun part hm => ?_))
    simpa using hsame part hm
  have hoverrides : ((overrides.map JpegPart.segment).map (·, false)).filter (fun s =>
      !(s.2 && decide (s.1.key ∈ [] ++ (overrides.map JpegPart.segment).map JpegSegment.key))) =
      (overrides.map JpegPart.segment).map (·, false) := by
    refine List.filter_eq_self.mpr fun s hs => ?_
    obtain ⟨segment, _, rfl⟩ := List.mem_map.mp hs
    rfl
  have hbytes (parts : List JpegPart) (isNative : Bool) :
      ((parts.map JpegPart.segment).map (·, isNative)).flatMap (fun s => s.1.bytes) = parts.flatMap JpegPart.bytes := by
    rw [List.flatMap_map, List.flatMap_map]
    rfl
  rw [List.filter_append, hnative, hoverrides, List.flatMap_append, hbytes, hbytes]

structure Selected (nativeFrame frame : JpegPart) (scan scan' : Bytes) : Prop where
  length : scan'.length = scan.length
  unchanged : ∀ k, k ≠ 5 → k ≠ 7 → k ≠ 9 → scan'[k]? = scan[k]?
  selectors : ∀ i < 3, ∃ component < 3,
    scan[5 + 2 * i]? = nativeFrame.body[6 + 3 * component]? ∧ scan'[5 + 2 * i]? = frame.body[6 + 3 * component]?

def Assembled (input : Bytes) (maximum : Nat) (native overrides : JpegHeaders) (nativeParts overrideParts : List JpegPart)
    (bytes : Bytes) : Prop := ∃ nativeFrame frame scan',
  bytes = [0xff, 0xd8] ++ ((nativeParts.filter fun part => !part.overridden overrideParts).flatMap JpegPart.bytes ++
    (overrideParts.flatMap JpegPart.bytes ++ scan')) ∧ bytes.length ≤ maximum ∧ 14 ≤ (input.drop native.tail).length ∧
  (overrideParts.Pairwise fun a b => b.marker < 0xe0 → ¬(a.marker = b.marker ∧ a.table = b.table)) ∧
  FrameOf nativeParts nativeFrame native.width native.height ∧
  InForce nativeParts overrideParts frame (if overrides.width = 0 then native.width else overrides.width)
    (if overrides.width = 0 then native.height else overrides.height) ∧
  Selected nativeFrame frame (input.drop native.tail) scan'

theorem inForce_reads {native overrides : JpegHeaders} {nativeParts overrideParts : List JpegPart}
    (hnative : FrameOf nativeParts nativeFrame native.width native.height) (ho : Knows overrides overrideParts)
    (hok : ∀ part ∈ overrideParts, part.Keyed) : ∃ frame,
    InForce nativeParts overrideParts frame (if overrides.width = 0 then native.width else overrides.width)
      (if overrides.width = 0 then native.height else overrides.height) ∧
    (frame.ids.length = 3 ∧ ∀ component < 3, frame.ids[component]? = frame.body[6 + 3 * component]?) ∧
    Reads (fun ids => ids.getD nativeFrame.ids = frame.ids) (componentIds overrides.out) := by
  rw [ho.out]
  cases hsof : overrides.haveSof with
  | true =>
    obtain ⟨frame, hframe⟩ := ho.frame hsof
    have hwidth : overrides.width ≠ 0 := Nat.ne_of_gt hframe.width.2
    refine ⟨frame, .inl ?_, frameOf_ids hframe, (componentIds_frame hok hframe).mono fun ids hids => ?_⟩
    · rwa [if_neg hwidth, if_neg hwidth]
    · rw [hids]
      rfl
  | false =>
    obtain ⟨hnone, hwidth, _⟩ := ho.none hsof
    refine ⟨nativeFrame, .inr ⟨hnone, ?_⟩, frameOf_ids hnative, ?_⟩
    · rwa [if_pos hwidth, if_pos hwidth]
    · rw [componentIds_none hok hnone]
      rfl

theorem scan_reads {nativeFrame frame : JpegPart} {result scan : Bytes} (hscan : 14 ≤ scan.length)
    (hn : nativeFrame.ids.length = 3 ∧ ∀ component < 3, nativeFrame.ids[component]? = nativeFrame.body[6 + 3 * component]?)
    (hf : frame.ids.length = 3 ∧ ∀ component < 3, frame.ids[component]? = frame.body[6 + 3 * component]?) :
    Reads (fun r => ∃ scan', r = result ++ scan' ∧ Selected nativeFrame frame scan scan')
      (selectors nativeFrame.ids frame.ids result.length [0, 1, 2] (result ++ scan)) := by
  have hinside : ∀ i ∈ [0, 1, 2], result.length + 5 + 2 * i < (result ++ scan).length := by
    intro i hi
    rw [List.length_append]
    simp only [List.mem_cons, List.not_mem_nil, or_false] at hi
    omega
  refine (selectors_reads hn.1 hf.1 result.length [0, 1, 2] (result ++ scan) (by decide) hinside).mono fun r hr => ?_
  obtain ⟨hlength, hsame, hids⟩ := hr
  have hfront : r.take result.length = result := by
    refine List.ext_getElem? fun k => ?_
    rw [List.getElem?_take]
    split
    · rename_i hk
      rw [hsame k (fun i _ => by omega), List.getElem?_append_left hk]
    · rename_i hk
      exact (List.getElem?_eq_none (by omega)).symm
  refine ⟨r.drop result.length, ?_, ?_, fun k h5 h7 h9 => ?_, fun i hi => ?_⟩
  · conv_lhs => rw [← List.take_append_drop result.length r, hfront]
  · rw [List.length_drop, hlength, List.length_append]
    omega
  · have hother : ∀ i ∈ [0, 1, 2], result.length + k ≠ result.length + 5 + 2 * i := by
      intro i hi
      simp only [List.mem_cons, List.not_mem_nil, or_false] at hi
      omega
    rw [List.getElem?_drop, hsame _ hother, List.getElem?_append_right (by omega), Nat.add_sub_cancel_left]
  · have hmem : i ∈ [0, 1, 2] := by
      simp only [List.mem_cons, List.not_mem_nil, or_false]
      omega
    obtain ⟨component, hc, hold, hnew⟩ := hids i hmem
    rw [List.getElem?_append_right (by omega), hn.2 component hc] at hold
    rw [hf.2 component hc] at hnew
    refine ⟨component, hc, ?_, ?_⟩
    · rw [← hold]
      congr 1
      omega
    · rw [← hnew, List.getElem?_drop, Nat.add_assoc]

theorem assemble_reads {input : Bytes} {maximum : Nat} {native overrides : JpegHeaders} {nativeParts overrideParts : List JpegPart}
    (hmaximum : maximum < 2 ^ 32) (hinput : input.length ≤ maximum) (hn : Parsed input 2 false native nativeParts)
    (hnk : ∀ part ∈ nativeParts, part.Keyed) (ho : Knows overrides overrideParts) (hok : ∀ part ∈ overrideParts, part.Keyed) :
    Reads (Assembled input maximum native overrides nativeParts overrideParts) (assemble input maximum native overrides) := by
  obtain ⟨hsof, _, htail⟩ := hn.scan rfl
  obtain ⟨nativeFrame, hnativeFrame⟩ := hn.knows.frame hsof
  obtain ⟨frame, hforce, hids, hframe⟩ := inForce_reads hnativeFrame ho hok
  unfold assemble
  refine (overrideKeys_reads overrides.out []).bind fun keys ⟨hkeys, _, hpair⟩ => ?_
  subst hkeys
  refine (appendSegments_reads hmaximum _ _ [0xff, 0xd8] (by simp only [List.length_cons, List.length_nil]; omega)).bind
    fun result ⟨hresult, hle⟩ => ?_
  rw [ho.out, List.pairwise_map] at hpair
  rw [hn.knows.out, ho.out, flatMap_kept hnk hok] at hresult
  rw [guintSub_of_le hle hmaximum]
  split
  · exact .stop _
  · rename_i hroom
    split
    · exact .stop _
    · rename_i hscan
      refine (Reads.read16 (by omega)).bind fun size _ => (Reads.read8 (by omega)).bind fun components _ => ?_
      rw [hn.knows.out]
      refine (componentIds_frame hnk hnativeFrame).bind fun nativeIds hnativeIds => ?_
      subst hnativeIds
      dsimp only
      split
      · exact .stop _
      · refine hframe.bind fun outputIds houtput => ?_
        rw [houtput]
        refine (Reads.copy (by omega)).bind fun scan hcopy => ?_
        have hlength : 14 ≤ (input.drop native.tail).length := by
          rw [List.length_drop]
          omega
        rw [List.take_of_length_le (by rw [List.length_drop])] at hcopy
        subst hcopy
        refine (scan_reads hlength (frameOf_ids hnativeFrame) hids).mono fun bytes hbytes => ?_
        obtain ⟨scan', rfl, hselected⟩ := hbytes
        refine ⟨nativeFrame, frame, scan', ?_, ?_, hlength, ?_, hnativeFrame, hforce, hselected⟩
        · rw [hresult]
          simp
        · have hl := hselected.length
          rw [List.length_drop] at hl
          rw [List.length_append]
          omega
        · refine hpair.imp_of_mem fun {a b} ha hb hab hlow heq => ?_
          have hmarker := (hok b hb).key_marker
          exact hab (by rw [hmarker]; exact hlow) (((hok a ha).key_inj (hok b hb)).mpr heq)

-- Rewriting

def gather (state : MediaJpeg) : Option MediaRtp → MediaJpeg
  | some packet => (state.push packet).1
  | none => state.reset

theorem extend_bounded {state : MediaJpeg} (packet : MediaRtp) (h : state.headers.length ≤ mediaJpegHeaderMax) :
    (state.extend packet).1.headers.length ≤ mediaJpegHeaderMax := by
  unfold MediaJpeg.extend
  rw [guintSub_of_le h (by decide)]
  split
  · exact h
  · dsimp only
    rw [List.length_append]
    omega

theorem push_bounded {state : MediaJpeg} (packet : MediaRtp) (h : state.headers.length ≤ mediaJpegHeaderMax) :
    (state.push packet).1.headers.length ≤ mediaJpegHeaderMax := by
  have hreset : state.reset.headers.length ≤ mediaJpegHeaderMax := Nat.zero_le _
  unfold MediaJpeg.push
  split
  · split
    · exact hreset
    · split
      · exact hreset
      · exact extend_bounded packet hreset
  · split
    · exact h
    · exact extend_bounded packet h

theorem gathered_bounded (calls : List (Option MediaRtp)) : ∀ state : MediaJpeg, state.headers.length ≤ mediaJpegHeaderMax →
    (calls.foldl gather state).headers.length ≤ mediaJpegHeaderMax := by
  induction calls with
  | nil => intro state h; exact h
  | cons call calls ih =>
    intro state h
    refine ih _ ?_
    cases call with
    | some packet => exact push_bounded packet h
    | none => exact Nat.zero_le _

/-- The output is the input with the parts of the extension in place of those
that they override, and with the selectors of the scan renamed. -/
structure Rewritten (headers input : Bytes) (output : JpegOutput) (native overrides : List JpegPart) (scan scan' : Bytes) : Prop where
  input : ∃ stream fill, HeaderStream stream native ∧ input = [0xff, 0xd8] ++ (stream ++ (.replicate fill 0xff ++ scan))
  starts : scan.take 2 = [0xff, 0xda] ∧ 14 ≤ scan.length
  headers : ∃ stream fill, HeaderStream stream overrides ∧ headers = stream ++ .replicate fill 0xff
  bytes : output.bytes = [0xff, 0xd8] ++ ((native.filter fun part => !part.overridden overrides).flatMap JpegPart.bytes ++
    (overrides.flatMap JpegPart.bytes ++ scan'))
  once : overrides.Pairwise fun a b => b.marker < 0xe0 → ¬(a.marker = b.marker ∧ a.table = b.table)
  frames : ∃ nativeFrame frame nativeWidth nativeHeight, FrameOf native nativeFrame nativeWidth nativeHeight ∧
    InForce native overrides frame output.width output.height ∧ Selected nativeFrame frame scan scan'

theorem rewrite_reads {state : MediaJpeg} (input : Bytes) {maximum : Nat} (hmaximum : maximum < 2 ^ 32)
    (hheaders : state.headers.length ≤ mediaJpegHeaderMax) (mapped : Bool) (maxWidth maxHeight : Nat) :
    Reads (fun output => (∃ native overrides scan scan', Rewritten state.headers input output native overrides scan scan') ∧
      output.bytes.length ≤ maximum) (state.rewrite input mapped maximum maxWidth maxHeight) := by
  unfold MediaJpeg.rewrite
  split
  · exact .stop _
  · split
    · exact .stop _
    · rename_i hinput
      split
      · exact .stop _
      · have hbound : state.headers.length < 2 ^ 32 := lt_of_le_of_lt hheaders (by decide)
        refine (segments_reads hbound true).bind fun overrides ⟨overrideParts, ho, _⟩ => ?_
        refine (segments_reads (by omega) false).bind fun native ⟨nativeParts, hn, hsoi⟩ => ?_
        obtain ⟨stream, fill, hstream, hheader⟩ := ho.stream
        obtain ⟨nativeStream, nativeFill, hnativeStream, hbody⟩ := hn.stream
        dsimp only
        generalize hwidth : (if overrides.width = 0 then native.width else overrides.width) = width
        generalize hheight : (if overrides.width = 0 then native.height else overrides.height) = height
        split
        · exact .stop _
        · refine (assemble_reads hmaximum (by omega) hn hnativeStream.keyed ho.knows hstream.keyed).bind fun bytes hbytes => ?_
          obtain ⟨nativeFrame, frame, scan', hmade, hle, hlength, honce, hnativeFrame, hforce, hselected⟩ := hbytes
          rw [hwidth, hheight] at hforce
          refine ⟨⟨nativeParts, overrideParts, input.drop native.tail, scan', ⟨?_, ⟨(hn.scan rfl).2.1, hlength⟩, ?_, hmade, honce,
            ⟨nativeFrame, frame, _, _, hnativeFrame, hforce, hselected⟩⟩⟩, hle⟩
          · refine ⟨nativeStream, nativeFill, hnativeStream, ?_⟩
            rw [← hsoi rfl]
            conv_lhs => rw [← List.take_append_drop 2 input]
            exact congrArg (input.take 2 ++ ·) hbody
          · exact ⟨stream, fill, hstream, by simpa using hheader⟩

/-- Whatever packets and resets came before: the output is within `maximum`
and made of the parts of its input, and no read is outside a buffer. -/
theorem rewrite_rewritten (calls : List (Option MediaRtp)) (input : Bytes) (mapped : Bool) (maximum maxWidth maxHeight : Nat)
    (hmaximum : maximum < 2 ^ 32) : let state := calls.foldl gather {}
    (∀ output, state.rewrite input mapped maximum maxWidth maxHeight = .ok output → output.bytes.length ≤ maximum ∧
      ∃ native overrides scan scan', Rewritten state.headers input output native overrides scan scan') ∧
    state.rewrite input mapped maximum maxWidth maxHeight ≠ .error .outside := by
  have hheaders := gathered_bounded calls {} (Nat.zero_le _)
  have hreads := rewrite_reads input hmaximum hheaders mapped maxWidth maxHeight
  refine ⟨fun output hok => ?_, fun houtside => ?_⟩
  · rw [hok] at hreads
    exact ⟨hreads.2, hreads.1⟩
  · rw [houtside] at hreads
    exact hreads rfl

def frameBody (width height first : UInt8) : Bytes :=
  [8, 0, height, 0, width, 3, first, 0x11, 0, first + 1, 0x11, 0, first + 2, 0x11, 0]

def plainJpeg : Bytes :=
  [0xff, 0xd8, 0xff, 0xff, 0xc0, 0, 17] ++ (frameBody 16 8 1 ++
    [0xff, 0xda, 0, 12, 3, 1, 0, 2, 0x11, 3, 0x11, 0, 63, 0, 0x5a, 0xff, 0xd9])

def framePacket : MediaRtp where
  ssrc := 9
  timestamp := 0
  sequence := 1
  payloadType := 26
  marker := true
  jpegProfile := 0xffd8
  jpegExtension := [0xff, 0xdd, 0, 4, 0, 2, 0xff, 0xc0, 0, 17] ++ frameBody 32 8 11

def rewrittenJpeg : Bytes :=
  [0xff, 0xd8, 0xff, 0xdd, 0, 4, 0, 2, 0xff, 0xc0, 0, 17] ++ (frameBody 32 8 11 ++
    [0xff, 0xda, 0, 12, 3, 11, 0, 12, 0x11, 13, 0x11, 0, 63, 0, 0x5a, 0xff, 0xd9])

theorem rewrite_rewritten_frame : ∃ native overrides scan scan',
    Rewritten framePacket.jpegExtension plainJpeg ⟨rewrittenJpeg, 32, 8⟩ native overrides scan scan' :=
  ((rewrite_rewritten [some framePacket] plainJpeg true 100 64 64 (by decide)).1 ⟨rewrittenJpeg, 32, 8⟩ (by decide +kernel)).2

end WotAv.Native
