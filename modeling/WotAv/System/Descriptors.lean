import WotAv.Lib.Transition
import WotAv.Media.Descriptors
import WotAv.Native.Probes

/-!
# The worker's descriptors in the session

What the probes of the worker write is what `decodeMediaData` reads, field by
field, except where the two sides bound a field differently.
-/

namespace WotAv.System

open WotAv.Lib WotAv.Binding WotAv.Media WotAv.Native

def unitOf (generation sequence : Nat) : Emission → NativeMediaUnit
  | .rtp track packet receipt data =>
    .rtp { track := track.id, generation, sequence, payloadType := packet.payloadType, marker := packet.marker
           ssrc := packet.ssrc, rtpSequence := packet.sequence, rtpTimestamp := packet.timestamp
           receiptMonoNs := receipt * 1000 % 2 ^ 64, replayNtp := packet.ntp, replayFlags := packet.replayFlags
           playCseqLow := packet.playCseqLow, replayExtension := packet.replayExtension
           jpegExtension := packet.jpegProfile ≠ 0, bytes := data }
  | .metadata _ document receipt =>
    .metadata { track := 3, generation, sequence, firstRtpSequence := document.firstSequence
                lastRtpSequence := document.lastSequence, ssrc := document.ssrc
                firstRtpTimestamp := document.firstTimestamp, lastRtpTimestamp := document.lastTimestamp
                receiptMonoNs := receipt * 1000 % 2 ^ 64, xml := document.xml }
  | .senderReport track info now =>
    .senderReport { track := track.id, generation, sequence, ssrc := info.ssrc.toNat
                    rtpTimestamp := info.timestamp.toNat, ntp := info.ntp.toNat
                    receiptMonoNs := now * 1000 % 2 ^ 64, clockRate := track.clockRate
                    incarnation := track.incarnation.toNat }
  | .video track pts frame =>
    .decoded { track := track.id, generation, sequence, format := .I420, width := frame.width
               height := frame.height, sampleRate := 0, channels := 0, count := 1
               ptsNs := if pts.toNat = 0xffffffffffffffff then none else some pts.toNat, bytes := frame.pixels }
  | .audio track pts rate channels bytes =>
    .decoded { track := track.id, generation, sequence, format := .S16LE, width := 0, height := 0
               sampleRate := rate, channels, count := bytes.length / (2 * channels)
               ptsNs := if pts.toNat = 0xffffffffffffffff then none else some pts.toNat, bytes }

-- RTP packets

def baseOf (rtp : GstRTPBuffer) : MediaRtp :=
  { ssrc := rtp.getSsrc, timestamp := rtp.getTimestamp, sequence := rtp.getSeq
    payloadType := rtp.getPayloadType, marker := rtp.getMarker ≠ 0 }

def replayed (extension : Bytes) (out : MediaRtp) : MediaRtp :=
  { out with replayExtension := true, ntp := readBE 8 0 extension, replayFlags := byteAt 8 extension
             playCseqLow := byteAt 9 extension }

/-- The ways in which `media_rtp_info` returns `TRUE` for a packet whose
extension data begins with `extension`. -/
inductive Info (rtp : GstRTPBuffer) (extension : Bytes) : MediaRtp → Prop
  | plain (hx : rtpExtended rtp.data = false) : Info rtp extension (baseOf rtp)
  | other (hx : rtpExtended rtp.data) (hp : readBE 2 (rtpSources rtp.data) rtp.data ≠ 0xabac)
      (jpeg : Nat) (hj : jpeg = if readBE 2 (rtpSources rtp.data) rtp.data = 0xffd8 ∨
        readBE 2 (rtpSources rtp.data) rtp.data = 0xffff then readBE 2 (rtpSources rtp.data) rtp.data else 0)
      (bytes : Bytes) : Info rtp extension { baseOf rtp with jpegProfile := jpeg, jpegExtension := bytes }
  | replay (hx : rtpExtended rtp.data) (hp : readBE 2 (rtpSources rtp.data) rtp.data = 0xabac)
      (hreserved : byteAt 8 extension &&& 15 = 0 ∧ byteAt 10 extension = 0 ∧ byteAt 11 extension = 0)
      (hw : rtpWords rtp.data = 3) : Info rtp extension (replayed extension (baseOf rtp))
  | nested (hx : rtpExtended rtp.data) (hp : readBE 2 (rtpSources rtp.data) rtp.data = 0xabac)
      (hreserved : byteAt 8 extension &&& 15 = 0 ∧ byteAt 10 extension = 0 ∧ byteAt 11 extension = 0)
      (hw : 3 < rtpWords rtp.data ∧ rtpWords rtp.data = 4 + readBE 2 14 extension)
      (hj : readBE 2 12 extension = 0xffd8 ∨ readBE 2 12 extension = 0xffff) (bytes : Bytes) :
      Info rtp extension { replayed extension (baseOf rtp) with
        jpegProfile := readBE 2 12 extension, jpegExtension := bytes }

theorem mediaRtpJpeg_some (h : mediaRtpJpeg profile extension words out = some packet) :
    (profile = 0xffd8 ∨ profile = 0xffff) ∧
      packet = { out with jpegProfile := profile, jpegExtension := extension.take (words * 4) } ∨
    ¬(profile = 0xffd8 ∨ profile = 0xffff) ∧ out.replayExtension = false ∧ packet = out := by
  unfold mediaRtpJpeg at h
  split at h
  · rename_i hp
    exact .inl ⟨hp, (Option.some.inj h).symm⟩
  · rename_i hp
    split at h
    · cases h
    · rename_i hr
      exact .inr ⟨hp, by simpa using hr, (Option.some.inj h).symm⟩

theorem info_of_mediaRtpInfo (h : mediaRtpInfo rtp = some packet) :
    Info rtp (rtp.data.drop (rtpSources rtp.data + 4)) packet := by
  unfold mediaRtpInfo GstRTPBuffer.getExtensionData at h
  by_cases hx : rtpExtended rtp.data
  · simp only [hx, if_true] at h
    split at h
    · rename_i hp
      split at h
      · cases h
      · rename_i hbad
        simp only [not_or, not_lt, ne_eq, not_not] at hbad
        obtain ⟨hwords, hreserved⟩ := hbad
        split at h
        · rename_i hw
          obtain rfl := Option.some.inj h
          exact .replay hx hp hreserved hw
        · rename_i hw
          split at h
          · cases h
          · rename_i hn
            rcases mediaRtpJpeg_some h with ⟨hj, rfl⟩ | ⟨_, hr, _⟩
            · exact .nested hx hp hreserved ⟨by omega, not_not.mp hn⟩ hj _
            · cases hr
    · rename_i hp
      rcases mediaRtpJpeg_some h with ⟨hj, rfl⟩ | ⟨hj, _, rfl⟩
      · exact .other hx hp _ (by rw [if_pos hj]) _
      · exact .other hx hp 0 (by rw [if_neg hj]) []
  · simp only [hx, if_false, Bool.false_eq_true] at h
    obtain rfl := Option.some.inj h
    exact .plain (by simpa using hx)

/-- What the worker reads of the fixed header. -/
structure HeaderOf (data : Bytes) (packet : MediaRtp) : Prop where
  ssrc : packet.ssrc = readBE 4 8 data
  timestamp : packet.timestamp = readBE 4 4 data
  sequence : packet.sequence = readBE 2 2 data
  payloadType : packet.payloadType = byteAt 1 data &&& 127
  marker : packet.marker = decide (byteAt 1 data >>> 7 ≠ 0)

theorem Info.header (h : Info rtp extension packet) : HeaderOf rtp.data packet := by
  cases h <;> exact ⟨rfl, rfl, rfl, rfl, rfl⟩

/-- The replay fields are bytes and a 64-bit time, and zero without the extension. -/
structure ReplayOf (packet : MediaRtp) : Prop where
  ntp : packet.ntp < 2 ^ 64
  flags : packet.replayFlags < 256
  cseq : packet.playCseqLow < 256
  absent : packet.replayExtension = false → packet.ntp = 0 ∧ packet.replayFlags = 0 ∧ packet.playCseqLow = 0

theorem Info.replayOf (h : Info rtp extension packet) : ReplayOf packet := by
  have hreplayed : ReplayOf (replayed extension (baseOf rtp)) :=
    ⟨readBE_lt 8 0 extension, byteAt_lt 8 extension, byteAt_lt 9 extension, fun hr => nomatch hr⟩
  have hbase : ReplayOf (baseOf rtp) := ⟨Nat.two_pow_pos 64, Nat.two_pow_pos 8, Nat.two_pow_pos 8, fun _ => ⟨rfl, rfl, rfl⟩⟩
  cases h with
  | plain => exact hbase
  | other => exact ⟨hbase.ntp, hbase.flags, hbase.cseq, hbase.absent⟩
  | replay => exact hreplayed
  | nested => exact ⟨hreplayed.ntp, hreplayed.flags, hreplayed.cseq, hreplayed.absent⟩

theorem checkExtension_of_info (h : Info rtp (rtp.data.drop (rtpSources rtp.data + 4)) packet)
    (hntp : readBE 8 24 payload = packet.ntp)
    (hflags : byteAt 10 payload = packet.replayFlags) (hcseq : byteAt 11 payload = packet.playCseqLow) :
    checkExtension payload rtp.data (rtpSources rtp.data) =
      .ok ⟨rtpHeaderLength rtp.data, packet.replayExtension, packet.jpegProfile ≠ 0⟩ := by
  obtain ⟨_, _, _, hext, _⟩ := rtp.mapped
  unfold checkExtension
  by_cases hx : rtpExtended rtp.data
  case neg =>
    have h0 : byteAt 0 rtp.data &&& 16 = 0 := by simpa [rtpExtended] using hx
    rw [if_pos h0]
    cases h with
    | plain => simp [rtpHeaderLength, hx, baseOf, pure, Except.pure]
    | other h => exact absurd h hx
    | replay h => exact absurd h hx
    | nested h => exact absurd h hx
  have h0 : ¬byteAt 0 rtp.data &&& 16 = 0 := by simpa [rtpExtended] using hx
  obtain ⟨hfour, hwhole⟩ := hext hx
  rw [if_neg h0]
  have hlen : rtpHeaderLength rtp.data = rtpSources rtp.data + 4 + rtpWords rtp.data * 4 := by
    rw [rtpHeaderLength, if_pos hx]
  generalize he : rtp.data.drop (rtpSources rtp.data + 4) = extension at h
  have hread : ∀ width offset, readBE width (rtpSources rtp.data + 4 + offset) rtp.data =
      readBE width offset extension := fun width offset => by rw [← he, readBE_drop]
  have hbyte : ∀ offset, byteAt (rtpSources rtp.data + 4 + offset) rtp.data = byteAt offset extension :=
    hread 1
  rw [hlen] at hwhole ⊢
  rw [check_bind_ok]
  refine ⟨hfour, ?_⟩
  dsimp only
  rw [check_bind_ok]
  refine ⟨hwhole, ?_⟩
  cases h with
  | plain hx' => rw [hx'] at hx; cases hx
  | other _ hp jpeg hj =>
    rw [if_neg hp]
    subst hj
    by_cases hjpeg : readBE 2 (rtpSources rtp.data) rtp.data = 0xffd8 ∨ readBE 2 (rtpSources rtp.data) rtp.data = 0xffff
    · rcases hjpeg with hjpeg | hjpeg <;> simp [hjpeg, baseOf, rtpWords, pure, Except.pure]
    · simp [hjpeg, baseOf, rtpWords, pure, Except.pure]
  | replay _ hp hreserved hw =>
    rw [if_pos hp, check_bind_ok]
    refine ⟨⟨hw.ge, ?_, ?_, ?_, ?_, ?_⟩, ?_⟩
    · rw [hntp]; exact hread 8 0
    · rw [hflags]; exact hbyte 8
    · rw [hcseq]; exact hbyte 9
    · rw [hread 2 10]; exact readBE_two_zero hreserved.2.1 hreserved.2.2
    · rw [hbyte 8]; exact hreserved.1
    · rw [check_bind_ok]
      refine ⟨.inl hw.le, ?_⟩
      have hnot : ¬readBE 2 (rtpSources rtp.data + 2) rtp.data > 3 := hw.le.not_gt
      simp [hnot, hp, replayed, baseOf, rtpWords, pure, Except.pure]
  | nested _ hp hreserved hw hj =>
    rw [if_pos hp, check_bind_ok]
    refine ⟨⟨hw.1.le, ?_, ?_, ?_, ?_, ?_⟩, ?_⟩
    · rw [hntp]; exact hread 8 0
    · rw [hflags]; exact hbyte 8
    · rw [hcseq]; exact hbyte 9
    · rw [hread 2 10]; exact readBE_two_zero hreserved.2.1 hreserved.2.2
    · rw [hbyte 8]; exact hreserved.1
    · rw [check_bind_ok, hread 2 14, hread 2 12]
      refine ⟨.inr hw.2, ?_⟩
      have hmore : readBE 2 (rtpSources rtp.data + 2) rtp.data > 3 := hw.1
      rcases hj with hj | hj <;> simp [hmore, hj, replayed, rtpWords, pure, Except.pure]

-- Metadata documents

/-- A document of the worker: its fields fit their widths, and what is
inflated so far belongs to a document that has been completed. -/
structure Kept (o : MediaOptions) (s : MediaMetadata) : Prop where
  limits : s.wireMax = o.wireMax ∧ s.inflatedMax = o.inflatedMax
  fresh : s.active → s.xml = []
  sequences : s.firstSequence < 2 ^ 16 ∧ s.lastSequence < 2 ^ 16
  words : s.ssrc < 2 ^ 32 ∧ s.firstTimestamp < 2 ^ 32 ∧ s.lastTimestamp < 2 ^ 32

/-- The calls that the worker makes on its document. -/
inductive MetadataStep (libraries : Libraries) : MediaMetadata → MediaMetadata → Prop
  | push (h : mediaRtpInfo rtp = some packet) (bytes : Bytes) (now : Int) :
      MetadataStep libraries s (s.push libraries packet bytes now).1
  | reset (drain : Bool) : MetadataStep libraries s (s.reset drain)
  | expire (now : Int) : MetadataStep libraries s (s.expire now).1
  | gzip (gzip : Bool) : MetadataStep libraries s { s with gzip }

def metadataSystem (libraries : Libraries) (o : MediaOptions) : System MediaMetadata Unit where
  init s := s = .init o.wireMax o.inflatedMax o.deadlineMs false
  step s _ s' := MetadataStep libraries s s'

/-- A completed document is what the session's bounds allow. -/
structure Complete (inflatedMax : Nat) (document : MediaMetadata) : Prop where
  xml : 0 < document.xml.length ∧ document.xml.length ≤ inflatedMax
  sequences : document.firstSequence < 2 ^ 16 ∧ document.lastSequence < 2 ^ 16
  words : document.ssrc < 2 ^ 32 ∧ document.firstTimestamp < 2 ^ 32 ∧ document.lastTimestamp < 2 ^ 32

theorem inflateLoop_xml (results : List (Nat × Bytes × Bool)) : ∀ (consumed : Nat) (s : MediaMetadata),
    s.xml.length ≤ s.inflatedMax → s.inflatedMax < 2 ^ 32 →
    ∃ xml, (s.inflateLoop results consumed).1 = { s with xml } ∧ xml.length ≤ s.inflatedMax := by
  induction results with
  | nil => exact fun _ s h _ => ⟨s.xml, rfl, h⟩
  | cons r results ih =>
    obtain ⟨read, output, finished⟩ := r
    intro consumed s h hm
    unfold MediaMetadata.inflateLoop
    split
    · exact ⟨s.xml, rfl, h⟩
    · rename_i hfit
      rw [guintSub_of_le h hm] at hfit
      have hlen : (s.xml ++ output).length ≤ s.inflatedMax := by
        rw [List.length_append]; omega
      dsimp only
      split
      · split <;> exact ⟨_, rfl, hlen⟩
      · split
        · exact ⟨_, rfl, hlen⟩
        · exact ih _ { s with xml := s.xml ++ output } hlen hm

theorem mediaMetadataXml_length (h : mediaMetadataXml libraries xml = true) : 0 < xml.length := by
  unfold mediaMetadataXml at h
  split at h
  · cases h
  · rename_i hb
    exact Nat.pos_of_ne_zero fun h0 => hb (.inl h0)

variable {s : MediaMetadata}

theorem finish_xml (libraries : Libraries) (h : s.xml = []) (hm : s.inflatedMax < 2 ^ 32) :
    ∃ xml, (s.finish libraries).1 = { s with xml } ∧
      ((s.finish libraries).2 = .complete → 0 < xml.length ∧ xml.length ≤ s.inflatedMax) := by
  have hstart : ∃ xml, (if s.gzip then s.inflate libraries
      else if s.wire.length > s.inflatedMax then (s, .limit)
      else ({ s with xml := s.xml ++ s.wire }, MediaMeta.complete)).1 = { s with xml } ∧
      xml.length ≤ s.inflatedMax := by
    split
    · exact inflateLoop_xml _ _ s (by simp [h]) hm
    · split
      · exact ⟨s.xml, rfl, by simp [h]⟩
      · exact ⟨_, rfl, by rw [h, List.nil_append]; omega⟩
  obtain ⟨xml, heq, hle⟩ := hstart
  unfold MediaMetadata.finish
  generalize hr : (if s.gzip then s.inflate libraries
      else if s.wire.length > s.inflatedMax then (s, .limit)
      else ({ s with xml := s.xml ++ s.wire }, MediaMeta.complete)) = r at heq
  obtain ⟨s', result⟩ := r
  obtain rfl : s' = { s with xml } := heq
  dsimp only
  split
  · rename_i hnot
    exact ⟨xml, rfl, fun hc => absurd hc hnot⟩
  · refine ⟨xml, rfl, fun hc => ⟨?_, hle⟩⟩
    split at hc
    · rename_i hx; exact mediaMetadataXml_length hx
    · cases hc

variable {o : MediaOptions}

theorem append_kept {packet : MediaRtp} (hk : Kept o s)
    (hm : o.inflatedMax < 2 ^ 32) (hq : packet.sequence < 2 ^ 16) (ht : packet.timestamp < 2 ^ 32) :
    Kept o (s.append libraries packet bytes now).1 ∧
      ((s.append libraries packet bytes now).2 = .complete →
        Complete o.inflatedMax (s.append libraries packet bytes now).1) := by
  rw [MediaMetadata.append]
  -- the document under way, begun if there was none
  generalize hd : (if s.active then s else
      { s with active := true, wire := [], xml := [], firstSequence := packet.sequence
               firstTimestamp := packet.timestamp, startedUs := now }) = d
  have hbegun : Kept o d ∧ d.xml = [] := by
    rw [← hd]
    split
    · rename_i ha
      exact ⟨hk, hk.fresh ha⟩
    · exact ⟨⟨hk.limits, fun _ => rfl, ⟨hq, hk.sequences.2⟩, hk.words.1, ht, hk.words.2.2⟩, rfl⟩
  obtain ⟨hkd, hxml⟩ := hbegun
  dsimp only
  split
  · exact ⟨⟨hkd.limits, fun h => (nomatch h), hkd.sequences, hkd.words.1, hkd.words.2.1, ht⟩, fun h => nomatch h⟩
  · split
    · exact ⟨⟨hkd.limits, fun _ => hxml, hkd.sequences, hkd.words.1, hkd.words.2.1, ht⟩, fun h => nomatch h⟩
    · generalize hs : ({ d with lastTimestamp := packet.timestamp, wire := d.wire ++ bytes, active := false } :
        MediaMetadata) = t
      have ht' : t.xml = [] ∧ t.inflatedMax = o.inflatedMax ∧ t.active = false ∧ Kept o t := by
        rw [← hs]
        exact ⟨hxml, hkd.limits.2, rfl, hkd.limits, fun h => (nomatch h), hkd.sequences, hkd.words.1, hkd.words.2.1, ht⟩
      obtain ⟨hx, hmax, hinactive, hkt⟩ := ht'
      have hlt : t.inflatedMax < 2 ^ 32 := by rw [hmax]; exact hm
      obtain ⟨xml, heq, hc⟩ := finish_xml libraries hx hlt
      rw [hmax] at hc
      rw [heq]
      refine ⟨⟨hkt.limits, fun ha => ?_, hkt.sequences, hkt.words⟩, fun h => ⟨hc h, hkt.sequences, hkt.words⟩⟩
      rw [show ({ t with xml } : MediaMetadata).active = t.active from rfl, hinactive] at ha
      cases ha

theorem expire_kept (hk : Kept o s) : Kept o (s.expire now).1 := by
  unfold MediaMetadata.expire
  split
  · exact ⟨hk.limits, fun h => (nomatch h), hk.sequences, hk.words⟩
  · exact hk

theorem push_kept {packet : MediaRtp} (hk : Kept o s)
    (hm : o.inflatedMax < 2 ^ 32) (h : mediaRtpInfo rtp = some packet) :
    Kept o (s.push libraries packet bytes now).1 ∧
      ((s.push libraries packet bytes now).2 = .complete →
        Complete o.inflatedMax (s.push libraries packet bytes now).1) := by
  have hh := (info_of_mediaRtpInfo h).header
  have hs : packet.ssrc < 2 ^ 32 := by rw [hh.ssrc]; exact readBE_lt 4 8 _
  have hq : packet.sequence < 2 ^ 16 := by rw [hh.sequence]; exact readBE_lt 2 2 _
  have ht : packet.timestamp < 2 ^ 32 := by rw [hh.timestamp]; exact readBE_lt 4 4 _
  have he : Kept o (s.expire now).1 := expire_kept hk
  unfold MediaMetadata.push
  generalize s.expire now = r at he
  obtain ⟨e, expired⟩ := r
  dsimp only at he ⊢
  split
  · exact ⟨he, fun h => (nomatch h)⟩
  · generalize hd : (if e.haveSequence ∧ (e.ssrc ≠ packet.ssrc ∨ (e.lastSequence + 1) % 2 ^ 16 ≠ packet.sequence)
      then ({ e with active := false, discarding := true, wire := [] } : MediaMetadata) else e) = d
    have hkd : Kept o { d with ssrc := packet.ssrc, lastSequence := packet.sequence, haveSequence := true } := by
      rw [← hd]
      split
      · exact ⟨he.limits, fun h => (nomatch h), ⟨he.sequences.1, hq⟩, hs, he.words.2⟩
      · exact ⟨he.limits, he.fresh, ⟨he.sequences.1, hq⟩, hs, he.words.2⟩
    split
    · refine ⟨?_, fun h => ?_⟩
      · dsimp only
        split
        · exact ⟨hkd.limits, hkd.fresh, hkd.sequences, hkd.words⟩
        · exact hkd
      · dsimp only at h
        split at h
        · cases h
        · split at h <;> cases h
    · exact append_kept hkd hm hq ht

theorem kept_of_reachable (hm : o.inflatedMax < 2 ^ 32)
    (h : (metadataSystem libraries o).Reachable s) : Kept o s := by
  refine h.invariant (P := Kept o) ?_ ?_
  · rintro s rfl
    have hzero : ∀ n, 0 < 2 ^ n := Nat.two_pow_pos
    exact ⟨⟨rfl, rfl⟩, fun _ => rfl, ⟨hzero 16, hzero 16⟩, hzero 32, hzero 32, hzero 32⟩
  · rintro s - _ hk (hp | drain | now | gzip)
    · exact (push_kept hk hm hp).1
    · exact ⟨hk.limits, fun _ => rfl, hk.sequences, hk.words⟩
    · exact expire_kept hk
    · exact ⟨hk.limits, hk.fresh, hk.sequences, hk.words⟩

theorem word : (256 : Nat) ^ 8 = 2 ^ 64 := by decide

section
variable {track : Track} {packet : MediaRtp} {receipt : Nat} {data : Bytes}

theorem rtp_fields (track : Track) (receipt : Nat) (data : Bytes) (hp : packet.payloadType < 256)
    (hs : packet.ssrc < 2 ^ 32) (hq : packet.sequence < 2 ^ 16)
    (ht : packet.timestamp < 2 ^ 32) (hr : ReplayOf packet) (hd : data.length < 2 ^ 32) :
    let payload := (Emission.rtp track packet receipt data).bytes
    payload.length = 40 + data.length ∧ payload.drop 40 = data ∧ readBE 2 0 payload = track.id ∧
      byteAt 2 payload = packet.payloadType ∧ byteAt 3 payload = (if packet.marker then 1 else 0) ∧
      readBE 4 4 payload = packet.ssrc ∧ readBE 2 8 payload = packet.sequence ∧
      byteAt 10 payload = packet.replayFlags ∧ byteAt 11 payload = packet.playCseqLow ∧
      readBE 4 12 payload = packet.timestamp ∧ readBE 8 16 payload = receipt * 1000 % 2 ^ 64 ∧
      readBE 8 24 payload = packet.ntp ∧
      readBE 4 32 payload = ((if packet.replayExtension then 1 else 0) ||| (if packet.jpegProfile ≠ 0 then 2 else 0)) ∧
      readBE 4 36 payload = data.length := by
  have hid := track.known
  have hreplay := hr.ntp
  have hflags := hr.flags
  have hcseq := hr.cseq
  have hm : (if packet.marker then 1 else 0) < 256 ^ 1 := by split <;> decide
  have ho : ((if packet.replayExtension then 1 else 0) ||| (if packet.jpegProfile ≠ 0 then 2 else 0)) < 256 ^ 4 := by
    split <;> split <;> decide
  simp (disch := first | omega | decide) only [Emission.bytes, byteAt, List.length_append, length_beBytes,
    drop_beBytes, readBE_skip, readBE_here, Nat.reduceSub, List.drop_zero, and_true, true_and]
  refine ⟨by omega, ?_⟩
  rw [readBE_beBytes, word]

theorem checkRtp_of_info {rtp : GstRTPBuffer} {payload : Bytes} (hinfo : mediaRtpInfo rtp = some packet)
    (hdata : data = rtp.data) (hpt : byteAt 2 payload = packet.payloadType)
    (hm : byteAt 3 payload = if packet.marker then 1 else 0) (hs : readBE 4 4 payload = packet.ssrc)
    (hq : readBE 2 8 payload = packet.sequence) (hflags : byteAt 10 payload = packet.replayFlags)
    (hcseq : byteAt 11 payload = packet.playCseqLow) (ht : readBE 4 12 payload = packet.timestamp)
    (hntp : readBE 8 24 payload = packet.ntp)
    (ho : readBE 4 32 payload = ((if packet.replayExtension then 1 else 0) ||| (if packet.jpegProfile ≠ 0 then 2 else 0))) :
    checkRtp payload data = .ok () := by
  subst hdata
  have hi := info_of_mediaRtpInfo hinfo
  have hh := hi.header
  have hr := hi.replayOf
  obtain ⟨hlen, hversion, hsources, _, hpadding⟩ := rtp.mapped
  have hmark : byteAt 1 rtp.data >>> 7 = if packet.marker then 1 else 0 := by
    have hlt := byteAt_lt 1 rtp.data
    rw [hh.marker, Nat.shiftRight_eq_div_pow]
    split <;> simp_all
    omega
  unfold checkRtp
  rw [check_bind_ok]
  refine ⟨⟨hlen, hversion, ?_, ?_, ?_, ?_, ?_, ?_⟩, ?_⟩
  · rw [hm]; split <;> decide
  · rw [hpt, hh.payloadType]
  · rw [hm, hmark]
  · rw [hq, hh.sequence]
  · rw [ht, hh.timestamp]
  · rw [hs, hh.ssrc]
  dsimp only
  rw [check_bind_ok]
  refine ⟨hsources, ?_⟩
  have hext := checkExtension_of_info hi hntp hflags hcseq
  change checkExtension payload rtp.data (rtpSources rtp.data) >>= _ = _
  rw [hext]
  change check _ _ >>= _ = _
  rw [check_bind_ok, ho]
  refine ⟨⟨?_, ?_, ?_, fun ha => ?_⟩, check_ok.mpr fun hp => ?_⟩
  · split <;> split <;> decide
  · by_cases h₁ : packet.replayExtension <;> by_cases h₂ : packet.jpegProfile = 0 <;> simp [h₁, h₂]
  · by_cases h₁ : packet.replayExtension <;> by_cases h₂ : packet.jpegProfile = 0 <;> simp [h₁, h₂]
  · rw [hntp, hflags, hcseq]
    exact hr.absent ha
  · have hpad := hpadding hp
    rwa [rtpPadding, if_pos hp] at hpad

def frameOf (session generation sequence : Nat) (e : Emission) : IpcFrame :=
  ⟨e.kind, session, generation, sequence, e.bytes⟩

variable {limits : MediaLimits} {session generation sequence : Nat}

theorem rtp_decodes {rtp : GstRTPBuffer} (receipt session generation sequence : Nat) (limits : MediaLimits)
    (hinfo : mediaRtpInfo rtp = some packet) (hid : track.id ≤ 3)
    (hsession : session ≠ 0) (hgeneration : generation ≠ 0) (hsize : rtp.data.length ≤ 65536) :
    decodeMediaData (frameOf session generation sequence (.rtp track packet receipt rtp.data)) limits =
        .ok (unitOf generation sequence (.rtp track packet receipt rtp.data)) ↔
      sequence ≠ 0 ∧ rtp.data.length ≤ limits.wireBytes := by
  have hi := info_of_mediaRtpInfo hinfo
  have hh := hi.header
  have h12 := rtp.mapped.1
  obtain ⟨hlen, hdrop, h0, h2, h3, h4, h8, h10, h11, h12', h16, h24, h32, h36⟩ :=
    rtp_fields track receipt rtp.data
      (by rw [hh.payloadType]; exact lt_of_le_of_lt Nat.and_le_right (by decide))
      (by rw [hh.ssrc]; exact readBE_lt 4 8 _) (by rw [hh.sequence]; exact readBE_lt 2 2 _)
      (by rw [hh.timestamp]; exact readBE_lt 4 4 _) hi.replayOf (by omega)
  have hcheck := checkRtp_of_info hinfo rfl h2 h3 h4 h8 h10 h11 h12' h24 h32
  change decodeRtp _ _ = _ ↔ _
  unfold decodeRtp
  rw [descriptor_bind_ok]
  simp only [frameOf, h36, h0, field_bind_ok, hdrop, hcheck]
  constructor
  · rintro ⟨⟨_, _, hseq, _⟩, ⟨_, _, hmax⟩, _⟩
    exact ⟨hseq, hmax⟩
  · rintro ⟨hseq, hmax⟩
    refine ⟨⟨hsession, hgeneration, hseq, by omega⟩, ⟨by omega, by omega, hmax⟩, ⟨track.known.1, hid⟩, ?_⟩
    change Except.ok _ = Except.ok _
    simp only [h2, h3, h4, h8, h10, h11, h12', h16, h24, h32, unitOf]
    congr 3
    · cases packet.marker <;> rfl
    · by_cases hr : packet.replayExtension <;> by_cases hj : packet.jpegProfile = 0 <;> simp [hr, hj]
    · by_cases hr : packet.replayExtension <;> by_cases hj : packet.jpegProfile = 0 <;> simp [hr, hj]

theorem senderReport_decodes {info : SenderInfo} {now : Nat} (hsession : session ≠ 0)
    (hgeneration : generation ≠ 0) :
    decodeMediaData (frameOf session generation sequence (.senderReport track info now)) limits =
        .ok (unitOf generation sequence (.senderReport track info now)) ↔
      sequence ≠ 0 ∧ track.id ≤ 3 ∧ track.incarnation ≠ 0 := by
  have hfields : let payload := (Emission.senderReport track info now).bytes
      payload.length = 36 ∧ readBE 2 0 payload = track.id ∧ readBE 2 2 payload = 0 ∧
        readBE 4 4 payload = info.ssrc.toNat ∧ readBE 4 8 payload = info.timestamp.toNat ∧
        readBE 8 12 payload = info.ntp.toNat ∧ readBE 8 20 payload = now * 1000 % 2 ^ 64 ∧
        readBE 4 28 payload = track.clockRate ∧ readBE 4 32 payload = track.incarnation.toNat := by
    have hid := track.known
    have hclock := track.clock
    have hssrc := info.ssrc.toNat_lt
    have htime := info.timestamp.toNat_lt
    have hntp := info.ntp.toNat_lt
    have hinc := track.incarnation.toNat_lt
    have hlast : readBE 4 0 (beBytes 4 track.incarnation.toNat) = track.incarnation.toNat := by
      simpa only [List.append_nil] using
        (readBE_here (by omega) : readBE 4 0 (beBytes 4 track.incarnation.toNat ++ []) = track.incarnation.toNat)
    simp (disch := first | omega | decide) only [Emission.bytes, List.length_append, length_beBytes,
      readBE_skip, readBE_here, Nat.reduceSub, Nat.reduceAdd, true_and]
    rw [readBE_beBytes, word]
    exact ⟨rfl, hlast⟩
  obtain ⟨hlen, h0, h2, h4, h8, h12, h20, h28, h32⟩ := hfields
  have hinc : track.incarnation ≠ 0 ↔ 1 ≤ track.incarnation.toNat := by
    rw [Nat.one_le_iff_ne_zero, ne_eq, ne_eq, ← UInt32.toNat_inj]; rfl
  have hmax := track.incarnation.toNat_lt
  change decodeSenderReport _ = _ ↔ _
  unfold decodeSenderReport
  rw [descriptor_fixed_bind_ok]
  simp only [frameOf, check_bind_ok, field_bind_ok, hlen, h0, h2, h4, h8, h12, h20, h28, h32, hinc]
  constructor
  · rintro ⟨⟨_, _, hseq, _⟩, _, ⟨_, hid⟩, _, ⟨hpos, _⟩, _⟩
    exact ⟨hseq, hid, hpos⟩
  · rintro ⟨hseq, hid, hpos⟩
    exact ⟨⟨hsession, hgeneration, hseq, trivial⟩, trivial, ⟨track.known.1, hid⟩, track.clock, ⟨hpos, by omega⟩, rfl⟩

theorem metadata_decodes {document : MediaMetadata} (hc : Complete limits.inflatedBytes document)
    (hid : track.id = 3) (hmax : limits.inflatedBytes < 2 ^ 32) (hsession : session ≠ 0)
    (hgeneration : generation ≠ 0) :
    decodeMediaData (frameOf session generation sequence (.metadata track document receipt)) limits =
        .ok (unitOf generation sequence (.metadata track document receipt)) ↔ sequence ≠ 0 := by
  obtain ⟨⟨hpos, hle⟩, ⟨hfirst, hlast⟩, hssrc, hts, hts'⟩ := hc
  have hfields : let payload := (Emission.metadata track document receipt).bytes
      payload.length = 32 + document.xml.length ∧ payload.drop 32 = document.xml ∧ readBE 2 0 payload = 3 ∧
        readBE 2 2 payload = 0 ∧ readBE 2 4 payload = document.firstSequence ∧
        readBE 2 6 payload = document.lastSequence ∧ readBE 4 8 payload = document.ssrc ∧
        readBE 4 12 payload = document.firstTimestamp ∧ readBE 4 16 payload = document.lastTimestamp ∧
        readBE 8 20 payload = receipt * 1000 % 2 ^ 64 ∧ readBE 4 28 payload = document.xml.length := by
    simp (disch := first | omega | decide) only [Emission.bytes, hid, List.length_append, length_beBytes,
      drop_beBytes, readBE_skip, readBE_here, Nat.reduceSub, List.drop_zero, and_true, true_and]
    refine ⟨by omega, ?_⟩
    rw [readBE_beBytes, word]
  obtain ⟨hlen, hdrop, h0, h2, h4, h6, h8, h12, h16, h20, h28⟩ := hfields
  change decodeMetadata _ _ = _ ↔ _
  unfold decodeMetadata
  rw [descriptor_bind_ok]
  simp only [frameOf, check_bind_ok, hlen, hdrop, h0, h2, h4, h6, h8, h12, h16, h20, h28]
  constructor
  · rintro ⟨⟨_, _, hseq, _⟩, _⟩
    exact hseq
  · intro hseq
    exact ⟨⟨hsession, hgeneration, hseq, by omega⟩, ⟨by omega, by omega, hle⟩, ⟨trivial, trivial⟩, rfl⟩

theorem pixels_length (frame : GstVideoFrame) : frame.pixels.length =
    frame.width * frame.height + 2 * ((frame.width + 1) / 2) * ((frame.height + 1) / 2) := by
  have hplane : ∀ plane, ((List.range (planeHeight frame.height plane)).flatMap (frame.row plane)).length =
      planeHeight frame.height plane * planeWidth frame.width plane := by
    intro plane
    rw [List.length_flatMap, List.map_congr_left fun r _ => frame.packed plane r]
    simp
  simp only [GstVideoFrame.pixels, List.length_flatMap, List.range_succ, List.range_zero, List.nil_append,
    List.cons_append, List.map_cons, List.map_nil, List.sum_cons, List.sum_nil]
  simp only [← List.length_flatMap, hplane]
  simp [planeHeight, planeWidth]
  ring

theorem video_decodes {pts : UInt64} {frame : GstVideoFrame} (hid : track.id = 1)
    (hw : frame.width ≤ limits.maxWidth ∧ limits.maxWidth < 2 ^ 32)
    (hh : frame.height ≤ limits.maxHeight ∧ limits.maxHeight < 2 ^ 32)
    (hsize : frame.pixels.length ≤ limits.decodedBytes ∧ limits.decodedBytes < 2 ^ 32)
    (hsession : session ≠ 0) (hgeneration : generation ≠ 0) :
    decodeMediaData (frameOf session generation sequence (.video track pts frame)) limits =
        .ok (unitOf generation sequence (.video track pts frame)) ↔
      sequence ≠ 0 ∧ frame.width ≠ 0 ∧ frame.height ≠ 0 := by
  have hpts := pts.toNat_lt
  have hfields : let payload := (Emission.video track pts frame).bytes
      payload.length = 36 + frame.pixels.length ∧ payload.drop 36 = frame.pixels ∧ readBE 2 0 payload = 1 ∧
        readBE 2 2 payload = 1 ∧ readBE 4 4 payload = frame.width ∧ readBE 4 8 payload = frame.height ∧
        readBE 4 12 payload = 0 ∧ readBE 2 16 payload = 0 ∧ readBE 2 18 payload = 0 ∧ readBE 4 20 payload = 1 ∧
        readBE 8 24 payload = pts.toNat ∧ readBE 4 32 payload = frame.pixels.length := by
    simp (disch := first | omega | decide) only [Emission.bytes, hid, List.length_append, length_beBytes,
      drop_beBytes, readBE_skip, readBE_here, Nat.reduceSub, List.drop_zero, and_true]
    omega
  obtain ⟨hlen, hdrop, h0, h2, h4, h8, h12, h16, h18, h20, h24, h32⟩ := hfields
  change decodeDecoded _ _ = _ ↔ _
  unfold decodeDecoded
  rw [descriptor_bind_ok]
  simp only [frameOf, check_bind_ok, field_bind_ok, checkDimensions, hlen, hdrop, h0, h2, h4, h8, h12, h16, h18, h20,
    h24, h32, if_true]
  constructor
  · rintro ⟨⟨_, _, hseq, _⟩, _, _, _, ⟨hwidth, hheight, _⟩, _⟩
    exact ⟨hseq, hwidth, hheight⟩
  · rintro ⟨hseq, hwidth, hheight⟩
    have hpixels : 0 < frame.pixels.length := by
      rw [pixels_length]
      have : 0 < frame.width * frame.height := Nat.mul_pos (Nat.pos_of_ne_zero hwidth) (Nat.pos_of_ne_zero hheight)
      omega
    refine ⟨⟨hsession, hgeneration, hseq, by omega⟩, ⟨by omega, by omega, hsize.1⟩, ⟨by decide, by decide⟩,
      ⟨trivial, trivial, by decide⟩, ⟨hwidth, hheight, hw.1, hh.1, trivial, trivial, trivial, pixels_length frame⟩, ?_⟩
    simp only [unitOf, hid]
    rfl

theorem audio_decodes {pts : UInt64} {rate channels : Nat} {bytes : Bytes} (hid : track.id = 2)
    (hr : 0 < rate ∧ rate ≤ 96000) (hc : 0 < channels ∧ channels ≤ 8)
    (hb : 0 < bytes.length ∧ bytes.length % (2 * channels) = 0)
    (hsize : bytes.length ≤ limits.decodedBytes ∧ limits.decodedBytes < 2 ^ 32)
    (hsession : session ≠ 0) (hgeneration : generation ≠ 0) :
    decodeMediaData (frameOf session generation sequence (.audio track pts rate channels bytes)) limits =
        .ok (unitOf generation sequence (.audio track pts rate channels bytes)) ↔ sequence ≠ 0 := by
  have hpts := pts.toNat_lt
  have hcount : bytes.length / (2 * channels) ≤ bytes.length := Nat.div_le_self _ _
  have hwhole : bytes.length = bytes.length / (2 * channels) * channels * 2 := by
    have := Nat.div_add_mod bytes.length (2 * channels)
    rw [hb.2] at this
    linarith
  have hpos : bytes.length / (2 * channels) ≠ 0 := by
    intro h0
    rw [h0] at hwhole
    omega
  have hfields : let payload := (Emission.audio track pts rate channels bytes).bytes
      payload.length = 36 + bytes.length ∧ payload.drop 36 = bytes ∧ readBE 2 0 payload = 2 ∧
        readBE 2 2 payload = 2 ∧ readBE 4 4 payload = 0 ∧ readBE 4 8 payload = 0 ∧
        readBE 4 12 payload = rate ∧ readBE 2 16 payload = channels ∧ readBE 2 18 payload = 0 ∧
        readBE 4 20 payload = bytes.length / (2 * channels) ∧ readBE 8 24 payload = pts.toNat ∧
        readBE 4 32 payload = bytes.length := by
    simp (disch := first | omega | decide) only [Emission.bytes, hid, List.length_append, length_beBytes,
      drop_beBytes, readBE_skip, readBE_here, Nat.reduceSub, List.drop_zero, and_true]
    omega
  obtain ⟨hlen, hdrop, h0, h2, h4, h8, h12, h16, h18, h20, h24, h32⟩ := hfields
  change decodeDecoded _ _ = _ ↔ _
  unfold decodeDecoded
  rw [descriptor_bind_ok]
  simp only [frameOf, check_bind_ok, field_bind_ok, checkDimensions, hlen, hdrop, h0, h2, h4, h8, h12, h16, h18, h20,
    h24, h32, OfNat.ofNat_ne_one, if_false]
  constructor
  · rintro ⟨⟨_, _, hseq, _⟩, _⟩
    exact hseq
  · intro hseq
    refine ⟨⟨hsession, hgeneration, hseq, by omega⟩, ⟨by omega, by omega, hsize.1⟩, ⟨by decide, by decide⟩,
      ⟨trivial, trivial, hpos⟩, ⟨trivial, trivial, by omega, hr.2, by omega, hc.2, hwhole⟩, ?_⟩
    simp only [unitOf, hid]
    rfl

end

-- Every emission of the probes

/-- What the probes hand to `send_data`, each on the tracks it is attached to. -/
inductive Emitted (libraries : Libraries) (mapping : RtpMapping) (worker : OpenedWorker) : Emission → Prop
  | rtp (hid : track.id ≤ 3) (hm : (metadataSystem libraries worker.options).Reachable metadata)
      (h : .send e ∈ (rtpProbe libraries mapping worker track metadata buffer receipt).2.2) :
      Emitted libraries mapping worker e
  | rtcp (h : .send e ∈ rtcpProbe track reports) : Emitted libraries mapping worker e
  | video (hid : track.id = 1) (h : .send e ∈ decoded worker track (.video size pts frame fits)) :
      Emitted libraries mapping worker e
  | audio (hid : track.id = 2) (h : .send e ∈ decoded worker track (.audio bytes pts info)) :
      Emitted libraries mapping worker e

structure SameLimits (limits : MediaLimits) (o : MediaOptions) : Prop where
  wire : limits.wireBytes = o.wireMax
  inflated : limits.inflatedBytes = o.inflatedMax
  decoded : limits.decodedBytes = o.decodedMax
  width : limits.maxWidth = o.maxWidth
  height : limits.maxHeight = o.maxHeight

/-- Where the two sides agree on a descriptor. -/
def Decodable (limits : MediaLimits) : Emission → Prop
  | .rtp _ _ _ data => data.length ≤ limits.wireBytes
  | .senderReport track _ _ => track.id ≤ 3 ∧ track.incarnation ≠ 0
  | .video _ _ frame => frame.width ≠ 0 ∧ frame.height ≠ 0
  | .metadata .. => True
  | .audio .. => True

theorem encodedFrame_id (h : encodedFrame wireMax size packet track = some track') : track'.id = track.id := by
  unfold encodedFrame at h
  dsimp only at h
  split at h
  · rw [Option.some.inj h]
  · generalize (if track.encodedTimestamp ≠ packet.timestamp then 0 else track.encodedBytes) = counted at h
    split at h
    · cases h
    · rw [← Option.some.inj h]

theorem continuity_id (packet : MediaRtp) (track : Track) : (continuity packet track).1.id = track.id := by
  unfold continuity
  dsimp only
  split
  · rfl
  · split <;> rfl

theorem continuity_send (packet : MediaRtp) (track : Track) : .send e ∉ (continuity packet track).2 := by
  unfold continuity
  dsimp only
  split
  · simp
  · split <;> simp

variable {worker : OpenedWorker}

theorem rtpSend_send
    (h : .send e ∈ (rtpSend libraries worker track rtp packet receipt metadata).2) :
    e = .rtp track packet receipt rtp.data ∨
      track.id = 3 ∧ (metadata.push libraries packet rtp.getPayload receipt).2 = .complete ∧
        e = .metadata track (metadata.push libraries packet rtp.getPayload receipt).1 receipt := by
  have hrtp : ∀ {e}, Output.send e ∈ (if worker.options.flags &&& 1 ≠ 0 then
      [Output.send (.rtp track packet receipt rtp.data)] else []) → e = .rtp track packet receipt rtp.data := by
    intro e he
    split at he
    · simpa using he
    · cases he
  unfold rtpSend at h
  dsimp only at h
  split at h
  · rename_i hid
    rcases List.mem_append.mp h with h | h
    · exact .inl (hrtp h)
    · refine .inr ⟨hid, ?_⟩
      generalize metadata.push libraries packet rtp.getPayload receipt = r at h ⊢
      obtain ⟨document, result⟩ := r
      cases result <;> simp [metadataOutput] at h
      exact ⟨rfl, h⟩
  · exact .inl (hrtp h)

theorem rtpProbe_send
    (h : .send e ∈ (rtpProbe libraries mapping worker track metadata buffer receipt).2.2) :
    ∃ rtp packet track', rtp.data.length ≤ 65536 ∧ mediaRtpInfo rtp = some packet ∧ track'.id = track.id ∧
      (e = .rtp track' packet receipt rtp.data ∨
        track.id = 3 ∧ (metadata.push libraries packet rtp.getPayload receipt).2 = .complete ∧
          e = .metadata track' (metadata.push libraries packet rtp.getPayload receipt).1 receipt) := by
  unfold rtpProbe at h
  split at h
  · cases h
  split at h
  · simp at h
  rename_i hsize
  cases hmap : mapping.map buffer.data with
  | none => simp [hmap] at h
  | some rtp =>
    cases hinfo : mediaRtpInfo rtp with
    | none => simp [hmap, hinfo] at h
    | some packet =>
      simp only [hmap, hinfo] at h
      split at h
      · simp at h
      cases henc : encodedFrame worker.options.wireMax rtp.getPayloadLen packet track with
      | none => simp [henc] at h
      | some t =>
        simp only [henc] at h
        have hdata : rtp.data.length ≤ 65536 := by rw [mapping.data_eq hmap]; omega
        generalize ht : (if worker.options.mode ≠ 0 then { t with timingReported := true } else t) = t' at h
        have hid : t'.id = track.id := by
          rw [← encodedFrame_id henc, ← ht]
          split <;> rfl
        have htiming : ∀ {e}, Output.send e ∉ (if worker.options.mode ≠ 0 ∧ ¬t.timingReported then
            [Output.replayTiming t.id buffer.pts buffer.dts buffer.segmentStart] else []) := by
          intro e
          split <;> simp
        split at h
        · rcases List.mem_append.mp h with h | h
          · exact absurd h htiming
          · simp at h
        · rcases List.mem_append.mp h with h | h
          · rcases List.mem_append.mp h with h | h
            · exact absurd h htiming
            · exact absurd h (continuity_send packet t')
          · refine ⟨rtp, packet, (continuity packet t').1, hdata, hinfo, (continuity_id packet t').trans hid, ?_⟩
            rw [← hid, ← continuity_id packet t']
            exact rtpSend_send h

theorem decoded_video (h : .send e ∈ decoded worker track (.video size pts frame fits)) :
    ∃ f, e = .video track pts f ∧ f.pixels.length ≤ worker.options.decodedMax ∧
      f.width ≤ worker.options.maxWidth ∧ f.height ≤ worker.options.maxHeight := by
  change Output.send e ∈ decodedVideo worker track size pts frame at h
  unfold decodedVideo at h
  split at h
  · cases h
  · split at h
    · simp at h
    · rename_i hsize
      cases frame with
      | none => simp at h
      | some f =>
        dsimp only at h
        split at h
        · simp at h
        · rename_i hdim
          obtain rfl : e = .video track pts f := by simpa using h
          exact ⟨f, rfl, (fits f rfl).trans (not_lt.mp hsize), by omega, by omega⟩

theorem decoded_audio (h : .send e ∈ decoded worker track (.audio bytes pts info)) :
    ∃ rate channels, e = .audio track pts rate channels bytes ∧ bytes.length ≤ worker.options.decodedMax ∧
      (0 < rate ∧ rate ≤ 96000) ∧ (0 < channels ∧ channels ≤ 8) ∧
      0 < bytes.length ∧ bytes.length % (2 * channels) = 0 := by
  change Output.send e ∈ decodedAudio worker track bytes pts info at h
  unfold decodedAudio at h
  split at h
  · cases h
  · split at h
    · simp at h
    · rename_i hsize
      cases info with
      | none => simp at h
      | some info =>
        obtain ⟨rate, channels⟩ := info
        dsimp only at h
        split at h
        · simp at h
        · rename_i hok
          simp only [not_or, not_not] at hok
          obtain ⟨hr, hr', hc, hc', hb, hw⟩ := hok
          obtain rfl : e = .audio track pts rate.toNat channels.toNat bytes := by simpa using h
          exact ⟨_, _, rfl, not_lt.mp hsize, ⟨by omega, by omega⟩, ⟨by omega, by omega⟩, by omega, hw⟩

theorem sendData_queued (h : sendData worker e ipc = (ipc', .queued)) :
    ipc'.frames = ipc.frames ++ [frameOf worker.session worker.generation (guintAdd ipc.sequence 1) e] := by
  unfold sendData at h
  split at h
  · cases h
  · unfold MediaIpc.data at h
    dsimp only at h
    split at h
    · cases h
    · split at h
      · cases h
      · split at h
        · split at h <;> cases h
        · obtain ⟨rfl, _⟩ := Prod.mk.inj h
          rfl

/-- The frame that `send_data` has queued is decoded, to what the probe wrote,
where the two sides agree and the sequence has not wrapped, and only there. -/
theorem emitted_decodes {worker : OpenedWorker} (he : Emitted libraries mapping worker e)
    (hl : SameLimits limits worker.options) (hq : sendData worker e ipc = (ipc', .queued)) :
    ∃ frame, ipc'.frames = ipc.frames ++ [frame] ∧
      (decodeMediaData frame limits = .ok (unitOf worker.generation frame.sequence e) ↔
        guintAdd ipc.sequence 1 ≠ 0 ∧ Decodable limits e) := by
  refine ⟨_, sendData_queued hq, ?_⟩
  obtain ⟨hsession, hgeneration⟩ := worker.owned
  obtain ⟨_, _, _, _, _, _, _, _, _, _, _, _, _, hinflated, _, _, _, _, _, _, _, hwidth, _, hheight, _, hdecoded, _⟩ :=
    worker.bounded
  have hi : worker.options.inflatedMax < 2 ^ 32 := lt_of_le_of_lt hinflated (by decide)
  obtain ⟨hwire, hinf, hdec, hw, hh⟩ := hl
  cases he with
  | @rtp track metadata buffer receipt _ hid hm h =>
    obtain ⟨rtp, packet, track', hsize, hinfo, hid', rfl | ⟨h3, hc, rfl⟩⟩ := rtpProbe_send h
    · exact rtp_decodes _ _ _ _ _ hinfo (hid'.trans_le hid) hsession hgeneration hsize
    · have hcomplete := (push_kept (kept_of_reachable hi hm) hi hinfo).2 hc
      rw [← hinf] at hcomplete
      rw [Decodable, and_true]
      exact metadata_decodes hcomplete (hid'.trans h3) (hinf ▸ hi) hsession hgeneration
  | rtcp h =>
    obtain ⟨⟨info, now⟩, _, hs⟩ := List.mem_map.mp h
    obtain rfl := Output.send.inj hs
    exact senderReport_decodes hsession hgeneration
  | video hid h =>
    obtain ⟨f, rfl, hsize, hfw, hfh⟩ := decoded_video h
    exact video_decodes hid ⟨by omega, by omega⟩ ⟨by omega, by omega⟩ ⟨by omega, by omega⟩ hsession hgeneration
  | audio hid h =>
    obtain ⟨rate, channels, rfl, hsize, hr, hc, hb⟩ := decoded_audio h
    rw [Decodable, and_true]
    exact audio_decodes hid hr hc hb ⟨by omega, by omega⟩ hsession hgeneration

-- A packet at the edge of the wire limit

def exactMapping : RtpMapping where
  map data := if h : RtpMapped data then some ⟨data, h⟩ else none
  data_eq := by
    intro data rtp h
    split at h
    · rw [← Option.some.inj h]
    · cases h

def noLibraries : Libraries where
  utf8Validate _ := false
  readMemory _ := none
  convert _ := []

def smallOptions (wireMax : Nat) : MediaOptions :=
  { mode := 0, transport := 1, tracks := 1, flags := 1, credentialHandle := 1, trustHandle := 1
    startNtpNs := 0, endNtpNs := 0, wireMax, inflatedMax := 1, deadlineMs := 1, queueBytes := 65536
    queueFrames := 1, maxWidth := 1, maxHeight := 1, decodedMax := 384, codecs := 1 }

def smallWorker (wireMax : Nat) (h : wireMax = 15 ∨ wireMax = 16) : OpenedWorker where
  session := 7
  generation := 1
  options := smallOptions wireMax
  owned := by decide
  bounded := by rcases h with rfl | rfl <;> decide

def smallTrack : Track where
  id := 1
  clockRate := 90000
  payloadType := 96
  known := by decide
  clock := by decide
  payload := by decide

def smallLimits (wireBytes : Nat) : MediaLimits :=
  { wireBytes, inflatedBytes := 1, metadataDeadlineMs := 1, queueBytes := 65536, queueUnits := 1
    maxSubscribers := 1, maxWidth := 1, maxHeight := 1, decodedBytes := 384, closeTimeoutMs := 1
    killTimeoutMs := 1, controlTimeoutMs := 1, partialFrameTimeoutMs := 1, stderrBytes := 1 }

def smallPacket : Bytes := [0x80, 0x60, 0, 1, 0, 0, 0, 2, 0, 0, 0, 3, 9, 9, 9, 9]

theorem smallPacket_mapped : RtpMapped smallPacket := by decide

def smallRtp : MediaRtp :=
  { ssrc := 3, timestamp := 2, sequence := 1, payloadType := 96, marker := false }

def smallTrackAfter : Track :=
  { smallTrack with seenRtp := true, ssrc := 3, sequence := 1, encodedBytes := 4, encodedTimestamp := 2 }

def smallEmission : Emission := .rtp smallTrackAfter smallRtp 5 smallPacket

def smallIpc : MediaIpc := ({} : MediaIpc).limits 65536 1 false

theorem small_emitted (wireMax : Nat) (h : wireMax = 15 ∨ wireMax = 16) :
    Emitted noLibraries exactMapping (smallWorker wireMax h) smallEmission := by
  refine @Emitted.rtp _ _ _ (.init wireMax 1 1 false) smallTrack ⟨smallPacket, 0, 0, 0⟩ 5 _ (by decide) (.start rfl) ?_
  have hmap : exactMapping.map smallPacket = some ⟨smallPacket, smallPacket_mapped⟩ := by
    simp only [exactMapping]
    exact dif_pos smallPacket_mapped
  have hinfo : mediaRtpInfo ⟨smallPacket, smallPacket_mapped⟩ = some smallRtp := by rfl
  have hpayload : GstRTPBuffer.getPayloadLen ⟨smallPacket, smallPacket_mapped⟩ = 4 := by rfl
  have hlen : smallPacket.length = 16 := rfl
  rcases h with rfl | rfl <;>
    simp [rtpProbe, hmap, hinfo, hpayload, hlen, smallWorker, smallOptions, smallRtp, smallTrack, encodedFrame,
      continuity, rtpSend, smallEmission, smallTrackAfter, guintSub, guintAdd]

theorem small_sent (wireMax : Nat) (h : wireMax = 15 ∨ wireMax = 16) :
    ∃ ipc', sendData (smallWorker wireMax h) smallEmission smallIpc = (ipc', .queued) := by
  rcases h with rfl | rfl <;> exact ⟨_, rfl⟩

theorem emitted_decodes_small : ∃ (ipc' : MediaIpc) (frame : IpcFrame), ipc'.frames = smallIpc.frames ++ [frame] ∧
    (decodeMediaData frame (smallLimits 16) = .ok (unitOf 1 frame.sequence smallEmission) ↔
      guintAdd smallIpc.sequence 1 ≠ 0 ∧ Decodable (smallLimits 16) smallEmission) := by
  obtain ⟨ipc', h⟩ := small_sent 16 (.inr rfl)
  exact ⟨ipc', emitted_decodes (small_emitted 16 (.inr rfl)) ⟨rfl, rfl, rfl, rfl, rfl⟩ h⟩

theorem emitted_rejected :
    ¬∀ (libraries : Libraries) (mapping : RtpMapping) (worker : OpenedWorker) (e : Emission) (limits : MediaLimits)
      (ipc ipc' : MediaIpc), Emitted libraries mapping worker e → SameLimits limits worker.options →
      sendData worker e ipc = (ipc', .queued) → ∃ frame, ipc'.frames = ipc.frames ++ [frame] ∧
        decodeMediaData frame limits = .ok (unitOf worker.generation frame.sequence e) := by
  intro h
  obtain ⟨ipc', hq⟩ := small_sent 15 (.inl rfl)
  obtain ⟨frame, hf, hd⟩ := h _ _ _ _ (smallLimits 15) _ _ (small_emitted 15 (.inl rfl)) ⟨rfl, rfl, rfl, rfl, rfl⟩ hq
  obtain rfl := List.singleton_inj.mp (List.append_cancel_left (hf.symm.trans (sendData_queued hq)))
  have hinfo : mediaRtpInfo ⟨smallPacket, smallPacket_mapped⟩ = some smallRtp := rfl
  have hid : smallTrackAfter.id ≤ 3 := by decide
  have hiff := rtp_decodes 5 7 1 (guintAdd smallIpc.sequence 1) (smallLimits 15) hinfo hid (by decide) (by decide) (by decide)
  have hle : smallPacket.length ≤ 15 := (hiff.mp hd).2
  exact absurd hle (by decide)

end WotAv.System
