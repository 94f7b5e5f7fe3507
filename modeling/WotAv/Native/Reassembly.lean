import WotAv.Lib.Blocks
import WotAv.Native.Probes

/-!
# Documents of a metadata track

What comes of the packets and clock readings that a track is given after a
reset: each document is one block of packets, and when the collecting of one
ends without it, that is reported.
-/

namespace WotAv.Native

open WotAv.Lib

-- Runs

structure Arrival where
  packet : MediaRtp
  payload : Bytes

def Arrival.same (a b : Arrival) : Bool := a.packet.ssrc = b.packet.ssrc && a.packet.sequence = b.packet.sequence

def Arrival.Follows (a b : Arrival) : Prop :=
  a.packet.ssrc = b.packet.ssrc ∧ (a.packet.sequence + 1) % 2 ^ 16 = b.packet.sequence

def content (arrivals : List Arrival) : Bytes := arrivals.flatMap Arrival.payload

/-- A call of `media_metadata_push` or of `media_metadata_expire`. -/
inductive MetadataCall
  | push (arrival : Arrival) (nowUs : Int)
  | expire (nowUs : Int)

structure Reassembly where
  state : MediaMetadata
  given : List Arrival := []
  documents : List Bytes := []

namespace Reassembly

def step (libraries : Libraries) (r : Reassembly) : MetadataCall → Reassembly
  | .push arrival nowUs =>
    let (state, result) := r.state.push libraries arrival.packet arrival.payload nowUs
    { state, given := r.given ++ [arrival]
      documents := if result = .complete then r.documents ++ [state.xml] else r.documents }
  | .expire nowUs => { r with state := (r.state.expire nowUs).1 }

def run (libraries : Libraries) (state : MediaMetadata) (drain : Bool) (calls : List MetadataCall) : Reassembly :=
  calls.foldl (step libraries) { state := state.reset drain }

def packets (r : Reassembly) : List Arrival := withoutRepeats Arrival.same r.given

/-- The blocks of packets that end with a marker, and the packets after the last marker. -/
def blocks (r : Reassembly) : List (List Arrival) × List Arrival := cut (fun a => a.packet.marker) r.packets

-- What is being collected

structure Collects (s : MediaMetadata) (packets : List Arrival) : Prop where
  fits : s.wire.length ≤ s.wireMax
  known : packets.getLast?.map (fun a => (a.packet.ssrc, a.packet.sequence)) =
    if s.haveSequence then some (s.ssrc, s.lastSequence) else none
  underway : s.active → s.discarding = false ∧ (cut (fun a => a.packet.marker) packets).2 ≠ [] ∧
    (cut (fun a => a.packet.marker) packets).2.IsChain Arrival.Follows ∧
    s.wire = content (cut (fun a => a.packet.marker) packets).2 ∧ s.xml = []
  between : s.active = false → s.discarding = false → (cut (fun a => a.packet.marker) packets).2 = []

/-- A document that is given up: what follows is dropped up to the next marker. -/
def giveUp (s : MediaMetadata) : MediaMetadata := { s with active := false, discarding := true, wire := [] }

variable {s : MediaMetadata} {packets : List Arrival}

theorem Collects.giveUp (h : Collects s packets) :
    Collects (giveUp s) packets where
  fits := Nat.zero_le _
  known := h.known
  underway := by simp [Reassembly.giveUp]
  between := by simp [Reassembly.giveUp]

theorem expire_eq (s : MediaMetadata) (nowUs : Int) :
    s.expire nowUs = if s.active ∧ nowUs - s.startedUs > s.deadlineMs * 1000 then (giveUp s, true) else (s, false) := rfl

theorem Collects.expire (h : Collects s packets) (nowUs : Int) :
    Collects (s.expire nowUs).1 packets := by
  rw [expire_eq]
  split
  · exact h.giveUp
  · exact h

def Repeats (s : MediaMetadata) (packet : MediaRtp) : Prop :=
  s.haveSequence ∧ s.ssrc = packet.ssrc ∧ s.lastSequence = packet.sequence

def Skips (s : MediaMetadata) (packet : MediaRtp) : Prop :=
  s.haveSequence ∧ (s.ssrc ≠ packet.ssrc ∨ (s.lastSequence + 1) % 2 ^ 16 ≠ packet.sequence)

instance (s : MediaMetadata) (packet : MediaRtp) : Decidable (Repeats s packet) := by unfold Repeats; infer_instance

instance (s : MediaMetadata) (packet : MediaRtp) : Decidable (Skips s packet) := by unfold Skips; infer_instance

def number (s : MediaMetadata) (packet : MediaRtp) : MediaMetadata :=
  { s with ssrc := packet.ssrc, lastSequence := packet.sequence, haveSequence := true }

def arrive (s : MediaMetadata) (packet : MediaRtp) : MediaMetadata :=
  number (if Skips s packet then giveUp s else s) packet

theorem push_eq (libraries : Libraries) (packet : MediaRtp) (bytes : Bytes) (nowUs : Int) (s : MediaMetadata) :
    s.push libraries packet bytes nowUs =
      if Repeats (s.expire nowUs).1 packet then ((s.expire nowUs).1, .more)
      else if (arrive (s.expire nowUs).1 packet).discarding then
        (if packet.marker then { arrive (s.expire nowUs).1 packet with discarding := false }
          else arrive (s.expire nowUs).1 packet,
          if Skips (s.expire nowUs).1 packet then .gap else if (s.expire nowUs).2 then .limit else .more)
      else (arrive (s.expire nowUs).1 packet).append libraries packet bytes nowUs := rfl

def opened (s : MediaMetadata) (packet : MediaRtp) (nowUs : Int) : MediaMetadata :=
  { (if s.active then s
      else { s with active := true, wire := [], xml := [], firstSequence := packet.sequence
                    firstTimestamp := packet.timestamp, startedUs := nowUs }) with lastTimestamp := packet.timestamp }

theorem append_eq (libraries : Libraries) (packet : MediaRtp) (bytes : Bytes) (nowUs : Int) (s : MediaMetadata) :
    s.append libraries packet bytes nowUs =
      if bytes.length > guintSub (opened s packet nowUs).wireMax (opened s packet nowUs).wire.length then
        ({ opened s packet nowUs with active := false, discarding := !packet.marker, wire := [] }, .limit)
      else if !packet.marker then
        ({ opened s packet nowUs with wire := (opened s packet nowUs).wire ++ bytes }, .more)
      else MediaMetadata.finish libraries
        { opened s packet nowUs with active := false, wire := (opened s packet nowUs).wire ++ bytes } := rfl

-- Documents

/-- What a packet with a new number does to what is being collected. -/
structure Takes (s : MediaMetadata) (packets : List Arrival) (a : Arrival) (r : MediaMetadata × MediaMeta) : Prop where
  collects : Collects r.1 (packets ++ [a])
  wireMax : r.1.wireMax = s.wireMax
  gzip : r.1.gzip = s.gzip
  complete : r.2 = .complete → s.gzip = false → a.packet.marker ∧
    ((cut (fun a => a.packet.marker) packets).2 ++ [a]).IsChain Arrival.Follows ∧
    r.1.xml = content ((cut (fun a => a.packet.marker) packets).2 ++ [a])

theorem known_snoc (s : MediaMetadata) (packets : List Arrival) (a : Arrival) :
    (packets ++ [a]).getLast?.map (fun a => (a.packet.ssrc, a.packet.sequence)) =
      if (number s a.packet).haveSequence then some ((number s a.packet).ssrc, (number s a.packet).lastSequence)
      else none := by
  simp [number]

theorem Collects.drop (h : Collects s packets) (hd : s.discarding)
    (a : Arrival) (code : MediaMeta) (hcode : code ≠ .complete) :
    Takes s packets a (if a.packet.marker then { number s a.packet with discarding := false } else number s a.packet,
      code) := by
  have hactive : s.active = false := by
    by_contra hne
    have := (h.underway (eq_true_of_ne_false hne)).1
    simp [hd] at this
  have hkeep : ∀ discarding, (discarding = false → a.packet.marker) →
      Collects { number s a.packet with discarding } (packets ++ [a]) := fun discarding hm => {
    fits := h.fits
    known := known_snoc s packets a
    underway := by simp [number, hactive]
    between := fun _ hdisc => by rw [cut_snoc, if_pos (hm hdisc)] }
  split
  · rename_i hm
    exact ⟨hkeep false fun _ => hm, rfl, rfl, fun hc => absurd hc hcode⟩
  · refine ⟨?_, rfl, rfl, fun hc => absurd hc hcode⟩
    have := hkeep true (by simp)
    rwa [show ({ number s a.packet with discarding := true } : MediaMetadata) = number s a.packet by
      rw [← hd]; rfl] at this

theorem inflateLoop_xml : ∀ (results : List (Nat × Bytes × Bool)) (consumed : Nat) (s : MediaMetadata),
    ∃ xml, (MediaMetadata.inflateLoop results consumed s).1 = { s with xml } := by
  intro results
  induction results with
  | nil => exact fun _ s => ⟨s.xml, rfl⟩
  | cons result results ih =>
    obtain ⟨read, output, finished⟩ := result
    intro consumed s
    rw [MediaMetadata.inflateLoop]
    split
    · exact ⟨s.xml, rfl⟩
    · simp only
      split
      · exact ⟨_, rfl⟩
      · split
        · exact ⟨_, rfl⟩
        · obtain ⟨xml, h⟩ := ih (consumed + read) { s with xml := s.xml ++ output }
          exact ⟨xml, by rw [h]⟩

theorem finish_ok (libraries : Libraries) (s : MediaMetadata) :
    ∃ xml, (s.finish libraries).1 = { s with xml } ∧
      ((s.finish libraries).2 = .complete → s.gzip = false → xml = s.xml ++ s.wire) := by
  unfold MediaMetadata.finish
  by_cases hg : s.gzip
  · obtain ⟨xml, h⟩ := inflateLoop_xml (libraries.convert s.wire) 0 s
    refine ⟨xml, ?_, by simp [hg]⟩
    rw [if_pos hg]
    change (if (s.inflate libraries).2 ≠ .complete then _ else _ : MediaMetadata × MediaMeta).1 = _
    split <;> exact h
  · rw [if_neg hg]
    by_cases hl : s.wire.length > s.inflatedMax
    · rw [if_pos hl]
      exact ⟨s.xml, rfl, by simp⟩
    · rw [if_neg hl]
      exact ⟨s.xml ++ s.wire, rfl, fun _ _ => rfl⟩

theorem Collects.append (h : Collects s packets)
    (hw : s.wireMax < 2 ^ 32) (hd : s.discarding = false) {a : Arrival} (hs : ¬Skips s a.packet) (libraries : Libraries) (nowUs : Int) :
    Takes s packets a ((number s a.packet).append libraries a.packet a.payload nowUs) := by
  set rest := (cut (fun a => a.packet.marker) packets).2 with hrest
  set t := opened (number s a.packet) a.packet nowUs with ht
  have hfields : t.wireMax = s.wireMax ∧ t.gzip = s.gzip ∧ t.discarding = false ∧
      t.haveSequence = true ∧ t.ssrc = a.packet.ssrc ∧ t.lastSequence = a.packet.sequence ∧ t.active = true := by
    rw [ht, opened]
    split
    · rename_i ha
      exact ⟨rfl, rfl, hd, rfl, rfl, rfl, ha⟩
    · exact ⟨rfl, rfl, hd, rfl, rfl, rfl, rfl⟩
  obtain ⟨hmax, hgzip, hdisc, hhave, hssrc, hlast, hactive⟩ := hfields
  have hsofar : t.wire.length ≤ t.wireMax ∧ t.wire = content rest ∧ t.xml = [] := by
    rw [ht, opened]
    by_cases ha : s.active
    · rw [if_pos (by exact ha)]
      exact ⟨h.fits, (h.underway ha).2.2.2.1, (h.underway ha).2.2.2.2⟩
    · rw [if_neg (by exact ha)]
      have hnone := h.between (eq_false_of_ne_true ha) hd
      exact ⟨Nat.zero_le _, by rw [hrest, hnone]; rfl, rfl⟩
  obtain ⟨hfits, hwire, hxml⟩ := hsofar
  have hchain : (rest ++ [a]).IsChain Arrival.Follows := by
    by_cases ha : s.active
    · obtain ⟨-, hne, hchain, -⟩ := h.underway ha
      refine List.isChain_append.mpr ⟨hchain, by simp, fun b hb c hc => ?_⟩
      have hc : a = c := by simpa using hc
      have hknown := h.known
      rw [getLast_cut hne, hb] at hknown
      split at hknown
      · rename_i hhave
        obtain ⟨hbs, hbl⟩ := Prod.mk.inj (Option.some.inj hknown)
        have hnum : s.ssrc = a.packet.ssrc ∧ (s.lastSequence + 1) % 2 ^ 16 = a.packet.sequence := by
          by_contra hne
          exact hs ⟨hhave, by tauto⟩
        subst hc
        exact ⟨hbs.trans hnum.1, by rw [hbl]; exact hnum.2⟩
      · cases hknown
    · rw [hrest, h.between (eq_false_of_ne_true ha) hd]
      simp
  have hknown : ∀ r : MediaMetadata, r.haveSequence = t.haveSequence → r.ssrc = t.ssrc → r.lastSequence = t.lastSequence →
      (packets ++ [a]).getLast?.map (fun a => (a.packet.ssrc, a.packet.sequence)) =
        if r.haveSequence then some (r.ssrc, r.lastSequence) else none := by
    intro r h₁ h₂ h₃
    rw [h₁, h₂, h₃, hhave, hssrc, hlast]
    simp
  rw [append_eq, ← ht]
  split
  · refine ⟨⟨Nat.zero_le _, hknown _ rfl rfl rfl, by simp, fun _ hm => ?_⟩, hmax, hgzip, by simp⟩
    rw [cut_snoc, if_pos (by simpa using hm)]
  · rename_i hroom
    rw [guintSub_of_le hfits (by rw [hmax]; exact hw)] at hroom
    have hlen : (t.wire ++ a.payload).length ≤ t.wireMax := by
      rw [List.length_append]
      omega
    have hcontent : t.wire ++ a.payload = content (rest ++ [a]) := by
      rw [hwire]
      simp [content]
    split
    · rename_i hm
      have hm : a.packet.marker = false := by simpa using hm
      refine ⟨⟨hlen, hknown _ rfl rfl rfl, fun _ => ⟨hdisc, ?_⟩, fun hna => ?_⟩, hmax, hgzip, by simp⟩
      · rw [cut_snoc, hm]
        exact ⟨by simp, hchain, hcontent, hxml⟩
      · simp [hactive] at hna
    · rename_i hm
      have hm : a.packet.marker = true := by simpa using hm
      obtain ⟨xml, hfin, hcomplete⟩ :=
        finish_ok libraries { t with active := false, wire := t.wire ++ a.payload }
      refine ⟨?_, by rw [hfin]; exact hmax, by rw [hfin]; exact hgzip, fun hc hg => ⟨hm, hchain, ?_⟩⟩
      · rw [hfin]
        exact ⟨hlen, hknown _ rfl rfl rfl, by simp, fun _ _ => by rw [cut_snoc, if_pos hm]⟩
      · rw [hfin, ← hcontent]
        have := hcomplete hc (by rw [← hg]; exact hgzip)
        simpa [hxml] using this

theorem expire_same (s : MediaMetadata) (nowUs : Int) :
    (s.expire nowUs).1.wireMax = s.wireMax ∧ (s.expire nowUs).1.gzip = s.gzip := by
  rw [expire_eq]
  split <;> exact ⟨rfl, rfl⟩

theorem push_takes (h : Collects s packets) (hw : s.wireMax < 2 ^ 32)
    (libraries : Libraries) (a : Arrival) (nowUs : Int) (hr : ¬Repeats (s.expire nowUs).1 a.packet) :
    Takes s packets a (s.push libraries a.packet a.payload nowUs) := by
  obtain ⟨hmax, hgzip⟩ := expire_same s nowUs
  have he := h.expire nowUs
  have hkeep : ∀ {s' : MediaMetadata} {r : MediaMetadata × MediaMeta}, s'.wireMax = s.wireMax → s'.gzip = s.gzip →
      Takes s' packets a r → Takes s packets a r := fun hm hg ht =>
    ⟨ht.collects, ht.wireMax.trans hm, ht.gzip.trans hg, fun hc h => ht.complete hc (hg.trans h)⟩
  rw [push_eq, if_neg hr]
  by_cases hs : Skips (s.expire nowUs).1 a.packet
  · have harrive : arrive (s.expire nowUs).1 a.packet = number (giveUp (s.expire nowUs).1) a.packet := by
      rw [arrive, if_pos hs]
    have hd : (number (giveUp (s.expire nowUs).1) a.packet).discarding = true := rfl
    rw [harrive, if_pos hd, if_pos hs]
    have hdrop := he.giveUp.drop rfl a .gap (by decide)
    exact hkeep (show (giveUp (s.expire nowUs).1).wireMax = s.wireMax from hmax) hgzip hdrop
  · have harrive : arrive (s.expire nowUs).1 a.packet = number (s.expire nowUs).1 a.packet := by
      rw [arrive, if_neg hs]
    rw [harrive]
    by_cases hd : (s.expire nowUs).1.discarding
    · rw [if_pos (by exact hd), if_neg hs]
      exact hkeep hmax hgzip (he.drop hd a _ (by split <;> decide))
    · rw [if_neg (by exact hd)]
      exact hkeep hmax hgzip (he.append (by rw [hmax]; exact hw) (eq_false_of_ne_true hd) hs libraries nowUs)

theorem Collects.repeats_iff (h : Collects s packets) (a : Arrival) :
    packets.getLast?.any (Arrival.same · a) ↔ Repeats s a.packet := by
  have hknown := h.known
  cases hlast : packets.getLast? with
  | none =>
    rw [hlast] at hknown
    split at hknown
    · cases hknown
    · rename_i hh
      simp [Repeats, hh]
  | some b =>
    rw [hlast] at hknown
    split at hknown
    · rename_i hh
      obtain ⟨hs, hl⟩ := Prod.mk.inj (Option.some.inj hknown)
      simp [Repeats, hh, Arrival.same, hs, hl]
    · cases hknown

structure Holds (s : MediaMetadata) (r : Reassembly) : Prop where
  collects : Collects r.state r.packets
  wireMax : r.state.wireMax = s.wireMax
  gzip : r.state.gzip = s.gzip
  documents : s.gzip = false → ∃ documents : List (List Arrival), documents.Sublist r.blocks.1 ∧
    (∀ document ∈ documents, document.IsChain Arrival.Follows) ∧ r.documents = documents.map content

theorem Holds.push {r : Reassembly} (h : Holds s r) (hw : s.wireMax < 2 ^ 32)
    (libraries : Libraries) (a : Arrival) (nowUs : Int) :
    Holds s (r.step libraries (.push a nowUs)) ∧
      ((r.state.push libraries a.packet a.payload nowUs).2 = .complete → s.gzip = false →
        ∃ document, (r.step libraries (.push a nowUs)).blocks.1.getLast? = some document ∧
          document.getLast? = some a ∧ document.IsChain Arrival.Follows ∧
          (r.state.push libraries a.packet a.payload nowUs).1.xml = content document) := by
  obtain ⟨hmax, hgzip⟩ := expire_same r.state nowUs
  have he := h.collects.expire nowUs
  by_cases hr : Repeats (r.state.expire nowUs).1 a.packet
  · have hpush : r.state.push libraries a.packet a.payload nowUs = ((r.state.expire nowUs).1, .more) := by
      rw [push_eq, if_pos hr]
    have hpackets : (r.step libraries (.push a nowUs)).packets = r.packets :=
      (withoutRepeats_snoc r.given a).trans (if_pos ((he.repeats_iff a).mpr hr))
    refine ⟨⟨?_, ?_, ?_, fun hg => ?_⟩, by simp [hpush]⟩
    · rw [hpackets]
      simp only [step, hpush]
      exact he
    · simp only [step, hpush, hmax, h.wireMax]
    · simp only [step, hpush, hgzip, h.gzip]
    · have hdocuments : (r.step libraries (.push a nowUs)).documents = r.documents := by
        simp only [step, hpush]
        rfl
      rw [blocks, hpackets, hdocuments]
      exact h.documents hg
  · have htakes := push_takes h.collects (by rw [h.wireMax]; exact hw) libraries a nowUs hr
    have hpackets : (r.step libraries (.push a nowUs)).packets = r.packets ++ [a] :=
      (withoutRepeats_snoc r.given a).trans (if_neg fun hsame => hr ((he.repeats_iff a).mp hsame))
    have hblocks : (r.step libraries (.push a nowUs)).blocks = cut (fun a => a.packet.marker) (r.packets ++ [a]) := by
      rw [blocks, hpackets]
    refine ⟨⟨?_, htakes.wireMax.trans h.wireMax, htakes.gzip.trans h.gzip, fun hg => ?_⟩, fun hc hg => ?_⟩
    · rw [hpackets]
      exact htakes.collects
    · obtain ⟨documents, hsub, hchain, hdocs⟩ := h.documents hg
      rw [hblocks, cut_snoc]
      by_cases hc : (r.state.push libraries a.packet a.payload nowUs).2 = .complete
      · obtain ⟨hm, hnew, hxml⟩ := htakes.complete hc (h.gzip.trans hg)
        refine ⟨documents ++ [r.blocks.2 ++ [a]], ?_, fun document hd => ?_, ?_⟩
        · rw [if_pos hm]
          exact hsub.append (List.Sublist.refl _)
        · rcases List.mem_append.mp hd with hd | hd
          · exact hchain document hd
          · rw [List.mem_singleton.mp hd]
            exact hnew
        · simp only [step, if_pos hc, hdocs, hxml, List.map_append, List.map_singleton]
          rfl
      · refine ⟨documents, ?_, hchain, by simp only [step, if_neg hc, hdocs]⟩
        split
        · exact hsub.trans (List.sublist_append_left _ _)
        · exact hsub
    · obtain ⟨hm, hnew, hxml⟩ := htakes.complete hc (h.gzip.trans hg)
      rw [hblocks, cut_snoc, if_pos hm]
      exact ⟨_, List.getLast?_concat, List.getLast?_concat, hnew, hxml⟩

theorem Holds.step {r : Reassembly} (h : Holds s r) (hw : s.wireMax < 2 ^ 32)
    (libraries : Libraries) (call : MetadataCall) : Holds s (r.step libraries call) := by
  cases call with
  | push a nowUs => exact (h.push hw libraries a nowUs).1
  | expire nowUs =>
    obtain ⟨hmax, hgzip⟩ := expire_same r.state nowUs
    exact ⟨h.collects.expire nowUs, hmax.trans h.wireMax, hgzip.trans h.gzip, h.documents⟩

theorem run_snoc (libraries : Libraries) (s : MediaMetadata) (drain : Bool) (calls : List MetadataCall)
    (call : MetadataCall) :
    run libraries s drain (calls ++ [call]) = (run libraries s drain calls).step libraries call := by
  simp [run]

theorem run_holds (libraries : Libraries) (s : MediaMetadata) (hw : s.wireMax < 2 ^ 32) (drain : Bool)
    (calls : List MetadataCall) : Holds s (run libraries s drain calls) := by
  induction calls using List.reverseRecOn with
  | nil =>
    refine ⟨⟨Nat.zero_le _, rfl, by simp [run, MediaMetadata.reset], fun _ _ => rfl⟩, rfl, rfl, fun _ => ?_⟩
    exact ⟨[], List.nil_sublist _, by simp, rfl⟩
  | append_singleton calls call ih =>
    rw [run_snoc]
    exact ih.step hw libraries call

/-- Every document is one block of consecutive packets of one source, no block
is two documents, and the buffer keeps its bound. -/
theorem documents_whole (libraries : Libraries) (s : MediaMetadata) (hw : s.wireMax < 2 ^ 32) (drain : Bool)
    (calls : List MetadataCall) :
    (run libraries s drain calls).state.wire.length ≤ s.wireMax ∧
    (s.gzip = false →
      (∀ before a nowUs, before ++ [.push a nowUs] <+: calls →
        ((run libraries s drain before).state.push libraries a.packet a.payload nowUs).2 = .complete →
        ∃ document, (run libraries s drain (before ++ [.push a nowUs])).blocks.1.getLast? = some document ∧
          document.getLast? = some a ∧ document.IsChain Arrival.Follows ∧
          ((run libraries s drain before).state.push libraries a.packet a.payload nowUs).1.xml = content document) ∧
      ∃ documents : List (List Arrival), documents.Sublist (run libraries s drain calls).blocks.1 ∧
        (∀ document ∈ documents, document.IsChain Arrival.Follows) ∧
        (run libraries s drain calls).documents = documents.map content) := by
  have h := run_holds libraries s hw drain calls
  refine ⟨h.wireMax ▸ h.collects.fits, fun hg => ⟨fun before a nowUs _ hc => ?_, h.documents hg⟩⟩
  rw [run_snoc]
  exact ((run_holds libraries s hw drain before).push hw libraries a nowUs).2 hc hg

def lenient : Libraries where
  utf8Validate := fun _ => true
  readMemory := fun _ => some
    ⟨some (.node true false (ascii "MetadataStream") (some (ascii "http://www.onvif.org/ver10/schema")) 0 []), false, false⟩
  convert := fun _ => []

def single (sequence : Nat) (marker : Bool) (byte : UInt8) : Arrival where
  packet := { ssrc := 7, timestamp := 0, sequence, payloadType := 96, marker }
  payload := [byte]

def fresh : MediaMetadata := .init 8 8 1000 false

theorem documents_whole_wrapping :
    (run lenient fresh false [.push (single 65535 false 1) 0, .push (single 65535 false 1) 5,
      .push (single 0 true 2) 9]).documents = [[1, 2]] ∧
    (run lenient fresh false [.push (single 65535 false 1) 0, .push (single 65535 false 1) 5,
      .push (single 0 true 2) 9]).state.wire.length ≤ 8 :=
  ⟨by decide, (documents_whole lenient fresh (by decide) false _).1⟩

-- Losses

def Concerns (s : MediaMetadata) (packet : MediaRtp) : Prop :=
  s.active ∨ s.discarding = false ∧ ¬Repeats s packet ∧ ¬Skips s packet

/-- If a call ends the collecting of a document, the track has something to
say: the document, or a gap. -/
def Reported (libraries : Libraries) (s : MediaMetadata) : MetadataCall → Prop
  | .push a nowUs => Concerns s a.packet → (s.push libraries a.packet a.payload nowUs).1.active = false →
      (s.push libraries a.packet a.payload nowUs).2 ≠ .more
  | .expire nowUs => s.active → (s.expire nowUs).1.active = false → (s.expire nowUs).2 = true

/-- After the deadline of what is being collected, its last packet comes again. -/
def LateRepeat (s : MediaMetadata) : MetadataCall → Prop
  | .push a nowUs => s.active ∧ nowUs - s.startedUs > s.deadlineMs * 1000 ∧ Repeats s a.packet
  | .expire _ => False

theorem inflateLoop_ne_more : ∀ (results : List (Nat × Bytes × Bool)) (consumed : Nat) (s : MediaMetadata),
    (MediaMetadata.inflateLoop results consumed s).2 ≠ .more := by
  intro results
  induction results with
  | nil => exact fun _ _ => by simp [MediaMetadata.inflateLoop]
  | cons result results ih =>
    obtain ⟨read, output, finished⟩ := result
    intro consumed s
    rw [MediaMetadata.inflateLoop]
    split
    · simp
    · simp only
      split
      · split <;> simp
      · split
        · simp
        · exact ih _ _

theorem finish_ne_more (libraries : Libraries) (s : MediaMetadata) : (s.finish libraries).2 ≠ .more := by
  have hresult : ∀ r : MediaMetadata × MediaMeta, r.2 ≠ .more →
      (if r.2 ≠ .complete then (r.1, r.2)
        else (r.1, if mediaMetadataXml libraries r.1.xml then .complete else .invalid)).2 ≠ .more := by
    intro r hr
    split
    · exact hr
    · split <;> simp
  unfold MediaMetadata.finish
  by_cases hg : s.gzip
  · rw [if_pos hg]
    exact hresult (s.inflate libraries) (inflateLoop_ne_more _ _ _)
  · rw [if_neg hg]
    by_cases hl : s.wire.length > s.inflatedMax
    · rw [if_pos hl]
      exact hresult (s, .limit) (by simp)
    · rw [if_neg hl]
      exact hresult ({ s with xml := s.xml ++ s.wire }, .complete) (by simp)

theorem append_reported (libraries : Libraries) (packet : MediaRtp) (bytes : Bytes) (nowUs : Int) (s : MediaMetadata)
    (h : (s.append libraries packet bytes nowUs).1.active = false) :
    (s.append libraries packet bytes nowUs).2 ≠ .more := by
  rw [append_eq] at h ⊢
  split at h
  · rename_i hl
    rw [if_pos hl]
    simp
  · rename_i hl
    rw [if_neg hl]
    split at h
    · have hactive : (opened s packet nowUs).active = true := by
        rw [opened]
        split
        · assumption
        · rfl
      simp [hactive] at h
    · rename_i hm
      rw [if_neg hm]
      exact finish_ne_more _ _

/-- The one loss that is not reported. -/
theorem reported_iff (libraries : Libraries) (s : MediaMetadata) (call : MetadataCall) :
    Reported libraries s call ↔ ¬LateRepeat s call := by
  cases call with
  | expire nowUs =>
    simp only [Reported, LateRepeat, not_false_eq_true, iff_true, expire_eq]
    intro ha
    split
    · simp
    · simp [ha]
  | push a nowUs =>
    by_cases hlate : s.active ∧ nowUs - s.startedUs > s.deadlineMs * 1000
    · have he : s.expire nowUs = (giveUp s, true) := by rw [expire_eq, if_pos hlate]
      simp only [Reported, LateRepeat, push_eq, he]
      by_cases hr : Repeats s a.packet
      · have hr' : Repeats (giveUp s) a.packet := hr
        rw [if_pos hr']
        exact iff_of_false (fun h => h (.inl hlate.1) rfl rfl) (not_not.mpr ⟨hlate.1, hlate.2, hr⟩)
      · have hr' : ¬Repeats (giveUp s) a.packet := hr
        have hd : (arrive (giveUp s) a.packet).discarding = true := by
          rw [arrive]
          split <;> rfl
        rw [if_neg hr', if_pos hd]
        refine iff_of_true (fun _ _ => ?_) fun h => hr h.2.2
        show (if Skips (giveUp s) a.packet then MediaMeta.gap else .limit) ≠ .more
        split <;> simp
    · have he : s.expire nowUs = (s, false) := by rw [expire_eq, if_neg hlate]
      simp only [Reported, LateRepeat, push_eq, he]
      refine iff_of_true ?_ fun h => hlate ⟨h.1, h.2.1⟩
      intro hconcerns hafter
      by_cases hr : Repeats s a.packet
      · rw [if_pos hr] at hafter
        rcases hconcerns with ha | ⟨-, hnr, -⟩
        · rw [ha] at hafter
          cases hafter
        · exact absurd hr hnr
      · rw [if_neg hr] at hafter ⊢
        by_cases hs : Skips s a.packet
        · have hd : (arrive s a.packet).discarding = true := by
            rw [arrive, if_pos hs]
            rfl
          rw [if_pos hd, if_pos hs]
          simp
        · have harrive : arrive s a.packet = number s a.packet := by rw [arrive, if_neg hs]
          rw [harrive] at hafter ⊢
          by_cases hd : (number s a.packet).discarding = true
          · -- then it is the document of an earlier packet, which a packet that is dropped leaves as it is
            rw [if_pos hd] at hafter
            rcases hconcerns with ha | ⟨hnd, -⟩
            · split at hafter <;> simp [number, ha] at hafter
            · rw [show (number s a.packet).discarding = s.discarding from rfl, hnd] at hd
              cases hd
          · rw [if_neg hd] at hafter ⊢
            exact append_reported _ _ _ _ _ hafter

/-- In a run every document that is begun is delivered or reported, exactly
when no late packet repeats the one before it. -/
theorem losses_reported (libraries : Libraries) (s : MediaMetadata) (drain : Bool) (calls : List MetadataCall) :
    (∀ before call, before ++ [call] <+: calls → Reported libraries (run libraries s drain before).state call) ↔
      ∀ before call, before ++ [call] <+: calls → ¬LateRepeat (run libraries s drain before).state call := by
  simp only [reported_iff]

/-- The first packet of a document again, after two seconds: nothing is said of it, then or later. -/
theorem late_repeat_unreported :
    ¬Reported lenient (run lenient fresh false [.push (single 1 false 1) 0]).state
      (.push (single 1 false 1) 2000000) ∧
    (run lenient fresh false [.push (single 1 false 1) 0, .push (single 1 false 1) 2000000,
      .push (single 2 true 2) 2000001]).documents = [] := by
  refine ⟨?_, by decide⟩
  rw [reported_iff, not_not]
  exact ⟨by decide, by decide, by decide⟩

end Reassembly

end WotAv.Native
