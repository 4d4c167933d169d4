import FreeJ.OggMux

/-!
# Ogg Streams

A library of streams: packets are cut into segments of 255 bytes and a shorter one, and a page
has up to 255 segments, but no more after those that exceed 4096 bytes. The first page has the
first packet only. This is how the pages of a stream come about that `OggMux` knows nothing of.

## Main results

* `Libogg.ogg`: it is a library as the multiplexer needs it.
-/

namespace FreeJ

/-- A segment of a packet. -/
structure OggSegment where
  bytes : List CHAR
  /-- the packet begins here -/
  first : Bool
  /-- the packet ends here -/
  last : Bool
  granulepos : ℤ
  deriving DecidableEq

/-- `ogg_stream_state` -/
structure OggStream where
  serialno : BitVec 32
  b_o_s : Bool
  e_o_s : Bool
  pageno : ℕ
  segments : List OggSegment
  deriving DecidableEq

/-- `ogg_page` -/
structure OggPage where
  continued : Bool
  bos : Bool
  eos : Bool
  granulepos : ℤ
  serialno : BitVec 32
  pageno : ℕ
  segments : List OggSegment
  deriving DecidableEq

namespace OggStream

/-- The segments of a packet: those of 255 bytes, and what is left, which may be nothing. -/
def cut (granulepos : ℤ) : ℕ → Bool → List CHAR → List OggSegment
  | 0, first, bytes => [⟨bytes, first, true, granulepos⟩]
  | n + 1, first, bytes =>
    ⟨bytes.take 255, first, false, granulepos⟩ :: cut granulepos n false (bytes.drop 255)

/-- `ogg_stream_packetin` -/
def packetin (s : OggStream) (p : OggPacket) : OggStream :=
  { s with
    e_o_s := s.e_o_s || p.e_o_s
    segments := s.segments ++ cut p.granulepos (p.packet.length / 255) true p.packet }

/-- The segments up to the end of the first packet. -/
def firstPacket : ℕ → List OggSegment → ℕ
  | 0, _ => 0
  | _ + 1, [] => 0
  | n + 1, seg :: segs => if seg.last then 1 else firstPacket n segs + 1

/-- The segments until those before them exceed 4096 bytes. -/
def fitting (acc : ℕ) : ℕ → List OggSegment → ℕ
  | 0, _ => 0
  | _ + 1, [] => 0
  | n + 1, seg :: segs =>
    if acc > 4096 then 0 else fitting (acc + seg.bytes.length) n segs + 1

/-- The granule position of the last packet that ends in some segments. -/
def granulepos (segs : List OggSegment) : ℤ :=
  ((segs.filter fun seg => seg.last).getLast?.map fun seg => seg.granulepos).getD (-1)

/-- How many segments the next page has. -/
def vals (s : OggStream) : ℕ :=
  if s.b_o_s then fitting 0 255 s.segments else firstPacket 255 s.segments

/-- `ogg_stream_flush` -/
def flush (s : OggStream) : Option (OggPage × OggStream) :=
  match s.segments with
  | [] => none
  | seg :: _ =>
    let page := s.segments.take s.vals
    some
      (⟨!seg.first, !s.b_o_s, s.e_o_s && s.vals = s.segments.length,
          if s.b_o_s then granulepos page else 0, s.serialno, s.pageno, page⟩,
        { s with b_o_s := true, pageno := s.pageno + 1, segments := s.segments.drop s.vals })

/-- `ogg_stream_pageout` -/
def pageout (s : OggStream) : Option (OggPage × OggStream) :=
  if (s.e_o_s && !s.segments.isEmpty) ||
      4096 < (s.segments.map fun seg => seg.bytes.length).sum ||
      255 ≤ s.segments.length || (!s.segments.isEmpty && !s.b_o_s) then s.flush
  else none

/-- `ogg_page_packets` -/
def packets (segs : List OggSegment) : ℕ := (segs.filter fun seg => seg.last).length

end OggStream

/-- One byte more in the checksum of a page. -/
def crcByte (crc : BitVec 32) (c : CHAR) : BitVec 32 :=
  (List.range 8).foldl (fun crc _ => if crc.msb then crc <<< 1 ^^^ 0x04c11db7 else crc <<< 1)
    (crc ^^^ c.setWidth 32 <<< 24)

namespace OggPage

/-- The bytes before and after the checksum. -/
def headerParts (g : OggPage) : List CHAR × List CHAR :=
  ((CString.ofString "OggS").chars ++ [0] ++
      [(if g.continued then 1 else 0) + (if g.bos then 2 else 0) + (if g.eos then 4 else 0)] ++
      littleEndian 8 (BitVec.ofInt 64 g.granulepos).toNat ++ littleEndian 4 g.serialno.toNat ++
      littleEndian 4 g.pageno,
    BitVec.ofNat 8 g.segments.length ::
      g.segments.map fun seg => if seg.last then BitVec.ofNat 8 seg.bytes.length else 255)

def body (g : OggPage) : List CHAR := g.segments.flatMap fun seg => seg.bytes

def header (g : OggPage) : List CHAR :=
  let crc := (g.headerParts.1 ++ [0, 0, 0, 0] ++ g.headerParts.2 ++ g.body).foldl crcByte 0
  g.headerParts.1 ++ littleEndian 4 crc.toNat ++ g.headerParts.2

end OggPage

namespace OggStream

variable {s s' : OggStream} {g : OggPage} {segs : List OggSegment} {n acc : ℕ}

theorem packets_cut (granulepos : ℤ) (n : ℕ) (first : Bool) (bytes : List CHAR) :
    packets (cut granulepos n first bytes) = 1 := by
  induction n generalizing first bytes with
  | zero => simp [cut, packets]
  | succ n ih => simpa [cut, packets] using ih false (bytes.drop 255)

theorem packets_append (segs segs' : List OggSegment) :
    packets (segs ++ segs') = packets segs + packets segs' := by
  simp [packets]

/-- A page has at least one segment. -/
theorem vals_pos (h : s.segments ≠ []) : 0 < s.vals := by
  rw [vals]
  cases hsegs : s.segments with
  | nil => exact absurd hsegs h
  | cons seg segs =>
      split
      · simp [fitting]
      · simp only [firstPacket]
        split <;> omega

/-- A page and what is left. -/
theorem flush_eq (h : s.flush = some (g, s')) :
    g.segments ++ s'.segments = s.segments ∧ g.segments ≠ [] ∧ g.serialno = s.serialno ∧
      s'.serialno = s.serialno ∧ s'.b_o_s = true ∧ g.bos = !s.b_o_s ∧ s'.e_o_s = s.e_o_s ∧
      (g.eos = true → s.e_o_s = true) := by
  rw [flush] at h
  cases hsegs : s.segments with
  | nil => simp [hsegs] at h
  | cons seg segs =>
      have hpos := vals_pos (s := s) (by simp [hsegs])
      simp only [hsegs, Option.some.injEq, Prod.mk.injEq] at h
      obtain ⟨rfl, rfl⟩ := h
      refine ⟨by rw [List.take_append_drop], ?_, rfl, rfl, rfl, rfl, rfl, fun h => ?_⟩
      · simp
        omega
      · exact (Bool.and_eq_true_iff.mp h).1

/-- What is to be seen of streams and pages. -/
def view : PageView OggStream OggPage (BitVec 32) where
  fill s := s.segments.length
  waiting s := packets s.segments
  serialno := serialno
  begun := b_o_s
  ended := e_o_s
  packets g := packets g.segments
  page_serialno := OggPage.serialno
  bos := OggPage.bos
  eos := OggPage.eos

theorem flush_took (s : OggStream) (g : OggPage) (s' : OggStream) (h : s.flush = some (g, s')) :
    view.Took s g s' := by
  obtain ⟨hsegs, hne, hpage, hserialno, hbegun, hbos, hended, heos⟩ := flush_eq h
  refine ⟨?_, ?_, hserialno, hpage, hbegun, hbos, hended, heos⟩
  · have hlen := congrArg List.length hsegs
    have hpos := List.length_pos_iff.mpr hne
    rw [List.length_append] at hlen
    simp only [view]
    omega
  · simp only [view, ← hsegs, packets_append]

theorem pageout_took (s : OggStream) (g : OggPage) (s' : OggStream)
    (h : s.pageout = some (g, s')) : view.Took s g s' := by
  rw [pageout] at h
  split at h
  · exact flush_took s g s' h
  · exact absurd h (by simp)

theorem flush_none (s : OggStream) (h : s.flush = none) : s.segments.length = 0 := by
  rw [flush] at h
  cases hsegs : s.segments with
  | nil => rfl
  | cons seg segs => simp [hsegs] at h

theorem pageout_first (s : OggStream) (hbegun : s.b_o_s = false) (hfill : s.segments.length ≠ 0) :
    s.pageout ≠ none := by
  intro hnone
  have hne : s.segments.isEmpty = false := by
    rw [List.isEmpty_eq_false_iff]
    exact fun hnil => hfill (by rw [hnil]; rfl)
  rw [pageout, if_pos (by simp [hbegun, hne])] at hnone
  exact hfill (flush_none s hnone)

theorem waiting_packetin (s : OggStream) (p : OggPacket) :
    packets (s.packetin p).segments = packets s.segments + 1 := by
  rw [packetin, packets_append, packets_cut]

end OggStream

/-- **The streams of Ogg** are what the multiplexer needs. -/
def Libogg.ogg : Libogg OggStream OggPage where
  toPageView := OggStream.view
  packetin := OggStream.packetin
  pageout := OggStream.pageout
  flush := OggStream.flush
  last := OggPacket.e_o_s
  waiting_packetin := OggStream.waiting_packetin
  serialno_packetin _ _ := rfl
  begun_packetin _ _ := rfl
  ended_packetin _ _ := rfl
  pageout_took := OggStream.pageout_took
  flush_took := OggStream.flush_took
  flush_none := OggStream.flush_none
  pageout_first := OggStream.pageout_first
  waiting_le _ := List.length_filter_le _ _
  stream_init k := ⟨k, false, false, 0, []⟩
  header := OggPage.header
  body := OggPage.body
  fill_init _ := rfl
  serialno_init _ := rfl
  begun_init _ := rfl
  ended_init _ := rfl
  last_eq _ := rfl
  header_ne_nil g := by simp [OggPage.header, OggPage.headerParts]

end FreeJ
