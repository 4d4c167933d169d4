import Mathlib.Data.Int.Basic
import Mathlib.Data.List.Flatten
import FreeJ.Buttons

/-!
# The Video Mouse

`vimo_ctrl.cpp`. The device sends a byte `0xaa` from time to time and five bytes for each
event: `0x07`, then the four of the union `ViMoData`, the first of which is `0x03`. `poll`
reads whatever has arrived and keeps its place in `read_pos` and `vmd` until the next call.

The bit fields are those of a little endian machine. A store outside the union is `none`.
The packets that `dispatch` was called for, as they were on entry, and the calls it made are
recorded.

## Main results

* `ViMoController.receiveAll_eq`: reading a stream amounts to dispatching the packets that
  `frames` finds in it.
* `vimo_framing`: so does any run of calls of `poll` over the pieces of the stream, and sync
  bytes and packets are told apart whatever the packets hold.
-/

namespace FreeJ

/-- `unsigned char` -/
abbrev Byte := BitVec 8

/-- `union ViMoData`, as its bytes. -/
structure ViMoData where
  data : Vector Byte 4
  deriving DecidableEq, Repr

/-- `bits.o`, the outer wheel -/
def ViMoData.o (d : ViMoData) : BitVec 4 := d.data[1].extractLsb' 2 4

/-- `bits.i`, the inner wheel -/
def ViMoData.i (d : ViMoData) : BitVec 2 := d.data[1].extractLsb' 6 2

/-- `bits.k`, the button keys -/
def ViMoData.k (d : ViMoData) : BitVec 7 := d.data[2].extractLsb' 1 7

/-- Store into `bits.k`; the padding bit below stays. -/
def ViMoData.setK (d : ViMoData) (k : BitVec 7) : ViMoData :=
  ⟨d.data.set 2 (k ++ d.data[2].extractLsb' 0 1)⟩

/-- `data[pos] = ch` -/
def ViMoData.store (d : ViMoData) (pos : ℤ) (ch : Byte) : Option ViMoData :=
  if h : 0 ≤ pos ∧ pos < 4 then some ⟨d.data.set pos.toNat ch (by omega)⟩ else none

/-- The functions that `dispatch` calls back. -/
inductive ViMoEvent
  | button (event : ButtonEvent 8)
  | inner_wheel (direction : ℤ) (history : BitVec 32)
  | outer_wheel (speed old_speed : ℤ)
  deriving DecidableEq, Repr

/-- `ViMoController`, with the packets dispatched and the calls made so far. -/
structure ViMoController where
  initialized : Bool
  active : Bool
  fd : ℤ
  vmd : ViMoData
  vmd_old : ViMoData
  read_pos : ℤ
  /-- wheel history -/
  wi_hist : BitVec 32
  /-- inner wheel -1=left; 1=right -/
  wi_dir : ℤ
  dispatched : List ViMoData
  events : List ViMoEvent

/-- `wi_right` -/
def wi_right : Vector (BitVec 32) 4 := #v[0x1320, 0x3201, 0x0132, 0x2013]

/-- `wi_left` -/
def wi_left : Vector (BitVec 32) 4 := #v[0x2310, 0x0231, 0x3102, 0x1023]

/-- `o_wheel_speed` -/
def o_wheel_speed : Vector ℤ 16 := #v[-5, 5, -6, 6, -4, 4, -7, 7, -2, 2, -1, 1, -3, 3, 0, 0]

namespace ViMoController

/-- `dispatch`, button keys are inverted. -/
def dispatchKeys (s : ViMoController) : ViMoController :=
  { s with
    dispatched := s.dispatched ++ [s.vmd]
    vmd := s.vmd.setK (~~~s.vmd.k) }

/-- `dispatch`, the buttons. -/
def dispatchButtons (s : ViMoController) : ViMoController :=
  let mask := s.vmd.k.setWidth 8
  let old_mask := s.vmd_old.k.setWidth 8
  { s with events := s.events ++ (buttonEvents mask old_mask).map .button }

/-- `dispatch`, the inner wheel. -/
def dispatchInner (s : ViMoController) : ViMoController :=
  let i := s.vmd.i
  if i ^^^ s.vmd_old.i ≠ 0 then
    let wi_hist := s.wi_hist <<< 4 ||| i.setWidth 32
    let wi_dir :=
      if wi_right.get ⟨i.toNat, i.isLt⟩ = wi_hist &&& 0xffff then s.wi_dir + 1
      else if wi_left.get ⟨i.toNat, i.isLt⟩ = wi_hist &&& 0xffff then s.wi_dir - 1
      else s.wi_dir
    if i = 3 then -- wheel is on a lock position
      let wi_dir := if wi_dir > 0 then 1 else -1
      { s with
        wi_hist := wi_hist
        wi_dir := wi_dir
        events := s.events ++ [.inner_wheel wi_dir wi_hist] }
    else { s with wi_hist := wi_hist, wi_dir := wi_dir }
  else s

/-- `dispatch`, the outer wheel. -/
def dispatchOuter (s : ViMoController) : ViMoController :=
  let o := s.vmd.o
  let old := s.vmd_old.o
  if o ^^^ old ≠ 0 then
    let speed := o_wheel_speed.get ⟨o.toNat, o.isLt⟩
    let old_speed := o_wheel_speed.get ⟨old.toNat, old.isLt⟩
    { s with events := s.events ++ [.outer_wheel speed old_speed] }
  else s

/-- `dispatch`, the packet becomes the old one. -/
def dispatchDone (s : ViMoController) : ViMoController :=
  { s with vmd_old := s.vmd }

/-- `ViMoController::dispatch` -/
def dispatch (s : ViMoController) : ViMoController :=
  s.dispatchKeys.dispatchButtons.dispatchInner.dispatchOuter.dispatchDone


/-- `ViMoController::poll`, what is done with a byte that was read. -/
def receive (s : ViMoController) (ch : Byte) : Option ViMoController :=
  if s.read_pos = 0 then
    if ch = 0xaa then some s -- empty sync 1/s
    else if ch = 0x07 then some { s with read_pos := 1 } -- packet starts with 0x07 0x03
    else some s
  else
    (s.vmd.store (s.read_pos - 1) ch).map fun vmd =>
      let s := { s with vmd := vmd }
      if s.read_pos = 4 then -- packet complete
        let s := { s with read_pos := 0 }
        if s.vmd.data[0] = 0x03 then s.dispatch else s
      else { s with read_pos := s.read_pos + 1 }

/-- `ViMoController::poll`, the loop over the bytes that have arrived. -/
def receiveAll (s : ViMoController) (bytes : List Byte) : Option ViMoController :=
  bytes.foldlM receive s

end ViMoController

/-- How the loop of `poll` ends: nothing more has arrived, the line was closed, or `read`
failed in another way. -/
inductive ReadEnd
  | again
  | eof
  | failed
  deriving DecidableEq

namespace ViMoController

/-- `ViMoController::poll`, given the bytes that `read` returns during the call. -/
def poll (s : ViMoController) (bytes : List Byte) (last : ReadEnd) : Option ViMoController :=
  if !s.initialized then some s
  else if s.fd = 0 then some s -- not open
  else
    (s.receiveAll bytes).map fun s => if last = .failed then { s with active := false } else s

/-- One call of `poll` after the other, each until no more has arrived. -/
def polls (s : ViMoController) (chunks : List (List Byte)) : Option ViMoController :=
  chunks.foldlM (fun s bytes => s.poll bytes .again) s

/-- An initialized controller whose device was just opened. -/
structure Opened (s : ViMoController) : Prop where
  initialized : s.initialized = true
  fd : s.fd ≠ 0
  read_pos : s.read_pos = 0

/-- A controller just constructed, initialized and opened. -/
def opened (fd : ℤ) : ViMoController where
  initialized := true
  active := true
  fd := fd
  vmd := ⟨#v[0x03, 0xfc, 0, 0]⟩
  vmd_old := ⟨#v[0x03, 0xfc, 0, 0]⟩
  read_pos := 0
  wi_hist := 0
  wi_dir := 0
  dispatched := []
  events := []

end ViMoController

/-! ### The packets in a stream -/

/-- The packets of a stream: everything before a byte `0x07` is skipped, the four bytes after
it are a packet, whatever they are, and it counts when the first of them is `0x03`. -/
def frames : List Byte → List ViMoData
  | [] => []
  | ch :: rest =>
    if ch = 0x07 then
      match rest with
      | d0 :: d1 :: d2 :: d3 :: rest =>
        if d0 = 0x03 then ⟨#v[d0, d1, d2, d3]⟩ :: frames rest else frames rest
      | _ => []
    else frames rest

/-- What the device sends: a sync byte, or a packet. -/
inductive ViMoItem
  | sync
  | packet (w k c : Byte)

/-- The bytes of what is sent. -/
def ViMoItem.bytes : ViMoItem → List Byte
  | .sync => [0xaa]
  | .packet w k c => [0x07, 0x03, w, k, c]

/-- The union that a packet fills. -/
def ViMoItem.data : ViMoItem → Option ViMoData
  | .sync => none
  | .packet w k c => some ⟨#v[0x03, w, k, c]⟩

/-- A byte that is not a header is skipped. -/
theorem frames_skip {ch : Byte} (hch : ch ≠ 0x07) (bytes : List Byte) :
    frames (ch :: bytes) = frames bytes := by
  rw [frames.eq_def]
  exact if_neg hch

/-- A header and four bytes are a packet. -/
theorem frames_packet (d0 d1 d2 d3 : Byte) (bytes : List Byte) :
    frames (0x07 :: d0 :: d1 :: d2 :: d3 :: bytes) =
      if d0 = 0x03 then ⟨#v[d0, d1, d2, d3]⟩ :: frames bytes else frames bytes := by
  rw [frames.eq_def]
  exact if_pos rfl

/-- A packet that is not complete is not found. -/
theorem frames_part {bytes : List Byte} (hlen : bytes.length < 4) :
    frames (0x07 :: bytes) = [] := by
  rw [frames.eq_def]
  rcases bytes with _ | ⟨_, _ | ⟨_, _ | ⟨_, _ | ⟨_, _⟩⟩⟩⟩
  case cons.cons.cons.cons =>
      simp only [List.length_cons] at hlen
      omega
  all_goals rfl

/-- **Framing.** In what the device sends `frames` finds every packet, in order and with its
bytes. -/
theorem frames_items (items : List ViMoItem) :
    frames (items.flatMap ViMoItem.bytes) = items.filterMap ViMoItem.data := by
  induction items with
  | nil => rfl
  | cons item items ih =>
      rw [List.flatMap_cons, List.filterMap_cons]
      cases item with
      | sync =>
          simp only [ViMoItem.bytes, ViMoItem.data, List.cons_append, List.nil_append]
          rw [frames_skip (by decide), ih]
      | packet w k c =>
          simp only [ViMoItem.bytes, ViMoItem.data, List.cons_append, List.nil_append]
          rw [frames_packet, if_pos rfl, ih]

namespace ViMoController

variable {s t : ViMoController} {bytes : List Byte}

/-- `dispatch`, the inner wheel: its history and direction and at most a call of
`inner_wheel`. -/
theorem dispatchInner_eq (s : ViMoController) :
    ∃ hist dir calls, (∀ e ∈ calls, ∀ b, e ≠ .button b) ∧
      s.dispatchInner =
        { s with wi_hist := hist, wi_dir := dir, events := s.events ++ calls } := by
  simp only [dispatchInner]
  split
  · split
    · exact ⟨_, _, [_], by simp, rfl⟩
    · exact ⟨_, _, [], by simp, by rw [List.append_nil]⟩
  · exact ⟨s.wi_hist, s.wi_dir, [], by simp, by simp⟩

/-- `dispatch`, the outer wheel: at most a call of `outer_wheel`. -/
theorem dispatchOuter_eq (s : ViMoController) :
    ∃ calls, (∀ e ∈ calls, ∀ b, e ≠ .button b) ∧
      s.dispatchOuter = { s with events := s.events ++ calls } := by
  simp only [dispatchOuter]
  split
  · exact ⟨[_], by simp, rfl⟩
  · exact ⟨[], by simp, by simp⟩

/-- **What `dispatch` does**: the keys are inverted, the calls of `button` come first, the
wheels follow, and the packet becomes the old one. -/
theorem dispatch_eq (s : ViMoController) :
    ∃ hist dir calls, (∀ e ∈ calls, ∀ b, e ≠ ViMoEvent.button b) ∧
      s.dispatch = { s with
        vmd := s.vmd.setK (~~~s.vmd.k)
        vmd_old := s.vmd.setK (~~~s.vmd.k)
        wi_hist := hist
        wi_dir := dir
        dispatched := s.dispatched ++ [s.vmd]
        events := s.events ++ (buttonEvents ((s.vmd.setK (~~~s.vmd.k)).k.setWidth 8)
          (s.vmd_old.k.setWidth 8)).map .button ++ calls } := by
  obtain ⟨hist, dir, calls, hcalls, hinner⟩ := dispatchInner_eq s.dispatchKeys.dispatchButtons
  obtain ⟨more, hmore, houter⟩ := dispatchOuter_eq s.dispatchKeys.dispatchButtons.dispatchInner
  refine ⟨hist, dir, calls ++ more, ?_, ?_⟩
  · intro e he
    rcases List.mem_append.mp he with he | he
    · exact hcalls e he
    · exact hmore e he
  · rw [dispatch, houter, hinner]
    simp [dispatchKeys, dispatchButtons, dispatchDone]

/-- Dispatch the packets one after the other. -/
def deliver (s : ViMoController) (packets : List ViMoData) : ViMoController :=
  packets.foldl (fun s d => dispatch { s with vmd := d }) s

/-- What `vmd` holds before the packets is of no consequence. -/
theorem deliver_vmd (s : ViMoController) (packets : List ViMoData) (v v' : ViMoData) (p : ℤ) :
    { deliver { s with vmd := v } packets with vmd := v', read_pos := p } =
      { deliver s packets with vmd := v', read_pos := p } := by
  cases packets <;> rfl

/-- Bytes after a header that do not complete the packet are stored. -/
theorem receiveAll_part (bytes : List Byte) (hpos : 1 ≤ s.read_pos)
    (hlen : s.read_pos + bytes.length ≤ 4) :
    ∃ v, s.receiveAll bytes =
      some { s with vmd := v, read_pos := s.read_pos + bytes.length } := by
  induction bytes generalizing s with
  | nil => exact ⟨s.vmd, by simp [receiveAll]⟩
  | cons ch bytes ih =>
      rw [List.length_cons] at hlen
      push_cast at hlen
      have hstep : s.receive ch = some { s with
          vmd := ⟨s.vmd.data.set (s.read_pos - 1).toNat ch (by omega)⟩
          read_pos := s.read_pos + 1 } := by
        simp only [receive, ViMoData.store]
        rw [if_neg (by omega), dif_pos (by omega), Option.map_some, if_neg (by omega)]
      obtain ⟨v, hv⟩ := @ih { s with
          vmd := ⟨s.vmd.data.set (s.read_pos - 1).toNat ch (by omega)⟩
          read_pos := s.read_pos + 1 } (by dsimp only; omega) (by dsimp only; omega)
      refine ⟨v, ?_⟩
      simp only [receiveAll, List.foldlM_cons, hstep, Option.bind_eq_bind, Option.bind_some] at hv ⊢
      rw [hv, List.length_cons]
      push_cast
      rw [Int.add_assoc, Int.add_comm 1]

/-- The four stores of a packet fill the union. -/
theorem set_data (v : Vector Byte 4) (d0 d1 d2 d3 : Byte) :
    (((v.set 0 d0).set 1 d1).set 2 d2).set 3 d3 = #v[d0, d1, d2, d3] := by
  refine Vector.ext fun i hi => ?_
  obtain rfl | rfl | rfl | rfl : i = 0 ∨ i = 1 ∨ i = 2 ∨ i = 3 := by omega
  all_goals simp

/-- A header and four bytes are a packet. -/
theorem receiveAll_packet (hpos : s.read_pos = 0) (d0 d1 d2 d3 : Byte) (bytes : List Byte) :
    s.receiveAll (0x07 :: d0 :: d1 :: d2 :: d3 :: bytes) =
      if d0 = 0x03 then (dispatch { s with vmd := ⟨#v[d0, d1, d2, d3]⟩ }).receiveAll bytes
      else receiveAll { s with vmd := ⟨#v[d0, d1, d2, d3]⟩ } bytes := by
  simp only [← set_data s.vmd.data d0 d1 d2 d3]
  by_cases hd : d0 = 3#8
  · simp [receiveAll, receive, ViMoData.store, hpos, hd]
  · simp [receiveAll, receive, ViMoData.store, hpos, hd]

/-- **Reading a stream** from between two packets dispatches the packets that are in it; no
byte is stored outside the union. -/
theorem receiveAll_eq (hpos : s.read_pos = 0) (bytes : List Byte) :
    ∃ v p, s.receiveAll bytes = some { s.deliver (frames bytes) with vmd := v, read_pos := p } ∧
      0 ≤ p ∧ p ≤ 4 := by
  induction bytes using frames.induct generalizing s with
  | case1 =>
      refine ⟨s.vmd, 0, ?_, by omega, by omega⟩
      simp [receiveAll, frames, deliver, ← hpos]
  | case2 d1 d2 d3 bytes ih =>
      obtain ⟨_, _, _, _, hdisp⟩ := dispatch_eq { s with vmd := ⟨#v[0x03, d1, d2, d3]⟩ }
      rw [receiveAll_packet hpos, frames_packet, if_pos rfl, if_pos rfl]
      exact ih (by rw [hdisp]; exact hpos)
  | case3 d0 d1 d2 d3 bytes hd ih =>
      rw [receiveAll_packet hpos, frames_packet, if_neg hd, if_neg hd]
      obtain ⟨v, p, hv, hp⟩ := @ih { s with vmd := ⟨#v[d0, d1, d2, d3]⟩ } hpos
      exact ⟨v, p, hv.trans (congrArg some (deliver_vmd s _ _ v p)), hp⟩
  | case4 bytes hpart =>
      have hlen : bytes.length < 4 := by
        rcases bytes with _ | ⟨d0, _ | ⟨d1, _ | ⟨d2, _ | ⟨d3, bytes⟩⟩⟩⟩
        case cons.cons.cons.cons => exact absurd rfl (hpart d0 d1 d2 d3 bytes)
        all_goals simp
      obtain ⟨v, hv⟩ := @receiveAll_part { s with read_pos := 1 } bytes (Int.le_refl 1)
        (by dsimp only; omega)
      have hstart : s.receiveAll (0x07 :: bytes) = receiveAll { s with read_pos := 1 } bytes := by
        simp [receiveAll, receive, hpos]
      refine ⟨v, 1 + bytes.length, hstart.trans (hv.trans ?_), by omega, by omega⟩
      rw [frames_part hlen]
      rfl
  | case5 ch bytes hch ih =>
      have hstep : s.receive ch = some s := by
        simp only [receive]
        rw [if_pos hpos, if_neg hch, ite_self]
      obtain ⟨v, p, hv, hp⟩ := ih hpos
      refine ⟨v, p, ?_, hp⟩
      rw [frames_skip hch, ← hv]
      simp [receiveAll, hstep]

/-! ### The calls of `poll` -/

/-- A stream leaves the controller initialized and open. -/
theorem receiveAll_open (h : s.receiveAll bytes = some t) :
    t.initialized = s.initialized ∧ t.fd = s.fd := by
  induction bytes generalizing s with
  | nil =>
      obtain rfl : s = t := Option.some.inj h
      exact ⟨rfl, rfl⟩
  | cons ch bytes ih =>
      obtain ⟨u, hu, h⟩ := Option.bind_eq_some_iff.mp h
      have hopen : u.initialized = s.initialized ∧ u.fd = s.fd := by
        simp only [receive] at hu
        split at hu
        · split at hu
          · obtain rfl := Option.some.inj hu
            exact ⟨rfl, rfl⟩
          · split at hu <;> obtain rfl := Option.some.inj hu <;> exact ⟨rfl, rfl⟩
        · obtain ⟨v, -, rfl⟩ := Option.map_eq_some_iff.mp hu
          split
          · split
            · obtain ⟨_, _, _, _, hdisp⟩ := dispatch_eq { s with vmd := v, read_pos := 0 }
              rw [hdisp]
              exact ⟨rfl, rfl⟩
            · exact ⟨rfl, rfl⟩
          · exact ⟨rfl, rfl⟩
      obtain ⟨hi, hf⟩ := ih h
      exact ⟨hi.trans hopen.1, hf.trans hopen.2⟩

/-- A stream is read on from where its first part left off. -/
theorem receiveAll_append (s : ViMoController) (bytes more : List Byte) :
    s.receiveAll (bytes ++ more) = (s.receiveAll bytes).bind fun t => t.receiveAll more :=
  List.foldlM_append

/-- **The calls of `poll` read one stream**, however it is cut into pieces. -/
theorem polls_eq (hi : s.initialized = true) (hfd : s.fd ≠ 0) (chunks : List (List Byte)) :
    s.polls chunks = s.receiveAll chunks.flatten := by
  induction chunks generalizing s with
  | nil => rfl
  | cons bytes chunks ih =>
      have hpoll : s.poll bytes .again = s.receiveAll bytes := by
        simp only [poll]
        rw [hi, if_neg (by decide), if_neg hfd]
        exact Option.map_id_apply
      rw [polls, List.foldlM_cons, hpoll, List.flatten_cons, receiveAll_append]
      rcases hu : s.receiveAll bytes with _ | u
      · rfl
      · obtain ⟨hui, huf⟩ := receiveAll_open hu
        exact ih (hui.trans hi) (huf ▸ hfd)

/-- The packets delivered are the packets dispatched. -/
theorem deliver_dispatched (s : ViMoController) (packets : List ViMoData) :
    (s.deliver packets).dispatched = s.dispatched ++ packets := by
  induction packets generalizing s with
  | nil => simp [deliver]
  | cons d packets ih =>
      obtain ⟨_, _, _, _, hdisp⟩ := dispatch_eq { s with vmd := d }
      have hstep : (dispatch { s with vmd := d }).dispatched = s.dispatched ++ [d] := by
        rw [hdisp]
      rw [deliver, List.foldl_cons]
      exact (ih _).trans (by rw [hstep, List.append_assoc, List.singleton_append])

/-! ### The buttons -/

/-- The mask that a packet reports: its keys, inverted. -/
def mask (d : ViMoData) : BitVec 8 := (~~~d.k).setWidth 8

/-- The calls of `button`. -/
def buttonCalls (s : ViMoController) : List (ButtonEvent 8) :=
  s.events.filterMap fun
    | .button e => some e
    | _ => none

/-- The bit field holds what was stored into it. -/
theorem setK_k (d : ViMoData) (k : BitVec 7) : (d.setK k).k = k := by
  simp only [ViMoData.setK, ViMoData.k, Vector.getElem_set_self]
  refine BitVec.eq_of_getLsbD_eq fun i hi => ?_
  rw [BitVec.getLsbD_extractLsb']
  refine (congrArg _ BitVec.getLsbD_append).trans ?_
  simp [hi]

/-- The calls of `button` made by one `dispatch`. -/
theorem dispatch_buttonCalls (s : ViMoController) :
    s.dispatch.buttonCalls =
        s.buttonCalls ++ buttonEvents (mask s.vmd) (s.vmd_old.k.setWidth 8) ∧
      s.dispatch.vmd_old.k.setWidth 8 = mask s.vmd := by
  obtain ⟨_, _, calls, hcalls, hdisp⟩ := dispatch_eq s
  have hnone : calls.filterMap (fun
      | .button e => some e
      | _ => none) = [] := by
    refine List.filterMap_eq_nil_iff.mpr fun e he => ?_
    cases e with
    | button b => exact absurd rfl (hcalls _ he b)
    | inner_wheel => rfl
    | outer_wheel => rfl
  have hbuttons : ∀ events : List (ButtonEvent 8), (events.map ViMoEvent.button).filterMap (fun
      | .button e => some e
      | _ => none) = events := by
    intro events
    rw [List.filterMap_map]
    exact List.filterMap_some
  rw [hdisp]
  simp only [buttonCalls, List.filterMap_append, hnone, hbuttons, setK_k, mask, List.append_nil,
    and_self]

/-- **The calls of `button`** for any packets are those for the masks they report. -/
theorem deliver_reconstructs (s : ViMoController) (packets : List ViMoData) :
    ∃ calls, (s.deliver packets).buttonCalls = s.buttonCalls ++ calls ∧
      Reconstructs (s.vmd_old.k.setWidth 8) (packets.map mask) calls := by
  induction packets generalizing s with
  | nil => exact ⟨[], by simp [deliver], rfl⟩
  | cons d packets ih =>
      obtain ⟨hcalls, hold⟩ := dispatch_buttonCalls { s with vmd := d }
      obtain ⟨calls, hmore, hrest⟩ := ih (dispatch { s with vmd := d })
      refine ⟨buttonEvents (mask d) (s.vmd_old.k.setWidth 8) ++ calls, ?_, _, calls, rfl,
        report_buttonEvents _ _, ?_⟩
      · rw [deliver, List.foldl_cons]
        exact hmore.trans (by rw [hcalls, List.append_assoc]; rfl)
      · exact hold ▸ hrest

end ViMoController

open ViMoController

/-- **Serial framing.** However the stream of an open controller is cut into calls of `poll`,
they leave what reading it in one piece would: the packets dispatched are those that `frames`
finds in the whole stream; when the device sent sync bytes and packets, they are these
packets, each once, in order and with its bytes; and at every byte of the stream `read_pos` is
in `0..4` and no store was outside the union. -/
theorem vimo_framing {s : ViMoController} (hs : s.Opened) (chunks : List (List Byte)) :
    ∃ t, s.polls chunks = some t ∧ s.receiveAll chunks.flatten = some t ∧
      t.dispatched = s.dispatched ++ frames chunks.flatten ∧
      (∀ items : List ViMoItem, chunks.flatten = items.flatMap ViMoItem.bytes →
        t.dispatched = s.dispatched ++ items.filterMap ViMoItem.data) ∧
      ∀ bytes, bytes <+: chunks.flatten →
        ∃ u, s.receiveAll bytes = some u ∧ 0 ≤ u.read_pos ∧ u.read_pos ≤ 4 := by
  obtain ⟨v, p, hall, -, -⟩ := receiveAll_eq hs.read_pos chunks.flatten
  have hdisp := deliver_dispatched s (frames chunks.flatten)
  refine ⟨_, (polls_eq hs.initialized hs.fd chunks).trans hall, hall, hdisp, ?_, ?_⟩
  · intro items hitems
    rw [hitems, frames_items] at hdisp ⊢
    exact hdisp
  · intro bytes _
    obtain ⟨v, p, hall, hp⟩ := receiveAll_eq hs.read_pos bytes
    exact ⟨_, hall, hp⟩

/-- A packet that holds the values of a header and of a sync byte, cut in the middle and with
a sync byte before it. -/
theorem vimo_framing_cut :
    ∃ t, (opened 3).polls [[0xaa, 0x07, 0x03], [0x07], [0xaa, 0x07]] = some t ∧
      t.dispatched = [⟨#v[0x03, 0x07, 0xaa, 0x07]⟩] := by
  obtain ⟨t, hpolls, -, -, hitems, -⟩ := vimo_framing (s := opened 3) ⟨rfl, by decide, rfl⟩
    [[0xaa, 0x07, 0x03], [0x07], [0xaa, 0x07]]
  exact ⟨t, hpolls, hitems [.sync, .packet 0x07 0xaa 0x07] rfl⟩

end FreeJ
